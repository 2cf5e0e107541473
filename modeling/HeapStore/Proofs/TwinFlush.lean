import Mathlib.Data.List.Dedup
import HeapStore.Proofs.PageFlush
import HeapStore.Proofs.TwinUpdates

/-! Write-back in two engines that are twins. A page that rests is passed over, so a flush comes to the
same over all pages that are resident in either engine, in the order of their ids; and a page that does
not rest is resident in both, with the same bytes. -/

namespace HeapStore

open Pool (Compatible)

namespace PageId

theorem le_iff {p q : PageId} : p.le q = true ↔
    p.table < q.table ∨ p.table = q.table ∧ p.page ≤ q.page := by
  simp [le]

theorem le_trans (p q r : PageId) (h : p.le q = true) (h' : q.le r = true) : p.le r = true := by
  rw [le_iff] at h h' ⊢
  omega

theorem le_total (p q : PageId) : (p.le q || q.le p) = true := by
  rw [Bool.or_eq_true, le_iff, le_iff]
  omega

theorem le_antisymm {p q : PageId} (h : p.le q = true) (h' : q.le p = true) : p = q := by
  rw [le_iff] at h h'
  cases p
  cases q
  rw [PageId.mk.injEq]
  simp only at h h'
  omega

end PageId

namespace Pool

variable {p : Pool} {held : List Checkout}

/-- The ids of the resident pages in their order. -/
def residentIds (p : Pool) : List PageId := p.residents.map (·.page)

theorem Sound.mem_residentIds (h : p.Sound held) {id : PageId} :
    id ∈ p.residentIds ↔ (p.copyOf? id).isSome = true := by
  unfold residentIds
  rw [List.mem_map, Option.isSome_iff_exists]
  constructor
  · intro ⟨r, hr, hid⟩
    rw [h.mem_residents, hid] at hr
    exact ⟨_, hr⟩
  · intro ⟨c, hc⟩
    exact ⟨⟨id, c⟩, h.mem_residents.2 hc, rfl⟩

theorem residentIds_sorted (p : Pool) : p.residentIds.Pairwise fun id id' => id.le id' = true := by
  unfold residentIds residents
  rw [List.pairwise_map]
  exact List.pairwise_mergeSort (fun r s t => PageId.le_trans r.page s.page t.page)
    (fun r s => PageId.le_total r.page s.page) _

theorem Sound.nodup_residentIds (h : p.Sound held) : p.residentIds.Nodup := by
  unfold residentIds residents
  rw [((List.mergeSort_perm _ _).map _).nodup_iff, List.Nodup, List.pairwise_map,
    List.pairwise_filterMap, List.pairwise_iff_getElem]
  intro i j hi hj hij r hr s hs hpage
  have seat : ∀ k (hk : k < p.frames.toList.length) x, p.frames.toList[k].resident = some x →
      p.seat k = some x := by
    intro k hk x hx
    rw [Pool.seat, frame, Array.getD_eq_getD_getElem?, ← Array.getElem?_toList,
      List.getElem?_eq_getElem hk]
    exact hx
  have hri : p.seat i = some ⟨r.page, r.copy⟩ := seat i hi r hr
  have hsj : p.seat j = some ⟨r.page, s.copy⟩ := by rw [seat j hj s hs, hpage]
  exact absurd (h.seat_inj hri hsj) (Nat.ne_of_lt hij)

/-- The resident ids can be picked from any list in order that has them all. -/
theorem Sound.filter_resident (h : p.Sound held) {ids : List PageId} (hn : ids.Nodup)
    (hs : ids.Pairwise fun id id' => id.le id' = true) (hall : ∀ id ∈ p.residentIds, id ∈ ids) :
    ids.filter (fun id => (p.copyOf? id).isSome) = p.residentIds := by
  refine List.Perm.eq_of_pairwise (fun _ _ _ _ => PageId.le_antisymm) (hs.filter _)
    p.residentIds_sorted ?_
  rw [List.perm_ext_iff_of_nodup (hn.filter _) h.nodup_residentIds]
  intro id
  rw [List.mem_filter, h.mem_residentIds]
  exact ⟨fun hid => hid.2, fun hid => ⟨hall id (h.mem_residentIds.2 hid), hid⟩⟩

end Pool

theorem Page.Alike.cleaned {p q : Page} (h : p.Alike q) (hp : p.Sound) (hq : q.Sound) :
    p.cleaned.Alike q.cleaned :=
  ⟨⟨h.header, h.row⟩, h.id, h.schema, h.layout, rfl, h.toBytes_eq hp hq⟩

theorem Page.Alike.isSelected_eq {p q : Page} (h : p.Alike q) (only : Option TxnId) :
    q.isSelected only = p.isSelected only := by
  unfold isSelected
  rw [h.dirtiedBy]

namespace Engine

variable {e f : Engine} {held held' : List Checkout} {loose loose' : Nat → Prop} {id : PageId}

/-- Writes back a page if it is resident and selected. -/
def flushAt (e : Engine) (id : PageId) (only : Option TxnId) : Except Error Bool × Engine :=
  match e.pool.copyOf? id with
  | none => (.ok false, e)
  | some copy => e.writeBack id copy only

/-- Writes back the resident ones of these pages in turn. -/
def flushEach (only : Option TxnId) (count : Nat) : List PageId → Engine → Except Error Nat × Engine
  | [], e => (.ok count, e)
  | id :: ids, e =>
    match e.flushAt id only with
    | (.error err, e) => (.error err, e)
    | (.ok written, e) => flushEach only (if written then count + 1 else count) ids e

theorem copyOf?_flushAt (e : Engine) (id : PageId) (only : Option TxnId) (id' : PageId) :
    (e.flushAt id only).2.pool.copyOf? id' = e.pool.copyOf? id' := by
  unfold flushAt
  split
  · rfl
  · exact e.copyOf?_writeBack _ _ _ _

theorem writeBackAll_eq_flushEach (only : Option TxnId) (count : Nat) (rs : List Resident)
    (hrs : ∀ r ∈ rs, e.pool.copyOf? r.page = some r.copy) :
    writeBackAll only count rs e = flushEach only count (rs.map (·.page)) e := by
  induction rs generalizing e count with
  | nil => rfl
  | cons r rs ih =>
    have hflush : e.flushAt r.page only = e.writeBack r.page r.copy only := by
      unfold flushAt
      rw [hrs r List.mem_cons_self]
    have hcopy := e.copyOf?_flushAt r.page only
    rw [List.map_cons, writeBackAll, flushEach, ← hflush]
    cases heq : e.flushAt r.page only with
    | mk b e1 =>
      rw [heq] at hcopy
      cases b with
      | error err => rfl
      | ok written => exact ih _ fun r' hr' => (hcopy _).trans (hrs r' (List.mem_cons_of_mem _ hr'))

/-- Pages that are not resident make no difference. -/
theorem flushEach_filter (only : Option TxnId) (count : Nat) (ids : List PageId) {p : Pool}
    (hp : ∀ id, e.pool.copyOf? id = p.copyOf? id) :
    flushEach only count (ids.filter fun id => (p.copyOf? id).isSome) e =
      flushEach only count ids e := by
  induction ids generalizing e count with
  | nil => rfl
  | cons id ids ih =>
    rw [List.filter_cons]
    split
    · have hcopy := e.copyOf?_flushAt id only
      rw [flushEach, flushEach]
      cases heq : e.flushAt id only with
      | mk b e1 =>
        rw [heq] at hcopy
        cases b with
        | error err => rfl
        | ok written => exact ih _ fun id' => (hcopy id').trans (hp id')
    · next hnone =>
      have hnone : e.pool.copyOf? id = none := by simpa [hp] using hnone
      have hflush : e.flushAt id only = (.ok false, e) := by
        unfold flushAt
        rw [hnone]
      rw [flushEach, hflush]
      exact ih count hp

theorem Coherent.flush_eq (h : e.Coherent held loose) (only : Option TxnId) {ids : List PageId}
    (hn : ids.Nodup) (hs : ids.Pairwise fun id id' => id.le id' = true)
    (hall : ∀ id ∈ e.pool.residentIds, id ∈ ids) :
    writeBackAll only 0 e.pool.residents e = flushEach only 0 ids e := by
  rw [writeBackAll_eq_flushEach only 0 _ fun r hr => h.pool.mem_residents.1 hr,
    ← flushEach_filter only 0 ids fun _ => rfl, h.pool.filter_resident hn hs hall]
  rfl

theorem Coherent.flushAt_of_rests (h : e.Coherent held loose) (hr : e.Rests held id)
    (only : Option TxnId) : e.flushAt id only = (.ok false, e) := by
  unfold flushAt
  cases hc : e.pool.copyOf? id with
  | none => rfl
  | some c =>
    obtain ⟨p, hp⟩ := h.exists_page hc
    have hclean := hr.1
    rw [dirtiedBy_of_copyOf? hc hp] at hclean
    rcases h.writeBack_cases hc hp only with ⟨hlocked, -⟩ | ⟨-, -, heq⟩ | ⟨-, hsel, -⟩
    · exact absurd ((admits_iff hc _).1 hr.2) hlocked
    · exact heq
    · unfold Page.isSelected at hsel
      rw [hclean] at hsel
      cases hsel

namespace Twins

theorem writeBack (h : Twins e f held held' loose loose') {c c' : Nat} {p q : Page}
    (ho : Opposite e f id c c' p q) (only : Option TxnId) :
    ∃ r e' f', e.writeBack id c only = (r, e') ∧ f.writeBack id c' only = (r, f') ∧
      Abreast held held' loose loose' e f e' f' := by
  obtain ⟨ha, hp, hq⟩ := h.alike ho
  have hadmits : Compatible held c .exclusive ↔ Compatible held' c' .exclusive := by
    rw [← Engine.admits_iff ho.small, ← Engine.admits_iff ho.large]
    exact h.toPaired.admits_iff id .exclusive
  have hsel := ha.isSelected_eq only
  rcases h.small.writeBack_cases ho.small ho.page only with ⟨hn, heq⟩ | ⟨hy, hs, heq⟩ |
    ⟨hy, hs, t, ht, hb, heq⟩
  · rcases h.large.writeBack_cases ho.large ho.page' only with ⟨-, heq'⟩ | ⟨hy', -⟩ | ⟨hy', -⟩
    · exact ⟨_, _, _, heq, heq', .refl h⟩
    · exact absurd (hadmits.2 hy') hn
    · exact absurd (hadmits.2 hy') hn
  · rcases h.large.writeBack_cases ho.large ho.page' only with ⟨hn', -⟩ | ⟨-, -, heq'⟩ | ⟨-, hs', -⟩
    · exact absurd (hadmits.1 hy) hn'
    · exact ⟨_, _, _, heq, heq', .refl h⟩
    · rw [hsel, hs] at hs'
      cases hs'
  · rcases h.large.writeBack_cases ho.large ho.page' only with ⟨hn', -⟩ | ⟨-, hs', -⟩ |
      ⟨hy', -, t', ht', hb', heq'⟩
    · exact absurd (hadmits.1 hy) hn'
    · rw [hsel, hs] at hs'
      cases hs'
    · have htables := h.table?_eq id.table
      rw [ht', ht] at htables
      cases htables
      obtain ⟨hcoh, hch⟩ := h.small.wrote ho.small ho.page hy ht hb
      obtain ⟨hcoh', hch'⟩ := h.large.wrote ho.large ho.page' hy' ht' hb'
      refine ⟨_, _, _, heq, heq', h.abreast hcoh hcoh' hch.toFollows hch'.toFollows ?_ ?_⟩
      · exact h.pages.changed hch hch' (ha.cleaned hp hq)
      · unfold Engine.wrote
        rw [h.disk, ha.toBytes_eq hp hq]

theorem flushAt (h : Twins e f held held' loose loose') (id : PageId) (only : Option TxnId) :
    ∃ r e' f', e.flushAt id only = (r, e') ∧ f.flushAt id only = (r, f') ∧
      Abreast held held' loose loose' e f e' f' := by
  by_cases hrest : e.Rests held id
  · have hrest' := (h.rests_iff id).1 hrest
    exact ⟨_, _, _, h.small.flushAt_of_rests hrest only, h.large.flushAt_of_rests hrest' only, .refl h⟩
  · have hrest' := fun hr => hrest ((h.rests_iff id).2 hr)
    -- the page is resident in both
    cases hc : e.pool.copyOf? id with
    | none => exact absurd (rests_of_none hc) hrest
    | some c =>
      cases hc' : f.pool.copyOf? id with
      | none => exact absurd (rests_of_none hc') hrest'
      | some c' =>
        obtain ⟨p, hp⟩ := h.small.exists_page hc
        obtain ⟨q, hq⟩ := h.large.exists_page hc'
        unfold Engine.flushAt
        simp only [hc, hc']
        exact h.writeBack ⟨hc, hc', hp, hq⟩ only

theorem flushEach (h : Twins e f held held' loose loose') (only : Option TxnId) (count : Nat)
    (ids : List PageId) : ∃ r e' f', flushEach only count ids e = (r, e') ∧
      flushEach only count ids f = (r, f') ∧ Abreast held held' loose loose' e f e' f' := by
  induction ids generalizing e f count with
  | nil => exact ⟨_, _, _, rfl, rfl, .refl h⟩
  | cons id ids ih =>
    obtain ⟨r, e1, f1, he, hf, hab⟩ := h.flushAt id only
    unfold Engine.flushEach
    rw [he, hf]
    cases r with
    | error err => exact ⟨_, _, _, rfl, rfl, hab⟩
    | ok written =>
      obtain ⟨r, e2, f2, he2, hf2, hab2⟩ := ih hab.twins (if written then count + 1 else count)
      exact ⟨r, e2, f2, he2, hf2, hab.trans hab2⟩

/-- A flush over all resident pages writes the same pages in both. -/
theorem flushResidents (h : Twins e f held held' loose loose') (only : Option TxnId) :
    ∃ r e' f', writeBackAll only 0 e.pool.residents e = (r, e') ∧
      writeBackAll only 0 f.pool.residents f = (r, f') ∧
      Abreast held held' loose loose' e f e' f' := by
  let ids := (e.pool.residentIds ++ f.pool.residentIds).dedup.mergeSort PageId.le
  have hmem (id : PageId) : id ∈ ids ↔ id ∈ e.pool.residentIds ∨ id ∈ f.pool.residentIds := by
    rw [(List.mergeSort_perm _ _).mem_iff, List.mem_dedup, List.mem_append]
  have hnodup : ids.Nodup := (List.mergeSort_perm _ _).nodup_iff.2 (List.nodup_dedup _)
  have hsorted : ids.Pairwise fun id id' => id.le id' = true :=
    List.pairwise_mergeSort PageId.le_trans PageId.le_total _
  rw [h.small.flush_eq only hnodup hsorted fun id hid => (hmem id).2 (.inl hid),
    h.large.flush_eq only hnodup hsorted fun id hid => (hmem id).2 (.inr hid)]
  exact h.flushEach only 0 ids

end Twins

end Engine

end HeapStore
