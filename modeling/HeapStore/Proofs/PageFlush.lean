import HeapStore.Engine.WriteBack
import HeapStore.Proofs.TupleUpdates

/-! Write-back. A page that is written is clean afterwards, its window of the file holds its bytes and
no other window has changed; so the rows of no page change, wherever a flush over several pages stops. -/

namespace HeapStore

open Pool (Compatible)

/-- The page once its bytes are in the file. -/
def Page.cleaned (p : Page) : Page := { p with dirtiedBy := none, beforeBytes := p.toBytes }

/-- Is the page dirty and, where `only` names a transaction, dirty by that one? -/
def Page.isSelected (p : Page) (only : Option TxnId) : Bool :=
  p.dirtiedBy.any fun txn => !only.any (· ≠ txn)

theorem Page.isSelected_none_iff {p : Page} : p.isSelected none = true ↔ p.dirtiedBy ≠ none := by
  unfold isSelected
  cases p.dirtiedBy <;> simp

theorem Page.isSelected_some_iff {p : Page} {txn : TxnId} :
    p.isSelected (some txn) = true ↔ p.dirtiedBy = some txn := by
  unfold isSelected
  cases p.dirtiedBy <;> simp [eq_comm]

namespace Table

variable {t : Table} {d : Disk} {n : Nat} {data : Bytes}

/-- Writing a page that is there leaves a file small. -/
theorem Small.store (hst : t.Stands d) (hs : t.Small d) (hl : data.length = t.pageSize)
    (hn : n < t.pageCount d) : t.Small (t.store d n data) := by
  have hp := t.pageSize_pos
  have hlt := (hs.lt_pageCount_iff n).1 hn
  unfold Small at hs ⊢
  rw [size_store hst hl]
  have hle : (n + 1) * t.pageSize ≤ 0xFFFFFFFF * t.pageSize := by
    apply Nat.mul_le_mul_right
    have := (Nat.mul_lt_mul_right hp).1 (Nat.lt_of_lt_of_le hlt hs)
    omega
  rw [Nat.add_one_mul] at hle
  omega

end Table

namespace Pool

variable {p : Pool} {held : List Checkout}

theorem mem_seats {r : Resident} :
    r ∈ p.frames.toList.filterMap (·.resident) ↔ ∃ i, p.seat i = some r := by
  rw [List.mem_filterMap]
  constructor
  · rintro ⟨f, hf, hr⟩
    obtain ⟨i, hi⟩ := List.mem_iff_getElem?.1 hf
    refine ⟨i, ?_⟩
    rw [Array.getElem?_toList] at hi
    rw [seat, frame, Array.getD_eq_getD_getElem?, hi]
    exact hr
  · rintro ⟨i, hi⟩
    have hlt : i < p.frames.size := lt_numFrames_of_seat hi
    refine ⟨p.frames[i], Array.mem_toList_iff.2 (Array.getElem_mem hlt), ?_⟩
    rw [seat, frame, Array.getD_eq_getD_getElem?, Array.getElem?_eq_getElem hlt] at hi
    exact hi

theorem Sound.mem_residents (h : p.Sound held) {r : Resident} :
    r ∈ p.residents ↔ p.copyOf? r.page = some r.copy := by
  unfold residents
  rw [(List.mergeSort_perm _ _).mem_iff, mem_seats, h.copyOf?_eq_some]

end Pool

namespace Engine

variable {e e' e'' : Engine} {held : List Checkout} {loose : Nat → Prop} {id : PageId}
  {c : Nat} {p : Page} {t : Table}

/-- The engine after a page was written to its file. -/
def wrote (e : Engine) (t : Table) (id : PageId) (c : Nat) (p : Page) : Engine :=
  { disk := t.store e.disk id.page p.toBytes
    pool := { e.pool with copies := e.pool.copies.setPage c p.cleaned } }

theorem copyOf?_writeBack (e : Engine) (id : PageId) (c : Nat) (only : Option TxnId) (id' : PageId) :
    (e.writeBack id c only).2.pool.copyOf? id' = e.pool.copyOf? id' := by
  unfold writeBack
  repeat' split
  all_goals rfl

/-- A copy is refused while somebody has it checked out; then it is written if it is selected. -/
theorem writeBack_of_sound (h : e.pool.Sound held) (hp : e.pool.copies.page? c = some p)
    (id : PageId) (only : Option TxnId) :
    (¬ Compatible held c .exclusive ∧
      e.writeBack id c only = (.error (.aborted (.lockTimeout .exclusive id)), e)) ∨
    (Compatible held c .exclusive ∧ p.isSelected only = false ∧
      e.writeBack id c only = (.ok false, e)) ∨
    (Compatible held c .exclusive ∧ p.isSelected only = true ∧
      ∀ t, e.table? id.table = some t →
        t.writePage e.disk p = (.ok (), p.withBefore p.toBytes, t.store e.disk id.page p.toBytes) →
        e.writeBack id c only = (.ok true, e.wrote t id c p)) := by
  obtain ⟨k, hk, hkp⟩ := Option.map_eq_some_iff.1 hp
  subst hkp
  have hfits := h.cells c
  rw [hk] at hfits
  have hlock : k.lock = .free ↔ Compatible held c .exclusive := hfits.lock_free_iff
  unfold writeBack Page.isSelected
  simp only [hk]
  by_cases hfree : k.lock = .free
  · rw [if_neg (by simpa using hfree)]
    have hcompat := hlock.1 hfree
    cases hd : k.page.dirtiedBy with
    | none => exact .inr (.inl ⟨hcompat, rfl, rfl⟩)
    | some txn =>
      simp only [Option.any_some]
      by_cases honly : only.any (· ≠ txn) = true
      · rw [if_pos honly]
        exact .inr (.inl ⟨hcompat, by rw [honly]; rfl, rfl⟩)
      · rw [if_neg honly]
        refine .inr (.inr ⟨hcompat, by rw [Bool.not_eq_true] at honly; rw [honly]; rfl,
          fun t ht hwrite => ?_⟩)
        rw [table_eq_ok.2 ht]
        simp only [hwrite]
        rfl
  · rw [if_pos hfree]
    exact .inl ⟨fun hcompat => hfree (hlock.2 hcompat), rfl⟩

namespace Coherent

theorem writeBack_cases (h : e.Coherent held loose) (hc : e.pool.copyOf? id = some c)
    (hp : e.pool.copies.page? c = some p) (only : Option TxnId) :
    (¬ Compatible held c .exclusive ∧
      e.writeBack id c only = (.error (.aborted (.lockTimeout .exclusive id)), e)) ∨
    (Compatible held c .exclusive ∧ p.isSelected only = false ∧
      e.writeBack id c only = (.ok false, e)) ∨
    (Compatible held c .exclusive ∧ p.isSelected only = true ∧ ∃ t, e.table? id.table = some t ∧
      p.Backed t e.disk id (loose c) ∧ e.writeBack id c only = (.ok true, e.wrote t id c p)) := by
  rcases writeBack_of_sound h.pool hp id only with hlocked | hskipped | ⟨hcompat, hsel, hwrites⟩
  · exact .inl hlocked
  · exact .inr (.inl hskipped)
  · obtain ⟨t, ht, hb⟩ := h.backed id c p hc hp
    have hid : p.id.table = t.id := by rw [hb.named, h.own _ _ ht]
    have hn : p.id.page < 0x100000000 := by
      rw [hb.named]
      exact Nat.lt_trans hb.number (t.pageCount_lt _)
    have hwrite := t.writePage_eq e.disk hb.sound hid hn
    rw [hb.named] at hwrite
    exact .inr (.inr ⟨hcompat, hsel, t, ht, hb, hwrites t ht hwrite⟩)

theorem page?_wrote (hp : e.pool.copies.page? c = some p) (t : Table) (id : PageId) (d : Nat) :
    (e.wrote t id c p).pool.copies.page? d =
      if d = c then some p.cleaned else e.pool.copies.page? d :=
  page?_setPage hp p.cleaned d

/-- A page that was written is clean and backed by its bytes; the others are backed as before. -/
theorem wrote_coherent (h : e.Coherent held loose) (hc : e.pool.copyOf? id = some c)
    (hp : e.pool.copies.page? c = some p) (ht : e.table? id.table = some t)
    (hb : p.Backed t e.disk id (loose c)) : (e.wrote t id c p).Coherent held loose := by
  obtain ⟨k, hk, -⟩ := Option.map_eq_some_iff.1 hp
  have ht' : e.table? t.id = some t := by rw [h.own _ _ ht, ht]
  have hst := h.stands _ t ht
  have hl := hb.length_toBytes
  have hs := (h.small _ t ht).store hst hl hb.number
  have hcount (k : Nat) (u : Table) (hu : e.table? k = some u) :
      u.pageCount e.disk ≤ u.pageCount (t.store e.disk id.page p.toBytes) :=
    (h.small k u hu).pageCount_mono (h.small_store ht' hs hu) (h.size_le_store ht' hl hu)
  refine ⟨h.pool.setPage hk p.cleaned, h.own, fun k u hu => hst.store (h.stands k u hu),
    fun k u hu => h.small_store ht' hs hu, fun id' d q hd hq => ?_, h.loose⟩
  have hd : e.pool.copyOf? id' = some d := hd
  rw [page?_wrote hp] at hq
  split at hq
  · next hdc =>
    cases hq
    subst hdc
    obtain rfl : id' = id := h.pool.copyOf?_inj hd hc
    refine ⟨t, ht, hb.written ⟨0⟩ ?_ (hcount _ t ht)⟩
    exact (Table.window_store hst hl _).trans (if_pos rfl)
  · next hdc =>
    obtain ⟨u, hu, hback⟩ := h.backed id' d q hd hq
    have hne : id' ≠ id := by
      rintro rfl
      exact hdc (Option.some.inj (hd.symm.trans hc))
    exact ⟨u, hu, hback.elsewhere (h.window_store ht hl hu hne) (hcount _ u hu)⟩

theorem wrote_changed (h : e.Coherent held loose) (hc : e.pool.copyOf? id = some c)
    (hp : e.pool.copies.page? c = some p) (hfree : Compatible held c .exclusive)
    (ht : e.table? id.table = some t) (hb : p.Backed t e.disk id (loose c)) :
    Changed held id p.cleaned e (e.wrote t id c p) where
  tables := rfl
  numFrames := rfl
  kept _ _ _ hid := hid
  same g hg := by
    rw [page?_wrote hp, if_neg]
    intro hgc
    have hpos := Pool.mem_held_iff.1 ⟨g, hg, hgc⟩
    obtain ⟨h1, h2⟩ := hfree
    omega
  grows k u hu := h.size_le_store (by rw [h.own _ _ ht, ht]) hb.length_toBytes hu
  now := logical_of_page? (e := e.wrote t id c p) hc (by rw [page?_wrote hp, if_pos rfl])
  others id' hne := by
    refine rel_of_eq (logical_congr (e := e) (f := e.wrote t id c p) rfl (fun d hd => ?_)
      (stored_of_window rfl fun u hu => h.window_store ht hb.length_toBytes hu hne)).symm
    have hdc : d ≠ c := fun hdc => hne (h.pool.copyOf?_inj hd (hdc ▸ hc))
    rw [page?_wrote hp, if_neg hdc]

theorem wrote (h : e.Coherent held loose) (hc : e.pool.copyOf? id = some c)
    (hp : e.pool.copies.page? c = some p) (hfree : Compatible held c .exclusive)
    (ht : e.table? id.table = some t) (hb : p.Backed t e.disk id (loose c)) :
    (e.wrote t id c p).Coherent held loose ∧ Changed held id p.cleaned e (e.wrote t id c p) :=
  ⟨h.wrote_coherent hc hp ht hb, h.wrote_changed hc hp hfree ht hb⟩

end Coherent

/-- The rows of all pages are the same, whatever was written to the files. -/
structure SameRows (held : List Checkout) (e e' : Engine) : Prop extends Follows held e e' where
  rows : e'.rows = e.rows

theorem SameRows.refl (held : List Checkout) (e : Engine) : SameRows held e e := ⟨.refl held e, rfl⟩

theorem SameRows.trans (h : SameRows held e e') (h' : SameRows held e' e'') : SameRows held e e'' :=
  ⟨h.toFollows.trans h'.toFollows, h'.rows.trans h.rows⟩

theorem Unchanged.sameRows (h : Unchanged held e e') : SameRows held e e' := ⟨h.toFollows, h.rows_eq⟩

theorem Changed.sameRows (h : Changed held id p.cleaned e e') (hp : e.logical id = some p) :
    SameRows held e e' := by
  refine ⟨h.toFollows, funext fun r => ?_⟩
  by_cases hid : r.page = id
  · unfold rows
    rw [hid, h.now, hp]
    rfl
  · exact (row_of_rel (h.others r.page hid) r.slot).symm

namespace Coherent

/-- Write-back of one page changes no row and no frame. -/
theorem writeBack_sameRows (h : e.Coherent held loose) (hc : e.pool.copyOf? id = some c)
    (only : Option TxnId) :
    ∃ r e', e.writeBack id c only = (r, e') ∧ e'.Coherent held loose ∧ SameRows held e e' ∧
      ∀ id', e'.pool.copyOf? id' = e.pool.copyOf? id' := by
  obtain ⟨p, hp⟩ := h.exists_page hc
  rcases h.writeBack_cases hc hp only with ⟨-, heq⟩ | ⟨-, -, heq⟩ | ⟨hfree, -, t, ht, hb, heq⟩
  · exact ⟨_, _, heq, h, .refl held e, fun _ => rfl⟩
  · exact ⟨_, _, heq, h, .refl held e, fun _ => rfl⟩
  · obtain ⟨hcoh, hch⟩ := h.wrote hc hp hfree ht hb
    exact ⟨_, _, heq, hcoh, hch.sameRows (logical_of_page? hc hp), fun _ => rfl⟩

theorem writeBackAll_sameRows (h : e.Coherent held loose) (only : Option TxnId) (count : Nat)
    {rs : List Resident} (hrs : ∀ r ∈ rs, e.pool.copyOf? r.page = some r.copy) :
    ∃ r e', writeBackAll only count rs e = (r, e') ∧ e'.Coherent held loose ∧
      SameRows held e e' := by
  induction rs generalizing e count with
  | nil => exact ⟨_, _, rfl, h, .refl held e⟩
  | cons r rs ih =>
    obtain ⟨b, e1, heq, h1, hsame, hcopy⟩ := h.writeBack_sameRows (hrs r List.mem_cons_self) only
    unfold writeBackAll
    rw [heq]
    cases b with
    | error err => exact ⟨_, _, rfl, h1, hsame⟩
    | ok written =>
      obtain ⟨b, e2, heq2, h2, hsame2⟩ := ih h1 (if written then count + 1 else count) fun r' hr' => by
        rw [hcopy]
        exact hrs r' (List.mem_cons_of_mem _ hr')
      exact ⟨b, e2, heq2, h2, hsame.trans hsame2⟩

theorem flushPage_sameRows (h : e.Coherent held loose) (id : PageId) :
    ∃ r e', e.flushPage id = (r, e') ∧ e'.Coherent held loose ∧ SameRows held e e' := by
  unfold flushPage
  cases hc : e.pool.copyOf? id with
  | none => exact ⟨_, _, rfl, h, .refl held e⟩
  | some c =>
    obtain ⟨r, e', heq, hcoh, hsame, -⟩ := h.writeBack_sameRows hc none
    exact ⟨r, e', heq, hcoh, hsame⟩

theorem flushResidents_sameRows (h : e.Coherent held loose) (only : Option TxnId) :
    ∃ r e', writeBackAll only 0 e.pool.residents e = (r, e') ∧ e'.Coherent held loose ∧
      SameRows held e e' :=
  h.writeBackAll_sameRows only 0 fun _ hr => h.pool.mem_residents.1 hr

end Coherent

end Engine

end HeapStore
