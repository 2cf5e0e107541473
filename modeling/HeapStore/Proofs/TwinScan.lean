import HeapStore.Proofs.ScanProgress
import HeapStore.Proofs.Twins

/-! Scans over two engines that are twins. Two cursors at the same place go to the same place, over
pages that are alike, and find tuples that differ at most in the field names of their schemas. -/

namespace HeapStore

/-- Two tuples that differ at most in the field names of their schemas. -/
structure Tuple.Alike (t u : Tuple) : Prop where
  values : u.values = t.values
  rid : u.rid = t.rid
  types : u.schema.types = t.schema.types

/-- Both fail in the same way, or both succeed with related results. -/
inductive Agree {α β : Type} (R : α → β → Prop) : Except Error α → Except Error β → Prop
  | failed (err : Error) : Agree R (.error err) (.error err)
  | ok {a : α} {b : β} : R a b → Agree R (.ok a) (.ok b)

theorem Agree.map {α β α' β' : Type} {R : α → β → Prop} {R' : α' → β' → Prop} {r : Except Error α}
    {r' : Except Error β} (h : Agree R r r') {g : α → α'} {g' : β → β'}
    (hg : ∀ a b, R a b → R' (g a) (g' b)) : Agree R' (r.map g) (r'.map g') := by
  cases h with
  | failed err => exact .failed err
  | ok hr => exact .ok (hg _ _ hr)

/-- Tuples in the same slot of pages that are alike. -/
theorem Page.Alike.tuple? {p q : Page} (h : p.Alike q) (hp : p.Sound) (hq : q.Sound) (i : Nat) :
    Option.Rel Tuple.Alike (p.tuple? i) (q.tuple? i) := by
  have hrow := h.row i
  unfold row at hrow
  cases ht : p.tuple? i with
  | none =>
    rw [ht, Option.map_none, eq_comm, Option.map_eq_none_iff] at hrow
    rw [hrow]
    exact .none
  | some t =>
    rw [ht, Option.map_some, eq_comm, Option.map_eq_some_iff] at hrow
    obtain ⟨u, hu, hvalues⟩ := hrow
    rw [hu]
    refine .some ⟨hvalues, ?_, ?_⟩
    · rw [hq.placed i u hu, hp.placed i t ht, h.id]
    · rw [hq.types i u hu, hp.types i t ht, h.schema]

theorem none_or_some {α β : Type} {o : Option α} {o' : Option β} (h : o'.isSome = o.isSome) :
    (o = none ∧ o' = none) ∨ ∃ a b, o = some a ∧ o' = some b := by
  cases o with
  | none => exact .inl ⟨rfl, Option.isNone_iff_eq_none.1 (by simpa using h)⟩
  | some a =>
    obtain ⟨b, hb⟩ := Option.isSome_iff_exists.1 h
    exact .inr ⟨a, b, rfl, hb⟩

/-- Two cursors at the same place. -/
structure Cursor.Alike (c c' : Cursor) : Prop where
  page : c'.page = c.page
  nextSlot : c'.nextSlot = c.nextSlot
  held : c'.held.isSome = c.held.isSome
  peeked : c'.peeked.isSome = c.peeked.isSome

structure Scan.Alike (s s' : Scan) : Prop where
  table : s'.table = s.table
  cursor : Option.Rel Cursor.Alike s.cursor s'.cursor

theorem Cursor.Alike.refl (c : Cursor) : c.Alike c := ⟨rfl, rfl, rfl, rfl⟩

namespace Engine.Twins

open Scan (seek advance)

variable {e f : Engine} {held held' : List Checkout} {loose loose' : Nat → Prop} {t : Table}
  {c c' : Cursor} {s s' : Scan}

/-- The checkouts of two cursors at the same place are of the same page. -/
theorem opposite (h : Twins e f held held' loose loose') (ha : c.Alike c') (hf : c.Fits e t)
    (hf' : c'.Fits f t) {g g' : Checkout} (hg : c.held = some g) (hg' : c'.held = some g') :
    ∃ p q, Opposite e f ⟨t.id, c.page⟩ g.copy g'.copy p q := by
  have hc := hf.held g hg
  have hc' := hf'.held g' hg'
  rw [ha.page] at hc'
  obtain ⟨p, hp⟩ := h.small.exists_page hc
  obtain ⟨q, hq⟩ := h.large.exists_page hc'
  exact ⟨p, q, hc, hc', hp, hq⟩

theorem peeked_alike (h : Twins e f held held' loose loose') (ha : c.Alike c') (hf : c.Fits e t)
    (hf' : c'.Fits f t) {u u' : Tuple} (hu : c.peeked = some u) (hu' : c'.peeked = some u') :
    u.Alike u' := by
  obtain ⟨g, p, hg, hp, -, hslot⟩ := hf.peeked u hu
  obtain ⟨g', q, hg', hq, -, hslot'⟩ := hf'.peeked u' hu'
  obtain ⟨p1, q1, ho⟩ := h.opposite ha hf hf' hg hg'
  obtain rfl : p = p1 := Option.some.inj (hp.symm.trans ho.page)
  obtain rfl : q = q1 := Option.some.inj (hq.symm.trans ho.page')
  obtain ⟨hpage, hps, hqs⟩ := h.alike ho
  have hrel := hpage.tuple? hps hqs (c.nextSlot - 1)
  rw [ha.nextSlot] at hslot'
  rw [hslot, hslot'] at hrel
  cases hrel with
  | some hrel => exact hrel

/-- Readers give the same page back. -/
theorem release_shared {g g' : Checkout} (h : Twins e f (g :: held) (g' :: held') loose loose')
    (hx : g.access = .shared) (hx' : g'.access = .shared) {id : PageId}
    (hc : e.pool.copyOf? id = some g.copy) (hc' : f.pool.copyOf? id = some g'.copy) :
    Twins (e.release g) (f.release g') held held' loose loose' := by
  obtain ⟨c, access⟩ := g
  obtain ⟨c', access'⟩ := g'
  obtain rfl : access = .shared := hx
  obtain rfl : access' = .shared := hx'
  exact (h.release hc hc' (fun hx => by cases hx) fun hx => by cases hx).twins

theorem seek (h : Twins e f held held' loose loose') (t : Table) (count page : Nat) :
    (∃ c e', seek t count page e = (.error .poolFull, c, e')) ∨
    ∃ r c e' r' c' f', seek t count page e = (r, c, e') ∧ seek t count page f = (r', c', f') ∧
      Agree (Option.Rel Tuple.Alike) r r' ∧ c.Alike c' ∧
      Twins e' f' (c.held.toList ++ held) (c'.held.toList ++ held') loose loose' := by
  induction count generalizing e f page with
  | zero => exact .inr ⟨_, _, _, _, _, _, rfl, rfl, .ok .none, .refl _, h⟩
  | succ count ih =>
    unfold Scan.seek
    rcases h.getPage ⟨t.id, page⟩ .shared with ⟨e1, he⟩ | ⟨err, e1, f1, he, hf, hab⟩ |
      ⟨c, c', p, q, e1, f1, he, hf, h1, -, -, hl, hl', ho⟩
    · rw [he]
      exact .inl ⟨_, _, rfl⟩
    · rw [he, hf]
      exact .inr ⟨_, _, _, _, _, _, rfl, rfl, .failed err, .refl _, hab.twins⟩
    · rw [he, hf]
      obtain ⟨ha, hp, hq⟩ := h1.alike ho
      have hfind := Scan.findOn_eq (g := ⟨c, .shared⟩) ho.page 0
      have hfind' := Scan.findOn_eq (g := ⟨c', .shared⟩) ho.page' 0
      simp only [hfind, hfind', ← ha.nextUsedSlot_eq hp hq]
      cases p.nextUsedSlot 0 with
      | some slot =>
        exact .inr ⟨_, _, _, _, _, _, rfl, rfl, .ok (ha.tuple? hp hq slot), ⟨rfl, rfl, rfl, rfl⟩, h1⟩
      | none =>
        exact ih (h1.release ho.small ho.large (fun _ => hl) fun _ => hl').twins (page + 1)

theorem advance (h : Twins e f (c.held.toList ++ held) (c'.held.toList ++ held') loose loose')
    (ha : c.Alike c') (hr : c.Reads) (hr' : c'.Reads) (hf : c.Fits e t) (hf' : c'.Fits f t) :
    (∃ c1 e', advance t c e = (.error .poolFull, c1, e')) ∨
    ∃ r c1 e' r' c1' f', advance t c e = (r, c1, e') ∧ advance t c' f = (r', c1', f') ∧
      Agree (Option.Rel Tuple.Alike) r r' ∧ c1.Alike c1' ∧
      Twins e' f' (c1.held.toList ++ held) (c1'.held.toList ++ held') loose loose' := by
  unfold Scan.advance
  rcases none_or_some ha.held with ⟨hg, hg'⟩ | ⟨g, g', hg, hg'⟩
  · rw [hg, hg'] at h ⊢
    rw [ha.page, h.disk]
    exact h.seek t _ c.page
  · obtain ⟨p, q, ho⟩ := h.opposite ha hf hf' hg hg'
    obtain ⟨hpage, hp, hq⟩ := h.alike ho
    rw [hg, hg'] at h ⊢
    simp only [Scan.findOn_eq ho.page, Scan.findOn_eq ho.page', ha.nextSlot,
      ← hpage.nextUsedSlot_eq hp hq]
    cases p.nextUsedSlot c.nextSlot with
    | some slot =>
      exact .inr ⟨_, _, _, _, _, _, rfl, rfl, .ok (hpage.tuple? hp hq slot),
        ⟨ha.page, rfl, rfl, ha.peeked⟩, h⟩
    | none =>
      have hreleased := h.release_shared (hr g hg) (hr' g' hg') ho.small ho.large
      have hdisk := hreleased.disk
      simp only [ha.page, hdisk]
      exact hreleased.seek t _ (c.page + 1)

/-! ### The calls on a scan -/

theorem releaseHeld (h : Twins e f (s.checkouts ++ held) (s'.checkouts ++ held') loose loose')
    (ha : s.Alike s') (hr : s.Reads) (hr' : s'.Reads) (hf : s.Fits e) (hf' : s'.Fits f) :
    Twins (s.releaseHeld e) (s'.releaseHeld f) held held' loose loose' := by
  obtain ⟨t, cursor⟩ := s
  obtain ⟨t', cursor'⟩ := s'
  obtain ⟨rfl, ha⟩ := ha
  cases ha with
  | none => exact h
  | @some c c' ha =>
    unfold Scan.releaseHeld
    rw [Scan.checkouts_open, Scan.checkouts_open] at h
    simp only [Option.bind_some]
    rcases none_or_some ha.held with ⟨hg, hg'⟩ | ⟨g, g', hg, hg'⟩
    · rw [hg, hg'] at h ⊢
      exact h
    · obtain ⟨p, q, ho⟩ := h.opposite ha (hf c rfl) (hf' c' rfl) hg hg'
      rw [hg, hg'] at h ⊢
      exact h.release_shared (hr c rfl g hg) (hr' c' rfl g' hg') ho.small ho.large

theorem next (h : Twins e f (s.checkouts ++ held) (s'.checkouts ++ held') loose loose')
    (ha : s.Alike s') (hr : s.Reads) (hr' : s'.Reads) (hf : s.Fits e) (hf' : s'.Fits f) :
    (∃ s1 e', s.next e = (.error .poolFull, s1, e')) ∨
    ∃ r s1 e' r' s1' f', s.next e = (r, s1, e') ∧ s'.next f = (r', s1', f') ∧
      Agree (Option.Rel Tuple.Alike) r r' ∧ s1.Alike s1' ∧
      Twins e' f' (s1.checkouts ++ held) (s1'.checkouts ++ held') loose loose' := by
  obtain ⟨t, cursor⟩ := s
  obtain ⟨t', cursor'⟩ := s'
  obtain ⟨rfl, ha⟩ := ha
  unfold Scan.next
  cases ha with
  | none => exact .inr ⟨_, _, _, _, _, _, rfl, rfl, .failed _, ⟨rfl, .none⟩, h⟩
  | @some c c' ha =>
    simp only
    rcases none_or_some ha.peeked with ⟨hu, hu'⟩ | ⟨u, u', hu, hu'⟩
    · rw [hu, hu']
      simp only
      rcases h.advance ha (hr c rfl) (hr' c' rfl) (hf c rfl) (hf' c' rfl) with ⟨c1, e', he⟩ |
        ⟨r, c1, e', r', c1', f', he, he', hag, ha1, h1⟩
      · rw [he]
        exact .inl ⟨_, _, rfl⟩
      · rw [he, he']
        exact .inr ⟨_, _, _, _, _, _, rfl, rfl, hag, ⟨rfl, .some ha1⟩, h1⟩
    · have htuple := h.peeked_alike ha (hf c rfl) (hf' c' rfl) hu hu'
      rw [hu, hu']
      exact .inr ⟨_, _, _, _, _, _, rfl, rfl, .ok (.some htuple),
        ⟨rfl, .some ⟨ha.page, ha.nextSlot, ha.held, rfl⟩⟩, h⟩

theorem hasNext (h : Twins e f (s.checkouts ++ held) (s'.checkouts ++ held') loose loose')
    (ha : s.Alike s') (hr : s.Reads) (hr' : s'.Reads) (hf : s.Fits e) (hf' : s'.Fits f) :
    (∃ s1 e', s.hasNext e = (.error .poolFull, s1, e')) ∨
    ∃ r s1 e' s1' f', s.hasNext e = (r, s1, e') ∧ s'.hasNext f = (r, s1', f') ∧ s1.Alike s1' ∧
      Twins e' f' (s1.checkouts ++ held) (s1'.checkouts ++ held') loose loose' := by
  obtain ⟨t, cursor⟩ := s
  obtain ⟨t', cursor'⟩ := s'
  obtain ⟨rfl, ha⟩ := ha
  unfold Scan.hasNext
  cases ha with
  | none => exact .inr ⟨_, _, _, _, _, rfl, rfl, ⟨rfl, .none⟩, h⟩
  | @some c c' ha =>
    simp only [ha.peeked]
    split
    · exact .inr ⟨_, _, _, _, _, rfl, rfl, ⟨rfl, .some ha⟩, h⟩
    · rcases h.advance ha (hr c rfl) (hr' c' rfl) (hf c rfl) (hf' c' rfl) with ⟨c1, e', he⟩ |
        ⟨r, c1, e', r', c1', f', he, he', hag, ha1, h1⟩
      · rw [he]
        exact .inl ⟨_, _, rfl⟩
      · rw [he, he']
        cases hag with
        | failed err => exact .inr ⟨_, _, _, _, _, rfl, rfl, ⟨rfl, .some ha1⟩, h1⟩
        | @ok o o' hrel =>
          have hsome : o'.isSome = o.isSome := by cases hrel <;> rfl
          simp only [hsome]
          exact .inr ⟨_, _, _, _, _, rfl, rfl,
            ⟨rfl, .some ⟨ha1.page, ha1.nextSlot, ha1.held, hsome⟩⟩, h1⟩

end Engine.Twins

end HeapStore
