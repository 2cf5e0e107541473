import HeapStore.Pool.Copies

/-! The books that are kept on a copy. `CellFits` says that the references are one for the frame, if
the copy sits in one, and one for each holder, that the lock counts the holders, and that a copy is
gone just when nobody is left. -/

namespace HeapStore

namespace Copies

theorem get?_put (cs : Copies) (i : Nat) (c : Option Copy) (j : Nat) :
    (cs.put i c).get? j = if j = i ∧ i < cs.cells.size then c else cs.get? j := by
  unfold get? put
  simp only [Array.getElem?_setIfInBounds]
  by_cases hj : i = j
  · subst hj
    by_cases hi : i < cs.cells.size <;> simp [hi]
  · simp [hj, Ne.symm hj]

theorem lt_size_of_get? {cs : Copies} {i : Nat} {c : Copy} (h : cs.get? i = some c) :
    i < cs.cells.size := by
  unfold get? at h
  apply Decidable.byContradiction
  intro hi
  rw [Array.getElem?_eq_none (by omega)] at h
  cases h

theorem get?_size (cs : Copies) : cs.get? cs.cells.size = none := by
  simp [get?]

theorem get?_put_of_some {cs : Copies} {i : Nat} {k : Copy} (h : cs.get? i = some k)
    (c : Option Copy) (j : Nat) : (cs.put i c).get? j = if j = i then c else cs.get? j := by
  rw [get?_put]
  simp [lt_size_of_get? h]

/-- The books of a copy may change while its page stays. -/
theorem page?_rebook {cs : Copies} {i : Nat} {k : Copy} (h : cs.get? i = some k) (l : Lock)
    (refs j : Nat) :
    (cs.put i (some { k with lock := l, refs := refs })).page? j = cs.page? j := by
  unfold page?
  rw [get?_put_of_some h]
  split
  · next hj => rw [hj, h]; rfl
  · rfl

theorem get?_add (cs : Copies) (p : Page) (j : Nat) :
    (cs.add p).2.get? j = if j = cs.cells.size then some ⟨p, .free, 1⟩ else cs.get? j := by
  unfold get? add
  simp only [Array.getElem?_push]
  split <;> rfl

theorem get?_update_of_some {cs : Copies} {i : Nat} {k : Copy} (h : cs.get? i = some k)
    (f : Copy → Copy) (j : Nat) :
    (cs.update i f).get? j = if j = i then some (f k) else cs.get? j := by
  unfold update
  rw [h]
  exact get?_put_of_some h _ j

theorem get?_drop_of_some {cs : Copies} {i : Nat} {k : Copy} (h : cs.get? i = some k) (j : Nat) :
    (cs.drop i).get? j =
      if j = i then (if k.refs ≤ 1 then none else some { k with refs := k.refs - 1 }) else cs.get? j := by
  unfold drop
  rw [h]
  simp only
  split
  · exact get?_put_of_some h _ j
  · exact get?_put_of_some h _ j

/-! ### Sizes -/

theorem size_put (cs : Copies) (i : Nat) (c : Option Copy) : (cs.put i c).cells.size = cs.cells.size :=
  Array.size_setIfInBounds ..

theorem size_update (cs : Copies) (i : Nat) (f : Copy → Copy) :
    (cs.update i f).cells.size = cs.cells.size := by
  unfold update
  split
  · rfl
  · exact size_put ..

theorem size_drop (cs : Copies) (i : Nat) : (cs.drop i).cells.size = cs.cells.size := by
  unfold drop
  split
  · rfl
  · split <;> exact size_put ..

theorem size_release (cs : Copies) (g : Checkout) : (cs.release g).cells.size = cs.cells.size :=
  (size_drop ..).trans (size_update ..)

/-! ### Pages -/

theorem get?_setPage_of_some {cs : Copies} {i : Nat} {k : Copy} (h : cs.get? i = some k) (p : Page)
    (j : Nat) : (cs.setPage i p).get? j = if j = i then some { k with page := p } else cs.get? j :=
  get?_update_of_some h _ j

/-- What is left of a copy when a holder gives it back. -/
def returned (k : Copy) (access : Access) : Option Copy :=
  if k.refs ≤ 1 then none
  else some { k with lock := k.lock.release access, refs := k.refs - 1 }

theorem get?_release_of_some {cs : Copies} {g : Checkout} {k : Copy} (h : cs.get? g.copy = some k)
    (j : Nat) : (cs.release g).get? j = if j = g.copy then returned k g.access else cs.get? j := by
  have hu := get?_update_of_some h (fun c => { c with lock := c.lock.release g.access })
  unfold release
  rw [get?_drop_of_some (k := { k with lock := k.lock.release g.access }) (by rw [hu, if_pos rfl])]
  split
  · rfl
  · next hj => rw [hu, if_neg hj]

theorem page?_of_get? {cs : Copies} {i : Nat} {k : Copy} (h : cs.get? i = some k) :
    cs.page? i = some k.page := by
  rw [page?, h]
  rfl

/-- A copy that is booked anew keeps its page, if it is still there; the others are as they were. -/
theorem page?_of_booked {cs cs' : Copies} {i : Nat} {k : Copy} {o : Option Copy} (hk : cs.get? i = some k)
    (ho : ∀ k', o = some k' → k'.page = k.page)
    (hget : ∀ j, cs'.get? j = if j = i then o else cs.get? j) {j : Nat} {p : Page}
    (h : cs'.page? j = some p) : cs.page? j = some p := by
  obtain ⟨k', hk', rfl⟩ := Option.map_eq_some_iff.1 h
  rw [hget] at hk'
  split at hk'
  · next hj =>
    subst hj
    rw [page?_of_get? hk, ho k' hk']
  · exact page?_of_get? hk'

theorem page?_of_drop {cs : Copies} {i j : Nat} {p : Page} (h : (cs.drop i).page? j = some p) :
    cs.page? j = some p := by
  cases hk : cs.get? i with
  | none =>
    rw [drop, hk] at h
    exact h
  | some k =>
    refine page?_of_booked hk (fun k' hk' => ?_) (get?_drop_of_some hk) h
    split at hk'
    · cases hk'
    · cases hk'
      rfl

theorem page?_of_release {cs : Copies} {g : Checkout} {k : Copy} (hk : cs.get? g.copy = some k) {j : Nat}
    {p : Page} (h : (cs.release g).page? j = some p) : cs.page? j = some p := by
  refine page?_of_booked hk (fun k' hk' => ?_) (get?_release_of_some hk) h
  unfold returned at hk'
  split at hk'
  · cases hk'
  · cases hk'
    rfl

end Copies

/-- Do the references and the lock of a copy fit the frames and holders it has? -/
def CellFits : Option Copy → (seats readers writers : Nat) → Prop
  | none, seats, readers, writers => seats = 0 ∧ readers = 0 ∧ writers = 0
  | some k, seats, readers, writers =>
    k.refs = seats + readers + writers ∧ 0 < k.refs ∧
      (k.lock = .shared readers ∧ writers = 0 ∨ k.lock = .exclusive ∧ writers = 1 ∧ readers = 0)

namespace CellFits

variable {k : Copy} {seats readers writers : Nat}

theorem fresh (p : Page) : CellFits (some ⟨p, .free, 1⟩) 1 0 0 := ⟨rfl, Nat.one_pos, .inl ⟨rfl, rfl⟩⟩

theorem isSome {cell : Option Copy} (h : CellFits cell seats readers writers)
    (hpos : 0 < seats + readers + writers) : ∃ k, cell = some k := by
  cases cell with
  | none =>
    obtain ⟨h1, h2, h3⟩ := h
    omega
  | some k => exact ⟨k, rfl⟩

theorem page (h : CellFits (some k) seats readers writers) (p : Page) :
    CellFits (some { k with page := p }) seats readers writers := h

theorem grant_shared (h : CellFits (some k) seats readers writers) {l : Lock}
    (hl : k.lock.grant .shared = some l) :
    CellFits (some { k with lock := l, refs := k.refs + 1 }) seats (readers + 1) writers := by
  obtain ⟨hr, hpos, ⟨hlock, hw⟩ | ⟨hlock, -, -⟩⟩ := h
  · rw [hlock] at hl
    cases hl
    exact ⟨by simp only; omega, Nat.succ_pos _, .inl ⟨rfl, hw⟩⟩
  · rw [hlock] at hl
    cases hl

theorem grant_exclusive (h : CellFits (some k) seats readers writers) {l : Lock}
    (hl : k.lock.grant .exclusive = some l) :
    readers = 0 ∧ writers = 0 ∧
      CellFits (some { k with lock := l, refs := k.refs + 1 }) seats readers (writers + 1) := by
  obtain ⟨hr, hpos, ⟨hlock, hw⟩ | ⟨hlock, -, -⟩⟩ := h
  · rw [hlock] at hl
    cases readers with
    | zero =>
      cases hl
      subst hw
      exact ⟨rfl, rfl, by simp only; omega, Nat.succ_pos _, .inr ⟨rfl, rfl, rfl⟩⟩
    | succ n => cases hl
  · rw [hlock] at hl
    cases hl

theorem return_shared (h : CellFits (some k) seats (readers + 1) writers) :
    CellFits (Copies.returned k .shared) seats readers writers := by
  obtain ⟨hr, hpos, ⟨hlock, hw⟩ | ⟨-, -, hz⟩⟩ := h
  · unfold Copies.returned
    split
    · exact ⟨by omega, by omega, hw⟩
    · rw [hlock]
      exact ⟨by simp only; omega, by simp only; omega, .inl ⟨rfl, hw⟩⟩
  · cases hz

theorem return_exclusive (h : CellFits (some k) seats readers (writers + 1)) :
    CellFits (Copies.returned k .exclusive) seats readers writers := by
  obtain ⟨hr, hpos, ⟨-, hw⟩ | ⟨hlock, hw, hz⟩⟩ := h
  · cases hw
  · have hw : writers = 0 := Nat.succ.inj hw
    unfold Copies.returned
    split
    · exact ⟨by omega, hz, hw⟩
    · rw [hlock]
      exact ⟨by simp only; omega, by simp only; omega, .inl ⟨by rw [hz]; rfl, hw⟩⟩

/-- The frame gives its reference up. -/
theorem unseat (h : CellFits (some k) (seats + 1) readers writers) :
    CellFits (if k.refs ≤ 1 then none else some { k with refs := k.refs - 1 }) seats readers writers := by
  obtain ⟨hr, hpos, hl⟩ := h
  split
  · exact ⟨by omega, by omega, by omega⟩
  · exact ⟨by simp only; omega, by simp only; omega, hl⟩

/-- One more reference is taken, without the lock. -/
theorem one_more (h : CellFits (some k) seats readers writers) :
    CellFits (some { k with refs := k.refs + 1 }) (seats + 1) readers writers := by
  obtain ⟨hr, hpos, hl⟩ := h
  exact ⟨by simp only; omega, Nat.succ_pos _, hl⟩

theorem lock_exclusive_iff (h : CellFits (some k) seats readers writers) :
    k.lock = .exclusive ↔ 0 < writers := by
  obtain ⟨-, -, ⟨hlock, hw⟩ | ⟨hlock, hw, -⟩⟩ := h
  · simp [hlock, hw]
  · simp [hlock, hw]

theorem lock_free_iff (h : CellFits (some k) seats readers writers) :
    k.lock = .free ↔ readers = 0 ∧ writers = 0 := by
  obtain ⟨-, -, ⟨hlock, hw⟩ | ⟨hlock, hw, hz⟩⟩ := h
  · rw [hlock]
    simp [Lock.free, hw]
  · rw [hlock]
    simp [Lock.free, hw]

theorem grant_shared_iff (h : CellFits (some k) seats readers writers) :
    (∃ l, k.lock.grant .shared = some l) ↔ writers = 0 := by
  obtain ⟨-, -, ⟨hlock, hw⟩ | ⟨hlock, hw, hz⟩⟩ := h
  · rw [hlock]
    simp [Lock.grant, hw]
  · rw [hlock]
    simp [Lock.grant, hw]

theorem grant_exclusive_iff (h : CellFits (some k) seats readers writers) :
    (∃ l, k.lock.grant .exclusive = some l) ↔ readers = 0 ∧ writers = 0 := by
  obtain ⟨-, -, ⟨hlock, hw⟩ | ⟨hlock, hw, hz⟩⟩ := h
  · rw [hlock]
    cases readers <;> simp [Lock.grant, hw]
  · rw [hlock]
    simp [Lock.grant, hw]

end CellFits

end HeapStore
