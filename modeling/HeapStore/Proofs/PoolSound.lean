import HeapStore.Pool.Basic
import HeapStore.Proofs.ClockSweep
import HeapStore.Proofs.CopyLedger

/-! The four structures of a pool agree. `Pool.Sound` says that the index and the occupied frames are
inverse to each other, that the free list holds the empty frames once each, that the clock covers the
frames, and that the books of every copy fit the frames and the checkouts that are out (`Booked`). It
says nothing of what is on the pages. Every way in or out of a frame is one of two steps: a frame is
vacated, or a page is placed into a free one. -/

namespace HeapStore.Pool

/-- What sits in a frame. -/
def seat (p : Pool) (i : Nat) : Option Resident := (p.frame i).resident

def Seated (p : Pool) (c : Nat) : Prop := ∃ i id, p.seat i = some ⟨id, c⟩

open Classical in
/-- The number of frames that a copy sits in. -/
noncomputable def seats (p : Pool) (c : Nat) : Nat := if p.Seated c then 1 else 0

/-- The shared checkouts of a copy among those that are out. -/
def readers (held : List Checkout) (c : Nat) : Nat := held.count ⟨c, .shared⟩

def writers (held : List Checkout) (c : Nat) : Nat := held.count ⟨c, .exclusive⟩

theorem readers_cons (g : Checkout) (held : List Checkout) (c : Nat) :
    readers (g :: held) c = readers held c + if g = ⟨c, .shared⟩ then 1 else 0 := by
  unfold readers
  rw [List.count_cons]
  congr 1
  simp

theorem writers_cons (g : Checkout) (held : List Checkout) (c : Nat) :
    writers (g :: held) c = writers held c + if g = ⟨c, .exclusive⟩ then 1 else 0 := by
  unfold writers
  rw [List.count_cons]
  congr 1
  simp

theorem mem_held_iff {held : List Checkout} {c : Nat} :
    (∃ g ∈ held, g.copy = c) ↔ 0 < readers held c + writers held c := by
  unfold readers writers
  constructor
  · rintro ⟨⟨copy, access⟩, hg, rfl⟩
    have : 0 < held.count ⟨copy, access⟩ := List.count_pos_iff.2 hg
    cases access <;> simp only at this ⊢ <;> omega
  · intro hpos
    by_cases hr : 0 < held.count ⟨c, .shared⟩
    · exact ⟨_, List.count_pos_iff.1 hr, rfl⟩
    · exact ⟨⟨c, .exclusive⟩, List.count_pos_iff.1 (by omega), rfl⟩

/-! ### The books of all copies -/

/-- Do the books of every copy fit the checkouts that are out and the other references to it? -/
def Booked (cs : Copies) (others : Nat → Nat) (held : List Checkout) : Prop :=
  ∀ c, CellFits (cs.get? c) (others c) (readers held c) (writers held c)

namespace Booked

variable {cs : Copies} {others others' : Nat → Nat} {held held' : List Checkout} {c : Nat}

theorem exists_copy (h : Booked cs others held) (hc : 0 < others c ∨ ∃ g ∈ held, g.copy = c) :
    ∃ k, cs.get? c = some k := by
  rw [mem_held_iff] at hc
  exact (h c).isSome (by omega)

theorem perm (h : Booked cs others held) (hp : held.Perm held') : Booked cs others held' := by
  intro c
  have := h c
  unfold readers writers at this ⊢
  rwa [hp.count_eq, hp.count_eq] at this

theorem add (h : Booked cs others held)
    (ho : ∀ c, others' c = others c + if c = cs.cells.size then 1 else 0) (p : Page) :
    Booked (cs.add p).2 others' held := by
  intro c
  rw [Copies.get?_add, ho]
  split
  · next hc =>
    subst hc
    have hnone := h cs.cells.size
    rw [Copies.get?_size] at hnone
    rw [hnone.1, hnone.2.1, hnone.2.2]
    exact .fresh p
  · exact h c

theorem retain (h : Booked cs others held) {k : Copy} (hk : cs.get? c = some k)
    (ho : ∀ d, others' d = others d + if d = c then 1 else 0) : Booked (cs.retain c) others' held := by
  intro d
  have hd := h d
  rw [Copies.retain, Copies.get?_update_of_some hk, ho]
  split
  · next hc =>
    subst hc
    rw [hk] at hd
    exact hd.one_more
  · exact hd

theorem drop (h : Booked cs others held) (ho : ∀ d, others d = others' d + if d = c then 1 else 0) :
    Booked (cs.drop c) others' held := by
  obtain ⟨k, hk⟩ := h.exists_copy (c := c) (.inl (by rw [ho, if_pos rfl]; exact Nat.succ_pos _))
  intro d
  have hd := h d
  rw [ho] at hd
  rw [Copies.get?_drop_of_some hk]
  split
  · next hc =>
    subst hc
    rw [if_pos rfl, hk] at hd
    exact hd.unseat
  · next hc =>
    rw [if_neg hc] at hd
    exact hd

theorem setPage (h : Booked cs others held) {k : Copy} (hk : cs.get? c = some k) (page : Page) :
    Booked (cs.setPage c page) others held := by
  intro d
  rw [Copies.get?_setPage_of_some hk]
  split
  · next hc =>
    subst hc
    have hd := h d
    rw [hk] at hd
    exact hd.page page
  · exact h d

theorem release {g : Checkout} (h : Booked cs others (g :: held)) :
    Booked (cs.release g) others held := by
  obtain ⟨k, hk⟩ := h.exists_copy (.inr ⟨g, List.mem_cons_self, rfl⟩)
  intro c
  rw [Copies.get?_release_of_some hk]
  have hfits := h c
  rw [readers_cons, writers_cons] at hfits
  obtain ⟨copy, access⟩ := g
  by_cases hc : c = copy
  · subst hc
    rw [if_pos rfl]
    rw [hk] at hfits
    cases access with
    | shared => exact CellFits.return_shared (by simpa using hfits)
    | exclusive => exact CellFits.return_exclusive (by simpa using hfits)
  · rw [if_neg hc]
    simpa [Ne.symm hc] using hfits

end Booked

/-! ### What a pool keeps -/

structure Sound (p : Pool) (held : List Checkout) : Prop where
  keys : (p.index.map (·.1)).Nodup
  index : ∀ id i, p.frameOf? id = some i ↔ ∃ c, p.seat i = some ⟨id, c⟩
  single : ∀ i j r s, p.seat i = some r → p.seat j = some s → r.copy = s.copy → i = j
  free_nodup : p.free.Nodup
  mem_free : ∀ i, i ∈ p.free ↔ i < p.numFrames ∧ p.seat i = none
  capacity : p.clock.capacity = p.numFrames
  hand : p.clock.hand < p.numFrames ∨ p.numFrames = 0
  idle : ∀ i ∈ p.free, p.clock.isReferenced i = false
  cells : ∀ c, CellFits (p.copies.get? c) (p.seats c) (readers held c) (writers held c)

variable {p : Pool} {held : List Checkout} {i : Nat} {id : PageId}

theorem seat_set (p : Pool) (i : Nat) (f : Frame) (j : Nat) :
    ((p.frames.setIfInBounds i f).getD j Frame.empty).resident =
      if j = i ∧ i < p.numFrames then f.resident else p.seat j := by
  unfold seat frame numFrames
  simp only [Array.getD_eq_getD_getElem?, Array.getElem?_setIfInBounds]
  by_cases hj : i = j
  · subst hj
    by_cases hi : i < p.frames.size <;> simp [hi]
  · simp [hj, Ne.symm hj]

theorem lt_numFrames_of_seat {r : Resident} (h : p.seat i = some r) : i < p.numFrames := by
  apply Decidable.byContradiction
  intro hi
  unfold seat frame at h
  rw [Array.getD_eq_getD_getElem?, Array.getElem?_eq_none (by unfold numFrames at hi; omega)] at h
  cases h

theorem seats_of_seated {c : Nat} (h : p.Seated c) : p.seats c = 1 := if_pos h

theorem seats_of_not_seated {c : Nat} (h : ¬ p.Seated c) : p.seats c = 0 := if_neg h

theorem seats_congr {q : Pool} {c d : Nat} (h : p.Seated c ↔ q.Seated d) : p.seats c = q.seats d := by
  unfold seats
  by_cases hp : p.Seated c
  · rw [if_pos hp, if_pos (h.1 hp)]
  · rw [if_neg hp, if_neg (fun hq => hp (h.2 hq))]

namespace Sound

theorem ofFrames (n : Nat) : (Pool.ofFrames n).Sound [] := by
  have hseat (i : Nat) : (Pool.ofFrames n).seat i = none := by
    unfold seat frame Pool.ofFrames
    rw [Array.getD_eq_getD_getElem?, Array.getElem?_replicate]
    split <;> rfl
  have hn : (Pool.ofFrames n).numFrames = n := by simp [numFrames, Pool.ofFrames]
  refine ⟨List.nodup_nil, fun id i => ?_, fun i j r s hi => ?_, List.nodup_range, fun i => ?_, ?_, ?_,
    fun i _ => ?_, fun c => ?_⟩
  · rw [hseat]
    simp [frameOf?, Pool.ofFrames]
  · rw [hseat] at hi
    cases hi
  · rw [hseat, hn]
    simp [Pool.ofFrames]
  · simp [Clock.capacity, Pool.ofFrames, Clock.ofFrames, numFrames]
  · rw [hn]
    change 0 < n ∨ n = 0
    omega
  · simp only [Pool.ofFrames, Clock.ofFrames, Clock.isReferenced, Array.getD_eq_getD_getElem?,
      Array.getElem?_replicate]
    split <;> rfl
  · refine ⟨seats_of_not_seated ?_, rfl, rfl⟩
    rintro ⟨i, id, hi⟩
    rw [hseat] at hi
    cases hi

theorem perm {held' : List Checkout} (h : p.Sound held) (hp : held.Perm held') : p.Sound held' :=
  { h with cells := Booked.perm h.cells hp }

theorem frameOf?_eq_none (h : p.Sound held) : p.frameOf? id = none ↔ ∀ i c, p.seat i ≠ some ⟨id, c⟩ := by
  constructor
  · intro hn i c hs
    rw [(h.index id i).2 ⟨c, hs⟩] at hn
    cases hn
  · intro hn
    cases hf : p.frameOf? id with
    | none => rfl
    | some i =>
      obtain ⟨c, hc⟩ := (h.index id i).1 hf
      exact absurd hc (hn i c)

theorem copyOf?_eq_some (h : p.Sound held) {c : Nat} :
    p.copyOf? id = some c ↔ ∃ i, p.seat i = some ⟨id, c⟩ := by
  unfold copyOf?
  constructor
  · intro hc
    obtain ⟨i, hi, hr⟩ := Option.bind_eq_some_iff.1 hc
    obtain ⟨c', hc'⟩ := (h.index id i).1 hi
    unfold seat at hc'
    rw [hc'] at hr
    exact ⟨i, by rw [seat, hc', ← Option.some.inj hr]⟩
  · rintro ⟨i, hi⟩
    rw [(h.index id i).2 ⟨c, hi⟩, Option.bind_some]
    unfold seat at hi
    rw [hi]
    rfl

theorem copyOf?_eq_none (h : p.Sound held) : p.copyOf? id = none ↔ ∀ i c, p.seat i ≠ some ⟨id, c⟩ := by
  constructor
  · intro hn i c hs
    rw [h.copyOf?_eq_some.2 ⟨i, hs⟩] at hn
    cases hn
  · intro hn
    cases hc : p.copyOf? id with
    | none => rfl
    | some c =>
      obtain ⟨i, hi⟩ := h.copyOf?_eq_some.1 hc
      exact absurd hi (hn i c)

theorem frameOf?_isSome_iff (h : p.Sound held) : p.frameOf? id = none ↔ p.copyOf? id = none := by
  rw [h.frameOf?_eq_none, h.copyOf?_eq_none]

theorem seated_iff (h : p.Sound held) {c : Nat} : p.Seated c ↔ ∃ id, p.copyOf? id = some c := by
  constructor
  · rintro ⟨i, id, hi⟩
    exact ⟨id, h.copyOf?_eq_some.2 ⟨i, hi⟩⟩
  · rintro ⟨id, hid⟩
    obtain ⟨i, hi⟩ := h.copyOf?_eq_some.1 hid
    exact ⟨i, id, hi⟩

theorem copyOf?_inj (h : p.Sound held) {id' : PageId} {c : Nat} (h1 : p.copyOf? id = some c)
    (h2 : p.copyOf? id' = some c) : id = id' := by
  obtain ⟨i, hi⟩ := h.copyOf?_eq_some.1 h1
  obtain ⟨j, hj⟩ := h.copyOf?_eq_some.1 h2
  have hij := h.single i j _ _ hi hj rfl
  subst hij
  rw [hi] at hj
  cases hj
  rfl

theorem seat_inj (h : p.Sound held) {j c c' : Nat} (h1 : p.seat i = some ⟨id, c⟩)
    (h2 : p.seat j = some ⟨id, c'⟩) : i = j := by
  have := (h.index id i).2 ⟨c, h1⟩
  rw [(h.index id j).2 ⟨c', h2⟩] at this
  exact (Option.some.inj this).symm

/-- A resident copy and a copy that is checked out are there. -/
theorem exists_copy (h : p.Sound held) {c : Nat}
    (hc : p.Seated c ∨ ∃ g ∈ held, g.copy = c) : ∃ k, p.copies.get? c = some k := by
  refine Booked.exists_copy h.cells (hc.imp_left fun hs => ?_)
  rw [seats_of_seated hs]
  exact Nat.one_pos

theorem exists_resident (h : p.Sound held) {c : Nat} (hc : p.copyOf? id = some c) :
    ∃ k, p.copies.get? c = some k :=
  h.exists_copy (.inl (h.seated_iff.2 ⟨id, hc⟩))

end Sound

/-! ### In and out of a frame -/

/-- Takes the page out of a frame, which is then free. -/
def vacate (p : Pool) (i : Nat) : Pool := { p.resetFrame i with free := i :: p.free }

/-- Puts a page into the first free frame. -/
def place (p : Pool) (i : Nat) (rest : List Nat) (id : PageId) (page : Page) : Pool :=
  { p with
    frames := p.frames.setIfInBounds i ⟨some ⟨id, p.copies.cells.size⟩⟩
    copies := (p.copies.add page).2
    index := (id, i) :: p.index
    free := rest
    clock := p.clock.access i }

theorem lookup_filter_ne {κ β : Type} [DecidableEq κ] (l : List (κ × β)) (id id' : κ) :
    (l.filter (·.1 != id)).lookup id' = if id' = id then none else l.lookup id' := by
  induction l with
  | nil => simp
  | cons e l ih =>
    obtain ⟨key, n⟩ := e
    by_cases hk : key = id
    · subst hk
      by_cases hid : id' = key
      · simp [hid] at ih ⊢
        exact ih
      · simp [hid, List.lookup_cons, beq_eq_false_iff_ne.2 hid] at ih ⊢
        exact ih
    · by_cases hid : id' = key
      · subst hid
        simp [hk]
      · simp [hk, List.lookup_cons, beq_eq_false_iff_ne.2 hid, ih]

namespace Sound

variable {r : Resident}

theorem vacate_eq (hs : p.seat i = some r) : p.vacate i =
    { p with
      frames := p.frames.setIfInBounds i Frame.empty
      copies := p.copies.drop r.copy
      index := p.index.filter (·.1 != r.page)
      free := i :: p.free } := by
  unfold seat at hs
  unfold vacate resetFrame Frame.reset
  rw [hs]

theorem seat_vacate (hs : p.seat i = some r) (j : Nat) :
    (p.vacate i).seat j = if j = i then none else p.seat j := by
  rw [vacate_eq hs]
  change ((p.frames.setIfInBounds i Frame.empty).getD j Frame.empty).resident = _
  rw [seat_set]
  simp [lt_numFrames_of_seat hs, Frame.empty]

theorem seat_vacate_iff (hs : p.seat i = some r) {j : Nat} {s : Resident} :
    (p.vacate i).seat j = some s ↔ j ≠ i ∧ p.seat j = some s := by
  rw [seat_vacate hs]
  by_cases hj : j = i <;> simp [hj]

theorem numFrames_vacate (hs : p.seat i = some r) : (p.vacate i).numFrames = p.numFrames := by
  rw [vacate_eq hs]
  exact Array.size_setIfInBounds ..

theorem copies_vacate (hs : p.seat i = some r) : (p.vacate i).copies = p.copies.drop r.copy := by
  rw [vacate_eq hs]

theorem free_vacate (hs : p.seat i = some r) : (p.vacate i).free = i :: p.free := by
  rw [vacate_eq hs]

theorem clock_vacate (hs : p.seat i = some r) : (p.vacate i).clock = p.clock := by
  rw [vacate_eq hs]

theorem frameOf?_vacate (hs : p.seat i = some r) (id : PageId) :
    (p.vacate i).frameOf? id = if id = r.page then none else p.frameOf? id := by
  rw [vacate_eq hs]
  exact lookup_filter_ne ..

theorem seated_vacate (h : p.Sound held) (hs : p.seat i = some r) (c : Nat) :
    (p.vacate i).Seated c ↔ p.Seated c ∧ c ≠ r.copy := by
  unfold Seated
  simp only [seat_vacate_iff hs]
  constructor
  · rintro ⟨j, id, hji, hj⟩
    exact ⟨⟨j, id, hj⟩, fun hc => hji (h.single j i _ _ hj hs hc)⟩
  · rintro ⟨⟨j, id, hj⟩, hc⟩
    refine ⟨j, id, ?_, hj⟩
    rintro rfl
    rw [hs] at hj
    cases hj
    exact hc rfl

/-- The page that was in the frame is in no other. -/
theorem page_ne_of_seat (h : p.Sound held) (hs : p.seat i = some r) {j : Nat} {s : Resident}
    (hj : p.seat j = some s) : j ≠ i ↔ s.page ≠ r.page := by
  refine not_congr ⟨?_, fun hpage => ?_⟩
  · rintro rfl
    rw [hs] at hj
    exact congrArg Resident.page (Option.some.inj hj).symm
  · have hj : p.seat j = some ⟨r.page, s.copy⟩ := by rw [hj, ← hpage]
    exact h.seat_inj hj hs

theorem index_vacate (h : p.Sound held) (hs : p.seat i = some r) (id : PageId) (j : Nat) :
    (p.vacate i).frameOf? id = some j ↔ ∃ c, (p.vacate i).seat j = some ⟨id, c⟩ := by
  simp only [frameOf?_vacate hs, seat_vacate_iff hs]
  by_cases hid : id = r.page
  · rw [if_pos hid]
    simp only [reduceCtorEq, false_iff, not_exists]
    rintro c ⟨hji, hj⟩
    exact (h.page_ne_of_seat hs hj).1 hji hid
  · rw [if_neg hid, h.index]
    refine exists_congr fun c => ⟨fun hj => ⟨(h.page_ne_of_seat hs hj).2 hid, hj⟩, fun hj => hj.2⟩

theorem seats_vacate (h : p.Sound held) (hs : p.seat i = some r) (c : Nat) :
    p.seats c = (p.vacate i).seats c + if c = r.copy then 1 else 0 := by
  have hseated := h.seated_vacate hs
  by_cases hc : c = r.copy
  · subst hc
    rw [if_pos rfl, seats_of_not_seated fun hn => ((hseated _).1 hn).2 rfl, seats_of_seated ⟨i, r.page, hs⟩]
  · rw [if_neg hc, seats_congr (q := p) (d := c) ((hseated c).trans (and_iff_left hc)), Nat.add_zero]

theorem vacate (h : p.Sound held) (hs : p.seat i = some r) (hf : p.clock.isReferenced i = false) :
    (p.vacate i).Sound held where
  keys := by
    rw [vacate_eq hs]
    exact (List.filter_sublist.map _).nodup h.keys
  index := h.index_vacate hs
  single j j' s s' hj hj' := by
    rw [seat_vacate_iff hs] at hj hj'
    exact h.single j j' s s' hj.2 hj'.2
  free_nodup := by
    rw [free_vacate hs]
    refine List.nodup_cons.2 ⟨fun hi => ?_, h.free_nodup⟩
    rw [((h.mem_free i).1 hi).2] at hs
    cases hs
  mem_free j := by
    rw [numFrames_vacate hs, seat_vacate hs, free_vacate hs, List.mem_cons, h.mem_free]
    by_cases hji : j = i
    · subst hji
      simp [lt_numFrames_of_seat hs]
    · simp [hji]
  capacity := by
    rw [numFrames_vacate hs, clock_vacate hs]
    exact h.capacity
  hand := by
    rw [numFrames_vacate hs, clock_vacate hs]
    exact h.hand
  idle j hj := by
    rw [free_vacate hs] at hj
    rw [clock_vacate hs]
    rcases List.mem_cons.1 hj with rfl | hj
    · exact hf
    · exact h.idle j hj
  cells := by
    rw [copies_vacate hs]
    exact Booked.drop h.cells (h.seats_vacate hs)

theorem copyOf?_vacate (h : p.Sound held) (hs : p.seat i = some r)
    (hf : p.clock.isReferenced i = false) (id : PageId) :
    (p.vacate i).copyOf? id = if id = r.page then none else p.copyOf? id := by
  have hv := h.vacate hs hf
  split
  · next hid =>
    rw [hv.copyOf?_eq_none]
    intro j c hj
    obtain ⟨hji, hj⟩ := (seat_vacate_iff hs).1 hj
    exact (h.page_ne_of_seat hs hj).1 hji hid
  · next hid =>
    apply Option.ext
    intro c
    rw [hv.copyOf?_eq_some, h.copyOf?_eq_some]
    simp only [seat_vacate_iff hs]
    exact exists_congr fun j => ⟨fun hj => hj.2, fun hj => ⟨(h.page_ne_of_seat hs hj).2 hid, hj⟩⟩

/-! ### Placing a page -/

variable {rest : List Nat} {page : Page}

theorem first_free (h : p.Sound held) (hf : p.free = i :: rest) : i < p.numFrames ∧ p.seat i = none :=
  (h.mem_free i).1 (by rw [hf]; exact List.mem_cons_self)

theorem numFrames_place : (p.place i rest id page).numFrames = p.numFrames :=
  Array.size_setIfInBounds ..

theorem seat_place (h : p.Sound held) (hf : p.free = i :: rest) (j : Nat) :
    (p.place i rest id page).seat j = if j = i then some ⟨id, p.copies.cells.size⟩ else p.seat j := by
  change ((p.frames.setIfInBounds i _).getD j Frame.empty).resident = _
  rw [seat_set]
  simp [(h.first_free hf).1]

theorem seat_place_iff (h : p.Sound held) (hf : p.free = i :: rest) {j : Nat} {s : Resident} :
    (p.place i rest id page).seat j = some s ↔
      j = i ∧ s = ⟨id, p.copies.cells.size⟩ ∨ p.seat j = some s := by
  rw [h.seat_place hf]
  by_cases hj : j = i
  · subst hj
    rw [if_pos rfl, (h.first_free hf).2]
    simp [eq_comm]
  · simp [hj]

/-- The number of the next copy is not in use. -/
theorem not_seat_size (h : p.Sound held) {j : Nat} {s : Resident} (hs : p.seat j = some s) :
    s.copy ≠ p.copies.cells.size := by
  intro hc
  obtain ⟨k, hk⟩ := h.exists_copy (.inl ⟨j, s.page, hs⟩)
  rw [hc, Copies.get?_size] at hk
  cases hk

theorem frameOf?_place (id' : PageId) :
    (p.place i rest id page).frameOf? id' = if id' = id then some i else p.frameOf? id' := by
  change ((id, i) :: p.index).lookup id' = _
  rw [List.lookup_cons]
  by_cases he : id' = id
  · simp [he]
  · simp only [beq_eq_false_iff_ne.2 he, if_neg he]
    rfl

theorem seated_place (h : p.Sound held) (hf : p.free = i :: rest) (c : Nat) :
    (p.place i rest id page).Seated c ↔ c = p.copies.cells.size ∨ p.Seated c := by
  unfold Seated
  simp only [h.seat_place_iff hf]
  constructor
  · rintro ⟨j, id', ⟨-, hnew⟩ | hj⟩
    · exact .inl (congrArg Resident.copy hnew)
    · exact .inr ⟨j, id', hj⟩
  · rintro (rfl | ⟨j, id', hj⟩)
    · exact ⟨i, id, .inl ⟨rfl, rfl⟩⟩
    · exact ⟨j, id', .inr hj⟩

theorem index_place (h : p.Sound held) (hf : p.free = i :: rest) (hid : p.frameOf? id = none)
    (id' : PageId) (j : Nat) : (p.place i rest id page).frameOf? id' = some j ↔
      ∃ c, (p.place i rest id page).seat j = some ⟨id', c⟩ := by
  simp only [frameOf?_place, h.seat_place_iff hf, Resident.mk.injEq]
  by_cases he : id' = id
  · subst he
    rw [if_pos rfl]
    constructor
    · rintro ⟨⟩
      exact ⟨_, .inl ⟨rfl, rfl, rfl⟩⟩
    · rintro ⟨c, ⟨rfl, -⟩ | hc⟩
      · rfl
      · exact absurd hc (h.frameOf?_eq_none.1 hid j c)
  · rw [if_neg he, h.index]
    simp [he]

theorem seats_place (h : p.Sound held) (hf : p.free = i :: rest) (c : Nat) :
    (p.place i rest id page).seats c = p.seats c + if c = p.copies.cells.size then 1 else 0 := by
  have hseated : (p.place i rest id page).Seated c ↔ c = p.copies.cells.size ∨ p.Seated c :=
    h.seated_place hf c
  by_cases hc : c = p.copies.cells.size
  · have hcell := h.cells c
    rw [hc, Copies.get?_size] at hcell
    rw [if_pos hc, seats_of_seated (hseated.2 (.inl hc)), hc, hcell.1]
  · rw [if_neg hc, seats_congr (q := p) (d := c) (hseated.trans (or_iff_right hc)), Nat.add_zero]

theorem place (h : p.Sound held) (hf : p.free = i :: rest) (hid : p.frameOf? id = none) :
    (p.place i rest id page).Sound held := by
  have hnodup := h.free_nodup
  rw [hf, List.nodup_cons] at hnodup
  exact {
    keys := by
      change (id :: p.index.map (·.1)).Nodup
      refine List.nodup_cons.2 ⟨fun hmem => ?_, h.keys⟩
      obtain ⟨e, he, rfl⟩ := List.mem_map.1 hmem
      have := List.lookup_eq_none_iff.1 hid e he
      simp at this
    index := h.index_place hf hid
    single := by
      intro j j' s s' hj hj' hc
      rw [h.seat_place_iff hf] at hj hj'
      obtain ⟨rfl, rfl⟩ | hj := hj
      · obtain ⟨rfl, -⟩ | hj' := hj'
        · rfl
        · exact absurd hc.symm (h.not_seat_size hj')
      · obtain ⟨rfl, rfl⟩ | hj' := hj'
        · exact absurd hc (h.not_seat_size hj)
        · exact h.single j j' s s' hj hj' hc
    free_nodup := hnodup.2
    mem_free := by
      intro j
      rw [numFrames_place, h.seat_place hf]
      change j ∈ rest ↔ _
      have hmem := h.mem_free j
      rw [hf, List.mem_cons] at hmem
      by_cases hji : j = i
      · subst hji
        simp [hnodup.1]
      · simpa [hji] using hmem
    capacity := by
      rw [numFrames_place]
      exact (Clock.capacity_setFlag ..).trans h.capacity
    hand := by
      rw [numFrames_place]
      exact h.hand
    idle := by
      intro j hj
      change (p.clock.setFlag i true).isReferenced j = false
      rw [Clock.isReferenced_setFlag, if_neg]
      · exact h.idle j (by rw [hf]; exact List.mem_cons_of_mem _ hj)
      · rintro ⟨rfl, -⟩
        exact hnodup.1 hj
    cells := Booked.add h.cells (h.seats_place hf) page }

theorem copyOf?_place (h : p.Sound held) (hf : p.free = i :: rest) (hid : p.frameOf? id = none)
    (id' : PageId) : (p.place i rest id page).copyOf? id' =
      if id' = id then some p.copies.cells.size else p.copyOf? id' := by
  have hpl : (p.place i rest id page).Sound held := h.place hf hid
  apply Option.ext
  intro c
  rw [hpl.copyOf?_eq_some]
  simp only [h.seat_place_iff hf, Resident.mk.injEq]
  split
  · next he =>
    subst he
    constructor
    · rintro ⟨j, ⟨-, -, rfl⟩ | hj⟩
      · rfl
      · exact absurd hj (h.frameOf?_eq_none.1 hid j c)
    · rintro ⟨⟩
      exact ⟨i, .inl ⟨rfl, rfl, rfl⟩⟩
  · next he =>
    rw [h.copyOf?_eq_some]
    simp [he]

/-! ### The clock -/

theorem withClock (h : p.Sound held) {c : Clock} (hcap : c.capacity = p.numFrames)
    (hhand : c.hand < p.numFrames ∨ p.numFrames = 0) (hidle : ∀ i ∈ p.free, c.isReferenced i = false) :
    { p with clock := c : Pool }.Sound held :=
  ⟨h.keys, h.index, h.single, h.free_nodup, h.mem_free, hcap, hhand, hidle, h.cells⟩

theorem access (h : p.Sound held) {r : Resident} (hs : p.seat i = some r) : (p.access i).Sound held := by
  refine h.withClock ((Clock.capacity_setFlag ..).trans h.capacity) h.hand fun j hj => ?_
  change (p.clock.setFlag i true).isReferenced j = false
  rw [Clock.isReferenced_setFlag, if_neg]
  · exact h.idle j hj
  · rintro ⟨rfl, -⟩
    rw [((h.mem_free j).1 hj).2] at hs
    cases hs

end Sound

end HeapStore.Pool
