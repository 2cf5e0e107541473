import Mathlib.Data.Nat.Find
import Mathlib.Logic.ExistsUnique
import HeapStore.Pool.Clock

/-! Which frame the clock picks. The hand comes to the frames in turn, `ahead k` being the one it comes
to after `k` others, and clears the flags of the eligible ones it passes. It stops at the first that is
eligible and unreferenced. Where all eligible frames are referenced, one round clears their flags and
the next stops at the first of them; where none is eligible, two rounds bring the hand back to where
it was. -/

namespace HeapStore.Clock

variable {eligible : Nat → Bool}

/-! ### Flags -/

theorem capacity_setFlag (c : Clock) (f : Nat) (on : Bool) : (c.setFlag f on).capacity = c.capacity := by
  simp [capacity, setFlag]

theorem isReferenced_setFlag (c : Clock) (f : Nat) (on : Bool) (i : Nat) :
    (c.setFlag f on).isReferenced i = if i = f ∧ f < c.capacity then on else c.isReferenced i := by
  unfold isReferenced setFlag capacity
  simp only [Array.getD_eq_getD_getElem?, Array.getElem?_setIfInBounds]
  by_cases hi : f = i
  · subst hi
    by_cases hf : f < c.referenced.size <;> simp [hf]
  · simp [hi, Ne.symm hi]

theorem lt_capacity_of_isReferenced {c : Clock} {f : Nat} (h : c.isReferenced f = true) :
    f < c.capacity := by
  apply Nat.lt_of_not_le
  intro hle
  simp [isReferenced, Array.getD_eq_getD_getElem?, Array.getElem?_eq_none hle] at h

/-! ### The order of the frames -/

/-- The frame that the hand comes to after `k` others. -/
def ahead (c : Clock) (k : Nat) : Nat := (c.hand + k) % c.capacity

section

variable {c : Clock} (h : c.hand < c.capacity)
include h

theorem ahead_lt (k : Nat) : c.ahead k < c.capacity := Nat.mod_lt _ (by omega)

theorem ahead_zero : c.ahead 0 = c.hand := Nat.mod_eq_of_lt h

theorem ahead_inj {j k : Nat} (hj : j < c.capacity) (hk : k < c.capacity)
    (he : c.ahead j = c.ahead k) : j = k := by
  have wrap {i : Nat} (hi : i < c.capacity) :
      c.ahead i = if c.hand + i < c.capacity then c.hand + i else c.hand + i - c.capacity := by
    unfold ahead
    split
    · next hlt => exact Nat.mod_eq_of_lt hlt
    · next hge => rw [Nat.mod_eq_sub_mod (by omega), Nat.mod_eq_of_lt (by omega)]
  rw [wrap hj, wrap hk] at he
  split at he <;> split at he <;> omega

theorem exists_ahead {f : Nat} (hf : f < c.capacity) : ∃ k < c.capacity, c.ahead k = f := by
  refine ⟨(f + c.capacity - c.hand) % c.capacity, Nat.mod_lt _ (by omega), ?_⟩
  rw [ahead, Nat.add_mod_mod, show c.hand + (f + c.capacity - c.hand) = f + c.capacity by omega,
    Nat.add_mod_right, Nat.mod_eq_of_lt hf]

end

theorem ahead_succ (c : Clock) (k : Nat) : (c.ahead k + 1) % c.capacity = c.ahead (k + 1) := by
  rw [ahead, ahead, Nat.mod_add_mod, Nat.add_assoc]

/-! ### Passing frames -/

/-- The clock with its hand one place further. -/
def moved (c : Clock) : Clock := { c with hand := (c.hand + 1) % c.capacity }

/-- The sweep that asked for `f` first. -/
def asking (f : Nat) (s : Sweep) : Sweep := { s with asked := f :: s.asked }

theorem sweep_succ (steps : Nat) (c : Clock) : sweep eligible (steps + 1) c =
    if eligible c.hand then
      if c.isReferenced c.hand then asking c.hand (sweep eligible steps (c.moved.forget c.hand))
      else ⟨some c.hand, [c.hand], c.moved⟩
    else asking c.hand (sweep eligible steps c.moved) := rfl

/-- The clock after its hand has passed a frame. -/
def pass (eligible : Nat → Bool) (c : Clock) : Clock :=
  if eligible c.hand then c.moved.forget c.hand else c.moved

/-- The clock after its hand has passed `k` frames. -/
def passing (eligible : Nat → Bool) (c : Clock) : Nat → Clock
  | 0 => c
  | k + 1 => (c.passing eligible k).pass eligible

theorem capacity_pass (c : Clock) : (c.pass eligible).capacity = c.capacity := by
  unfold pass
  split
  · exact capacity_setFlag ..
  · rfl

theorem hand_pass (c : Clock) : (c.pass eligible).hand = (c.hand + 1) % c.capacity := by
  unfold pass
  split <;> rfl

theorem isReferenced_pass (c : Clock) (f : Nat) :
    (c.pass eligible).isReferenced f = true ↔
      c.isReferenced f = true ∧ ¬ (eligible f = true ∧ c.hand = f) := by
  unfold pass
  split
  · next he =>
    rw [forget, isReferenced_setFlag]
    change (if f = c.hand ∧ c.hand < c.capacity then false else c.isReferenced f) = true ↔ _
    by_cases hf : f = c.hand
    · subst hf
      split
      · simp [he]
      · next hn =>
        have hr : c.isReferenced c.hand = false :=
          Bool.eq_false_iff.2 fun hr => hn ⟨rfl, lt_capacity_of_isReferenced hr⟩
        simp [he, hr]
    · simp [hf, Ne.symm hf]
  · next he =>
    refine ⟨fun hr => ⟨hr, ?_⟩, fun hr => hr.1⟩
    rintro ⟨hf, rfl⟩
    exact he hf

theorem capacity_passing (c : Clock) (k : Nat) : (c.passing eligible k).capacity = c.capacity := by
  induction k with
  | zero => rfl
  | succ k ih => rw [passing, capacity_pass, ih]

theorem hand_passing {c : Clock} (h : c.hand < c.capacity) (k : Nat) :
    (c.passing eligible k).hand = c.ahead k := by
  induction k with
  | zero => exact (ahead_zero h).symm
  | succ k ih => rw [passing, hand_pass, ih, capacity_passing, ahead_succ]

/-- Passed frames that are eligible have lost their flags, and no others have. -/
theorem isReferenced_passing {c : Clock} (h : c.hand < c.capacity) (k f : Nat) :
    (c.passing eligible k).isReferenced f = true ↔
      c.isReferenced f = true ∧ ¬ (eligible f = true ∧ ∃ j < k, c.ahead j = f) := by
  induction k with
  | zero => simp [passing]
  | succ k ih =>
    rw [passing, isReferenced_pass, ih, hand_passing h]
    simp only [Nat.lt_succ_iff_lt_or_eq, or_and_right, exists_or, exists_eq_left]
    rw [and_assoc, ← not_or, ← and_or_left]

theorem capacity_sweep (steps : Nat) (c : Clock) :
    (sweep eligible steps c).clock.capacity = c.capacity := by
  induction steps generalizing c with
  | zero => rfl
  | succ steps ih =>
    rw [sweep_succ]
    split
    · split
      · exact (ih _).trans (capacity_setFlag ..)
      · rfl
    · exact ih c.moved

/-- A hand that need not stop goes on from the frames that it has passed. -/
theorem sweep_passing {c : Clock} (h : c.hand < c.capacity) {k : Nat}
    (hpass : ∀ j < k, eligible (c.ahead j) = true →
      (c.passing eligible j).isReferenced (c.ahead j) = true) (steps : Nat) :
    (sweep eligible (k + steps) c).victim = (sweep eligible steps (c.passing eligible k)).victim ∧
      (sweep eligible (k + steps) c).clock = (sweep eligible steps (c.passing eligible k)).clock := by
  induction k generalizing steps with
  | zero => rw [Nat.zero_add]; exact ⟨rfl, rfl⟩
  | succ k ih =>
    have hlast : eligible (c.passing eligible k).hand = true →
        (c.passing eligible k).isReferenced (c.passing eligible k).hand = true := by
      rw [hand_passing h]
      exact hpass k (Nat.lt_succ_self k)
    have hstep : sweep eligible (steps + 1) (c.passing eligible k) =
        asking (c.passing eligible k).hand (sweep eligible steps (c.passing eligible (k + 1))) := by
      rw [sweep_succ, passing, pass]
      split
      · next he => rw [if_pos (hlast he)]
      · rfl
    have := ih (fun j hj => hpass j (Nat.lt_succ_of_lt hj)) (steps + 1)
    rw [hstep] at this
    rwa [show k + 1 + steps = k + (steps + 1) by omega]

/-! ### Where the hand stops -/

/-- The sweep picks `v` and clears just these flags on its way. -/
structure Stops (c : Clock) (s : Sweep) (v : Nat) (cleared : Nat → Prop) : Prop where
  victim : s.victim = some v
  hand : s.clock.hand = (v + 1) % c.capacity
  flags : ∀ f, s.clock.isReferenced f = true ↔ c.isReferenced f = true ∧ ¬ cleared f

section

variable {c : Clock} (h : c.hand < c.capacity)
include h

theorem sweep_stops {k steps : Nat} (hk : k < c.capacity) (hsteps : k < steps)
    (he : eligible (c.ahead k) = true) (hr : c.isReferenced (c.ahead k) = false)
    (hbefore : ∀ j < k, eligible (c.ahead j) = true → c.isReferenced (c.ahead j) = true) :
    c.Stops (sweep eligible steps c) (c.ahead k)
      (fun f => eligible f = true ∧ ∃ j < k, c.ahead j = f) := by
  have hpass : ∀ j < k, eligible (c.ahead j) = true →
      (c.passing eligible j).isReferenced (c.ahead j) = true := by
    intro j hj hej
    refine (isReferenced_passing h j _).2 ⟨hbefore j hj hej, ?_⟩
    rintro ⟨-, i, hi, hij⟩
    have := ahead_inj h (by omega) (by omega) hij
    omega
  obtain ⟨hvictim, hclock⟩ := sweep_passing h hpass (steps - k - 1 + 1)
  have hunref : (c.passing eligible k).isReferenced (c.ahead k) = false := by
    rw [← Bool.not_eq_true, isReferenced_passing h, hr]
    exact fun hc => Bool.false_ne_true hc.1
  have hstop : sweep eligible (steps - k - 1 + 1) (c.passing eligible k) =
      ⟨some (c.ahead k), [c.ahead k], (c.passing eligible k).moved⟩ := by
    rw [sweep_succ, hand_passing h, if_pos he, if_neg (by rw [hunref]; exact Bool.false_ne_true)]
  rw [hstop, show k + (steps - k - 1 + 1) = steps by omega] at hvictim hclock
  refine ⟨hvictim, ?_, fun f => ?_⟩
  · rw [hclock, moved, hand_passing h, capacity_passing]
  · rw [hclock]
    exact isReferenced_passing h k f

theorem sweep_stops_again {k steps : Nat} (hk : k < c.capacity) (hsteps : c.capacity + k < steps)
    (he : eligible (c.ahead k) = true) (hbefore : ∀ j < k, eligible (c.ahead j) = false)
    (hall : ∀ f < c.capacity, eligible f = true → c.isReferenced f = true) :
    c.Stops (sweep eligible steps c) (c.ahead k) (fun f => eligible f = true) := by
  -- one round clears the flags of all eligible frames
  have hpass : ∀ j < c.capacity, eligible (c.ahead j) = true →
      (c.passing eligible j).isReferenced (c.ahead j) = true := by
    intro j hj hej
    refine (isReferenced_passing h j _).2 ⟨hall _ (ahead_lt h j) hej, ?_⟩
    rintro ⟨-, i, hi, hij⟩
    have := ahead_inj h (by omega) hj hij
    omega
  obtain ⟨hvictim, hclock⟩ := sweep_passing h hpass (steps - c.capacity)
  rw [show c.capacity + (steps - c.capacity) = steps by omega] at hvictim hclock
  have hround : ∀ f, (c.passing eligible c.capacity).isReferenced f = true ↔
      c.isReferenced f = true ∧ ¬ eligible f = true := by
    intro f
    rw [isReferenced_passing h]
    refine and_congr_right fun hf => not_congr (and_iff_left ?_)
    exact exists_ahead h (lt_capacity_of_isReferenced hf)
  -- the hand is back, and the second round stops at the first eligible frame
  have hhand : (c.passing eligible c.capacity).hand = c.hand := by
    rw [hand_passing h, ahead, Nat.add_mod_right, Nat.mod_eq_of_lt h]
  have hahead (j : Nat) : (c.passing eligible c.capacity).ahead j = c.ahead j := by
    rw [ahead, hhand, capacity_passing, ahead]
  have hrest : k < steps - c.capacity := by omega
  have hstop := sweep_stops (by rw [hhand, capacity_passing]; exact h)
    (by rw [capacity_passing]; exact hk) hrest (by rw [hahead]; exact he)
    (by rw [hahead, ← Bool.not_eq_true, hround]; exact fun hr => hr.2 he)
    (fun j hj hej => by rw [hahead, hbefore j hj] at hej; cases hej)
  rw [hahead] at hstop
  refine ⟨hvictim.trans hstop.victim, ?_, fun f => ?_⟩
  · rw [hclock, hstop.hand, capacity_passing]
  · rw [hclock, hstop.flags, hround]
    refine ⟨fun hf => hf.1, fun hf => ⟨hf, fun hc => hf.2 hc.1⟩⟩

/-- A hand that passes no eligible frame only moves on. -/
theorem passing_of_not_eligible (hnone : ∀ f < c.capacity, eligible f = false) (k : Nat) :
    c.passing eligible k = { c with hand := c.ahead k } := by
  induction k with
  | zero => rw [passing, ahead_zero h]
  | succ k ih =>
    rw [passing, ih, pass, hnone _ (ahead_lt h k), if_neg Bool.false_ne_true, ← ahead_succ]
    rfl

theorem sweep_of_not_eligible (hnone : ∀ f < c.capacity, eligible f = false) (steps : Nat) :
    (sweep eligible steps c).victim = none ∧
      (sweep eligible steps c).clock = { c with hand := c.ahead steps } := by
  have hpass : ∀ j < steps, eligible (c.ahead j) = true →
      (c.passing eligible j).isReferenced (c.ahead j) = true := by
    intro j _ hej
    rw [hnone _ (ahead_lt h j)] at hej
    cases hej
  obtain ⟨hvictim, hclock⟩ := sweep_passing h hpass 0
  rw [passing_of_not_eligible h hnone] at hclock
  exact ⟨hvictim, hclock⟩

end

/-! ### The pick -/

/-- How two rounds or more can end: no frame is eligible; or the hand stops at the first eligible
frame that is unreferenced; or, all eligible frames being referenced, at the first of them. -/
inductive Picks (eligible : Nat → Bool) (c : Clock) (s : Sweep) : Prop where
  | nothing : (∀ f < c.capacity, eligible f = false) → s.victim = none → Picks eligible c s
  | unreferenced (k : Nat) : k < c.capacity → eligible (c.ahead k) = true →
      c.isReferenced (c.ahead k) = false →
      (∀ j < k, eligible (c.ahead j) = true → c.isReferenced (c.ahead j) = true) →
      c.Stops s (c.ahead k) (fun f => eligible f = true ∧ ∃ j < k, c.ahead j = f) → Picks eligible c s
  | referenced (k : Nat) : k < c.capacity → eligible (c.ahead k) = true →
      (∀ j < k, eligible (c.ahead j) = false) →
      (∀ f < c.capacity, eligible f = true → c.isReferenced f = true) →
      c.Stops s (c.ahead k) (fun f => eligible f = true) → Picks eligible c s

theorem exists_first {P : Nat → Prop} [DecidablePred P] {n : Nat} (h : ∃ k < n, P k) :
    ∃ k < n, P k ∧ ∀ j < k, ¬ P j := by
  obtain ⟨hlt, hP⟩ := Nat.find_spec h
  exact ⟨Nat.find h, hlt, hP, fun j hj hPj => Nat.find_min h hj ⟨by omega, hPj⟩⟩

theorem sweep_picks {c : Clock} (h : c.hand < c.capacity) {steps : Nat} (hsteps : 2 * c.capacity ≤ steps) :
    Picks eligible c (sweep eligible steps c) := by
  by_cases hunref : ∃ k < c.capacity, eligible (c.ahead k) = true ∧ c.isReferenced (c.ahead k) = false
  · obtain ⟨k, hk, ⟨he, hr⟩, hfirst⟩ := exists_first hunref
    have hbefore : ∀ j < k, eligible (c.ahead j) = true → c.isReferenced (c.ahead j) = true := by
      intro j hj hej
      rw [← Bool.not_eq_false]
      exact fun hrj => hfirst j hj ⟨hej, hrj⟩
    exact .unreferenced k hk he hr hbefore (sweep_stops h hk (by omega) he hr hbefore)
  · have hall : ∀ f < c.capacity, eligible f = true → c.isReferenced f = true := by
      intro f hf hef
      obtain ⟨k, hk, rfl⟩ := exists_ahead h hf
      rw [← Bool.not_eq_false]
      exact fun hrk => hunref ⟨k, hk, hef, hrk⟩
    by_cases hany : ∃ k < c.capacity, eligible (c.ahead k) = true
    · obtain ⟨k, hk, he, hfirst⟩ := exists_first hany
      have hbefore : ∀ j < k, eligible (c.ahead j) = false := by
        intro j hj
        rw [← Bool.not_eq_true]
        exact hfirst j hj
      exact .referenced k hk he hbefore hall (sweep_stops_again h hk (by omega) he hbefore hall)
    · have hnone : ∀ f < c.capacity, eligible f = false := by
        intro f hf
        obtain ⟨k, hk, rfl⟩ := exists_ahead h hf
        rw [← Bool.not_eq_true]
        exact fun hek => hany ⟨k, hk, hek⟩
      exact .nothing hnone (sweep_of_not_eligible h hnone steps).1

/-- A sweep that has found a frame finds it in more steps too. -/
theorem victim_sweep_add {c : Clock} {steps v : Nat} (h : (sweep eligible steps c).victim = some v)
    (more : Nat) : (sweep eligible (steps + more) c).victim = some v := by
  induction steps generalizing c with
  | zero => cases h
  | succ steps ih =>
    rw [Nat.add_right_comm, sweep_succ]
    rw [sweep_succ] at h
    split
    · next he =>
      rw [if_pos he] at h
      split
      · next hr =>
        rw [if_pos hr] at h
        exact ih h
      · next hr =>
        rw [if_neg hr] at h
        exact h
    · next he =>
      rw [if_neg he] at h
      exact ih h

/-! ### Emptying a frame -/

section

variable {c : Clock} (hh : c.hand < c.capacity ∨ c.capacity = 0)
include hh

theorem evict_picks (eligible : Nat → Bool) : Picks eligible c (c.evict eligible) := by
  rcases hh with h | h0
  · exact sweep_picks h (Nat.le_refl _)
  · refine .nothing (fun f hf => by omega) ?_
    rw [evict, h0]
    rfl

/-- No frame is picked only if none is eligible. -/
theorem evict_eq_none (hv : (c.evict eligible).victim = none) {i : Nat} (hi : i < c.capacity) :
    eligible i = false := by
  cases evict_picks hh eligible with
  | nothing hnone => exact hnone i hi
  | unreferenced k _ _ _ _ hstop => rw [hstop.victim] at hv; cases hv
  | referenced k _ _ _ _ hstop => rw [hstop.victim] at hv; cases hv

/-- A frame that is picked is eligible, and the flags that go are its own and others of eligible
frames. -/
theorem evict_stops {i : Nat} (hv : (c.evict eligible).victim = some i) :
    eligible i = true ∧ i < c.capacity ∧ ∃ cleared, c.Stops (c.evict eligible) i cleared ∧
      (∀ f, cleared f → eligible f = true) ∧ (c.isReferenced i = true → cleared i) := by
  cases evict_picks hh eligible with
  | nothing _ hv' => rw [hv] at hv'; cases hv'
  | unreferenced k hk he hr _ hstop =>
    obtain rfl : c.ahead k = i := Option.some.inj (hstop.victim.symm.trans hv)
    exact ⟨he, ahead_lt (by omega) k, _, hstop, fun f hf => hf.1, fun hri => by rw [hr] at hri; cases hri⟩
  | referenced k hk he _ _ hstop =>
    obtain rfl : c.ahead k = i := Option.some.inj (hstop.victim.symm.trans hv)
    exact ⟨he, ahead_lt (by omega) k, _, hstop, fun f hf => hf, fun _ => he⟩

theorem evict_eq_some {i : Nat} (hv : (c.evict eligible).victim = some i) :
    eligible i = true ∧ i < c.capacity ∧ (c.evict eligible).clock.isReferenced i = false := by
  obtain ⟨he, hlt, cleared, hstop, -, hown⟩ := evict_stops hh hv
  refine ⟨he, hlt, ?_⟩
  rw [← Bool.not_eq_true, hstop.flags]
  exact fun hf => hf.2 (hown hf.1)

/-- The hand stands behind the frame that was picked. -/
theorem hand_evict {i : Nat} (hv : (c.evict eligible).victim = some i) :
    (c.evict eligible).clock.hand = (i + 1) % c.capacity := by
  obtain ⟨-, -, cleared, hstop, -⟩ := evict_stops hh hv
  exact hstop.hand

/-- Two rounds that find no frame leave the clock as it was. -/
theorem clock_evict_of_none (hv : (c.evict eligible).victim = none) : (c.evict eligible).clock = c := by
  have hnone : ∀ f < c.capacity, eligible f = false := fun f hf => evict_eq_none hh hv hf
  rcases hh with h | h0
  · rw [evict, (sweep_of_not_eligible h hnone _).2, ahead, Nat.add_mul_mod_self_right,
      Nat.mod_eq_of_lt h]
  · rw [evict, h0]
    rfl

theorem hand_evict_lt : (c.evict eligible).clock.hand < c.capacity ∨ c.capacity = 0 := by
  cases hv : (c.evict eligible).victim with
  | none =>
    rw [clock_evict_of_none hh hv]
    exact hh
  | some i =>
    rw [hand_evict hh hv]
    have := (evict_eq_some hh hv).2.1
    exact .inl (Nat.mod_lt _ (by omega))

end

theorem capacity_evict (c : Clock) : (c.evict eligible).clock.capacity = c.capacity :=
  capacity_sweep ..

/-! ### Runs of a clock -/

/-- What a clock is told: that a frame was used, that its use may be forgotten, or to pick a frame.
No frame has to be one of the clock's. -/
inductive Call where
  | access (frame : Nat)
  | forget (frame : Nat)
  | evict (eligible : Nat → Bool)

def call (c : Clock) : Call → Clock
  | .access frame => c.access frame
  | .forget frame => c.forget frame
  | .evict eligible => (c.evict eligible).clock

def after (c : Clock) (calls : List Call) : Clock := calls.foldl call c

theorem hand_call_lt {c : Clock} (hh : c.hand < c.capacity ∨ c.capacity = 0) (call : Call) :
    (c.call call).hand < (c.call call).capacity ∨ (c.call call).capacity = 0 := by
  cases call with
  | access frame =>
    rw [Clock.call, access, capacity_setFlag]
    exact hh
  | forget frame =>
    rw [Clock.call, forget, capacity_setFlag]
    exact hh
  | evict eligible =>
    rw [Clock.call, capacity_evict]
    exact hand_evict_lt hh

theorem hand_after_lt {c : Clock} (hh : c.hand < c.capacity ∨ c.capacity = 0) (calls : List Call) :
    (c.after calls).hand < (c.after calls).capacity ∨ (c.after calls).capacity = 0 := by
  induction calls generalizing c with
  | nil => exact hh
  | cons call calls ih => exact ih (hand_call_lt hh call)

/-- The clock picks the first eligible frame ahead of its hand that is unreferenced and takes the flags
of the eligible frames before it. If all eligible frames are referenced it picks the first of them and
takes all their flags. If none is eligible it picks none and stays as it is. -/
structure PicksRightly (eligible : Nat → Bool) (c : Clock) : Prop where
  /-- The hand comes to every frame once before it comes to any for the second time. -/
  order : ∀ f < c.capacity, ∃! k, k < c.capacity ∧ c.ahead k = f
  none_iff : (c.evict eligible).victim = none ↔ ∀ f < c.capacity, eligible f = false
  unchanged : (c.evict eligible).victim = none → (c.evict eligible).clock = c
  unreferenced : (∃ f < c.capacity, eligible f = true ∧ c.isReferenced f = false) →
    ∃ k < c.capacity, eligible (c.ahead k) = true ∧ c.isReferenced (c.ahead k) = false ∧
      (∀ j < k, eligible (c.ahead j) = true → c.isReferenced (c.ahead j) = true) ∧
      c.Stops (c.evict eligible) (c.ahead k) fun f => eligible f = true ∧ ∃ j < k, c.ahead j = f
  referenced : (∃ f < c.capacity, eligible f = true) →
    (∀ f < c.capacity, eligible f = true → c.isReferenced f = true) →
    ∃ k < c.capacity, eligible (c.ahead k) = true ∧ (∀ j < k, eligible (c.ahead j) = false) ∧
      c.Stops (c.evict eligible) (c.ahead k) fun f => eligible f = true
  ineligible : ∀ f, eligible f = false →
    (c.evict eligible).clock.isReferenced f = c.isReferenced f
  victim : ∀ v, (c.evict eligible).victim = some v → eligible v = true ∧ v < c.capacity ∧
    (c.evict eligible).clock.hand = (v + 1) % c.capacity ∧
    (c.evict eligible).clock.isReferenced v = false
  /-- A frame that was used gives way only if every eligible frame was used. -/
  fair : ∀ v, (c.evict eligible).victim = some v → c.isReferenced v = true →
    ∀ f < c.capacity, eligible f = true → c.isReferenced f = true
  /-- A third round would find nothing that two rounds do not. -/
  enough : 0 < c.capacity → ∀ steps, 2 * c.capacity ≤ steps →
    (sweep eligible steps c).victim = (c.evict eligible).victim
  capacity : (c.evict eligible).clock.capacity = c.capacity

theorem picksRightly {c : Clock} (hh : c.hand < c.capacity ∨ c.capacity = 0) :
    PicksRightly eligible c where
  order f hf := by
    have h : c.hand < c.capacity := by omega
    obtain ⟨k, hk, hkf⟩ := exists_ahead h hf
    exact ⟨k, ⟨hk, hkf⟩, fun j ⟨hj, hjf⟩ => ahead_inj h hj hk (hjf.trans hkf.symm)⟩
  none_iff := by
    refine ⟨fun hv f hf => evict_eq_none hh hv hf, fun hnone => ?_⟩
    rw [Option.eq_none_iff_forall_ne_some]
    intro v hv
    obtain ⟨he, hlt, -⟩ := evict_eq_some hh hv
    rw [hnone v hlt] at he
    cases he
  unchanged := clock_evict_of_none hh
  unreferenced := by
    rintro ⟨f, hf, he, hr⟩
    cases evict_picks hh eligible with
    | nothing hnone => rw [hnone f hf] at he; cases he
    | unreferenced k hk he hr hbefore hstop => exact ⟨k, hk, he, hr, hbefore, hstop⟩
    | referenced k _ _ _ hall => rw [hall f hf he] at hr; cases hr
  referenced := by
    rintro ⟨f, hf, he⟩ hall
    cases evict_picks hh eligible with
    | nothing hnone => rw [hnone f hf] at he; cases he
    | unreferenced k hk hek hr =>
      rw [hall _ (ahead_lt (by omega) k) hek] at hr
      cases hr
    | referenced k hk he hbefore _ hstop => exact ⟨k, hk, he, hbefore, hstop⟩
  ineligible f he := by
    cases hv : (c.evict eligible).victim with
    | none => rw [clock_evict_of_none hh hv]
    | some v =>
      obtain ⟨-, -, cleared, hstop, heligible, -⟩ := evict_stops hh hv
      have hkept : ¬ cleared f := fun hf => by simp [heligible f hf] at he
      rw [Bool.eq_iff_iff, hstop.flags, and_iff_left hkept]
  victim v hv := by
    obtain ⟨he, hlt, hflag⟩ := evict_eq_some hh hv
    exact ⟨he, hlt, hand_evict hh hv, hflag⟩
  fair v hv hr f hf he := by
    cases evict_picks hh eligible with
    | nothing hnone => rw [hnone f hf] at he; cases he
    | unreferenced k _ _ hrk _ hstop =>
      rw [Option.some.inj (hstop.victim.symm.trans hv), hr] at hrk
      cases hrk
    | referenced k _ _ _ hall => exact hall f hf he
  enough hpos steps hsteps := by
    cases hv : (c.evict eligible).victim with
    | some v =>
      have hmore := victim_sweep_add hv (steps - 2 * c.capacity)
      rwa [Nat.add_sub_cancel' hsteps] at hmore
    | none =>
      have h : c.hand < c.capacity := by omega
      exact (sweep_of_not_eligible h (fun f hf => evict_eq_none hh hv hf) steps).1
  capacity := capacity_evict c

/-- A clock of any size picks rightly after any calls. -/
theorem evict_exact (n : Nat) (calls : List Call) (eligible : Nat → Bool) :
    PicksRightly eligible ((ofFrames n).after calls) := by
  refine picksRightly (hand_after_lt ?_ calls)
  rcases Nat.eq_zero_or_pos n with rfl | hn
  · exact .inr rfl
  · exact .inl (by simpa [ofFrames, Clock.capacity] using hn)

/-- Frames 1 and 2 of three may be emptied and all were used: the second round stops at frame 1. -/
example : ((ofFrames 3).after [.access 0, .access 1, .access 2, .access 9]).evict (· != 0) =
    ⟨some 1, [0, 1, 2, 0, 1], ⟨#[true, false, false], 2⟩⟩ := by decide

end HeapStore.Clock
