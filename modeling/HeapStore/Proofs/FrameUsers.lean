import HeapStore.Pool.FrameUse
import HeapStore.Proofs.PoolMoves
import HeapStore.Proofs.Session

/-! Who pins a frame. `FrameUse.Roster` lists the pages that were ever put into a frame and those who use
them, by the calls alone: it has no reference counts and no locks. A frame and its copies tell exactly what
the roster tells, after any calls: the frame is pinned by the users of the page that sits in it now, and by
nobody else. -/

namespace HeapStore.FrameUse

open Pool (Booked Compatible readers writers mem_held_iff)

/-! ### The calls -/

/-- Where a new user has a page from: the frame, or a user who has it already. -/
inductive Source where
  | frame
  | handle (i : Nat)
  | checkout (i : Nat)
  deriving DecidableEq, Repr

/-- The copy that a source refers to, if there is one. -/
def copyFrom (u : FrameUse) : Source → Option Nat
  | .frame => u.frame.resident.map (·.copy)
  | .handle i => u.handles[i]?
  | .checkout i => u.checkouts[i]?.map (·.copy)

/-- Takes a handle on the copy that a source refers to. -/
def pinFrom (u : FrameUse) (source : Source) : Bool × FrameUse :=
  match u.copyFrom source with
  | none => (false, u)
  | some c => (true, { u with copies := u.copies.retain c, handles := c :: u.handles })

/-- Checks out the copy that a source refers to, which need not sit in the frame any more. -/
def checkoutFrom (u : FrameUse) (source : Source) (access : Access) :
    Option (Option Checkout) × FrameUse :=
  match u.copyFrom source with
  | none => (none, u)
  | some c =>
    match u.copies.acquire c access with
    | none => (some none, u)
    | some (g, copies) => (some (some g), { u with copies := copies, checkouts := g :: u.checkouts })

/-- Changes the page under the checkout at a position, if that is an exclusive one. -/
def change (u : FrameUse) (i : Nat) (f : Page → Page) : FrameUse :=
  match u.checkouts[i]? with
  | none => u
  | some g => { u with copies := (u.copies.edit g fun p => (.ok (), f p)).2 }

/-! From the frame, and with a mark as the change, these are the frame's own calls. -/

theorem pinFrom_frame (u : FrameUse) : u.pinFrom .frame = u.pin := by
  unfold pinFrom pin copyFrom
  cases u.frame.resident <;> rfl

theorem checkoutFrom_frame (u : FrameUse) (access : Access) :
    u.checkoutFrom .frame access = u.checkout access := by
  unfold checkoutFrom checkout copyFrom
  cases u.frame.resident <;> rfl

theorem change_markDirty {u : FrameUse} {i : Nat} {g : Checkout} (h : u.checkouts[i]? = some g)
    (dirty : Bool) (txn : TxnId) :
    u.change i (·.markDirty dirty txn) = (u.markDirty g dirty txn).2 := by
  unfold change
  rw [h]
  rfl

/-- One call. A handle that comes with a page that is put in is one taken right after; a handle on the page
that is taken out is one taken right before. -/
inductive Action where
  | install (id : PageId) (p : Page)
  | reset
  | pin (source : Source)
  | unpin (i : Nat)
  | checkout (source : Source) (access : Access)
  | release (i : Nat)
  | change (i : Nat) (f : Page → Page)

def step (u : FrameUse) : Action → FrameUse
  | .install id p => u.install id p
  | .reset => u.reset.2
  | .pin source => (u.pinFrom source).2
  | .unpin i => (u.unpin i).2
  | .checkout source access => (u.checkoutFrom source access).2
  | .release i => (u.release i).2
  | .change i f => u.change i f

def run (u : FrameUse) (actions : List Action) : FrameUse := actions.foldl step u

/-! ### The roster -/

/-- All pages that were ever put in, the latest last, each as it was when it was last changed; a page's
number is its position. What sits in the frame, and who uses which page. -/
structure Roster where
  pages : List Page
  resident : Option Resident
  handles : List Nat
  checkouts : List Checkout
  deriving DecidableEq, Repr

namespace Roster

def empty : Roster := ⟨[], none, [], []⟩

def copyFrom (l : Roster) : Source → Option Nat
  | .frame => l.resident.map (·.copy)
  | .handle i => l.handles[i]?
  | .checkout i => l.checkouts[i]?.map (·.copy)

/-- Does a page allow one more checkout? Only shared checkouts may stand beside each other. -/
def Admits (l : Roster) (c : Nat) (access : Access) : Prop :=
  ∀ g ∈ l.checkouts, g.copy = c → g.access = .shared ∧ access = .shared

instance (l : Roster) (c : Nat) (access : Access) : Decidable (l.Admits c access) :=
  inferInstanceAs (Decidable (∀ g ∈ l.checkouts, _))

def install (l : Roster) (id : PageId) (p : Page) : Roster :=
  { l with pages := l.pages ++ [p], resident := some ⟨id, l.pages.length⟩ }

def reset (l : Roster) : Roster := { l with resident := none }

def pin (l : Roster) (source : Source) : Roster :=
  { l with handles := (l.copyFrom source).toList ++ l.handles }

def unpin (l : Roster) (i : Nat) : Roster := { l with handles := l.handles.eraseIdx i }

def checkout (l : Roster) (source : Source) (access : Access) : Roster :=
  match l.copyFrom source with
  | none => l
  | some c => if l.Admits c access then { l with checkouts := ⟨c, access⟩ :: l.checkouts } else l

def release (l : Roster) (i : Nat) : Roster := { l with checkouts := l.checkouts.eraseIdx i }

def change (l : Roster) (i : Nat) (f : Page → Page) : Roster :=
  match l.checkouts[i]? with
  | some ⟨c, .exclusive⟩ => { l with pages := l.pages.modify c f }
  | _ => l

def step (l : Roster) : Action → Roster
  | .install id p => l.install id p
  | .reset => l.reset
  | .pin source => l.pin source
  | .unpin i => l.unpin i
  | .checkout source access => l.checkout source access
  | .release i => l.release i
  | .change i f => l.change i f

def run (l : Roster) (actions : List Action) : Roster := actions.foldl step l

/-- Does somebody have the page in hand? -/
def Uses (l : Roster) (c : Nat) : Prop := c ∈ l.handles ∨ ∃ g ∈ l.checkouts, g.copy = c

def Marked (l : Roster) (c : Nat) : Prop := ∃ p, l.pages[c]? = some p ∧ p.dirtiedBy ≠ none

/-- Those who have a reference to a page and no checkout: the frame, if the page sits in it, and the
handles. -/
def holders (l : Roster) : List Nat := (l.resident.map (·.copy)).toList ++ l.handles

theorem mem_holders_iff {l : Roster} {c : Nat} :
    c ∈ l.holders ↔ (∃ r, l.resident = some r ∧ r.copy = c) ∨ c ∈ l.handles := by
  simp [holders]

theorem uses_iff {l : Roster} {c : Nat} :
    l.Uses c ↔ 0 < l.handles.count c + readers l.checkouts c + writers l.checkouts c := by
  rw [Uses, mem_held_iff, ← List.count_pos_iff]
  omega

theorem admits_iff {l : Roster} {c : Nat} {access : Access} :
    l.Admits c access ↔ Compatible l.checkouts c access := by
  unfold Admits
  cases access with
  | shared =>
    unfold Compatible writers
    simp only [List.count_eq_zero, and_true]
    constructor
    · intro hall hmem
      cases hall _ hmem rfl
    · rintro hno ⟨d, access⟩ hg rfl
      cases access with
      | shared => rfl
      | exclusive => exact absurd hg hno
  | exclusive =>
    have hnone : (¬ ∃ g ∈ l.checkouts, g.copy = c) ↔ ¬ 0 < readers l.checkouts c + writers l.checkouts c :=
      not_congr mem_held_iff
    simpa [Compatible] using hnone

end Roster

/-! ### The frame and the roster -/

/-- The roster lists those who use a frame, and the books of the copies fit it. -/
structure Listed (u : FrameUse) (l : Roster) : Prop where
  resident : u.frame.resident = l.resident
  handles : u.handles = l.handles
  checkouts : u.checkouts = l.checkouts
  size : u.copies.cells.size = l.pages.length
  booked : Booked u.copies (l.holders.count ·) l.checkouts
  pages : ∀ c p, u.copies.page? c = some p → l.pages[c]? = some p

theorem count_cons_eq (c : Nat) (l : List Nat) (d : Nat) :
    (c :: l).count d = l.count d + if d = c then 1 else 0 := by
  rw [List.count_cons]
  by_cases h : d = c <;> simp [h, Ne.symm]

theorem reset_of_none {u : FrameUse} (h : u.frame.resident = none) :
    u.reset.2 = { u with frame := .empty } := by
  unfold FrameUse.reset Frame.reset
  rw [h]

theorem reset_of_some {u : FrameUse} {r : Resident} (h : u.frame.resident = some r) :
    u.reset.2 = { u with frame := .empty, copies := u.copies.drop r.copy } := by
  unfold FrameUse.reset Frame.reset
  rw [h]

/-- A page is put into the frame when that was emptied. -/
theorem install_eq (u : FrameUse) (id : PageId) (p : Page) : u.install id p =
    { u.reset.2 with
      frame := ⟨some ⟨id, u.reset.2.copies.cells.size⟩⟩
      copies := (u.reset.2.copies.add p).2 } := rfl

namespace Listed

variable {u : FrameUse} {l : Roster}

theorem empty : Listed empty .empty where
  resident := rfl
  handles := rfl
  checkouts := rfl
  size := rfl
  booked c := ⟨rfl, rfl, rfl⟩
  pages c p h := by cases h

theorem copyFrom (h : Listed u l) (source : Source) : u.copyFrom source = l.copyFrom source := by
  unfold FrameUse.copyFrom Roster.copyFrom
  rw [h.resident, h.handles, h.checkouts]

/-- What a source refers to is there. -/
theorem exists_copy (h : Listed u l) {source : Source} {c : Nat} (hc : l.copyFrom source = some c) :
    ∃ k, u.copies.get? c = some k := by
  apply h.booked.exists_copy
  unfold Roster.copyFrom at hc
  cases source with
  | frame => exact .inl (by simp [Roster.holders, hc])
  | handle i =>
    exact .inl (List.count_pos_iff.2 (List.mem_append_right _ (List.mem_of_getElem? hc)))
  | checkout i =>
    obtain ⟨g, hg, rfl⟩ := Option.map_eq_some_iff.1 hc
    exact .inr ⟨g, List.mem_of_getElem? hg, rfl⟩

theorem exists_checkout (h : Listed u l) {i : Nat} {g : Checkout} (hi : l.checkouts[i]? = some g) :
    ∃ k, u.copies.get? g.copy = some k := by
  have hc : l.copyFrom (.checkout i) = some g.copy := by rw [Roster.copyFrom, hi]; rfl
  exact h.exists_copy hc

/-- Copies that are booked anew keep their pages. -/
theorem pages_put (h : Listed u l) {c : Nat} {k : Copy} (hk : u.copies.get? c = some k) {lock : Lock}
    {refs d : Nat} {p : Page}
    (hp : (u.copies.put c (some { k with lock := lock, refs := refs })).page? d = some p) :
    l.pages[d]? = some p := by
  rw [Copies.page?_rebook hk] at hp
  exact h.pages d p hp

/-! ### One call -/

theorem reset (h : Listed u l) : Listed u.reset.2 l.reset := by
  cases hr : l.resident with
  | none =>
    have hbooked := h.booked
    simp only [Roster.holders, hr] at hbooked
    rw [reset_of_none (h.resident.trans hr)]
    exact ⟨rfl, h.handles, h.checkouts, h.size, hbooked, h.pages⟩
  | some r =>
    rw [reset_of_some (h.resident.trans hr)]
    refine ⟨rfl, h.handles, h.checkouts, (Copies.size_drop ..).trans h.size, h.booked.drop fun d => ?_,
      fun c p hp => h.pages c p (Copies.page?_of_drop hp)⟩
    simp only [Roster.holders, Roster.reset, hr]
    exact count_cons_eq ..

theorem install (h : Listed u l) (id : PageId) (p : Page) : Listed (u.install id p) (l.install id p) := by
  have hr := h.reset
  rw [install_eq, hr.size]
  refine ⟨rfl, hr.handles, hr.checkouts, ?_, hr.booked.add (fun c => ?_) p, fun c q hq => ?_⟩
  · simp [Copies.add, hr.size, Roster.install, Roster.reset]
  · rw [hr.size]
    exact count_cons_eq ..
  · simp only [Copies.page?, Copies.get?_add, hr.size] at hq
    simp only [Roster.install, List.getElem?_append]
    split at hq
    · next hc =>
      subst hc
      simpa [Roster.reset] using hq
    · have hpage : l.pages[c]? = some q := hr.pages c q hq
      rwa [if_pos (List.getElem?_eq_some_iff.1 hpage).1]

theorem pin (h : Listed u l) (source : Source) : Listed (u.pinFrom source).2 (l.pin source) := by
  cases hc : l.copyFrom source with
  | none =>
    simp only [pinFrom, Roster.pin, h.copyFrom, hc]
    exact h
  | some c =>
    obtain ⟨k, hk⟩ := h.exists_copy hc
    simp only [pinFrom, Roster.pin, h.copyFrom, hc]
    refine ⟨h.resident, congrArg (c :: ·) h.handles, h.checkouts, (Copies.size_update ..).trans h.size,
      h.booked.retain hk fun d => ?_, fun d p hp => ?_⟩
    · simp only [Roster.holders, List.count_append, Option.toList_some, List.singleton_append,
        count_cons_eq]
      omega
    · simp only [Copies.retain, Copies.update, hk] at hp
      exact h.pages_put hk hp

theorem unpin (h : Listed u l) (i : Nat) : Listed (u.unpin i).2 (l.unpin i) := by
  cases hi : l.handles[i]? with
  | none =>
    simp only [FrameUse.unpin, Roster.unpin, h.handles, hi,
      List.eraseIdx_of_length_le (List.getElem?_eq_none_iff.1 hi)]
    exact h
  | some c =>
    simp only [FrameUse.unpin, Roster.unpin, h.handles, hi]
    refine ⟨h.resident, rfl, h.checkouts, (Copies.size_drop ..).trans h.size,
      h.booked.drop fun d => ?_, fun d p hp => h.pages d p (Copies.page?_of_drop hp)⟩
    simp only [Roster.holders, List.count_append, (Session.perm_eraseIdx hi).count_eq, count_cons_eq]
    omega

theorem checkout (h : Listed u l) (source : Source) (access : Access) :
    (u.checkoutFrom source access).1 = (l.copyFrom source).map
        (fun c => if l.Admits c access then some ⟨c, access⟩ else none) ∧
      Listed (u.checkoutFrom source access).2 (l.checkout source access) := by
  cases hc : l.copyFrom source with
  | none =>
    simp only [checkoutFrom, Roster.checkout, h.copyFrom, hc]
    exact ⟨rfl, h⟩
  | some c =>
    obtain ⟨k, hk⟩ := h.exists_copy hc
    simp only [checkoutFrom, Roster.checkout, h.copyFrom, hc, Option.map_some]
    rcases h.booked.acquire_cases hk access with ⟨hno, hacq⟩ | ⟨hyes, lock, hacq, hbooked⟩
    · rw [hacq, if_neg (mt Roster.admits_iff.1 hno), if_neg (mt Roster.admits_iff.1 hno)]
      exact ⟨rfl, h⟩
    · rw [hacq, if_pos (Roster.admits_iff.2 hyes), if_pos (Roster.admits_iff.2 hyes)]
      exact ⟨rfl, h.resident, h.handles, congrArg (⟨c, access⟩ :: ·) h.checkouts,
        (Copies.size_put ..).trans h.size, hbooked, fun d p hp => h.pages_put hk hp⟩

theorem release (h : Listed u l) (i : Nat) : Listed (u.release i).2 (l.release i) := by
  cases hi : l.checkouts[i]? with
  | none =>
    simp only [FrameUse.release, Roster.release, h.checkouts, hi,
      List.eraseIdx_of_length_le (List.getElem?_eq_none_iff.1 hi)]
    exact h
  | some g =>
    obtain ⟨k, hk⟩ := h.exists_checkout hi
    simp only [FrameUse.release, Roster.release, h.checkouts, hi]
    exact ⟨h.resident, h.handles, rfl, (Copies.size_release ..).trans h.size,
      (h.booked.perm (Session.perm_eraseIdx hi)).release,
      fun c p hp => h.pages c p (Copies.page?_of_release hk hp)⟩

theorem change (h : Listed u l) (i : Nat) (f : Page → Page) : Listed (u.change i f) (l.change i f) := by
  cases hi : l.checkouts[i]? with
  | none =>
    simp only [FrameUse.change, Roster.change, h.checkouts, hi]
    exact h
  | some g =>
    obtain ⟨k, hk⟩ := h.exists_checkout hi
    have hpage := Copies.page?_of_get? hk
    obtain ⟨c, access⟩ := g
    cases access with
    | shared =>
      simp only [FrameUse.change, Roster.change, h.checkouts, hi, Copies.edit, hpage]
      exact ⟨h.resident, h.handles, rfl, h.size, h.booked, h.pages⟩
    | exclusive =>
      simp only [FrameUse.change, Roster.change, h.checkouts, hi, Copies.edit, hpage]
      refine ⟨h.resident, h.handles, rfl, ?_, h.booked.setPage hk (f k.page), fun d p hp => ?_⟩
      · exact ((Copies.size_update ..).trans h.size).trans (List.length_modify ..).symm
      · simp only [Copies.page?, Copies.get?_setPage_of_some hk] at hp
        rw [List.getElem?_modify]
        split at hp
        · next hd =>
          subst hd
          rw [h.pages d _ hpage]
          simpa using hp
        · next hd =>
          rw [h.pages d p hp]
          simp [Ne.symm hd]

theorem step (h : Listed u l) (a : Action) : Listed (u.step a) (l.step a) := by
  cases a with
  | install id p => exact h.install id p
  | reset => exact h.reset
  | pin source => exact h.pin source
  | unpin i => exact h.unpin i
  | checkout source access => exact (h.checkout source access).2
  | release i => exact h.release i
  | change i f => exact h.change i f

theorem run (h : Listed u l) (actions : List Action) : Listed (u.run actions) (l.run actions) := by
  induction actions generalizing u l with
  | nil => exact h
  | cons a actions ih => exact ih (h.step a)

/-! ### What the frame tells -/

theorem exists_resident (h : Listed u l) {r : Resident} (hr : l.resident = some r) :
    ∃ k, u.copies.get? r.copy = some k ∧ l.pages[r.copy]? = some k.page ∧
      CellFits (some k) (1 + l.handles.count r.copy) (readers l.checkouts r.copy)
        (writers l.checkouts r.copy) := by
  have hc : l.copyFrom .frame = some r.copy := by rw [Roster.copyFrom, hr]; rfl
  obtain ⟨k, hk⟩ := h.exists_copy hc
  have hfits := h.booked r.copy
  simp only [Roster.holders, hr, Option.map_some, Option.toList_some, List.count_append,
    List.count_singleton_self] at hfits
  exact ⟨k, hk, h.pages _ _ (Copies.page?_of_get? hk), hk ▸ hfits⟩

theorem isPinned_iff (h : Listed u l) :
    u.frame.isPinned u.copies = true ↔ ∃ r, l.resident = some r ∧ l.Uses r.copy := by
  unfold Frame.isPinned
  rw [h.resident]
  cases hr : l.resident with
  | none => simp
  | some r =>
    obtain ⟨k, hk, -, hrefs, -, -⟩ := h.exists_resident hr
    simp only [Option.any_some, Copies.isShared, hk, decide_eq_true_eq, Option.some.injEq,
      exists_eq_left', Roster.uses_iff]
    omega

theorem isDirty_iff (h : Listed u l) :
    u.frame.isDirty u.copies = true ↔
      ∃ r, l.resident = some r ∧ (l.Marked r.copy ∨ ⟨r.copy, .exclusive⟩ ∈ l.checkouts) := by
  unfold Frame.isDirty
  rw [h.resident]
  cases hr : l.resident with
  | none => simp
  | some r =>
    obtain ⟨k, hk, hpage, hfits⟩ := h.exists_resident hr
    have hlock : k.lock = .exclusive ↔ ⟨r.copy, .exclusive⟩ ∈ l.checkouts :=
      hfits.lock_exclusive_iff.trans List.count_pos_iff
    simp [Copies.isDirty, hk, hlock, Roster.Marked, hpage, or_comm, Option.isSome_iff_ne_none]

theorem isEvictable_iff (h : Listed u l) :
    u.frame.isEvictable u.copies = true ↔
      ∃ r, l.resident = some r ∧ ¬ l.Uses r.copy ∧ ¬ l.Marked r.copy := by
  have hpinned := not_congr h.isPinned_iff
  have hdirty := not_congr h.isDirty_iff
  unfold Frame.isEvictable Frame.isEmpty
  rw [Bool.and_eq_true, Bool.and_eq_true, Bool.not_eq_true', Bool.not_eq_true', Bool.not_eq_true',
    ← Bool.not_eq_true, ← Bool.not_eq_true, ← Bool.not_eq_true, hpinned, hdirty, h.resident]
  cases hr : l.resident with
  | none => simp
  | some r =>
    simp only [Option.isNone_some, Bool.false_eq_true, not_false_eq_true, true_and, Option.some.injEq,
      exists_eq_left', not_or]
    -- nobody can have a page exclusively and not use it
    exact ⟨fun ⟨hu, hm, _⟩ => ⟨hu, hm⟩, fun ⟨hu, hm⟩ => ⟨hu, hm, fun hg => hu (.inr ⟨_, hg, rfl⟩)⟩⟩

/-- A copy is there as long as it sits in the frame or is used. -/
theorem page?_iff (h : Listed u l) (c : Nat) (p : Page) : u.copies.page? c = some p ↔
    ((∃ r, l.resident = some r ∧ r.copy = c) ∨ l.Uses c) ∧ l.pages[c]? = some p := by
  have hused : ((∃ r, l.resident = some r ∧ r.copy = c) ∨ l.Uses c) ↔
      0 < l.holders.count c ∨ ∃ g ∈ l.checkouts, g.copy = c := by
    rw [List.count_pos_iff, Roster.mem_holders_iff, Roster.Uses, or_assoc]
  rw [hused]
  constructor
  · intro hp
    obtain ⟨k, hk, -⟩ := Option.map_eq_some_iff.1 hp
    have hfits : CellFits (some k) (l.holders.count c) (readers l.checkouts c) (writers l.checkouts c) :=
      hk ▸ h.booked c
    obtain ⟨hrefs, hpos, -⟩ := hfits
    rw [mem_held_iff]
    exact ⟨by omega, h.pages c p hp⟩
  · rintro ⟨hc, hp⟩
    obtain ⟨k, hk⟩ := h.booked.exists_copy hc
    have hpage := Copies.page?_of_get? hk
    rw [hpage, ← h.pages c k.page hpage, hp]

end Listed

/-- What a frame tells of the page that sits in it, what it answers to those who ask for a page, and which
pages are still there. -/
structure PinsExactly (u : FrameUse) (l : Roster) : Prop where
  resident : u.frame.resident = l.resident
  handles : u.handles = l.handles
  checkouts : u.checkouts = l.checkouts
  pinned : u.frame.isPinned u.copies = true ↔ ∃ r, l.resident = some r ∧ l.Uses r.copy
  dirty : u.frame.isDirty u.copies = true ↔
    ∃ r, l.resident = some r ∧ (l.Marked r.copy ∨ ⟨r.copy, .exclusive⟩ ∈ l.checkouts)
  evictable : u.frame.isEvictable u.copies = true ↔
    ∃ r, l.resident = some r ∧ ¬ l.Uses r.copy ∧ ¬ l.Marked r.copy
  granted : ∀ source access, (u.checkoutFrom source access).1 =
    (l.copyFrom source).map fun c => if l.Admits c access then some ⟨c, access⟩ else none
  kept : ∀ c p, u.copies.page? c = some p ↔
    ((∃ r, l.resident = some r ∧ r.copy = c) ∨ l.Uses c) ∧ l.pages[c]? = some p

/-- Whatever was put into a frame, taken out of it, handed on and given back, the frame is pinned just by
those who use the page that sits in it now, and a page is gone when nobody has it any more. -/
theorem pins_exactly (actions : List Action) :
    PinsExactly (FrameUse.empty.run actions) (Roster.empty.run actions) := by
  have h := Listed.empty.run actions
  exact ⟨h.resident, h.handles, h.checkouts, h.isPinned_iff, h.isDirty_iff, h.isEvictable_iff,
    fun source access => (h.checkout source access).1, h.page?_iff⟩

/-- A page that is checked out gives way to another. It stays in hand and locked, and the frame is free to
be emptied. -/
example :
    let u := FrameUse.empty.run [.install (tinyPage 0) (tinyEmpty 0), .checkout .frame .exclusive,
      .install (tinyPage 1) (tinyEmpty 1), .pin (.checkout 0)]
    u.frame.isEvictable u.copies = true ∧ u.checkouts = [⟨0, .exclusive⟩] ∧
      (u.checkoutFrom (.handle 0) .shared).1 = some none := by
  decide +kernel

end HeapStore.FrameUse
