import HeapStore.Proofs.PoolSound

/-! What the pool's own operations do, read off once: installing a page, checking one out, giving it
back and changing it. A page gives way only if it is clean and nobody has it checked out, and a page
is refused only if no frame is free and no page may give way. -/

namespace HeapStore.Pool

variable {p q : Pool} {held : List Checkout} {g : Checkout} {id : PageId} {page : Page}

/-- No page can be taken in: every frame holds a page that is dirty or in use. -/
def Full (p : Pool) : Prop :=
  ∀ i < p.numFrames, ∃ r, p.seat i = some r ∧ (p.copies.isShared r.copy ∨ p.copies.isDirty r.copy)

/-- A clean copy that nobody has checked out. -/
def Idle (p : Pool) (held : List Checkout) (c : Nat) : Prop :=
  ∃ k, p.copies.get? c = some k ∧ k.page.dirtiedBy = none ∧ readers held c = 0 ∧ writers held c = 0

/-- A page was put into a frame as a new copy; where no frame was free an idle page gave way. -/
structure Installed (held : List Checkout) (p q : Pool) (id : PageId) (page : Page)
    (gone : Option Resident) : Prop where
  sound : q.Sound held
  tables : q.tables = p.tables
  numFrames : q.numFrames = p.numFrames
  copyOf? : ∀ id', q.copyOf? id' =
    if id' = id then some p.copies.cells.size
    else if gone.any (·.page = id') then none else p.copyOf? id'
  get? : ∀ c, q.copies.get? c =
    if c = p.copies.cells.size then some ⟨page, .free, 1⟩
    else if gone.any (·.copy = c) then none else p.copies.get? c
  idle : ∀ r, gone = some r → p.copyOf? r.page = some r.copy ∧ p.Idle held r.copy
  room : gone = none ↔ p.free ≠ []

theorem isEvictable_iff {i : Nat} : (p.frame i).isEvictable p.copies = true ↔
    ∃ r, p.seat i = some r ∧ p.copies.isShared r.copy = false ∧ p.copies.isDirty r.copy = false := by
  unfold Frame.isEvictable Frame.isEmpty Frame.isPinned Frame.isDirty seat
  cases (p.frame i).resident <;> simp

theorem Sound.idle_of_isEvictable (h : p.Sound held) {i : Nat} {r : Resident} (hs : p.seat i = some r)
    (hp : p.copies.isShared r.copy = false) (hd : p.copies.isDirty r.copy = false) :
    p.Idle held r.copy := by
  have hseated : p.Seated r.copy := ⟨i, r.page, hs⟩
  obtain ⟨k, hk⟩ := h.exists_copy (.inl hseated)
  have hfits := h.cells r.copy
  rw [hk, seats_of_seated hseated] at hfits
  unfold Copies.isShared at hp
  unfold Copies.isDirty at hd
  rw [hk] at hp hd
  simp only [Option.any_some, decide_eq_false_iff_not, Bool.or_eq_false_iff] at hp hd
  have hrefs := hfits.1
  exact ⟨k, hk, by simpa using hd.2, by omega, by omega⟩

theorem Idle.not_shared (h : p.Sound held) {c : Nat} (hc : p.Idle held c) (hs : p.Seated c) :
    p.copies.isShared c = false ∧ p.copies.isDirty c = false := by
  obtain ⟨k, hk, hd, hr, hw⟩ := hc
  have hfits := h.cells c
  rw [hk, seats_of_seated hs, hr, hw] at hfits
  obtain ⟨hrefs, -, ⟨hlock, -⟩ | ⟨-, hw', -⟩⟩ := hfits
  · unfold Copies.isShared Copies.isDirty
    rw [hk]
    simp [hd, hrefs, hlock]
  · cases hw'

/-! ### Taking a page in -/

theorem Sound.installed_place (h : p.Sound held) {i : Nat} {rest : List Nat} (hf : p.free = i :: rest)
    (hid : p.frameOf? id = none) : Installed held p (p.place i rest id page) id page none where
  sound := h.place hf hid
  tables := rfl
  numFrames := Array.size_setIfInBounds ..
  copyOf? id' := by simpa using h.copyOf?_place hf hid id'
  get? c := (Copies.get?_add p.copies page c).trans (by simp)
  idle r hr := by cases hr
  room := by simp [hf]

theorem Sound.installed_vacate (h : p.Sound held) {i : Nat} {r : Resident} (hnil : p.free = [])
    (hs : p.seat i = some r) (hf : p.clock.isReferenced i = false) (hr : p.Idle held r.copy)
    (hid : p.frameOf? id = none) (page : Page) :
    Installed held p ((p.vacate i).place i [] id page) id page (some r) := by
  have hv := h.vacate hs hf
  have hseated : p.Seated r.copy := ⟨i, r.page, hs⟩
  have hne : id ≠ r.page := by
    rintro rfl
    exact h.frameOf?_eq_none.1 hid i r.copy hs
  have hid' : (p.vacate i).frameOf? id = none := by
    rw [hv.frameOf?_isSome_iff, h.copyOf?_vacate hs hf, if_neg hne, ← h.frameOf?_isSome_iff]
    exact hid
  have hfree : (p.vacate i).free = [i] := by rw [vacate_eq hs, hnil]
  have hsize : (p.vacate i).copies.cells.size = p.copies.cells.size := by
    rw [copies_vacate hs]
    exact Copies.size_drop ..
  obtain ⟨k, hk, hd, hreaders, hwriters⟩ := hr
  refine ⟨hv.place hfree hid', by rw [vacate_eq hs]; rfl, ?_, fun id' => ?_, fun c => ?_,
    fun r' hr' => ?_, by simp [hnil]⟩
  · exact (Array.size_setIfInBounds ..).trans (numFrames_vacate hs)
  · rw [hv.copyOf?_place hfree hid', hsize, h.copyOf?_vacate hs hf]
    simp [eq_comm]
  · change ((p.vacate i).copies.add page).2.get? c = _
    rw [Copies.get?_add, hsize, copies_vacate hs, Copies.get?_drop_of_some hk]
    have hrefs : k.refs ≤ 1 := by
      have hfits := h.cells r.copy
      rw [hk, seats_of_seated hseated, hreaders, hwriters] at hfits
      have := hfits.1
      omega
    simp [hrefs, eq_comm]
  · cases hr'
    exact ⟨h.copyOf?_eq_some.2 ⟨i, hs⟩, k, hk, hd, hreaders, hwriters⟩

theorem frame_eq_empty {i : Nat} (h : p.seat i = none) : p.frame i = Frame.empty := by
  unfold seat at h
  cases hf : p.frame i with
  | mk resident =>
    rw [hf] at h
    simp only at h
    rw [h]
    rfl

theorem install_of_free {i : Nat} {rest : List Nat} (hf : p.free = i :: rest) (hs : p.seat i = none) :
    p.install id page = (.ok p.copies.cells.size, p.place i rest id page) := by
  have he : Pool.frame { p with free := rest } i = Frame.empty := frame_eq_empty hs
  have ha : p.allocate = (.ok i, { p with free := rest }) := by
    unfold allocate
    rw [hf]
  unfold install
  rw [ha]
  simp only [he]
  rfl

/-- The pool after the hand of its clock went round to find a victim. -/
def swept (p : Pool) : Pool :=
  { p with clock := (p.clock.evict fun i => (p.frame i).isEvictable p.copies).clock }

theorem install_of_victim {i : Nat} {r : Resident} (hf : p.free = [])
    (hv : (p.clock.evict fun i => (p.frame i).isEvictable p.copies).victim = some i)
    (hs : p.seat i = some r) :
    p.install id page = (.ok p.copies.cells.size, (p.swept.vacate i).place i [] id page) := by
  have he : (p.swept.resetFrame i).frame i = Frame.empty := by
    have := Sound.seat_vacate (p := p.swept) hs i
    rw [if_pos rfl] at this
    exact frame_eq_empty (p := p.swept.resetFrame i) this
  have hsize : (p.swept.resetFrame i).copies.cells.size = p.copies.cells.size := by
    have : (p.swept.resetFrame i).copies = p.copies.drop r.copy := Sound.copies_vacate (p := p.swept) hs
    rw [this, Copies.size_drop]
  have hfree : (p.swept.resetFrame i).free = [] := hf
  have ha : p.allocate = (.ok i, p.swept.resetFrame i) := by
    unfold allocate
    rw [hf]
    simp only [hv]
    rw [swept, hf]
  unfold install
  rw [ha]
  simp only [he, Frame.install, Frame.reset, Frame.empty, Copies.add, hsize]
  unfold place vacate
  simp only [hsize, Copies.add]
  rw [hfree]

theorem install_of_no_victim (hf : p.free = [])
    (hv : (p.clock.evict fun i => (p.frame i).isEvictable p.copies).victim = none) :
    p.install id page = (.error .poolFull, p.swept) := by
  have ha : p.allocate = (.error .poolFull, p.swept) := by
    unfold allocate
    rw [hf]
    simp only [hv]
    rw [swept, hf]
  unfold install
  rw [ha]

theorem Sound.swept (h : p.Sound held) (hf : p.free = []) : p.swept.Sound held := by
  refine h.withClock ((Clock.capacity_evict _).trans h.capacity) ?_ (by simp [hf])
  have hhand : p.clock.hand < p.clock.capacity ∨ p.clock.capacity = 0 := by
    rw [h.capacity]
    exact h.hand
  have : p.swept.clock.hand < p.clock.capacity ∨ p.clock.capacity = 0 := Clock.hand_evict_lt hhand
  rwa [h.capacity] at this

/-- Where the hand finds no victim it is back where it was, and every flag is as it was. -/
theorem Sound.swept_eq_self (h : p.Sound held)
    (hv : (p.clock.evict fun i => (p.frame i).isEvictable p.copies).victim = none) : p.swept = p := by
  have hhand : p.clock.hand < p.clock.capacity ∨ p.clock.capacity = 0 := by
    rw [h.capacity]
    exact h.hand
  unfold Pool.swept
  rw [Clock.clock_evict_of_none hhand hv]

/-- A page that is not resident is installed; a pool that is full is left as it is. -/
theorem Sound.install_cases (h : p.Sound held) (hid : p.frameOf? id = none) (page : Page) :
    (p.Full ∧ p.install id page = (.error .poolFull, p)) ∨
    (¬ p.Full ∧ ∃ q gone, p.install id page = (.ok p.copies.cells.size, q) ∧
      Installed held p q id page gone) := by
  have hhand : p.clock.hand < p.clock.capacity ∨ p.clock.capacity = 0 := by
    rw [h.capacity]
    exact h.hand
  cases hf : p.free with
  | cons i rest =>
    obtain ⟨hi, hempty⟩ := (h.mem_free i).1 (by rw [hf]; exact List.mem_cons_self)
    refine .inr ⟨fun hfull => ?_, _, none, install_of_free hf hempty, h.installed_place hf hid⟩
    obtain ⟨r, hr, -⟩ := hfull i hi
    rw [hempty] at hr
    cases hr
  | nil =>
    cases hv : (p.clock.evict fun i => (p.frame i).isEvictable p.copies).victim with
    | none =>
      refine .inl ⟨fun i hi => ?_, by rw [install_of_no_victim hf hv, h.swept_eq_self hv]⟩
      have hne := Clock.evict_eq_none hhand hv (by rw [h.capacity]; exact hi)
      cases hs : p.seat i with
      | none =>
        have := (h.mem_free i).2 ⟨hi, hs⟩
        rw [hf] at this
        cases this
      | some r =>
        refine ⟨r, rfl, Decidable.byContradiction fun hnot => ?_⟩
        rw [not_or, Bool.not_eq_true, Bool.not_eq_true] at hnot
        rw [isEvictable_iff.2 ⟨r, hs, hnot⟩] at hne
        cases hne
    | some i =>
      obtain ⟨he, hi, hflag⟩ := Clock.evict_eq_some hhand hv
      obtain ⟨r, hs, hshared, hdirty⟩ := isEvictable_iff.1 he
      refine .inr ⟨fun hfull => ?_, ?_⟩
      · obtain ⟨r', hs', hor⟩ := hfull i (by rw [← h.capacity]; exact hi)
        rw [hs] at hs'
        cases hs'
        rw [hshared, hdirty] at hor
        simp at hor
      · have hinst := (h.swept hf).installed_vacate hf hs hflag
          (h.idle_of_isEvictable hs hshared hdirty) hid page
        exact ⟨_, some r, install_of_victim hf hv hs, hinst.sound, hinst.tables, hinst.numFrames,
          hinst.copyOf?, hinst.get?, hinst.idle, hinst.room⟩

namespace Installed

variable {gone : Option Resident}

theorem copyOf?_self (h : Installed held p q id page gone) : q.copyOf? id = some p.copies.cells.size := by
  rw [h.copyOf?, if_pos rfl]

theorem page?_self (h : Installed held p q id page gone) :
    q.copies.page? p.copies.cells.size = some page := by
  rw [Copies.page?, h.get?, if_pos rfl]
  rfl

theorem gone_ne_of_held (h : Installed held p q id page gone) {g : Checkout} (hg : g ∈ held)
    {r : Resident} (hr : gone = some r) : r.copy ≠ g.copy := by
  intro he
  obtain ⟨-, k, -, -, hreaders, hwriters⟩ := h.idle r hr
  have := mem_held_iff.1 ⟨g, hg, he.symm⟩
  omega

/-- Copies that are checked out stay as they are. -/
theorem page?_of_held (h : Installed held p q id page gone) (hp : p.Sound held) {g : Checkout}
    (hg : g ∈ held) : q.copies.page? g.copy = p.copies.page? g.copy := by
  obtain ⟨k, hk⟩ := hp.exists_copy (.inr ⟨g, hg, rfl⟩)
  rw [Copies.page?, h.get?, if_neg, if_neg, Copies.page?]
  · intro hgone
    cases gone with
    | none => cases hgone
    | some r => exact h.gone_ne_of_held hg rfl (by simpa using hgone)
  · intro he
    rw [he, Copies.get?_size] at hk
    cases hk

/-- Pages that are checked out keep their frame. -/
theorem copyOf?_of_held (h : Installed held p q id page gone) (hid : p.copyOf? id = none)
    {g : Checkout} (hg : g ∈ held) {id' : PageId}
    (hc : p.copyOf? id' = some g.copy) : q.copyOf? id' = some g.copy := by
  rw [h.copyOf?, if_neg, if_neg, hc]
  · intro hgone
    cases gone with
    | none => cases hgone
    | some r =>
      have he : r.page = id' := by simpa using hgone
      have hr := (h.idle r rfl).1
      rw [he, hc] at hr
      exact h.gone_ne_of_held hg rfl (Option.some.inj hr).symm
  · rintro rfl
    rw [hid] at hc
    cases hc

/-- A page that is still resident has the copy it had. -/
theorem page?_of_copyOf? (h : Installed held p q id page gone) (hp : p.Sound held) {id' : PageId}
    (hne : id' ≠ id) {c : Nat} (hc : q.copyOf? id' = some c) :
    p.copyOf? id' = some c ∧ q.copies.page? c = p.copies.page? c := by
  rw [h.copyOf?, if_neg hne] at hc
  split at hc
  · cases hc
  · next hgone =>
    refine ⟨hc, ?_⟩
    obtain ⟨k, hk⟩ := hp.exists_resident hc
    rw [Copies.page?, h.get?, if_neg, if_neg, Copies.page?]
    · intro hg
      cases gone with
      | none => cases hg
      | some r =>
        have he : r.copy = c := by simpa using hg
        have hr := (h.idle r rfl).1
        rw [he] at hr
        exact hgone (by simpa using hp.copyOf?_inj hr hc)
    · rintro rfl
      rw [Copies.get?_size] at hk
      cases hk

/-- A page that gave way was idle. -/
theorem idle_of_copyOf?_eq_none (h : Installed held p q id page gone) {id' : PageId} {c : Nat}
    (hc : p.copyOf? id' = some c) (hn : q.copyOf? id' = none) : p.Idle held c := by
  rw [h.copyOf?] at hn
  split at hn
  · cases hn
  · split at hn
    · next hgone =>
      cases gone with
      | none => cases hgone
      | some r =>
        have he : r.page = id' := by simpa using hgone
        obtain ⟨hr, hidle⟩ := h.idle r rfl
        rw [he, hc] at hr
        rwa [Option.some.inj hr]
    · rw [hc] at hn
      cases hn

end Installed

/-! ### Dropping a page -/

theorem Sound.forget (h : p.Sound held) (i : Nat) :
    Sound { p with clock := p.clock.forget i } held := by
  refine h.withClock ((Clock.capacity_setFlag ..).trans h.capacity) h.hand fun j hj => ?_
  change (p.clock.setFlag i false).isReferenced j = false
  rw [Clock.isReferenced_setFlag]
  split
  · rfl
  · exact h.idle j hj

/-- The flag of the frame is cleared, and then the frame is vacated. -/
theorem Sound.discard_cases (h : p.Sound held) (id : PageId) :
    (p.copyOf? id = none ∧ p.discard id = (false, p)) ∨
    ∃ c q, p.copyOf? id = some c ∧ p.discard id = (true, q) ∧ q.Sound held ∧ q.tables = p.tables ∧
      (∀ id', q.copyOf? id' = if id' = id then none else p.copyOf? id') ∧
      ∀ d, d ≠ c → q.copies.page? d = p.copies.page? d := by
  unfold discard
  cases hf : p.frameOf? id with
  | none => exact .inl ⟨h.frameOf?_isSome_iff.1 hf, rfl⟩
  | some i =>
    obtain ⟨c, hs⟩ := (h.index id i).1 hf
    have hc : p.copyOf? id = some c := h.copyOf?_eq_some.2 ⟨i, hs⟩
    obtain ⟨k, hk⟩ := h.exists_resident hc
    have hp := h.forget i
    have hs' : seat { p with clock := p.clock.forget i } i = some ⟨id, c⟩ := hs
    have hflag : (p.clock.forget i).isReferenced i = false := by
      change (p.clock.setFlag i false).isReferenced i = false
      rw [Clock.isReferenced_setFlag, if_pos]
      exact ⟨rfl, by rw [h.capacity]; exact lt_numFrames_of_seat hs⟩
    refine .inr ⟨c, Pool.vacate { p with clock := p.clock.forget i } i, hc, rfl, hp.vacate hs' hflag, rfl,
      hp.copyOf?_vacate hs' hflag, fun d hd => ?_⟩
    rw [Copies.page?, Sound.copies_vacate hs', Copies.get?_drop_of_some hk, if_neg hd, Copies.page?]

/-! ### Checkouts -/

theorem Sound.withCopies (h : p.Sound held) {cs : Copies} {held' : List Checkout}
    (hc : Booked cs p.seats held') : Sound { p with copies := cs } held' :=
  ⟨h.keys, h.index, h.single, h.free_nodup, h.mem_free, h.capacity, h.hand, h.idle, hc⟩

/-- May a copy be checked out beside the checkouts that are out? -/
def Compatible (held : List Checkout) (c : Nat) : Access → Prop
  | .shared => writers held c = 0
  | .exclusive => readers held c = 0 ∧ writers held c = 0

instance (held : List Checkout) (c : Nat) (access : Access) : Decidable (Compatible held c access) := by
  cases access <;> unfold Compatible <;> infer_instance

/-- A fresh copy has no holders. -/
theorem Sound.compatible_size (h : p.Sound held) (access : Access) :
    Compatible held p.copies.cells.size access := by
  have hfits := h.cells p.copies.cells.size
  rw [Copies.get?_size] at hfits
  obtain ⟨-, hr, hw⟩ := hfits
  cases access with
  | shared => exact hw
  | exclusive => exact ⟨hr, hw⟩

/-- The holder of an exclusive checkout is the only holder. -/
theorem Sound.compatible_of_exclusive {c : Nat} (h : p.Sound (⟨c, .exclusive⟩ :: held)) :
    Compatible held c .exclusive := by
  have hfits := h.cells c
  rw [readers_cons, writers_cons, if_neg (by simp), if_pos rfl] at hfits
  obtain ⟨k, hk⟩ := hfits.isSome (by omega)
  rw [hk] at hfits
  obtain ⟨-, -, ⟨-, hw⟩ | ⟨-, hw, hr⟩⟩ := hfits
  · omega
  · exact ⟨by omega, by omega⟩

/-- A copy is checked out just when the checkouts that are out allow it. -/
theorem Booked.acquire_cases {cs : Copies} {others : Nat → Nat} (h : Booked cs others held) {c : Nat}
    {k : Copy} (hk : cs.get? c = some k) (access : Access) :
    (¬ Compatible held c access ∧ cs.acquire c access = none) ∨
    (Compatible held c access ∧ ∃ l, cs.acquire c access =
        some (⟨c, access⟩, cs.put c (some { k with lock := l, refs := k.refs + 1 })) ∧
      Booked (cs.put c (some { k with lock := l, refs := k.refs + 1 })) others (⟨c, access⟩ :: held)) := by
  have hfits := h c
  rw [hk] at hfits
  unfold Copies.acquire
  rw [hk]
  cases hl : k.lock.grant access with
  | none =>
    refine .inl ⟨fun hcompat => ?_, by simp only [hl]⟩
    cases access with
    | shared =>
      obtain ⟨l, hl'⟩ := hfits.grant_shared_iff.2 hcompat
      rw [hl] at hl'
      cases hl'
    | exclusive =>
      obtain ⟨l, hl'⟩ := hfits.grant_exclusive_iff.2 hcompat
      rw [hl] at hl'
      cases hl'
  | some l =>
    refine .inr ⟨?_, l, by simp only [hl], fun d => ?_⟩
    · cases access with
      | shared => exact hfits.grant_shared_iff.1 ⟨l, hl⟩
      | exclusive => exact hfits.grant_exclusive_iff.1 ⟨l, hl⟩
    · rw [Copies.get?_put_of_some hk, readers_cons, writers_cons]
      by_cases hd : d = c
      · subst hd
        rw [if_pos rfl]
        cases access with
        | shared => simpa using hfits.grant_shared hl
        | exclusive => simpa using (hfits.grant_exclusive hl).2.2
      · rw [if_neg hd]
        simpa [Ne.symm hd] using h d

theorem Sound.checkout_eq (h : p.Sound held) {c : Nat} {k : Copy} (hk : p.copies.get? c = some k)
    (id : PageId) (access : Access) :
    (¬ Compatible held c access ∧ p.checkout id c access = (.error (.aborted (.lockTimeout access id)), p)) ∨
    (Compatible held c access ∧ ∃ l, p.checkout id c access = (.ok ⟨c, access⟩,
        { p with copies := p.copies.put c (some { k with lock := l, refs := k.refs + 1 }) }) ∧
      Sound { p with copies := p.copies.put c (some { k with lock := l, refs := k.refs + 1 }) }
        (⟨c, access⟩ :: held)) := by
  unfold checkout
  rcases Booked.acquire_cases h.cells hk access with ⟨hno, hacq⟩ | ⟨hyes, l, hacq, hbooked⟩
  · rw [hacq]
    exact .inl ⟨hno, rfl⟩
  · rw [hacq]
    exact .inr ⟨hyes, l, rfl, h.withCopies hbooked⟩

theorem Sound.release (h : p.Sound (g :: held)) : (p.release g).Sound held :=
  h.withCopies (Booked.release h.cells)

/-- A page stays in memory when a checkout ends, if it is resident or checked out again. -/
theorem Sound.page?_release (h : p.Sound (g :: held)) {c : Nat}
    (hc : p.Seated c ∨ ∃ g' ∈ held, g'.copy = c) :
    (p.release g).copies.page? c = p.copies.page? c := by
  obtain ⟨k, hk⟩ := h.exists_copy (.inr ⟨g, List.mem_cons_self, rfl⟩)
  have hseated : (p.release g).Seated c ↔ p.Seated c := Iff.rfl
  obtain ⟨k', hk'⟩ := h.release.exists_copy (hc.imp_left hseated.2)
  have hpage := Copies.page?_of_get? hk'
  rw [hpage, Copies.page?_of_release hk hpage]

theorem Sound.setPage (h : p.Sound held) {c : Nat} {k : Copy} (hk : p.copies.get? c = some k)
    (page : Page) : Sound { p with copies := p.copies.setPage c page } held :=
  h.withCopies (Booked.setPage h.cells hk page)

end HeapStore.Pool
