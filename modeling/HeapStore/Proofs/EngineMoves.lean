import HeapStore.Proofs.PageFlush
import HeapStore.Proofs.PageFormat

/-! What calls to the engine are made of. Every call is a list of moves: a page is asked for, a
checkout is given back, a page is changed or written back, a table grows, a page is taken in or
dropped. What one move does to the frames, to the resident pages and to the files is told here once,
from nothing but `Pool.Sound`, so it holds whatever pages were taken in. -/

namespace HeapStore

open Pool (Compatible Installed readers writers)

/-! ### Replacing a resident page -/

namespace Pool

variable {p : Pool} {held : List Checkout} {i c : Nat} {id : PageId}

theorem Sound.withIndex (h : p.Sound held) {index : List (PageId × Nat)}
    (hkeys : (index.map (·.1)).Nodup) (hl : ∀ id, index.lookup id = p.frameOf? id) :
    { p with index := index : Pool }.Sound held where
  keys := hkeys
  index id i := by
    change index.lookup id = some i ↔ _
    rw [hl]
    exact h.index id i
  single := h.single
  free_nodup := h.free_nodup
  mem_free := h.mem_free
  capacity := h.capacity
  hand := h.hand
  idle := h.idle
  cells := h.cells

/-- A frame is pinned by the checkouts of its page. -/
theorem Sound.isPinned_iff (h : p.Sound held) (hs : p.seat i = some ⟨id, c⟩) :
    (p.frame i).isPinned p.copies = true ↔ ∃ g ∈ held, g.copy = c := by
  have hseated : p.Seated c := ⟨i, id, hs⟩
  obtain ⟨k, hk⟩ := h.exists_copy (.inl hseated)
  have hfits := h.cells c
  rw [hk, seats_of_seated hseated] at hfits
  have hrefs := hfits.1
  unfold seat at hs
  unfold Frame.isPinned Copies.isShared
  simp only [hs, Option.any_some, hk, decide_eq_true_eq, mem_held_iff]
  omega

/-- The pool with the flag of a frame cleared. -/
def unflag (p : Pool) (i : Nat) : Pool := { p with clock := p.clock.forget i }

/-- The pool with a new copy of a page in a frame that is occupied. The flag of the frame stays. -/
def replaced (p : Pool) (i : Nat) (id : PageId) (page : Page) : Pool :=
  { p with
    frames := p.frames.setIfInBounds i ((p.frame i).install p.copies id page).2.1
    copies := ((p.frame i).install p.copies id page).2.2 }

/-- The frame is vacated and the page is placed there; only the flag and the order of the index would
tell. -/
theorem replaced_eq (hs : p.seat i = some ⟨id, c⟩) (page : Page) : p.replaced i id page =
    { ((p.unflag i).vacate i).place i p.free id page with index := p.index, clock := p.clock } := by
  unfold seat at hs
  unfold replaced unflag place vacate resetFrame Frame.install Frame.reset Copies.add
  have hf : frame { p with clock := p.clock.forget i } i = p.frame i := rfl
  simp [hf, hs]

theorem numFrames_replaced (page : Page) : (p.replaced i id page).numFrames = p.numFrames :=
  Array.size_setIfInBounds ..

/-- A new copy sits in the frame of the page, and nothing else has changed. -/
structure Replaced (held : List Checkout) (p q : Pool) (id : PageId) (page : Page) : Prop where
  sound : q.Sound held
  copyOf? : ∀ id', q.copyOf? id' = if id' = id then some p.copies.cells.size else p.copyOf? id'
  new : q.copies.page? p.copies.cells.size = some page
  others : ∀ id' d, id' ≠ id → p.copyOf? id' = some d → q.copies.page? d = p.copies.page? d

theorem Sound.replaced (h : p.Sound held) (hs : p.seat i = some ⟨id, c⟩) (page : Page) :
    Replaced held p (p.replaced i id page) id page := by
  have hu : (p.unflag i).Sound held := h.forget i
  have hs' : (p.unflag i).seat i = some ⟨id, c⟩ := hs
  have hc : p.copyOf? id = some c := h.copyOf?_eq_some.2 ⟨i, hs⟩
  obtain ⟨k, hk⟩ := h.exists_resident hc
  have hflag : (p.unflag i).clock.isReferenced i = false := by
    change (p.clock.setFlag i false).isReferenced i = false
    rw [Clock.isReferenced_setFlag, if_pos]
    exact ⟨rfl, by rw [h.capacity]; exact lt_numFrames_of_seat hs⟩
  have hv := hu.vacate hs' hflag
  have hfree : ((p.unflag i).vacate i).free = i :: p.free := free_vacate hs'
  have hid : ((p.unflag i).vacate i).frameOf? id = none := by
    rw [frameOf?_vacate hs', if_pos rfl]
  have hcopies : ((p.unflag i).vacate i).copies = p.copies.drop c := copies_vacate hs'
  have hplaced : (((p.unflag i).vacate i).place i p.free id page).Sound held := hv.place hfree hid
  have hframeOf (id' : PageId) : p.frameOf? id' =
      (((p.unflag i).vacate i).place i p.free id page).frameOf? id' := by
    rw [frameOf?_place, frameOf?_vacate hs']
    by_cases hne : id' = id
    · rw [if_pos hne, hne]
      exact (h.index id i).2 ⟨c, hs⟩
    · rw [if_neg hne, if_neg hne]
      rfl
  have hsound : (p.replaced i id page).Sound held := by
    rw [replaced_eq hs]
    have hclock := hplaced.withClock (c := p.clock) (by rw [numFrames_place, numFrames_vacate hs']; exact h.capacity)
      (by rw [numFrames_place, numFrames_vacate hs']; exact h.hand) h.idle
    exact hclock.withIndex h.keys hframeOf
  have hget (d : Nat) : (p.replaced i id page).copies.get? d =
      if d = p.copies.cells.size then some ⟨page, .free, 1⟩ else (p.copies.drop c).get? d := by
    rw [replaced_eq hs]
    change (((p.unflag i).vacate i).copies.add page).2.get? d = _
    rw [hcopies, Copies.get?_add, Copies.size_drop]
  refine ⟨hsound, fun id' => ?_, ?_, fun id' d hne hd => ?_⟩
  · have hsame : (p.replaced i id page).copyOf? id' =
        (((p.unflag i).vacate i).place i p.free id page).copyOf? id' := by
      rw [replaced_eq hs]
      exact congrArg (Option.bind · _) (hframeOf id')
    rw [hsame, hv.copyOf?_place hfree hid, hcopies, Copies.size_drop, hu.copyOf?_vacate hs' hflag]
    by_cases hne : id' = id
    · rw [if_pos hne, if_pos hne]
    · rw [if_neg hne, if_neg hne, if_neg hne]
      rfl
  · rw [Copies.page?, hget, if_pos rfl]
    rfl
  · have hdc : d ≠ c := by
      rintro rfl
      exact hne (h.copyOf?_inj hd hc)
    have hsize : d ≠ p.copies.cells.size := by
      rintro rfl
      obtain ⟨k', hk'⟩ := h.exists_resident hd
      rw [Copies.get?_size] at hk'
      cases hk'
    rw [Copies.page?, hget, if_neg hsize, Copies.get?_drop_of_some hk, if_neg hdc, Copies.page?]

end Pool

namespace Engine

/-! ### Moves -/

inductive Move where
  | get (id : PageId)
  | release
  /-- The page with this id, in this copy, is changed by these calls. -/
  | change (id : PageId) (copy : Nat) (calls : List Page.Call)
  | writeBack (id : PageId) (only : Option TxnId)
  | grow (t : Table)
  | adopt (id : PageId) (page : Page)
  /-- The pool does not take in a new page. -/
  | refuse
  | discard (id : PageId)
  deriving DecidableEq

/-- One move. The checkouts `own` are the mover's, the others that are out are `base`. -/
inductive Moves (base : List Checkout) :
    List Checkout → Engine → Move → List Checkout → Engine → Prop
  | got {own : List Checkout} {e e' : Engine} {id : PageId} {access : Access} {g : Checkout} :
      e.getPage id access = (.ok g, e') → Moves base own e (.get id) (g :: own) e'
  | missed {own : List Checkout} {e e' : Engine} {id : PageId} {access : Access} {err : Error} :
      e.getPage id access = (.error err, e') → Moves base own e (.get id) own e'
  | released {own : List Checkout} {e : Engine} {g : Checkout} :
      Moves base (g :: own) e .release own (e.release g)
  | changed {own : List Checkout} {e : Engine} {c : Nat} {p : Page} {calls : List Page.Call} :
      ⟨c, .exclusive⟩ ∈ own ++ base → e.pool.copies.page? c = some p →
      Moves base own e (.change p.id c calls) own (e.setPage c (p.after calls))
  | wroteBack {own : List Checkout} {e : Engine} {id : PageId} {c : Nat} {only : Option TxnId} :
      e.pool.copyOf? id = some c →
      Moves base own e (.writeBack id only) own (e.writeBack id c only).2
  | grown {own : List Checkout} {e : Engine} {t : Table} :
      Moves base own e (.grow t) own { e with disk := t.grow e.disk }
  | adopted {own : List Checkout} {e e' : Engine} {id : PageId} {page : Page} :
      e.adopt id page = (.ok (), e') → Moves base own e (.adopt id page) own e'
  | refused {own : List Checkout} {e e' : Engine} {id : PageId} {page : Page} {err : Error} :
      e.adopt id page = (.error err, e') → Moves base own e .refuse own e'
  | discarded {own : List Checkout} {e : Engine} {id : PageId} :
      Moves base own e (.discard id) own (e.discard id).2

/-- What a move does to the page in a copy. -/
def Move.callsOn : Move → Nat → List Page.Call
  | .change _ c' calls, c => if c' = c then calls else []
  | _, _ => []

/-- May a page that is clean and not in use lose its frame? -/
def Move.evicts : Move → Bool
  | .get _ | .adopt .. => true
  | _ => false

/-- The page becomes resident by this move. -/
def Brings (e : Engine) (m : Move) (id : PageId) (p : Page) : Prop :=
  m = .get id ∧ e.read id = .ok p ∨ m = .adopt id p

/-- The page was dirty and is written to its table's file. -/
structure Wrote (e : Engine) (m : Move) (id : PageId) (p : Page) : Prop where
  selected : ∃ only, m = .writeBack id only ∧ p.isSelected only = true
  written : ∃ t, e.table? id.table = some t ∧ (t.writePage e.disk p).1 = .ok ()

/-- A page that stays resident, before and after a move. -/
def Turns (e : Engine) (m : Move) (id : PageId) (c : Nat) (p p' : Page) : Prop :=
  p' = p.after (m.callsOn c) ∨ Wrote e m id p ∧ p' = p.cleaned

/-- The page loses its frame, dirty or not: it is dropped, or another page is taken in under its id
while nobody has it checked out. -/
def Loses (held : List Checkout) (m : Move) (id : PageId) (c : Nat) : Prop :=
  m = .discard id ∨ (∃ page, m = .adopt id page) ∧ ∀ g ∈ held, g.copy ≠ c

/-- The page does not give way to another one: it is dirty, or no room is made, or it is the page that
is asked for, or somebody has it checked out. -/
def Spares (held : List Checkout) (m : Move) (id : PageId) (c : Nat) (p : Page) : Prop :=
  p.dirtiedBy ≠ none ∨ m.evicts = false ∨ m = .get id ∨ ∃ g ∈ held, g.copy = c

/-- What a move does to the resident pages. -/
structure Turned (held : List Checkout) (m : Move) (e e' : Engine) : Prop where
  tables : e'.pool.tables = e.pool.tables
  numFrames : e'.pool.numFrames = e.pool.numFrames
  origin : ∀ id c p', e'.pool.copyOf? id = some c → e'.pool.copies.page? c = some p' →
    Brings e m id p' ∨
      ∃ p, e.pool.copyOf? id = some c ∧ e.pool.copies.page? c = some p ∧ Turns e m id c p p'
  stays : ∀ id c p, e.pool.copyOf? id = some c → e.pool.copies.page? c = some p → Spares held m id c p →
    Loses held m id c ∨
      ∃ p', e'.pool.copyOf? id = some c ∧ e'.pool.copies.page? c = some p' ∧ Turns e m id c p p'

variable {e e' e'' : Engine} {held : List Checkout} {m : Move} {id : PageId} {c : Nat} {p : Page}

/-- The same copies in the same frames, with the same pages on them. -/
structure SameResidents (e e' : Engine) : Prop where
  tables : e'.pool.tables = e.pool.tables
  numFrames : e'.pool.numFrames = e.pool.numFrames
  copyOf? : ∀ id, e'.pool.copyOf? id = e.pool.copyOf? id
  page? : ∀ id c, e.pool.copyOf? id = some c → e'.pool.copies.page? c = e.pool.copies.page? c

theorem SameResidents.turned (h : SameResidents e e') (hm : ∀ c, m.callsOn c = []) :
    Turned held m e e' where
  tables := h.tables
  numFrames := h.numFrames
  origin id c p' hc hp := by
    rw [h.copyOf?] at hc
    rw [h.page? id c hc] at hp
    exact .inr ⟨p', hc, hp, .inl (by rw [hm]; rfl)⟩
  stays id c p hc hp _ :=
    .inr ⟨p, by rw [h.copyOf?, hc], by rw [h.page? id c hc, hp], .inl (by rw [hm]; rfl)⟩

theorem Turned.then (h : Turned held m e e') (h' : SameResidents e' e'') : Turned held m e e'' where
  tables := h'.tables.trans h.tables
  numFrames := h'.numFrames.trans h.numFrames
  origin id c p' hc hp := by
    rw [h'.copyOf?] at hc
    rw [h'.page? id c hc] at hp
    exact h.origin id c p' hc hp
  stays id c p hc hp hd := by
    rcases h.stays id c p hc hp hd with hl | ⟨p', hc', hp', ht⟩
    · exact .inl hl
    · exact .inr ⟨p', by rw [h'.copyOf?, hc'], by rw [h'.page? id c hc', hp'], ht⟩

theorem exists_page_of_sound (h : e.pool.Sound held) (hc : e.pool.copyOf? id = some c) :
    ∃ p, e.pool.copies.page? c = some p := by
  obtain ⟨k, hk⟩ := h.exists_resident hc
  exact ⟨k.page, Copies.page?_of_get? hk⟩

/-- A page was put into a frame, and an idle one may have given way. -/
theorem turned_of_installed {q : Pool} {gone : Option Resident} (h : e.pool.Sound held)
    (hi : Installed held e.pool q id p gone) (hid : e.pool.copyOf? id = none)
    (hb : Brings e m id p) (hm : ∀ c, m.callsOn c = []) (hev : m.evicts = true) :
    Turned held m e (e.withPool q) where
  tables := hi.tables
  numFrames := hi.numFrames
  origin id' c p' hc hp := by
    by_cases hne : id' = id
    · subst hne
      obtain rfl : _ = c := Option.some.inj (hi.copyOf?_self.symm.trans hc)
      obtain rfl : p = p' := Option.some.inj (hi.page?_self.symm.trans hp)
      exact .inl hb
    · obtain ⟨hc', hpage⟩ := hi.page?_of_copyOf? h hne hc
      exact .inr ⟨p', hc', hpage.symm.trans hp, .inl (by rw [hm]; rfl)⟩
  stays id' c p' hc hp hd := by
    have hne : id' ≠ id := by
      rintro rfl
      rw [hid] at hc
      cases hc
    cases hc' : q.copyOf? id' with
    | none =>
      -- only idle pages give way, and this one is not
      obtain ⟨k, hk, hclean, -⟩ := hi.idle_of_copyOf?_eq_none hc hc'
      rw [Copies.page?, hk] at hp
      cases hp
      rcases hd with hd | hd | rfl | ⟨g, hg, rfl⟩
      · exact absurd hclean hd
      · rw [hev] at hd
        cases hd
      · rcases hb with ⟨hget, -⟩ | hget
        · cases hget
          exact absurd rfl hne
        · cases hget
      · rw [hi.copyOf?_of_held hid hg hc] at hc'
        cases hc'
    | some d =>
      obtain ⟨hd', hpage⟩ := hi.page?_of_copyOf? h hne hc'
      obtain rfl : c = d := Option.some.inj (hc.symm.trans hd')
      exact .inr ⟨p', hc', hpage.trans hp, .inl (by rw [hm]; rfl)⟩

/-! ### Asking for a page -/

theorem kind_of_read (h : e.read id = .ok p) : ∃ t, e.table? id.table = some t ∧ t.id = id.table ∧
    id.page < t.pageCount e.disk ∧ p.Kind id t.schema t.pageSize := by
  unfold read at h
  cases ht : e.pool.table id.table with
  | error err =>
    rw [ht] at h
    cases h
  | ok t =>
    rw [ht] at h
    simp only [Table.readPage] at h
    split at h
    · cases h
    · next hin =>
      split at h
      · cases h
      · obtain ⟨hid, hpage⟩ := not_or.1 hin
        exact ⟨t, table_eq_ok.1 ht, (Decidable.not_not.1 hid).symm, Nat.not_le.1 hpage, Page.kind_of_ofBytes h⟩

theorem dirtiedBy_of_read (h : e.read id = .ok p) : p.dirtiedBy = none := by
  unfold read at h
  cases ht : e.pool.table id.table with
  | error err =>
    rw [ht] at h
    cases h
  | ok t =>
    rw [ht] at h
    simp only [Table.readPage] at h
    split at h
    · cases h
    · split at h
      · cases h
      · exact (Page.sound_of_ofBytes h).2.2.2.2.1

theorem fetch_turned (h : e.pool.Sound held) (id : PageId) :
    ∃ r e', e.fetch id = (r, e') ∧ e'.disk = e.disk ∧ e'.pool.Sound held ∧
      Turned held (.get id) e e' ∧ ∀ c, r = .ok c → e'.pool.copyOf? id = some c := by
  cases hc : e.pool.copyOf? id with
  | some c =>
    obtain ⟨i, hs, hfetch⟩ := Coherent.fetch_of_resident h hc
    have hsame : SameResidents e (e.withPool (e.pool.access i)) :=
      ⟨rfl, rfl, fun _ => rfl, fun _ _ _ => rfl⟩
    refine ⟨_, _, hfetch, rfl, h.access hs, hsame.turned fun _ => rfl, ?_⟩
    rintro _ ⟨⟩
    exact hc
  | none =>
    obtain ⟨hf, hfetch⟩ := Coherent.fetch_of_absent h hc
    rw [hfetch, Coherent.load_eq]
    cases hr : e.read id with
    | error err =>
      refine ⟨_, _, rfl, rfl, h, SameResidents.turned ⟨rfl, rfl, fun _ => rfl, fun _ _ _ => rfl⟩ fun _ => rfl, ?_⟩
      rintro _ ⟨⟩
    | ok p =>
      simp only
      rcases h.install_cases hf p with ⟨-, hi⟩ | ⟨-, q, gone, hi, hinst⟩
      · rw [hi]
        have hsame : SameResidents e (e.withPool e.pool) :=
          ⟨rfl, rfl, fun _ => rfl, fun _ _ _ => rfl⟩
        refine ⟨_, _, rfl, rfl, h, hsame.turned fun _ => rfl, ?_⟩
        rintro _ ⟨⟩
      · rw [hi]
        refine ⟨_, _, rfl, rfl, hinst.sound,
          turned_of_installed h hinst hc (.inl ⟨rfl, hr⟩) (fun _ => rfl) rfl, ?_⟩
        rintro _ ⟨⟩
        exact hinst.copyOf?_self

/-- Once a copy of the page is found, only its lock decides. -/
theorem getPage_of_fetch {e1 : Engine} (hfetch : e.fetch id = (.ok c, e1)) (h : e1.pool.Sound held)
    (hc : e1.pool.copyOf? id = some c) (access : Access) :
    (¬ Compatible held c access ∧
      e.getPage id access = (.error (.aborted (.lockTimeout access id)), e1)) ∨
    (Compatible held c access ∧ ∃ e', e.getPage id access = (.ok ⟨c, access⟩, e') ∧
      e'.disk = e1.disk ∧ e'.pool.Sound (⟨c, access⟩ :: held) ∧ SameResidents e1 e') := by
  obtain ⟨k, hk⟩ := h.exists_resident hc
  unfold getPage
  rw [hfetch]
  rcases h.checkout_eq hk id access with ⟨hn, heq⟩ | ⟨hy, l, heq, hsound⟩
  · simp only [heq]
    exact .inl ⟨hn, rfl⟩
  · simp only [heq]
    refine .inr ⟨hy, _, rfl, rfl, hsound, rfl, rfl, fun _ => rfl, fun _ d _ => ?_⟩
    exact Copies.page?_rebook hk l _ d

/-- A request fails and nobody has more than before, or the page is checked out. -/
theorem getPage_turned (h : e.pool.Sound held) (id : PageId) (access : Access) :
    ∃ r e', e.getPage id access = (r, e') ∧ e'.disk = e.disk ∧ Turned held (.get id) e e' ∧
      ((∃ err, r = .error err ∧ e'.pool.Sound held) ∨
       ∃ c p, r = .ok ⟨c, access⟩ ∧ e'.pool.Sound (⟨c, access⟩ :: held) ∧
         e'.pool.copyOf? id = some c ∧ e'.pool.copies.page? c = some p) := by
  obtain ⟨r, e1, hfetch, hd, h1, hturned, hcopy⟩ := fetch_turned h id
  cases r with
  | error err =>
    refine ⟨_, _, ?_, hd, hturned, .inl ⟨err, rfl, h1⟩⟩
    unfold getPage
    rw [hfetch]
  | ok c =>
    have hc := hcopy c rfl
    rcases getPage_of_fetch hfetch h1 hc access with ⟨-, heq⟩ | ⟨-, e', heq, hd', hsound, hsame⟩
    · exact ⟨_, _, heq, hd, hturned, .inl ⟨_, rfl, h1⟩⟩
    · obtain ⟨p, hp⟩ := exists_page_of_sound h1 hc
      exact ⟨_, _, heq, hd'.trans hd, hturned.then hsame, .inr ⟨c, p, rfl, hsound,
        (hsame.copyOf? id).trans hc, (hsame.page? id c hc).trans hp⟩⟩

theorem sameResidents_release {g : Checkout} (h : e.pool.Sound (g :: held)) :
    SameResidents e (e.release g) :=
  ⟨rfl, rfl, fun _ => rfl, fun id _ hc => h.page?_release (.inl (h.seated_iff.2 ⟨id, hc⟩))⟩

/-! ### Changing a page and writing it back -/

/-- Another page in a copy. -/
theorem turned_setPage {p' : Page} (hp : e.pool.copies.page? c = some p)
    (ht : ∀ id, e.pool.copyOf? id = some c → Turns e m id c p p')
    (hm : ∀ d, d ≠ c → m.callsOn d = []) : Turned held m e (e.setPage c p') where
  tables := rfl
  numFrames := rfl
  origin id d q hc hq := by
    rw [Coherent.page?_setPage hp] at hq
    by_cases hd : d = c
    · subst hd
      rw [if_pos rfl] at hq
      cases hq
      exact .inr ⟨p, hc, hp, ht id hc⟩
    · rw [if_neg hd] at hq
      exact .inr ⟨q, hc, hq, .inl (by rw [hm d hd]; rfl)⟩
  stays id d q hc hq _ := by
    by_cases hd : d = c
    · subst hd
      obtain rfl : p = q := Option.some.inj (hp.symm.trans hq)
      exact .inr ⟨p', hc, by rw [Coherent.page?_setPage hp, if_pos rfl], ht id hc⟩
    · exact .inr ⟨q, hc, by rw [Coherent.page?_setPage hp, if_neg hd, hq], .inl (by rw [hm d hd]; rfl)⟩

theorem sound_setPage (h : e.pool.Sound held) (hp : e.pool.copies.page? c = some p) (p' : Page) :
    (e.setPage c p').pool.Sound held := by
  obtain ⟨k, hk, -⟩ := Option.map_eq_some_iff.1 hp
  exact h.setPage hk p'

theorem writePage_cases (t : Table) (d : Disk) (p : Page) :
    (∃ err, t.writePage d p = (.error err, p, d)) ∨
      ∃ d', t.writePage d p = (.ok (), p.withBefore p.toBytes, d') := by
  unfold Table.writePage
  split
  · exact .inl ⟨_, rfl⟩
  · simp only [DataFile.write]
    split
    · next heq =>
      split at heq
      · cases heq
      · cases heq
        exact .inl ⟨_, rfl⟩
    · exact .inr ⟨_, rfl⟩

/-- A page is written back, or nothing happens at all. -/
theorem writeBack_wrote (hp : e.pool.copies.page? c = some p) (id : PageId) (only : Option TxnId) :
    (∃ r, e.writeBack id c only = (r, e) ∧ ∀ b, r = .ok b → p.isSelected only = false) ∨
      ∃ t d, e.table? id.table = some t ∧ p.isSelected only = true ∧
        t.writePage e.disk p = (.ok (), p.withBefore p.toBytes, d) ∧
        e.writeBack id c only = (.ok true, { e.setPage c p.cleaned with disk := d }) := by
  obtain ⟨k, hk, rfl⟩ := Option.map_eq_some_iff.1 hp
  unfold writeBack Page.isSelected
  simp only [hk]
  split
  · exact .inl ⟨_, rfl, fun b hb => by cases hb⟩
  · cases hd : k.page.dirtiedBy with
    | none => exact .inl ⟨_, rfl, fun _ _ => rfl⟩
    | some txn =>
      simp only [Option.any_some]
      cases honly : only.any (· ≠ txn) with
      | true => exact .inl ⟨_, rfl, fun _ _ => rfl⟩
      | false =>
        simp only [Bool.false_eq_true, if_false]
        cases ht : e.pool.table id.table with
        | error err => exact .inl ⟨_, rfl, fun b hb => by cases hb⟩
        | ok t =>
          rcases writePage_cases t e.disk k.page with ⟨err, heq⟩ | ⟨d, heq⟩
          · simp only [heq]
            exact .inl ⟨_, rfl, fun b hb => by cases hb⟩
          · simp only [heq]
            exact .inr ⟨t, d, table_eq_ok.1 ht, rfl, heq, rfl⟩

theorem writeBack_turned (h : e.pool.Sound held) (hc : e.pool.copyOf? id = some c)
    (only : Option TxnId) : (e.writeBack id c only).2.pool.Sound held ∧
      Turned held (.writeBack id only) e (e.writeBack id c only).2 := by
  obtain ⟨p, hp⟩ := exists_page_of_sound h hc
  rcases writeBack_wrote hp id only with ⟨r, heq, -⟩ | ⟨t, d, ht, hsel, hwrite, heq⟩
  · rw [heq]
    exact ⟨h, SameResidents.turned ⟨rfl, rfl, fun _ => rfl, fun _ _ _ => rfl⟩ fun _ => rfl⟩
  · rw [heq]
    have hwrote (id' : PageId) (hid : e.pool.copyOf? id' = some c) :
        Turns e (.writeBack id only) id' c p p.cleaned := by
      obtain rfl : id = id' := h.copyOf?_inj hc hid
      exact .inr ⟨⟨⟨only, rfl, hsel⟩, t, ht, by rw [hwrite]⟩, rfl⟩
    exact ⟨sound_setPage h hp _,
      (turned_setPage hp hwrote fun _ _ => rfl).then ⟨rfl, rfl, fun _ => rfl, fun _ _ _ => rfl⟩⟩

/-! ### Taking a page in and dropping one -/

/-- The number of the next copy is in nobody's hands. -/
theorem copy_ne_size (h : e.pool.Sound held) {g : Checkout} (hg : g ∈ held) :
    g.copy ≠ e.pool.copies.cells.size := by
  intro hc
  obtain ⟨k, hk⟩ := h.exists_copy (.inr ⟨g, hg, rfl⟩)
  rw [hc, Copies.get?_size] at hk
  cases hk

/-- The pool refuses a new page and everything stays as it is, or it takes the page in as a copy that
nobody has checked out. -/
theorem adopt_cases (h : e.pool.Sound held) (id : PageId) (page : Page) :
    (∃ err q, e.adopt id page = (.error err, e.withPool q) ∧ q.Sound held ∧
      SameResidents e (e.withPool q)) ∨
    ∃ c q, e.adopt id page = (.ok (), e.withPool q) ∧ q.Sound held ∧
      Turned held (.adopt id page) e (e.withPool q) ∧ q.copyOf? id = some c ∧
      q.copies.page? c = some page ∧ ∀ g ∈ held, g.copy ≠ c := by
  unfold adopt Pool.adopt
  cases hf : e.pool.frameOf? id with
  | none =>
    have hc : e.pool.copyOf? id = none := h.frameOf?_isSome_iff.1 hf
    simp only
    rcases h.install_cases hf page with ⟨-, hi⟩ | ⟨-, q, gone, hi, hinst⟩
    · rw [hi]
      exact .inl ⟨_, _, rfl, h, rfl, rfl, fun _ => rfl, fun _ _ _ => rfl⟩
    · rw [hi]
      exact .inr ⟨_, _, rfl, hinst.sound,
        turned_of_installed h hinst hc (.inr rfl) (fun _ => rfl) rfl, hinst.copyOf?_self,
        hinst.page?_self, fun g hg => copy_ne_size h hg⟩
  | some i =>
    obtain ⟨c, hs⟩ := (h.index id i).1 hf
    have hc : e.pool.copyOf? id = some c := h.copyOf?_eq_some.2 ⟨i, hs⟩
    simp only
    cases hpin : (e.pool.frame i).isPinned e.pool.copies with
    | true => exact .inl ⟨_, _, rfl, h, rfl, rfl, fun _ => rfl, fun _ _ _ => rfl⟩
    | false =>
      have hrep := h.replaced hs page
      have hfree : ∀ g ∈ held, g.copy ≠ c := fun g hg hgc => by
        rw [(h.isPinned_iff hs).2 ⟨g, hg, hgc⟩] at hpin
        cases hpin
      refine .inr ⟨_, _, rfl, hrep.sound, ⟨rfl, Pool.numFrames_replaced page,
        fun id' d q hd hq => ?_, fun id' d q hd hq _ => ?_⟩, (hrep.copyOf? id).trans (if_pos rfl),
        hrep.new, fun g hg => copy_ne_size h hg⟩
      · have hd : (e.pool.replaced i id page).copyOf? id' = some d := hd
        have hq : (e.pool.replaced i id page).copies.page? d = some q := hq
        rw [hrep.copyOf?] at hd
        by_cases hne : id' = id
        · rw [if_pos hne] at hd
          cases hd
          rw [hrep.new] at hq
          cases hq
          rw [hne]
          exact .inl (.inr rfl)
        · rw [if_neg hne] at hd
          rw [hrep.others id' d hne hd] at hq
          exact .inr ⟨q, hd, hq, .inl rfl⟩
      · by_cases hne : id' = id
        · subst hne
          obtain rfl : c = d := Option.some.inj (hc.symm.trans hd)
          exact .inl (.inr ⟨⟨page, rfl⟩, hfree⟩)
        · exact .inr ⟨q, (hrep.copyOf? id').trans (by rw [if_neg hne, hd]),
            (hrep.others id' d hne hd).trans hq, .inl rfl⟩

/-- A new page takes the frame of one that nobody uses, dirty or not. -/
theorem adopt_unused (h : e.pool.Sound held) (hc : e.pool.copyOf? id = some c)
    (hfree : ∀ g ∈ held, g.copy ≠ c) (page : Page) :
    ∃ q, e.adopt id page = (.ok (), e.withPool q) ∧ Pool.Replaced held e.pool q id page := by
  obtain ⟨i, hs⟩ := h.copyOf?_eq_some.1 hc
  have hpin : (e.pool.frame i).isPinned e.pool.copies = false :=
    Bool.eq_false_iff.2 fun hpin => by
      obtain ⟨g, hg, hgc⟩ := (h.isPinned_iff hs).1 hpin
      exact hfree g hg hgc
  refine ⟨e.pool.replaced i id page, ?_, h.replaced hs page⟩
  unfold adopt Pool.adopt
  rw [(h.index id i).2 ⟨c, hs⟩]
  simp only [hpin]
  rfl

theorem numFrames_discard (p : Pool) (id : PageId) : (p.discard id).2.numFrames = p.numFrames := by
  unfold Pool.discard
  split
  · rfl
  · exact Array.size_setIfInBounds ..

theorem discard_turned (h : e.pool.Sound held) (id : PageId) :
    (e.discard id).2.disk = e.disk ∧ (e.discard id).2.pool.Sound held ∧
      Turned held (.discard id) e (e.discard id).2 := by
  have hn := numFrames_discard e.pool id
  unfold discard
  rcases h.discard_cases id with ⟨-, heq⟩ | ⟨c, q, hc, heq, hsound, htables, hcopyOf, hpage⟩
  · rw [heq]
    exact ⟨rfl, h, SameResidents.turned ⟨rfl, rfl, fun _ => rfl, fun _ _ _ => rfl⟩ fun _ => rfl⟩
  · rw [heq] at hn ⊢
    refine ⟨rfl, hsound, ⟨htables, hn, fun id' d p hd hp => ?_, fun id' d p hd hp _ => ?_⟩⟩
    · have hd : q.copyOf? id' = some d := hd
      rw [hcopyOf] at hd
      by_cases hne : id' = id
      · rw [if_pos hne] at hd
        cases hd
      · rw [if_neg hne] at hd
        have hdc : d ≠ c := fun hdc => hne (h.copyOf?_inj hd (hdc ▸ hc))
        exact .inr ⟨p, hd, (hpage d hdc).symm.trans hp, .inl rfl⟩
    · by_cases hne : id' = id
      · exact .inl (.inl (by rw [hne]))
      · have hdc : d ≠ c := fun hdc => hne (h.copyOf?_inj hd (hdc ▸ hc))
        exact .inr ⟨p, (hcopyOf id').trans (by rw [if_neg hne, hd]), (hpage d hdc).trans hp, .inl rfl⟩

/-! ### One move after the other -/

variable {base own own' own'' : List Checkout} {ms ms' : List Move}

theorem Moves.turned (h : Moves base own e m own' e') (hs : e.pool.Sound (own ++ base)) :
    e'.pool.Sound (own' ++ base) ∧ Turned (own ++ base) m e e' := by
  cases h with
  | @got _ _ _ id access g heq =>
    obtain ⟨r, e1, hget, -, hturned, hcases⟩ := getPage_turned hs id access
    rw [heq] at hget
    cases hget
    rcases hcases with ⟨err, herr, -⟩ | ⟨c, p, hok, hsound, -⟩
    · cases herr
    · cases hok
      exact ⟨hsound, hturned⟩
  | @missed _ _ _ id access err heq =>
    obtain ⟨r, e1, hget, -, hturned, hcases⟩ := getPage_turned hs id access
    rw [heq] at hget
    cases hget
    rcases hcases with ⟨err, -, hsound⟩ | ⟨c, p, hok, -⟩
    · exact ⟨hsound, hturned⟩
    · cases hok
  | released => exact ⟨hs.release, (sameResidents_release hs).turned fun _ => rfl⟩
  | @changed _ _ c p calls _ hp =>
    refine ⟨sound_setPage hs hp _, turned_setPage hp (fun id _ => .inl ?_) fun d hd => ?_⟩
    · rw [Move.callsOn, if_pos rfl]
    · rw [Move.callsOn, if_neg (Ne.symm hd)]
  | wroteBack hc => exact writeBack_turned hs hc _
  | grown => exact ⟨hs, SameResidents.turned ⟨rfl, rfl, fun _ => rfl, fun _ _ _ => rfl⟩ fun _ => rfl⟩
  | adopted heq =>
    rcases adopt_cases hs _ _ with ⟨_, _, herr, -⟩ | ⟨c, q, hok, hsound, hturned, -⟩
    · cases heq.symm.trans herr
    · cases heq.symm.trans hok
      exact ⟨hsound, hturned⟩
  | refused heq =>
    rcases adopt_cases hs _ _ with ⟨_, q, herr, hsound, hsame⟩ | ⟨_, _, hok, -⟩
    · cases heq.symm.trans herr
      exact ⟨hsound, hsame.turned fun _ => rfl⟩
    · cases heq.symm.trans hok
  | discarded => exact (discard_turned hs _).2

/-- A copy is changed by no move but one that names the page on it. -/
theorem Moves.callsOn_cases (h : Moves base own e m own' e') (hp : e.pool.copies.page? c = some p) :
    m.callsOn c = [] ∨ m = .change p.id c (m.callsOn c) := by
  cases h with
  | @changed _ _ d q calls _ hq =>
    by_cases hd : d = c
    · subst hd
      obtain rfl : q = p := Option.some.inj (hq.symm.trans hp)
      simp [Move.callsOn]
    · exact .inl (by simp [Move.callsOn, hd])
  | _ => exact .inl rfl

/-- A move that leaves a dirty page dirty. -/
def Move.Dirties : Move → Prop
  | .change _ _ calls => ∀ p : Page, p.dirtiedBy ≠ none → (p.after calls).dirtiedBy ≠ none
  | .writeBack .. => False
  | _ => True

theorem Move.Dirties.after {m : Move} (h : m.Dirties) {p p' : Page} (hd : p.dirtiedBy ≠ none)
    (ht : Turns e m id c p p') : p' = p.after (m.callsOn c) ∧ p'.dirtiedBy ≠ none := by
  have heq : p' = p.after (m.callsOn c) := by
    rcases ht with rfl | ⟨⟨⟨only, rfl, -⟩, -⟩, -⟩
    · rfl
    · exact h.elim
  refine ⟨heq, ?_⟩
  rw [heq]
  cases m with
  | change id' c' calls =>
    by_cases hcc : c' = c
    · simpa [callsOn, hcc] using h p hd
    · simpa [callsOn, hcc, Page.after] using hd
  | _ => exact hd

/-- Moves one after the other. -/
inductive Trace (base : List Checkout) :
    List Checkout → Engine → List Move → List Checkout → Engine → Prop
  | nil {own : List Checkout} {e : Engine} : Trace base own e [] own e
  | cons {own own' own'' : List Checkout} {e e' e'' : Engine} {m : Move} {ms : List Move} :
      Moves base own e m own' e' → Trace base own' e' ms own'' e'' → Trace base own e (m :: ms) own'' e''

/-- What the moves do to the page in a copy, one call after the other. -/
def callsOn (ms : List Move) (c : Nat) : List Page.Call := ms.flatMap (·.callsOn c)

namespace Trace

theorem one (h : Moves base own e m own' e') : Trace base own e [m] own' e' := .cons h .nil

theorem append (h : Trace base own e ms own' e') (h' : Trace base own' e' ms' own'' e'') :
    Trace base own e (ms ++ ms') own'' e'' := by
  induction h with
  | nil => exact h'
  | cons hm _ ih => exact .cons hm (ih h')

theorem sound (h : Trace base own e ms own' e') (hs : e.pool.Sound (own ++ base)) :
    e'.pool.Sound (own' ++ base) := by
  induction h with
  | nil => exact hs
  | cons hm _ ih => exact ih (hm.turned hs).1

theorem keeps (h : Trace base own e ms own' e') (hs : e.pool.Sound (own ++ base)) :
    e'.pool.tables = e.pool.tables ∧ e'.pool.numFrames = e.pool.numFrames := by
  induction h with
  | nil => exact ⟨rfl, rfl⟩
  | cons hm _ ih =>
    obtain ⟨hs', ht⟩ := hm.turned hs
    obtain ⟨htables, hframes⟩ := ih hs'
    exact ⟨htables.trans ht.tables, hframes.trans ht.numFrames⟩

/-- What holds of every page that is read or taken in, and is kept by the changes that the moves make
and by write-back, holds of all resident pages. -/
theorem residents_of_changes {P : PageId → Page → Prop} (h : Trace base own e ms own' e')
    (hs : e.pool.Sound (own ++ base))
    (hchange : ∀ p c calls id, .change p.id c calls ∈ ms → P id p → P id (p.after calls))
    (hclean : ∀ id p, P id p → P id p.cleaned)
    (hread : ∀ f : Engine, f.pool.tables = e.pool.tables → ∀ id p, f.read id = .ok p → P id p)
    (hadopt : ∀ id p, .adopt id p ∈ ms → P id p)
    (hall : ∀ id p, e.pool.page? id = some p → P id p) :
    ∀ id p, e'.pool.page? id = some p → P id p := by
  induction h with
  | nil => exact hall
  | @cons own _ _ e e1 _ m _ hm _ ih =>
    obtain ⟨hs', ht⟩ := hm.turned hs
    refine ih hs' (fun p c calls id hmem => hchange p c calls id (List.mem_cons_of_mem _ hmem))
      (fun f hf => hread f (hf.trans ht.tables))
      (fun id p hmem => hadopt id p (List.mem_cons_of_mem _ hmem)) fun id p' hp' => ?_
    obtain ⟨c, hc, hpage⟩ := Option.bind_eq_some_iff.1 hp'
    rcases ht.origin id c p' hc hpage with hb | ⟨p, hc0, hp0, hturn⟩
    · rcases hb with ⟨-, hr⟩ | rfl
      · exact hread e rfl id p' hr
      · exact hadopt id p' List.mem_cons_self
    · have hP : P id p := hall id p ((page?_of_copyOf? hc0).trans hp0)
      rcases hturn with rfl | ⟨-, rfl⟩
      · rcases hm.callsOn_cases hp0 with hnone | hchanged
        · rw [hnone]
          exact hP
        · exact hchange p c _ id (hchanged ▸ List.mem_cons_self) hP
      · exact hclean id p hP

/-- What holds of every page that is read or taken in, and is kept by every call on a page, holds of
all resident pages. -/
theorem residents {P : PageId → Page → Prop} (h : Trace base own e ms own' e')
    (hs : e.pool.Sound (own ++ base)) (hcall : ∀ id p call, P id p → P id (Page.call p call))
    (hread : ∀ f : Engine, f.pool.tables = e.pool.tables → ∀ id p, f.read id = .ok p → P id p)
    (hadopt : ∀ id p, .adopt id p ∈ ms → P id p)
    (hall : ∀ id p, e.pool.page? id = some p → P id p) :
    ∀ id p, e'.pool.page? id = some p → P id p := by
  refine h.residents_of_changes hs (fun p _ calls id _ hp => ?_) (fun id p hp => ?_) hread hadopt hall
  · exact Page.after_of_call (P := P id) (hcall id) hp calls
  · exact Page.after_of_call (P := P id) (hcall id) hp [.stored p.toBytes, .mark false ⟨0⟩]

/-- Where nothing is written back, a dirty page stays and is changed as the moves say, unless it is
dropped or a new page takes its id while nobody in `base` has it checked out. -/
theorem dirty (h : Trace base own e ms own' e') (hs : e.pool.Sound (own ++ base))
    (hms : ∀ m ∈ ms, m.Dirties) (hc : e.pool.copyOf? id = some c)
    (hp : e.pool.copies.page? c = some p) (hd : p.dirtiedBy ≠ none) :
    (∃ m ∈ ms, Loses base m id c) ∨
      e'.pool.copyOf? id = some c ∧ e'.pool.copies.page? c = some (p.after (callsOn ms c)) := by
  induction h generalizing p with
  | nil => exact .inr ⟨hc, hp⟩
  | @cons own _ _ e e1 _ m ms hm _ ih =>
    obtain ⟨hs', ht⟩ := hm.turned hs
    rcases ht.stays id c p hc hp (.inl hd) with hl | ⟨p1, hc1, hp1, hturn⟩
    · refine .inl ⟨m, List.mem_cons_self, ?_⟩
      rcases hl with rfl | ⟨hadopt, hfree⟩
      · exact .inl rfl
      · exact .inr ⟨hadopt, fun g hg => hfree g (List.mem_append_right _ hg)⟩
    · obtain ⟨rfl, hd1⟩ := (hms m List.mem_cons_self).after hd hturn
      rcases ih hs' (fun m hm => hms m (List.mem_cons_of_mem _ hm)) hc1 hp1 hd1 with
        ⟨m', hm', hl⟩ | ⟨hc', hp'⟩
      · exact .inl ⟨m', List.mem_cons_of_mem _ hm', hl⟩
      · refine .inr ⟨hc', ?_⟩
        rw [hp', ← Page.after_append]
        rfl

/-- Where pages are only written back, every page stays: as it was, or clean once it was written. -/
theorem writtenBack (h : Trace base own e ms own' e') (hs : e.pool.Sound (own ++ base))
    (hms : ∀ m ∈ ms, ∃ id only, m = .writeBack id only) (hc : e.pool.copyOf? id = some c)
    (hp : e.pool.copies.page? c = some p) :
    e'.pool.copyOf? id = some c ∧ (e'.pool.copies.page? c = some p ∨
      (∃ f : Engine, f.pool.tables = e.pool.tables ∧ ∃ m ∈ ms, Wrote f m id p) ∧
        e'.pool.copies.page? c = some p.cleaned) := by
  induction h generalizing p with
  | nil => exact ⟨hc, .inl hp⟩
  | @cons own _ _ e e1 _ m ms hm _ ih =>
    obtain ⟨hs', ht⟩ := hm.turned hs
    obtain ⟨id', only, rfl⟩ := hms m List.mem_cons_self
    rcases ht.stays id c p hc hp (.inr (.inl rfl)) with (hl | ⟨⟨page, hl⟩, -⟩) | ⟨p1, hc1, hp1, hturn⟩
    · cases hl
    · cases hl
    · obtain ⟨hc', hrest⟩ := ih hs' (fun m hm => hms m (List.mem_cons_of_mem _ hm)) hc1 hp1
      refine ⟨hc', ?_⟩
      rcases hturn with rfl | ⟨hw, rfl⟩
      · rcases hrest with hp' | ⟨⟨f, hf, m, hm, hw⟩, hp'⟩
        · exact .inl hp'
        · exact .inr ⟨⟨f, hf.trans ht.tables, m, List.mem_cons_of_mem _ hm, hw⟩, hp'⟩
      · -- a page that is clean is not written again
        refine .inr ⟨⟨e, rfl, _, List.mem_cons_self, hw⟩, ?_⟩
        rcases hrest with hp' | ⟨⟨f, -, m, -, hw'⟩, -⟩
        · exact hp'
        · obtain ⟨only', -, hsel⟩ := hw'.selected
          cases hsel

end Trace

end Engine

end HeapStore
