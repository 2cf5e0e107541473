import HeapStore.Proofs.Coherence

/-! Checking pages out and giving them back. Whatever a request comes to, no logical page changes: a
page that is loaded is the one the file has, and a page that gives way is found there again. -/

namespace HeapStore

open Pool (Installed Compatible)

namespace Engine

/-- The page as a request would load it. -/
def read (e : Engine) (id : PageId) : Except Error Page :=
  match e.pool.table id.table with
  | .error err => .error err
  | .ok t => t.readPage e.disk id

/-- No logical page has changed. -/
structure Unchanged (held : List Checkout) (e e' : Engine) : Prop extends Follows held e e' where
  pages : SamePages e e'

/-- What a request for a page comes to: the page cannot be read, there is no room for it, its lock is
held, or it is checked out. -/
inductive Got (held : List Checkout) (loose : Nat → Prop) (e : Engine) (id : PageId)
    (access : Access) : Except Error Checkout → Engine → Prop
  | unread {err : Error} : e.pool.copyOf? id = none → e.read id = .error err →
      e.Coherent held loose → Got held loose e id access (.error err) e
  | full {p : Page} {e' : Engine} : e.pool.copyOf? id = none → e.read id = .ok p → e.pool.Full →
      e'.Coherent held loose → Got held loose e id access (.error .poolFull) e'
  | locked {c : Nat} {e' : Engine} : e.pool.copyOf? id = some c → ¬ Compatible held c access →
      e'.Coherent held loose →
      Got held loose e id access (.error (.aborted (.lockTimeout access id))) e'
  | out {c : Nat} {p : Page} {e' : Engine} : (e.pool.copyOf? id = none → ¬ e.pool.Full) →
      (∀ c', e.pool.copyOf? id = some c' → c' = c) → Compatible held c access →
      e'.Coherent (⟨c, access⟩ :: held) loose → e'.pool.copyOf? id = some c →
      e'.pool.copies.page? c = some p → Got held loose e id access (.ok ⟨c, access⟩) e'

/-- One logical page is this one now, and no other has changed. -/
structure Changed (held : List Checkout) (id : PageId) (p : Page) (e e' : Engine) : Prop
    extends Follows held e e' where
  now : e'.logical id = some p
  others : ∀ id', id' ≠ id → Option.Rel Page.Alike (e.logical id') (e'.logical id')

/-- The engine with another page in a copy. -/
def setPage (e : Engine) (c : Nat) (p : Page) : Engine :=
  e.withPool { e.pool with copies := e.pool.copies.setPage c p }

variable {e e' e'' : Engine} {held : List Checkout} {loose loose' : Nat → Prop} {id : PageId}
  {access : Access} {g : Checkout} {p : Page}

theorem Unchanged.refl (held : List Checkout) (e : Engine) : Unchanged held e e :=
  ⟨.refl held e, .refl e⟩

theorem Unchanged.trans (h : Unchanged held e e') (h' : Unchanged held e' e'') :
    Unchanged held e e'' :=
  ⟨h.toFollows.trans h'.toFollows, h.pages.trans h'.pages⟩

theorem Unchanged.mono {held' : List Checkout} (h : Unchanged held e e')
    (hs : ∀ g ∈ held', g ∈ held) : Unchanged held' e e' :=
  ⟨h.toFollows.mono hs, h.pages⟩

theorem Unchanged.then (h : Unchanged held e e') (h' : Changed held id p e' e'') :
    Changed held id p e e'' where
  toFollows := h.toFollows.trans h'.toFollows
  now := h'.now
  others id' hne := rel_trans (h.pages id') (h'.others id' hne)

theorem table?_congr {f : Engine} (h : f.pool.tables = e.pool.tables) (k : Nat) :
    f.table? k = e.table? k := by
  unfold table?
  rw [h]

/-- No logical page changes with the books of the pool. -/
theorem unchanged_rebook (e : Engine) {q : Pool} {rest : List Checkout}
    (ht : q.tables = e.pool.tables) (hn : q.numFrames = e.pool.numFrames)
    (hc : ∀ id, q.copyOf? id = e.pool.copyOf? id)
    (hp : ∀ id c, e.pool.copyOf? id = some c → q.copies.page? c = e.pool.copies.page? c)
    (hg : ∀ g ∈ rest, q.copies.page? g.copy = e.pool.copies.page? g.copy) :
    Unchanged rest e (e.withPool q) where
  tables := ht
  numFrames := hn
  kept _ _ id hid := (hc id).trans hid
  same := hg
  grows _ _ _ := Nat.le_refl _
  pages id := rel_of_eq (logical_congr (f := e.withPool q) (hc id) (hp id) (stored_congr ht rfl)).symm

/-! ### Reading -/

theorem read_of_table {t : Table} (ht : e.table? id.table = some t) :
    e.read id = t.readPage e.disk id := by
  unfold read
  rw [table_eq_ok.2 ht]

theorem read_congr (ht : e'.pool.tables = e.pool.tables) (hd : e'.disk = e.disk) :
    e'.read id = e.read id := by
  unfold read Pool.table
  rw [ht, hd]

namespace Coherent

theorem read_eq (h : e.Coherent held loose) {t : Table} (ht : e.table? id.table = some t) :
    e.read id = if id.page < t.pageCount e.disk
      then Page.ofBytes id t.schema t.pageSize (t.window e.disk id.page)
      else .error (.invalidPage id (t.pageCount e.disk)) := by
  have hid : (⟨t.id, id.page⟩ : PageId) = id := by rw [h.own _ _ ht]
  have := t.readPage_eq e.disk id.page
  rw [hid] at this
  rw [read_of_table ht, this]

/-- A page that can be read is the one the file has. -/
theorem of_read (h : e.Coherent held loose) (hr : e.read id = .ok p) :
    e.stored id = some p ∧ p.dirtiedBy = none ∧
      ∃ t, e.table? id.table = some t ∧ ∀ loose, p.Backed t e.disk id loose := by
  cases ht : e.table? id.table with
  | none =>
    unfold read Pool.table at hr
    unfold table? at ht
    rw [ht] at hr
    cases hr
  | some t =>
    rw [h.read_eq ht] at hr
    split at hr
    · next hn =>
      obtain ⟨-, -, -, -, hd, -⟩ := Page.sound_of_ofBytes hr
      exact ⟨(stored_eq_some ht).2 hr, hd, t, rfl, fun _ => .of_ofBytes hr hn⟩
    · cases hr

theorem read_of_copyOf? (h : e.Coherent held loose) {c : Nat} (hc : e.pool.copyOf? id = some c) :
    ∃ p, e.read id = .ok p := by
  obtain ⟨p, hp⟩ := h.exists_page hc
  obtain ⟨t, ht, hb⟩ := h.backed id c p hc hp
  obtain ⟨q, hq⟩ := hb.decodes
  exact ⟨q, by rw [h.read_eq ht, if_pos hb.number, hq]⟩

/-! ### The books of the pool -/

/-- The books of the pool may change while its pages stay. -/
theorem rebook (h : e.Coherent held loose) {q : Pool} {held' : List Checkout} (hq : q.Sound held')
    (ht : q.tables = e.pool.tables) (hc : ∀ id, q.copyOf? id = e.pool.copyOf? id)
    (hp : ∀ id c, e.pool.copyOf? id = some c → q.copies.page? c = e.pool.copies.page? c)
    (hl : ∀ c, loose c → ⟨c, .exclusive⟩ ∈ held') : (e.withPool q).Coherent held' loose where
  pool := hq
  own k t hk := h.own k t (by rwa [table?_congr ht] at hk)
  stands k t hk := h.stands k t (by rwa [table?_congr ht] at hk)
  small k t hk := h.small k t (by rwa [table?_congr ht] at hk)
  backed id c p hcopy hpage := by
    have hcopy : e.pool.copyOf? id = some c := (hc id).symm.trans hcopy
    have hpage : e.pool.copies.page? c = some p := (hp id c hcopy).symm.trans hpage
    obtain ⟨t, hk, hb⟩ := h.backed id c p hcopy hpage
    exact ⟨t, by rw [table?_congr (e := e) (f := e.withPool q) ht, hk], hb⟩
  loose := hl

/-! ### Loading -/

variable {q : Pool} {gone : Option Resident}

/-- A page was put into a frame that the file has like this. -/
theorem installed_coherent (h : e.Coherent held loose) (hi : Installed held e.pool q id p gone)
    (hr : e.read id = .ok p) : (e.withPool q).Coherent held loose := by
  obtain ⟨-, -, tbl, htbl, hbacked⟩ := h.of_read hr
  have htables (k : Nat) : (e.withPool q).table? k = e.table? k := table?_congr hi.tables k
  refine ⟨hi.sound, fun k t hk => h.own k t (by rwa [htables] at hk),
    fun k t hk => h.stands k t (by rwa [htables] at hk),
    fun k t hk => h.small k t (by rwa [htables] at hk), fun id' c p' hc hp => ?_, h.loose⟩
  by_cases hne : id' = id
  · subst hne
    obtain rfl : _ = c := Option.some.inj (hi.copyOf?_self.symm.trans hc)
    obtain rfl : p = p' := Option.some.inj (hi.page?_self.symm.trans hp)
    exact ⟨tbl, by rw [htables, htbl], hbacked _⟩
  · obtain ⟨hc', hpage⟩ := hi.page?_of_copyOf? h.pool hne hc
    obtain ⟨t, ht, hb⟩ := h.backed id' c p' hc' (hpage.symm.trans hp)
    exact ⟨t, by rw [htables, ht], hb⟩

theorem installed_unchanged (h : e.Coherent held loose) (hi : Installed held e.pool q id p gone)
    (hid : e.pool.copyOf? id = none) (hr : e.read id = .ok p) :
    Unchanged held e (e.withPool q) where
  tables := hi.tables
  numFrames := hi.numFrames
  kept _ hg _ hc := hi.copyOf?_of_held hid hg hc
  same _ hg := hi.page?_of_held h.pool hg
  grows _ _ _ := Nat.le_refl _
  pages id' := by
    by_cases hne : id' = id
    · subst hne
      rw [logical_of_copyOf?_eq_none hid, (h.of_read hr).1,
        logical_of_page? (e := e.withPool q) hi.copyOf?_self hi.page?_self]
      exact rel_refl _
    · cases hc : q.copyOf? id' with
      | some c =>
        obtain ⟨hc', hpage⟩ := hi.page?_of_copyOf? h.pool hne hc
        obtain ⟨p', hp'⟩ := h.exists_page hc'
        rw [logical_of_page? hc' hp', logical_of_page? (e := e.withPool q) hc (hpage.trans hp')]
        exact rel_refl _
      | none =>
        rw [logical_of_copyOf?_eq_none (e := e.withPool q) hc,
          stored_congr (e := e) (f := e.withPool q) hi.tables rfl]
        cases hc' : e.pool.copyOf? id' with
        | none =>
          rw [logical_of_copyOf?_eq_none hc']
          exact rel_refl _
        | some c =>
          -- this page gave way: the file has it
          obtain ⟨p', q', hp', hq', ha⟩ := h.stored_of_idle hc' (hi.idle_of_copyOf?_eq_none hc' hc)
          rw [logical_of_page? hc' hp', hq']
          exact .some ha

theorem load_eq (e : Engine) (id : PageId) : e.load id =
    match e.read id with
    | .error err => (.error err, e)
    | .ok page => ((e.pool.install id page).1, e.withPool (e.pool.install id page).2) := by
  unfold load read
  cases e.pool.table id.table with
  | error err => rfl
  | ok t => cases t.readPage e.disk id <;> rfl

/-- A resident page is found in its frame, and the clock notes it. -/
theorem fetch_of_resident (h : e.pool.Sound held) {c : Nat} (hc : e.pool.copyOf? id = some c) :
    ∃ i, e.pool.seat i = some ⟨id, c⟩ ∧ e.fetch id = (.ok c, e.withPool (e.pool.access i)) := by
  obtain ⟨i, hs⟩ := h.copyOf?_eq_some.1 hc
  refine ⟨i, hs, ?_⟩
  unfold Pool.seat at hs
  unfold fetch
  rw [(h.index id i).2 ⟨c, hs⟩]
  simp only [hs]

theorem fetch_of_absent (h : e.pool.Sound held) (hc : e.pool.copyOf? id = none) :
    e.pool.frameOf? id = none ∧ e.fetch id = e.load id := by
  have hf := h.frameOf?_isSome_iff.2 hc
  refine ⟨hf, ?_⟩
  unfold fetch
  rw [hf]

/-- How a page is found: it cannot be read, there is no room for it, it is resident, or it is
loaded. -/
theorem fetch_cases (h : e.Coherent held loose) (id : PageId) :
    ∃ r e', e.fetch id = (r, e') ∧ e'.disk = e.disk ∧ e'.Coherent held loose ∧ Unchanged held e e' ∧
      ((∃ err, e.pool.copyOf? id = none ∧ e.read id = .error err ∧ r = .error err ∧ e' = e) ∨
       (∃ p, e.pool.copyOf? id = none ∧ e.read id = .ok p ∧ e.pool.Full ∧ r = .error .poolFull) ∨
       (∃ c, e.pool.copyOf? id = some c ∧ e'.pool.copyOf? id = some c ∧ r = .ok c) ∨
       (∃ p c, e.pool.copyOf? id = none ∧ e.read id = .ok p ∧ ¬ e.pool.Full ∧
          e'.pool.copyOf? id = some c ∧ (∀ access, Compatible held c access) ∧ r = .ok c)) := by
  cases hc : e.pool.copyOf? id with
  | some c =>
    obtain ⟨i, hs, hfetch⟩ := fetch_of_resident h.pool hc
    refine ⟨_, _, hfetch, rfl, h.rebook (h.pool.access hs) rfl (fun _ => rfl) (fun _ _ _ => rfl) h.loose,
      e.unchanged_rebook rfl rfl (fun _ => rfl) (fun _ _ _ => rfl) (fun _ _ => rfl), ?_⟩
    exact .inr (.inr (.inl ⟨c, rfl, hc, rfl⟩))
  | none =>
    obtain ⟨hf, hfetch⟩ := fetch_of_absent h.pool hc
    rw [hfetch, load_eq]
    cases hr : e.read id with
    | error err =>
      exact ⟨_, _, rfl, rfl, h, .refl held e, .inl ⟨err, rfl, rfl, rfl, rfl⟩⟩
    | ok p =>
      simp only
      rcases h.pool.install_cases hf p with ⟨hfull, hi⟩ | ⟨hfull, q, gone, hi, hinst⟩
      · rw [hi]
        exact ⟨_, _, rfl, rfl, h, .refl held e, .inr (.inl ⟨p, trivial, rfl, hfull, rfl⟩)⟩
      · rw [hi]
        have hcoh := h.installed_coherent hinst hr
        have hun := h.installed_unchanged hinst hc hr
        refine ⟨_, _, rfl, rfl, hcoh, hun, ?_⟩
        exact .inr (.inr (.inr ⟨p, _, trivial, rfl, hfull, hinst.copyOf?_self, h.pool.compatible_size, rfl⟩))

/-! ### Checking out and giving back -/

theorem checkout_cases (h : e.Coherent held loose) {c : Nat} (hc : e.pool.copyOf? id = some c)
    (access : Access) :
    (¬ Compatible held c access ∧
      e.pool.checkout id c access = (.error (.aborted (.lockTimeout access id)), e.pool)) ∨
    (Compatible held c access ∧ ∃ q, e.pool.checkout id c access = (.ok ⟨c, access⟩, q) ∧
      (e.withPool q).Coherent (⟨c, access⟩ :: held) loose ∧ Unchanged held e (e.withPool q) ∧
      q.copyOf? id = some c) := by
  obtain ⟨k, hk⟩ := h.pool.exists_resident hc
  rcases h.pool.checkout_eq hk id access with ⟨hn, heq⟩ | ⟨hy, l, heq, hsound⟩
  · exact .inl ⟨hn, heq⟩
  · refine .inr ⟨hy, _, heq, ?_⟩
    have hpage (d : Nat) :
        (e.pool.copies.put c (some { k with lock := l, refs := k.refs + 1 })).page? d =
          e.pool.copies.page? d := Copies.page?_rebook hk l _ d
    exact ⟨h.rebook hsound rfl (fun _ => rfl) (fun _ d _ => hpage d)
        fun d hd => List.mem_cons_of_mem _ (h.loose d hd),
      e.unchanged_rebook rfl rfl (fun _ => rfl) (fun _ d _ => hpage d) (fun _ _ => hpage _), hc⟩

theorem getPage_cases (h : e.Coherent held loose) (id : PageId) (access : Access) :
    ∃ r e', e.getPage id access = (r, e') ∧ e'.disk = e.disk ∧ Unchanged held e e' ∧
      Got held loose e id access r e' := by
  obtain ⟨r, e1, hfetch, hd, h1, hun, hcases⟩ := h.fetch_cases id
  unfold getPage
  rw [hfetch]
  -- once a copy is at hand, only its lock decides
  have checkout : ∀ c, r = .ok c → e1.pool.copyOf? id = some c →
      (e.pool.copyOf? id = none → ¬ e.pool.Full) → (∀ c', e.pool.copyOf? id = some c' → c' = c) →
      (¬ Compatible held c access → e.pool.copyOf? id = some c) →
      ∃ r' e', ((e1.pool.checkout id c access).1, e1.withPool (e1.pool.checkout id c access).2) =
          (r', e') ∧ e'.disk = e.disk ∧ Unchanged held e e' ∧
        Got held loose e id access r' e' := by
    rintro c rfl hc hroom hsame hlocked
    rcases h1.checkout_cases hc access with ⟨hn, heq⟩ | ⟨hy, q, heq, hcoh, hun', hc'⟩
    · simp only [heq]
      exact ⟨_, _, rfl, hd, hun, .locked (hlocked hn) hn h1⟩
    · simp only [heq]
      obtain ⟨p, hp⟩ := hcoh.exists_page hc'
      exact ⟨_, _, rfl, hd, hun.trans hun', .out hroom hsame hy hcoh hc' hp⟩
  rcases hcases with ⟨err, hc, hr, rfl, rfl⟩ | ⟨p, hc, hr, hfull, rfl⟩ | ⟨c, hc, hc1, rfl⟩ |
    ⟨p, c, hc, hr, hfull, hc1, hcompat, rfl⟩
  · exact ⟨_, _, rfl, hd, hun, .unread hc hr h⟩
  · exact ⟨_, _, rfl, hd, hun, .full hc hr hfull h1⟩
  · refine checkout c rfl hc1 (fun hn => ?_) (fun c' hc' => ?_) fun _ => hc
    · rw [hc] at hn
      cases hn
    · rw [hc] at hc'
      exact (Option.some.inj hc').symm
  · refine checkout c rfl hc1 (fun _ => hfull) (fun c' hc' => ?_) fun hn => absurd (hcompat access) hn
    rw [hc] at hc'
    cases hc'

/-- Whoever may check a copy out finds no change that is still to be marked. -/
theorem not_loose (h : e.Coherent held loose) {c : Nat} (hc : Compatible held c access) :
    ¬ loose c := by
  intro hl
  have hpos := List.count_pos_iff.2 (h.loose c hl)
  have hw : Pool.writers held c = 0 := by
    cases access with
    | shared => exact hc
    | exclusive => exact hc.2
  unfold Pool.writers at hw
  omega

/-- A request fails and leaves nobody with more than before, or the page is checked out. -/
theorem getPage_or_fail (h : e.Coherent held loose) (id : PageId) (access : Access) :
    (∃ err e', e.getPage id access = (.error err, e') ∧ e'.disk = e.disk ∧ Unchanged held e e' ∧
      e'.Coherent held loose) ∨
    (∃ c p e', e.getPage id access = (.ok ⟨c, access⟩, e') ∧ e'.disk = e.disk ∧
      Unchanged held e e' ∧ e'.Coherent (⟨c, access⟩ :: held) loose ∧ ¬ loose c ∧
      e'.pool.copyOf? id = some c ∧ e'.pool.copies.page? c = some p) := by
  obtain ⟨r, e', hget, hd, hun, hgot⟩ := h.getPage_cases id access
  cases hgot with
  | unread _ _ hcoh => exact .inl ⟨_, _, hget, hd, hun, hcoh⟩
  | full _ _ _ hcoh => exact .inl ⟨_, _, hget, hd, hun, hcoh⟩
  | locked _ _ hcoh => exact .inl ⟨_, _, hget, hd, hun, hcoh⟩
  | @out c p _ _ _ hcompat hcoh hc hp =>
    exact .inr ⟨c, p, e', hget, hd, hun, hcoh, h.not_loose hcompat, hc, hp⟩

/-- Giving a checkout back changes no page. A page that was changed under it has to be marked before. -/
theorem release (h : e.Coherent (g :: held) loose) (hg : g.access = .exclusive → ¬ loose g.copy) :
    (e.release g).Coherent held loose ∧ Unchanged held e (e.release g) := by
  have hpage (id : PageId) (c : Nat) (hc : e.pool.copyOf? id = some c) :
      (e.pool.release g).copies.page? c = e.pool.copies.page? c :=
    h.pool.page?_release (.inl (h.pool.seated_iff.2 ⟨id, hc⟩))
  refine ⟨h.rebook h.pool.release rfl (fun _ => rfl) hpage fun c hc => ?_,
    e.unchanged_rebook rfl rfl (fun _ => rfl) hpage fun g' hg' =>
      h.pool.page?_release (.inr ⟨g', hg', rfl⟩)⟩
  rcases List.mem_cons.1 (h.loose c hc) with rfl | hmem
  · exact absurd hc (hg rfl)
  · exact hmem

/-! ### Changing a page -/

variable {c : Nat} {p' : Page}

theorem page?_setPage (hp : e.pool.copies.page? c = some p) (p' : Page) (d : Nat) :
    (e.setPage c p').pool.copies.page? d = if d = c then some p' else e.pool.copies.page? d := by
  obtain ⟨k, hk, -⟩ := Option.map_eq_some_iff.1 hp
  change ((e.pool.copies.setPage c p').get? d).map _ = _
  rw [Copies.get?_setPage_of_some hk]
  split <;> rfl

theorem edit_exclusive {α : Type} (hp : e.pool.copies.page? c = some p)
    (change : Page → Except Error α × Page) :
    e.edit ⟨c, .exclusive⟩ change = ((change p).1, e.setPage c (change p).2) := by
  unfold edit Pool.edit Copies.edit
  simp only [hp]
  rfl

theorem edit_shared {α : Type} (hp : e.pool.copies.page? c = some p)
    (change : Page → Except Error α × Page) :
    e.edit ⟨c, .shared⟩ change = (.error (.permissionDenied (.sharedCheckout p.id)), e) := by
  unfold edit Pool.edit Copies.edit
  simp only [hp]
  rfl

theorem setPage (h : e.Coherent held loose) (hp : e.pool.copies.page? c = some p)
    (hb : ∀ t id, e.pool.copyOf? id = some c → p.Backed t e.disk id (loose c) →
      p'.Backed t e.disk id (loose' c))
    (hl : ∀ d, d ≠ c → loose d → loose' d) (hheld : ∀ d, loose' d → ⟨d, .exclusive⟩ ∈ held) :
    (e.setPage c p').Coherent held loose' := by
  obtain ⟨k, hk, -⟩ := Option.map_eq_some_iff.1 hp
  refine ⟨h.pool.setPage hk p', h.own, h.stands, h.small, fun id' d q hd hq => ?_, hheld⟩
  have hd : e.pool.copyOf? id' = some d := hd
  rw [page?_setPage hp] at hq
  split at hq
  · next hdc =>
    cases hq
    subst hdc
    obtain ⟨t, ht, hback⟩ := h.backed id' d p hd hp
    exact ⟨t, ht, hb t id' hd hback⟩
  · next hdc =>
    obtain ⟨t, ht, hback⟩ := h.backed id' d q hd hq
    exact ⟨t, ht, hback.mono (hl d hdc)⟩

theorem changed_setPage (h : e.Coherent held loose) (hc : e.pool.copyOf? id = some c)
    (hp : e.pool.copies.page? c = some p) {rest : List Checkout} (hrest : ∀ g ∈ rest, g.copy ≠ c) :
    Changed rest id p' e (e.setPage c p') where
  tables := rfl
  numFrames := rfl
  kept _ _ _ hid := hid
  same g hg := by rw [page?_setPage hp, if_neg (hrest g hg)]
  grows _ _ _ := Nat.le_refl _
  now := logical_of_page? (e := e.setPage c p') hc (by rw [page?_setPage hp, if_pos rfl])
  others id' hne := by
    refine rel_of_eq (logical_congr (e := e) (f := e.setPage c p') rfl (fun d hd => ?_)
      (stored_congr rfl rfl)).symm
    have hdc : d ≠ c := fun hdc => hne (h.pool.copyOf?_inj hd (hdc ▸ hc))
    rw [page?_setPage hp, if_neg hdc]

/-- Writing a page over itself changes nothing. -/
theorem setPage_self (h : e.Coherent held loose) (hc : e.pool.copyOf? id = some c)
    (hp : e.pool.copies.page? c = some p) :
    (e.setPage c p).Coherent held loose ∧ Unchanged held e (e.setPage c p) := by
  have hch : Changed [] id p e (e.setPage c p) := h.changed_setPage hc hp fun _ hg => by cases hg
  refine ⟨h.setPage hp (fun _ _ _ hb => hb) (fun _ _ hd => hd) h.loose,
    ⟨rfl, rfl, fun _ _ _ hid => hid, fun g _ => ?_, fun _ _ _ => Nat.le_refl _⟩, fun id' => ?_⟩
  · rw [page?_setPage hp]
    split
    · next hg => rw [hg, hp]
    · rfl
  · by_cases hne : id' = id
    · rw [hne, hch.now, logical_of_page? hc hp]
      exact rel_refl _
    · exact hch.others id' hne

/-! ### Dropping a page -/

theorem discard_cases (h : e.Coherent held loose) (id : PageId) :
    (e.pool.copyOf? id = none ∧ e.discard id = (false, e)) ∨
    (∃ c e', e.pool.copyOf? id = some c ∧ e.discard id = (true, e') ∧ e'.disk = e.disk ∧
      e'.pool.tables = e.pool.tables ∧ e'.Coherent held loose ∧
      ∀ id', e'.pool.copyOf? id' = if id' = id then none else e.pool.copyOf? id') := by
  unfold discard
  rcases h.pool.discard_cases id with ⟨hc, heq⟩ | ⟨c, q, hc, heq, hsound, htables, hcopyOf, hpage⟩
  · rw [heq]
    exact .inl ⟨hc, rfl⟩
  · rw [heq]
    have htable? (k : Nat) : (e.withPool q).table? k = e.table? k := table?_congr htables k
    refine .inr ⟨c, e.withPool q, hc, rfl, rfl, htables, ⟨hsound,
      fun k t hk => h.own k t (by rwa [htable?] at hk),
      fun k t hk => h.stands k t (by rwa [htable?] at hk),
      fun k t hk => h.small k t (by rwa [htable?] at hk), fun id' d p' hd hp' => ?_, h.loose⟩, hcopyOf⟩
    have hd : q.copyOf? id' = some d := hd
    rw [hcopyOf] at hd
    split at hd
    · cases hd
    · next hne =>
      have hdc : d ≠ c := fun hdc => hne (h.pool.copyOf?_inj hd (hdc ▸ hc))
      obtain ⟨t, ht, hb⟩ := h.backed id' d p' hd ((hpage d hdc).symm.trans hp')
      exact ⟨t, by rw [htable?, ht], hb⟩

end Coherent

end Engine

end HeapStore
