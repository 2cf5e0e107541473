import HeapStore.Proofs.OneCopy
import HeapStore.Proofs.Twins

/-! What a request for a page comes to, in every state of a pool. A resident page is handed out as far
as the checkouts of its copy allow it. A page that is not resident is read from its table's file and
put into a frame; that fails where there is no such table or page, where its bytes do not decode, and
where every frame holds a page that is dirty or checked out. A request that fails leaves everything as
it was but for the clock, and for that, too, where the pool is full. -/

namespace HeapStore

/-! ### Bytes that do not decode -/

theorem Page.decodeSlots_eq_error {id : PageId} {s : Schema} {slot : Nat} {used : List Bool}
    {body : Bytes} {err : Error} (h : decodeSlots id s slot used body = .error err) :
    ∃ i cause, err = .pageCorrupted id (.slot i cause) := by
  induction used generalizing slot body with
  | nil => cases h
  | cons u used ih =>
    -- the slots that follow fail in the same way
    have next (o : Option Tuple) :
        (decodeSlots id s (slot + 1) used (body.drop s.tupleSize)).map (o :: ·) = .error err →
          ∃ i cause, err = .pageCorrupted id (.slot i cause) := by
      intro hmap
      cases hd : decodeSlots id s (slot + 1) used (body.drop s.tupleSize) with
      | ok slots => simp [hd, Except.map] at hmap
      | error e =>
        obtain rfl : e = err := by simpa [hd, Except.map] using hmap
        exact ih hd
    unfold decodeSlots at h
    split at h
    · split at h
      · cases h
        exact ⟨slot, _, rfl⟩
      · exact next _ h
    · exact next none h

/-- Reading a page of a table fails only by what is in its slots. -/
theorem Table.ofBytes_window_eq_error {t : Table} {d : Disk} {id : PageId} {err : Error}
    (h : Page.ofBytes id t.schema t.pageSize (t.window d id.page) = .error err) :
    ∃ i cause, err = .pageCorrupted id (.slot i cause) := by
  have hmake : Layout.make t.pageSize t.schema.tupleSize = .ok t.layout := by
    rw [← t.sized]
    exact t.layout.make_sizes
  unfold Page.ofBytes at h
  simp only [hmake, t.length_window, ne_eq, not_true_eq_false, if_false] at h
  split at h
  · next hd =>
    cases h
    exact Page.decodeSlots_eq_error hd
  · cases h

namespace Pool

/-! ### Pages that stay and pages that give way -/

namespace Installed

variable {p q : Pool} {held : List Checkout} {id id' : PageId} {page : Page} {gone : Option Resident}

theorem page?_id (h : Installed held p q id page gone) : q.page? id = some page := by
  rw [page?, h.copyOf?_self, Option.bind_some, h.page?_self]

theorem stays (h : Installed held p q id page gone) (hp : p.Sound held) (hne : id' ≠ id)
    (hgone : gone.map (·.page) ≠ some id') :
    q.copyOf? id' = p.copyOf? id' ∧ q.page? id' = p.page? id' := by
  have hcopy : q.copyOf? id' = p.copyOf? id' := by
    rw [h.copyOf?, if_neg hne, if_neg]
    cases gone with
    | none => simp
    | some r => simpa using hgone
  refine ⟨hcopy, ?_⟩
  unfold page?
  rw [hcopy]
  cases hc : p.copyOf? id' with
  | none => rfl
  | some c => exact (h.page?_of_copyOf? hp hne (hcopy.trans hc)).2

theorem gives_way (h : Installed held p q id page gone) (hid : p.copyOf? id = none)
    (hgone : gone.map (·.page) = some id') :
    id' ≠ id ∧ q.copyOf? id' = none ∧ ∃ c, p.copyOf? id' = some c ∧ p.Idle held c := by
  obtain ⟨r, rfl, rfl⟩ := Option.map_eq_some_iff.1 hgone
  obtain ⟨hc, hidle⟩ := h.idle r rfl
  have hne : r.page ≠ id := by
    intro he
    rw [he, hid] at hc
    cases hc
  refine ⟨hne, ?_, r.copy, hc, hidle⟩
  rw [h.copyOf?, if_neg hne, if_pos (by simp)]

end Installed

end Pool

namespace Engine

open Pool (Installed)

variable {e : Engine} {held : List Checkout} {id : PageId} {access : Access} {page : Page}

/-- The table's file has a page with this id, and its bytes decode to this page. -/
def InFile (e : Engine) (id : PageId) (page : Page) : Prop :=
  ∃ t, e.table? id.table = some t ∧ id.page < t.pageCount e.disk ∧
    Page.ofBytes id t.schema t.pageSize (t.window e.disk id.page) = .ok page

/-- Every frame holds a page that is dirty or checked out. -/
def Taken (e : Engine) (held : List Checkout) : Prop :=
  ∀ i < e.pool.numFrames, ∃ r, (e.pool.frame i).resident = some r ∧ ¬ e.Rests held r.page

/-- Every table is registered under its own id. -/
def Registered (e : Engine) : Prop := ∀ k t, e.table? k = some t → t.id = k

/-- What a request for a page comes to, with these checkouts out. A checkout counts for the page whose
resident copy it holds; one of a copy that was dropped from the pool counts for none. -/
structure Outcome (e : Engine) (held : List Checkout) (id : PageId) (access : Access)
    (res : Except Error Checkout × Engine) : Prop where
  /-- A resident page is checked out if those who have it admit that. -/
  resident : ∀ c, e.pool.copyOf? id = some c →
    (e.Admits held id access ↔ res.1 = .ok ⟨c, access⟩) ∧
    (¬ e.Admits held id access ↔ res.1 = .error (.aborted (.lockTimeout access id)))
  unregistered : e.pool.copyOf? id = none → e.table? id.table = none →
    res.1 = .error (.tableNotFound id.table)
  outside : e.pool.copyOf? id = none → ∀ t, e.table? id.table = some t →
    t.pageCount e.disk ≤ id.page → res.1 = .error (.invalidPage id (t.pageCount e.disk))
  corrupted : e.pool.copyOf? id = none → ∀ t, e.table? id.table = some t →
    id.page < t.pageCount e.disk → (∀ page, ¬ e.InFile id page) →
    ∃ cause, res.1 = .error (.pageCorrupted id cause)
  full : res.1 = .error .poolFull ↔
    e.pool.copyOf? id = none ∧ (∃ page, e.InFile id page) ∧ e.Taken held
  loaded : ∀ page, e.pool.copyOf? id = none → e.InFile id page → ¬ e.Taken held →
    (∃ c, res.1 = .ok ⟨c, access⟩) ∧ res.2.pool.page? id = some page
  /-- One clean page that nobody has checked out gives way if a page has to be loaded and no frame is
  free, and none otherwise. All others stay. -/
  evicts : ∀ g, res.1 = .ok g → ∃ gone : Option PageId,
    (gone.isSome ↔ e.pool.copyOf? id = none ∧ e.pool.free = []) ∧
    (∀ id', gone = some id' → id' ≠ id ∧ (e.pool.copyOf? id').isSome ∧ e.Rests held id' ∧
      res.2.pool.copyOf? id' = none) ∧
    ∀ id', id' ≠ id ∨ e.pool.copyOf? id ≠ none → gone ≠ some id' →
      res.2.pool.copyOf? id' = e.pool.copyOf? id' ∧ res.2.pool.page? id' = e.pool.page? id'
  disk : res.2.disk = e.disk
  /-- A request that fails leaves all but the clock as it was. -/
  failed : ∀ err, res.1 = .error err →
    ∃ clock, res.2 = e.withPool { e.pool with clock := clock }
  still : res.1 = .error .poolFull → res.2 = e

theorem Registered.of_tables {f : Engine} (h : e.Registered) (htables : f.pool.tables = e.pool.tables) :
    f.Registered := fun k t hk => h k t ((table?_congr htables k).symm.trans hk)

/-- How a page that is not resident is read. -/
theorem read_cases (h : e.Registered) (id : PageId) :
    (e.table? id.table = none ∧ e.read id = .error (.tableNotFound id.table)) ∨
    ∃ t, e.table? id.table = some t ∧
      ((t.pageCount e.disk ≤ id.page ∧ e.read id = .error (.invalidPage id (t.pageCount e.disk))) ∨
       (id.page < t.pageCount e.disk ∧ ∃ cause, e.read id = .error (.pageCorrupted id cause)) ∨
       ∃ page, e.InFile id page ∧ e.read id = .ok page) := by
  cases ht : e.table? id.table with
  | none =>
    refine .inl ⟨rfl, ?_⟩
    unfold read Pool.table
    unfold table? at ht
    rw [ht]
  | some t =>
    have hid : id = ⟨t.id, id.page⟩ := by rw [h _ t ht]
    have hread : e.read id = t.readPage e.disk id := read_of_table ht
    rw [hid, t.readPage_eq, ← hid] at hread
    refine .inr ⟨t, rfl, ?_⟩
    split at hread
    · next hin =>
      cases hof : Page.ofBytes id t.schema t.pageSize (t.window e.disk id.page) with
      | error err =>
        obtain ⟨i, cause, rfl⟩ := Table.ofBytes_window_eq_error hof
        exact .inr (.inl ⟨hin, _, hread.trans hof⟩)
      | ok page => exact .inr (.inr ⟨page, ⟨t, ht, hin, hof⟩, hread.trans hof⟩)
    · next hout => exact .inl ⟨Nat.le_of_not_lt hout, hread⟩

theorem read_eq_ok_iff (h : e.Registered) : e.read id = .ok page ↔ e.InFile id page := by
  have one {page page' : Page} (hin : e.InFile id page) (hin' : e.InFile id page') : page = page' := by
    obtain ⟨t, ht, -, hof⟩ := hin
    obtain ⟨t', ht', -, hof'⟩ := hin'
    rw [ht] at ht'
    cases ht'
    exact Except.ok.inj (hof.symm.trans hof')
  constructor
  · intro hread
    rcases read_cases h id with ⟨-, hr⟩ | ⟨t, -, ⟨-, hr⟩ | ⟨-, cause, hr⟩ | ⟨page', hin, hr⟩⟩
    all_goals rw [hr] at hread
    all_goals cases hread
    exact hin
  · intro hin
    rcases read_cases h id with ⟨hn, -⟩ | ⟨t, ht, ⟨hle, -⟩ | ⟨hlt, cause, hr⟩ | ⟨page', hin', hr⟩⟩
    · obtain ⟨t, ht, -⟩ := hin
      rw [hn] at ht
      cases ht
    · obtain ⟨t', ht', hlt, -⟩ := hin
      rw [ht] at ht'
      cases ht'
      omega
    · obtain ⟨t', ht', -, hof⟩ := hin
      have hid : id = ⟨t.id, id.page⟩ := by rw [h _ t ht]
      rw [ht] at ht'
      cases ht'
      rw [read_of_table ht, hid, t.readPage_eq, if_pos hlt, ← hid, hof] at hr
      cases hr
    · rw [hr, one hin' hin]

/-! ### Requests -/

theorem SameResidents.page?_pool {e' : Engine} (h : SameResidents e e') (id : PageId) :
    e'.pool.page? id = e.pool.page? id := by
  unfold Pool.page?
  rw [h.copyOf?]
  cases hc : e.pool.copyOf? id with
  | none => rfl
  | some c => exact h.page? id c hc

/-- A page that is not resident is read and put into a frame, where its lock is free. -/
theorem getPage_of_absent (h : e.pool.Sound held) (hc : e.pool.copyOf? id = none) (access : Access) :
    (∃ err, e.read id = .error err ∧ e.getPage id access = (.error err, e)) ∨
    (∃ page, e.read id = .ok page ∧ e.pool.Full ∧ e.getPage id access = (.error .poolFull, e)) ∨
    ∃ page q gone e', e.read id = .ok page ∧ ¬ e.pool.Full ∧ Installed held e.pool q id page gone ∧
      e.getPage id access = (.ok ⟨e.pool.copies.cells.size, access⟩, e') ∧ e'.disk = e.disk ∧
      SameResidents (e.withPool q) e' := by
  obtain ⟨hf, hfetch⟩ := Coherent.fetch_of_absent h hc
  rw [Coherent.load_eq] at hfetch
  cases hr : e.read id with
  | error err =>
    refine .inl ⟨err, rfl, ?_⟩
    unfold getPage
    rw [hfetch, hr]
  | ok page =>
    simp only [hr] at hfetch
    rcases h.install_cases hf page with ⟨hfull, hi⟩ | ⟨hfull, q, gone, hi, hinst⟩
    · refine .inr (.inl ⟨page, rfl, hfull, ?_⟩)
      unfold getPage
      rw [hfetch, hi]
      rfl
    · rw [hi] at hfetch
      rcases getPage_of_fetch hfetch hinst.sound hinst.copyOf?_self access with
        ⟨hn, -⟩ | ⟨-, e', heq, hd, -, hsame⟩
      · exact absurd (h.compatible_size access) hn
      · exact .inr (.inr ⟨page, q, gone, e', rfl, hfull, hinst, heq, hd, hsame⟩)

theorem outcome_of_resident (h : e.pool.Sound held) {c : Nat} (hc : e.pool.copyOf? id = some c)
    (access : Access) : Outcome e held id access (e.getPage id access) := by
  have hres : e.pool.copyOf? id ≠ none := by
    rw [hc]
    exact Option.some_ne_none c
  obtain ⟨i, hs, hfetch⟩ := Coherent.fetch_of_resident h hc
  have hadmits : e.Admits held id access ↔ Pool.Compatible held c access := admits_iff hc access
  rcases getPage_of_fetch hfetch (h.access hs) hc access with
    ⟨hn, heq⟩ | ⟨hy, e', heq, hd, -, hsame⟩
  · rw [heq]
    exact {
      resident := by
        intro c' _
        simp [hadmits, hn]
      unregistered := fun hnone => absurd hnone hres
      outside := fun hnone => absurd hnone hres
      corrupted := fun hnone => absurd hnone hres
      full := by simp [hres]
      loaded := fun _ hnone => absurd hnone hres
      evicts := fun g hg => by cases hg
      disk := rfl
      failed := fun _ _ => ⟨_, rfl⟩
      still := fun herr => by cases herr }
  · rw [heq]
    exact {
      resident := by
        intro c' hc'
        obtain rfl : c = c' := Option.some.inj (hc.symm.trans hc')
        simp [hadmits, hy]
      unregistered := fun hnone => absurd hnone hres
      outside := fun hnone => absurd hnone hres
      corrupted := fun hnone => absurd hnone hres
      full := by simp [hres]
      loaded := fun _ hnone => absurd hnone hres
      evicts := by
        intro g _
        refine ⟨none, by simp [hres], (by simp), fun id' _ _ => ?_⟩
        exact ⟨hsame.copyOf? id', hsame.page?_pool id'⟩
      disk := hd
      failed := fun _ herr => by cases herr
      still := fun herr => by cases herr }

/-- A page that cannot be read. -/
theorem outcome_of_unread (hreg : e.Registered) (hc : e.pool.copyOf? id = none) {err : Error}
    (hread : e.read id = .error err) (access : Access) :
    Outcome e held id access (.error err, e) := by
  have hfile (page : Page) : ¬ e.InFile id page := by
    rw [← read_eq_ok_iff hreg, hread]
    exact nofun
  have hcases := read_cases hreg id
  simp only [hread, Except.error.injEq, hfile, reduceCtorEq, false_and, exists_false, or_false] at hcases
  refine {
    resident := fun c hres => by rw [hc] at hres; cases hres
    unregistered := fun _ hnone => ?_
    outside := fun _ t ht hle => ?_
    corrupted := fun _ t ht hlt _ => ?_
    full := ⟨fun herr => ?_, fun ⟨_, ⟨page, hin⟩, _⟩ => absurd hin (hfile page)⟩
    loaded := fun page _ hin => absurd hin (hfile page)
    evicts := fun g hg => by cases hg
    disk := rfl
    failed := fun _ _ => ⟨e.pool.clock, rfl⟩
    still := fun _ => rfl }
  · rcases hcases with ⟨-, rfl⟩ | ⟨t, ht, -⟩
    · rfl
    · rw [hnone] at ht
      cases ht
  · rcases hcases with ⟨hnone, -⟩ | ⟨t', ht', ⟨-, rfl⟩ | ⟨hlt, -⟩⟩
    · rw [hnone] at ht
      cases ht
    · rw [ht] at ht'
      cases ht'
      rfl
    · rw [ht] at ht'
      cases ht'
      omega
  · rcases hcases with ⟨hnone, -⟩ | ⟨t', ht', ⟨hle, -⟩ | ⟨-, cause, rfl⟩⟩
    · rw [hnone] at ht
      cases ht
    · rw [ht] at ht'
      cases ht'
      omega
    · exact ⟨cause, rfl⟩
  · obtain rfl : err = .poolFull := by simpa using herr
    simp at hcases

theorem outcome_of_absent (h : e.pool.Sound held) (hreg : e.Registered)
    (hc : e.pool.copyOf? id = none) (access : Access) :
    Outcome e held id access (e.getPage id access) := by
  have notResident (c : Nat) : e.pool.copyOf? id ≠ some c := by
    rw [hc]
    exact nofun
  -- nothing but the room for the page is left to decide where it is in the file
  have inFile {page : Page} (hin : e.InFile id page) :
      e.table? id.table ≠ none ∧ ∀ t, e.table? id.table = some t → ¬ t.pageCount e.disk ≤ id.page := by
    obtain ⟨t, ht, hlt, -⟩ := hin
    refine ⟨by rw [ht]; exact nofun, fun t' ht' => ?_⟩
    rw [ht] at ht'
    cases ht'
    omega
  rcases getPage_of_absent h hc access with ⟨err, hread, heq⟩ | ⟨page, hread, hfull, heq⟩ |
    ⟨page, q, gone, e', hread, hfull, hinst, heq, hd, hsame⟩
  · rw [heq]
    exact outcome_of_unread hreg hc hread access
  · have hin := (read_eq_ok_iff hreg).1 hread
    rw [full_iff_rests h] at hfull
    rw [heq]
    exact {
      resident := fun c hres => absurd hres (notResident c)
      unregistered := fun _ hnone => absurd hnone (inFile hin).1
      outside := fun _ t ht hle => absurd hle ((inFile hin).2 t ht)
      corrupted := fun _ _ _ _ hnot => absurd hin (hnot page)
      full := ⟨fun _ => ⟨hc, ⟨page, hin⟩, hfull⟩, fun _ => rfl⟩
      loaded := fun _ _ _ hroom => absurd hfull hroom
      evicts := fun g hg => by cases hg
      disk := rfl
      failed := fun _ _ => ⟨e.pool.clock, rfl⟩
      still := fun _ => rfl }
  · have hin := (read_eq_ok_iff hreg).1 hread
    rw [full_iff_rests h] at hfull
    rw [heq]
    exact {
      resident := fun c hres => absurd hres (notResident c)
      unregistered := fun _ hnone => absurd hnone (inFile hin).1
      outside := fun _ t ht hle => absurd hle ((inFile hin).2 t ht)
      corrupted := fun _ _ _ _ hnot => absurd hin (hnot page)
      full := ⟨nofun, fun ⟨_, _, htaken⟩ => absurd htaken hfull⟩
      loaded := by
        intro page' _ hin' _
        obtain rfl : page = page' := by
          rw [← read_eq_ok_iff hreg, hread] at hin'
          exact Except.ok.inj hin'
        exact ⟨⟨_, rfl⟩, (hsame.page?_pool id).trans hinst.page?_id⟩
      evicts := by
        intro g _
        refine ⟨gone.map (·.page), ?_, fun id' hgone => ?_, fun id' hne hgone => ?_⟩
        · rw [Option.isSome_map, Option.isSome_iff_ne_none, ne_eq, hinst.room]
          simp [hc]
        · obtain ⟨hne, hnone, c, hc', hidle⟩ := hinst.gives_way hc hgone
          exact ⟨hne, by rw [hc']; rfl, (rests_iff_idle h hc').2 hidle, (hsame.copyOf? id').trans hnone⟩
        · have hne : id' ≠ id := hne.resolve_right fun hres => hres hc
          obtain ⟨hcopy, hpage⟩ := hinst.stays h hne hgone
          exact ⟨(hsame.copyOf? id').trans hcopy, (hsame.page?_pool id').trans hpage⟩
      disk := hd
      failed := fun _ herr => by cases herr
      still := fun herr => by cases herr }

theorem getPage_outcome (h : e.pool.Sound held) (hreg : e.Registered) (id : PageId) (access : Access) :
    Outcome e held id access (e.getPage id access) := by
  cases hc : e.pool.copyOf? id with
  | some c => exact outcome_of_resident h hc access
  | none => exact outcome_of_absent h hreg hc access

end Engine

/-- Where no page was dropped while it was out, a page has as many holders as were given its id. -/
theorem Holdings.Sound.holders_eq {h : Holdings} (hs : h.Sound) (id : PageId) (access : Access) :
    h.session.engine.holders h.session.held id access =
      h.out.countP fun o => o.2.access = access ∧ o.1 = id := by
  unfold Engine.holders
  rw [← map_snd_out hs.length, List.countP_map]
  apply List.countP_congr
  intro o ho
  have hres := hs.resident o ho
  simp only [Function.comp_apply, decide_eq_true_eq, and_congr_right_iff]
  intro _
  constructor
  · intro hc
    exact hs.pool.copyOf?_inj hres hc
  · rintro rfl
    exact hres

namespace Session

variable {s : Session}

theorem happen_registered (h : s.engine.pool.Sound s.held) (hreg : s.engine.Registered) (e : Event) :
    (s.happen e).engine.Registered := by
  cases e with
  | call a => exact hreg.of_tables (tables_step h a)
  | register t =>
    intro k u hk
    have hk : (s.engine.pool.register t).tables.lookup k = some u := hk
    rw [lookup_register] at hk
    split at hk
    · next hkt =>
      cases hk
      exact hkt.symm
    · exact hreg k u hk
  | files d => exact hreg

theorem afterEvents_registered (h : s.engine.pool.Sound s.held) (hreg : s.engine.Registered)
    (es : List Event) : (s.afterEvents es).engine.Registered := by
  induction es generalizing s with
  | nil => exact hreg
  | cons e es ih => exact ih (happen_sound h e).1 (happen_registered h hreg e)

theorem registered_of_new (d : Disk) (n : Nat) (es : List Event) :
    ((start d n []).afterEvents es).engine.Registered := by
  apply afterEvents_registered (sound_ofTables n [])
  intro k t hk
  exact (lookup_ofTables (n := n) hk).2

/-- The outcome of a request for a page, exactly, in every state that a new pool can be brought into. -/
theorem checkout_outcome (d : Disk) (n : Nat) (es : List Event) (id : PageId) (access : Access) :
    Engine.Outcome ((start d n []).afterEvents es).engine ((start d n []).afterEvents es).held id access
      (((start d n []).afterEvents es).engine.getPage id access) :=
  Engine.getPage_outcome (sound_of_new d n es) (registered_of_new d n es) id access

/-- The one frame holds a dirty page, so the other page of the table cannot be loaded until that one
is written back. -/
example :
    let s := (start tinyDisk 1 []).afterEvents [.register tinyTable,
      .call (.insert tinyTable.id ⟨1⟩ (tinyTuple 7 none)),
      .call (.insert tinyTable.id ⟨1⟩ (tinyTuple 8 none)), .call .flushAll,
      .call (.insert tinyTable.id ⟨1⟩ (tinyTuple 9 none))]
    s.engine.getPage (tinyPage 0) .shared = (.error .poolFull, s.engine) ∧
      ((s.happen (.call .flushAll)).engine.getPage (tinyPage 0) .shared).1.isOk = true := by
  decide +kernel

end Session

end HeapStore
