import HeapStore.Proofs.PinnedPages

/-! Checkouts outlive the call that made them. However many are out, those of a page share the copy that
is resident under its id, and either all of them read or there is one alone, which writes. So what is
read stays as it is while it is read, and what was written and marked is seen by whoever asks next. -/

namespace HeapStore

/-- A session, and for each guard in hand the page that was asked for. -/
structure Holdings where
  session : Session
  asked : List PageId
  deriving DecidableEq, Repr

namespace Holdings

def start (d : Disk) (n : Nat) (ts : List Table) : Holdings := ⟨.start d n ts, []⟩

def step (h : Holdings) (a : Action) : Holdings where
  session := (h.session.step a).2
  asked :=
    match a, (h.session.step a).1 with
    | .get id _, .ok _ => id :: h.asked
    | .release i, _ => h.asked.eraseIdx i
    | _, _ => h.asked

def after (h : Holdings) (as : List Action) : Holdings := as.foldl step h

/-- The checkouts that are out, each with its page: those in hand, and those of the scans. -/
def out (h : Holdings) : List (PageId × Checkout) :=
  h.asked.zip (h.session.guards.map (·.checkout)) ++ h.session.scans.flatMap (·.pin?.toList)

/-- No page is dropped that somebody has checked out. -/
def Spares (h : Holdings) (a : Action) : Prop := ∀ o ∈ h.out, a ≠ .discard o.1

/-- None of these actions drops a page that somebody has checked out. -/
def SparesAlong (h : Holdings) : List Action → Prop
  | [] => True
  | a :: as => h.Spares a ∧ (h.step a).SparesAlong as

instance (h : Holdings) (a : Action) : Decidable (h.Spares a) :=
  inferInstanceAs (Decidable (∀ o ∈ h.out, a ≠ .discard o.1))

instance decidableSparesAlong (h : Holdings) : (as : List Action) → Decidable (h.SparesAlong as)
  | [] => isTrue trivial
  | a :: as =>
    have : Decidable ((h.step a).SparesAlong as) := decidableSparesAlong _ as
    inferInstanceAs (Decidable (h.Spares a ∧ _))

structure Sound (h : Holdings) : Prop where
  pool : h.session.engine.pool.Sound h.session.held
  length : h.asked.length = h.session.guards.length
  /-- Every checkout is one of the copy that is resident. -/
  resident : ∀ o ∈ h.out, h.session.engine.pool.copyOf? o.1 = some o.2.copy

variable {h : Holdings} {a : Action} {o : PageId × Checkout}

theorem session_after (h : Holdings) (as : List Action) : (h.after as).session = h.session.after as := by
  unfold after
  induction as generalizing h with
  | nil => rfl
  | cons a as ih => exact ih (h.step a)

/-! ### What is out after an action -/

theorem mem_zip_of_eraseIdx {α β : Type} {l : List α} {l' : List β} {i : Nat} {x : α × β}
    (hx : x ∈ (l.eraseIdx i).zip (l'.eraseIdx i)) : x ∈ l.zip l' := by
  obtain ⟨j, hj⟩ := List.mem_iff_getElem?.1 hx
  obtain ⟨h1, h2⟩ := List.getElem?_zip_eq_some.1 hj
  rw [List.getElem?_eraseIdx] at h1 h2
  by_cases hlt : j < i
  · rw [if_pos hlt] at h1 h2
    exact List.mem_iff_getElem?.2 ⟨j, List.getElem?_zip_eq_some.2 ⟨h1, h2⟩⟩
  · rw [if_neg hlt] at h1 h2
    exact List.mem_iff_getElem?.2 ⟨j + 1, List.getElem?_zip_eq_some.2 ⟨h1, h2⟩⟩

theorem map_snd_out (hl : h.asked.length = h.session.guards.length) :
    h.out.map (·.2) = h.session.held := by
  unfold out Session.held
  rw [List.map_append, List.map_flatMap]
  congr 1
  · exact List.map_snd_zip (by simp [hl])
  · exact congrArg (List.flatMap · _) (funext Scan.map_snd_pin?)

theorem mem_held (hl : h.asked.length = h.session.guards.length) (ho : o ∈ h.out) :
    o.2 ∈ h.session.held := by
  rw [← map_snd_out hl]
  exact List.mem_map_of_mem ho

theorem guards_change (s : Session) (i : Nat) (unmarked : Bool)
    (f : Page → Except Error Answer × Page) :
    (s.change i unmarked f).2.guards.map (·.checkout) = s.guards.map (·.checkout) ∧
      (s.change i unmarked f).2.scans = s.scans := by
  unfold Session.change
  cases hg : s.guards[i]? with
  | none => exact ⟨rfl, rfl⟩
  | some g =>
    simp only
    split
    · exact ⟨rfl, rfl⟩
    · exact ⟨Session.checkouts_set hg, rfl⟩

/-- What is out after an action: where nothing is done, what was out before; else what the action keeps,
and pages that it has just checked out. -/
def Follows (h : Holdings) (a : Action) : Prop :=
  (h.step a).asked.length = (h.step a).session.guards.length ∧
    ∀ o ∈ (h.step a).out,
      (o ∈ h.out → o.2 ∈ h.session.kept a ∨ (h.step a).session.engine = h.session.engine) ∧
        (o ∉ h.out → (h.step a).session.engine.pool.copyOf? o.1 = some o.2.copy)

/-- The same checkouts are out as before. -/
theorem Sound.follows_of_same (hs : h.Sound) (hkept : h.session.kept a = h.session.held)
    (hasked : (h.step a).asked = h.asked)
    (hguards : (h.session.step a).2.guards.map (·.checkout) = h.session.guards.map (·.checkout))
    (hscans : (h.session.step a).2.scans.flatMap (·.pin?.toList) =
      h.session.scans.flatMap (·.pin?.toList)) : h.Follows a := by
  have hout : (h.step a).out = h.out := by
    unfold out
    rw [hasked, ← hscans, ← hguards]
    rfl
  have hlength : (h.session.step a).2.guards.length = h.session.guards.length := by
    simpa using congrArg List.length hguards
  refine ⟨by rw [hasked, hs.length]; exact hlength.symm, fun o ho => ?_⟩
  rw [hout] at ho
  exact ⟨fun _ => .inl (by rw [hkept]; exact mem_held hs.length ho), fun hn => absurd ho hn⟩

theorem Sound.follows_get (hs : h.Sound) (id : PageId) (access : Access) :
    h.Follows (.get id access) := by
  cases hget : h.session.engine.getPage id access with
  | mk r e =>
    cases r with
    | error err =>
      have hstep : h.session.step (.get id access) = (.error err, { h.session with engine := e }) := by
        simp only [Session.step, hget]
      have hasked : (h.step (.get id access)).asked = h.asked := by
        unfold step
        rw [hstep]
      exact hs.follows_of_same rfl hasked (by rw [hstep]) (by rw [hstep])
    | ok g =>
      have hstep : h.step (.get id access) =
          ⟨{ h.session with engine := e, guards := ⟨g, false⟩ :: h.session.guards }, id :: h.asked⟩ := by
        unfold step
        simp only [Session.step, hget]
      unfold Follows
      rw [hstep]
      refine ⟨by simp [hs.length], fun o ho => ⟨fun hmem => .inl (mem_held hs.length hmem), fun hn => ?_⟩⟩
      have ho : o ∈ (id, g) :: h.out := ho
      obtain rfl := (List.mem_cons.1 ho).resolve_right hn
      exact Engine.copyOf?_getPage hs.pool hget

theorem Sound.follows_release (hs : h.Sound) (i : Nat) : h.Follows (.release i) := by
  cases hg : h.session.guards[i]? with
  | none =>
    have hi := List.getElem?_eq_none_iff.1 hg
    have hstep : h.session.step (.release i) = (.ok .absent, h.session) := by
      simp only [Session.step, hg]
    refine hs.follows_of_same ?_ (List.eraseIdx_of_length_le (by rw [hs.length]; exact hi))
      (by rw [hstep]) (by rw [hstep])
    simp only [Session.kept, Session.held, List.eraseIdx_of_length_le hi]
  | some g =>
    obtain ⟨hi, -⟩ := List.getElem?_eq_some_iff.1 hg
    have hstep : h.step (.release i) = ⟨{ h.session with
        engine := h.session.engine.release g.checkout
        guards := h.session.guards.eraseIdx i }, h.asked.eraseIdx i⟩ := by
      unfold step
      simp only [Session.step, hg]
    have hlength : (h.step (.release i)).asked.length = (h.step (.release i)).session.guards.length := by
      rw [hstep]
      simp [List.length_eraseIdx, hs.length]
    refine ⟨hlength, fun o ho => ⟨fun _ => .inl ?_, fun hn => absurd ?_ hn⟩⟩
    · have hheld := mem_held hlength ho
      rw [hstep] at hheld
      exact hheld
    · rw [hstep] at ho
      unfold out at ho ⊢
      rw [← List.eraseIdx_map] at ho
      exact List.mem_append.2 ((List.mem_append.1 ho).imp_left mem_zip_of_eraseIdx)

/-- What is out besides the page of a scan. -/
def others (h : Holdings) (i : Nat) : List (PageId × Checkout) :=
  h.asked.zip (h.session.guards.map (·.checkout)) ++
    (h.session.scans.eraseIdx i).flatMap (·.pin?.toList)

theorem mem_out_iff {i : Nat} {sc : Scan} (hsc : h.session.scans[i]? = some sc) :
    o ∈ h.out ↔ sc.pin? = some o ∨ o ∈ h.others i := by
  have hperm := (Session.perm_eraseIdx hsc).flatMap_right (·.pin?.toList)
  rw [List.flatMap_cons] at hperm
  unfold out others
  rw [List.mem_append, hperm.mem_iff, List.mem_append, Option.mem_toList, List.mem_append]
  exact or_left_comm

theorem mem_out_setScan {i : Nat} (hi : i < h.session.scans.length) (e : Engine) (sc : Scan) :
    o ∈ out ⟨{ h.session with engine := e, scans := h.session.scans.set i sc }, h.asked⟩ ↔
      sc.pin? = some o ∨ o ∈ h.others i := by
  have hperm := (List.set_perm_cons_eraseIdx hi sc).flatMap_right (·.pin?.toList)
  rw [List.flatMap_cons] at hperm
  unfold out others
  rw [List.mem_append, hperm.mem_iff, List.mem_append, Option.mem_toList, List.mem_append]
  exact or_left_comm

theorem kept_of_others {i : Nat} {call : ScanCall} (ho : o ∈ h.others i) :
    o.2 ∈ h.session.kept (.scan i call) := by
  refine List.mem_append.2 ((List.mem_append.1 ho).imp (fun ho => (List.of_mem_zip ho).2) fun ho => ?_)
  obtain ⟨sc, hmem, ho⟩ := List.mem_flatMap.1 ho
  refine List.mem_flatMap.2 ⟨sc, hmem, ?_⟩
  rw [← Scan.map_snd_pin?]
  exact List.mem_map_of_mem ho

theorem Sound.follows_scan (hs : h.Sound) (i : Nat) (call : ScanCall) : h.Follows (.scan i call) := by
  cases hsc : h.session.scans[i]? with
  | none =>
    have hi := List.getElem?_eq_none_iff.1 hsc
    have hstep : h.session.step (.scan i call) = (.ok .absent, h.session) := by
      simp only [Session.step, hsc]
    refine hs.follows_of_same ?_ rfl (by rw [hstep]) (by rw [hstep])
    simp only [Session.kept, Session.held, List.eraseIdx_of_length_le hi]
  | some sc =>
    obtain ⟨hi, -⟩ := List.getElem?_eq_some_iff.1 hsc
    have hsound := hs.pool.perm (Session.held_perm_scan hsc)
    have hstep : h.step (.scan i call) = ⟨{ h.session with
        engine := (sc.call h.session.engine call).2.2
        scans := h.session.scans.set i (sc.call h.session.engine call).2.1 }, h.asked⟩ := by
      unfold step
      simp only [Session.step, hsc]
    unfold Follows
    rw [hstep]
    refine ⟨hs.length, fun o ho => ?_⟩
    rw [mem_out_iff hsc]
    rcases (mem_out_setScan hi _ _).1 ho with hpin | hrest
    · rcases Scan.call_pin hsound call hpin with ⟨hsame, heng⟩ | ⟨hne, hc⟩
      · exact ⟨fun _ => .inr heng, fun hn => absurd (.inl hsame) hn⟩
      · exact ⟨fun hmem => .inl (kept_of_others (hmem.resolve_left hne)), fun _ => hc⟩
    · exact ⟨fun _ => .inl (kept_of_others hrest), fun hn => absurd (.inr hrest) hn⟩

theorem Sound.follows (hs : h.Sound) (a : Action) : h.Follows a := by
  cases a with
  | get id access => exact hs.follows_get id access
  | release i => exact hs.follows_release i
  | scan i call => exact hs.follows_scan i call
  | pageInsert i t | pageDelete i t | mark i t =>
    obtain ⟨hguards, hscans⟩ := guards_change h.session i _ _
    exact hs.follows_of_same rfl rfl hguards (congrArg _ hscans)
  | newScan table =>
    refine hs.follows_of_same rfl rfl ?_ ?_
    · simp only [Session.step]
      split <;> rfl
    · simp only [Session.step]
      split
      · rfl
      · simp [Scan.pin?, Scan.ofTable]
  | deleteFrom table txn t =>
    refine hs.follows_of_same rfl rfl ?_ ?_
    · simp only [Session.step]
      split <;> rfl
    · simp only [Session.step]
      split <;> rfl
  | _ => exact hs.follows_of_same rfl rfl rfl rfl

/-! ### Every run -/

/-- No move of the action drops a page that is out. -/
theorem Spares.not_discard (hsp : h.Spares a) (ho : o ∈ h.out) {ms : List Engine.Move}
    (hms : ∀ m ∈ ms, h.session.Allows a m) : .discard o.1 ∉ ms :=
  fun hmem => hsp o ho (hms _ hmem).discard

theorem Sound.step (hs : h.Sound) (hsp : h.Spares a) : (h.step a).Sound := by
  obtain ⟨own, own', ms, ht⟩ := Session.step_traced hs.pool a
  have hpool := hs.pool.perm ht.before
  obtain ⟨hlength, hout⟩ := hs.follows a
  refine ⟨(ht.trace.sound hpool).perm ht.after.symm, hlength, fun o ho => ?_⟩
  by_cases hmem : o ∈ h.out
  · have hc := hs.resident o hmem
    rcases (hout o ho).1 hmem with hkept | heng
    · exact ht.trace.copyOf?_of_held hpool hkept hc (hsp.not_discard hmem ht.script.allowed)
    · rwa [heng]
  · exact (hout o ho).2 hmem

theorem start_sound (d : Disk) (n : Nat) (ts : List Table) : (start d n ts).Sound :=
  ⟨Session.sound_ofTables n ts, rfl, fun o ho => by cases ho⟩

/-- While a page is out for reading, before an action and after it, it stays as it is. -/
theorem Sound.page?_step (hs : h.Sound) (hsp : h.Spares a) {id : PageId} {c : Nat}
    (ho : (id, ⟨c, .shared⟩) ∈ h.out) (ho' : (id, ⟨c, .shared⟩) ∈ (h.step a).out) :
    (h.step a).session.engine.pool.page? id = h.session.engine.pool.page? id := by
  obtain ⟨own, own', ms, ht⟩ := Session.step_traced hs.pool a
  rcases ((hs.follows a).2 _ ho').1 ho with hkept | heng
  · exact ht.trace.page?_of_reader (hs.pool.perm ht.before) hkept (hs.resident _ ho)
      (hsp.not_discard ho ht.script.allowed)
  · rw [heng]

/-- Whoever has a page that is out for writing has it as the writer. -/
theorem Sound.eq_of_writer (hs : h.Sound) {id : PageId} {c : Nat}
    (hw : (id, ⟨c, .exclusive⟩) ∈ h.out) :
    ∀ o ∈ h.out.filter (·.1 = id), o = (id, ⟨c, .exclusive⟩) := by
  rintro ⟨id', ⟨d, access⟩⟩ hmem
  obtain ⟨hout, hid⟩ := List.mem_filter.1 hmem
  obtain rfl : id' = id := of_decide_eq_true hid
  obtain rfl : c = d := Option.some.inj ((hs.resident _ hw).symm.trans (hs.resident _ hout))
  cases access with
  | exclusive => rfl
  | shared =>
    have hr : (⟨c, .shared⟩ : Checkout) ∈ h.session.held := mem_held hs.length hout
    exact absurd (mem_held hs.length hw) (Engine.not_writer_of_reader hs.pool hr)

/-- A page that is out for writing is out once. -/
theorem Sound.filter_of_writer (hs : h.Sound) {id : PageId} {c : Nat}
    (hw : (id, ⟨c, .exclusive⟩) ∈ h.out) :
    h.out.filter (·.1 = id) = [(id, ⟨c, .exclusive⟩)] := by
  have hrep := List.eq_replicate_of_mem (hs.eq_of_writer hw)
  have hone : (h.out.filter (·.1 = id)).length ≤ 1 := by
    have hsub : ((h.out.filter (·.1 = id)).map (·.2)).Sublist h.session.held := by
      rw [← map_snd_out hs.length]
      exact List.filter_sublist.map _
    have hcount := hsub.count_le ⟨c, .exclusive⟩
    rw [hrep, List.map_replicate, List.count_replicate_self] at hcount
    exact Nat.le_trans hcount (Engine.writers_le_one hs.pool c)
  have hpos : 0 < (h.out.filter (·.1 = id)).length :=
    List.length_pos_of_mem (List.mem_filter.2 ⟨hw, decide_eq_true rfl⟩)
  rw [hrep, show (h.out.filter (·.1 = id)).length = 1 by omega]
  rfl

/-- The checkouts of a page all read, or there is one alone, which writes. -/
theorem Sound.readers_or_writer (hs : h.Sound) (id : PageId) :
    (∀ g, (id, g) ∈ h.out → g.access = .shared) ∨
      ∃ c, h.out.filter (·.1 = id) = [(id, ⟨c, .exclusive⟩)] := by
  by_cases hall : ∀ g, (id, g) ∈ h.out → g.access = .shared
  · exact .inl hall
  · obtain ⟨⟨c, access⟩, hg⟩ := not_forall.1 hall
    obtain ⟨ho, hx⟩ := Classical.not_imp.1 hg
    cases access with
    | shared => exact absurd rfl hx
    | exclusive => exact .inr ⟨c, hs.filter_of_writer ho⟩

/-- A checkout for reading does not let anyone change the page. -/
theorem Sound.edit_shared (hs : h.Sound) {id : PageId} {g : Checkout} (ho : (id, g) ∈ h.out)
    (hx : g.access = .shared) {α : Type} (f : Page → Except Error α × Page) :
    ∃ p, h.session.engine.pageAt? g = some p ∧ h.session.engine.edit g f =
      (.error (.permissionDenied (.sharedCheckout p.id)), h.session.engine) := by
  obtain ⟨c, access⟩ := g
  subst hx
  obtain ⟨p, hp⟩ := Engine.exists_page_of_sound hs.pool (hs.resident _ ho)
  exact ⟨p, hp, Engine.Coherent.edit_shared hp f⟩

/-- What every state of a run has. -/
structure OneCopy (h : Holdings) : Prop where
  /-- Whoever has a page has the copy that is resident under its id. -/
  resident : ∀ id g, (id, g) ∈ h.out → h.session.engine.pool.copyOf? id = some g.copy
  /-- There are readers, any number of them, or one writer. -/
  guards : ∀ id, (∀ g, (id, g) ∈ h.out → g.access = .shared) ∨
    ∃ c, h.out.filter (·.1 = id) = [(id, ⟨c, .exclusive⟩)]
  /-- The page of a reader stays as it is, with its mark and its stored bytes. -/
  unchanged : ∀ a, h.Spares a → ∀ id c, (id, ⟨c, .shared⟩) ∈ h.out →
    (id, ⟨c, .shared⟩) ∈ (h.step a).out →
    (h.step a).session.engine.pool.page? id = h.session.engine.pool.page? id
  /-- A reader is refused every change. -/
  refused : ∀ id g, (id, g) ∈ h.out → g.access = .shared →
    ∀ {α : Type} (f : Page → Except Error α × Page), ∃ p, h.session.engine.pageAt? g = some p ∧
      h.session.engine.edit g f =
        (.error (.permissionDenied (.sharedCheckout p.id)), h.session.engine)

theorem Sound.oneCopy (hs : h.Sound) : h.OneCopy where
  resident _ _ ho := hs.resident _ ho
  guards := hs.readers_or_writer
  unchanged _ hsp _ _ ho ho' := hs.page?_step hsp ho ho'
  refused _ _ ho hx _ f := hs.edit_shared ho hx f

/-- What a page holds that was changed under a checkout and is dirty is seen by everyone who asks for
it after these actions. -/
def SeenAfter (h : Holdings) (as : List Action) : Prop :=
  ∀ id g p, (id, g) ∈ h.out → h.session.engine.pageAt? g = some p → p.dirtiedBy ≠ none →
    h.session.Along (fun s a => s.altered a ≠ some id) as →
    ∀ access g' e', (h.session.after as).engine.getPage id access = (.ok g', e') →
      ∃ q, e'.pageAt? g' = some q ∧ q.SameRows p

theorem SeenAfter.getPage {as : List Action} (hseen : h.SeenAfter as) {id : PageId} {g g' : Checkout}
    {p : Page} {access : Access} (hout : (id, g) ∈ h.out)
    (hp : h.session.engine.pageAt? g = some p) (hd : p.dirtiedBy ≠ none)
    (halong : h.session.Along (fun s a => s.altered a ≠ some id) as)
    (hget : ((h.session.after as).engine.getPage id access).1 = .ok g') :
    ∃ q, ((h.session.after as).engine.getPage id access).2.pageAt? g' = some q ∧ q.SameRows p :=
  hseen id g p hout hp hd halong access g' _ (Prod.ext hget rfl)

theorem Sound.seenAfter (hs : h.Sound) (ho : h.session.engine.Orderly h.session.held)
    {as : List Action} (has : ∀ a ∈ as, h.session.AdoptsHoused a) : h.SeenAfter as := by
  intro id g p hg hp hd halong access g' e' hget
  have hres : h.session.engine.pool.page? id = some p :=
    (Engine.page?_of_copyOf? (hs.resident _ hg)).trans hp
  have hshows : h.session.engine.Shows id p := .inl ⟨p, hres, .refl p, .inl hd⟩
  obtain ⟨ho', hshows'⟩ := Session.shows_run ho has halong hshows
  have hmove : Engine.Moves (h.session.after as).held [] (h.session.after as).engine (.get id)
      [g'] e' := .got hget
  have h0 : (h.session.after as).engine.Orderly ([] ++ (h.session.after as).held) := ho'
  have hc := Engine.copyOf?_getPage ho'.pool hget
  obtain ⟨q, hq⟩ := Engine.exists_page_of_sound (h0.moves hmove trivial).pool hc
  exact ⟨q, hq, (h0.shows_moves hmove trivial trivial hshows').sameRows
    ((Engine.page?_of_copyOf? hc).trans hq)⟩

theorem Sound.run (hs : h.Sound) {as : List Action} (has : h.SparesAlong as) : (h.after as).Sound := by
  induction as generalizing h with
  | nil => exact hs
  | cons a as ih => exact ih (hs.step has.1) has.2

/-- In every run in which no page is dropped that is out, all who have a page have the one copy of it
that is resident, as readers or as the only writer; nothing changes what is read, and a reader cannot
change it. Where the pages that are taken in belong where they come, what was changed and marked under
a checkout is seen by whoever asks later, until the page is changed, dropped or replaced. -/
theorem one_copy (d : Disk) (n : Nat) (ts : List Table) {as : List Action}
    (has : (start d n ts).SparesAlong as) : ((start d n ts).after as).OneCopy ∧
      ((∀ t ∈ ts, t.Stands d) → ∀ bs, (∀ a ∈ as ++ bs, (Session.start d n ts).AdoptsHoused a) →
        ((start d n ts).after as).SeenAfter bs) := by
  have hs := (start_sound d n ts).run has
  refine ⟨hs.oneCopy, fun hts bs hbs => ?_⟩
  obtain ⟨ho, htables⟩ := Session.orderly_run (Session.start_orderly n hts) fun a ha =>
    hbs a (List.mem_append_left bs ha)
  have hsession : ((start d n ts).after as).session = (Session.start d n ts).after as :=
    session_after _ as
  refine hs.seenAfter (by rw [hsession]; exact ho) fun a ha id page hadopt => ?_
  rw [hsession]
  exact (Engine.housed_congr htables).2 (hbs a (List.mem_append_right as ha) id page hadopt)

/-- A tuple is stored, and then another one under a checkout. -/
def guardRun : List Action :=
  [.insert tinyTable.id ⟨1⟩ (tinyTuple 7 none), .discard (tinyPage 1), .get (tinyPage 0) .exclusive,
    .pageInsert 0 (tinyTuple 8 none), .mark 0 ⟨2⟩]

/-- The page is written, and makes room for another one. -/
def evictRun : List Action :=
  [.release 0, .flushPage (tinyPage 0), .adopt (tinyPage 5) (tinyEmpty 5), .get (tinyPage 5) .shared,
    .release 0]

theorem one_copy_reloaded :
    (start tinyDisk 1 [tinyTable]).SparesAlong guardRun ∧
      ((start tinyDisk 1 [tinyTable]).after guardRun).OneCopy ∧
      ((start tinyDisk 1 [tinyTable]).after guardRun).out = [(tinyPage 0, ⟨0, .exclusive⟩)] ∧
      (((start tinyDisk 1 [tinyTable]).after guardRun).session.after evictRun).engine.pool.page?
        (tinyPage 0) = none ∧
      ∃ p q, ((start tinyDisk 1 [tinyTable]).after guardRun).session.engine.pageAt? ⟨0, .exclusive⟩ =
          some p ∧ p.dirtiedBy = some ⟨2⟩ ∧
        ((((start tinyDisk 1 [tinyTable]).after guardRun).session.after evictRun).engine.getPage
          (tinyPage 0) .shared).2.pageAt? ⟨2, .shared⟩ = some q ∧ q.SameRows p := by
  have hspares : (start tinyDisk 1 [tinyTable]).SparesAlong guardRun := by decide +kernel
  have hts : ∀ t ∈ [tinyTable], t.Stands tinyDisk := fun t ht => (tinyDisk_ready t ht).1
  have hempty : Page.ofBytes (tinyPage 5) tinySchema 9 (zeros 9) = .ok (tinyEmpty 5) := rfl
  have hhoused : ∀ a ∈ guardRun ++ evictRun, (Session.start tinyDisk 1 [tinyTable]).AdoptsHoused a := by
    intro a ha id page hadopt
    subst hadopt
    simp only [guardRun, evictRun, List.cons_append, List.nil_append, List.mem_cons, List.not_mem_nil,
      reduceCtorEq, Action.adopt.injEq, or_false, false_or] at ha
    obtain ⟨rfl, rfl⟩ := ha
    refine ⟨rfl, fun t ht => ?_⟩
    obtain rfl := List.mem_singleton.1 (Session.lookup_ofTables ht).1
    exact .of_kind (Page.kind_of_ofBytes hempty) rfl (by decide)
  obtain ⟨hone, hseen⟩ := one_copy tinyDisk 1 [tinyTable] hspares
  have hout : ((start tinyDisk 1 [tinyTable]).after guardRun).out = [(tinyPage 0, ⟨0, .exclusive⟩)] := by
    decide +kernel
  have hdirty : (((start tinyDisk 1 [tinyTable]).after guardRun).session.engine.pageAt?
      ⟨0, .exclusive⟩).any (fun p => decide (p.dirtiedBy = some ⟨2⟩)) = true := by decide +kernel
  obtain ⟨p, hp, hd⟩ := (Option.any_eq_true _ _).1 hdirty
  have hd : p.dirtiedBy = some ⟨2⟩ := of_decide_eq_true hd
  have hget : ((((start tinyDisk 1 [tinyTable]).after guardRun).session.after evictRun).engine.getPage
      (tinyPage 0) .shared).1 = .ok ⟨2, .shared⟩ := by decide +kernel
  have hmem : (tinyPage 0, ⟨0, .exclusive⟩) ∈ ((start tinyDisk 1 [tinyTable]).after guardRun).out := by
    rw [hout]
    exact List.mem_cons_self
  obtain ⟨q, hq, hrows⟩ := (hseen hts evictRun hhoused).getPage hmem hp
    (by rw [hd]; exact Option.some_ne_none _) (by decide +kernel) hget
  exact ⟨hspares, hone, hout, by decide +kernel, p, q, hp, hd, hq, hrows⟩

/-! ### Pages that do not belong where they are taken in -/

theorem not_seenAfter {as : List Action} (id : PageId) (g g' : Checkout) (i : Nat)
    (r : Option (List Value)) (hout : (id, g) ∈ h.out)
    (hp : (h.session.engine.pageAt? g).any
      (fun p => decide (p.dirtiedBy ≠ none ∧ p.row i = r)) = true)
    (halong : h.session.Along (fun s a => s.altered a ≠ some id) as)
    (hget : ((h.session.after as).engine.getPage id .shared).1 = .ok g')
    (hq : (((h.session.after as).engine.getPage id .shared).2.pageAt? g').map (·.row i) ≠ some r) :
    ¬ h.SeenAfter as := by
  intro hseen
  obtain ⟨p, hpage, hp⟩ := (Option.any_eq_true _ _).1 hp
  obtain ⟨hd, hr⟩ := of_decide_eq_true hp
  obtain ⟨q, hpq, hrows⟩ := hseen.getPage hout hpage hd halong hget
  rw [hpq, Option.map_some, hrows.row, hr] at hq
  exact hq rfl

/-- A new page is taken in as page 0, changed, and marked. -/
def adoptRun (page : Page) (ts : List Tuple) : List Action :=
  .adopt (tinyPage 0) page :: .get (tinyPage 0) .exclusive :: ts.map (.pageInsert 0) ++ [.mark 0 ⟨1⟩]

def textSchema : Schema := ⟨[⟨.text 4, "s"⟩], by decide, by decide, by decide⟩

def textTuple : Tuple := ⟨textSchema, [.text "abcd"], none, by decide⟩

/-- A page of texts. -/
def textPage : Page :=
  ⟨tinyPage 0, textSchema, tinyTable.layout, [0], [none, none], none, zeros 9⟩

/-- A page with three slots. -/
def largePage : Page :=
  ⟨tinyPage 0, tinySchema, ⟨13, 4, by decide, tinyTable.layout.tuple_pos, by decide⟩, [0],
    [none, none, none], none, zeros 13⟩

/-- What is written on a page that has another id, the schema of another table, or another size is not
seen again once the page was written back and loaded from the file. -/
theorem adopted_page_not_seen :
    ((start tinyDisk 1 [tinyTable]).SparesAlong (adoptRun (tinyEmpty 1) [tinyTuple 7 none]) ∧
      ¬ ((start tinyDisk 1 [tinyTable]).after (adoptRun (tinyEmpty 1) [tinyTuple 7 none])).SeenAfter
        evictRun) ∧
    ((start tinyDisk 1 [tinyTable]).SparesAlong (adoptRun textPage [textTuple]) ∧
      ¬ ((start tinyDisk 1 [tinyTable]).after (adoptRun textPage [textTuple])).SeenAfter evictRun) ∧
    (start tinyDisk 1 [tinyTable]).SparesAlong
        (adoptRun largePage [tinyTuple 7 none, tinyTuple 8 none, tinyTuple 9 none]) ∧
      ¬ ((start tinyDisk 1 [tinyTable]).after
        (adoptRun largePage [tinyTuple 7 none, tinyTuple 8 none, tinyTuple 9 none])).SeenAfter
          evictRun := by
  refine ⟨⟨by decide +kernel, ?_⟩, ⟨by decide +kernel, ?_⟩, by decide +kernel, ?_⟩
  · exact not_seenAfter (tinyPage 0) ⟨0, .exclusive⟩ ⟨2, .shared⟩ 0 (some [.int 7]) (by decide +kernel)
      (by decide +kernel) (by decide +kernel) (by decide +kernel) (by decide +kernel)
  · exact not_seenAfter (tinyPage 0) ⟨0, .exclusive⟩ ⟨2, .shared⟩ 0 (some [.text "abcd"])
      (by decide +kernel) (by decide +kernel) (by decide +kernel) (by decide +kernel) (by decide +kernel)
  · exact not_seenAfter (tinyPage 0) ⟨0, .exclusive⟩ ⟨2, .shared⟩ 2 (some [.int 9]) (by decide +kernel)
      (by decide +kernel) (by decide +kernel) (by decide +kernel) (by decide +kernel)

end Holdings

end HeapStore
