import Mathlib.Data.List.Nodup
import HeapStore.Proofs.SessionSteps

/-! A scan among other actions. While inserts, deletes, flushes, checkouts and other scans go on, a scan
hands out record ids in strictly rising order, each while its tuple is there, and no tuple that is
there from the start of the scan to its end is left out, whatever failed in between.

The invariant is `Session.Tracks`: what the cursor has passed and is still there was handed out or is
the fetched tuple, which comes after all that was handed out. -/

namespace HeapStore

/-- Earlier in the order of a scan: by page number, then by slot. -/
def RecordId.Before (r s : RecordId) : Prop :=
  r.page.page < s.page.page ∨ r.page.page = s.page.page ∧ r.slot < s.slot

/-- Where the tuple right before a cursor is. -/
def Cursor.last (t : Table) (c : Cursor) : RecordId := ⟨⟨t.id, c.page⟩, c.nextSlot - 1⟩

theorem Cursor.past_last {c : Cursor} {t : Table} (hslot : 0 < c.nextSlot) :
    c.Past (c.last t).page.page (c.last t).slot := by
  refine .inr ⟨rfl, ?_⟩
  change c.nextSlot - 1 < c.nextSlot
  omega

/-- What the cursor has left behind comes before what it has not. -/
theorem Cursor.before_of_past {c : Cursor} {r s : RecordId} (hr : c.Past r.page.page r.slot)
    (hs : ¬ c.Past s.page.page s.slot) : r.Before s := by
  unfold RecordId.Before
  unfold Past at hr hs
  omega

namespace Engine

variable {e : Engine} {held : List Checkout} {loose : Nat → Prop}

/-- A tuple that is there is on a page of the file. -/
theorem Coherent.page_lt_of_rows (h : e.Coherent held loose) {t : Table} {r : RecordId}
    (ht : e.table? r.page.table = some t) (hr : (e.rows r).isSome = true) :
    r.page.page < t.pageCount e.disk := by
  apply Decidable.byContradiction
  intro hn
  have hn := Nat.le_of_not_lt hn
  have hnone : e.rows r = none := by
    cases hc : e.pool.copyOf? r.page with
    | some c =>
      obtain ⟨p, hp⟩ := h.exists_page hc
      obtain ⟨u, hu, hb⟩ := h.backed _ c p hc hp
      obtain rfl : t = u := Option.some.inj (ht.symm.trans hu)
      exact absurd hb.number (Nat.not_lt.2 hn)
    | none =>
      obtain ⟨p, hof, -, -, -, hempty⟩ := Page.ofBytes_zeros r.page t
      have hstored : e.stored r.page = some p := by
        rw [stored_eq_some ht, Table.window_of_pageCount_le (h.small _ t ht) hn, hof]
      rw [rows, logical_of_copyOf?_eq_none hc, hstored, Option.bind_some, Page.row, hempty]
      rfl
  rw [hnone] at hr
  cases hr

end Engine

namespace Session

/-- The tuple that an action makes a scan hand out. -/
def handsOut (s : Session) (i : Nat) (a : Action) : Option Tuple :=
  match a, (s.step a).1 with
  | .scan j .next, .ok (.tuple t) => if j = i then t else none
  | _, _ => none

/-- The tuples that a scan hands out, each with the session right after. -/
def handed (s : Session) (i : Nat) : List Action → List (Tuple × Session)
  | [] => []
  | a :: as => (s.handsOut i a).toList.map (·, (s.step a).2) ++ (s.step a).2.handed i as

structure Tracks (s : Session) (i : Nat) (t : Table) (done : List RecordId)
    (live : RecordId → Prop) (c : Cursor) : Prop where
  scan : s.scans[i]? = some ⟨t, some c⟩
  fits : c.Fits s.engine t
  ordered : done.Pairwise RecordId.Before
  past : ∀ r ∈ done, c.Past r.page.page r.slot
  fetched : c.peeked ≠ none → ∀ r ∈ done, r.Before (c.last t)
  alive : ∀ r, live r → (s.engine.rows r).isSome = true
  complete : ∀ r, live r → r.page.table = t.id → c.Past r.page.page r.slot →
    r ∈ done ∨ c.peeked ≠ none ∧ r = c.last t

variable {s : Session} {i : Nat} {t : Table} {done : List RecordId} {live live' : RecordId → Prop}
  {c c' : Cursor} {a : Action}

/-- Other actions than those on the scan leave it where it is. -/
theorem Tracks.elsewhere (h : s.Tracks i t done live c) (hp : s.PlainStep a)
    (ha : ∀ call, a ≠ .scan i call) (hscan : (s.step a).2.scans[i]? = s.scans[i]?)
    (hl : ∀ r, live' r → live r ∧ ((s.step a).2.engine.rows r).isSome = true) :
    (s.step a).2.Tracks i t done live' c where
  scan := hscan.trans h.scan
  fits := by
    refine h.fits.of_follows (hp.follows.mono fun g hg => ?_)
    have hmem : g ∈ Scan.checkouts ⟨t, some c⟩ := hg
    have hin := List.mem_of_getElem? h.scan
    have hscans : g ∈ s.scans.flatMap Scan.checkouts := List.mem_flatMap.2 ⟨_, hin, hmem⟩
    cases a with
    | release j => exact List.mem_append_right _ hscans
    | scan j call =>
      have hne : i ≠ j := by
        rintro rfl
        exact ha call rfl
      refine List.mem_append_right _ (List.mem_flatMap.2 ⟨⟨t, some c⟩, ?_, hmem⟩)
      obtain ⟨hi, hget⟩ := List.getElem?_eq_some_iff.1 h.scan
      exact List.mem_eraseIdx_iff_getElem.2 ⟨i, hi, hne, hget⟩
    | _ => exact List.mem_append_right _ hscans
  ordered := h.ordered
  past := h.past
  fetched := h.fetched
  alive r hr := (hl r hr).2
  complete r hr := h.complete r (hl r hr).1

/-- The cursor moves on: what it passes is still to be handed out, or was not there. -/
theorem Tracks.moved (h : s.Tracks i t done live c) (hpeek : c.peeked = none) {s' : Session}
    {r : Except Error (Option Tuple)} (hscan : s'.scans[i]? = some ⟨t, some c'⟩)
    (hland : c'.Landed s'.engine t r) (hpassed : c.Passed s.engine t r c')
    (hfail : ∀ u, r ≠ .ok (some u)) (hl : ∀ x, live' x → live x ∧ (s'.engine.rows x).isSome = true) :
    s'.Tracks i t done live' c' where
  scan := hscan
  fits := hland.fits
  ordered := h.ordered
  past x hx := hpassed.onward _ _ (h.past x hx)
  fetched hp := absurd hland.unpeeked hp
  alive x hx := (hl x hx).2
  complete x hx htable hpast := by
    by_cases hold : c.Past x.page.page x.slot
    · rcases h.complete x (hl x hx).1 htable hold with hdone | ⟨hp, -⟩
      · exact .inl hdone
      · exact absurd hpeek hp
    · have hrow := h.alive x (hl x hx).1
      obtain ⟨⟨u, hu⟩, -⟩ := hpassed.only x.page.page x.slot hold hpast (by rw [← htable]; exact hrow)
      exact absurd hu (hfail u)

/-- The cursor moves on to a tuple, which is fetched and not handed out yet. -/
theorem Tracks.fetch (h : s.Tracks i t done live c) (hpeek : c.peeked = none) {s' : Session}
    {u : Tuple} (hscan : s'.scans[i]? = some ⟨t, some { c' with peeked := some u }⟩)
    (hland : c'.Landed s'.engine t (.ok (some u))) (hpassed : c.Passed s.engine t (.ok (some u)) c')
    (hl : ∀ x, live' x → live x ∧ (s'.engine.rows x).isSome = true) :
    s'.Tracks i t done live' { c' with peeked := some u } where
  scan := hscan
  fits := Scan.fits_withPeeked hland.fits _ fun v hv => hland.found v (by rw [hv])
  ordered := h.ordered
  past x hx := hpassed.onward _ _ (h.past x hx)
  fetched _ x hx := Cursor.before_of_past (h.past x hx) (hpassed.fresh u rfl)
  alive x hx := (hl x hx).2
  complete x hx htable hpast := by
    by_cases hold : c.Past x.page.page x.slot
    · rcases h.complete x (hl x hx).1 htable hold with hdone | ⟨hp, -⟩
      · exact .inl hdone
      · exact absurd hpeek hp
    · have hrow := h.alive x (hl x hx).1
      obtain ⟨-, hpage, hs⟩ :=
        hpassed.only x.page.page x.slot hold hpast (by rw [← htable]; exact hrow)
      refine .inr ⟨Option.some_ne_none u, ?_⟩
      obtain ⟨⟨table, page⟩, slot⟩ := x
      simp only at htable hpage hs
      unfold Cursor.last
      rw [htable, hpage, ← hs]
      rfl

/-- The fetched tuple is handed out. -/
theorem Tracks.handOut (h : s.Tracks i t done live c) {u : Tuple} (hpeek : c.peeked = some u)
    {s' : Session} (he : s'.engine = s.engine)
    (hscan : s'.scans[i]? = some ⟨t, some { c with peeked := none }⟩) :
    s'.Tracks i t (done ++ [c.last t]) live { c with peeked := none } where
  scan := hscan
  fits := by
    rw [he]
    exact Scan.fits_withPeeked h.fits none (by rintro v ⟨⟩)
  ordered := by
    refine List.pairwise_append.2 ⟨h.ordered, List.pairwise_singleton _ _, fun x hx y hy => ?_⟩
    rw [List.mem_singleton.1 hy]
    exact h.fetched (by simp [hpeek]) x hx
  past x hx := by
    rcases List.mem_append.1 hx with hx | hx
    · exact h.past x hx
    · obtain ⟨-, -, -, -, hslot, -⟩ := h.fits.peeked u hpeek
      rw [List.mem_singleton.1 hx]
      exact Cursor.past_last (t := t) hslot
  fetched hp := absurd rfl hp
  alive x hx := by
    rw [he]
    exact h.alive x hx
  complete x hx htable hpast := by
    left
    rcases h.complete x hx htable hpast with hdone | ⟨-, hlast⟩
    · exact List.mem_append_left _ hdone
    · exact List.mem_append_right _ (List.mem_singleton.2 hlast)

/-- The fetched tuple is in the table, where the cursor says. -/
theorem Tracks.row (h : s.Tracks i t done live c) {held : List Checkout} {loose : Nat → Prop}
    (hs : s.engine.Coherent held loose) {u : Tuple} (hpeek : c.peeked = some u) :
    u.rid = some (c.last t) ∧ s.engine.rows (c.last t) = some u.values :=
  (h.fits.peeked u hpeek).row hs h.fits

theorem Tracks.mono (h : s.Tracks i t done live c) (hl : ∀ r, live' r → live r) :
    s.Tracks i t done live' c :=
  { h with
    alive := fun r hr => h.alive r (hl r hr)
    complete := fun r hr => h.complete r (hl r hr) }

/-! ### The calls on the scan -/

theorem step_scan {sc : Scan} (h : s.scans[i]? = some sc) (call : ScanCall) :
    s.step (.scan i call) = ((sc.call s.engine call).1, { s with
      engine := (sc.call s.engine call).2.2, scans := s.scans.set i (sc.call s.engine call).2.1 }) := by
  simp only [step, h]

theorem getElem?_set_scan {sc : Scan} (h : s.scans[i]? = some sc) (sc' : Scan) :
    (s.scans.set i sc')[i]? = some sc' := by
  obtain ⟨hi, -⟩ := List.getElem?_eq_some_iff.1 h
  exact List.getElem?_set_self hi

/-- The answers that go on with the scan; `none` is the end of the table. -/
structure HandsOver (s : Session) (i : Nat) (t : Table) (done : List RecordId)
    (live : RecordId → Prop) (a : Action) (c : Cursor) : Prop where
  tracks : (s.step a).2.Tracks i t (done ++ (s.handsOut i a).toList.filterMap (·.rid)) live c
  row : ∀ u, s.handsOut i a = some u → ∃ r, u.rid = some r ∧ r.page.table = t.id ∧
    (s.step a).2.engine.rows r = some u.values
  exhausted : a = .scan i .next → (s.step a).1 = .ok (.tuple none) →
    ∀ r, live r → r.page.table = t.id → r ∈ done

/-- No tuple is handed out. -/
theorem HandsOver.nothing (hout : s.handsOut i a = none) (h : (s.step a).2.Tracks i t done live c)
    (hend : a = .scan i .next → (s.step a).1 = .ok (.tuple none) →
      ∀ r, live r → r.page.table = t.id → r ∈ done) : s.HandsOver i t done live a c := by
  refine ⟨?_, ?_, hend⟩
  · rw [hout]
    simpa using h
  · rw [hout]
    rintro u ⟨⟩

/-- A tuple is handed out. -/
theorem HandsOver.tuple {u : Tuple} {s' : Session} {r : RecordId}
    (hstep : s.step (.scan i .next) = (.ok (.tuple (some u)), s'))
    (hrid : u.rid = some r) (htable : r.page.table = t.id) (hrow : s'.engine.rows r = some u.values)
    (h : s'.Tracks i t (done ++ [r]) live c) : s.HandsOver i t done live (.scan i .next) c := by
  have hout : s.handsOut i (.scan i .next) = some u := by
    simp only [handsOut, hstep, if_true]
  refine ⟨?_, ?_, ?_⟩
  · rw [hout, hstep]
    simpa [hrid] using h
  · rw [hout, hstep]
    rintro v ⟨⟩
    exact ⟨r, hrid, htable, hrow⟩
  · intro _ hans
    rw [hstep] at hans
    cases hans

theorem Tracks.start_step (h : s.Tracks i t done live c)
    (hl : ∀ r, live' r → live r ∧ ((s.step (.scan i .start)).2.engine.rows r).isSome = true) :
    s.HandsOver i t done live' (.scan i .start) c := by
  have hstep : s.step (.scan i .start) = (.error (.scanState .alreadyOpen), s) := by
    rw [step_scan h.scan]
    have hset : s.scans.set i ⟨t, some c⟩ = s.scans := by
      obtain ⟨hi, hget⟩ := List.getElem?_eq_some_iff.1 h.scan
      rw [← hget, List.set_getElem_self]
    simp only [Scan.call, Scan.start, hset]
    rfl
  refine .nothing rfl ?_ fun ha => by cases ha
  rw [hstep]
  exact h.mono fun r hr => (hl r hr).1

theorem Tracks.hasNext_step (h : s.Tracks i t done live c) (hs : s.Sound)
    (hl : ∀ r, live' r → live r ∧ ((s.step (.scan i .hasNext)).2.engine.rows r).isSome = true) :
    ∃ c', s.HandsOver i t done live' (.scan i .hasNext) c' := by
  have hmem := List.mem_of_getElem? h.scan
  have hcoh := hs.coherent.perm (held_perm_scan h.scan)
  have hreads : c.Reads := hs.reads _ hmem c rfl
  suffices ∃ c', (s.step (.scan i .hasNext)).2.Tracks i t done live' c' by
    obtain ⟨c', htracks⟩ := this
    exact ⟨c', .nothing rfl htracks fun ha => by cases ha⟩
  rw [step_scan h.scan] at hl ⊢
  have hsaved := getElem?_set_scan h.scan
  unfold Scan.call Scan.hasNext at hl ⊢
  simp only at hl ⊢
  by_cases hpeek : c.peeked = none
  · obtain ⟨r, c', e', heq, -, -, -, -, hfits⟩ := Scan.advance_cases hcoh hreads hpeek t
    obtain ⟨hland, hpassed⟩ := hfits h.fits
    simp only [hpeek, Option.isSome_none, Bool.false_eq_true, if_false, heq] at hl ⊢
    match r with
    | .error err => exact ⟨c', h.moved hpeek (hsaved _) hland hpassed (by rintro u ⟨⟩) hl⟩
    | .ok none =>
      have hsame : ({ c' with peeked := none } : Cursor) = c' := by rw [← hland.unpeeked]
      refine ⟨c', h.moved hpeek ?_ hland hpassed (by rintro u ⟨⟩) hl⟩
      simp only [hsame]
      exact hsaved _
    | .ok (some u) => exact ⟨_, h.fetch hpeek (hsaved _) hland hpassed hl⟩
  · have hsome : c.peeked.isSome = true := Option.isSome_iff_ne_none.2 hpeek
    simp only [hsome, if_true] at hl ⊢
    exact ⟨c, { h.mono fun r hr => (hl r hr).1 with scan := hsaved _ }⟩

theorem Tracks.next_step (h : s.Tracks i t done live c) (hs : s.Sound)
    (ht : s.engine.table? t.id = some t)
    (hl : ∀ r, live' r → live r ∧ ((s.step (.scan i .next)).2.engine.rows r).isSome = true) :
    ∃ c', s.HandsOver i t done live' (.scan i .next) c' := by
  have hmem := List.mem_of_getElem? h.scan
  have hcoh := hs.coherent.perm (held_perm_scan h.scan)
  have hreads : c.Reads := hs.reads _ hmem c rfl
  have hsaved := getElem?_set_scan h.scan
  cases hpeek : c.peeked with
  | some u =>
    have hstep : s.step (.scan i .next) = (.ok (.tuple (some u)),
        { s with scans := s.scans.set i ⟨t, some { c with peeked := none }⟩ }) := by
      rw [step_scan h.scan]
      simp only [Scan.call, Scan.next, hpeek]
      rfl
    obtain ⟨hrid, hrow⟩ := h.row hcoh hpeek
    have hlive := h.mono fun r hr => (hl r hr).1
    exact ⟨_, .tuple hstep hrid rfl hrow (hlive.handOut hpeek rfl (hsaved _))⟩
  | none =>
    obtain ⟨r, c', e', heq, -, hcoh', -, -, hfits⟩ := Scan.advance_cases hcoh hreads hpeek t
    obtain ⟨hland, hpassed⟩ := hfits h.fits
    have hstep : s.step (.scan i .next) = (r.map .tuple,
        { s with engine := e', scans := s.scans.set i ⟨t, some c'⟩ }) := by
      rw [step_scan h.scan]
      simp only [Scan.call, Scan.next, hpeek, heq]
    rw [hstep] at hl
    -- unless a tuple is found, the cursor only moves on
    have hmoved (hr : ∀ u, r ≠ .ok (some u)) : (s.step (.scan i .next)).2.Tracks i t done live' c' := by
      rw [hstep]
      exact h.moved hpeek (hsaved _) hland hpassed hr hl
    match r with
    | .error err =>
      have hout : s.handsOut i (.scan i .next) = none := by simp only [handsOut, hstep]; rfl
      refine ⟨c', .nothing hout (hmoved (by rintro u ⟨⟩)) fun _ hans => ?_⟩
      rw [hstep] at hans
      cases hans
    | .ok none =>
      have hout : s.handsOut i (.scan i .next) = none := by
        simp only [handsOut, hstep, Except.map, ite_self]
      have htracks := hmoved (by rintro u ⟨⟩)
      refine ⟨c', .nothing hout htracks fun _ _ x hx htable => ?_⟩
      -- the cursor is past the last page
      have hlt := hcoh.page_lt_of_rows (htable.symm ▸ ht) (h.alive x (hl x hx).1)
      have hend := hpassed.finished rfl
      rcases htracks.complete x hx htable (.inl (Nat.lt_of_lt_of_le hlt hend)) with hdone | ⟨hp, -⟩
      · exact hdone
      · exact absurd hland.unpeeked hp
    | .ok (some u) =>
      -- as if the tuple were fetched first and handed out then
      have hfetched : Tracks { s with
          engine := e', scans := s.scans.set i ⟨t, some { c' with peeked := some u }⟩ } i t done live'
          { c' with peeked := some u } := h.fetch hpeek (hsaved _) hland hpassed hl
      have hsame : ({ c' with peeked := none } : Cursor) = c' := by rw [← hland.unpeeked]
      obtain ⟨hrid, hrow⟩ := hfetched.row hcoh' rfl
      refine ⟨c', .tuple hstep hrid rfl hrow ?_⟩
      rw [← hsame]
      exact hfetched.handOut rfl rfl (hsaved _)

/-! ### A run -/

theorem handsOut_of_ne (ha : ∀ call, a ≠ .scan i call) : s.handsOut i a = none := by
  unfold handsOut
  split
  · next j o _ _ =>
    rw [if_neg]
    rintro rfl
    exact ha .next rfl
  · rfl

theorem scans_of_ne {sc : Scan} (h : s.scans[i]? = some sc) (hplain : a.isPlain = true)
    (ha : ∀ call, a ≠ .scan i call) : (s.step a).2.scans[i]? = s.scans[i]? := by
  cases a with
  | pageInsert | pageDelete | mark | adopt | discard => cases hplain
  | newScan table =>
    simp only [step]
    split
    · rfl
    · obtain ⟨hi, -⟩ := List.getElem?_eq_some_iff.1 h
      exact List.getElem?_append_left hi
  | scan j call =>
    simp only [step]
    split
    · rfl
    · refine List.getElem?_set_ne ?_
      rintro rfl
      exact ha call rfl
  | get | release | deleteFrom =>
    simp only [step]
    split <;> rfl
  | insert | delete | flushPage | flushAll | flushTxn | dirtiedBy => rfl

theorem Tracks.step (h : s.Tracks i t done live c) (hs : s.Sound) (hm : s.Marked)
    (hok : s.PlainAndSmall a) (hkeep : a ≠ .scan i .rewind ∧ a ≠ .scan i .close)
    (hl : ∀ r, live' r → live r ∧ ((s.step a).2.engine.rows r).isSome = true) :
    ∃ c', s.HandsOver i t done live' a c' := by
  have hp := hs.plain_step hok.1 (hm.releasesMarked a) hok.2
  by_cases ha : ∃ call, a = .scan i call
  · obtain ⟨call, rfl⟩ := ha
    cases call with
    | start => exact ⟨c, h.start_step hl⟩
    | hasNext => exact h.hasNext_step hs hl
    | next =>
      have ht : s.engine.table? t.id = some t :=
        hs.tables ⟨t, some c⟩ (List.mem_of_getElem? h.scan)
      exact h.next_step hs ht hl
    | rewind => exact (hkeep.1 rfl).elim
    | close => exact (hkeep.2 rfl).elim
  · have hne : ∀ call, a ≠ .scan i call := fun call hcall => ha ⟨call, hcall⟩
    have htracks := h.elsewhere hp hne (scans_of_ne h.scan hok.1 hne) hl
    exact ⟨c, .nothing (handsOut_of_ne hne) htracks fun hnext => absurd hnext (hne .next)⟩

theorem handed_append (s : Session) (i : Nat) (as bs : List Action) :
    s.handed i (as ++ bs) = s.handed i as ++ (s.after as).handed i bs := by
  induction as generalizing s with
  | nil => rfl
  | cons a as ih => rw [List.cons_append, handed, handed, ih, List.append_assoc, after_cons]

theorem Tracks.run (h : s.Tracks i t done live c) (hs : s.Sound) (hm : s.Marked) {as : List Action}
    (hok : s.Along PlainAndSmall as) (hkeep : ∀ a ∈ as, a ≠ .scan i .rewind ∧ a ≠ .scan i .close) :
    (∀ x ∈ s.handed i as, ∃ r, x.1.rid = some r ∧ r.page.table = t.id ∧
      x.2.engine.rows r = some x.1.values) ∧
    ∃ c', (s.after as).Tracks i t (done ++ (s.handed i as).filterMap (·.1.rid))
      (fun r => live r ∧ ∀ cs, cs <+: as → ((s.after cs).engine.rows r).isSome = true) c' := by
  induction as generalizing s done live c with
  | nil =>
    refine ⟨by rintro x ⟨⟩, c, ?_⟩
    simpa [handed] using h.mono fun r hr => hr.1
  | cons a as ih =>
    obtain ⟨ha, has⟩ := hok
    obtain ⟨c1, h1⟩ : ∃ c', s.HandsOver i t done
        (fun r => live r ∧ ((s.step a).2.engine.rows r).isSome = true) a c' :=
      h.step hs hm ha (hkeep a List.mem_cons_self) fun r hr => hr
    obtain ⟨hrows, c2, htracks⟩ := ih h1.tracks (hs.plain_step ha.1 (hm.releasesMarked a) ha.2).sound
      (hm.step (isPlainOrDiscard_of_isPlain ha.1)) has fun b hb => hkeep b (List.mem_cons_of_mem _ hb)
    refine ⟨fun x hx => ?_, c2, ?_⟩
    · rcases List.mem_append.1 hx with hx | hx
      · obtain ⟨u, hu, rfl⟩ := List.mem_map.1 hx
        exact h1.row u (Option.mem_toList.1 hu)
      · exact hrows x hx
    · have hrids : (s.handed i (a :: as)).filterMap (·.1.rid) =
          (s.handsOut i a).toList.filterMap (·.rid) ++
            ((s.step a).2.handed i as).filterMap (·.1.rid) := by
        rw [handed, List.filterMap_append, List.filterMap_map]
        rfl
      rw [hrids, ← List.append_assoc]
      refine htracks.mono fun r hr => ⟨⟨hr.1, hr.2 [a] ?_⟩, fun cs hcs => hr.2 (a :: cs) ?_⟩
      · exact List.prefix_append [a] as
      · exact List.cons_prefix_cons.2 ⟨rfl, hcs⟩

/-- What is said of the tuples that a scan hands out, from its start on. -/
structure ScansRightly (s : Session) (i : Nat) (t : Table) (as : List Action) : Prop where
  row : ∀ x ∈ s.handed i as, ∃ r, x.1.rid = some r ∧ r.page.table = t.id ∧
    x.2.engine.rows r = some x.1.values
  ordered : ((s.handed i as).filterMap (·.1.rid)).Pairwise RecordId.Before
  complete : ∀ bs, as = bs ++ [.scan i .next] →
    ((s.after bs).step (.scan i .next)).1 = .ok (.tuple none) →
    ∀ r, r.page.table = t.id →
      (∀ cs, cs <+: as → ((s.after cs).engine.rows r).isSome = true) →
      ((s.handed i as).filterMap (·.1.rid)).count r = 1

theorem nodup_of_before {l : List RecordId} (h : l.Pairwise RecordId.Before) : l.Nodup := by
  refine h.imp fun hab => ?_
  rintro rfl
  rcases hab with hlt | ⟨-, hlt⟩ <;> exact Nat.lt_irrefl _ hlt

theorem Tracks.scansRightly (h : s.Tracks i t [] (fun r => (s.engine.rows r).isSome = true) c)
    (hs : s.Sound) (hm : s.Marked) {as : List Action} (hok : s.Along PlainAndSmall as)
    (hkeep : ∀ a ∈ as, a ≠ .scan i .rewind ∧ a ≠ .scan i .close) : s.ScansRightly i t as := by
  obtain ⟨hrow, c', htracks⟩ := h.run hs hm hok hkeep
  rw [List.nil_append] at htracks
  refine ⟨hrow, htracks.ordered, ?_⟩
  rintro bs rfl hend r htable hlive
  refine List.count_eq_one_of_mem (nodup_of_before htracks.ordered) ?_
  -- the last step answered the end, so all that is there was handed out before it
  obtain ⟨hokbs, ⟨hnext, -⟩⟩ := along_append.1 hok
  obtain ⟨-, c1, hbs⟩ := h.run hs hm hokbs fun a ha => hkeep a (List.mem_append_left _ ha)
  obtain ⟨hsbs, hmbs⟩ := hokbs.plain_invariant hs hm
  obtain ⟨c2, hover⟩ : ∃ c', (s.after bs).HandsOver i t ([] ++ (s.handed i bs).filterMap (·.1.rid))
      (fun x => x = r) (.scan i .next) c' := hbs.step hsbs hmbs hnext
    (hkeep _ (List.mem_append_right _ (List.mem_singleton.2 rfl))) fun x hx => by
      subst hx
      refine ⟨⟨hlive [] (List.nil_prefix), fun cs hcs => hlive cs (hcs.trans (List.prefix_append ..))⟩, ?_⟩
      have := hlive (bs ++ [.scan i .next]) (List.prefix_refl _)
      rwa [after_append] at this
  have hmem := hover.exhausted rfl hend r rfl htable
  rw [List.nil_append] at hmem
  rw [handed_append, List.filterMap_append]
  exact List.mem_append_left _ hmem

theorem scan_among_updates {d : Disk} {n : Nat} {ts : List Table}
    (hts : ∀ t ∈ ts, t.Stands d ∧ t.Small d) {before as : List Action}
    (h : (start d n ts).Along PlainAndSmall (before ++ .scan i .start :: as))
    (hscan : ((start d n ts).after before).scans[i]? = some (.ofTable t))
    (hkeep : ∀ a ∈ as, a ≠ .scan i .rewind ∧ a ≠ .scan i .close) :
    (((start d n ts).after before).step (.scan i .start)).2.ScansRightly i t as := by
  obtain ⟨hbefore, hstart, has⟩ := along_append.1 h
  obtain ⟨hs, hm⟩ := hbefore.plain_invariant (start_sound n hts) (start_marked d n ts)
  have hs' := (hs.plain_step hstart.1 (hm.releasesMarked _) hstart.2).sound
  have hm' := hm.step (isPlainOrDiscard_of_isPlain hstart.1)
  refine Tracks.scansRightly (c := .start) ?_ hs' hm' has hkeep
  refine ⟨?_, ⟨fun _ => ⟨rfl, rfl⟩, ?_, ?_⟩, List.Pairwise.nil, ?_, fun hp => absurd rfl hp,
    fun r hr => hr, fun r _ _ hpast => ?_⟩
  · rw [step_scan hscan]
    exact getElem?_set_scan hscan _
  · rintro g ⟨⟩
  · rintro u ⟨⟩
  · rintro r ⟨⟩
  · rcases hpast with hlt | ⟨-, hlt⟩
    · exact absurd hlt (Nat.not_lt_zero _)
    · exact absurd hlt (Nat.not_lt_zero _)

/-- Three tuples on two pages, the second page not in memory any more, and a scan. -/
def scanPrelude : List Action :=
  [.insert tinyTable.id ⟨1⟩ (tinyTuple 7 none), .insert tinyTable.id ⟨1⟩ (tinyTuple 8 none),
    .flushPage (tinyPage 0), .insert tinyTable.id ⟨1⟩ (tinyTuple 9 none), .flushPage (tinyPage 1),
    .newScan tinyTable.id]

/-- The page under the cursor refuses a delete, the only frame is in use when the cursor comes to the
second page, and a tuple is added ahead of it before it is tried again. -/
def interleavedRun : List Action :=
  [.scan 0 .next, .get (tinyPage 0) .shared,
    .delete ⟨2⟩ (tinyTuple 8 (some ⟨tinyPage 0, 1⟩)), .scan 0 .hasNext, .scan 0 .next,
    .scan 0 .next, .release 0, .insert tinyTable.id ⟨2⟩ (tinyTuple 10 none), .scan 0 .next,
    .scan 0 .hasNext, .scan 0 .next, .scan 0 .next]

theorem scan_among_updates_interleaved :
    (start tinyDisk 1 [tinyTable]).Along PlainAndSmall
        (scanPrelude ++ .scan 0 .start :: interleavedRun) ∧
      ((start tinyDisk 1 [tinyTable]).after scanPrelude).scans[0]? = some (.ofTable tinyTable) ∧
      (∀ a ∈ interleavedRun, a ≠ .scan 0 .rewind ∧ a ≠ .scan 0 .close) ∧
      (((start tinyDisk 1 [tinyTable]).after scanPrelude).step (.scan 0 .start)).2.ScansRightly 0
        tinyTable interleavedRun := by
  have h : (start tinyDisk 1 [tinyTable]).Along PlainAndSmall
      (scanPrelude ++ .scan 0 .start :: interleavedRun) := by
    decide +kernel
  have hscan : ((start tinyDisk 1 [tinyTable]).after scanPrelude).scans[0]? =
      some (.ofTable tinyTable) := by
    decide +kernel
  have hkeep : ∀ a ∈ interleavedRun, a ≠ .scan 0 .rewind ∧ a ≠ .scan 0 .close := by
    decide +kernel
  exact ⟨h, hscan, hkeep, scan_among_updates tinyDisk_ready h hscan hkeep⟩

end Session

end HeapStore
