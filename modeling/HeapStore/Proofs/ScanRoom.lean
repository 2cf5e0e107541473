import HeapStore.Proofs.PageCaches
import HeapStore.Proofs.PageUse

/-! A scan needs one frame. It gives its page back before it asks for the next one, and a page that it
asks for takes a frame that was free or holds a clean page nobody else uses; that frame can be emptied
again when the page is given back. So a scan that found one such frame is never short of one. -/

namespace HeapStore

namespace Engine

open PageCache (Lends Stands Drains)

variable {e e' : Engine} {held : List Checkout} {t : Table}

/-- A table that can be scanned beside these checkouts: its pages can be read, nobody has one of them
checked out to change it, and some frame is free or could be emptied. -/
structure Scannable (e : Engine) (held : List Checkout) (t : Table) : Prop where
  table : e.table? t.id = some t
  inFile : ∀ n < t.pageCount e.disk, ∃ page, e.InFile ⟨t.id, n⟩ page
  unwritten : ∀ n < t.pageCount e.disk, e.holders held ⟨t.id, n⟩ .exclusive = 0
  room : 0 < e.pool.spare

/-- Where a scan with these checkouts has brought the engine, which for all others is as it was. -/
structure Beside (held : List Checkout) (e : Engine) (out : List Checkout) (e' : Engine) : Prop where
  sound : e'.pool.Sound (out ++ held)
  use : SameUse held e e'
  disk : e'.disk = e.disk
  tables : e'.pool.tables = e.pool.tables
  numFrames : e'.pool.numFrames = e.pool.numFrames

theorem Beside.spare_eq (h : Beside held e [] e') (hs : e.pool.Sound held) :
    e'.pool.spare = e.pool.spare := h.use.spare_eq hs h.sound h.numFrames

theorem Beside.release {g : Checkout} (h : Beside held e [g] e') : Beside held e [] (e'.release g) where
  sound := Pool.Sound.release h.sound
  use := h.use.trans (sameResidents_release h.sound).sameUse
  disk := h.disk
  tables := h.tables
  numFrames := h.numFrames

/-- Every page of the table is handed out, whatever became of the frames. -/
theorem Beside.getPage (h : Beside held e [] e') (hs : e.pool.Sound held) (hreg : e.Registered)
    (ht : e.Scannable held t) {n : Nat} (hn : n < t.pageCount e.disk) :
    ∃ g p e'', e'.getPage ⟨t.id, n⟩ .shared = (.ok g, e'') ∧ Beside held e [g] e'' ∧
      e''.pageAt? g = some p := by
  have hreg' := hreg.of_tables h.tables
  have hout := getPage_outcome h.sound hreg' ⟨t.id, n⟩ .shared
  have hok : ∃ g, (e'.getPage ⟨t.id, n⟩ .shared).1 = .ok g := by
    cases hc : e'.pool.copyOf? ⟨t.id, n⟩ with
    | some c => exact ⟨_, (hout.resident c hc).1.1 (h.use.admits_iff.2 (ht.unwritten n hn))⟩
    | none =>
      obtain ⟨page, hin⟩ := ht.inFile n hn
      have hin' : e'.InFile ⟨t.id, n⟩ page := by
        unfold InFile
        rw [table?_congr h.tables, h.disk]
        exact hin
      have hroom : ¬ e'.Taken held := by
        intro htaken
        refine Pool.not_full_of_spare_pos ?_ ((full_iff_rests h.sound).2 htaken)
        rw [h.spare_eq hs]
        exact ht.room
      obtain ⟨⟨c, hc⟩, -⟩ := hout.loaded page hc hin' hroom
      exact ⟨_, hc⟩
  obtain ⟨g, hg⟩ := hok
  have huse := getPage_sameUse h.sound ⟨t.id, n⟩ .shared
  obtain ⟨r, e'', heq, hdisk, hturned, ⟨err, rfl, -⟩ | ⟨c, p, rfl, hsound, -, hp⟩⟩ :=
    getPage_turned h.sound ⟨t.id, n⟩ .shared
  · rw [heq] at hg
    cases hg
  · rw [heq] at huse
    exact ⟨_, p, e'', heq, ⟨hsound, h.use.trans huse, hdisk.trans h.disk, hturned.tables.trans h.tables,
      hturned.numFrames.trans h.numFrames⟩, hp⟩

/-- The engine never fails a scan of such a table. -/
theorem lends (hs : e.pool.Sound held) (hreg : e.Registered) (ht : e.Scannable held t) :
    Lends .engine t (t.pageCount e.disk) (Beside held e [])
      (fun e' g _ p => Beside held e [g] e' ∧ e'.pageAt? g = some p) where
  pageCount h := congrArg t.pageCount h.disk
  get h hn := h.getPage hs hreg ht hn
  page h := h.2
  release h := h.1.release

end Engine

namespace Scan

open PageCache (Lends Stands Drains)

/-- The answers to calls on a scan, one after the other, and where they leave scan and engine. -/
def calls (s : Scan) (e : Engine) : List ScanCall → List (Except Error Answer) × Scan × Engine
  | [] => ([], s, e)
  | call :: rest =>
    let next := s.call e call
    let later := next.2.1.calls next.2.2 rest
    (next.1 :: later.1, later.2)

/-- A scan that is opened, used and closed. -/
def whole (t : Table) (e : Engine) (cs : List ScanCall) : List (Except Error Answer) × Scan × Engine :=
  (ofTable t).calls e (.start :: cs ++ [.close])

variable {e e' : Engine} {t : Table} {c : Cursor} {sc sc' : Scan} {us : List Tuple} {count : Nat}
  {Ready : Engine → Prop} {Lent : Engine → Checkout → Nat → Page → Prop}

theorem calls_append (s : Scan) (e : Engine) (cs cs' : List ScanCall) : s.calls e (cs ++ cs') =
    ((s.calls e cs).1 ++ ((s.calls e cs).2.1.calls (s.calls e cs).2.2 cs').1,
      ((s.calls e cs).2.1.calls (s.calls e cs).2.2 cs').2) := by
  induction cs generalizing s e with
  | nil => rfl
  | cons call cs ih => simp only [List.cons_append, calls, ih]

theorem calls_ok (h : Lends .engine t count Ready Lent) (hc : Stands count Ready Lent c e)
    {cs : List ScanCall} (hcs : ∀ call ∈ cs, call ∈ [.hasNext, .next, .rewind]) :
    ∃ c', (calls ⟨t, some c⟩ e cs).2.1 = ⟨t, some c'⟩ ∧
      Stands count Ready Lent c' (calls ⟨t, some c⟩ e cs).2.2 ∧
      ∀ r ∈ (calls ⟨t, some c⟩ e cs).1, ∃ a, r = .ok a := by
  induction cs generalizing c e with
  | nil => exact ⟨c, rfl, hc, fun r hr => nomatch hr⟩
  | cons call cs ih =>
    obtain ⟨a, c', e', hcall, hc'⟩ := h.call_ok hc (hcs call List.mem_cons_self)
    rw [PageCache.engine_call] at hcall
    obtain ⟨c'', hsc, hc'', hok⟩ := ih hc' fun call hm => hcs call (List.mem_cons_of_mem _ hm)
    simp only [calls, hcall]
    refine ⟨c'', hsc, hc'', fun r hr => ?_⟩
    rcases List.mem_cons.1 hr with rfl | hr
    · exact ⟨a, rfl⟩
    · exact hok r hr

theorem take_of_drains (h : Drains .engine sc e us sc' e') {limit : Nat} (hl : us.length < limit) :
    sc.take limit e = ((us, some none), sc', e') := by
  induction h generalizing limit with
  | done hnext =>
    obtain ⟨limit, rfl⟩ := Nat.exists_eq_add_of_lt hl
    rw [PageCache.engine_next] at hnext
    simp only [take, hnext]
  | more hnext _ ih =>
    rw [List.length_cons] at hl
    obtain ⟨limit, rfl⟩ : ∃ k, limit = k + 1 := ⟨limit - 1, by omega⟩
    rw [PageCache.engine_next] at hnext
    simp only [take, hnext, ih (Nat.lt_of_succ_lt_succ hl)]

end Scan

namespace Session

/-- A table that can be scanned is scanned without a failure, whatever else is dirty or checked out: no
call on the open scan fails, and asked again and again for the next tuple it comes to the end. Once it
is closed, as many frames are free or can be emptied as before. -/
theorem scan_needs_one_frame (d : Disk) (n : Nat) (es : List Event) {t : Table}
    (ht : ((start d n []).afterEvents es).engine.Scannable ((start d n []).afterEvents es).held t) :
    (∀ cs : List ScanCall, (∀ call ∈ cs, call ∈ [.hasNext, .next, .rewind]) →
      (∀ r ∈ (Scan.whole t ((start d n []).afterEvents es).engine cs).1, ∃ a, r = .ok a) ∧
      (Scan.whole t ((start d n []).afterEvents es).engine cs).2.2.pool.spare =
        ((start d n []).afterEvents es).engine.pool.spare) ∧
    ∃ us sc e',
      (∀ limit > us.length, (Scan.ofTable t).start.2.take limit ((start d n []).afterEvents es).engine =
        ((us, some none), sc, e')) ∧
      (sc.close e').2.pool.spare = ((start d n []).afterEvents es).engine.pool.spare := by
  have hs := sound_of_new d n es
  have hlends := Engine.lends hs (registered_of_new d n es) ht
  generalize (start d n []).afterEvents es = s at hs hlends ht ⊢
  have hopen : PageCache.Stands (t.pageCount s.engine.disk) (Engine.Beside s.held s.engine [])
      (fun e' g _ p => Engine.Beside s.held s.engine [g] e' ∧ e'.pageAt? g = some p) .start s.engine :=
    .idle ⟨hs, .refl _ _, rfl, rfl, rfl⟩
  refine ⟨fun cs hcs => ?_, ?_⟩
  · obtain ⟨c, hsc, hc, hok⟩ := Scan.calls_ok hlends hopen hcs
    have hwhole : Scan.whole t s.engine cs =
        (.ok .done :: (Scan.calls ⟨t, some .start⟩ s.engine cs).1 ++ [.ok .done], ⟨t, none⟩,
          PageCache.engine.releaseHeld ⟨t, some c⟩ (Scan.calls ⟨t, some .start⟩ s.engine cs).2.2) := by
      rw [PageCache.engine_releaseHeld, Scan.whole, List.cons_append, Scan.calls]
      simp only [Scan.call, Scan.start, Scan.ofTable, Scan.calls_append, hsc]
      rfl
    rw [hwhole]
    refine ⟨fun r hr => ?_, (hc.releaseHeld hlends).spare_eq hs⟩
    simp only [List.cons_append, List.mem_cons, List.mem_append, List.not_mem_nil, or_false] at hr
    rcases hr with rfl | hr | rfl
    · exact ⟨_, rfl⟩
    · exact hok r hr
    · exact ⟨_, rfl⟩
  · obtain ⟨us, c, e', hdrains, hc⟩ := hlends.drains hopen rfl
    exact ⟨us, _, e', fun limit hl => Scan.take_of_drains hdrains hl, (hc.releaseHeld hlends).spare_eq hs⟩

/-- Three tuples on two pages, both of them written back. -/
def twoPageEvents : List Event :=
  [.register tinyTable, .call (.insert tinyTable.id ⟨1⟩ (tinyTuple 7 none)),
    .call (.insert tinyTable.id ⟨1⟩ (tinyTuple 8 none)), .call (.flushPage (tinyPage 0)),
    .call (.insert tinyTable.id ⟨1⟩ (tinyTuple 9 none)), .call (.flushPage (tinyPage 1))]

@[irreducible]
def singleFrame : Session := (start tinyDisk 1 []).afterEvents twoPageEvents

theorem singleFrame_eq : singleFrame = (start tinyDisk 1 []).afterEvents twoPageEvents := by
  unfold singleFrame
  rfl

theorem scan_needs_one_frame_single :
    singleFrame.engine.Scannable singleFrame.held tinyTable ∧ singleFrame.engine.pool.numFrames = 1 ∧
      tinyTable.pageCount singleFrame.engine.disk = 2 ∧
      (∀ r ∈ (Scan.whole tinyTable singleFrame.engine
        [.hasNext, .next, .next, .next, .next, .rewind, .next]).1, ∃ a, r = .ok a) ∧
      (Scan.whole tinyTable singleFrame.engine
        [.hasNext, .next, .next, .next, .next, .rewind, .next]).2.2.pool.spare = 1 := by
  have hcount : tinyTable.pageCount singleFrame.engine.disk = 2 := by decide +kernel
  have hscannable : singleFrame.engine.Scannable singleFrame.held tinyTable := {
    table := by decide +kernel
    inFile := by
      have each : ∀ n < 2, (singleFrame.engine.read (tinyPage n)).isOk = true := by decide +kernel
      intro n hn
      have hok := each n (hcount ▸ hn)
      cases hr : singleFrame.engine.read (tinyPage n) with
      | error err =>
        rw [hr] at hok
        cases hok
      | ok page => exact ⟨page, (Engine.read_eq_ok_iff (singleFrame_eq ▸ registered_of_new tinyDisk 1 twoPageEvents)).1 hr⟩
    unwritten := by
      rw [hcount]
      decide +kernel
    room := by decide +kernel }
  have hspare : singleFrame.engine.pool.spare = 1 := by decide +kernel
  have hmain := scan_needs_one_frame tinyDisk 1 twoPageEvents (singleFrame_eq ▸ hscannable)
  rw [← singleFrame_eq] at hmain
  obtain ⟨hcalls, -⟩ := hmain
  obtain ⟨hok, hafter⟩ := hcalls [.hasNext, .next, .next, .next, .next, .rewind, .next] (by decide)
  exact ⟨hscannable, by decide +kernel, hcount, hok, hafter.trans hspare⟩

end Session

end HeapStore
