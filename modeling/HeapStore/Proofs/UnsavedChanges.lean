import HeapStore.Proofs.FiledPages

/-! The transactions whose changes to a page are still to be written, the last one first. A page keeps
the mark of the last one only. A flush for that transaction writes the page, with what all the others
did to it; a flush for another one leaves it alone. -/

namespace HeapStore

open Engine (insertCalls)

namespace Engine

variable {e e' : Engine} {held : List Checkout} {m : Move} {id : PageId} {c : Nat} {p : Page}
  {txn : TxnId} {t : Tuple}

/-! ### An update leaves its mark -/

theorem Move.Handles.proper {target : PageId → Prop} {calls : List Page.Call}
    (h : m.Handles target calls) : m.Proper e := by
  cases m with
  | adopt | grow => exact h.elim
  | _ => trivial

theorem dirtiedBy_of_page? (hp : e.pool.page? id = some (p.after (insertCalls txn t))) :
    e.pool.dirtiedBy id = some txn := by
  rw [Pool.dirtiedBy, hp]
  rfl

/-- A tuple that was stored on a new page is the first one there. -/
theorem insertNew_ok (hs : e.pool.Sound held) {table : Table}
    (hcheck : t.checkSchema table.schema = .ok ()) {rid : RecordId}
    (hok : (e.insertNew table (table.pageCount e.disk) txn t).1 = .ok rid) :
    rid = ⟨⟨table.id, table.pageCount e.disk⟩, 0⟩ ∧ ∃ (c : Nat) (p : Page) (e2 : Engine),
      e2.pool.Sound (⟨c, .exclusive⟩ :: held) ∧
      e2.pool.copyOf? ⟨table.id, table.pageCount e.disk⟩ = some c ∧ e2.pool.copies.page? c = some p ∧
      e.insertNew table (table.pageCount e.disk) txn t = e2.insertAt ⟨c, .exclusive⟩ p txn t := by
  obtain ⟨p, hof, -, happ⟩ := e.appendPage_eq table
  cases hr : adopt { e with disk := table.grow e.disk } ⟨table.id, table.pageCount e.disk⟩ p with
  | mk r e1 =>
    cases r with
    | error err =>
      unfold insertNew at hok
      rw [happ, hr] at hok
      cases hok
    | ok =>
      obtain ⟨c, e2, -, hs2, hc, hp, hnew, hfirst⟩ := insertNew_of_adopt hs txn hcheck hof hr
      exact ⟨Except.ok.inj (hok.symm.trans hfirst), c, p, e2, hs2, hc, hp, hnew⟩

/-- A tuple that was stored is on a page that the table had, or the search came to nothing and it is on
the new page. -/
theorem insertTuple_ok (hs : e.pool.Sound held) {table : Table} {rid : RecordId}
    (hok : (e.insertTuple table txn t).1 = .ok rid) : t.checkSchema table.schema = .ok () ∧
    ((insertInto table.id txn t (table.pageCount e.disk) 0 e).1 = .ok (some rid) ∧
      (e.insertTuple table txn t).2 = (insertInto table.id txn t (table.pageCount e.disk) 0 e).2 ∨
    ∃ e1 ms, (insertInto table.id txn t (table.pageCount e.disk) 0 e).1 = .ok none ∧
      e1.disk = e.disk ∧ Trace held [] e ms [] e1 ∧ (∀ m ∈ ms, m.Proper e) ∧
      e.insertTuple table txn t = e1.insertNew table (table.pageCount e1.disk) txn t) := by
  rw [insertTuple_eq] at hok ⊢
  cases hcheck : t.checkSchema table.schema with
  | error err => simp only [hcheck] at hok; cases hok
  | ok =>
    refine ⟨rfl, ?_⟩
    simp only [hcheck] at hok ⊢
    have h0 : e.pool.Sound ([] ++ held) := hs
    have hdisk := disk_insertInto table.id txn t (table.pageCount e.disk) 0 e
    obtain ⟨ms, htrace, hscript, hback⟩ := insertInto_trace
      (permits_handles (fun _ => True) (insertCalls txn t)) h0 table.id (table.pageCount e.disk) 0
      fun _ _ => trivial
    cases hinto : insertInto table.id txn t (table.pageCount e.disk) 0 e with
    | mk r rest =>
      obtain ⟨t', e1⟩ := rest
      rw [hinto] at hdisk htrace hback
      simp only [hinto] at hok ⊢
      have hdisk : e1.disk = e.disk := hdisk
      cases r with
      | error err => cases hok
      | ok o =>
        cases o with
        | some rid' =>
          obtain rfl : rid' = rid := Except.ok.inj hok
          exact .inl ⟨rfl, rfl⟩
        | none =>
          obtain ⟨rfl, -⟩ := hback rfl
          refine .inr ⟨e1, ms, rfl, hdisk, htrace, fun m hm => (hscript.allowed m hm).proper, ?_⟩
          rw [hdisk]

namespace Orderly

/-- The request fails, or the page is checked out and found where it belongs. -/
theorem getPage (h : e.Orderly held) (id : PageId) (access : Access) :
    (∃ err e', e.getPage id access = (.error err, e') ∧ e'.Orderly held) ∨
    ∃ c p e', e.getPage id access = (.ok ⟨c, access⟩, e') ∧ e'.Orderly (⟨c, access⟩ :: held) ∧
      e'.pool.copyOf? id = some c ∧ e'.pool.copies.page? c = some p ∧ p.id = id := by
  have h0 : e.Orderly ([] ++ held) := h
  obtain ⟨r, e', heq, -, -, hcases⟩ := getPage_turned h.pool id access
  rcases hcases with ⟨err, rfl, -⟩ | ⟨c, p, rfl, -, hc, hp⟩
  · exact .inl ⟨err, e', heq, h0.moves (.missed heq) trivial⟩
  · have h' : e'.Orderly (⟨c, access⟩ :: held) := h0.moves (.got heq) trivial
    exact .inr ⟨c, p, e', heq, h', hc, hp, (h'.housed id p ((page?_of_copyOf? hc).trans hp)).1⟩

theorem insertInto_marks (h : e.Orderly held) (txn : TxnId) (t : Tuple) (table count n : Nat)
    (rid : RecordId) (hok : (insertInto table txn t count n e).1 = .ok (some rid)) :
    (insertInto table txn t count n e).2.2.pool.dirtiedBy rid.page = some txn := by
  induction count generalizing n e with
  | zero => cases hok
  | succ count ih =>
    unfold insertInto at hok ⊢
    rcases h.getPage ⟨table, n⟩ .exclusive with ⟨err, e1, hget, -⟩ | ⟨c, p, e1, hget, h1, hc, hp, hid⟩
    · rw [hget] at hok
      cases hok
    · have hat : e1.pageAt? ⟨c, .exclusive⟩ = some p := hp
      have h1' : e1.Orderly ([⟨c, .exclusive⟩] ++ held) := h1
      simp only [hget, hat] at hok ⊢
      by_cases hfull : p.freeSlots = 0
      · rw [if_pos hfull] at hok ⊢
        exact ih (h1'.moves .released trivial) (n + 1) hok
      · rw [if_neg hfull] at hok ⊢
        obtain ⟨ms, htrace, hscript, hback⟩ := insertAt_trace held []
          (permits_handles (fun _ => True) (insertCalls txn t)) hat fun _ _ => trivial
        have h2 := h1'.trace htrace fun m hm => (hscript.allowed m hm).proper
        have hmark := page?_insertAt h1.pool hc hp txn t
        cases hins : e1.insertAt ⟨c, .exclusive⟩ p txn t with
        | mk r rest =>
          obtain ⟨t', e2⟩ := rest
          rw [hins] at h2 hmark hback
          simp only [hins] at hok ⊢
          rcases hmark with ⟨err, rfl, -⟩ | ⟨rid', rfl, hpage, hres⟩
          · obtain ⟨rfl, -⟩ := hback err rfl
            by_cases hpf : err.isPageFull = true
            · simp only [hpf, if_true] at hok ⊢
              exact ih h2 (n + 1) hok
            · simp only [hpf] at hok
              cases hok
          · obtain rfl : rid' = rid := Option.some.inj (Except.ok.inj hok)
            rw [hpage, hid]
            exact dirtiedBy_of_page? hres

theorem insertNew_marks (h : e.Orderly held) {table : Table}
    (hcheck : t.checkSchema table.schema = .ok ()) {rid : RecordId}
    (hok : (e.insertNew table (table.pageCount e.disk) txn t).1 = .ok rid) :
    (e.insertNew table (table.pageCount e.disk) txn t).2.2.pool.dirtiedBy rid.page = some txn := by
  obtain ⟨rfl, c, p, e2, hs2, hc, hp, hnew⟩ := insertNew_ok h.pool hcheck hok
  rw [hnew] at hok ⊢
  rcases page?_insertAt hs2 hc hp txn t with ⟨err, herr, -⟩ | ⟨rid, -, -, hres⟩
  · cases herr.symm.trans hok
  · exact dirtiedBy_of_page? hres

/-- The page that a tuple was stored on is dirty by its transaction. -/
theorem insertTuple_marks (h : e.Orderly held) {table : Table} {rid : RecordId}
    (hok : (e.insertTuple table txn t).1 = .ok rid) :
    (e.insertTuple table txn t).2.2.pool.dirtiedBy rid.page = some txn := by
  obtain ⟨hcheck, ⟨hinto, hsame⟩ | ⟨e1, ms, -, -, htrace, hproper, hnew⟩⟩ := insertTuple_ok h.pool hok
  · rw [hsame]
    exact h.insertInto_marks txn t table.id (table.pageCount e.disk) 0 rid hinto
  · have h0 : e.Orderly ([] ++ held) := h
    rw [hnew] at hok ⊢
    exact (h0.trace htrace hproper).insertNew_marks hcheck hok

/-- The page that a tuple was removed from is dirty by the transaction. -/
theorem deleteTuple_marks (h : e.Orderly held) {table : Table}
    (hok : (e.deleteTuple table txn t).1 = .ok id) :
    (e.deleteTuple table txn t).2.pool.dirtiedBy id = some txn := by
  unfold deleteTuple at hok ⊢
  cases hrid : t.rid with
  | none => simp only [hrid] at hok; cases hok
  | some rid =>
    simp only [hrid] at hok ⊢
    by_cases hother : rid.page.table ≠ table.id
    · rw [if_pos hother] at hok
      cases hok
    · rw [if_neg hother] at hok ⊢
      rcases h.getPage rid.page .exclusive with ⟨err, e1, hget, -⟩ | ⟨c, p, e1, hget, h1, hc, hp, -⟩
      · rw [hget] at hok
        cases hok
      · simp only [hget, Coherent.edit_exclusive hp] at hok ⊢
        rcases p.delete_cases t with ⟨err, hdel⟩ | ⟨slot, -, -, hdel⟩
        · simp only [hdel] at hok
          cases hok
        · simp only [hdel] at hok ⊢
          obtain rfl : rid.page = id := Except.ok.inj hok
          rw [Pool.dirtiedBy, page?_setPage_release h1.pool hc hp]
          rfl

/-- A page that is written back in a run without failures is found in its window. -/
theorem window_writeBackAll (h : e.Orderly held) {only : Option TxnId} {rs : List Resident}
    (hrs : ∀ r ∈ rs, e.pool.copyOf? r.page = some r.copy) {n : Nat}
    (hok : (writeBackAll only 0 rs e).1 = .ok n) (hr : ⟨id, c⟩ ∈ rs)
    (hp : e.pool.copies.page? c = some p) (hsel : p.isSelected only = true) :
    ∃ t, e.table? id.table = some t ∧ p.Belongs t ∧ p.id = id ∧
      t.window (writeBackAll only 0 rs e).2.disk id.page = p.toBytes := by
  have hpage : ∀ r ∈ rs, ∀ p, e.pool.copies.page? r.copy = some p → e.pool.page? r.page = some p :=
    fun r hr p hp => (page?_of_copyOf? (hrs r hr)).trans hp
  obtain ⟨ws, hw⟩ := writeBackAll_wroteAll h.pool only 0 hrs fun r hr p hp t ht =>
    ((h.housed r.page p (hpage r hr p hp)).2 t ht).toFits
  have hres := hpage ⟨id, c⟩ hr p hp
  obtain ⟨hid, hb⟩ := h.housed id p hres
  -- a page that was written is the one that is resident under its id
  have hlone : ∀ w ∈ ws, w.2.id = p.id → w.2 = p ∧ e.table? id.table = some w.1 := by
    intro w hmem hwid
    obtain ⟨r, hr, hq, -, ht⟩ := hw.selected w hmem
    have hrq := hpage r hr w.2 hq
    obtain rfl : r.page = id := (h.housed r.page w.2 hrq).1.symm.trans (hwid.trans hid)
    exact ⟨Option.some.inj (hrq.symm.trans hres), ht⟩
  have hfits : ∀ w ∈ ws, e.table? w.1.id = some w.1 ∧ w.2.Fits w.1 := by
    intro w hmem
    obtain ⟨r, hr, hq, -, ht⟩ := hw.selected w hmem
    exact ⟨h.own_id ht, ((h.housed r.page w.2 (hpage r hr w.2 hq)).2 w.1 ht).toFits⟩
  obtain ⟨t, hmem⟩ := hw.complete n hok ⟨id, c⟩ hr p hp hsel
  have ht := (hlone (t, p) hmem rfl).2
  refine ⟨t, ht, hb t ht, hid, ?_⟩
  rw [hw.disk, ← h.mounted.window_storeAll hfits hmem fun w hw' hwid => (hlone w hw' hwid).1, hid]

end Orderly

end Engine

namespace Action

/-- The transaction that stores or removes a tuple. -/
def writer? : Action → Option TxnId
  | .insert _ txn _ | .delete txn _ | .deleteFrom _ txn _ => some txn
  | _ => none

end Action

namespace Session

variable {s : Session} {a : Action} {id : PageId} {p : Page} {txn : TxnId}

/-! ### Changes that are still to be written -/

/-- What an action makes of the list of transactions that changed a page since it was last written. The
last of them stands first. -/
def unsavedAfter (s : Session) (id : PageId) (txns : List TxnId) (a : Action) : List TxnId :=
  if s.altered a = some id then (a.writer?.map (· :: txns)).getD []
  else if a.isFlush = true ∧ (s.step a).2.engine.pool.dirtiedBy id = none then []
  else txns

/-- The list after these actions. -/
def unsaved (s : Session) (id : PageId) (txns : List TxnId) : List Action → List TxnId
  | [] => txns
  | a :: as => (s.step a).2.unsaved id (s.unsavedAfter id txns a) as

/-- An update that succeeds leaves the page dirty by its transaction, and a page that is discarded is
not there. -/
theorem dirtiedBy_altered (h : s.engine.Orderly s.held) (ha : a.isPlainOrDiscard = true)
    (hid : s.altered a = some id) : (s.step a).2.engine.pool.dirtiedBy id = a.writer? := by
  unfold altered at hid
  cases a with
  | insert table txn t =>
    cases htbl : s.engine.pool.table table with
    | error err => simp [step, Engine.insert, htbl, onEngine, Except.map] at hid
    | ok tbl =>
      simp only [step, Engine.insert, htbl, onEngine] at hid ⊢
      cases hr : (s.engine.insertTuple tbl txn t).1 with
      | error err => simp [hr, Except.map] at hid
      | ok rid =>
        obtain rfl : rid.page = id := by simpa [hr, Except.map] using hid
        exact h.insertTuple_marks hr
  | delete txn t =>
    cases hrid : t.rid with
    | none => simp [step, Engine.delete, hrid, onEngine, Except.map] at hid
    | some rid =>
      cases htbl : s.engine.pool.table rid.page.table with
      | error err => simp [step, Engine.delete, hrid, htbl, onEngine, Except.map] at hid
      | ok tbl =>
        simp only [step, Engine.delete, hrid, htbl, onEngine] at hid ⊢
        cases hr : (s.engine.deleteTuple tbl txn t).1 with
        | error err => simp [hr, Except.map] at hid
        | ok id' =>
          obtain rfl : rid.page = id := by simpa [hr, hrid, Except.map] using hid
          obtain rfl : rid.page = id' := s.engine.deleteTuple_ok hr hrid
          exact h.deleteTuple_marks hr
  | deleteFrom table txn t =>
    cases htbl : s.engine.pool.table table with
    | error err => simp [step, htbl] at hid
    | ok tbl =>
      simp only [step, htbl, onEngine] at hid ⊢
      cases hr : (s.engine.deleteTuple tbl txn t).1 with
      | error err => simp [hr, Except.map] at hid
      | ok id' =>
        obtain rfl : id' = id := by simpa [hr, Except.map] using hid
        exact h.deleteTuple_marks hr
  | discard id' =>
    obtain rfl : id' = id := Option.some.inj hid
    rw [Pool.dirtiedBy, discard_absent h.pool]
    rfl
  | pageInsert | pageDelete | mark | adopt => cases ha
  | _ => cases hid

/-- Only a flush takes the mark off a page that is left. -/
theorem dirtiedBy_unaltered (h : s.engine.Orderly s.held) (hid : s.altered a ≠ some id) :
    (s.step a).2.engine.pool.dirtiedBy id = s.engine.pool.dirtiedBy id ∨
      a.isFlush = true ∧ (s.step a).2.engine.pool.dirtiedBy id = none := by
  obtain ⟨own, own', ms, ht⟩ := step_traced h.pool a
  rcases ht.trace.dirtiedBy_cases (h.pool.perm ht.before) (fun p hp => (h.housed id p hp).1)
    (fun m hm => (ht.script.allowed m hm).leaves hid) with hsame | ⟨⟨only, hmem⟩, hnone⟩
  · exact .inl hsame
  · cases hf : a.isFlush with
    | true => exact .inr ⟨rfl, hnone⟩
    | false => exact ((ht.script.allowed _ hmem).not_writeBack hf).elim

/-- The mark of a page names the transaction that changed it last, if something is to be written. -/
theorem dirtiedBy_step (h : s.engine.Orderly s.held) (ha : a.isPlainOrDiscard = true)
    {txns : List TxnId} (hd : s.engine.pool.dirtiedBy id = txns.head?) :
    (s.step a).2.engine.pool.dirtiedBy id = (s.unsavedAfter id txns a).head? := by
  unfold unsavedAfter
  by_cases hid : s.altered a = some id
  · rw [if_pos hid, dirtiedBy_altered h ha hid]
    cases a.writer? <;> rfl
  · rw [if_neg hid]
    rcases dirtiedBy_unaltered h hid with hsame | hflush
    · rw [hsame, hd]
      split
      · next hflush => exact hflush.2
      · rfl
    · rw [if_pos hflush, hflush.2]
      rfl

theorem dirtiedBy_run (h : s.engine.Orderly s.held) {txns : List TxnId}
    (hd : s.engine.pool.dirtiedBy id = txns.head?) {as : List Action}
    (has : ∀ a ∈ as, a.isPlainOrDiscard = true) :
    (s.after as).engine.pool.dirtiedBy id = (s.unsaved id txns as).head? := by
  induction as generalizing s txns with
  | nil => exact hd
  | cons a as ih =>
    have ha := has a List.mem_cons_self
    exact ih (orderly_step h (.of_plain ha)).1 (dirtiedBy_step h ha hd)
      fun a ha => has a (List.mem_cons_of_mem _ ha)

/-! ### What a flush saves -/

/-- The rows of the page are resident under the id, and its window of the file decodes to them. -/
def SavedAs (s : Session) (id : PageId) (p : Page) : Prop :=
  ∃ t p' q, s.engine.table? id.table = some t ∧ s.engine.pool.page? id = some p' ∧ p'.SameRows p ∧
    Page.ofBytes id t.schema t.pageSize (t.window s.engine.disk id.page) = .ok q ∧ q.SameRows p'

theorem window_flushTxn (h : s.engine.Orderly s.held) (hp : s.engine.pool.page? id = some p)
    (hd : p.dirtiedBy = some txn) {r : Answer} (hok : (s.step (.flushTxn txn)).1 = .ok r) :
    ∃ t, s.engine.table? id.table = some t ∧ p.Belongs t ∧ p.id = id ∧
      t.window (s.step (.flushTxn txn)).2.engine.disk id.page = p.toBytes := by
  obtain ⟨c, hc, hpage⟩ := Engine.exists_copy_of_page? hp
  change ((Engine.writeBackAll (some txn) 0 s.engine.pool.residents s.engine).1.map Answer.count) = _
    at hok
  cases hwb : (Engine.writeBackAll (some txn) 0 s.engine.pool.residents s.engine).1 with
  | error err =>
    rw [hwb] at hok
    cases hok
  | ok n =>
    exact h.window_writeBackAll (fun r hr => h.pool.mem_residents.1 hr) hwb
      (h.pool.mem_residents.2 hc) hpage (Page.isSelected_some_iff.2 hd)

/-- A flush for a transaction that answers has written every page that is dirty by it. -/
theorem savedAs_flushTxn (h : s.engine.Orderly s.held) (hp : s.engine.pool.page? id = some p)
    (hd : p.dirtiedBy = some txn) {r : Answer} (hok : (s.step (.flushTxn txn)).1 = .ok r) :
    (s.step (.flushTxn txn)).2.SavedAs id p := by
  obtain ⟨t, ht, hb, hid, hwindow⟩ := window_flushTxn h hp hd hok
  obtain ⟨q, hof, hq⟩ := hb.ofBytes_toBytes
  have hne : p.dirtiedBy ≠ none := by rw [hd]; exact Option.some_ne_none txn
  have htable : (s.step (.flushTxn txn)).2.engine.table? id.table = some t :=
    (Engine.table?_congr (orderly_step h (a := .flushTxn txn) (.of_plain rfl)).2 _).trans ht
  have hres : ∃ p', (s.step (.flushTxn txn)).2.engine.pool.page? id = some p' ∧ p'.SameRows p := by
    have hfate := fate h.pool (.flushTxn txn) hp hne
    generalize (s.step (.flushTxn txn)).2.engine.pool.page? id = o at hfate
    cases hfate with
    | same => exact ⟨p, rfl, .refl p⟩
    | written => exact ⟨p.cleaned, rfl, rfl, fun _ => rfl⟩
    | changed _ hch => cases hch
    | marked hmark => cases hmark
    | dropped hdrop => cases hdrop
    | replaced hrep => cases hrep
    | overgrown hins => cases hins
  obtain ⟨p', hp', hrows⟩ := hres
  refine ⟨t, p', q, htable, hp', hrows, ?_, hq.trans hrows.symm⟩
  rw [hwindow, ← hof, hid]

/-- A page that is to be written is dirty by the transaction that changed it last, and a flush for this
transaction saves it with all its rows. -/
theorem flushTxn_saves {d : Disk} (n : Nat) {ts : List Table} (hts : ∀ t ∈ ts, t.Stands d)
    {as : List Action} (has : ∀ a ∈ as, a.isPlainOrDiscard = true) (id : PageId) :
    ((start d n ts).after as).engine.pool.dirtiedBy id = ((start d n ts).unsaved id [] as).head? ∧
      ∀ txn r, (((start d n ts).after as).step (.flushTxn txn)).1 = .ok r →
        ((start d n ts).unsaved id [] as).head? = some txn →
        ∃ p, ((start d n ts).after as).engine.pool.page? id = some p ∧
          (((start d n ts).after as).step (.flushTxn txn)).2.SavedAs id p := by
  have hstart := start_orderly n hts
  have hclean : (start d n ts).engine.pool.dirtiedBy id = [].head? := by
    have hnone : (start d n ts).engine.pool.copyOf? id = none := copyOf?_ofTables n ts id
    rw [Pool.dirtiedBy, Engine.page?_eq_none_of_copyOf? hnone]
    rfl
  have hd := dirtiedBy_run hstart hclean has
  refine ⟨hd, fun txn r hok hlast => ?_⟩
  rw [hlast] at hd
  obtain ⟨p, hp, hmark⟩ := Option.bind_eq_some_iff.1 hd
  exact ⟨p, hp, savedAs_flushTxn (orderly_run hstart fun a ha => .of_plain (has a ha)).1 hp hmark hok⟩

/-- Two transactions store a tuple on the same page. -/
def twoWriters : List Action :=
  [.insert tinyTable.id ⟨1⟩ (tinyTuple 7 none), .insert tinyTable.id ⟨2⟩ (tinyTuple 8 none)]

/-- The later one of the two transactions is flushed. -/
theorem flushTxn_saves_two :
    (∀ t ∈ [tinyTable], t.Stands tinyDisk) ∧ (∀ a ∈ twoWriters, a.isPlainOrDiscard = true) ∧
      (start tinyDisk 2 [tinyTable]).unsaved (tinyPage 0) [] twoWriters = [⟨2⟩, ⟨1⟩] ∧
      ∃ p, ((start tinyDisk 2 [tinyTable]).after twoWriters).engine.pool.page? (tinyPage 0) = some p ∧
        (((start tinyDisk 2 [tinyTable]).after twoWriters).step (.flushTxn ⟨2⟩)).2.SavedAs
          (tinyPage 0) p := by
  have hts : ∀ t ∈ [tinyTable], t.Stands tinyDisk := fun t ht => (tinyDisk_ready t ht).1
  have has : ∀ a ∈ twoWriters, a.isPlainOrDiscard = true := by decide
  have hlast : (start tinyDisk 2 [tinyTable]).unsaved (tinyPage 0) [] twoWriters = [⟨2⟩, ⟨1⟩] := by
    decide +kernel
  have hok : (((start tinyDisk 2 [tinyTable]).after twoWriters).step (.flushTxn ⟨2⟩)).1 =
      .ok (.count 1) := by decide +kernel
  exact ⟨hts, has, hlast, (flushTxn_saves 2 hts has (tinyPage 0)).2 ⟨2⟩ _ hok (by rw [hlast]; rfl)⟩

/-- A flush for the earlier one writes nothing, and the file does not have what it stored. -/
theorem flushTxn_misses_earlier_writer :
    ⟨1⟩ ∈ (start tinyDisk 2 [tinyTable]).unsaved (tinyPage 0) [] twoWriters ∧
      (((start tinyDisk 2 [tinyTable]).after twoWriters).step (.flushTxn ⟨1⟩)).1 = .ok (.count 0) ∧
      ∀ p, ¬ (((start tinyDisk 2 [tinyTable]).after twoWriters).step (.flushTxn ⟨1⟩)).2.SavedAs
        (tinyPage 0) p := by
  refine ⟨by decide +kernel, by decide +kernel, ?_⟩
  rintro p ⟨t, p', q, ht, hp', -, hof, hrows⟩
  have htable : (((start tinyDisk 2 [tinyTable]).after twoWriters).step
      (.flushTxn ⟨1⟩)).2.engine.table? tinyTable.id = some tinyTable := by decide +kernel
  obtain rfl : tinyTable = t := Option.some.inj (htable.symm.trans ht)
  have hempty : Page.ofBytes (tinyPage 0) tinyTable.schema tinyTable.pageSize (tinyTable.window
      (((start tinyDisk 2 [tinyTable]).after twoWriters).step (.flushTxn ⟨1⟩)).2.engine.disk 0) =
        .ok (tinyEmpty 0) := by decide +kernel
  have hrow : ((((start tinyDisk 2 [tinyTable]).after twoWriters).step
      (.flushTxn ⟨1⟩)).2.engine.pool.page? (tinyPage 0)).map (·.row 0) = some (some [.int 7]) := by
    decide +kernel
  obtain rfl : q = tinyEmpty 0 := Except.ok.inj (hof.symm.trans hempty)
  rw [hp', Option.map_some, ← hrows.row 0] at hrow
  cases hrow

end Session

end HeapStore
