import HeapStore.Proofs.PoolConsistency

/-! What becomes of a resident page that is dirty. No call drops it for want of room, and none that
fails loses anything: it stays in its frame with its tuples, but for the slot that an insert or a
delete changes, until it is written back or discarded. There is one other way out. A new page may be
taken in under its id while nobody has it checked out, and then the tuples on it are lost. -/

namespace HeapStore

open Engine (Trace Loses)

/-! ### Changes leave a page dirty -/

namespace Page

variable {p : Page} {slot i : Nat}

theorem tuple?_setSlot_of_ne (h : i ≠ slot) (o : Option Tuple) :
    (p.setSlot slot o).tuple? i = p.tuple? i := by
  unfold tuple? setSlot
  rw [List.getElem?_set_ne (Ne.symm h)]

theorem dirtiedBy_insert (p : Page) (t : Tuple) : (p.insert t).2.2.dirtiedBy = p.dirtiedBy := by
  rcases p.insert_cases t with ⟨err, h⟩ | ⟨slot, -, -, -, h⟩
  · rw [h]
  · rw [h]
    rfl

theorem dirtiedBy_delete (p : Page) (t : Tuple) : (p.delete t).2.dirtiedBy = p.dirtiedBy := by
  rcases p.delete_cases t with ⟨err, h⟩ | ⟨slot, -, -, h⟩
  · rw [h]
  · rw [h]
    rfl

/-- An insert changes one slot. -/
theorem tuple?_insert (p : Page) (t : Tuple) :
    ∃ slot, ∀ i, i ≠ slot → (p.insert t).2.2.tuple? i = p.tuple? i := by
  rcases p.insert_cases t with ⟨err, h⟩ | ⟨slot, -, -, -, h⟩
  · exact ⟨0, fun i _ => by rw [h]⟩
  · exact ⟨slot, fun i hi => by rw [h]; exact tuple?_setSlot_of_ne hi _⟩

theorem tuple?_delete (p : Page) (t : Tuple) :
    ∃ slot, ∀ i, i ≠ slot → (p.delete t).2.tuple? i = p.tuple? i := by
  rcases p.delete_cases t with ⟨err, h⟩ | ⟨slot, -, -, h⟩
  · exact ⟨0, fun i _ => by rw [h]⟩
  · exact ⟨slot, fun i hi => by rw [h]; exact tuple?_setSlot_of_ne hi _⟩

end Page

namespace Action

/-- Does the action store or remove a tuple? -/
def isChange : Action → Bool
  | .pageInsert .. | .pageDelete .. | .insert .. | .delete .. | .deleteFrom .. => true
  | _ => false

theorem dirtiedBy_calls (a : Action) {p : Page} (hd : p.dirtiedBy ≠ none) :
    (p.after a.calls).dirtiedBy ≠ none := by
  cases a with
  | pageInsert i t =>
    have h : (p.after (pageInsert i t).calls).dirtiedBy = p.dirtiedBy := p.dirtiedBy_insert t
    rwa [h]
  | pageDelete i t =>
    have h : (p.after (pageDelete i t).calls).dirtiedBy = p.dirtiedBy := p.dirtiedBy_delete t
    rwa [h]
  | mark | insert | delete | deleteFrom => exact Option.some_ne_none _
  | _ => exact hd

end Action

/-! ### Growing over a page -/

namespace Engine

variable {e : Engine} {held : List Checkout} {id : PageId} {c : Nat} {p : Page} {txn : TxnId}
  {t : Tuple}

theorem page?_release (h : e.pool.Sound (⟨c, .exclusive⟩ :: held)) (hc : e.pool.copyOf? id = some c)
    (hp : e.pool.copies.page? c = some p) :
    (e.release ⟨c, .exclusive⟩).pool.page? id = some p := by
  have hsame := sameResidents_release h
  have hc' := (hsame.copyOf? id).trans hc
  rw [page?_of_copyOf? hc', hsame.page? id c hc, hp]

/-- A page is changed under an exclusive checkout, which is then given back. -/
theorem page?_setPage_release (h : e.pool.Sound (⟨c, .exclusive⟩ :: held))
    (hc : e.pool.copyOf? id = some c) (hp : e.pool.copies.page? c = some p) (p' : Page) :
    ((e.setPage c p').release ⟨c, .exclusive⟩).pool.page? id = some p' := by
  refine page?_release (sound_setPage h hp p') hc ?_
  rw [Coherent.page?_setPage hp, if_pos rfl]

/-- An insert that fails leaves the page as it is, and one that succeeds leaves it dirty. -/
theorem page?_insertAt (h : e.pool.Sound (⟨c, .exclusive⟩ :: held)) (hc : e.pool.copyOf? id = some c)
    (hp : e.pool.copies.page? c = some p) (txn : TxnId) (t : Tuple) :
    (∃ err, (e.insertAt ⟨c, .exclusive⟩ p txn t).1 = .error err ∧
      (e.insertAt ⟨c, .exclusive⟩ p txn t).2.2.pool.page? id = some p) ∨
    ∃ rid, (e.insertAt ⟨c, .exclusive⟩ p txn t).1 = .ok rid ∧ rid.page = p.id ∧
      (e.insertAt ⟨c, .exclusive⟩ p txn t).2.2.pool.page? id = some (p.after (insertCalls txn t)) := by
  unfold insertAt
  rcases p.insert_cases t with ⟨err, hi⟩ | ⟨slot, -, -, -, hi⟩
  · rw [hi]
    exact .inl ⟨err, rfl, page?_release h hc hp⟩
  · have hcalls : p.after (insertCalls txn t) = (p.insert t).2.2.markDirty true txn := rfl
    rw [hi] at hcalls ⊢
    simp only [Coherent.edit_exclusive hp]
    refine .inr ⟨_, rfl, rfl, ?_⟩
    rw [page?_setPage_release h hc hp, hcalls]

/-- A table grows over a page that is resident beyond its end: the new page takes the frame, and then
the tuple. -/
theorem page?_insertNew (h : e.pool.Sound held) (txn : TxnId) {table : Table}
    (hcheck : t.checkSchema table.schema = .ok ())
    (hc : e.pool.copyOf? ⟨table.id, table.pageCount e.disk⟩ = some c)
    (hfree : ∀ g ∈ held, g.copy ≠ c) : ∃ page,
      Page.ofBytes ⟨table.id, table.pageCount e.disk⟩ table.schema table.pageSize
        (zeros table.pageSize) = .ok page ∧
      (e.insertNew table (table.pageCount e.disk) txn t).2.2.pool.page?
        ⟨table.id, table.pageCount e.disk⟩ = some (page.after (insertCalls txn t)) := by
  obtain ⟨page, hof, -, -⟩ := e.appendPage_eq table
  obtain ⟨q, hadopt, -⟩ := adopt_unused (e := { e with disk := table.grow e.disk }) h hc hfree page
  obtain ⟨d, e2, -, hs2, hc2, hp2, hnew, hok⟩ := insertNew_of_adopt h txn hcheck hof hadopt
  refine ⟨page, hof, ?_⟩
  rw [hnew] at hok ⊢
  rcases page?_insertAt hs2 hc2 hp2 txn t with ⟨err, herr, -⟩ | ⟨-, -, -, hpage⟩
  · cases hok.symm.trans herr
  · exact hpage

end Engine

namespace Session

variable {s : Session} {a : Action} {id : PageId} {p : Page} {m : Engine.Move}

/-- The page is resident, and nobody has it checked out. -/
def Unused (s : Session) (id : PageId) : Prop :=
  ∃ c, s.engine.pool.copyOf? id = some c ∧ ∀ g ∈ s.held, g.copy ≠ c

/-- What an action makes of a page that is resident under an id, and dirty. -/
inductive Fate (s : Session) (a : Action) (id : PageId) (p : Page) : Option Page → Prop
  | same : Fate s a id p (some p)
  | changed {p' : Page} (slot : Nat) : a.isChange = true → p'.dirtiedBy ≠ none →
      (∀ i, i ≠ slot → p'.tuple? i = p.tuple? i) → Fate s a id p (some p')
  | marked {i : Nat} {txn : TxnId} : a = .mark i txn → Fate s a id p (some (p.markDirty true txn))
  /-- The bytes of the page are in the file of the table that is registered under the id. -/
  | written {t : Table} {d : Disk} : a.Flushes id p → s.engine.table? id.table = some t →
      (t.writePage d p).1 = .ok () → Fate s a id p (some p.cleaned)
  | dropped : a = .discard id → Fate s a id p none
  /-- A new page has been taken in, and the dirty one is lost. -/
  | replaced {page : Page} : a = .adopt id page → s.Unused id → Fate s a id p (some page)
  /-- The page lies just beyond the end of its table, which has grown over it. -/
  | overgrown {table : Nat} {txn : TxnId} {t : Tuple} {tbl : Table} {page : Page}
      {calls : List Page.Call} : a = .insert table txn t → s.FindsFull table t tbl →
      id = ⟨tbl.id, tbl.pageCount s.engine.disk⟩ → s.Unused id →
      Page.ofBytes id tbl.schema tbl.pageSize (zeros tbl.pageSize) = .ok page →
      calls = [] ∨ calls = a.calls → Fate s a id p (some (page.after calls))

namespace Fate

/-- The action changed the page itself. -/
theorem of_calls (hd : p.dirtiedBy ≠ none) : Fate s a id p (some (p.after a.calls)) := by
  have hd' := a.dirtiedBy_calls hd
  cases a with
  | pageInsert i t =>
    obtain ⟨slot, h⟩ := p.tuple?_insert t
    exact .changed slot rfl hd' h
  | pageDelete i t =>
    obtain ⟨slot, h⟩ := p.tuple?_delete t
    exact .changed slot rfl hd' h
  | insert table txn t =>
    obtain ⟨slot, h⟩ := p.tuple?_insert t
    exact .changed slot rfl hd' h
  | delete txn t | deleteFrom table txn t =>
    obtain ⟨slot, h⟩ := p.tuple?_delete t
    exact .changed slot rfl hd' h
  | mark i txn => exact .marked rfl
  | _ => exact .same

end Fate

/-- Nothing but a flush makes a page clean. -/
theorem Allows.dirties (h : s.Allows a m) (hf : a.isFlush = false) : m.Dirties := by
  cases h with
  | flushed hflush => rw [hf] at hflush; cases hflush
  | adopted | discarded | grown | added => trivial
  | handled _ hh => exact hh.dirties fun p hd => a.dirtiedBy_calls hd

/-- A flush only writes back pages. -/
theorem Allows.writeBack (h : s.Allows a m) (hf : a.isFlush = true) :
    ∃ id only, m = .writeBack id only ∧ ∀ p : Page, p.isSelected only = true → a.Flushes id p := by
  cases h with
  | flushed _ hsel => exact ⟨_, _, rfl, hsel⟩
  | handled hflush => rw [hf] at hflush; cases hflush
  | adopted h | discarded h | grown h | added h => subst h; cases hf

theorem Allows.discard (h : s.Allows a (.discard id)) : a = .discard id := by
  cases h with
  | handled _ hh => exact hh.elim
  | discarded h => exact h

theorem page?_adopt (h : s.engine.pool.Sound s.held) (page : Page) (hu : s.Unused id) :
    (s.step (.adopt id page)).2.engine.pool.page? id = some page := by
  obtain ⟨c, hc, hfree⟩ := hu
  obtain ⟨q, hadopt, hrep⟩ := Engine.adopt_unused h hc hfree page
  have hpage : q.page? id = some page := by
    rw [Pool.page?, hrep.copyOf?, if_pos rfl, Option.bind_some, hrep.new]
  change (s.engine.adopt id page).2.pool.page? id = some page
  rw [hadopt]
  exact hpage

/-- The search through the full pages leaves a dirty page where it is, and then it is overgrown. -/
theorem page?_overgrown (h : s.engine.pool.Sound s.held) {table : Nat} {txn : TxnId} {t : Tuple}
    {tbl : Table} (hfull : s.FindsFull table t tbl) (hid : id = ⟨tbl.id, tbl.pageCount s.engine.disk⟩)
    (hu : s.Unused id) (hp : s.engine.pool.page? id = some p) (hd : p.dirtiedBy ≠ none) :
    Fate s (.insert table txn t) id p ((s.step (.insert table txn t)).2.engine.pool.page? id) := by
  obtain ⟨c, hc, hfree⟩ := hu
  have hpage : s.engine.pool.copies.page? c = some p := (Engine.page?_of_copyOf? hc).symm.trans hp
  have h0 : s.engine.pool.Sound ([] ++ s.held) := h
  have hnone := (Engine.insertInto_eq_none_iff txn t _ _ _ _).2 hfull.2.2
  have hdisk := Engine.disk_insertInto tbl.id txn t (tbl.pageCount s.engine.disk) 0 s.engine
  obtain ⟨ms, htrace, hscript, hback⟩ := Engine.insertInto_trace
    (Engine.permits_handles (fun _ => True) (Engine.insertCalls txn t)) h0 tbl.id
    (tbl.pageCount s.engine.disk) 0 fun _ _ => trivial
  rw [step_insert hfull.1, Engine.insertTuple_eq, hfull.2.1]
  cases hinto : Engine.insertInto tbl.id txn t (tbl.pageCount s.engine.disk) 0 s.engine with
  | mk r rest =>
    obtain ⟨t', e⟩ := rest
    rw [hinto] at hnone hdisk htrace hback
    obtain rfl : r = .ok none := hnone
    have hdisk : e.disk = s.engine.disk := hdisk
    have hc' : e.pool.copyOf? id = some c := by
      rcases htrace.dirty h0 (fun m hm => (hscript.allowed m hm).dirties fun _ _ => Option.some_ne_none _)
        hc hpage hd with ⟨m, hm, hl⟩ | ⟨hc', -⟩
      · exact absurd hl (hscript.allowed m hm).not_loses
      · exact hc'
    obtain ⟨rfl, -⟩ := hback rfl
    subst hid
    rw [← hdisk] at hc'
    obtain ⟨page, hof, hnew⟩ :=
      Engine.page?_insertNew (htrace.sound h0) txn hfull.2.1 hc' hfree
    rw [hdisk] at hof hnew
    simp only
    rw [hnew]
    exact .overgrown rfl hfull rfl ⟨c, hc, hfree⟩ hof (.inr rfl)

theorem discard_absent (h : s.engine.pool.Sound s.held) (id : PageId) :
    (s.step (.discard id)).2.engine.pool.page? id = none := by
  refine Engine.page?_eq_none_of_copyOf? ?_
  change (s.engine.pool.discard id).2.copyOf? id = none
  rcases h.discard_cases id with ⟨hc, heq⟩ | ⟨c, q, -, heq, -, -, hcopyOf, -⟩
  · rw [heq]
    exact hc
  · rw [heq, hcopyOf, if_pos rfl]

/-- A page that loses its frame is discarded, or a new page is taken in under its id. -/
theorem fate_of_loses (h : s.engine.pool.Sound s.held) {c : Nat}
    (hc : s.engine.pool.copyOf? id = some c) (hp : s.engine.pool.page? id = some p)
    (hd : p.dirtiedBy ≠ none) (hm : s.Allows a m) (hl : Loses (s.kept a) m id c) :
    Fate s a id p ((s.step a).2.engine.pool.page? id) := by
  rcases hl with rfl | ⟨⟨page, rfl⟩, hfree⟩
  · obtain rfl := hm.discard
    rw [discard_absent h]
    exact .dropped rfl
  · rcases hm.adopt with rfl | ⟨table, txn, t, tbl, rfl, hfull, hid, -⟩
    · have hu : s.Unused id := ⟨c, hc, hfree⟩
      rw [page?_adopt h page hu]
      exact .replaced rfl hu
    · exact page?_overgrown h hfull hid ⟨c, hc, hfree⟩ hp hd

theorem fate (h : s.engine.pool.Sound s.held) (a : Action) (hp : s.engine.pool.page? id = some p)
    (hd : p.dirtiedBy ≠ none) : Fate s a id p ((s.step a).2.engine.pool.page? id) := by
  obtain ⟨c, hc, hpage⟩ := Option.bind_eq_some_iff.1 hp
  obtain ⟨own, own', ms, ht⟩ := step_traced h a
  have hs := h.perm ht.before
  cases hf : a.isFlush with
  | false =>
    rcases ht.trace.dirty hs (fun m hm => (ht.script.allowed m hm).dirties hf) hc hpage hd with
      ⟨m, hm, hl⟩ | ⟨hc', hpage'⟩
    · exact fate_of_loses h hc hp hd (ht.script.allowed m hm) hl
    · rw [Engine.page?_of_copyOf? hc', hpage']
      rcases ht.script.once c with hnone | hcalls
      · rw [hnone]
        exact .same
      · rw [hcalls]
        exact .of_calls hd
  | true =>
    have hms : ∀ m ∈ ms, ∃ id only, m = .writeBack id only := fun m hm => by
      obtain ⟨id', only, rfl, -⟩ := (ht.script.allowed m hm).writeBack hf
      exact ⟨id', only, rfl⟩
    obtain ⟨hc', hrest⟩ := ht.trace.writtenBack hs hms hc hpage
    rw [Engine.page?_of_copyOf? hc']
    rcases hrest with hsame | ⟨⟨f, hftables, m, hm, hw⟩, hclean⟩
    · rw [hsame]
      exact .same
    · rw [hclean]
      obtain ⟨id', only, rfl, hflush⟩ := (ht.script.allowed m hm).writeBack hf
      obtain ⟨only', hmove, hsel⟩ := hw.selected
      obtain ⟨t, htbl, hwrite⟩ := hw.written
      cases hmove
      rw [Engine.table?_congr hftables] at htbl
      exact .written (hflush p hsel) htbl hwrite

/-- A dirty page that is resident in any state of a pool stays where it is, dirty and with its tuples,
unless it is written back or discarded, or a new page is taken in under its id while nobody has it
checked out. -/
theorem dirty_page_fate (d : Disk) (n : Nat) (es : List Event) (a : Action) {id : PageId} {p : Page}
    (hp : ((start d n []).afterEvents es).engine.pool.page? id = some p) (hd : p.dirtiedBy ≠ none) :
    Fate ((start d n []).afterEvents es) a id p
      ((((start d n []).afterEvents es).step a).2.engine.pool.page? id) :=
  fate (sound_of_new d n es) a hp hd

/-- A page is filled. -/
def tinyFilled : List Event :=
  [.register tinyTable, .call (.insert tinyTable.id ⟨1⟩ (tinyTuple 7 none)),
    .call (.insert tinyTable.id ⟨1⟩ (tinyTuple 8 none))]

/-- Where the only frame has a dirty page, a table cannot grow. -/
theorem dirty_page_fate_full : ∃ p,
    ((start tinyDisk 1 []).afterEvents tinyFilled).engine.pool.page? (tinyPage 0) = some p ∧
      p.dirtiedBy ≠ none ∧
      Fate ((start tinyDisk 1 []).afterEvents tinyFilled) (.insert tinyTable.id ⟨2⟩ (tinyTuple 9 none))
        (tinyPage 0) p
        ((((start tinyDisk 1 []).afterEvents tinyFilled).step
          (.insert tinyTable.id ⟨2⟩ (tinyTuple 9 none))).2.engine.pool.page? (tinyPage 0)) := by
  have hdirty : (((start tinyDisk 1 []).afterEvents tinyFilled).engine.pool.page? (tinyPage 0)).any
      (·.dirtiedBy.isSome) = true := by decide +kernel
  obtain ⟨p, hp, hd⟩ := (Option.any_eq_true _ _).1 hdirty
  have hd : p.dirtiedBy ≠ none := Option.isSome_iff_ne_none.1 hd
  exact ⟨p, hp, hd, dirty_page_fate tinyDisk 1 tinyFilled _ hp hd⟩

/-- A page with two tuples that were never written is replaced by an empty one. It was not discarded,
and the file is as before. -/
theorem adopt_loses_dirty_page :
    ((start tinyDisk 1 []).afterEvents tinyFilled).engine.pool.dirtiedBy (tinyPage 0) = some ⟨1⟩ ∧
      (((start tinyDisk 1 []).afterEvents tinyFilled).step (.adopt (tinyPage 0) (tinyEmpty 0))).1 =
        .ok .done ∧
      (((start tinyDisk 1 []).afterEvents tinyFilled).step
        (.adopt (tinyPage 0) (tinyEmpty 0))).2.engine.pool.page? (tinyPage 0) = some (tinyEmpty 0) ∧
      (((start tinyDisk 1 []).afterEvents tinyFilled).step
        (.adopt (tinyPage 0) (tinyEmpty 0))).2.engine.disk =
          ((start tinyDisk 1 []).afterEvents tinyFilled).engine.disk := by
  decide +kernel

end Session

end HeapStore
