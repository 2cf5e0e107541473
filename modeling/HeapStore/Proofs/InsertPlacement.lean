import HeapStore.Proofs.ScanUpdates
import HeapStore.Proofs.ShownPages

/-! Where a tuple goes. An insert takes the first slot that is free, by page and then by slot, and lets
the table grow only where none is. A page that was added in vain is empty: it is the one that the next
tuple goes to, so no number of failures adds a second one. -/

namespace HeapStore

/-! ### The first free slot of a page -/

namespace Page

variable {p : Page} {t : Tuple} {rid : RecordId}

theorem insert_first (h : (p.insert t).1 = .ok rid) : rid.page = p.id ∧ rid.slot < p.slots.length ∧
    p.tuple? rid.slot = none ∧ (∀ i < rid.slot, p.tuple? i ≠ none) ∧
      (p.insert t).2.1 = t.withRid (some rid) := by
  rcases p.insert_outcome t with ⟨m, -, he⟩ | ⟨-, -, he⟩ | ⟨slot, -, hlt, hnone, hused, he⟩
  · rw [he] at h
    cases h
  · rw [he] at h
    cases h
  · rw [he] at h ⊢
    obtain rfl : ⟨p.id, slot⟩ = rid := Except.ok.inj h
    exact ⟨rfl, hlt, hnone, hused, rfl⟩

theorem row_eq_none_iff {i : Nat} : p.row i = none ↔ p.tuple? i = none := by
  simp [row]

theorem Belongs.layout_eq {table : Table} (h : p.Belongs table) : p.layout = table.layout := by
  have hmade := p.layout.make_sizes
  rw [h.pageSize, h.sound.sized, Schema.tupleSize_eq, h.types, ← Schema.tupleSize_eq, ← table.sized]
    at hmade
  exact Except.ok.inj (hmade.symm.trans table.layout.make_sizes)

theorem Belongs.length_slots {table : Table} (h : p.Belongs table) :
    p.slots.length = table.layout.numSlots := by
  rw [h.sound.slots, h.layout_eq]

end Page

namespace Engine

variable {e e' : Engine} {held : List Checkout} {table : Table} {txn : TxnId} {t : Tuple}
  {rid : RecordId} {p : Page}

/-! ### The first free slot of a table -/

/-- The slot is one of the table, and no tuple can be read there. -/
structure Vacant (e : Engine) (table : Table) (r : RecordId) : Prop where
  owner : r.page.table = table.id
  page : r.page.page < table.pageCount e.disk
  slot : r.slot < table.layout.numSlots
  row : e.rows r = none

/-- The slot is free, and comes before all others that are. -/
structure Lands (e : Engine) (table : Table) (rid : RecordId) : Prop where
  vacant : e.Vacant table rid
  first : ∀ r, e.Vacant table r → r = rid ∨ rid.Before r

theorem Vacant.readable {r : RecordId} (h : e.Vacant table r) (ht : e.table? table.id = some table) :
    e.Readable r.page := ⟨table, by rw [h.owner, ht], h.page⟩

theorem Vacant.page_eq {r : RecordId} (h : e.Vacant table r) {n : Nat} (hn : r.page.page = n) :
    r.page = ⟨table.id, n⟩ := by
  obtain ⟨⟨k, page⟩, slot⟩ := r
  obtain rfl : k = table.id := h.owner
  obtain rfl : page = n := hn
  rfl

theorem LooksAlike.vacant_iff (h : LooksAlike e e') (ht : e.table? table.id = some table)
    (r : RecordId) : e'.Vacant table r ↔ e.Vacant table r := by
  constructor
  · intro hv
    have hread := (readable_congr h.tables h.disk).1 (hv.readable ((table?_congr h.tables _).trans ht))
    exact ⟨hv.owner, h.disk ▸ hv.page, hv.slot, (h.agree _ hread).rows_eq ▸ hv.row⟩
  · intro hv
    exact ⟨hv.owner, h.disk ▸ hv.page, hv.slot, (h.agree _ (hv.readable ht)).rows_eq.trans hv.row⟩

theorem LooksAlike.lands (h : LooksAlike e e') (ht : e.table? table.id = some table)
    (hl : e'.Lands table rid) : e.Lands table rid :=
  ⟨(h.vacant_iff ht rid).1 hl.vacant, fun r hr => hl.first r ((h.vacant_iff ht r).2 hr)⟩

/-- The tuple is stored as the page has stored it. -/
theorem insertAt_eq_insert (e : Engine) (g : Checkout) (page : Page) (txn : TxnId) (t : Tuple) :
    (e.insertAt g page txn t).1 = (page.insert t).1 ∧
      (e.insertAt g page txn t).2.1 = (page.insert t).2.1 := by
  unfold insertAt
  cases hi : page.insert t with
  | mk r rest => cases r <;> exact ⟨rfl, rfl⟩

/-- The slots of a page that is resident are those that are read. -/
theorem rows_of_page {c : Nat} (hc : e.pool.copyOf? rid.page = some c)
    (hp : e.pool.copies.page? c = some p) : e.rows rid = p.row rid.slot := by
  rw [rows, logical_of_page? hc hp, Option.bind_some]

namespace Faithful

/-- Where no page before this one has room, the first free slot of the page is the first one of all. -/
theorem lands_of_insert (h : e.Faithful held) (ht : e.table? table.id = some table) {n c : Nat}
    (hn : n < table.pageCount e.disk) (hc : e.pool.copyOf? ⟨table.id, n⟩ = some c)
    (hp : e.pool.copies.page? c = some p) (hbefore : ∀ r, e.Vacant table r → n ≤ r.page.page)
    (hok : (p.insert t).1 = .ok rid) : e.Lands table rid := by
  obtain ⟨hid, hb⟩ := h.housed ⟨table.id, n⟩ p ((page?_of_copyOf? hc).trans hp)
  obtain ⟨hpage, hlt, hfree, hless, -⟩ := Page.insert_first hok
  obtain ⟨page, slot⟩ := rid
  obtain rfl : page = ⟨table.id, n⟩ := hpage.trans hid
  have hrow (i : Nat) : e.rows ⟨⟨table.id, n⟩, i⟩ = p.row i := rows_of_page hc hp
  refine ⟨⟨rfl, hn, (hb table ht).length_slots ▸ hlt, ?_⟩, fun r hr => ?_⟩
  · rw [hrow]
    exact Page.row_eq_none_iff.2 hfree
  · rcases Nat.lt_or_eq_of_le (hbefore r hr) with hlt | heq
    · exact .inr (.inl hlt)
    · obtain ⟨rpage, i⟩ := r
      obtain rfl : rpage = ⟨table.id, n⟩ := hr.page_eq heq.symm
      rcases Nat.lt_trichotomy slot i with hlt | rfl | hgt
      · exact .inr (.inr ⟨rfl, hlt⟩)
      · exact .inl rfl
      · exact absurd (Page.row_eq_none_iff.1 ((hrow i).symm.trans hr.row)) (hless i hgt)

/-- A page without room has no free slot of its table. -/
theorem not_vacant_of_full (h : e.Faithful held) (ht : e.table? table.id = some table) {n c : Nat}
    {p : Page} (hc : e.pool.copyOf? ⟨table.id, n⟩ = some c) (hp : e.pool.copies.page? c = some p)
    (hfull : p.freeSlots = 0) {r : RecordId} (hr : e.Vacant table r) : r.page.page ≠ n := by
  intro hpage
  have hcr : e.pool.copyOf? r.page = some c := by rw [hr.page_eq hpage, hc]
  obtain ⟨-, hb⟩ := h.housed r.page p ((page?_of_copyOf? hcr).trans hp)
  have hlt : r.slot < p.slots.length := (hb table (by rw [hr.owner, ht])).length_slots ▸ hr.slot
  exact Page.freeSlots_eq_zero_iff.1 hfull _ hlt (Page.row_eq_none_iff.1 ((rows_of_page hcr hp).symm.trans hr.row))

/-- The search ends at the first free slot, or there is none on the pages that it went over. -/
theorem insertInto_lands (h : e.Faithful held) (ht : e.table? table.id = some table) (txn : TxnId)
    (t : Tuple) (count n : Nat) (hn : n + count ≤ table.pageCount e.disk)
    (hbefore : ∀ r, e.Vacant table r → n ≤ r.page.page) :
    ((insertInto table.id txn t count n e).1 = .ok none →
      ∀ r, e.Vacant table r → n + count ≤ r.page.page) ∧
    ∀ rid, (insertInto table.id txn t count n e).1 = .ok (some rid) →
      e.Lands table rid ∧ (insertInto table.id txn t count n e).2.1 = t.withRid (some rid) := by
  induction count generalizing n e with
  | zero => exact ⟨fun _ => hbefore, fun rid hok => by cases hok⟩
  | succ count ih =>
    unfold insertInto
    rcases h.getPage ⟨table.id, n⟩ .exclusive with ⟨err, e1, hget⟩ | ⟨c, p, e1, hget, h1, hlook, hc, hp⟩
    · rw [hget]
      exact ⟨fun hr => (by cases hr), fun rid hok => by cases hok⟩
    have hat : e1.pageAt? ⟨c, .exclusive⟩ = some p := hp
    have ht1 : e1.table? table.id = some table := (table?_congr hlook.tables _).trans ht
    have hbefore1 : ∀ r, e1.Vacant table r → n ≤ r.page.page :=
      fun r hr => hbefore r ((hlook.vacant_iff ht r).1 hr)
    simp only [hget, hat]
    by_cases hfull : p.freeSlots = 0
    · rw [if_pos hfull]
      obtain ⟨h2, hlook2⟩ := h1.release
      have hsame : LooksAlike e (e1.release ⟨c, .exclusive⟩) := hlook.trans hlook2
      -- the page that was passed has no room, so what is free comes after it
      have hnext : ∀ r, (e1.release ⟨c, .exclusive⟩).Vacant table r → n + 1 ≤ r.page.page := by
        intro r hr
        have hr1 := (hlook2.vacant_iff ht1 r).1 hr
        refine Nat.lt_of_le_of_ne (hbefore1 r hr1) fun hpage => ?_
        exact h1.not_vacant_of_full ht1 hc hp hfull hr1 hpage.symm
      obtain ⟨hnone, hsome⟩ := ih h2 ((table?_congr hsame.tables _).trans ht) (n + 1)
        (by rw [hsame.disk]; omega) hnext
      refine ⟨fun hr r hv => ?_, fun rid hok => ?_⟩
      · have := hnone hr r ((hsame.vacant_iff ht r).2 hv)
        omega
      · obtain ⟨hl, htuple⟩ := hsome rid hok
        exact ⟨hsame.lands ht hl, htuple⟩
    · rw [if_neg hfull]
      obtain ⟨hfst, hsnd⟩ := e1.insertAt_eq_insert ⟨c, .exclusive⟩ p txn t
      have hends : ∀ err, (e1.insertAt ⟨c, .exclusive⟩ p txn t).1 = .error err → err.isPageFull = false :=
        fun _ => insertAt_ends e1 _ hfull
      cases hins : e1.insertAt ⟨c, .exclusive⟩ p txn t with
      | mk r rest =>
        obtain ⟨t', e2⟩ := rest
        rw [hins] at hfst hsnd hends
        cases r with
        | error err =>
          simp only [hends err rfl]
          exact ⟨fun hr => (by cases hr), fun rid hok => by cases hok⟩
        | ok rid' =>
          refine ⟨fun hr => (by cases hr), fun rid hok => ?_⟩
          obtain rfl : rid' = rid := Option.some.inj (Except.ok.inj hok)
          have hn1 : n < table.pageCount e1.disk := by rw [hlook.disk]; omega
          obtain ⟨-, -, -, -, htuple⟩ := Page.insert_first hfst.symm
          exact ⟨hlook.lands ht (h1.lands_of_insert ht1 hn1 hc hp hbefore1 hfst.symm), hsnd.trans htuple⟩

/-- A table grows only if no slot is free. -/
theorem not_vacant_of_findsFull (h : e.Faithful held) (ht : e.table? table.id = some table)
    (hfull : FindsFull table.id (table.pageCount e.disk) 0 e) (t : Tuple) (r : RecordId) :
    ¬ e.Vacant table r := by
  intro hr
  have hnone := (insertInto_eq_none_iff ⟨0⟩ t table.id (table.pageCount e.disk) 0 e).2 hfull
  have hle := (h.insertInto_lands ht ⟨0⟩ t (table.pageCount e.disk) 0 (by omega)
    fun r _ => Nat.zero_le _).1 hnone r hr
  have := hr.page
  omega

end Faithful

/-- A tuple that is stored on the new page takes its first slot. -/
theorem insertNew_lands (hs : e.pool.Sound held) (hcheck : t.checkSchema table.schema = .ok ())
    (hok : (e.insertNew table (table.pageCount e.disk) txn t).1 = .ok rid) :
    rid = ⟨⟨table.id, table.pageCount e.disk⟩, 0⟩ ∧
      (e.insertNew table (table.pageCount e.disk) txn t).2.1 = t.withRid (some rid) := by
  obtain ⟨hrid, c, p, e2, -, -, -, hnew⟩ := insertNew_ok hs hcheck hok
  obtain ⟨hfst, hsnd⟩ := e2.insertAt_eq_insert ⟨c, .exclusive⟩ p txn t
  rw [← hnew] at hfst hsnd
  obtain ⟨-, -, -, -, htuple⟩ := Page.insert_first (hfst.symm.trans hok)
  exact ⟨hrid, hsnd.trans htuple⟩

/-- A tuple takes the first free slot, or the first slot of a new page if no slot is free. -/
theorem Faithful.insertTuple_lands (h : e.Faithful held) (ht : e.table? table.id = some table)
    (hok : (e.insertTuple table txn t).1 = .ok rid) :
    (e.Lands table rid ∧ (e.insertTuple table txn t).2.2.disk = e.disk ∨
      (∀ r, ¬ e.Vacant table r) ∧ rid = ⟨⟨table.id, table.pageCount e.disk⟩, 0⟩ ∧
        (e.insertTuple table txn t).2.2.disk = table.grow e.disk) ∧
      (e.insertTuple table txn t).2.1 = t.withRid (some rid) := by
  obtain ⟨hnone, hsome⟩ := h.insertInto_lands ht txn t (table.pageCount e.disk) 0 (by omega)
    fun r _ => Nat.zero_le _
  obtain ⟨hcheck, ⟨hinto, hsame⟩ | ⟨e1, ms, hinto, hdisk, htrace, -, hnew⟩⟩ := insertTuple_ok h.pool hok
  · obtain ⟨hl, htuple⟩ := hsome rid hinto
    rw [hsame]
    exact ⟨.inl ⟨hl, disk_insertInto table.id txn t (table.pageCount e.disk) 0 e⟩, htuple⟩
  · have h0 : e.pool.Sound ([] ++ held) := h.pool
    have hfull : ∀ r, ¬ e.Vacant table r := fun r hr =>
      absurd hr.page (Nat.not_lt.2 (by simpa using hnone hinto r hr))
    have hgrow := e1.disk_insertNew table txn t
    rw [hnew] at hok ⊢
    obtain ⟨hrid, htuple⟩ := insertNew_lands (htrace.sound h0) hcheck hok
    rw [← hdisk]
    exact ⟨.inr ⟨hfull, hrid, hgrow⟩, htuple⟩

end Engine

namespace Session

variable {s : Session} {a : Action} {table : Table} {id : PageId}

/-! ### Runs -/

theorem faithful_step (h : s.engine.Faithful s.held) (ha : a.isPlainOrDiscard = true) :
    (s.step a).2.engine.Faithful (s.step a).2.held := by
  obtain ⟨own, own', ms, ht⟩ := step_traced h.pool a
  have hbefore := h.toOrderly.perm ht.before
  have hproper : ∀ m ∈ ms, m.Proper s.engine := fun m hm =>
    (ht.script.allowed m hm).proper h.toOrderly (.of_plain ha)
  refine ⟨(orderly_step h.toOrderly (.of_plain ha)).1, fun id => ?_, ?_⟩
  · by_cases hid : s.altered a = some id
    · -- a page that was changed is dirty, and one that was dropped is gone
      have hd := dirtiedBy_altered h.toOrderly ha hid
      cases a with
      | discard id' =>
        obtain rfl : id' = id := Option.some.inj hid
        exact Engine.recovers_of_absent (discard_absent h.pool id')
      | insert | delete | deleteFrom =>
        exact Engine.recovers_of_dirty (by rw [hd]; exact Option.some_ne_none _)
      | pageInsert | pageDelete | mark | adopt => cases ha
      | _ => cases hid
    · exact hbefore.recovers_trace ht.trace hproper
        (fun m hm => (ht.script.allowed m hm).leaves hid) (h.recovers id)
  · refine hbefore.within_trace ht.trace hproper (fun id page hmem tbl htbl => ?_)
      fun id p t hp htbl => ?_
    · rcases (ht.script.allowed _ hmem).adopt with rfl | ⟨k, txn, t, u, rfl, hfull, rfl, -⟩
      · cases ha
      · obtain rfl : u = tbl := Option.some.inj ((h.own_id hfull.1).symm.trans htbl)
        rw [disk_of_findsFull hfull txn]
        exact Table.reaches_store (h.stands _ u hfull.1) (Table.length_zeros _)
    · exact Nat.lt_of_lt_of_le (h.within id p t hp htbl)
        (hbefore.size_le_trace ht.trace hproper htbl)

theorem faithful_run (h : s.engine.Faithful s.held) {as : List Action}
    (has : ∀ a ∈ as, a.isPlainOrDiscard = true) :
    (s.after as).engine.Faithful (s.after as).held := by
  induction as generalizing s with
  | nil => exact h
  | cons a as ih =>
    exact ih (faithful_step h (has a List.mem_cons_self)) fun a ha => has a (List.mem_cons_of_mem _ ha)

theorem start_faithful {d : Disk} (n : Nat) {ts : List Table} (hts : ∀ t ∈ ts, t.Stands d) :
    (start d n ts).engine.Faithful (start d n ts).held := by
  have habsent (id : PageId) : (start d n ts).engine.pool.page? id = none :=
    Engine.page?_eq_none_of_copyOf? (copyOf?_ofTables n ts id)
  refine ⟨start_orderly n hts, fun id => Engine.recovers_of_absent (habsent id), fun id p t hp => ?_⟩
  rw [habsent] at hp
  cases hp

/-- The number of pages of a table changes only where the table grows. -/
theorem span_step (h : s.engine.Faithful s.held) {k : Nat} (ht : s.engine.table? k = some table)
    (a : Action) : table.span (s.step a).2.engine.disk = table.span s.engine.disk ∨
      ∃ k txn t, a = .insert k txn t ∧ s.FindsFull k t table := by
  cases hf : a.isFlush with
  | true =>
    obtain ⟨own, own', ms, htr⟩ := step_traced h.pool a
    refine .inl ((h.perm htr.before).writeBacks htr.trace (fun m hm => ?_) ht)
    obtain ⟨id, only, heq, -⟩ := (htr.script.allowed m hm).writeBack hf
    exact ⟨id, only, heq⟩
  | false =>
    by_cases hi : ∃ k txn t, a = .insert k txn t
    · obtain ⟨k', txn, t, rfl⟩ := hi
      by_cases hfull : ∃ u, s.FindsFull k' t u
      · obtain ⟨u, hfull⟩ := hfull
        by_cases hid : table.id = u.id
        · obtain rfl := h.mounted.apart table u (h.own_id ht) (h.own_id hfull.1) hid
          exact .inr ⟨k', txn, t, rfl, hfull⟩
        · rw [disk_of_findsFull hfull txn]
          exact .inl (Table.span_store_of_ne hid)
      · rw [disk_of_not_findsFull (fun u hu => hfull ⟨u, hu⟩) txn]
        exact .inl rfl
    · rw [disk_step_eq h.pool hf fun k txn t heq => hi ⟨k, txn, t, heq⟩]
      exact .inl rfl

/-! ### What an insert does -/

/-- What comes of an insert that answers a record id: the tuple is at the first free slot, or at the
start of a new page if there was none; it is told so, its page is dirty, and no other page has changed. -/
structure Places (e : Engine) (table : Table) (txn : TxnId) (rid : RecordId) (t : Tuple) (e' : Engine) :
    Prop where
  lands : e.Lands table rid ∧ table.pageCount e'.disk = table.pageCount e.disk ∨
    (∀ r, ¬ e.Vacant table r) ∧ rid = ⟨⟨table.id, table.pageCount e.disk⟩, 0⟩ ∧
      table.pageCount e'.disk = table.pageCount e.disk + 1
  told : t.rid = some rid
  marked : e'.pool.dirtiedBy rid.page = some txn
  marks : ∀ id, id ≠ rid.page → e'.pool.dirtiedBy id = e.pool.dirtiedBy id
  agree : ∀ id, id ≠ rid.page → e.Readable id → Engine.Agree e e' id

/-- A page that can be read can still be read after its table, or another one, has grown, and from the
same bytes. -/
theorem grown_readable {e e' : Engine} {held : List Checkout} (h : e.Orderly held)
    (ht : e.table? table.id = some table) (hs : table.Small e.disk)
    (hn : table.pageCount e.disk < 0xFFFFFFFF) (htables : e'.pool.tables = e.pool.tables)
    (hdisk : e'.disk = e.disk ∨ e'.disk = table.grow e.disk) (id : PageId) :
    e'.stored id = e.stored id ∧ (e.Readable id → e'.Readable id) := by
  rcases hdisk with hdisk | hdisk
  · exact ⟨Engine.stored_congr htables hdisk, (Engine.readable_congr htables hdisk).2⟩
  have hst := h.stands _ table ht
  have hcount := Table.pageCount_grow hst hs (Table.small_grow hst hs hn)
  refine ⟨Engine.stored_of_window htables fun u hu => ?_, fun ⟨u, hu, hlt⟩ =>
    ⟨u, (Engine.table?_congr htables _).trans hu, ?_⟩⟩
  · rw [hdisk]
    by_cases hid : u.id = table.id
    · obtain rfl := h.mounted.apart u table (h.own_id hu) ht hid
      exact Table.window_grow hst hs _
    · exact Table.window_store_of_ne hid _
  · rw [hdisk]
    by_cases hid : u.id = table.id
    · obtain rfl := h.mounted.apart u table (h.own_id hu) ht hid
      omega
    · have hspan : u.span (table.grow e.disk) = u.span e.disk := Table.span_store_of_ne hid
      rwa [u.pageCount_eq, hspan, ← u.pageCount_eq]

theorem insert_eq_insertTuple {k : Nat} (ht : s.engine.table? k = some table) (txn : TxnId) (t : Tuple) :
    s.engine.insert k txn t = s.engine.insertTuple table txn t := by
  unfold Engine.insert
  rw [Engine.table_eq_ok.2 ht]

theorem altered_insert {k : Nat} (ht : s.engine.table? k = some table) {txn : TxnId} {t : Tuple}
    {rid : RecordId} (hok : (s.engine.insertTuple table txn t).1 = .ok rid) :
    s.altered (.insert k txn t) = some rid.page := by
  have hstep : (s.step (.insert k txn t)).1 = .ok (.record rid) := by
    simp only [step, Engine.insert, Engine.table_eq_ok.2 ht, onEngine, hok]
    rfl
  unfold altered
  rw [hstep]

theorem places_insert (h : s.engine.Faithful s.held) {k : Nat} (ht : s.engine.table? k = some table)
    (hs : table.Small s.engine.disk) (hn : table.pageCount s.engine.disk < 0xFFFFFFFF) {txn : TxnId}
    {t t' : Tuple} {rid : RecordId} {e' : Engine}
    (hins : s.engine.insert k txn t = (.ok rid, t', e')) :
    Places s.engine table txn rid t' e' := by
  have hown := h.own_id ht
  have hst := h.stands k table ht
  rw [insert_eq_insertTuple ht] at hins
  have hok : (s.engine.insertTuple table txn t).1 = .ok rid := by rw [hins]
  obtain ⟨hlands, htuple⟩ := h.insertTuple_lands hown hok
  have hmark := h.toOrderly.insertTuple_marks hok
  have hstep : (s.step (.insert k txn t)).2.engine = e' := by rw [step_insert ht, hins]
  have haltered := altered_insert ht hok
  rw [hins] at hlands htuple hmark
  have h' := faithful_step h (a := .insert k txn t) rfl
  have htables := (orderly_step h.toOrderly (a := .insert k txn t) (.of_plain rfl)).2
  rw [hstep] at h' htables
  have hleft : ∀ id, id ≠ rid.page → s.altered (.insert k txn t) ≠ some id := by
    intro id hid heq
    rw [haltered] at heq
    exact hid (Option.some.inj heq).symm
  have hmarks : ∀ id, id ≠ rid.page → e'.pool.dirtiedBy id = s.engine.pool.dirtiedBy id := by
    intro id hid
    rw [← hstep]
    exact (dirtiedBy_unaltered h.toOrderly (hleft id hid)).resolve_right fun hflush => by cases hflush.1
  refine ⟨?_, congrArg Tuple.rid htuple, hmark, hmarks, fun id hid hread => ?_⟩
  · refine hlands.imp (fun ⟨hl, hd⟩ => ⟨hl, congrArg table.pageCount hd⟩) fun ⟨hfull, hrid, hd⟩ =>
      ⟨hfull, hrid, ?_⟩
    exact (congrArg table.pageCount hd).trans
      (Table.pageCount_grow hst hs (Table.small_grow hst hs hn))
  · have hdisk : e'.disk = s.engine.disk ∨ e'.disk = table.grow s.engine.disk :=
      hlands.imp (·.2) (·.2.2)
    obtain ⟨hstored, hreadable⟩ := grown_readable h.toOrderly hown hs hn htables hdisk id
    refine Engine.agree_of_shows (h.recovers id) (h'.recovers id) (hreadable hread) (fun p hp => ?_)
      hstored (hmarks id hid)
    rw [← hstep]
    exact shows_step h.toOrderly (.of_plain rfl) (hleft id hid) hp

/-- An insert that succeeds or fails leaves the file as it is, or adds a page where no slot is free. -/
theorem insert_grows (h : s.engine.Faithful s.held) {k : Nat} (ht : s.engine.table? k = some table)
    (hs : table.Small s.engine.disk) (hn : table.pageCount s.engine.disk < 0xFFFFFFFF) (txn : TxnId)
    (t : Tuple) : (s.engine.insert k txn t).2.2.disk = s.engine.disk ∨
      (∀ r, ¬ s.engine.Vacant table r) ∧
        (s.engine.insert k txn t).2.2.disk = table.grow s.engine.disk ∧
        table.pageCount (s.engine.insert k txn t).2.2.disk = table.pageCount s.engine.disk + 1 := by
  have hst := h.stands k table ht
  obtain ⟨hgrow, hkeep⟩ := s.engine.disk_insertTuple table txn t
  rw [insert_eq_insertTuple ht]
  by_cases hfull : t.checkSchema table.schema = .ok () ∧
      Engine.FindsFull table.id (table.pageCount s.engine.disk) 0 s.engine
  · rw [hgrow hfull]
    exact .inr ⟨h.not_vacant_of_findsFull (h.own_id ht) hfull.2 t, rfl,
      Table.pageCount_grow hst hs (Table.small_grow hst hs hn)⟩
  · exact .inl (hkeep hfull)

/-! ### A page that was added in vain -/

/-- The action changes no page of the table and drops none. -/
def Leaves (table : Table) (s : Session) (a : Action) : Prop :=
  a.isPlainOrDiscard = true ∧ ∀ id, s.altered a = some id → id.table ≠ table.id

instance (table : Table) (s : Session) (a : Action) : Decidable (Leaves table s a) :=
  decidable_of_iff (a.isPlainOrDiscard = true ∧ ∀ id ∈ s.altered a, id.table ≠ table.id) Iff.rfl

/-- Page `n` of the table is its last one and empty, and all others are full. -/
structure Spare (s : Session) (table : Table) (n : Nat) : Prop where
  count : table.pageCount s.engine.disk = n + 1
  full : ∀ k < n, ∃ p, s.engine.Shows ⟨table.id, k⟩ p ∧ ∀ i < table.layout.numSlots, p.row i ≠ none
  empty : ∃ p, s.engine.Shows ⟨table.id, n⟩ p ∧ ∀ i, p.row i = none

variable {n : Nat}

theorem Leaves.not_altered (h : s.Leaves table a) (k : Nat) : s.altered a ≠ some ⟨table.id, k⟩ :=
  fun heq => h.2 _ heq rfl

theorem Spare.vacant (h : s.Spare table n) (ht : s.engine.table? table.id = some table) :
    s.engine.Vacant table ⟨⟨table.id, n⟩, 0⟩ := by
  obtain ⟨p, hp, hempty⟩ := h.empty
  have hlt : n < table.pageCount s.engine.disk := by rw [h.count]; exact Nat.lt_succ_self n
  refine ⟨rfl, hlt, table.layout.numSlots_pos, ?_⟩
  rw [Engine.Shows.row_eq (r := ⟨⟨table.id, n⟩, 0⟩) hp ⟨table, ht, hlt⟩]
  exact hempty 0

/-- The first free slot is the first one of the spare page. -/
theorem Spare.lands (h : s.Spare table n) (ht : s.engine.table? table.id = some table) {rid : RecordId}
    (hl : s.engine.Lands table rid) : rid = ⟨⟨table.id, n⟩, 0⟩ := by
  rcases hl.first _ (h.vacant ht) with heq | hlt | ⟨-, hlt⟩
  · exact heq.symm
  · -- the pages before the spare one have no room
    obtain ⟨p, hp, hfull⟩ := h.full rid.page.page hlt
    have hpage := hl.vacant.page_eq rfl
    rw [← hpage] at hp
    exact absurd ((hp.row_eq (hl.vacant.readable ht)).symm.trans hl.vacant.row)
      (hfull _ hl.vacant.slot)
  · exact absurd hlt (Nat.not_lt_zero _)

theorem spare_step (h : s.engine.Faithful s.held) (ht : s.engine.table? table.id = some table)
    (hs : table.Small s.engine.disk) (hspare : s.Spare table n) (ha : s.Leaves table a) :
    (s.step a).2.Spare table n ∧ table.Small (s.step a).2.engine.disk := by
  have hshows : ∀ k p, s.engine.Shows ⟨table.id, k⟩ p → (s.step a).2.engine.Shows ⟨table.id, k⟩ p :=
    fun k p hp => shows_step h.toOrderly (.of_plain ha.1) (ha.not_altered k) hp
  have hspan : table.span (s.step a).2.engine.disk = table.span s.engine.disk := by
    rcases span_step h ht a with heq | ⟨k, txn, t, -, hfull⟩
    · exact heq
    · exact absurd (hspare.vacant ht) (h.not_vacant_of_findsFull ht hfull.2.2 t _)
  refine ⟨⟨?_, fun k hk => ?_, ?_⟩, ?_⟩
  · rw [table.pageCount_eq, hspan, ← table.pageCount_eq, hspare.count]
  · obtain ⟨p, hp, hfull⟩ := hspare.full k hk
    exact ⟨p, hshows k p hp, hfull⟩
  · obtain ⟨p, hp, hempty⟩ := hspare.empty
    exact ⟨p, hshows n p hp, hempty⟩
  · rw [Table.small_iff_span, hspan]
    exact Table.small_iff_span.1 hs

/-- A page behind the last one is seen as an empty page already. -/
theorem shows_behind (h : s.engine.Faithful s.held) (ht : s.engine.table? table.id = some table)
    (hs : table.Small s.engine.disk) :
    ∃ p, s.engine.Shows ⟨table.id, table.pageCount s.engine.disk⟩ p ∧ ∀ i, p.row i = none := by
  obtain ⟨p, hof, -, -, -, hempty⟩ :=
    Page.ofBytes_zeros ⟨table.id, table.pageCount s.engine.disk⟩ table
  have hstored : s.engine.stored ⟨table.id, table.pageCount s.engine.disk⟩ = some p := by
    refine (Engine.stored_eq_some ht).2 ?_
    rw [← hof]
    exact congrArg _ (Table.window_of_pageCount_le hs (Nat.le_refl _))
  refine ⟨p, .inr ⟨?_, Engine.filed_of_stored hstored⟩, fun i => Page.row_eq_none_iff.2 (hempty i)⟩
  cases hres : s.engine.pool.page? ⟨table.id, table.pageCount s.engine.disk⟩ with
  | none => rfl
  | some q =>
    have hin := h.within _ q table hres ht
    exact absurd ((hs.lt_pageCount_iff _).2 hin) (Nat.lt_irrefl _)

/-- A table without a free slot shows a full page under every number. -/
theorem shows_full (h : s.engine.Faithful s.held)
    (hfull : ∀ r, ¬ s.engine.Vacant table r) {k : Nat} (hk : k < table.pageCount s.engine.disk) :
    ∃ p, s.engine.Shows ⟨table.id, k⟩ p ∧ ∀ i < table.layout.numSlots, p.row i ≠ none := by
  have hrow : ∀ i < table.layout.numSlots, s.engine.rows ⟨⟨table.id, k⟩, i⟩ ≠ none :=
    fun i hi hnone => hfull ⟨⟨table.id, k⟩, i⟩ ⟨rfl, hk, hi, hnone⟩
  cases hp : s.engine.logical ⟨table.id, k⟩ with
  | none =>
    refine absurd ?_ (hrow 0 table.layout.numSlots_pos)
    rw [Engine.rows, hp]
    rfl
  | some p =>
    refine ⟨p, (h.recovers _).shows_of_logical hp, fun i hi => ?_⟩
    have := hrow i hi
    rwa [Engine.rows, hp] at this

/-- A table that grows is full, and the new page was empty before it was there. -/
theorem spare_of_grown (h : s.engine.Faithful s.held) (ht : s.engine.table? table.id = some table)
    (hs : table.Small s.engine.disk) (hn : table.pageCount s.engine.disk < 0xFFFFFFFF) (ha : s.Leaves table a)
    (hdisk : (s.step a).2.engine.disk = table.grow s.engine.disk)
    (hfull : ∀ r, ¬ s.engine.Vacant table r) :
    (s.step a).2.Spare table (table.pageCount s.engine.disk) ∧ table.Small (s.step a).2.engine.disk := by
  have hst := h.stands _ table ht
  have hsmall := Table.small_grow hst hs hn
  have hshows : ∀ k p, s.engine.Shows ⟨table.id, k⟩ p → (s.step a).2.engine.Shows ⟨table.id, k⟩ p :=
    fun k p hp => shows_step h.toOrderly (.of_plain ha.1) (ha.not_altered k) hp
  rw [← hdisk] at hsmall
  refine ⟨⟨?_, fun k hk => ?_, ?_⟩, hsmall⟩
  · rw [hdisk] at hsmall ⊢
    exact Table.pageCount_grow hst hs hsmall
  · obtain ⟨p, hp, hused⟩ := shows_full h hfull hk
    exact ⟨p, hshows k p hp, hused⟩
  · obtain ⟨p, hp, hempty⟩ := shows_behind h ht hs
    exact ⟨p, hshows _ p hp, hempty⟩

/-- Where no page of a table is changed or dropped, the table grows once at most, and by a spare page. -/
theorem spare_run (h : s.engine.Faithful s.held) (ht : s.engine.table? table.id = some table)
    (hs : table.Small s.engine.disk) (hn : n < 0xFFFFFFFF)
    (hcount : table.pageCount s.engine.disk = n ∨ s.Spare table n) {as : List Action}
    (has : s.Along (Leaves table) as) : (s.after as).engine.Faithful (s.after as).held ∧
      (s.after as).engine.table? table.id = some table ∧ table.Small (s.after as).engine.disk ∧
      (table.pageCount (s.after as).engine.disk = n ∨ (s.after as).Spare table n) := by
  induction as generalizing s with
  | nil => exact ⟨h, ht, hs, hcount⟩
  | cons a as ih =>
    obtain ⟨ha, has⟩ := has
    have h' := faithful_step h ha.1
    have ht' := (Engine.table?_congr (orderly_step h.toOrderly (.of_plain ha.1)).2 table.id).trans ht
    rcases hcount with rfl | hspare
    · rcases span_step h ht a with hspan | ⟨k, txn, t, rfl, hfull⟩
      · refine ih h' ht' ?_ (.inl ?_) has
        · rw [Table.small_iff_span, hspan]
          exact Table.small_iff_span.1 hs
        · rw [table.pageCount_eq, hspan, ← table.pageCount_eq]
      · obtain ⟨hspare, hs'⟩ := spare_of_grown h ht hs hn ha (disk_of_findsFull hfull txn)
          (h.not_vacant_of_findsFull ht hfull.2.2 t)
        exact ih h' ht' hs' (.inr hspare) has
    · obtain ⟨hspare', hs'⟩ := spare_step h ht hs hspare ha
      exact ih h' ht' hs' (.inr hspare') has

/-- The next tuple goes to the spare page, and the table does not grow again. -/
theorem Spare.insert (hspare : s.Spare table n) (h : s.engine.Faithful s.held)
    (ht : s.engine.table? table.id = some table) {k : Nat} (hk : s.engine.table? k = some table)
    {txn : TxnId} {t t' : Tuple} {rid : RecordId} {e' : Engine}
    (hins : s.engine.insert k txn t = (.ok rid, t', e')) :
    rid = ⟨⟨table.id, n⟩, 0⟩ ∧ table.pageCount e'.disk = n + 1 := by
  rw [insert_eq_insertTuple hk] at hins
  have hok : (s.engine.insertTuple table txn t).1 = .ok rid := by rw [hins]
  have hlands := (h.insertTuple_lands ht hok).1
  rw [hins] at hlands
  rcases hlands with ⟨hl, hdisk⟩ | ⟨hfull, -⟩
  · exact ⟨hspare.lands ht hl, (congrArg table.pageCount hdisk).trans hspare.count⟩
  · exact absurd (hspare.vacant ht) (hfull _)

/-- An insert takes the first free slot of its table. The table grows by a page only if no slot is free,
and while no tuple is stored in it or removed from it, and none of its pages is dropped, not by a second
one: the next tuple goes to the start of the page that was added. -/
theorem insert_placement {d : Disk} (m : Nat) {ts : List Table} (hts : ∀ t ∈ ts, t.Stands d)
    {as : List Action} (has : ∀ a ∈ as, a.isPlainOrDiscard = true) {s : Session}
    (hrun : s = (start d m ts).after as) {k : Nat} {table : Table}
    (ht : s.engine.table? k = some table) (hs : table.Small s.engine.disk)
    (hn : table.pageCount s.engine.disk < 0xFFFFFFFF) :
    (∀ txn t rid t' e', s.engine.insert k txn t = (.ok rid, t', e') →
      Places s.engine table txn rid t' e') ∧
    (∀ txn t, (s.engine.insert k txn t).2.2.disk = s.engine.disk ∨
      (∀ r, ¬ s.engine.Vacant table r) ∧
        (s.engine.insert k txn t).2.2.disk = table.grow s.engine.disk ∧
        table.pageCount (s.engine.insert k txn t).2.2.disk = table.pageCount s.engine.disk + 1) ∧
    ∀ bs, s.Along (Leaves table) bs →
      table.pageCount (s.after bs).engine.disk = table.pageCount s.engine.disk ∨
      table.pageCount (s.after bs).engine.disk = table.pageCount s.engine.disk + 1 ∧
        ∀ txn t rid t' e', (s.after bs).engine.insert k txn t = (.ok rid, t', e') →
          rid = ⟨⟨table.id, table.pageCount s.engine.disk⟩, 0⟩ ∧
            table.pageCount e'.disk = table.pageCount s.engine.disk + 1 := by
  have h : s.engine.Faithful s.held := by
    rw [hrun]
    exact faithful_run (start_faithful m hts) has
  refine ⟨fun txn t rid t' e' hins => places_insert h ht hs hn hins,
    fun txn t => insert_grows h ht hs hn txn t, fun bs hbs => ?_⟩
  obtain ⟨h', ht', -, hcases⟩ := spare_run h (h.own_id ht) hs hn (.inl rfl) hbs
  refine hcases.imp_right fun hspare => ⟨hspare.count, fun txn t rid t' e' hins => ?_⟩
  have hk : table.id = k := h.own k table ht
  exact hspare.insert h' ht' (hk ▸ ht') hins

/-- The only frame has a full page that is dirty, so a page is added in vain; then the full page is
written back. -/
def vainRun : List Action := [.insert tinyTable.id ⟨2⟩ (tinyTuple 9 none), .flushAll]

/-- The next tuple finds the page that was added. -/
theorem insert_placement_vain :
    (∀ t ∈ [tinyTable], t.Stands tinyDisk) ∧ (∀ a ∈ twoWriters, a.isPlainOrDiscard = true) ∧
      ((start tinyDisk 1 [tinyTable]).after twoWriters).Along (Leaves tinyTable) vainRun ∧
      tinyTable.pageCount ((start tinyDisk 1 [tinyTable]).after (twoWriters ++ vainRun)).engine.disk = 2 ∧
      ∀ txn t rid t' e',
        ((start tinyDisk 1 [tinyTable]).after (twoWriters ++ vainRun)).engine.insert tinyTable.id txn t =
          (.ok rid, t', e') → rid = ⟨tinyPage 1, 0⟩ ∧ tinyTable.pageCount e'.disk = 2 := by
  have hts : ∀ t ∈ [tinyTable], t.Stands tinyDisk := fun t ht => (tinyDisk_ready t ht).1
  have has : ∀ a ∈ twoWriters, a.isPlainOrDiscard = true := by decide
  have hbs : ((start tinyDisk 1 [tinyTable]).after twoWriters).Along (Leaves tinyTable) vainRun := by
    decide +kernel
  have hcount : tinyTable.pageCount ((start tinyDisk 1 [tinyTable]).after twoWriters).engine.disk = 1 := by
    decide +kernel
  have hgrown : tinyTable.pageCount
      ((start tinyDisk 1 [tinyTable]).after (twoWriters ++ vainRun)).engine.disk = 2 := by
    decide +kernel
  refine ⟨hts, has, hbs, hgrown, ?_⟩
  have htable : ((start tinyDisk 1 [tinyTable]).after twoWriters).engine.table? tinyTable.id =
      some tinyTable := by decide +kernel
  have hplace := insert_placement 1 hts has rfl htable (by decide +kernel) (by rw [hcount]; decide)
  rw [after_append] at hgrown ⊢
  rcases hplace.2.2 vainRun hbs with hsame | ⟨-, hnext⟩
  · rw [hgrown, hcount] at hsame
    cases hsame
  · rw [hcount] at hnext
    exact hnext

/-- If the full page is dropped, the next tuple goes there, and the page that was added stays empty. -/
theorem insert_fills_dropped_page :
    tinyTable.pageCount ((start tinyDisk 1 [tinyTable]).after twoWriters).engine.disk = 1 ∧
      (((start tinyDisk 1 [tinyTable]).after twoWriters).step
        (.insert tinyTable.id ⟨2⟩ (tinyTuple 9 none))).1 = .error .poolFull ∧
      tinyTable.pageCount (((start tinyDisk 1 [tinyTable]).after twoWriters).step
        (.insert tinyTable.id ⟨2⟩ (tinyTuple 9 none))).2.engine.disk = 2 ∧
      ((((((start tinyDisk 1 [tinyTable]).after twoWriters).step
        (.insert tinyTable.id ⟨2⟩ (tinyTuple 9 none))).2.step (.discard (tinyPage 0))).2.step
        (.insert tinyTable.id ⟨3⟩ (tinyTuple 9 none))).1) = .ok (.record ⟨tinyPage 0, 0⟩) := by
  decide +kernel

end Session

end HeapStore
