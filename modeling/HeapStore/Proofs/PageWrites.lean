import HeapStore.Proofs.CheckoutOutcome
import HeapStore.Proofs.ShownPages

/-! Writing pages to a table's file. A table writes every page that bears its id, at the place of the
page's number. A page of the table's own page size stays within its window there; other pages leave a part
of the window as it is, or reach into the next one. The number of pages is exact, and counts all pages that
were written, as long as there are fewer than 2³² of them. -/

namespace HeapStore

theorem Page.Made.toBytes_ne_nil {p : Page} (h : p.Made) : p.toBytes ≠ [] :=
  List.ne_nil_of_length_pos (h.sound.length_toBytes ▸ p.layout.pageSize_pos)

namespace Table

/-- Only the window of page `n` has changed: all of it comes from these bytes, and the file reaches up to
its end. -/
structure Fills (t : Table) (n : Nat) (data : Bytes) (d d' : Disk) : Prop where
  outside : ∀ i, i < n * t.pageSize ∨ (n + 1) * t.pageSize ≤ i →
    (d'.contents t.path).byteAt i = (d.contents t.path).byteAt i
  inside : ∀ i < t.pageSize, data[i]? = some ((d'.contents t.path).byteAt (n * t.pageSize + i))
  size : (d'.contents t.path).size = max (d.contents t.path).size ((n + 1) * t.pageSize)

/-- The disk after pages were written, one after the other. -/
def writePages (t : Table) (d : Disk) (ps : List Page) : Disk :=
  ps.foldl (fun d p => (t.writePage d p).2.2) d

variable {t : Table} {d : Disk} {p : Page} {ps : List Page} {n k : Nat} {data : Bytes}

/-! ### One page -/

theorem writePage_of_ne (h : p.id.table ≠ t.id) :
    t.writePage d p = (.error (.invalidPage p.id (t.pageCount d)), p, d) := if_pos h

theorem fills_store (h : t.Stands d) (hl : data.length = t.pageSize) :
    t.Fills n data d (t.store d n data) where
  outside i hi := by
    rw [byteAt_store_self h, if_neg]
    rw [Nat.add_one_mul] at hi
    omega
  inside i hi := by
    rw [byteAt_store_self h, if_pos (by omega), Nat.add_sub_cancel_left, List.getD_eq_getElem?_getD,
      List.getElem?_eq_getElem (by omega), Option.getD_some]
  size := by rw [size_store h hl, Nat.add_one_mul]

theorem node?_store_of_ne {path : String} (h : path ≠ t.path) :
    (t.store d n data).node? path = d.node? path := d.node?_put_of_ne h _

/-- A table writes each page of its id and refuses every other. What is written are the page's bytes, from
the place of its number on, and nothing else changes; so a page of the table's page size stays within its
window. -/
theorem writePage_exact (hd : t.Stands d) (hp : p.Made) (hn : p.id.page < 0x100000000) :
    (p.id.table ≠ t.id → t.writePage d p = (.error (.invalidPage p.id (t.pageCount d)), p, d)) ∧
    (p.id.table = t.id → ∃ d', t.writePage d p = (.ok (), p.withBefore p.toBytes, d') ∧
      (∀ i, (d'.contents t.path).byteAt i =
        if p.id.page * t.pageSize ≤ i ∧ i < p.id.page * t.pageSize + p.layout.pageSize then
          p.toBytes.getD (i - p.id.page * t.pageSize) 0
        else (d.contents t.path).byteAt i) ∧
      (d'.contents t.path).size =
        max (d.contents t.path).size (p.id.page * t.pageSize + p.layout.pageSize) ∧
      (∀ path, path ≠ t.path → d'.node? path = d.node? path) ∧
      (p.layout.pageSize = t.pageSize → t.Fills p.id.page p.toBytes d d')) := by
  have hlen := hp.sound.length_toBytes
  refine ⟨writePage_of_ne, fun hid => ⟨_, t.writePage_eq d hp.sound hid hn, fun i => ?_, ?_,
    fun path hpath => node?_store_of_ne hpath, fun hsize => fills_store hd (hlen.trans hsize)⟩⟩
  · rw [byteAt_store_self hd, hlen]
  · rw [size_store_self hd hp.toBytes_ne_nil, hlen]

end Table

/-- A page with one row. -/
def tinyRow (n : Nat) (v : Int32) : Page := (tinyEmpty n).after [.insert (tinyTuple v none)]

/-- The second page has a row. -/
def tinyRowDisk : Disk := tinyTable.writePages tinyDisk [tinyRow 1 7]

/-- A page of 13 bytes with three rows, which bears the id of the table's first page. -/
def tinyWide : Page := Holdings.largePage.after
  [.insert (tinyTuple 0 none), .insert (tinyTuple 1 none), .insert (tinyTuple 2 none)]

theorem made_tinyRow (n : Nat) (v : Int32) : (tinyRow n v).Made :=
  ⟨tinyPage n, tinySchema, 9, tinyEmpty n, _, .inl rfl, rfl⟩

theorem made_tinyWide : tinyWide.Made :=
  ⟨tinyPage 0, tinySchema, 13, Holdings.largePage, _, .inl rfl, rfl⟩

namespace Table

variable {t : Table} {d : Disk} {p : Page} {ps : List Page} {n k : Nat} {data : Bytes}

/-- The row goes to the second page, and the file has zeros before it. -/
theorem writePage_exact_gap : tinyTable.Stands tinyDisk ∧ (tinyRow 1 7).Made ∧
    (tinyTable.writePage tinyDisk (tinyRow 1 7)).1 = .ok () ∧
    tinyTable.Fills 1 (tinyRow 1 7).toBytes tinyDisk tinyRowDisk ∧
    ((tinyRowDisk.contents "/t").toBytes = [0, 0, 0, 0, 0, 0, 0, 0, 0, 1, 0, 0, 0, 7, 0, 0, 0, 0]) := by
  have hd := (tinyDisk_ready tinyTable List.mem_cons_self).1
  obtain ⟨-, hwritten⟩ := writePage_exact hd (made_tinyRow 1 7) (by decide)
  obtain ⟨d', heq, -, -, -, hfills⟩ := hwritten rfl
  obtain rfl : tinyRowDisk = d' := congrArg (·.2.2) heq
  exact ⟨hd, made_tinyRow 1 7, congrArg (·.1) heq, hfills rfl, by decide +kernel⟩

/-- A larger page is written over the start of the next one. -/
theorem writePage_leaves_window : tinyWide.Made ∧
      (tinyTable.writePage tinyRowDisk tinyWide).1 = .ok () ∧
      ¬ tinyTable.Fills 0 tinyWide.toBytes tinyRowDisk (tinyTable.writePage tinyRowDisk tinyWide).2.2 ∧
      ((tinyTable.readPage tinyRowDisk (tinyPage 1)).toOption.map fun p => p.row 0) = some (some [.int 7]) ∧
      ((tinyTable.readPage (tinyTable.writePage tinyRowDisk tinyWide).2.2 (tinyPage 1)).toOption.map
        fun p => p.row 0) = some none := by
  refine ⟨made_tinyWide, by decide +kernel, fun h => ?_, by decide +kernel, by decide +kernel⟩
  have hbyte := h.outside 9 (.inr (by decide))
  revert hbyte
  decide +kernel

/-! ### The number of pages -/

/-- The count is exact just while it fits into 32 bits. -/
theorem pageCount_eq_span_iff : t.pageCount d = t.span d ↔ t.Small d := by
  rw [small_iff_span, pageCount_eq, Nat.mod_eq_iff_lt (by decide)]

theorem Small.lt_pageCount (h : t.Small d) (hk : t.Reaches d k) : k < t.pageCount d :=
  (h.lt_pageCount_iff k).2 hk

theorem readPage_ne_invalidPage (h : n < t.pageCount d) (id : PageId) (count : Nat) :
    t.readPage d ⟨t.id, n⟩ ≠ .error (.invalidPage id count) := by
  rw [readPage_eq, if_pos h]
  intro hread
  obtain ⟨i, cause, herr⟩ := ofBytes_window_eq_error hread
  cases herr

theorem small_store_iff (hd : t.Stands d) (hdata : data ≠ []) : t.Small (t.store d n data) ↔
    t.Small d ∧ n * t.pageSize + data.length ≤ 0xFFFFFFFF * t.pageSize := by
  unfold Small
  rw [size_store_self hd hdata, Nat.max_le]

/-- A write either leaves the disk alone or stores the page's bytes. -/
theorem disk_writePage (hp : p.Sound) (hn : p.id.page < 0x100000000) :
    (t.writePage d p).2.2 = if p.id.table = t.id then t.store d p.id.page p.toBytes else d := by
  split
  · next hid => rw [t.writePage_eq d hp hid hn]
  · next hid => rw [writePage_of_ne hid]

section

variable (hp : p.Made) (hn : p.id.page < 0x100000000) (hd : t.Stands d)
include hp hn hd

theorem stands_writePage : t.Stands (t.writePage d p).2.2 := by
  rw [disk_writePage hp.sound hn]
  split
  · exact hd.store hd
  · exact hd

theorem size_le_writePage :
    (d.contents t.path).size ≤ ((t.writePage d p).2.2.contents t.path).size := by
  rw [disk_writePage hp.sound hn]
  split
  · rw [size_store_self hd hp.toBytes_ne_nil]
    exact Nat.le_max_left ..
  · exact Nat.le_refl _

theorem small_writePage_iff : t.Small (t.writePage d p).2.2 ↔ t.Small d ∧
    (p.id.table = t.id → p.id.page * t.pageSize + p.layout.pageSize ≤ 0xFFFFFFFF * t.pageSize) := by
  rw [disk_writePage hp.sound hn]
  split
  · next hid => rw [small_store_iff hd hp.toBytes_ne_nil, hp.sound.length_toBytes, imp_iff_right hid]
  · next hid => rw [iff_self_and]; exact fun _ h => absurd h hid

theorem reaches_writePage (hid : p.id.table = t.id) : t.Reaches (t.writePage d p).2.2 p.id.page := by
  have hpos := p.layout.pageSize_pos
  rw [t.writePage_eq d hp.sound hid hn]
  unfold Reaches
  rw [size_store_self hd hp.toBytes_ne_nil, hp.sound.length_toBytes]
  omega

end

section

variable (hps : ∀ p ∈ ps, p.Made ∧ p.id.page < 0x100000000) (hd : t.Stands d)
include hps hd

theorem stands_writePages : t.Stands (t.writePages d ps) := by
  induction ps generalizing d with
  | nil => exact hd
  | cons p ps ih =>
    obtain ⟨⟨hp, hn⟩, hrest⟩ := List.forall_mem_cons.1 hps
    exact ih hrest (stands_writePage hp hn hd)

/-- No file becomes shorter. -/
theorem size_le_writePages :
    (d.contents t.path).size ≤ ((t.writePages d ps).contents t.path).size := by
  induction ps generalizing d with
  | nil => exact Nat.le_refl _
  | cons p ps ih =>
    obtain ⟨⟨hp, hn⟩, hrest⟩ := List.forall_mem_cons.1 hps
    exact Nat.le_trans (size_le_writePage hp hn hd) (ih hrest (stands_writePage hp hn hd))

/-- The file stays small as long as no page reaches past the end of the last page that is counted. -/
theorem small_writePages_iff : t.Small (t.writePages d ps) ↔ t.Small d ∧ ∀ p ∈ ps, p.id.table = t.id →
    p.id.page * t.pageSize + p.layout.pageSize ≤ 0xFFFFFFFF * t.pageSize := by
  induction ps generalizing d with
  | nil => simp [writePages]
  | cons p ps ih =>
    obtain ⟨⟨hp, hn⟩, hrest⟩ := List.forall_mem_cons.1 hps
    rw [List.forall_mem_cons, ← and_assoc, ← small_writePage_iff hp hn hd]
    exact ih hrest (stands_writePage hp hn hd)

theorem reaches_writePages (hp : p ∈ ps) (hid : p.id.table = t.id) :
    t.Reaches (t.writePages d ps) p.id.page := by
  induction ps generalizing d with
  | nil => cases hp
  | cons q ps ih =>
    obtain ⟨⟨hq, hn⟩, hrest⟩ := List.forall_mem_cons.1 hps
    have hd' := stands_writePage hq hn hd
    rcases List.mem_cons.1 hp with rfl | hp
    · exact Nat.lt_of_lt_of_le (reaches_writePage hq hn hd hid) (size_le_writePages hrest hd')
    · exact ih hrest hd' hp

end

/-- The number of pages is told exactly just while the file is small, that is, as long as neither it was
large before nor a page was written to its last place. Till then every page that was written is counted
and can be read, and no insert appends a page at the number of one that is there. -/
theorem pageCount_exact (hd : t.Stands d) (hps : ∀ p ∈ ps, p.Made ∧ p.id.page < 0x100000000) :
    (t.pageCount (t.writePages d ps) = t.span (t.writePages d ps) ↔ t.Small (t.writePages d ps)) ∧
    (t.Small (t.writePages d ps) ↔ t.Small d ∧ ∀ p ∈ ps, p.id.table = t.id →
      p.id.page * t.pageSize + p.layout.pageSize ≤ 0xFFFFFFFF * t.pageSize) ∧
    (t.Small (t.writePages d ps) → ∀ p ∈ ps, p.id.table = t.id →
      p.id.page < t.pageCount (t.writePages d ps) ∧
        ∀ id count, t.readPage (t.writePages d ps) p.id ≠ .error (.invalidPage id count)) ∧
    ∀ e : Engine, t.Small e.disk → ∀ txn tuple,
      (e.insertTuple t txn tuple).2.2.disk = e.disk ∨
        ∃ m, (e.insertTuple t txn tuple).2.2.disk = t.store e.disk m (zeros t.pageSize) ∧
          ∀ k, t.Reaches e.disk k → k < m := by
  refine ⟨pageCount_eq_span_iff, small_writePages_iff hps hd, fun hs p hp hid => ?_, fun e hs txn tuple => ?_⟩
  · have hlt := hs.lt_pageCount (reaches_writePages hps hd hp hid)
    refine ⟨hlt, ?_⟩
    have hpage : p.id = ⟨t.id, p.id.page⟩ := by rw [← hid]
    rw [hpage]
    exact readPage_ne_invalidPage hlt
  · obtain ⟨hgrown, hsame⟩ := e.disk_insertTuple t txn tuple
    by_cases hfull : tuple.checkSchema t.schema = .ok () ∧
        Engine.FindsFull t.id (t.pageCount e.disk) 0 e
    · exact .inr ⟨t.pageCount e.disk, hgrown hfull, fun k hk => hs.lt_pageCount hk⟩
    · exact .inl (hsame hfull)

/-- The first page of the table has a row, and so has the page with this number. -/
def tinyFarDisk (n : Nat) : Disk := tinyTable.writePages tinyDisk [tinyRow 0 7, tinyRow n 8]

/-- The last page but one that a number can name is counted and read. -/
theorem pageCount_exact_last : tinyTable.Stands tinyDisk ∧
    (∀ p ∈ [tinyRow 0 7, tinyRow 0xFFFFFFFE 8], p.Made ∧ p.id.page < 0x100000000) ∧
    tinyTable.Small (tinyFarDisk 0xFFFFFFFE) ∧
    tinyTable.pageCount (tinyFarDisk 0xFFFFFFFE) = tinyTable.span (tinyFarDisk 0xFFFFFFFE) ∧
    0xFFFFFFFE < tinyTable.pageCount (tinyFarDisk 0xFFFFFFFE) ∧
    ((tinyTable.readPage (tinyFarDisk 0xFFFFFFFE) (tinyPage 0xFFFFFFFE)).toOption.map fun p => p.row 0) =
      some (some [.int 8]) := by
  have hd := (tinyDisk_ready tinyTable List.mem_cons_self).1
  have hps : ∀ p ∈ [tinyRow 0 7, tinyRow 0xFFFFFFFE 8], p.Made ∧ p.id.page < 0x100000000 := by
    intro p hp
    rcases List.mem_pair.1 hp with rfl | rfl
    · exact ⟨made_tinyRow 0 7, by decide⟩
    · exact ⟨made_tinyRow 0xFFFFFFFE 8, by decide⟩
  have hs : tinyTable.Small (tinyFarDisk 0xFFFFFFFE) := by decide +kernel
  obtain ⟨hcount, -, hcounted, -⟩ := pageCount_exact hd hps
  have hlast := (hcounted hs (tinyRow 0xFFFFFFFE 8) (List.mem_cons_of_mem _ List.mem_cons_self) rfl).1
  exact ⟨hd, hps, hs, hcount.2 hs, hlast, by decide +kernel⟩

/-- The very last page leaves no page that is counted. It cannot be read, and the next insert appends a page
over the first one, whose row is lost. -/
theorem pageCount_wraps :
    (tinyTable.writePage (tinyTable.writePages tinyDisk [tinyRow 0 7]) (tinyRow 0xFFFFFFFF 8)).1 = .ok () ∧
      tinyTable.span (tinyFarDisk 0xFFFFFFFF) = 0x100000000 ∧
      tinyTable.pageCount (tinyFarDisk 0xFFFFFFFF) = 0 ∧
      tinyTable.readPage (tinyFarDisk 0xFFFFFFFF) (tinyPage 0xFFFFFFFF) =
        .error (.invalidPage (tinyPage 0xFFFFFFFF) 0) ∧
      tinyTable.window (tinyFarDisk 0xFFFFFFFF) 0 = [1, 0, 0, 0, 7, 0, 0, 0, 0] ∧
      tinyTable.window ((Session.start (tinyFarDisk 0xFFFFFFFF) 2 [tinyTable]).engine.insertTuple tinyTable
        ⟨1⟩ (tinyTuple 9 none)).2.2.disk 0 = zeros 9 := by
  have hcount : tinyTable.pageCount (tinyFarDisk 0xFFFFFFFF) = 0 := by decide +kernel
  have hread : tinyTable.readPage (tinyFarDisk 0xFFFFFFFF) (tinyPage 0xFFFFFFFF) =
      .error (.invalidPage (tinyPage 0xFFFFFFFF) (tinyTable.pageCount (tinyFarDisk 0xFFFFFFFF))) :=
    if_pos (.inr (hcount ▸ Nat.zero_le _))
  rw [hcount] at hread
  exact ⟨by decide +kernel, by decide +kernel, hcount, hread, by decide +kernel, by decide +kernel⟩

end Table

end HeapStore
