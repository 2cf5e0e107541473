import Mathlib
import HeapStore.Proofs.FileOpening
import HeapStore.Proofs.PageWrites

/-! The last write of a page wins. After any writes of a table's own pages, in any order, each page is read
as it was written last; a page that was not written is read as the file had it, with zeros past its end.
All this is in the file, so that the table can be opened anew. -/

namespace HeapStore

/-- A window is cut out of the bytes of the file, and filled up with zeros. -/
theorem Contents.window_eq_rightpad (c : Contents) (offset n : Nat) :
    c.window offset n = List.rightpad n 0 ((c.toBytes.drop offset).take n) := by
  have hlen : ((c.toBytes.drop offset).take n).length = min n (c.size - offset) := by
    rw [List.length_take, List.length_drop, c.length_toBytes]
  apply List.ext_getElem?
  intro i
  unfold List.rightpad
  by_cases hi : i < n
  · rw [getElem?_window c offset hi]
    by_cases hin : offset + i < c.size
    · rw [List.getElem?_append_left (by omega), List.getElem?_take_of_lt hi, List.getElem?_drop,
        getElem?_toBytes hin]
    · rw [List.getElem?_append_right (by omega), List.getElem?_replicate_of_lt (by omega),
        byteAt_of_size_le (by omega)]
  · rw [List.getElem?_eq_none (by rw [length_window]; omega), List.getElem?_eq_none]
    rw [List.length_append, List.length_replicate]
    omega

namespace Table

/-- The page is one of the table's own: it has the table's id, schema and page size. -/
structure Owns (t : Table) (p : Page) : Prop where
  made : p.Made
  table : p.id.table = t.id
  number : p.id.page < 0x100000000
  schema : p.schema = t.schema
  pageSize : p.layout.pageSize = t.pageSize

/-- Reading gives a clean page with what is on this one. -/
def Returns (t : Table) (d : Disk) (p : Page) : Prop :=
  ∃ q, t.readPage d p.id = .ok q ∧ q.id = p.id ∧ q.dirtiedBy = none ∧ q.header = p.header ∧
    (∀ slot, q.isSlotUsed slot = p.isSlotUsed slot) ∧ ∀ slot, q.entry slot = p.entry slot

variable {t : Table} {d : Disk} {p : Page} {ps before later : List Page} {n : Nat}

theorem Owns.fits (h : t.Owns p) : p.Fits t := ⟨h.made.sound, h.table, h.pageSize, h.number⟩

theorem Owns.id_eq (h : t.Owns p) : p.id = ⟨t.id, p.id.page⟩ := by rw [← h.table]

theorem Owns.kind (h : t.Owns p) : p.Kind ⟨t.id, p.id.page⟩ t.schema t.pageSize :=
  ⟨h.made.sound, h.id_eq, h.schema, h.pageSize⟩

theorem writePages_append (t : Table) (d : Disk) (ps qs : List Page) :
    t.writePages d (ps ++ qs) = t.writePages (t.writePages d ps) qs := List.foldl_append ..

theorem writePages_cons (h : t.Owns p) :
    t.writePages d (p :: ps) = t.writePages (t.store d p.id.page p.toBytes) ps := by
  have hwrite := congrArg (·.2.2) (h.fits.writePage_eq d)
  exact congrArg (t.writePages · ps) hwrite

theorem IsOpen.writePages (h : t.IsOpen d) (hps : ∀ p ∈ ps, t.Owns p) : t.IsOpen (t.writePages d ps) := by
  induction ps generalizing d with
  | nil => exact h
  | cons p ps ih =>
    obtain ⟨hp, hrest⟩ := List.forall_mem_cons.1 hps
    rw [writePages_cons hp]
    exact ih (h.store _ _) hrest

theorem writePages_eq_storeAll (d : Disk) (hps : ∀ p ∈ ps, t.Owns p) :
    t.writePages d ps = storeAll (ps.map fun p => (t, p)) d := by
  induction ps generalizing d with
  | nil => rfl
  | cons p ps ih =>
    obtain ⟨hp, hrest⟩ := List.forall_mem_cons.1 hps
    rw [writePages_cons hp]
    exact ih _ hrest

/-- A window is left as it is by pages with other numbers. -/
theorem window_writePages_of_ne (hd : t.Stands d) (hps : ∀ p ∈ ps, t.Owns p)
    (hn : ∀ p ∈ ps, p.id.page ≠ n) : t.window (t.writePages d ps) n = t.window d n := by
  have hmounted : Mounted (· = t) d := ⟨by rintro u rfl; exact hd, by rintro u v rfl rfl -; rfl⟩
  have hws : ∀ w ∈ ps.map fun p => (t, p), w.1 = t ∧ w.2.Fits w.1 :=
    List.forall_mem_map.2 fun p hp => ⟨rfl, (hps p hp).fits⟩
  rw [writePages_eq_storeAll d hps]
  exact hmounted.window_storeAll_of_ne hws rfl (List.forall_mem_map.2 fun p hp _ => hn p hp)

/-- The page that comes last in a window fills it. -/
theorem window_writePages (hd : t.Stands d) (hps : ∀ q ∈ before ++ p :: later, t.Owns q)
    (hlast : ∀ q ∈ later, q.id.page ≠ p.id.page) :
    t.window (t.writePages d (before ++ p :: later)) p.id.page = p.toBytes := by
  obtain ⟨hfirst, hrest⟩ := List.forall_mem_append.1 hps
  obtain ⟨hp, hlater⟩ := List.forall_mem_cons.1 hrest
  have hbefore : t.Stands (t.writePages d before) :=
    stands_writePages (fun q hq => ⟨(hfirst q hq).made, (hfirst q hq).number⟩) hd
  rw [writePages_append, writePages_cons hp, window_writePages_of_ne (hbefore.store hbefore) hlater hlast,
    window_store hbefore hp.fits.length_toBytes, if_pos rfl]

theorem Owns.returns (h : t.Owns p) (hn : p.id.page < t.pageCount d)
    (hw : t.window d p.id.page = p.toBytes) : t.Returns d p := by
  obtain ⟨-, q, hq, hheader, hused, hentry, -⟩ := h.kind.ofBytes_toBytes
  obtain ⟨-, hid, -, -, hclean, -⟩ := Page.sound_of_ofBytes hq
  refine ⟨q, ?_, hid.trans h.id_eq.symm, hclean, hheader, hused, hentry⟩
  rw [h.id_eq, readPage_eq, if_pos hn, hw]
  exact hq

/-- After writes of a table's own pages, in any order, every page that is counted is read as it was written
last, or else as the file had it; no other page is read. The table can be opened anew, and gives the same
answers. -/
theorem last_write_wins {d₀ : Disk} {path : String} {s : Schema} {config : TableConfig}
    (hopen : openAt d₀ path s config = (.ok t, d)) (hps : ∀ p ∈ ps, t.Owns p) :
    (∀ before p later, ps = before ++ p :: later →
      (t.writePage (t.writePages d before) p).1 = .ok ()) ∧
    (t.Small (t.writePages d ps) → t.pageCount (t.writePages d ps) = t.span (t.writePages d ps) ∧
      ∀ p ∈ ps, p.id.page < t.pageCount (t.writePages d ps)) ∧
    (∀ n < t.pageCount (t.writePages d ps),
      (∀ before p later, ps = before ++ p :: later → p.id.page = n → (∀ q ∈ later, q.id.page ≠ n) →
        t.Returns (t.writePages d ps) p) ∧
      ((∀ p ∈ ps, p.id.page ≠ n) → t.readPage (t.writePages d ps) ⟨t.id, n⟩ =
        Page.ofBytes ⟨t.id, n⟩ s config.pageSize (List.rightpad config.pageSize 0
          (((t.file.bytes d).drop (n * config.pageSize)).take config.pageSize)))) ∧
    (∀ id : PageId, id.table ≠ t.id ∨ t.pageCount (t.writePages d ps) ≤ id.page →
      t.readPage (t.writePages d ps) id =
        .error (.invalidPage id (t.pageCount (t.writePages d ps)))) ∧
    ∀ fsync, ∃ u, openAt (t.writePages d ps) path s ⟨config.pageSize, fsync⟩ =
        (.ok u, t.writePages d ps) ∧
      u.id = t.id ∧ u.pageCount (t.writePages d ps) = t.pageCount (t.writePages d ps) ∧
      ∀ id, u.readPage (t.writePages d ps) id = t.readPage (t.writePages d ps) id := by
  obtain ⟨hd, rfl, rfl, hsize⟩ := isOpen_of_openAt hopen
  have hwritten : ∀ p ∈ ps, p.Made ∧ p.id.page < 0x100000000 := fun p hp => ⟨(hps p hp).made, (hps p hp).number⟩
  refine ⟨?_, fun hs => ⟨pageCount_eq_span_iff.2 hs, ?_⟩, fun n hn => ⟨?_, fun hnone => ?_⟩,
    fun id hid => if_pos hid, fun fsync => ?_⟩
  · rintro before p later rfl
    have hp := hps p (List.mem_append_right _ List.mem_cons_self)
    rw [hp.fits.writePage_eq]
  · intro p hp
    exact hs.lt_pageCount (reaches_writePages hwritten hd.stands hp (hps p hp).table)
  · rintro before p later rfl rfl hlast
    have hp := hps p (List.mem_append_right _ List.mem_cons_self)
    exact hp.returns hn (window_writePages hd.stands hps hlast)
  · rw [readPage_eq, if_pos hn, window_writePages_of_ne hd.stands hps hnone, window,
      Contents.window_eq_rightpad, hsize]
    rfl
  · have hagain := (hd.writePages hps).openAt fsync
    rw [hsize] at hagain
    exact ⟨_, hagain, rfl, rfl, fun _ => rfl⟩

end Table

/-- The file ends within its first page. -/
def tinyShortDisk : Disk := ⟨[("/t", .file ⟨5, [⟨0, #[2, 0, 0, 0, 9]⟩], by decide⟩)]⟩

/-- The third page is written twice, and the second not at all. -/
def tinyTwiceDisk : Disk := tinyTable.writePages tinyShortDisk [tinyRow 2 7, tinyRow 2 8]

namespace Table

theorem owns_tinyRow {n : Nat} (v : Int32) (h : n < 0x100000000) : tinyTable.Owns (tinyRow n v) := by
  have hempty : Page.empty (tinyPage n) tinySchema 9 = .ok (tinyEmpty n) := rfl
  have hkind : (tinyRow n v).Kind (tinyPage n) tinySchema 9 := (Page.kind_of_empty hempty).after _
  exact ⟨made_tinyRow n v, congrArg (·.table) hkind.id, hkind.id.symm ▸ h, hkind.schema, hkind.pageSize⟩

theorem last_write_wins_twice :
    openAt tinyShortDisk "/t" tinySchema ⟨9, false⟩ = (.ok tinyTable, tinyShortDisk) ∧
    (∀ p ∈ [tinyRow 2 7, tinyRow 2 8], tinyTable.Owns p) ∧
    tinyTable.pageCount tinyTwiceDisk = 3 ∧
    tinyTable.Returns tinyTwiceDisk (tinyRow 2 8) ∧
    tinyTable.readPage tinyTwiceDisk (tinyPage 1) = Page.ofBytes (tinyPage 1) tinySchema 9 (zeros 9) ∧
    tinyTable.readPage tinyTwiceDisk (tinyPage 0) =
      Page.ofBytes (tinyPage 0) tinySchema 9 [2, 0, 0, 0, 9, 0, 0, 0, 0] ∧
    tinyTable.readPage tinyTwiceDisk (tinyPage 3) = .error (.invalidPage (tinyPage 3) 3) := by
  have hopen : openAt tinyShortDisk "/t" tinySchema ⟨9, false⟩ = (.ok tinyTable, tinyShortDisk) := by cbv
  have hps : ∀ p ∈ [tinyRow 2 7, tinyRow 2 8], tinyTable.Owns p := by
    intro p hp
    rcases List.mem_pair.1 hp with rfl | rfl
    · exact owns_tinyRow 7 (by decide)
    · exact owns_tinyRow 8 (by decide)
  have hcount : tinyTable.pageCount tinyTwiceDisk = 3 := by decide +kernel
  obtain ⟨-, -, hread, hnot, -⟩ := last_write_wins hopen hps
  refine ⟨hopen, hps, hcount, ?_, ?_, ?_, ?_⟩
  · exact (hread 2 (hcount ▸ by decide)).1 [tinyRow 2 7] (tinyRow 2 8) [] rfl rfl (List.forall_mem_nil _)
  · exact (hread 1 (hcount ▸ by decide)).2 (by decide +kernel)
  · exact (hread 0 (hcount ▸ by decide)).2 (by decide +kernel)
  · have hlast : tinyTable.readPage tinyTwiceDisk (tinyPage 3) =
        .error (.invalidPage (tinyPage 3) (tinyTable.pageCount tinyTwiceDisk)) :=
      hnot (tinyPage 3) (.inr (Nat.le_of_eq hcount))
    rwa [hcount] at hlast

end Table

end HeapStore
