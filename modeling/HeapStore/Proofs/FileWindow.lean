import HeapStore.Table
import HeapStore.Proofs.PageImage

/-! The pages of a file as windows of its bytes, with zeros past the end. A read fills its buffer with a
window, in however many parts the bytes come. Reading a page decodes its window; writing a page replaces
its window and no other, also where the file grows over a partial last page or a gap. -/

namespace HeapStore

namespace Contents

theorem byteAt_of_size_le {c : Contents} {i : Nat} (h : c.size ≤ i) : c.byteAt i = 0 := by
  have : c.extents.findSome? (·.byte? i) = none := by
    rw [List.findSome?_eq_none_iff]
    intro x hx
    have hstop := c.within x hx
    unfold Extent.stop at hstop
    unfold Extent.byte?
    split
    · exact Array.getElem?_eq_none (by omega)
    · rfl
  rw [byteAt, this, Option.getD_none]

/-- An extent that is covered has no byte outside the one that covers it. -/
theorem byte?_of_covers {x y : Extent} (h : x.covers y = true) {i : Nat} (hx : x.byte? i = none) :
    y.byte? i = none := by
  unfold Extent.covers Extent.stop at h
  simp only [Bool.and_eq_true, decide_eq_true_eq] at h
  unfold Extent.byte? at hx ⊢
  split
  · next hy =>
    rw [if_pos (by omega)] at hx
    have := Array.getElem?_eq_none_iff.1 hx
    exact Array.getElem?_eq_none (by omega)
  · rfl

theorem findSome?_filter_covers {x : Extent} {i : Nat} (hx : x.byte? i = none) (l : List Extent) :
    (l.filter (!x.covers ·)).findSome? (·.byte? i) = l.findSome? (·.byte? i) := by
  induction l with
  | nil => rfl
  | cons y l ih =>
    by_cases hy : x.covers y = true
    · simp [hy, ih, byte?_of_covers hy hx]
    · simp [hy, ih, List.findSome?_cons]

theorem byteAt_write (c : Contents) (offset : Nat) (data : Bytes) (i : Nat) :
    (c.write offset data).byteAt i =
      if offset ≤ i ∧ i < offset + data.length then data.getD (i - offset) 0 else c.byteAt i := by
  unfold write
  split
  · next he =>
    have : data = [] := List.isEmpty_iff.1 he
    subst this
    rw [if_neg (by simp)]
  · simp only [byteAt, List.findSome?_cons]
    by_cases hi : offset ≤ i ∧ i < offset + data.length
    · rw [if_pos hi]
      have hlt : i - offset < data.length := by omega
      have : (⟨offset, data.toArray⟩ : Extent).byte? i = some data[i - offset] := by
        unfold Extent.byte?
        rw [if_pos hi.1, List.getElem?_toArray, List.getElem?_eq_getElem]
      simp [this, List.getD_eq_getElem?_getD, List.getElem?_eq_getElem hlt]
    · rw [if_neg hi]
      have : (⟨offset, data.toArray⟩ : Extent).byte? i = none := by
        unfold Extent.byte?
        split
        · next hle =>
          have hle : offset ≤ i := hle
          exact Array.getElem?_eq_none (show data.toArray.size ≤ i - offset by
            rw [List.size_toArray]; omega)
        · rfl
      simp only [this, findSome?_filter_covers this]

theorem size_write (c : Contents) (offset : Nat) {data : Bytes} (h : data ≠ []) :
    (c.write offset data).size = max c.size (offset + data.length) := by
  unfold write
  rw [if_neg (by simpa using h)]
  simp [Extent.stop]

theorem length_window (c : Contents) (offset n : Nat) : (c.window offset n).length = n := by
  simp [window]

theorem getElem?_window (c : Contents) (offset : Nat) {n i : Nat} (h : i < n) :
    (c.window offset n)[i]? = some (c.byteAt (offset + i)) := by
  simp [window, h]

theorem length_toBytes (c : Contents) : c.toBytes.length = c.size := c.length_window 0 c.size

theorem getElem?_toBytes {c : Contents} {i : Nat} (h : i < c.size) : c.toBytes[i]? = some (c.byteAt i) := by
  rw [toBytes, getElem?_window _ _ h, Nat.zero_add]

theorem window_congr {c d : Contents} {offset n : Nat}
    (h : ∀ i < n, c.byteAt (offset + i) = d.byteAt (offset + i)) :
    c.window offset n = d.window offset n := by
  unfold window
  apply List.map_congr_left
  intro i hi
  exact h i (List.mem_range.1 hi)

theorem window_add (c : Contents) (offset m n : Nat) :
    c.window offset (m + n) = c.window offset m ++ c.window (offset + m) n := by
  simp only [window, List.range_add, List.map_append, List.map_map, Function.comp_def, Nat.add_assoc]

theorem window_of_size_le {c : Contents} {offset : Nat} (h : c.size ≤ offset) (n : Nat) :
    c.window offset n = zeros n := by
  rw [zeros, List.eq_replicate_iff]
  refine ⟨c.length_window offset n, fun b hb => ?_⟩
  obtain ⟨i, -, rfl⟩ := List.mem_map.1 hb
  exact byteAt_of_size_le (by omega)

/-- What is at hand of a window, and zeros for the rest of it. -/
theorem window_eq_append_zeros (c : Contents) (offset n : Nat) :
    c.window offset n = c.window offset (min n (c.size - offset)) ++
      zeros (n - min n (c.size - offset)) := by
  have hsplit := c.window_add offset (min n (c.size - offset)) (n - min n (c.size - offset))
  rw [Nat.add_sub_cancel' (Nat.min_le_left ..)] at hsplit
  rw [hsplit]
  rcases Nat.le_total n (c.size - offset) with hn | hn
  · rw [Nat.min_eq_left hn, Nat.sub_self]
    rfl
  · have hend : c.size ≤ offset + min n (c.size - offset) := by omega
    rw [window_of_size_le hend]

/-- One transfer puts its bytes behind those that have come. -/
theorem overwrite_window (c : Contents) (offset : Nat) {filled moved : Nat} {buffer : Bytes}
    (h : filled + moved ≤ buffer.length) :
    (overwrite buffer filled (c.window offset moved)).length = buffer.length ∧
      (overwrite buffer filled (c.window offset moved)).take (filled + moved) =
        buffer.take filled ++ c.window offset moved := by
  have hlen := c.length_window offset moved
  have htake := take_overwrite (c.window offset moved) (Nat.le_of_add_right_le h)
  rw [hlen] at htake
  exact ⟨length_overwrite (by rwa [hlen]), htake⟩

/-- However the bytes come, the buffer ends as the window: what has come stays, and nothing else that was
in the buffer does. -/
theorem fill_eq (transfers : List Transfer) (c : Contents) (offset : Nat) {filled : Nat} {buffer : Bytes}
    (h : filled ≤ buffer.length) : fill transfers c offset filled buffer =
      buffer.take filled ++ c.window (offset + filled) (buffer.length - filled) := by
  induction transfers generalizing filled buffer with
  | nil =>
    let moved := min (buffer.length - filled) (c.size - (offset + filled))
    have hmoved : filled + moved ≤ buffer.length := by omega
    obtain ⟨hlen, htake⟩ := c.overwrite_window (offset + filled) hmoved
    rw [fill, blankFrom_eq, hlen, htake, List.append_assoc, Nat.sub_add_eq, ← window_eq_append_zeros]
  | cons transfer rest ih =>
    cases transfer with
    | interrupted => exact ih h
    | upTo count =>
      rw [fill]
      split
      · next hnone =>
        -- the file has ended, or the buffer is full
        rw [blankFrom_eq, c.window_eq_append_zeros, hnone]
        rfl
      · next hsome =>
        let moved := max 1 (min count (min (buffer.length - filled) (c.size - (offset + filled))))
        have hmoved : filled + moved ≤ buffer.length := by omega
        obtain ⟨hlen, htake⟩ := c.overwrite_window (offset + filled) hmoved
        have hjoin := c.window_add (offset + filled) moved (buffer.length - (filled + moved))
        rw [show moved + (buffer.length - (filled + moved)) = buffer.length - filled by omega] at hjoin
        have hrest := ih (hlen ▸ hmoved)
        rw [hlen, htake, List.append_assoc, ← Nat.add_assoc, ← hjoin] at hrest
        exact hrest

/-- What was in the buffer does not matter, nor in how many parts the bytes come. -/
theorem fill_eq_window (transfers : List Transfer) (c : Contents) (offset : Nat) (buffer : Bytes) :
    fill transfers c offset 0 buffer = c.window offset buffer.length :=
  fill_eq transfers c offset (Nat.zero_le _)

end Contents

namespace DataFile

theorem readInto_eq (transfers : List Transfer) (f : DataFile) (d : Disk) (offset : Nat) (buffer : Bytes) :
    f.readInto transfers d offset buffer =
      if offset + buffer.length < positionLimit then
        (.ok (), (d.contents f.location).window offset buffer.length)
      else (.error (.io .invalidInput), buffer) := by
  rw [readInto, Contents.fill_eq_window]

theorem read_eq (f : DataFile) (d : Disk) (offset n : Nat) : f.read d offset n =
    if offset + n < positionLimit then .ok ((d.contents f.location).window offset n)
    else .error (.io .invalidInput) := by
  rw [read, readInto_eq, zeros, List.length_replicate]
  by_cases h : offset + n < positionLimit
  · rw [if_pos h, if_pos h]
  · rw [if_neg h, if_neg h]

end DataFile

namespace Table

/-- The bytes of a page in the table's file, zeros past its end. -/
def window (t : Table) (d : Disk) (n : Nat) : Bytes :=
  (d.contents t.path).window (n * t.pageSize) t.pageSize

/-- The table's file is there. -/
def Stands (t : Table) (d : Disk) : Prop := ∃ c, d.node? t.path = some (.file c)

/-- The file has at most 2³² - 1 pages, a partial last one included. -/
def Small (t : Table) (d : Disk) : Prop := (d.contents t.path).size ≤ 0xFFFFFFFF * t.pageSize

/-- The disk with the bytes of a page replaced. -/
def store (t : Table) (d : Disk) (n : Nat) (data : Bytes) : Disk :=
  d.setContents t.path ((d.contents t.path).write (n * t.pageSize) data)

variable {t : Table} {d : Disk}

theorem pageSize_pos (t : Table) : 0 < t.pageSize := t.layout.pageSize_pos

theorem pageSize_le (t : Table) : t.pageSize ≤ 65536 := t.layout.page_le

theorem length_window (t : Table) (d : Disk) (n : Nat) : (t.window d n).length = t.pageSize :=
  Contents.length_window ..

theorem path_ne_of_id_ne {t u : Table} (h : t.id ≠ u.id) : t.path ≠ u.path := by
  intro hp
  exact h (by unfold id; rw [hp])

theorem Stands.path_ne (h : t.Stands d) : t.path ≠ "" := by
  obtain ⟨c, hc⟩ := h
  exact Disk.path_ne_of_file hc

theorem Small.pageCount_eq (h : t.Small d) :
    t.pageCount d = ((d.contents t.path).size + (t.pageSize - 1)) / t.pageSize := by
  have hp := t.pageSize_pos
  unfold pageCount DataFile.size
  apply Nat.mod_eq_of_lt
  rw [Nat.div_lt_iff_lt_mul hp]
  unfold Small path at h
  omega

theorem Small.lt_pageCount_iff (h : t.Small d) (n : Nat) :
    n < t.pageCount d ↔ n * t.pageSize < (d.contents t.path).size := by
  have hp := t.pageSize_pos
  rw [h.pageCount_eq, Nat.lt_iff_add_one_le, Nat.le_div_iff_mul_le hp, Nat.add_one_mul]
  omega

theorem pageCount_lt (t : Table) (d : Disk) : t.pageCount d < 0x100000000 :=
  Nat.mod_lt _ (by decide)

/-- Positions of pages are far below the limit of the files. -/
theorem position_lt (t : Table) {n length : Nat} (h : n < 0x100000000) (hl : length ≤ 65536) :
    n * t.pageSize + length < DataFile.positionLimit := by
  have : n * t.pageSize ≤ 0xFFFFFFFF * 65536 := Nat.mul_le_mul (Nat.le_of_lt_succ h) t.pageSize_le
  unfold DataFile.positionLimit
  omega

theorem readPage_eq (t : Table) (d : Disk) (n : Nat) : t.readPage d ⟨t.id, n⟩ =
    if n < t.pageCount d then Page.ofBytes ⟨t.id, n⟩ t.schema t.pageSize (t.window d n)
    else .error (.invalidPage ⟨t.id, n⟩ (t.pageCount d)) := by
  have hc := t.pageCount_lt d
  unfold readPage
  by_cases hn : n < t.pageCount d
  · rw [if_neg (by simp; omega), if_pos hn]
    have hpos := t.position_lt (show n < 0x100000000 by omega) t.pageSize_le
    rw [DataFile.read_eq, PageId.byteOffset, if_pos hpos]
    rfl
  · rw [if_pos (by simp; omega), if_neg hn]

/-- A page with the table's id is written, whatever its size. -/
theorem writePage_eq (t : Table) (d : Disk) {p : Page} (hp : p.Sound) (hid : p.id.table = t.id)
    (hn : p.id.page < 0x100000000) :
    t.writePage d p = (.ok (), p.withBefore p.toBytes, t.store d p.id.page p.toBytes) := by
  have hpos : p.id.byteOffset t.pageSize + p.toBytes.length < DataFile.positionLimit :=
    t.position_lt hn (hp.length_toBytes ▸ p.layout.page_le)
  unfold writePage
  rw [if_neg (by simpa using hid)]
  simp only [DataFile.write]
  rw [if_pos hpos]
  rfl

/-! ### After a write -/

variable {n : Nat} {data : Bytes}

theorem contents_store (h : t.Stands d) :
    (t.store d n data).contents t.path = (d.contents t.path).write (n * t.pageSize) data :=
  d.contents_setContents h.path_ne _

theorem window_store (h : t.Stands d) (hl : data.length = t.pageSize) (m : Nat) :
    t.window (t.store d n data) m = if m = n then data else t.window d m := by
  unfold window
  rw [contents_store h]
  split
  · next hmn =>
    subst hmn
    apply List.ext_getElem?
    intro i
    by_cases hi : i < t.pageSize
    · rw [Contents.getElem?_window _ _ hi, Contents.byteAt_write, if_pos (by omega)]
      simp [List.getD_eq_getElem?_getD, List.getElem?_eq_getElem (show i < data.length by omega)]
    · rw [List.getElem?_eq_none (by rw [Contents.length_window]; omega),
        List.getElem?_eq_none (by omega)]
  · next hmn =>
    apply Contents.window_congr
    intro i hi
    rw [Contents.byteAt_write, if_neg]
    -- the two windows are disjoint
    rcases Nat.lt_or_gt_of_ne hmn with hlt | hgt
    · have := Nat.mul_le_mul_right t.pageSize (show m + 1 ≤ n from hlt)
      rw [Nat.add_one_mul] at this
      omega
    · have := Nat.mul_le_mul_right t.pageSize (show n + 1 ≤ m from hgt)
      rw [Nat.add_one_mul] at this
      omega

theorem contents_store_of_ne {u : Table} (h : u.id ≠ t.id) :
    (t.store d n data).contents u.path = d.contents u.path :=
  d.contents_setContents_of_ne (path_ne_of_id_ne h) _

theorem window_store_of_ne {u : Table} (h : u.id ≠ t.id) (m : Nat) :
    u.window (t.store d n data) m = u.window d m := by
  unfold window
  rw [contents_store_of_ne h]

theorem size_le_store_of_ne {u : Table} (h : u.id ≠ t.id) :
    (d.contents u.path).size ≤ ((t.store d n data).contents u.path).size :=
  Nat.le_of_eq (congrArg Contents.size (contents_store_of_ne h).symm)

theorem byteAt_store_self (h : t.Stands d) (i : Nat) :
    ((t.store d n data).contents t.path).byteAt i =
      if n * t.pageSize ≤ i ∧ i < n * t.pageSize + data.length then data.getD (i - n * t.pageSize) 0
      else (d.contents t.path).byteAt i := by
  rw [contents_store h, Contents.byteAt_write]

theorem size_store_self (h : t.Stands d) (hdata : data ≠ []) :
    ((t.store d n data).contents t.path).size =
      max (d.contents t.path).size (n * t.pageSize + data.length) := by
  rw [contents_store h, Contents.size_write _ _ hdata]

theorem size_store (h : t.Stands d) (hl : data.length = t.pageSize) :
    ((t.store d n data).contents t.path).size =
      max (d.contents t.path).size (n * t.pageSize + t.pageSize) := by
  rw [size_store_self h (List.ne_nil_of_length_pos (hl ▸ t.pageSize_pos)), hl]

theorem Stands.store {u : Table} (h : t.Stands d) (hu : u.Stands d) :
    u.Stands (t.store d n data) := by
  unfold Stands Table.store Disk.setContents
  by_cases hp : u.path = t.path
  · refine ⟨(d.contents t.path).write (n * t.pageSize) data, ?_⟩
    rw [hp, Disk.node?, if_neg h.path_ne]
    simp [Disk.put]
  · rw [d.node?_put_of_ne hp]
    exact hu

theorem window_of_size_le {m : Nat} (hs : (d.contents t.path).size ≤ m * t.pageSize) :
    t.window d m = zeros t.pageSize := Contents.window_of_size_le hs _

theorem window_of_pageCount_le (h : t.Small d) {m : Nat} (hm : t.pageCount d ≤ m) :
    t.window d m = zeros t.pageSize := by
  refine window_of_size_le (Nat.le_of_not_lt fun hlt => ?_)
  have := (h.lt_pageCount_iff m).2 hlt
  omega

end Table

end HeapStore
