import HeapStore.Proofs.FileOpening

/-! What a data file holds after any calls on it: at each byte what the last write over it put there, else
what was there before, else zero. A read fills the whole of its buffer with this, whatever the buffer held
and in how many parts the bytes come. Reads leave no trace, and neither do writes that are refused. -/

namespace HeapStore

/-- Bytes for one place of a file. -/
structure Write where
  offset : Nat
  data : Bytes
  deriving DecidableEq, Repr

namespace Write

def stop (w : Write) : Nat := w.offset + w.data.length

/-- Does the write put something at byte `i`? -/
def covers (w : Write) (i : Nat) : Bool := decide (w.offset ≤ i ∧ i < w.stop)

/-- Byte `i` of a file that held `old`, after these writes: the last one over the byte tells it, then the
file as it was, and past the end of that it is zero. -/
def overlay (old : Bytes) (ws : List Write) (i : Nat) : UInt8 :=
  match ws.reverse.find? (·.covers i) with
  | some w => w.data.getD (i - w.offset) 0
  | none => old.getD i 0

/-- The size of a file that had `n` bytes, after these writes. Where nothing is put, nothing grows. -/
def reach (n : Nat) (ws : List Write) : Nat := ((ws.filter (·.data ≠ [])).map stop).foldl max n

variable {w : Write} {i : Nat}

theorem covers_iff : w.covers i = true ↔ w.offset ≤ i ∧ i < w.offset + w.data.length := decide_eq_true_iff

theorem overlay_concat (old : Bytes) (ws : List Write) (w : Write) (i : Nat) : overlay old (ws ++ [w]) i =
    if w.offset ≤ i ∧ i < w.offset + w.data.length then w.data.getD (i - w.offset) 0
    else overlay old ws i := by
  rw [overlay, List.reverse_concat, List.find?_cons]
  cases h : w.covers i with
  | true => rw [if_pos (covers_iff.1 h)]
  | false =>
    rw [if_neg fun hc => Bool.false_ne_true (h.symm.trans (covers_iff.2 hc))]
    rfl

theorem reach_concat (n : Nat) (ws : List Write) (w : Write) :
    reach n (ws ++ [w]) = if w.data = [] then reach n ws else max (reach n ws) w.stop := by
  unfold reach
  by_cases h : w.data = []
  · simp [h]
  · simp [h, List.foldl_append]

end Write

theorem Contents.getD_toBytes (c : Contents) (i : Nat) : c.toBytes.getD i 0 = c.byteAt i := by
  rw [List.getD_eq_getElem?_getD]
  rcases Nat.lt_or_ge i c.size with hi | hi
  · rw [getElem?_toBytes hi, Option.getD_some]
  · rw [List.getElem?_eq_none (c.length_toBytes ▸ hi), Option.getD_none, byteAt_of_size_le hi]

namespace DataFile

/-- A call on an open file. A read is given a buffer to fill, and the parts in which the bytes come. -/
inductive Call where
  | write (w : Write)
  | read (transfers : List Transfer) (offset : Nat) (buffer : Bytes)
  deriving DecidableEq, Repr

/-- The disk after a call. -/
def next (f : DataFile) (d : Disk) : Call → Disk
  | .write w => (f.write d w.offset w.data).2
  | .read .. => d

/-- The disk after the calls. -/
def after (f : DataFile) (d : Disk) (calls : List Call) : Disk := calls.foldl f.next d

/-- What a call writes: nothing if it reads, or if it would write past the last position. -/
def Call.written? : Call → Option Write
  | .write w => if w.stop < positionLimit then some w else none
  | .read .. => none

/-- What the calls write, in their order. -/
def written (calls : List Call) : List Write := calls.filterMap Call.written?

/-- The file stands and holds `old` with these writes laid over it. -/
structure Overlaid (f : DataFile) (old : Bytes) (ws : List Write) (d : Disk) : Prop where
  stands : ∃ c, d.node? f.location = some (.file c)
  byteAt : ∀ i, (d.contents f.location).byteAt i = Write.overlay old ws i
  size : f.size d = Write.reach old.length ws

variable {f : DataFile} {d : Disk} {old : Bytes} {ws : List Write} {w : Write} {c : Contents} {call : Call}

theorem write_of_lt (f : DataFile) (d : Disk) (h : w.stop < positionLimit) : f.write d w.offset w.data =
    (.ok (), d.setContents f.location ((d.contents f.location).write w.offset w.data)) := if_pos h

theorem write_of_le (f : DataFile) (d : Disk) (h : positionLimit ≤ w.stop) : f.write d w.offset w.data =
    (.error (.io .invalidInput), d) := if_neg (Nat.not_lt.2 h)

theorem next_of_refused (f : DataFile) (d : Disk) (h : call.written? = none) : f.next d call = d := by
  cases call with
  | read transfers offset buffer => rfl
  | write w =>
    simp only [Call.written?, ite_eq_right_iff, reduceCtorEq, imp_false] at h
    rw [next, f.write_of_le d (Nat.not_lt.1 h)]

theorem written?_eq_some (h : call.written? = some w) : call = .write w ∧ w.stop < positionLimit := by
  cases call with
  | read transfers offset buffer => cases h
  | write v =>
    simp only [Call.written?, Option.ite_none_right_eq_some, Option.some.injEq] at h
    obtain ⟨hstop, rfl⟩ := h
    exact ⟨rfl, hstop⟩

theorem next_of_written (f : DataFile) (d : Disk) (h : call.written? = some w) : f.next d call =
    d.setContents f.location ((d.contents f.location).write w.offset w.data) := by
  obtain ⟨rfl, hstop⟩ := written?_eq_some h
  rw [next, f.write_of_lt d hstop]

theorem overlaid_start (h : d.node? f.location = some (.file c)) : f.Overlaid (f.bytes d) [] d where
  stands := ⟨c, h⟩
  byteAt i := (Contents.getD_toBytes _ i).symm
  size := (Contents.length_toBytes _).symm

theorem Overlaid.write (h : f.Overlaid old ws d) (w : Write) : f.Overlaid old (ws ++ [w])
    (d.setContents f.location ((d.contents f.location).write w.offset w.data)) := by
  obtain ⟨c, hc⟩ := h.stands
  have hne := Disk.path_ne_of_file hc
  refine ⟨⟨_, d.node?_put_self hne _⟩, fun i => ?_, ?_⟩
  · rw [d.contents_setContents hne, Contents.byteAt_write, h.byteAt, Write.overlay_concat]
  · have hsize : (d.contents f.location).size = Write.reach old.length ws := h.size
    rw [DataFile.size, d.contents_setContents hne, Write.reach_concat]
    by_cases hempty : w.data = []
    · rw [if_pos hempty, hempty, ← hsize]
      rfl
    · rw [if_neg hempty, Contents.size_write _ _ hempty, hsize, Write.stop]

theorem Overlaid.next (h : f.Overlaid old ws d) (call : Call) :
    f.Overlaid old (ws ++ call.written?.toList) (f.next d call) := by
  cases hw : call.written? with
  | none =>
    rw [f.next_of_refused d hw, Option.toList_none, List.append_nil]
    exact h
  | some w =>
    rw [f.next_of_written d hw]
    exact h.write w

theorem written_cons (call : Call) (rest : List Call) :
    written (call :: rest) = call.written?.toList ++ written rest := by
  rw [written, List.filterMap_cons]
  cases call.written? <;> rfl

theorem Overlaid.after (h : f.Overlaid old ws d) (calls : List Call) :
    f.Overlaid old (ws ++ written calls) (f.after d calls) := by
  induction calls generalizing d ws with
  | nil =>
    rw [written, List.filterMap_nil, List.append_nil]
    exact h
  | cons call rest ih =>
    have hrest := ih (h.next call)
    rw [List.append_assoc, ← written_cons] at hrest
    exact hrest

/-- Only what was written matters. -/
theorem after_written (f : DataFile) (d : Disk) (calls : List Call) :
    f.after d calls = f.after d ((written calls).map .write) := by
  induction calls generalizing d with
  | nil => rfl
  | cons call rest ih =>
    have hrest : f.after d (call :: rest) = f.after (f.next d call) rest := rfl
    rw [hrest, ih, written_cons, List.map_append]
    cases hw : call.written? with
    | none => rw [f.next_of_refused d hw]; rfl
    | some w => rw [(written?_eq_some hw).1]; rfl

theorem node?_after_of_ne {path : String} (h : path ≠ f.location) (d : Disk) (calls : List Call) :
    (f.after d calls).node? path = d.node? path := by
  induction calls generalizing d with
  | nil => rfl
  | cons call rest ih =>
    refine (ih (f.next d call)).trans ?_
    cases hw : call.written? with
    | none => rw [f.next_of_refused d hw]
    | some w => rw [f.next_of_written d hw, Disk.setContents, d.node?_put_of_ne h]

theorem Overlaid.window (h : f.Overlaid old ws d) (offset n : Nat) :
    (d.contents f.location).window offset n = (List.range n).map fun i => Write.overlay old ws (offset + i) :=
  List.map_congr_left fun i _ => h.byteAt (offset + i)

/-- After any calls a read fills its buffer with the overlay of all that was written, whatever the buffer held
and however the device hands the bytes over. The file reaches up to the last end of a write that was not
empty, or as far as it did before. Calls that do not fit below the last position are refused; these and the
reads leave no trace, and all other files stay as they are. -/
theorem reads_overlay (h : d.node? f.location = some (.file c)) (calls : List Call) :
    (∀ transfers offset buffer, f.readInto transfers (f.after d calls) offset buffer =
      if offset + buffer.length < positionLimit then
        (.ok (), (List.range buffer.length).map fun i =>
          Write.overlay c.toBytes (written calls) (offset + i))
      else (.error (.io .invalidInput), buffer)) ∧
    f.size (f.after d calls) = Write.reach c.size (written calls) ∧
    (∀ w : Write, (f.write (f.after d calls) w.offset w.data).1 =
      if w.stop < positionLimit then .ok () else .error (.io .invalidInput)) ∧
    f.after d calls = f.after d ((written calls).map .write) ∧
    ∀ path, path ≠ f.location → (f.after d calls).node? path = d.node? path := by
  have hcontents : d.contents f.location = c := by rw [Disk.contents, h]
  have hbytes : f.bytes d = c.toBytes := by rw [bytes, hcontents]
  have hover := (overlaid_start h).after calls
  rw [List.nil_append, hbytes] at hover
  refine ⟨fun transfers offset buffer => ?_, ?_, fun w => ?_, f.after_written d calls,
    fun path hpath => node?_after_of_ne hpath d calls⟩
  · rw [readInto_eq, hover.window]
  · rw [hover.size, c.length_toBytes]
  · by_cases hstop : w.stop < positionLimit
    · rw [f.write_of_lt _ hstop, if_pos hstop]
    · rw [f.write_of_le _ (Nat.not_lt.1 hstop), if_neg hstop]

end DataFile

/-- An open file, which holds three bytes on `tinyFileDisk`. -/
def tinyFile : DataFile := ⟨"/t", "/t", false⟩

def tinyFileDisk : Disk := ⟨[("/t", .file ⟨3, [⟨0, #[1, 2, 3]⟩], by decide⟩)]⟩

/-- The writes leave a gap behind the three bytes, fill a part of it, put nothing, and reach too far. -/
def tinyCalls : List DataFile.Call :=
  [.write ⟨5, [9, 9]⟩, .read [.upTo 1] 0 [0xFF, 0xFF], .write ⟨2, [7, 7]⟩, .write ⟨100, []⟩,
    .write ⟨0x7FFFFFFFFFFFFFFE, [1, 1]⟩]

namespace DataFile

/-- The read comes in four parts, the second of which brings nothing. -/
theorem reads_overlay_split :
    tinyFileDisk.node? tinyFile.location = some (.file ⟨3, [⟨0, #[1, 2, 3]⟩], by decide⟩) ∧
    written tinyCalls = [⟨5, [9, 9]⟩, ⟨2, [7, 7]⟩, ⟨100, []⟩] ∧
    tinyFile.readInto [.upTo 2, .interrupted, .upTo 1] (tinyFile.after tinyFileDisk tinyCalls) 1
      (List.replicate 8 0xFF) = (.ok (), [2, 7, 7, 0, 9, 9, 0, 0]) ∧
    tinyFile.size (tinyFile.after tinyFileDisk tinyCalls) = 7 ∧
    tinyFile.after tinyFileDisk tinyCalls =
      tinyFile.after tinyFileDisk [.write ⟨5, [9, 9]⟩, .write ⟨2, [7, 7]⟩, .write ⟨100, []⟩] := by
  have hwritten : written tinyCalls = [⟨5, [9, 9]⟩, ⟨2, [7, 7]⟩, ⟨100, []⟩] := by decide +kernel
  obtain ⟨hread, hsize, -, htrace, -⟩ := reads_overlay (f := tinyFile) (d := tinyFileDisk) rfl tinyCalls
  rw [hwritten] at hread hsize htrace
  refine ⟨rfl, hwritten, ?_, ?_, htrace⟩
  · exact (hread _ 1 (List.replicate 8 0xFF)).trans (by decide +kernel)
  · exact hsize.trans (by decide +kernel)

end DataFile

end HeapStore
