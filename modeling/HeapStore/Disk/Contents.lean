import HeapStore.Value

/-!
The bytes of a file. A file keeps the extents that were written, the latest first, none of which
reaches past its end; bytes under no extent are zero, so a write far past the end costs no more than
its own bytes. Reading fills a whole buffer whatever the size of the file: what lies past the end
reads as zero.
-/

namespace HeapStore

/-- Bytes written at one place. -/
structure Extent where
  start : Nat
  data : Array UInt8
  deriving DecidableEq, Repr

namespace Extent

def byte? (x : Extent) (i : Nat) : Option UInt8 := if x.start ≤ i then x.data[i - x.start]? else none

def stop (x : Extent) : Nat := x.start + x.data.size

/-- Does `x` hide every byte of `y`? -/
def covers (x y : Extent) : Bool := x.start ≤ y.start && y.stop ≤ x.stop

/-- The part of the extent before byte `n`. -/
def cutTo (x : Extent) (n : Nat) : Extent := { x with data := x.data.extract 0 (n - x.start) }

theorem stop_cutTo_le (x : Extent) {n : Nat} (h : (x.cutTo n).data ≠ #[]) : (x.cutTo n).stop ≤ n := by
  have : 0 < (x.cutTo n).data.size := Array.size_pos_iff.2 h
  simp only [stop, cutTo, Array.size_extract] at this ⊢
  omega

end Extent

structure Contents where
  size : Nat := 0
  extents : List Extent := []
  within : ∀ x ∈ extents, x.stop ≤ size := by simp
  deriving DecidableEq, Repr

/-- Puts bytes into a buffer from `start` on, in place of those that were there. -/
def overwrite (buffer : Bytes) (start : Nat) (data : Bytes) : Bytes :=
  buffer.take start ++ data ++ buffer.drop (start + data.length)

/-- Clears a buffer from `start` on. -/
def blankFrom (buffer : Bytes) (start : Nat) : Bytes :=
  overwrite buffer start (zeros (buffer.length - start))

theorem length_overwrite {buffer : Bytes} {start : Nat} {data : Bytes}
    (h : start + data.length ≤ buffer.length) : (overwrite buffer start data).length = buffer.length := by
  simp only [overwrite, List.length_append, List.length_take, List.length_drop]
  omega

theorem take_overwrite {buffer : Bytes} {start : Nat} (data : Bytes) (h : start ≤ buffer.length) :
    (overwrite buffer start data).take (start + data.length) = buffer.take start ++ data :=
  List.take_left' (by rw [List.length_append, List.length_take_of_le h])

theorem blankFrom_eq (buffer : Bytes) (start : Nat) :
    blankFrom buffer start = buffer.take start ++ zeros (buffer.length - start) := by
  rw [blankFrom, overwrite, List.drop_eq_nil_of_le (by rw [zeros, List.length_replicate]; omega),
    List.append_nil]

/-- How a request for bytes is answered: not at all, to be asked again, or with at most so many
bytes. -/
inductive Transfer where
  | interrupted
  | upTo (count : Nat)
  deriving DecidableEq, Repr

namespace Contents

/-- Byte `i`, which is zero past the end. -/
def byteAt (c : Contents) (i : Nat) : UInt8 := (c.extents.findSome? (·.byte? i)).getD 0

/-- `n` bytes from `offset` on, zeros past the end. -/
def window (c : Contents) (offset n : Nat) : Bytes :=
  (List.range n).map fun i => c.byteAt (offset + i)

/-- Fills a buffer from byte `offset` of the file on; its first `filled` bytes have come already. A
device may hand the rest over in several parts: each transfer moves between one byte and all that are
at hand. At the end of the file what is left of the buffer becomes zero. After the listed transfers
everything comes at once. -/
def fill : List Transfer → Contents → (offset filled : Nat) → (buffer : Bytes) → Bytes
  | [], c, offset, filled, buffer =>
    let moved := min (buffer.length - filled) (c.size - (offset + filled))
    blankFrom (overwrite buffer filled (c.window (offset + filled) moved)) (filled + moved)
  | .interrupted :: rest, c, offset, filled, buffer => fill rest c offset filled buffer
  | .upTo count :: rest, c, offset, filled, buffer =>
    let atHand := min (buffer.length - filled) (c.size - (offset + filled))
    if atHand = 0 then blankFrom buffer filled
    else
      let moved := max 1 (min count atHand)
      fill rest c offset (filled + moved)
        (overwrite buffer filled (c.window (offset + filled) moved))

/-- Writes bytes at `offset`, growing the file if they end past its end. -/
def write (c : Contents) (offset : Nat) (data : Bytes) : Contents :=
  if data.isEmpty then c
  else
    let x : Extent := ⟨offset, data.toArray⟩
    { size := max c.size x.stop
      extents := x :: c.extents.filter (!x.covers ·)
      within := fun y hy => by
        rcases List.mem_cons.1 hy with rfl | hy
        · exact Nat.le_max_right _ _
        · exact Nat.le_trans (c.within y (List.mem_filter.1 hy).1) (Nat.le_max_left _ _) }

/-- Cuts the file to `n` bytes, or extends it by zeros. -/
def resize (c : Contents) (n : Nat) : Contents :=
  { size := n
    extents := (c.extents.map (·.cutTo n)).filter (!·.data.isEmpty)
    within := fun y hy => by
      obtain ⟨hy, hne⟩ := List.mem_filter.1 hy
      obtain ⟨x, -, rfl⟩ := List.mem_map.1 hy
      exact x.stop_cutTo_le (by simpa using hne) }

/-- All bytes of the file. -/
def toBytes (c : Contents) : Bytes := c.window 0 c.size

end Contents

end HeapStore
