import HeapStore.Error

/-!
Page geometry. A page holds a bitmap with one bit per slot, then the slots, then padding; it has as
many slots as leave room for their bits.
-/

namespace HeapStore

/-- The page size where none is configured. -/
def defaultPageSize : Nat := 4096

/-- Page sizes above this one are refused, so that a slot number fits into 16 bits. -/
def maxPageSize : Nat := 65536

/-- A page size and a tuple size of which at least one tuple, with its bit, fits on a page. -/
structure Layout where
  pageSize : Nat
  tupleSize : Nat
  page_le : pageSize ≤ maxPageSize
  tuple_pos : 0 < tupleSize
  fits : 8 * tupleSize + 1 ≤ 8 * pageSize
  deriving DecidableEq, Repr

namespace Layout

/-- The layout of pages of this size for tuples of this size. -/
def make (pageSize tupleSize : Nat) : Except Error Layout :=
  if hp : pageSize = 0 ∨ maxPageSize < pageSize then
    .error (.config (.pageSizeOutside pageSize maxPageSize))
  else if ht : tupleSize = 0 then .error (.invalidSchema .emptyTuple)
  else if hf : 8 * tupleSize + 1 ≤ 8 * pageSize then
    .ok ⟨pageSize, tupleSize, by omega, by omega, hf⟩
  else .error (.invalidSchema (.tupleExceedsPage tupleSize pageSize))

/-- Every slot takes its tuple's bits and one bit of the bitmap. -/
def numSlots (l : Layout) : Nat := 8 * l.pageSize / (8 * l.tupleSize + 1)

/-- The bytes of the bitmap. -/
def headerSize (l : Layout) : Nat := (l.numSlots + 7) / 8

/-- Where a slot begins. -/
def slotOffset (l : Layout) (slot : Nat) : Nat := l.headerSize + slot * l.tupleSize

/-- The unused bytes at the end of a page. -/
def padding (l : Layout) : Nat := l.pageSize - l.slotOffset l.numSlots

end Layout

end HeapStore
