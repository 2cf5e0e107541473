import HeapStore.Page.Bitmap
import HeapStore.Page.Layout
import HeapStore.Tuple

/-!
Pages in memory: the bitmap, the slots, the transaction that changed the page last, and the page's
bytes when it was last loaded or written back. A tuple goes into the lowest free slot and is removed
by its record id; the bitmap and the slots change together.
-/

namespace HeapStore

structure Page where
  id : PageId
  schema : Schema
  layout : Layout
  /-- The bitmap, with the bits that stand for no slot as they were found. -/
  header : Bytes
  slots : List (Option Tuple)
  dirtiedBy : Option TxnId
  /-- The bytes as of the last load or write-back. -/
  beforeBytes : Bytes
  deriving DecidableEq, Repr

namespace Page

/-! ### Reading from bytes -/

/-- Decodes the slots one after the other; `slot` counts the slots before these. A used slot must
hold a tuple. -/
def decodeSlots (id : PageId) (schema : Schema) (slot : Nat) :
    List Bool → Bytes → Except Error (List (Option Tuple))
  | [], _ => .ok []
  | used :: bits, body =>
    if used then
      match (Tuple.decode schema (body.take schema.tupleSize)).1 with
      | .error e => .error (.pageCorrupted id (.slot slot e))
      | .ok t =>
        (decodeSlots id schema (slot + 1) bits (body.drop schema.tupleSize)).map
          (some (t.withRid (some ⟨id, slot⟩)) :: ·)
    else (decodeSlots id schema (slot + 1) bits (body.drop schema.tupleSize)).map (none :: ·)

/-- The clean page with these bytes. -/
def ofBytes (id : PageId) (schema : Schema) (pageSize : Nat) (data : Bytes) : Except Error Page :=
  match Layout.make pageSize schema.tupleSize with
  | .error e => .error e
  | .ok layout =>
    if data.length ≠ pageSize then .error (.pageCorrupted id (.length pageSize data.length))
    else
      let header := data.take layout.headerSize
      let used := (Bitmap.bits header).take layout.numSlots
      match decodeSlots id schema 0 used (data.drop layout.headerSize) with
      | .error e => .error e
      | .ok slots => .ok ⟨id, schema, layout, header, slots, none, data⟩

/-- The bytes of an empty page: all zero. -/
def emptyBytes (pageSize : Nat) : Bytes := zeros pageSize

/-- A page without tuples. The bytes are only made where a page of this size can be. -/
def empty (id : PageId) (schema : Schema) (pageSize : Nat) : Except Error Page :=
  match Layout.make pageSize schema.tupleSize with
  | .error e => .error e
  | .ok _ => ofBytes id schema pageSize (emptyBytes pageSize)

/-! ### Writing to bytes -/

/-- The bytes of one slot: its tuple's, or zeros. -/
def slotBytes (tupleSize : Nat) : Option Tuple → Bytes
  | some t => t.bytes
  | none => zeros tupleSize

/-- The page's bytes: bitmap, slots, padding. -/
def toBytes (p : Page) : Bytes :=
  p.header ++ p.slots.flatMap (slotBytes p.layout.tupleSize) ++ zeros p.layout.padding

/-! ### Slots -/

/-- Does the slot hold a tuple? Slots past the end never do. -/
def isSlotUsed (p : Page) (slot : Nat) : Bool := slot < p.layout.numSlots && Bitmap.test p.header slot

def freeSlots (p : Page) : Nat := p.slots.countP Option.isNone

def tupleCount (p : Page) : Nat := p.layout.numSlots - p.freeSlots

/-- The tuple in a slot. -/
def tuple? (p : Page) (slot : Nat) : Option Tuple := p.slots[slot]?.join

/-- The first used slot that is not before `start`. -/
def nextUsedSlot (p : Page) (start : Nat) : Option Nat :=
  ((p.slots.drop start).findIdx? Option.isSome).map (start + ·)

/-- The tuples in slot order. -/
def tuples (p : Page) : List Tuple := p.slots.filterMap fun slot => slot

/-! ### Changes -/

/-- Puts a tuple of a matching schema into the lowest free slot. Answers its record id, the tuple
with that id and the changed page; on failure tuple and page are as they came. -/
def insert (p : Page) (t : Tuple) : Except Error RecordId × Tuple × Page :=
  match t.checkSchema p.schema with
  | .error e => (.error e, t, p)
  | .ok () =>
    match p.slots.findIdx? Option.isNone with
    | none => (.error .pageFull, t, p)
    | some slot =>
      let rid : RecordId := ⟨p.id, slot⟩
      let placed := t.withRid (some rid)
      (.ok rid, placed, { p with
        header := Bitmap.set p.header slot true
        slots := p.slots.set slot (some placed) })

/-- Frees the slot that the tuple's record id names. -/
def delete (p : Page) (t : Tuple) : Except Error Unit × Page :=
  match t.rid with
  | none => (.error (.tupleNotOnPage p.id .noRecordId), p)
  | some rid =>
    if rid.page ≠ p.id then (.error (.tupleNotOnPage p.id (.otherPage rid.page)), p)
    else if p.isSlotUsed rid.slot then
      (.ok (), { p with
        header := Bitmap.set p.header rid.slot false
        slots := p.slots.set rid.slot none })
    else (.error (.slotEmpty p.id rid.slot), p)

/-- Marks the page as changed by a transaction, or as clean. -/
def markDirty (p : Page) (dirty : Bool) (txn : TxnId) : Page :=
  { p with dirtiedBy := if dirty then some txn else none }

/-! ### The last stored image -/

/-- The page as of its last load or write-back. -/
def before (p : Page) : Except Error Page := ofBytes p.id p.schema p.layout.pageSize p.beforeBytes

/-- Takes these bytes as the page's stored ones. -/
def withBefore (p : Page) (data : Bytes) : Page := { p with beforeBytes := data }

/-- Takes the present contents as the page's stored ones. -/
def snapshot (p : Page) : Page := p.withBefore p.toBytes

end Page

end HeapStore
