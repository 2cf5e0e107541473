import HeapStore.Value

/-!
Bitmaps: bit `i` is bit `i % 8` of byte `i / 8`, the least significant bit of a byte being its
first.
-/

namespace HeapStore.Bitmap

/-- Is bit `i` set? Bits past the end are clear. -/
def test (b : Bytes) (i : Nat) : Bool := (b.getD (i / 8) 0).toNat.testBit (i % 8)

/-- A byte with bit `k` set or cleared. -/
def setInByte (x : UInt8) (k : Nat) (on : Bool) : UInt8 :=
  let mask : UInt8 := 1 <<< UInt8.ofNat k
  if on then x ||| mask else x &&& ~~~mask

/-- Sets or clears bit `i`. -/
def set (b : Bytes) (i : Nat) (on : Bool) : Bytes := b.modify (i / 8) (setInByte · (i % 8) on)

/-- The eight bits of a byte. -/
def bitsOfByte (x : UInt8) : List Bool := (List.range 8).map x.toNat.testBit

/-- All bits in order. -/
def bits (b : Bytes) : List Bool := b.flatMap bitsOfByte

end HeapStore.Bitmap
