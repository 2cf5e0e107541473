import HeapStore.Value

/-!
The 32-bit cyclic redundancy check with the reflected polynomial `EDB88320`, as archives use it.
-/

namespace HeapStore.Checksum

/-- Divides out one bit. -/
def shiftBit (r : UInt32) : UInt32 := if r &&& 1 = 1 then (r >>> 1) ^^^ 0xEDB88320 else r >>> 1

/-- Takes in one byte. -/
def update (r : UInt32) (b : UInt8) : UInt32 := Nat.repeat shiftBit 8 (r ^^^ b.toUInt32)

def crc32 (b : Bytes) : UInt32 := b.foldl update 0xFFFFFFFF ^^^ 0xFFFFFFFF

end HeapStore.Checksum
