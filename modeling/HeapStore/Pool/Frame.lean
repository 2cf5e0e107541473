import HeapStore.Pool.Copies

/-!
Frames: the places of a pool, each for one page. A frame keeps one reference to the copy that sits
in it; any other reference pins the frame.
-/

namespace HeapStore

/-- The page that sits in a frame, by the id it was put there under. -/
structure Resident where
  page : PageId
  copy : Nat
  deriving DecidableEq, Repr

structure Frame where
  resident : Option Resident
  deriving DecidableEq, Repr

namespace Frame

def empty : Frame := ⟨none⟩

def isEmpty (f : Frame) : Bool := f.resident.isNone

/-- Is the resident copy in use? -/
def isPinned (f : Frame) (cs : Copies) : Bool := f.resident.any fun r => cs.isShared r.copy

/-- Is the resident page dirty? -/
def isDirty (f : Frame) (cs : Copies) : Bool := f.resident.any fun r => cs.isDirty r.copy

/-- May the frame be emptied: does it hold a clean page that nobody uses? -/
def isEvictable (f : Frame) (cs : Copies) : Bool := !f.isEmpty && !f.isPinned cs && !f.isDirty cs

/-- Empties the frame. Those who use the copy keep it. -/
def reset (f : Frame) (cs : Copies) : Frame × Copies :=
  (empty, match f.resident with
    | none => cs
    | some r => cs.drop r.copy)

/-- Puts a new copy of a page into the frame, in place of the resident one. -/
def install (f : Frame) (cs : Copies) (id : PageId) (p : Page) : Nat × Frame × Copies :=
  let (copy, cs) := (f.reset cs).2.add p
  (copy, ⟨some ⟨id, copy⟩⟩, cs)

end Frame

/-- The name of a frame by its number. -/
def frameName (index : Nat) : String := s!"frame:{index}"

end HeapStore
