/-!
The clock that picks the frame to empty. Every frame has a flag that is set when the frame is used.
A hand goes round over the frames: it passes those that may not be emptied, clears the flag of those
that were used since it came by, and stops at the first that was not.
-/

namespace HeapStore

structure Clock where
  referenced : Array Bool
  hand : Nat
  deriving DecidableEq, Repr

/-- Where a sweep of the hand ended, and the frames whose eligibility was asked for, in order. -/
structure Sweep where
  victim : Option Nat
  asked : List Nat
  clock : Clock
  deriving DecidableEq, Repr

namespace Clock

def ofFrames (n : Nat) : Clock := ⟨Array.replicate n false, 0⟩

/-- The number of frames. -/
def capacity (c : Clock) : Nat := c.referenced.size

def isReferenced (c : Clock) (frame : Nat) : Bool := c.referenced.getD frame false

def setFlag (c : Clock) (frame : Nat) (on : Bool) : Clock :=
  { c with referenced := c.referenced.setIfInBounds frame on }

/-- Notes that a frame was used. -/
def access (c : Clock) (frame : Nat) : Clock := c.setFlag frame true

/-- Forgets that a frame was used. -/
def forget (c : Clock) (frame : Nat) : Clock := c.setFlag frame false

/-- Moves the hand over at most `steps` frames. -/
def sweep (eligible : Nat → Bool) : (steps : Nat) → Clock → Sweep
  | 0, c => ⟨none, [], c⟩
  | steps + 1, c =>
    let frame := c.hand
    let moved := { c with hand := (frame + 1) % c.capacity }
    if eligible frame then
      if c.isReferenced frame then
        let s := sweep eligible steps (moved.forget frame)
        { s with asked := frame :: s.asked }
      else ⟨some frame, [frame], moved⟩
    else
      let s := sweep eligible steps moved
      { s with asked := frame :: s.asked }

/-- Picks an eligible frame. Two rounds find one if there is any: the first clears the flags. -/
def evict (c : Clock) (eligible : Nat → Bool) : Sweep := sweep eligible (2 * c.capacity) c

end Clock

end HeapStore
