import HeapStore.Pool.Frame

/-!
A frame together with those who use the copies that pass through it: the handles and the checkouts
that were taken and not yet given back, the latest first. Users of a copy keep it when the frame has
moved on to another page.
-/

namespace HeapStore

structure FrameUse where
  frame : Frame
  copies : Copies
  handles : List Nat
  checkouts : List Checkout
  deriving DecidableEq, Repr

namespace FrameUse

def empty : FrameUse := ⟨Frame.empty, Copies.empty, [], []⟩

/-- Puts a page into the frame. -/
def install (u : FrameUse) (id : PageId) (p : Page) : FrameUse :=
  let (_, frame, copies) := u.frame.install u.copies id p
  { u with frame := frame, copies := copies }

/-- Empties the frame; answers what sat in it. -/
def reset (u : FrameUse) : Option Resident × FrameUse :=
  let (frame, copies) := u.frame.reset u.copies
  (u.frame.resident, { u with frame := frame, copies := copies })

/-- Takes a handle on the resident copy, if there is one. -/
def pin (u : FrameUse) : Bool × FrameUse :=
  match u.frame.resident with
  | none => (false, u)
  | some r => (true, { u with copies := u.copies.retain r.copy, handles := r.copy :: u.handles })

/-- Gives back the handle at a position, if there is one. -/
def unpin (u : FrameUse) (i : Nat) : Bool × FrameUse :=
  match u.handles[i]? with
  | none => (false, u)
  | some copy => (true, { u with copies := u.copies.drop copy, handles := u.handles.eraseIdx i })

/-- Checks out the resident copy. Answers nothing if there is none, and no checkout if its lock is
held. -/
def checkout (u : FrameUse) (access : Access) : Option (Option Checkout) × FrameUse :=
  match u.frame.resident with
  | none => (none, u)
  | some r =>
    match u.copies.acquire r.copy access with
    | none => (some none, u)
    | some (g, copies) => (some (some g), { u with copies := copies, checkouts := g :: u.checkouts })

/-- Ends the checkout at a position, if there is one. -/
def release (u : FrameUse) (i : Nat) : Bool × FrameUse :=
  match u.checkouts[i]? with
  | none => (false, u)
  | some g => (true, { u with copies := u.copies.release g, checkouts := u.checkouts.eraseIdx i })

/-- Marks the page under a checkout as changed, or as clean. -/
def markDirty (u : FrameUse) (g : Checkout) (dirty : Bool) (txn : TxnId) :
    Except Error Unit × FrameUse :=
  let (r, copies) := u.copies.edit g fun p => (.ok (), p.markDirty dirty txn)
  (r, { u with copies := copies })

end FrameUse

end HeapStore
