import HeapStore.Page.Basic

/-!
Copies of pages in memory. A copy is shared by reference: the frame it sits in holds one reference,
every handle and every checkout another, and the copy is gone with its last reference. A checkout
also holds the copy's lock, shared with other readers or exclusively.
-/

namespace HeapStore

/-- Who holds a copy's lock: so many readers, or one writer. -/
inductive Lock where
  | shared (readers : Nat)
  | exclusive
  deriving DecidableEq, Repr

namespace Lock

def free : Lock := .shared 0

/-- The lock after one more holder, if the holders there are allow it. -/
def grant : Lock → Access → Option Lock
  | .shared n, .shared => some (.shared (n + 1))
  | .shared 0, .exclusive => some .exclusive
  | _, _ => none

/-- The lock after a holder has left. -/
def release : Lock → Access → Lock
  | .shared n, .shared => .shared (n - 1)
  | .exclusive, .exclusive => free
  | l, _ => l

end Lock

/-- A page in memory, its lock, and the number of references to it. -/
structure Copy where
  page : Page
  lock : Lock
  refs : Nat
  deriving DecidableEq, Repr

/-- The right to read a copy, or to change it, until it is given back. -/
structure Checkout where
  copy : Nat
  access : Access
  deriving DecidableEq, Repr

/-- All copies there are, by number; the numbers of copies that are gone are not used again. -/
structure Copies where
  cells : Array (Option Copy)
  deriving DecidableEq, Repr

namespace Copies

def empty : Copies := ⟨#[]⟩

def get? (cs : Copies) (i : Nat) : Option Copy := cs.cells[i]?.join

/-- Replaces a copy, or removes it. -/
def put (cs : Copies) (i : Nat) (c : Option Copy) : Copies := ⟨cs.cells.setIfInBounds i c⟩

/-- Changes a copy if it is there. -/
def update (cs : Copies) (i : Nat) (f : Copy → Copy) : Copies :=
  match cs.get? i with
  | none => cs
  | some c => cs.put i (some (f c))

/-- Makes a copy of a page, with one reference. -/
def add (cs : Copies) (p : Page) : Nat × Copies :=
  (cs.cells.size, ⟨cs.cells.push (some ⟨p, .free, 1⟩)⟩)

/-- Takes one more reference. -/
def retain (cs : Copies) (i : Nat) : Copies := cs.update i fun c => { c with refs := c.refs + 1 }

/-- Gives a reference back. -/
def drop (cs : Copies) (i : Nat) : Copies :=
  match cs.get? i with
  | none => cs
  | some c => if c.refs ≤ 1 then cs.put i none else cs.put i (some { c with refs := c.refs - 1 })

/-- Checks a copy out if its lock allows it. -/
def acquire (cs : Copies) (i : Nat) (access : Access) : Option (Checkout × Copies) :=
  match cs.get? i with
  | none => none
  | some c =>
    match c.lock.grant access with
    | none => none
    | some l => some (⟨i, access⟩, cs.put i (some { c with lock := l, refs := c.refs + 1 }))

/-- Ends a checkout. -/
def release (cs : Copies) (g : Checkout) : Copies :=
  (cs.update g.copy fun c => { c with lock := c.lock.release g.access }).drop g.copy

/-- The page of a copy. -/
def page? (cs : Copies) (i : Nat) : Option Page := (cs.get? i).map (·.page)

def setPage (cs : Copies) (i : Nat) (p : Page) : Copies := cs.update i fun c => { c with page := p }

/-- Has the copy references besides its frame's? -/
def isShared (cs : Copies) (i : Nat) : Bool := (cs.get? i).any (1 < ·.refs)

/-- Is the page marked dirty? Under an exclusive checkout its state is not known and counts as
dirty. -/
def isDirty (cs : Copies) (i : Nat) : Bool :=
  (cs.get? i).any fun c => c.lock == .exclusive || c.page.dirtiedBy.isSome

/-- Changes the page under a checkout, which has to be exclusive. -/
def edit {α : Type} (cs : Copies) (g : Checkout) (change : Page → Except Error α × Page) :
    Except Error α × Copies :=
  match cs.page? g.copy with
  | none => (.error (.internal .staleCheckout), cs)
  | some p =>
    match g.access with
    | .shared => (.error (.permissionDenied (.sharedCheckout p.id)), cs)
    | .exclusive =>
      let (r, p) := change p
      (r, cs.setPage g.copy p)

end Copies

/-- A checkout as it is shown: the page's own id and the kind of access. -/
def Checkout.render (p : Page) (access : Access) : String :=
  "PageGuard \x7b page_id: PageId \x7b table_id: " ++ toString p.id.table ++ ", page_num: " ++
    toString p.id.page ++ " \x7d, mode: " ++ access.render ++ " \x7d"

end HeapStore
