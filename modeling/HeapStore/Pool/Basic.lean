import HeapStore.Pool.Clock
import HeapStore.Pool.Frame
import HeapStore.Table

/-!
The pool: a fixed number of frames, the index from page ids to frames, the free frames, the clock,
and the tables whose pages may be loaded. A page that is dirty or in use keeps its frame; when no
frame is free the clock picks a clean and unused page to give way.
-/

namespace HeapStore

structure Pool where
  frames : Array Frame
  /-- The frame of each resident page. -/
  index : List (PageId × Nat)
  /-- The free frames, the next one to use first. -/
  free : List Nat
  clock : Clock
  /-- The registered tables by id. -/
  tables : List (Nat × Table)
  copies : Copies
  deriving DecidableEq, Repr

/-- Counts of the frames in use. -/
structure PoolStats where
  resident : Nat
  dirty : Nat
  pinned : Nat
  deriving DecidableEq, Repr

namespace Pool

/-- A pool without pages and tables. -/
def ofFrames (n : Nat) : Pool :=
  { frames := Array.replicate n Frame.empty
    index := []
    free := List.range n
    clock := Clock.ofFrames n
    tables := []
    copies := Copies.empty }

/-- The pool that a configuration asks for. -/
def ofConfig (c : Config) : Except Error Pool := (c.validate).map fun _ => ofFrames c.forPool.numFrames

def numFrames (p : Pool) : Nat := p.frames.size

def freeCount (p : Pool) : Nat := p.free.length

def pageCount (p : Pool) : Nat := p.index.length

def frame (p : Pool) (i : Nat) : Frame := p.frames.getD i Frame.empty

/-- The frame of a resident page. -/
def frameOf? (p : Pool) (id : PageId) : Option Nat := p.index.lookup id

def contains (p : Pool) (id : PageId) : Bool := (p.frameOf? id).isSome

/-- The number of a resident page's copy. -/
def copyOf? (p : Pool) (id : PageId) : Option Nat :=
  (p.frameOf? id).bind fun i => (p.frame i).resident.map (·.copy)

/-- A resident page. -/
def page? (p : Pool) (id : PageId) : Option Page := (p.copyOf? id).bind p.copies.page?

/-- The transaction that a resident page was changed by, if it is dirty. -/
def dirtiedBy (p : Pool) (id : PageId) : Option TxnId := (p.page? id).bind (·.dirtiedBy)

def stats (p : Pool) : PoolStats :=
  { resident := p.pageCount
    dirty := p.frames.countP (·.isDirty p.copies)
    pinned := p.frames.countP (·.isPinned p.copies) }

/-! ### Tables -/

/-- Registers a table under its id, in place of the one registered there. -/
def register (p : Pool) (t : Table) : Pool :=
  { p with tables := (t.id, t) :: p.tables.filter (·.1 != t.id) }

def table (p : Pool) (id : Nat) : Except Error Table :=
  match p.tables.lookup id with
  | some t => .ok t
  | none => .error (.tableNotFound id)

/-! ### Frames -/

/-- Notes that a frame was used. -/
def access (p : Pool) (i : Nat) : Pool := { p with clock := p.clock.access i }

/-- Empties a frame. Its page is no longer found. -/
def resetFrame (p : Pool) (i : Nat) : Pool :=
  let (frame, copies) := (p.frame i).reset p.copies
  { p with
    frames := p.frames.setIfInBounds i frame
    copies := copies
    index := match (p.frame i).resident with
      | none => p.index
      | some r => p.index.filter (·.1 != r.page) }

/-- Finds a frame for a page: a free one, or else the one the clock empties. -/
def allocate (p : Pool) : Except Error Nat × Pool :=
  match p.free with
  | i :: rest => (.ok i, { p with free := rest })
  | [] =>
    let s := p.clock.evict fun i => (p.frame i).isEvictable p.copies
    let p := { p with clock := s.clock }
    match s.victim with
    | none => (.error .poolFull, p)
    | some i => (.ok i, p.resetFrame i)

/-- Puts a page that is not resident into a frame; answers the number of its copy. -/
def install (p : Pool) (id : PageId) (page : Page) : Except Error Nat × Pool :=
  match p.allocate with
  | (.error e, p) => (.error e, p)
  | (.ok i, p) =>
    let (copy, frame, copies) := (p.frame i).install p.copies id page
    (.ok copy, { p with
      frames := p.frames.setIfInBounds i frame
      copies := copies
      index := (id, i) :: p.index
      clock := p.clock.access i })

/-- Takes in a new page. One that is resident under this id already is replaced unless it is in
use. -/
def adopt (p : Pool) (id : PageId) (page : Page) : Except Error Unit × Pool :=
  match p.frameOf? id with
  | some i =>
    if (p.frame i).isPinned p.copies then
      (.error (.internal (.registeredWhileCheckedOut id)), p)
    else
      let (_, frame, copies) := (p.frame i).install p.copies id page
      (.ok (), { p with frames := p.frames.setIfInBounds i frame, copies := copies })
  | none =>
    match p.install id page with
    | (.error e, p) => (.error e, p)
    | (.ok _, p) => (.ok (), p)

/-- Drops a page without writing it back; answers whether it was resident. Those who use it keep
their copy. -/
def discard (p : Pool) (id : PageId) : Bool × Pool :=
  match p.frameOf? id with
  | none => (false, p)
  | some i =>
    let p := p.resetFrame i
    (true, { p with free := i :: p.free, clock := p.clock.forget i })

/-! ### Checkouts -/

/-- Checks out a copy, or gives up where its lock is held. -/
def checkout (p : Pool) (id : PageId) (copy : Nat) (access : Access) : Except Error Checkout × Pool :=
  match p.copies.acquire copy access with
  | none => (.error (.aborted (.lockTimeout access id)), p)
  | some (g, copies) => (.ok g, { p with copies := copies })

def release (p : Pool) (g : Checkout) : Pool := { p with copies := p.copies.release g }

/-- The page under a checkout. -/
def pageAt? (p : Pool) (g : Checkout) : Option Page := p.copies.page? g.copy

/-- Changes the page under an exclusive checkout. -/
def edit {α : Type} (p : Pool) (g : Checkout) (change : Page → Except Error α × Page) :
    Except Error α × Pool :=
  let (r, copies) := p.copies.edit g change
  (r, { p with copies := copies })

/-- The resident pages in the order of their ids, with the numbers of their copies. -/
def residents (p : Pool) : List Resident :=
  (p.frames.toList.filterMap (·.resident)).mergeSort fun r s => r.page.le s.page

end Pool

end HeapStore
