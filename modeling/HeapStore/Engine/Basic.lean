import HeapStore.Pool.Basic

/-!
The engine: the files and a pool over them. A page is checked out through the pool, which loads it
from its table's file if it is not resident.
-/

namespace HeapStore

structure Engine where
  disk : Disk
  pool : Pool
  deriving DecidableEq, Repr

namespace Engine

def withPool (e : Engine) (p : Pool) : Engine := { e with pool := p }

/-- Reads a page that is not resident from its table's file and puts it into a frame. -/
def load (e : Engine) (id : PageId) : Except Error Nat × Engine :=
  match e.pool.table id.table with
  | .error err => (.error err, e)
  | .ok t =>
    match t.readPage e.disk id with
    | .error err => (.error err, e)
    | .ok page =>
      let (r, pool) := e.pool.install id page
      (r, e.withPool pool)

/-- Finds the copy of a page, loading the page if it is not resident. -/
def fetch (e : Engine) (id : PageId) : Except Error Nat × Engine :=
  match e.pool.frameOf? id with
  | some i =>
    match (e.pool.frame i).resident with
    | some r => (.ok r.copy, e.withPool (e.pool.access i))
    | none => (e.withPool (e.pool.access i)).load id
  | none => e.load id

/-- Checks out a page. -/
def getPage (e : Engine) (id : PageId) (access : Access) : Except Error Checkout × Engine :=
  match e.fetch id with
  | (.error err, e) => (.error err, e)
  | (.ok copy, e) =>
    let (r, pool) := e.pool.checkout id copy access
    (r, e.withPool pool)

/-- Gives a checkout back. -/
def release (e : Engine) (g : Checkout) : Engine := e.withPool (e.pool.release g)

/-- The page under a checkout. -/
def pageAt? (e : Engine) (g : Checkout) : Option Page := e.pool.pageAt? g

/-- Changes the page under an exclusive checkout. -/
def edit {α : Type} (e : Engine) (g : Checkout) (change : Page → Except Error α × Page) :
    Except Error α × Engine :=
  let (r, pool) := e.pool.edit g change
  (r, e.withPool pool)

/-- Takes a new page into the pool. -/
def adopt (e : Engine) (id : PageId) (page : Page) : Except Error Unit × Engine :=
  let (r, pool) := e.pool.adopt id page
  (r, e.withPool pool)

/-- Drops a page from the pool without writing it back. -/
def discard (e : Engine) (id : PageId) : Bool × Engine :=
  let (r, pool) := e.pool.discard id
  (r, e.withPool pool)

end Engine

end HeapStore
