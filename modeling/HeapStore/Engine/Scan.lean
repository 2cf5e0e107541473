import HeapStore.Engine.Basic

/-!
Scans: all tuples of a table, by page and slot. A scan is opened, asked for tuples, and closed. The
page under its cursor stays checked out for reading until the cursor leaves it; the number of pages
is read again at every page boundary, so a scan sees the pages that are added ahead of it.
-/

namespace HeapStore

structure Cursor where
  /-- The page under the cursor, or the next one if none is checked out. -/
  page : Nat
  held : Option Checkout
  nextSlot : Nat
  /-- A tuple that was fetched but not yet handed out. -/
  peeked : Option Tuple
  deriving DecidableEq, Repr

def Cursor.start : Cursor := ⟨0, none, 0, none⟩

structure Scan where
  table : Table
  /-- Absent while the scan is closed. -/
  cursor : Option Cursor
  deriving DecidableEq, Repr

namespace Scan

def ofTable (t : Table) : Scan := ⟨t, none⟩

def isOpen (s : Scan) : Bool := s.cursor.isSome

/-- Gives back the page that the scan has checked out. -/
def releaseHeld (s : Scan) (e : Engine) : Engine :=
  match s.cursor.bind (·.held) with
  | none => e
  | some g => e.release g

/-- Goes on from the start of a page over at most `count` pages to the next tuple. -/
def seek (t : Table) : (count page : Nat) → Engine → Except Error (Option Tuple) × Cursor × Engine
  | 0, page, e => (.ok none, ⟨page, none, 0, none⟩, e)
  | count + 1, page, e =>
    match e.getPage ⟨t.id, page⟩ .shared with
    | (.error err, e) => (.error err, ⟨page, none, 0, none⟩, e)
    | (.ok g, e) =>
      match (e.pageAt? g).bind fun p => (p.nextUsedSlot 0).map fun slot => (slot, p.tuple? slot) with
      | some (slot, tuple) => (.ok tuple, ⟨page, some g, slot + 1, none⟩, e)
      | none => seek t count (page + 1) (e.release g)

/-- Goes on from a cursor to the next tuple: on the page it holds, or else on the pages after it. -/
def advance (t : Table) (c : Cursor) (e : Engine) : Except Error (Option Tuple) × Cursor × Engine :=
  match c.held with
  | none => seek t (t.pageCount e.disk - c.page) c.page e
  | some g =>
    match (e.pageAt? g).bind fun p =>
        (p.nextUsedSlot c.nextSlot).map fun slot => (slot, p.tuple? slot) with
    | some (slot, tuple) => (.ok tuple, { c with nextSlot := slot + 1 }, e)
    | none =>
      let e := e.release g
      seek t (t.pageCount e.disk - (c.page + 1)) (c.page + 1) e

/-- Starts a scan that is not open. -/
def start (s : Scan) : Except Error Unit × Scan :=
  match s.cursor with
  | some _ => (.error (.scanState .alreadyOpen), s)
  | none => (.ok (), { s with cursor := some .start })

/-- Is there another tuple? It is fetched, and handed out by the next `next`. -/
def hasNext (s : Scan) (e : Engine) : Except Error Bool × Scan × Engine :=
  match s.cursor with
  | none => (.error (.scanState .notOpen), s, e)
  | some c =>
    if c.peeked.isSome then (.ok true, s, e)
    else
      match advance s.table c e with
      | (.error err, c, e) => (.error err, { s with cursor := some c }, e)
      | (.ok t, c, e) => (.ok t.isSome, { s with cursor := some { c with peeked := t } }, e)

/-- The next tuple, or none at the end. -/
def next (s : Scan) (e : Engine) : Except Error (Option Tuple) × Scan × Engine :=
  match s.cursor with
  | none => (.error (.scanState .notOpen), s, e)
  | some c =>
    match c.peeked with
    | some t => (.ok (some t), { s with cursor := some { c with peeked := none } }, e)
    | none =>
      let (r, c, e) := advance s.table c e
      (r, { s with cursor := some c }, e)

/-- Goes back to the first tuple. -/
def rewind (s : Scan) (e : Engine) : Except Error Unit × Scan × Engine :=
  match s.cursor with
  | none => (.error (.scanState .notOpen), s, e)
  | some _ => (.ok (), { s with cursor := some .start }, s.releaseHeld e)

/-- Ends a scan; one that is not open stays so. -/
def close (s : Scan) (e : Engine) : Scan × Engine := ({ s with cursor := none }, s.releaseHeld e)

/-- The next tuples, at most `limit`, and what ended them early: `none` where the limit was reached,
the end of the table as `some none`, or a failure. -/
def take : (limit : Nat) → Scan → Engine → (List Tuple × Option (Option Error)) × Scan × Engine
  | 0, s, e => (([], none), s, e)
  | limit + 1, s, e =>
    match s.next e with
    | (.error err, s, e) => (([], some (some err)), s, e)
    | (.ok none, s, e) => (([], some none), s, e)
    | (.ok (some t), s, e) =>
      let ((ts, ended), s, e) := take limit s e
      ((t :: ts, ended), s, e)

/-- All tuples of a table, up to the first failure, by a scan of its own. No page has more slots than
bytes. -/
def all (t : Table) (e : Engine) : (List Tuple × Option Error) × Engine :=
  let ((ts, ended), s, e) := take (t.pageCount e.disk * maxPageSize + 1) ⟨t, some .start⟩ e
  ((ts, ended.join), (s.close e).2)

end Scan

end HeapStore
