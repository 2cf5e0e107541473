/-!
Names of pages, records and transactions. A page is named by its table and its number there, both
of 32 bits, so that the two together make a 64-bit key; pages and records are ordered by table,
then page, then slot.
-/

namespace HeapStore

structure PageId where
  table : Nat
  page : Nat
  deriving DecidableEq, Repr, Hashable

/-- Where a tuple is stored. -/
structure RecordId where
  page : PageId
  slot : Nat
  deriving DecidableEq, Repr

structure TxnId where
  num : Nat
  deriving DecidableEq, Repr

namespace PageId

def render (p : PageId) : String := s!"{p.table}:{p.page}"

/-- The table in the high half of a 64-bit key, the page number in the low half. -/
def key (p : PageId) : Nat := p.table * 0x100000000 + p.page

def ofKey (k : Nat) : PageId := ⟨k / 0x100000000 % 0x100000000, k % 0x100000000⟩

/-- Where the page begins in its table's file. -/
def byteOffset (p : PageId) (pageSize : Nat) : Nat := p.page * pageSize

/-- By table, then by page number. -/
def le (p q : PageId) : Bool := p.table < q.table || (p.table == q.table && p.page ≤ q.page)

end PageId

namespace RecordId

def render (r : RecordId) : String := s!"{r.page.render}:{r.slot}"

/-- By page, then by slot. -/
def le (r s : RecordId) : Bool :=
  if r.page = s.page then r.slot ≤ s.slot else r.page.le s.page

end RecordId

namespace TxnId

def render (t : TxnId) : String := s!"txn:{t.num}"

end TxnId

/-- The source of transaction ids: every draw gives the next number. -/
structure TxnCounter where
  next : Nat := 1
  deriving DecidableEq, Repr

def TxnCounter.draw (c : TxnCounter) : TxnId × TxnCounter := (⟨c.next⟩, ⟨c.next + 1⟩)

/-- The next `n` transaction ids, in order. -/
def TxnCounter.drawMany (c : TxnCounter) : Nat → List TxnId × TxnCounter
  | 0 => ([], c)
  | n + 1 =>
    let (t, c) := c.draw
    let (ts, c) := c.drawMany n
    (t :: ts, c)

end HeapStore
