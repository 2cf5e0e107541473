import HeapStore.Engine.Basic

/-!
Write-back. A dirty page is written to its table's file and is then clean. Several pages are written
in the order of their ids, up to the first that cannot be locked or written.
-/

namespace HeapStore.Engine

/-- Writes back one copy of a page, if it is dirty and, where `only` names a transaction, dirty by
that one. Answers whether it was written. Nobody else may have the page checked out. -/
def writeBack (e : Engine) (id : PageId) (copy : Nat) (only : Option TxnId) :
    Except Error Bool × Engine :=
  match e.pool.copies.get? copy with
  | none => (.error (.internal .staleCheckout), e)
  | some c =>
    if c.lock ≠ .free then (.error (.aborted (.lockTimeout .exclusive id)), e)
    else
      match c.page.dirtiedBy with
      | none => (.ok false, e)
      | some txn =>
        if only.any (· ≠ txn) then (.ok false, e)
        else
          match e.pool.table id.table with
          | .error err => (.error err, e)
          | .ok t =>
            match t.writePage e.disk c.page with
            | (.error err, _, disk) => (.error err, { e with disk := disk })
            | (.ok (), page, disk) =>
              let copies := e.pool.copies.setPage copy (page.markDirty false txn)
              (.ok true, { disk := disk, pool := { e.pool with copies := copies } })

/-- Writes back these pages in turn and counts those that were written. -/
def writeBackAll (only : Option TxnId) (count : Nat) : List Resident → Engine → Except Error Nat × Engine
  | [], e => (.ok count, e)
  | r :: rest, e =>
    match e.writeBack r.page r.copy only with
    | (.error err, e) => (.error err, e)
    | (.ok written, e) => writeBackAll only (if written then count + 1 else count) rest e

/-- Writes back one page, if it is resident and dirty. -/
def flushPage (e : Engine) (id : PageId) : Except Error Bool × Engine :=
  match e.pool.copyOf? id with
  | none => (.ok false, e)
  | some copy => e.writeBack id copy none

/-- Writes back every dirty page. -/
def flushAll (e : Engine) : Except Error Nat × Engine := writeBackAll none 0 e.pool.residents e

/-- Writes back the pages that a transaction changed last. -/
def flushTxn (e : Engine) (txn : TxnId) : Except Error Nat × Engine :=
  writeBackAll (some txn) 0 e.pool.residents e

end HeapStore.Engine
