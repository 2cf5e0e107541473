import HeapStore.Engine.Basic

/-!
Storing and removing tuples. A tuple goes into the first page of its table with a free slot; if all
pages are full the table grows by one page. Every page that is changed is left dirty.
-/

namespace HeapStore.Engine

/-- Stores a tuple on the page under a checkout, gives the checkout back, and leaves the page dirty
by the transaction if the tuple was stored. -/
def insertAt (e : Engine) (g : Checkout) (page : Page) (txn : TxnId) (t : Tuple) :
    Except Error RecordId × Tuple × Engine :=
  let (r, t, page) := page.insert t
  match r with
  | .error err => (.error err, t, e.release g)
  | .ok rid =>
    let (_, e) := e.edit g fun _ => (.ok (), page.markDirty true txn)
    (.ok rid, t, e.release g)

/-- Tries `count` pages of a table in turn, from `page` on. Answers no record id if all of them are
full. -/
def insertInto (table : Nat) (txn : TxnId) (t : Tuple) :
    (count page : Nat) → Engine → Except Error (Option RecordId) × Tuple × Engine
  | 0, _, e => (.ok none, t, e)
  | count + 1, n, e =>
    match e.getPage ⟨table, n⟩ .exclusive with
    | (.error err, e) => (.error err, t, e)
    | (.ok g, e) =>
      match e.pageAt? g with
      | none => (.error (.internal .staleCheckout), t, e)
      | some page =>
        if page.freeSlots = 0 then insertInto table txn t count (n + 1) (e.release g)
        else
          match e.insertAt g page txn t with
          | (.ok rid, t, e) => (.ok (some rid), t, e)
          | (.error err, t, e) =>
            if err.isPageFull then insertInto table txn t count (n + 1) e else (.error err, t, e)

/-- Writes an empty page at number `n` of a table and hands it to the pool. It stays in the file if
the pool refuses it. -/
def appendPage (e : Engine) (table : Table) (n : Nat) : Except Error PageId × Engine :=
  let id : PageId := ⟨table.id, n⟩
  match Page.empty id table.schema table.pageSize with
  | .error err => (.error err, e)
  | .ok page =>
    match table.writePage e.disk page with
    | (.error err, _, disk) => (.error err, { e with disk := disk })
    | (.ok (), page, disk) =>
      match adopt { e with disk := disk } id page with
      | (.error err, e) => (.error err, e)
      | (.ok (), e) => (.ok id, e)

/-- Stores a tuple in a table. Answers its record id and the tuple with that id; a tuple that could
not be stored comes back as it was. -/
def insertTuple (e : Engine) (table : Table) (txn : TxnId) (t : Tuple) :
    Except Error RecordId × Tuple × Engine :=
  match t.checkSchema table.schema with
  | .error err => (.error err, t, e)
  | .ok () =>
    let pages := table.pageCount e.disk
    match insertInto table.id txn t pages 0 e with
    | (.error err, t, e) => (.error err, t, e)
    | (.ok (some rid), t, e) => (.ok rid, t, e)
    | (.ok none, t, e) =>
      match e.appendPage table pages with
      | (.error err, e) => (.error err, t, e)
      | (.ok id, e) =>
        match e.getPage id .exclusive with
        | (.error err, e) => (.error err, t, e)
        | (.ok g, e) =>
          match e.pageAt? g with
          | none => (.error (.internal .staleCheckout), t, e)
          | some page => e.insertAt g page txn t

/-- Removes a tuple from the page of this table that its record id names; answers that page. -/
def deleteTuple (e : Engine) (table : Table) (txn : TxnId) (t : Tuple) : Except Error PageId × Engine :=
  match t.rid with
  | none => (.error .tupleNotPlaced, e)
  | some rid =>
    if rid.page.table ≠ table.id then
      (.error (.tupleNotOnPage rid.page (.otherTable table.id)), e)
    else
      match e.getPage rid.page .exclusive with
      | (.error err, e) => (.error err, e)
      | (.ok g, e) =>
        let (r, e) := e.edit g fun page =>
          match page.delete t with
          | (.error err, page) => (.error err, page)
          | (.ok (), page) => (.ok rid.page, page.markDirty true txn)
        (r, e.release g)

/-- Stores a tuple in the table registered under an id. -/
def insert (e : Engine) (table : Nat) (txn : TxnId) (t : Tuple) : Except Error RecordId × Tuple × Engine :=
  match e.pool.table table with
  | .error err => (.error err, t, e)
  | .ok tbl => e.insertTuple tbl txn t

/-- Removes a tuple from the registered table that its record id names. -/
def delete (e : Engine) (txn : TxnId) (t : Tuple) : Except Error Unit × Engine :=
  match t.rid with
  | none => (.error .tupleNotPlaced, e)
  | some rid =>
    match e.pool.table rid.page.table with
    | .error err => (.error err, e)
    | .ok tbl =>
      let (r, e) := e.deleteTuple tbl txn t
      (r.map fun _ => (), e)

end HeapStore.Engine
