import HeapStore.Page.Layout

/-!
The configuration of a store, and the parts of it that tables and pools take.
-/

namespace HeapStore

structure Config where
  /-- The directory of the tables' files. -/
  dataDir : String := "./data"
  pageSize : Nat := defaultPageSize
  /-- The size of the pool in pages. -/
  poolPages : Nat := 50
  fsync : Bool := false
  /-- How long a checkout waits for a lock. -/
  lockTimeoutMs : Nat := 1000
  deriving DecidableEq, Repr

structure TableConfig where
  pageSize : Nat := defaultPageSize
  fsync : Bool := false
  deriving DecidableEq, Repr

structure PoolConfig where
  numFrames : Nat := 50
  lockTimeoutMs : Nat := 1000
  deriving DecidableEq, Repr

namespace Config

/-- Can a store run with this configuration? The first fault is reported. -/
def validate (c : Config) : Except Error Unit :=
  if c.pageSize = 0 then .error (.config .zeroPageSize)
  else if maxPageSize < c.pageSize then .error (.config (.pageSizeExceeds c.pageSize maxPageSize))
  else if c.poolPages = 0 then .error (.invalidParameter "buffer_pool_pages" "0")
  else .ok ()

def forTables (c : Config) : TableConfig := ⟨c.pageSize, c.fsync⟩

def forPool (c : Config) : PoolConfig := ⟨c.poolPages, c.lockTimeoutMs⟩

/-- The bytes of a full pool. -/
def poolBytes (c : Config) : Nat := c.poolPages * c.pageSize

/-- A path below a directory. An absolute path stands for itself. -/
def joinPath (dir name : String) : String :=
  if name.startsWith "/" || dir.isEmpty then name
  else if dir.endsWith "/" then dir ++ name
  else dir ++ "/" ++ name

/-- The file of a table. -/
def tablePath (c : Config) (table : String) : String := joinPath c.dataDir (table ++ ".dat")

end Config

end HeapStore
