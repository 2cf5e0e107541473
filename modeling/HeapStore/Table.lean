import HeapStore.Checksum
import HeapStore.Config
import HeapStore.Disk.DataFile
import HeapStore.Page.Basic

/-!
Tables: a file cut into pages of one size, all of them holding tuples of one schema. Page `n` stands
at byte `n * pageSize`. A table is named by a checksum of its file's canonical path.
-/

namespace HeapStore

structure Table where
  file : DataFile
  schema : Schema
  layout : Layout
  sized : layout.tupleSize = schema.tupleSize
  deriving DecidableEq, Repr

theorem Layout.tupleSize_of_make {pageSize tupleSize : Nat} {l : Layout}
    (h : Layout.make pageSize tupleSize = .ok l) : l.tupleSize = tupleSize := by
  unfold Layout.make at h
  split at h
  · cases h
  · split at h
    · cases h
    · split at h
      · cases h; rfl
      · cases h

namespace Table

/-- Opens the table in the file at an absolute path. The file is left alone if not even one tuple
of the schema fits on a page. -/
def openAt (d : Disk) (path : String) (schema : Schema) (config : TableConfig) :
    Except Error Table × Disk :=
  match h : Layout.make config.pageSize schema.tupleSize with
  | .error e => (.error e, d)
  | .ok layout =>
    match DataFile.openAt d path config.fsync with
    | (.error e, d) => (.error e, d)
    | (.ok file, d) => (.ok ⟨file, schema, layout, Layout.tupleSize_of_make h⟩, d)

/-- The canonical path of the table's file. -/
def path (t : Table) : String := t.file.location

/-- The same for every opening of one file. Two files may share an id. -/
def id (t : Table) : Nat := (Checksum.crc32 (Text.bytes t.path)).toNat

def pageSize (t : Table) : Nat := t.layout.pageSize

/-- The number of pages, a partial last one included, narrowed to 32 bits. -/
def pageCount (t : Table) (d : Disk) : Nat :=
  (t.file.size d + (t.pageSize - 1)) / t.pageSize % 0x100000000

/-- Reads and decodes a page of this table that lies within the file. -/
def readPage (t : Table) (d : Disk) (p : PageId) : Except Error Page :=
  if p.table ≠ t.id ∨ t.pageCount d ≤ p.page then .error (.invalidPage p (t.pageCount d))
  else
    match t.file.read d (p.byteOffset t.pageSize) t.pageSize with
    | .error e => .error e
    | .ok data => Page.ofBytes p t.schema t.pageSize data

/-- Writes a page to its place in the file. What was written becomes the page's stored image. -/
def writePage (t : Table) (d : Disk) (p : Page) : Except Error Unit × Page × Disk :=
  if p.id.table ≠ t.id then (.error (.invalidPage p.id (t.pageCount d)), p, d)
  else
    let data := p.toBytes
    match t.file.write d (p.id.byteOffset t.pageSize) data with
    | (.error e, d) => (.error e, p, d)
    | (.ok (), d) => (.ok (), p.withBefore data, d)

end Table

end HeapStore
