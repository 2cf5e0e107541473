import HeapStore.Disk.Tree

/-!
Data files: a file opened by its path, read and written by byte offset. No file reaches to byte 2⁶³:
what is read or written has to end before it.
-/

namespace HeapStore

structure DataFile where
  /-- The path as it was given. -/
  path : String
  /-- The canonical path of the file, under which its contents stand. -/
  location : String
  /-- Whether every write waits until it is stable. -/
  fsync : Bool
  deriving DecidableEq, Repr

namespace DataFile

/-- The file that stands at an absolute path. -/
def locate (d : Disk) (path : String) : Except Error DataFile :=
  match d.locate (Path.parse path) with
  | .error e => .error (.io e)
  | .ok location => .ok ⟨path, location, false⟩

/-- Opens the file at an absolute path. Missing directories above it are made, and so is the file;
directories stay made when the file itself cannot be opened. -/
def openAt (d : Disk) (path : String) (fsync : Bool) : Except Error DataFile × Disk :=
  match d.makeDirsAbove (Path.parse path) with
  | (.error e, d) => (.error (.io e), d)
  | (.ok (), d) =>
    match d.locateOrMake (Path.parse path) with
    | (.error e, d) => (.error (.io e), d)
    | (.ok location, d) => (.ok ⟨path, location, fsync⟩, d)

def size (f : DataFile) (d : Disk) : Nat := (d.contents f.location).size

/-- Every position in a file, and its size, is below 2⁶³. -/
def positionLimit : Nat := 0x8000000000000000

/-- Fills a buffer with the bytes from `offset` on, however the device hands them over. Past the end
of the file they are zero. A buffer that is refused is left as it is. -/
def readInto (transfers : List Transfer) (f : DataFile) (d : Disk) (offset : Nat) (buffer : Bytes) :
    Except Error Unit × Bytes :=
  if offset + buffer.length < positionLimit then
    (.ok (), (d.contents f.location).fill transfers offset 0 buffer)
  else (.error (.io .invalidInput), buffer)

/-- `n` bytes from `offset` on. -/
def read (f : DataFile) (d : Disk) (offset n : Nat) : Except Error Bytes :=
  match f.readInto [] d offset (zeros n) with
  | (.error e, _) => .error e
  | (.ok (), data) => .ok data

/-- Writes bytes at `offset`, growing the file if needed. -/
def write (f : DataFile) (d : Disk) (offset : Nat) (data : Bytes) : Except Error Unit × Disk :=
  if offset + data.length < positionLimit then
    (.ok (), d.setContents f.location ((d.contents f.location).write offset data))
  else (.error (.io .invalidInput), d)

/-- Cuts the file to `n` bytes, or extends it by zeros. -/
def setSize (f : DataFile) (d : Disk) (n : Nat) : Except Error Unit × Disk :=
  if n < positionLimit then (.ok (), d.setContents f.location ((d.contents f.location).resize n))
  else (.error (.io .invalidInput), d)

/-- All bytes of the file. -/
def bytes (f : DataFile) (d : Disk) : Bytes := (d.contents f.location).toBytes

def render (f : DataFile) : String :=
  "DataFile \x7b path: " ++ Text.quote f.path ++ ", fsync_enabled: " ++ toString f.fsync ++ " \x7d"

end DataFile

end HeapStore
