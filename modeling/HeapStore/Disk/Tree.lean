import HeapStore.Disk.Contents
import HeapStore.Disk.Path
import HeapStore.Error

/-!
The directory tree that files live in. Entries are kept by their canonical paths; the root is itself
a directory and needs no entry. Files and directories are made and never removed, so what stands
once can be reached from then on.
-/

namespace HeapStore

inductive Node where
  | directory
  | file (contents : Contents)
  deriving DecidableEq, Repr

structure Disk where
  entries : List (String × Node) := []
  deriving DecidableEq, Repr

namespace Disk

/-- What stands at a canonical path. -/
def node? (d : Disk) (path : String) : Option Node :=
  if path = "" then some .directory else d.entries.lookup path

/-- Puts a node at a canonical path, in place of what stands there. -/
def put (d : Disk) (path : String) (n : Node) : Disk :=
  { entries := (path, n) :: d.entries.filter (·.1 != path) }

/-- The contents of a file, which are empty where no file stands. -/
def contents (d : Disk) (path : String) : Contents :=
  match d.node? path with
  | some (.file c) => c
  | _ => {}

/-- Replaces the contents of a file. -/
def setContents (d : Disk) (path : String) (c : Contents) : Disk := d.put path (.file c)

theorem lookup_filter_ne {path other : String} (h : other ≠ path) (l : List (String × Node)) :
    (l.filter (·.1 != path)).lookup other = l.lookup other := by
  induction l with
  | nil => rfl
  | cons e l ih =>
    obtain ⟨key, n⟩ := e
    by_cases hk : key = path
    · subst hk
      simp [List.lookup_cons, ih, beq_eq_false_iff_ne.mpr h]
    · simp [hk, List.lookup_cons, ih]

theorem node?_put_of_ne (d : Disk) {path other : String} (h : other ≠ path) (n : Node) :
    (d.put path n).node? other = d.node? other := by
  simp [node?, put, List.lookup_cons, lookup_filter_ne h, beq_eq_false_iff_ne.mpr h]

/-- The root is no file. -/
theorem path_ne_of_file {d : Disk} {path : String} {c : Contents} (h : d.node? path = some (.file c)) :
    path ≠ "" := by
  rintro rfl
  cases h

theorem contents_setContents (d : Disk) {path : String} (h : path ≠ "") (c : Contents) :
    (d.setContents path c).contents path = c := by
  simp [contents, setContents, node?, put, h]

theorem contents_setContents_of_ne (d : Disk) {path other : String} (h : other ≠ path)
    (c : Contents) : (d.setContents path c).contents other = d.contents other := by
  simp [contents, setContents, node?_put_of_ne d h]

/-- No path with a NUL character, and none that is too long, leads anywhere. -/
def checkPath (p : Path) : Except IoFault Unit :=
  if p.hasNul then .error .invalidInput
  else if p.tooLong then .error .nameTooLong
  else .ok ()

/-- Follows names that must all lead to directories, from the directory `dir`. -/
def enter (d : Disk) (dir : String) : List String → Except IoFault Unit
  | [] => .ok ()
  | name :: rest =>
    if Path.nameTooLong name then .error .nameTooLong
    else
      match d.node? (dir ++ "/" ++ name) with
      | some .directory => enter d (dir ++ "/" ++ name) rest
      | some (.file _) => .error .notDirectory
      | none => .error .notFound

/-- Reaches the directory with these names from the root. Where none stands, the first name that
leads nowhere tells why. -/
def reachNames (d : Disk) (names : List String) : Except IoFault Unit :=
  match d.node? (Path.ofNames names) with
  | some .directory => .ok ()
  | _ => d.enter "" names

/-- Follows a path as far as the directory that its last entry is in. After a dot at the end that
is the directory of this name itself. -/
def reach (d : Disk) (p : Path) : Except IoFault Unit :=
  match checkPath p with
  | .error e => .error e
  | .ok () => d.reachNames (if p.ending = .dot then p.names else p.names.dropLast)

/-- Why nothing stands at these names, in a directory that is there. -/
def missing (names : List String) : IoFault :=
  if (names.getLast?.map Path.nameTooLong).getD false then .nameTooLong else .notFound

/-- The canonical path of the file at a path, for reading or changing it. -/
def locate (d : Disk) (p : Path) : Except IoFault String :=
  match d.reach p with
  | .error e => .error e
  | .ok () =>
    match d.node? p.canonical with
    | some .directory => .error .isDirectory
    | some (.file _) => if p.ending = .name then .ok p.canonical else .error .notDirectory
    | none => .error (missing p.names)

/-- Does anything stand at the path? -/
def hasEntry (d : Disk) (p : Path) : Bool :=
  match d.locate p with
  | .ok _ => true
  | .error e => e = .isDirectory

/-- Does a directory stand at the path? -/
def hasDirectory (d : Disk) (p : Path) : Bool :=
  match d.locate p with
  | .ok _ => false
  | .error e => e = .isDirectory

/-- Makes the directory at a path, in one that is there. -/
def makeDir (d : Disk) (p : Path) : Except IoFault Unit × Disk :=
  match d.reach p with
  | .error e => (.error e, d)
  | .ok () =>
    match d.node? p.canonical with
    | some _ => (.error .alreadyExists, d)
    | none =>
      match missing p.names with
      | .notFound => (.ok (), d.put p.canonical .directory)
      | e => (.error e, d)

/-- Makes the directory at a path, unless it is there. -/
def ensureDir (d : Disk) (p : Path) : Except IoFault Unit × Disk :=
  match d.makeDir p with
  | (.error .alreadyExists, d) =>
    (if d.hasDirectory p then .ok () else .error .alreadyExists, d)
  | r => r

/-- Makes the directory at a path and, where it is missing, the one next above, and so on upwards. -/
def makeDirsUpTo (d : Disk) (p : Path) : (above : List Path) → Except IoFault Unit × Disk
  | [] => d.ensureDir p
  | next :: rest =>
    match d.ensureDir p with
    | (.error .notFound, d) =>
      match makeDirsUpTo d next rest with
      | (.error e, d) => (.error e, d)
      | (.ok (), d) => d.ensureDir p
    | r => r

/-- Makes the directory at a path and those above it, as far as they are missing. -/
def makeDirs (d : Disk) (p : Path) : Except IoFault Unit × Disk := d.makeDirsUpTo p p.above

/-- Makes the directories above a path, as far as they are missing. -/
def makeDirsAbove (d : Disk) (p : Path) : Except IoFault Unit × Disk :=
  match p.above with
  | [] => (.ok (), d)
  | next :: rest => d.makeDirsUpTo next rest

/-- The canonical path of the file at a path, which is made empty if it is missing. A path that ends
in a slash or a dot never makes a file. -/
def locateOrMake (d : Disk) (p : Path) : Except IoFault String × Disk :=
  match d.reach p with
  | .error e => (.error e, d)
  | .ok () =>
    if p.ending = .name then
      match d.locate p with
      | .error .notFound => (.ok p.canonical, d.put p.canonical (.file {}))
      | r => (r, d)
    else (.error .isDirectory, d)

end Disk

end HeapStore
