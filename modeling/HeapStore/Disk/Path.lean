/-!
Absolute paths. A path names steps from the root; blank steps and steps `.` go nowhere. They matter
still: after a slash or a dot at the end only a directory can stand, and the text as a whole has a
greatest length.
-/

namespace HeapStore

/-- How the text of a path ends. -/
inductive PathEnding where
  | name
  | slash
  | dot
  deriving DecidableEq, Repr

/-- A path, as its text between the slashes. -/
structure Path where
  steps : List String
  deriving DecidableEq, Repr

namespace Path

/-- Reads the text of an absolute path. -/
def parse (text : String) : Path := ⟨text.splitOn "/"⟩

def text (p : Path) : String := "/".intercalate p.steps

/-- Does the step lead to an entry of the directory? -/
def isName (step : String) : Bool := step ≠ "" && step ≠ "."

/-- The names on the way from the root. -/
def names (p : Path) : List String := p.steps.filter isName

def ending (p : Path) : PathEnding :=
  if (p.steps.filter (· ≠ "")).getLast? = some "." then .dot
  else if p.steps.getLast? = some "" then .slash
  else .name

/-- The paths above one whose steps are listed backwards. -/
def aboveBackwards : List String → List Path
  | [] => []
  | step :: before =>
    if isName step then ⟨(before.dropWhile (!isName ·)).reverse⟩ :: aboveBackwards before
    else aboveBackwards before

/-- The paths of the directories above, the nearest first. But for the root's, each ends in a name. -/
def above (p : Path) : List Path := aboveBackwards p.steps.reverse

/-- The text of the path with these names and no other steps, which is blank for the root. -/
def ofNames (names : List String) : String := String.join (names.map ("/" ++ ·))

/-- The one text that all paths with the same names share. -/
def canonical (p : Path) : String := ofNames p.names

/-- No path can hold a NUL character. -/
def hasNul (p : Path) : Bool := p.names.any fun n => n.toList.contains '\x00'

/-- Paths may have 4095 bytes. -/
def tooLong (p : Path) : Bool := 4095 < p.text.utf8ByteSize

/-- Names may have 255 bytes. -/
def nameTooLong (name : String) : Bool := 255 < name.utf8ByteSize

end Path

end HeapStore
