/-!
JSON documents. A number counts as an integer only if it is written without fraction and exponent
and is not `-0`; every other number is kept apart without its value. A text that holds one half of a
surrogate pair has no characters of its own, and is kept apart too: it is well formed where nobody
asks for it.
-/

namespace HeapStore

/-- A JSON document. The name of a member is absent where it is a broken text. -/
inductive Json where
  | null
  | bool (b : Bool)
  | int (n : Int)
  | otherNumber
  | text (s : String)
  | brokenText
  | list (items : List Json)
  | record (members : List (Option String × Json))

namespace Json

/-- Blanks between the parts of a document. -/
def isBlank (c : Char) : Bool := c == ' ' || c == '\n' || c == '\t' || c == '\r'

def skipBlank (cs : List Char) : List Char := cs.dropWhile isBlank

/-! ### Numbers -/

/-- The number that digits stand for. -/
def natOfDigits (ds : List Char) : Nat := ds.foldl (fun n d => n * 10 + (d.toNat - '0'.toNat)) 0

/-- A fraction after the integer part, if there is one. Answers whether there was, and the rest. -/
def readFraction (cs : List Char) : Option (Bool × List Char) :=
  match cs with
  | '.' :: rest =>
    if (rest.takeWhile Char.isDigit).isEmpty then none else some (true, rest.dropWhile Char.isDigit)
  | _ => some (false, cs)

/-- The characters after the sign of an exponent. -/
def skipSign (cs : List Char) : List Char :=
  match cs with
  | '+' :: rest => rest
  | '-' :: rest => rest
  | _ => cs

/-- An exponent, if there is one. Answers whether there was, and the rest. -/
def readExponent (cs : List Char) : Option (Bool × List Char) :=
  match cs with
  | c :: rest =>
    if c == 'e' || c == 'E' then
      let digits := skipSign rest
      if (digits.takeWhile Char.isDigit).isEmpty then none
      else some (true, digits.dropWhile Char.isDigit)
    else some (false, cs)
  | [] => some (false, cs)

/-- Reads a number whose minus sign, if it had one, was read already. A leading zero stands alone. -/
def readUnsigned (negative : Bool) (cs : List Char) : Option (Json × List Char) :=
  let digits := cs.takeWhile Char.isDigit
  if digits.isEmpty || (digits.head? == some '0' && 1 < digits.length) then none
  else
    match readFraction (cs.dropWhile Char.isDigit) with
    | none => none
    | some (fraction, rest) =>
      match readExponent rest with
      | none => none
      | some (exponent, rest) =>
        let n := natOfDigits digits
        if fraction || exponent || (negative && n == 0) then some (otherNumber, rest)
        else some (int (if negative then -(n : Int) else n), rest)

def readNumber (cs : List Char) : Option (Json × List Char) :=
  match cs with
  | '-' :: rest => readUnsigned true rest
  | _ => readUnsigned false cs

/-! ### Texts -/

/-- A part of a text as it is written: a character, or a 16-bit unit by its number. -/
inductive TextPart where
  | char (c : Char)
  | unit (u : Nat)

def hexDigit? (c : Char) : Option Nat :=
  if c.isDigit then some (c.toNat - '0'.toNat)
  else if 'a' ≤ c ∧ c ≤ 'f' then some (c.toNat - 'a'.toNat + 10)
  else if 'A' ≤ c ∧ c ≤ 'F' then some (c.toNat - 'A'.toNat + 10)
  else none

/-- The 16-bit unit that four hexadecimal digits stand for. -/
def unitOfHex? (a b c d : Char) : Option Nat :=
  match hexDigit? a, hexDigit? b, hexDigit? c, hexDigit? d with
  | some a, some b, some c, some d => some (((a * 16 + b) * 16 + c) * 16 + d)
  | _, _, _, _ => none

/-- The character that an escape by one letter stands for. -/
def escaped? (c : Char) : Option Char :=
  match c with
  | '\x22' => some '\x22'
  | '\\' => some '\\'
  | '/' => some '/'
  | 'b' => some '\x08'
  | 'f' => some '\x0c'
  | 'n' => some '\n'
  | 'r' => some '\r'
  | 't' => some '\t'
  | _ => none

/-- Reads the parts of a text up to its closing quote. Control characters must be escaped. -/
def readParts : List Char → Option (List TextPart × List Char)
  | [] => none
  | '\x22' :: rest => some ([], rest)
  | '\\' :: 'u' :: a :: b :: c :: d :: rest =>
    match unitOfHex? a b c d with
    | none => none
    | some u => (readParts rest).map fun (ps, rest) => (.unit u :: ps, rest)
  | '\\' :: c :: rest =>
    match escaped? c with
    | none => none
    | some c => (readParts rest).map fun (ps, rest) => (.char c :: ps, rest)
  | c :: rest =>
    if c.toNat < 0x20 || c == '\\' then none
    else (readParts rest).map fun (ps, rest) => (.char c :: ps, rest)

def isHighSurrogate (u : Nat) : Bool := 0xD800 ≤ u && u < 0xDC00

def isLowSurrogate (u : Nat) : Bool := 0xDC00 ≤ u && u < 0xE000

/-- The characters of a text: two surrogate halves in order make one, a half alone makes none. -/
def joinParts : List TextPart → Option (List Char)
  | [] => some []
  | .char c :: ps => (joinParts ps).map (c :: ·)
  | .unit u :: .unit v :: ps =>
    if isHighSurrogate u then
      if isLowSurrogate v then
        (joinParts ps).map (Char.ofNat (0x10000 + (u - 0xD800) * 0x400 + (v - 0xDC00)) :: ·)
      else none
    else if isLowSurrogate u then none
    else (joinParts (.unit v :: ps)).map (Char.ofNat u :: ·)
  | .unit u :: ps =>
    if isHighSurrogate u || isLowSurrogate u then none else (joinParts ps).map (Char.ofNat u :: ·)

/-- Reads a text after its opening quote; the text is absent if it is broken. -/
def readText (cs : List Char) : Option (Option String × List Char) :=
  (readParts cs).map fun (ps, rest) => ((joinParts ps).map String.ofList, rest)

/-! ### Documents -/

mutual

/-- Reads one document from the front; `fuel` bounds the nesting. -/
def read : (fuel : Nat) → List Char → Option (Json × List Char)
  | 0, _ => none
  | fuel + 1, cs =>
    match skipBlank cs with
    | 'n' :: 'u' :: 'l' :: 'l' :: rest => some (null, rest)
    | 't' :: 'r' :: 'u' :: 'e' :: rest => some (bool true, rest)
    | 'f' :: 'a' :: 'l' :: 's' :: 'e' :: rest => some (bool false, rest)
    | '\x22' :: rest =>
      (readText rest).map fun (s, rest) => (match s with | some s => text s | none => brokenText, rest)
    | '[' :: rest =>
      match skipBlank rest with
      | ']' :: rest => some (list [], rest)
      | _ => (readItems fuel rest).map fun (vs, rest) => (list vs, rest)
    | '\x7b' :: rest =>
      match skipBlank rest with
      | '\x7d' :: rest => some (record [], rest)
      | _ => (readMembers fuel rest).map fun (ms, rest) => (record ms, rest)
    | rest => readNumber rest

/-- Reads the items of a list, of which there is at least one, and its closing bracket. -/
def readItems : (fuel : Nat) → List Char → Option (List Json × List Char)
  | 0, _ => none
  | fuel + 1, cs =>
    match read fuel cs with
    | none => none
    | some (v, rest) =>
      match skipBlank rest with
      | ',' :: rest => (readItems fuel rest).map fun (vs, rest) => (v :: vs, rest)
      | ']' :: rest => some ([v], rest)
      | _ => none

/-- Reads the members of a record, of which there is at least one, and its closing brace. -/
def readMembers : (fuel : Nat) → List Char → Option (List (Option String × Json) × List Char)
  | 0, _ => none
  | fuel + 1, cs =>
    match skipBlank cs with
    | '\x22' :: rest =>
      match readText rest with
      | none => none
      | some (name, rest) =>
        match skipBlank rest with
        | ':' :: rest =>
          match read fuel rest with
          | none => none
          | some (v, rest) =>
            match skipBlank rest with
            | ',' :: rest => (readMembers fuel rest).map fun (ms, rest) => ((name, v) :: ms, rest)
            | '\x7d' :: rest => some ([(name, v)], rest)
            | _ => none
        | _ => none
    | _ => none

end

/-- Reads the document that a text begins with. Every nested document takes at least one character,
so twice the length bounds the nesting. -/
def parse? (s : List Char) : Option (Json × List Char) := read (2 * s.length + 2) s

end Json

end HeapStore
