/-!
Writing JSON without blanks. In texts the quote, the backslash and the control characters are
escaped, and nothing else is.
-/

namespace HeapStore.Json.Writer

/-- A hexadecimal digit in lower case. -/
def hexDigit (n : Nat) : Char := "0123456789abcdef".toList.getD n '0'

/-- One character of a text. -/
def char (c : Char) : List Char :=
  match c with
  | '\x22' => ['\\', '\x22']
  | '\\' => ['\\', '\\']
  | '\x08' => ['\\', 'b']
  | '\x0c' => ['\\', 'f']
  | '\n' => ['\\', 'n']
  | '\r' => ['\\', 'r']
  | '\t' => ['\\', 't']
  | c =>
    if c.toNat < 0x20 then ['\\', 'u', '0', '0', hexDigit (c.toNat / 16), hexDigit (c.toNat % 16)]
    else [c]

def text (s : String) : List Char := '\x22' :: s.toList.flatMap char ++ ['\x22']

def nat (n : Nat) : List Char := Nat.toDigits 10 n

def int (n : Int) : List Char :=
  match n with
  | .ofNat n => nat n
  | .negSucc n => '-' :: nat (n + 1)

def bool (b : Bool) : List Char := if b then "true".toList else "false".toList

/-- Parts with commas between them. -/
def separated : List (List Char) → List Char
  | [] => []
  | [p] => p
  | p :: ps => p ++ ',' :: separated ps

def list (items : List (List Char)) : List Char := '[' :: separated items ++ [']']

def member (name : String) (value : List Char) : List Char := text name ++ ':' :: value

def record (members : List (String × List Char)) : List Char :=
  '\x7b' :: separated (members.map fun (name, value) => member name value) ++ ['\x7d']

end HeapStore.Json.Writer
