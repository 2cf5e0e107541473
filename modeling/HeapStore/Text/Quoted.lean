import HeapStore.Text.Printable

/-!
Quoted text, as messages show names and paths: between double quotes, with the quote, the backslash and the
usual control characters escaped by a letter and every other unprintable character by its number.
-/

namespace HeapStore.Text

/-- One character inside quotes. -/
def quoteChar (c : Char) : String :=
  match c with
  | '\x00' => "\\0"
  | '\t' => "\\t"
  | '\n' => "\\n"
  | '\r' => "\\r"
  | '\x22' => "\\\""
  | '\\' => "\\\\"
  | c =>
    if isPrintable c then c.toString
    else "\\u\x7b" ++ String.ofList (Nat.toDigits 16 c.toNat) ++ "\x7d"

/-- The text between double quotes. -/
def quote (s : String) : String := "\"" ++ String.join (s.toList.map quoteChar) ++ "\""

end HeapStore.Text
