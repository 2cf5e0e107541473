import HeapStore.Text.Utf8

/-!
Field types and field values. Every field type has a fixed width, so the size of a tuple follows
from its schema alone.

An integer is four bytes, big-endian two's complement. A text of width `n` is cut to at most `n`
bytes of whole characters and padded with zero bytes; reading it back drops the padding, and with
it any NUL characters the text ended in.
-/

namespace HeapStore

/-- A run of bytes: a field, a page, a window of a file. -/
abbrev Bytes := List UInt8

/-- `n` zero bytes. -/
def zeros (n : Nat) : Bytes := List.replicate n 0

/-- The type of one field. -/
inductive FieldType where
  | int
  | text (width : Nat)
  deriving DecidableEq, Repr

/-- The value of one field. -/
inductive Value where
  | int (n : Int32)
  | text (s : String)
  deriving DecidableEq, Repr

/-- Why the bytes of a field do not decode. -/
inductive CodecError where
  | shortBuffer (needed available : Nat)
  | invalidUtf8
  deriving DecidableEq, Repr

def CodecError.message : CodecError → String
  | .shortBuffer needed available => s!"field needs {needed} bytes, {available} available"
  | .invalidUtf8 => "string field is not valid UTF-8"

namespace Value

def render : Value → String
  | .int n => toString n.toInt
  | .text s => s

/-- The word messages use for the kind of a value. -/
def kindName : Value → String
  | .int _ => "integer"
  | .text _ => "string"

def int? : Value → Option Int32
  | .int n => some n
  | .text _ => none

def text? : Value → Option String
  | .int _ => none
  | .text s => some s

/-- Integers come before texts; texts are ordered by their bytes, which is the order of their code
points. -/
def compare : Value → Value → Ordering
  | .int m, .int n => Ord.compare m.toInt n.toInt
  | .int _, .text _ => .lt
  | .text _, .int _ => .gt
  | .text s, .text t => Ord.compare s t

instance : Ord Value := ⟨compare⟩

end Value

/-- The four bytes of a 32-bit word, the most significant one first. -/
def wordBytes (n : Int32) : Bytes :=
  let w := n.toUInt32.toNat
  [UInt8.ofNat (w / 0x1000000), UInt8.ofNat (w / 0x10000), UInt8.ofNat (w / 0x100), UInt8.ofNat w]

/-- The word that the first four bytes stand for; missing bytes count as zero. -/
def wordOfBytes (b : Bytes) : Int32 :=
  (UInt32.ofNat ((b.take 4).foldl (fun w x => w * 0x100 + x.toNat) 0)).toInt32

namespace FieldType

/-- The width of a field in bytes. -/
def size : FieldType → Nat
  | .int => 4
  | .text width => width

def render : FieldType → String
  | .int => "INT"
  | .text width => s!"STRING({width})"

/-- Is the value of the kind that the field stores? -/
def accepts : FieldType → Value → Bool
  | .int, .int _ => true
  | .text _, .text _ => true
  | _, _ => false

/-- The value as it comes back from storage, if the field accepts it. -/
def coerce : FieldType → Value → Option Value
  | .int, .int n => some (.int n)
  | .text width, .text s => some (.text (Text.trimNuls (Text.truncate s width)))
  | _, _ => none

/-- The bytes of a value, if the field accepts it. -/
def encode : FieldType → Value → Option Bytes
  | .int, .int n => some (wordBytes n)
  | .text width, .text s =>
    let kept := Text.bytes (Text.truncate s width)
    some (kept ++ zeros (width - kept.length))
  | _, _ => none

/-- Reads one value from the front and answers also the bytes that are left. A buffer that is too
short loses none, an ill-formed text loses its whole field. -/
def decode (t : FieldType) (b : Bytes) : Except CodecError Value × Bytes :=
  if b.length < t.size then (.error (.shortBuffer t.size b.length), b)
  else
    match t with
    | .int => (.ok (.int (wordOfBytes b)), b.drop 4)
    | .text width =>
      match Text.ofBytes? (Text.trimZeros (b.take width)) with
      | some s => (.ok (.text s), b.drop width)
      | none => (.error .invalidUtf8, b.drop width)

/-- A value that storing and reading back leaves as it is: it fits the field's width and ends in no
NUL character. -/
def Holds : FieldType → Value → Prop
  | .int, .int _ => True
  | .text width, .text s => (Text.bytes s).length ≤ width ∧ s.toList.getLast? ≠ some '\x00'
  | _, _ => False

instance (t : FieldType) (v : Value) : Decidable (t.Holds v) := by
  cases t <;> cases v <;> unfold Holds <;> infer_instance

theorem holds_of_coerce {t : FieldType} {v w : Value} (h : t.coerce v = some w) : t.Holds w := by
  cases t <;> cases v <;> simp only [coerce, Option.some.injEq, reduceCtorEq] at h
  · subst h; trivial
  · subst h
    exact ⟨Nat.le_trans (Text.length_bytes_trimNuls_le _) (Text.length_bytes_truncate_le _ _),
      Text.getLast?_trimNuls_ne _⟩

theorem holds_of_decode {t : FieldType} {b rest : Bytes} {v : Value}
    (h : t.decode b = (.ok v, rest)) : t.Holds v := by
  unfold decode at h
  split at h
  · simp at h
  · cases t with
    | int =>
      simp only [Prod.mk.injEq, Except.ok.injEq] at h
      obtain ⟨rfl, -⟩ := h
      trivial
    | text width =>
      simp only at h
      split at h
      · next s hs =>
        simp only [Prod.mk.injEq, Except.ok.injEq] at h
        obtain ⟨rfl, -⟩ := h
        have hb := Text.ofBytes?_eq_some_iff.1 hs
        refine ⟨?_, fun hn => ?_⟩
        · rw [hb]
          exact Nat.le_trans (Text.length_trimZeros_le _) (List.length_take_le _ _)
        · have := Text.getLast?_bytes_of_nul hn
          rw [hb] at this
          exact Text.getLast?_trimZeros_ne _ this
      · simp at h

end FieldType

end HeapStore
