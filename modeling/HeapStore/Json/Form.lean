import HeapStore.Config
import HeapStore.Json.Reader
import HeapStore.Json.Writer
import HeapStore.Schema

/-!
The JSON forms of the store's types. A structure is a record of its fields, each at most once and in
any order, among members of other names that do not matter; or a list of its fields in order. A
choice with data is a record of one member named for it, a choice without data its name. A schema
must also pass the checks of `Schema.ofFields`.
-/

namespace HeapStore

/-- Why a text is not the form of a value: it has not the form, or the schema it describes is
refused. -/
inductive FormError where
  | shape
  | schema (cause : Error)
  deriving DecidableEq, Repr

namespace Json

/-- The field of a record by its name; it may be absent, but not be there twice. -/
def member? (members : List (Option String × Json)) (name : String) : Except FormError (Option Json) :=
  match members.filter (·.1 == some name) with
  | [] => .ok none
  | [m] => .ok (some m.2)
  | _ => .error .shape

/-- The fields of a structure in order, as far as they are there. -/
def fields (names : List String) : Json → Except FormError (List (Option Json))
  | .list items =>
    if items.length ≤ names.length then
      .ok (items.map some ++ List.replicate (names.length - items.length) none)
    else .error .shape
  | .record members =>
    if members.any (·.1.isNone) then .error .shape else names.mapM (member? members)
  | _ => .error .shape

def toText : Json → Except FormError String
  | .text s => .ok s
  | _ => .error .shape

def toBool : Json → Except FormError Bool
  | .bool b => .ok b
  | _ => .error .shape

/-- A natural number below a limit. -/
def toNatBelow (limit : Nat) : Json → Except FormError Nat
  | .int (.ofNat n) => if n < limit then .ok n else .error .shape
  | _ => .error .shape

/-- A natural number of 32 bits. -/
def toNat32 : Json → Except FormError Nat := toNatBelow 0x100000000

/-- A natural number of 64 bits. -/
def toNat64 : Json → Except FormError Nat := toNatBelow 0x10000000000000000

def toInt32 : Json → Except FormError Int32
  | .int n => if -0x80000000 ≤ n ∧ n < 0x80000000 then .ok (Int32.ofInt n) else .error .shape
  | _ => .error .shape

def toList {α : Type} (item : Json → Except FormError α) : Json → Except FormError (List α)
  | .list items => items.mapM item
  | _ => .error .shape

/-! ### From JSON -/

def toValue : Json → Except FormError Value
  | .record [(some "Int", v)] => v.toInt32.map .int
  | .record [(some "Str", v)] => v.toText.map .text
  | _ => .error .shape

def toFieldType : Json → Except FormError FieldType
  | .text "Int" => .ok .int
  | .record [(some "Int", .null)] => .ok .int
  | .record [(some "FixedString", v)] => v.toNat64.map .text
  | _ => .error .shape

def toField (j : Json) : Except FormError Field :=
  match j.fields ["field_type", "name"] with
  | .ok [some type, some name] => do return ⟨← type.toFieldType, ← name.toText⟩
  | _ => .error .shape

def toSchema (j : Json) : Except FormError Schema :=
  match j.fields ["fields"] with
  | .ok [some fields] =>
    match fields.toList toField with
    | .error e => .error e
    | .ok fs => (Schema.ofFields fs).mapError .schema
  | _ => .error .shape

def toPageId (j : Json) : Except FormError PageId :=
  match j.fields ["table_id", "page_num"] with
  | .ok [some table, some page] => do return ⟨← table.toNat32, ← page.toNat32⟩
  | _ => .error .shape

def toTxnId (j : Json) : Except FormError TxnId := j.toNat64.map .mk

/-- A field that takes its default where it is absent. -/
def orDefault {α : Type} (default : α) (read : Json → Except FormError α) :
    Option Json → Except FormError α
  | none => .ok default
  | some j => read j

/-- A configuration; what it leaves out has its default. -/
def toConfig (j : Json) : Except FormError Config :=
  match j.fields ["data_dir", "page_size", "buffer_pool_pages", "fsync_enabled", "lock_timeout_ms"] with
  | .ok [dataDir, pageSize, poolPages, fsync, lockTimeoutMs] => do
    let base : Config := {}
    return {
      dataDir := ← orDefault base.dataDir toText dataDir
      pageSize := ← orDefault base.pageSize toNat64 pageSize
      poolPages := ← orDefault base.poolPages toNat64 poolPages
      fsync := ← orDefault base.fsync toBool fsync
      lockTimeoutMs := ← orDefault base.lockTimeoutMs toNat64 lockTimeoutMs }
  | _ => .error .shape

/-- Reads a whole text as one document of a form, with nothing but blanks around it. -/
def ofText {α : Type} (form : Json → Except FormError α) (s : String) : Except FormError α :=
  match parse? s.toList with
  | none => .error .shape
  | some (j, rest) =>
    match form j with
    | .error e => .error e
    | .ok a => if (skipBlank rest).isEmpty then .ok a else .error .shape

end Json

/-! ### To JSON -/

open Json

def Value.toJson : Value → List Char
  | .int n => Writer.record [("Int", Writer.int n.toInt)]
  | .text s => Writer.record [("Str", Writer.text s)]

def FieldType.toJson : FieldType → List Char
  | .int => Writer.text "Int"
  | .text width => Writer.record [("FixedString", Writer.nat width)]

def Field.toJson (f : Field) : List Char :=
  Writer.record [("field_type", f.type.toJson), ("name", Writer.text f.name)]

def Schema.toJson (s : Schema) : List Char :=
  Writer.record [("fields", Writer.list (s.fields.map Field.toJson))]

def PageId.toJson (p : PageId) : List Char :=
  Writer.record [("table_id", Writer.nat p.table), ("page_num", Writer.nat p.page)]

def TxnId.toJson (t : TxnId) : List Char := Writer.nat t.num

def Config.toJson (c : Config) : List Char :=
  Writer.record [
    ("data_dir", Writer.text c.dataDir),
    ("page_size", Writer.nat c.pageSize),
    ("buffer_pool_pages", Writer.nat c.poolPages),
    ("fsync_enabled", Writer.bool c.fsync),
    ("lock_timeout_ms", Writer.nat c.lockTimeoutMs)]

/-- The configuration in the text of a file, if it is one and a store can run with it. -/
def Config.ofText (s : String) : Except Error Config :=
  match Json.ofText Json.toConfig s with
  | .error _ => .error (.config .malformed)
  | .ok c => c.validate.map fun _ => c

/-- The configuration in the bytes of a file. -/
def Config.ofBytes (b : Bytes) : Except Error Config :=
  match Text.ofBytes? b with
  | none => .error (.io .invalidData)
  | some s => Config.ofText s

end HeapStore
