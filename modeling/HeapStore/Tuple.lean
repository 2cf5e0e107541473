import HeapStore.Schema

/-!
Tuples: a schema, one value per field, and the record id once the tuple is stored. Values are kept
as storing and reading them back would leave them, so a tuple and its bytes determine each other.
-/

namespace HeapStore

/-- One value per type, each as storage would leave it. -/
def Conforms : List FieldType → List Value → Prop
  | [], [] => True
  | t :: ts, v :: vs => t.Holds v ∧ Conforms ts vs
  | _, _ => False

instance decidableConforms : (ts : List FieldType) → (vs : List Value) → Decidable (Conforms ts vs)
  | [], [] => isTrue trivial
  | [], _ :: _ => isFalse id
  | _ :: _, [] => isFalse id
  | t :: ts, v :: vs =>
    have := decidableConforms ts vs
    inferInstanceAs (Decidable (t.Holds v ∧ Conforms ts vs))

/-- Coerces each value to its field; `index` counts the fields before these. -/
def coerceAll (index : Nat) : List Field → List Value → Except Mismatch (List Value)
  | f :: fs, v :: vs =>
    match f.type.coerce v with
    | none => .error (.valueKind index f.name f.type v)
    | some w => (coerceAll (index + 1) fs vs).map (w :: ·)
  | _, _ => .ok []

/-- The values' bytes, one field after the other. -/
def encodeAll : List FieldType → List Value → Bytes
  | t :: ts, v :: vs => (t.encode v).getD [] ++ encodeAll ts vs
  | _, _ => []

/-- Reads one value per type from the front, up to the first that does not decode, and answers also
the bytes that are left. -/
def decodeAll : List FieldType → Bytes → Except CodecError (List Value) × Bytes
  | [], b => (.ok [], b)
  | t :: ts, b =>
    match t.decode b with
    | (.error e, rest) => (.error e, rest)
    | (.ok v, rest) =>
      match decodeAll ts rest with
      | (.error e, rest) => (.error e, rest)
      | (.ok vs, rest) => (.ok (v :: vs), rest)

theorem conforms_of_coerceAll {index : Nat} {fs : List Field} {vs ws : List Value}
    (hl : vs.length = fs.length) (h : coerceAll index fs vs = .ok ws) :
    Conforms (fs.map (·.type)) ws := by
  induction fs generalizing index vs ws with
  | nil =>
    cases vs with
    | nil => simp only [coerceAll, Except.ok.injEq] at h; subst h; trivial
    | cons => simp at hl
  | cons f fs ih =>
    cases vs with
    | nil => simp at hl
    | cons v vs =>
      unfold coerceAll at h
      split at h
      · cases h
      · next w hw =>
        cases hr : coerceAll (index + 1) fs vs with
        | error e => rw [hr] at h; simp [Except.map] at h
        | ok us =>
          rw [hr] at h
          simp only [Except.map, Except.ok.injEq] at h
          subst h
          exact ⟨FieldType.holds_of_coerce hw, ih (by simpa using hl) hr⟩

theorem conforms_of_decodeAll {ts : List FieldType} {b rest : Bytes} {vs : List Value}
    (h : decodeAll ts b = (.ok vs, rest)) : Conforms ts vs := by
  induction ts generalizing b vs rest with
  | nil =>
    simp only [decodeAll, Prod.mk.injEq, Except.ok.injEq] at h
    obtain ⟨rfl, -⟩ := h
    trivial
  | cons t ts ih =>
    unfold decodeAll at h
    split at h
    · simp at h
    · next v r hv =>
      split at h
      · simp at h
      · next us r' hu =>
        simp only [Prod.mk.injEq, Except.ok.injEq] at h
        obtain ⟨rfl, -⟩ := h
        exact ⟨FieldType.holds_of_decode hv, ih hu⟩

theorem conforms_set {ts : List FieldType} {vs : List Value} (h : Conforms ts vs) {i : Nat}
    {t : FieldType} {v : Value} (ht : ts[i]? = some t) (hv : t.Holds v) : Conforms ts (vs.set i v) := by
  induction ts generalizing vs i with
  | nil => simp at ht
  | cons u us ih =>
    cases vs with
    | nil => exact h.elim
    | cons w ws =>
      cases i with
      | zero =>
        simp only [List.getElem?_cons_zero, Option.some.injEq] at ht
        subst ht
        exact ⟨hv, h.2⟩
      | succ i => exact ⟨h.1, ih h.2 (by simpa using ht)⟩

structure Tuple where
  schema : Schema
  values : List Value
  rid : Option RecordId
  conforms : Conforms schema.types values
  deriving DecidableEq, Repr

namespace Tuple

/-- The tuple with these values, which are coerced to the schema's fields. It is not stored yet. -/
def ofValues (schema : Schema) (values : List Value) : Except Error Tuple :=
  if hl : values.length = schema.fields.length then
    match hc : coerceAll 0 schema.fields values with
    | .error e => .error (.schemaMismatch e)
    | .ok ws => .ok ⟨schema, ws, none, conforms_of_coerceAll hl hc⟩
  else .error (.schemaMismatch (.valueCount schema.fields.length values.length))

/-- Replaces the value of one field. -/
def set (t : Tuple) (index : Nat) (v : Value) : Except Error Tuple :=
  match ht : t.schema.types[index]? with
  | none => .error (.schemaMismatch (.noSuchField index t.schema.fields.length))
  | some type =>
    match hw : type.coerce v with
    | none => .error (.schemaMismatch (.newValueKind index type v))
    | some w => .ok { t with
        values := t.values.set index w
        conforms := conforms_set t.conforms ht (FieldType.holds_of_coerce hw) }

/-- The tuple as stored at `rid`, or as stored nowhere. -/
def withRid (t : Tuple) (rid : Option RecordId) : Tuple := { t with rid := rid }

/-- The first difference between the field types of a table and of a tuple; `index` counts the
fields before these. -/
def typeMismatch? (index : Nat) : (table tuple : List FieldType) → Option Mismatch
  | t :: ts, u :: us => if t = u then typeMismatch? (index + 1) ts us else some (.fieldType index t u)
  | _, _ => none

/-- Can the tuple be stored under this schema? Field names do not matter. -/
def checkSchema (t : Tuple) (table : Schema) : Except Error Unit :=
  if t.schema.fields.length ≠ table.fields.length then
    .error (.schemaMismatch (.fieldCount table.fields.length t.schema.fields.length))
  else
    match typeMismatch? 0 table.types t.schema.types with
    | some m => .error (.schemaMismatch m)
    | none => .ok ()

/-- The tuple's bytes as a slot holds them. -/
def bytes (t : Tuple) : Bytes := encodeAll t.schema.types t.values

/-- Reads a tuple from the front and answers also the bytes that are left. -/
def decode (schema : Schema) (b : Bytes) : Except CodecError Tuple × Bytes :=
  match h : decodeAll schema.types b with
  | (.error e, rest) => (.error e, rest)
  | (.ok vs, rest) => (.ok ⟨schema, vs, none, conforms_of_decodeAll h⟩, rest)

/-- The values, separated by tabs. -/
def render (t : Tuple) : String := "\t".intercalate (t.values.map Value.render)

end Tuple

end HeapStore
