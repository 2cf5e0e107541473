import HeapStore.Error

/-!
Schemas: the named and typed fields of a table's tuples, in order. A schema has at least one field,
no field of width zero, and a tuple size that fits into 64 bits.
-/

namespace HeapStore

structure Field where
  type : FieldType
  name : String
  deriving DecidableEq, Repr

/-- The bytes that all fields take together. -/
def totalWidth : List Field → Nat
  | [] => 0
  | f :: fields => f.type.size + totalWidth fields

/-- Adds a width to a 64-bit sum of widths. -/
def addWidth (sum width : Nat) : Option Nat :=
  if sum + width < 0x10000000000000000 then some (sum + width) else none

/-- The sum of the widths, field by field in 64 bits. -/
def widthIn64 (fields : List Field) : Option Nat :=
  fields.foldlM (fun sum f => addWidth sum f.type.size) 0

/-- What makes a list of fields a schema. -/
structure FieldsValid (fields : List Field) : Prop where
  nonempty : fields ≠ []
  positive : ∀ f ∈ fields, 0 < f.type.size
  bounded : totalWidth fields < 0x10000000000000000

structure Schema where
  fields : List Field
  valid : FieldsValid fields
  deriving DecidableEq, Repr

theorem foldlM_addWidth_eq_some {fields : List Field} {start sum : Nat}
    (h : fields.foldlM (fun sum f => addWidth sum f.type.size) start = some sum) :
    sum = start + totalWidth fields := by
  induction fields generalizing start with
  | nil => simp_all [totalWidth]
  | cons f fields ih =>
    simp only [List.foldlM_cons, Option.bind_eq_bind, Option.bind_eq_some_iff] at h
    obtain ⟨next, hn, h⟩ := h
    have := ih h
    unfold addWidth at hn
    split at hn
    · simp only [Option.some.injEq] at hn
      simp only [totalWidth]
      omega
    · cases hn

theorem foldlM_addWidth_lt {fields : List Field} {start sum : Nat} (hs : start < 0x10000000000000000)
    (h : fields.foldlM (fun sum f => addWidth sum f.type.size) start = some sum) : sum < 0x10000000000000000 := by
  induction fields generalizing start with
  | nil => simp only [List.foldlM_nil, Option.pure_def, Option.some.injEq] at h; omega
  | cons f fields ih =>
    simp only [List.foldlM_cons, Option.bind_eq_bind, Option.bind_eq_some_iff] at h
    obtain ⟨next, hn, h⟩ := h
    refine ih ?_ h
    unfold addWidth at hn
    split at hn <;> simp_all

theorem totalWidth_of_widthIn64 {fields : List Field} {sum : Nat} (h : widthIn64 fields = some sum) :
    totalWidth fields = sum ∧ sum < 0x10000000000000000 :=
  ⟨by have := foldlM_addWidth_eq_some h; omega, foldlM_addWidth_lt (by decide) h⟩

namespace Schema

/-- The schema with these fields. Of several faults the first in the order of the checks is
reported: no fields, a field of width zero, too large a sum. -/
def ofFields (fields : List Field) : Except Error Schema :=
  if h0 : fields = [] then .error (.invalidSchema .noFields)
  else
    match hz : fields.find? (·.type.size == 0) with
    | some f => .error (.invalidSchema (.zeroWidth f.name))
    | none =>
      match hw : widthIn64 fields with
      | none => .error (.invalidSchema .widthOverflow)
      | some _ => .ok ⟨fields, h0,
          fun f hf => Nat.pos_of_ne_zero fun h => List.find?_eq_none.1 hz f hf (by simp [h]),
          by have := totalWidth_of_widthIn64 hw; omega⟩

/-- The schema with fields of these types, called `f0`, `f1` and so on. -/
def ofTypes (types : List FieldType) : Except Error Schema :=
  ofFields (types.mapIdx fun i t => ⟨t, s!"f{i}"⟩)

/-- The fields of the left schema, then those of the right one. -/
def merge (left right : Schema) : Except Error Schema := ofFields (left.fields ++ right.fields)

def types (s : Schema) : List FieldType := s.fields.map (·.type)

/-- The bytes of one tuple. -/
def tupleSize (s : Schema) : Nat := totalWidth s.fields

/-- The position of the first field with this name. -/
def indexOf? (s : Schema) (name : String) : Option Nat := s.fields.findIdx? (·.name == name)

def render (s : Schema) : String :=
  ", ".intercalate (s.fields.map fun f => s!"{f.type.render}({f.name})")

theorem tupleSize_pos (s : Schema) : 0 < s.tupleSize := by
  obtain ⟨fields, h0, hp, -⟩ := s
  cases fields with
  | nil => exact absurd rfl h0
  | cons f fields =>
    have := hp f (by simp)
    simp only [tupleSize, totalWidth]
    omega

end Schema

end HeapStore
