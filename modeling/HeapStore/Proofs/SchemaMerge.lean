import Mathlib.Algebra.Group.Nat.Defs
import HeapStore.Proofs.TupleRoundTrip

/-! Which fields make a schema, and how schemas are merged. The checks come to three conditions on the
fields as a whole; of two schemas together only the width can be too large. So a merge depends on the
fields alone, in whatever order several schemas are merged, and where it fails it fails for one reason.
The tuples of the parts, one behind the other, are those of the merged schema. -/

namespace HeapStore

/-! ### The width of fields -/

theorem size_le_totalWidth {fs : List Field} {f : Field} (h : f ∈ fs) :
    f.type.size ≤ totalWidth fs := by
  induction fs with
  | nil => cases h
  | cons g fs ih =>
    rw [totalWidth]
    rcases List.mem_cons.1 h with rfl | hmem
    · exact Nat.le_add_right _ _
    · exact Nat.le_trans (ih hmem) (Nat.le_add_left _ _)

theorem totalWidth_append (fs gs : List Field) :
    totalWidth (fs ++ gs) = totalWidth fs + totalWidth gs := by
  induction fs with
  | nil => simp [totalWidth]
  | cons f fs ih => rw [List.cons_append, totalWidth, totalWidth, ih, Nat.add_assoc]

/-- The sum of the widths in 64 bits without a check, which wraps around. -/
def wrappingWidth (fs : List Field) : UInt64 :=
  fs.foldl (fun sum f => sum + UInt64.ofNat f.type.size) 0

theorem toNat_foldl_width (fs : List Field) (start : UInt64) :
    (fs.foldl (fun sum f => sum + UInt64.ofNat f.type.size) start).toNat =
      (start.toNat + totalWidth fs) % 0x10000000000000000 := by
  induction fs generalizing start with
  | nil => exact (Nat.mod_eq_of_lt start.toNat_lt).symm
  | cons f fs ih =>
    rw [List.foldl_cons, ih, UInt64.toNat_add, UInt64.toNat_ofNat', totalWidth]
    omega

/-- The fields of a schema are too narrow to wrap around. -/
theorem Schema.toNat_wrappingWidth (s : Schema) : (wrappingWidth s.fields).toNat = s.tupleSize := by
  rw [wrappingWidth, toNat_foldl_width, UInt64.toNat_zero, Nat.zero_add]
  exact Nat.mod_eq_of_lt s.valid.bounded

namespace Schema

/-! ### The checks -/

theorem eq_of_ofFields {fs : List Field} {sch : Schema} (h : ofFields fs = .ok sch) :
    sch.fields = fs := by
  unfold ofFields at h
  split at h
  · cases h
  · split at h
    · cases h
    · split at h
      · cases h
      · cases h
        rfl

theorem foldlM_addWidth_of_lt {fs : List Field} {start : Nat}
    (h : start + totalWidth fs < 0x10000000000000000) :
    fs.foldlM (fun sum f => addWidth sum f.type.size) start = some (start + totalWidth fs) := by
  induction fs generalizing start with
  | nil => rfl
  | cons f fs ih =>
    simp only [totalWidth] at h ⊢
    rw [List.foldlM_cons, addWidth, if_pos (by omega)]
    simp only [Option.bind_eq_bind, Option.bind_some]
    rw [ih (by omega), Nat.add_assoc]

/-- Of fields that are there and have a width only the sum is left to check. -/
theorem ofFields_of_positive {fs : List Field} (hne : fs ≠ []) (hpos : ∀ f ∈ fs, 0 < f.type.size) :
    ofFields fs = if h : totalWidth fs < 0x10000000000000000 then .ok ⟨fs, hne, hpos, h⟩
      else .error (.invalidSchema .widthOverflow) := by
  have hzero : fs.find? (·.type.size == 0) = none := by
    rw [List.find?_eq_none]
    intro f hf
    simpa using Nat.ne_of_gt (hpos f hf)
  unfold ofFields
  rw [dif_neg hne]
  split
  · next f hfind => rw [hzero] at hfind; cases hfind
  · split
    · next hnone =>
      rw [dif_neg fun hlt => ?_]
      rw [widthIn64, foldlM_addWidth_of_lt (by simpa using hlt)] at hnone
      cases hnone
    · next sum hsum =>
      obtain ⟨rfl, hlt⟩ := totalWidth_of_widthIn64 hsum
      rw [dif_pos hlt]

theorem ofFields_of_too_wide {fs : List Field} (hne : fs ≠ []) (hpos : ∀ f ∈ fs, 0 < f.type.size)
    (hle : 0x10000000000000000 ≤ totalWidth fs) :
    ofFields fs = .error (.invalidSchema .widthOverflow) := by
  rw [ofFields_of_positive hne hpos, dif_neg (Nat.not_lt.2 hle)]

/-- Fields of valid widths pass the checks. -/
theorem ofFields_of_valid {fs : List Field} (h : FieldsValid fs) : ofFields fs = .ok ⟨fs, h⟩ := by
  rw [ofFields_of_positive h.nonempty h.positive, dif_pos h.bounded]

theorem exists_ofFields_iff {fs : List Field} : (∃ sch, ofFields fs = .ok sch) ↔ FieldsValid fs := by
  constructor
  · rintro ⟨sch, h⟩
    exact eq_of_ofFields h ▸ sch.valid
  · intro h
    exact ⟨_, ofFields_of_valid h⟩

/-! ### Merging -/

variable {a b c m : Schema}

theorem merge_eq (a b : Schema) : merge a b =
    if h : totalWidth (a.fields ++ b.fields) < 0x10000000000000000 then
      .ok ⟨a.fields ++ b.fields, by simp [a.valid.nonempty],
        List.forall_mem_append.2 ⟨a.valid.positive, b.valid.positive⟩, h⟩
    else .error (.invalidSchema .widthOverflow) :=
  ofFields_of_positive (by simp [a.valid.nonempty])
    (List.forall_mem_append.2 ⟨a.valid.positive, b.valid.positive⟩)

theorem fields_of_merge (h : merge a b = .ok m) : m.fields = a.fields ++ b.fields := eq_of_ofFields h

theorem tupleSize_of_merge (h : merge a b = .ok m) : m.tupleSize = a.tupleSize + b.tupleSize := by
  rw [tupleSize, fields_of_merge h, totalWidth_append]
  rfl

theorem types_of_merge (h : merge a b = .ok m) : m.types = a.types ++ b.types := by
  rw [types, fields_of_merge h, List.map_append]
  rfl

theorem merge_eq_error_iff {e : Error} : merge a b = .error e ↔
    e = .invalidSchema .widthOverflow ∧ 0x10000000000000000 ≤ a.tupleSize + b.tupleSize := by
  have hsum : totalWidth (a.fields ++ b.fields) = a.tupleSize + b.tupleSize := totalWidth_append ..
  rw [merge_eq]
  split
  · next hlt =>
    rw [hsum] at hlt
    simp [Nat.not_le.2 hlt]
  · next hle =>
    rw [hsum] at hle
    simp [Nat.not_lt.1 hle, eq_comm]

/-- What is found in a merged schema is found in the left part, or else behind it. -/
theorem indexOf?_of_merge (h : merge a b = .ok m) (name : String) : m.indexOf? name =
    (a.indexOf? name).or ((b.indexOf? name).map (a.fields.length + ·)) := by
  rw [indexOf?, fields_of_merge h, List.findIdx?_append]
  simp only [indexOf?, Nat.add_comm]

/-- If the first merge is refused, so are all fields together. -/
theorem merge_bind_left (a b c : Schema) : ((merge a b).bind fun ab => merge ab c) =
    ofFields (a.fields ++ b.fields ++ c.fields) := by
  cases hab : merge a b with
  | ok ab => rw [Except.bind, merge, fields_of_merge hab]
  | error e =>
    obtain ⟨rfl, hle⟩ := merge_eq_error_iff.1 hab
    have hpos : ∀ f ∈ a.fields ++ b.fields ++ c.fields, 0 < f.type.size :=
      List.forall_mem_append.2 ⟨List.forall_mem_append.2 ⟨a.valid.positive, b.valid.positive⟩,
        c.valid.positive⟩
    rw [ofFields_of_too_wide (by simp [a.valid.nonempty]) hpos]
    · rfl
    · rw [totalWidth_append, totalWidth_append]
      exact Nat.le_trans hle (Nat.le_add_right _ _)

theorem merge_bind_right (a b c : Schema) : ((merge b c).bind fun bc => merge a bc) =
    ofFields (a.fields ++ (b.fields ++ c.fields)) := by
  cases hbc : merge b c with
  | ok bc => rw [Except.bind, merge, fields_of_merge hbc]
  | error e =>
    obtain ⟨rfl, hle⟩ := merge_eq_error_iff.1 hbc
    have hpos : ∀ f ∈ a.fields ++ (b.fields ++ c.fields), 0 < f.type.size :=
      List.forall_mem_append.2 ⟨a.valid.positive,
        List.forall_mem_append.2 ⟨b.valid.positive, c.valid.positive⟩⟩
    rw [ofFields_of_too_wide (by simp [a.valid.nonempty]) hpos]
    · rfl
    · rw [totalWidth_append, totalWidth_append]
      exact Nat.le_trans hle (Nat.le_add_left _ _)

end Schema

/-! ### Tuples one behind the other -/

section

variable {ts us : List FieldType} {vs ws : List Value}

theorem conforms_append (h : Conforms ts vs) (h' : Conforms us ws) : Conforms (ts ++ us) (vs ++ ws) := by
  replace h := conforms_iff_forall₂.1 h
  induction h with
  | nil => exact h'
  | cons hv _ ih => exact ⟨hv, ih⟩

theorem encodeAll_append (h : Conforms ts vs) :
    encodeAll (ts ++ us) (vs ++ ws) = encodeAll ts vs ++ encodeAll us ws := by
  replace h := conforms_iff_forall₂.1 h
  induction h with
  | nil => rfl
  | cons _ _ ih => simp only [List.cons_append, encodeAll, ih, List.append_assoc]

end

/-- The values of a tuple of each part make a tuple of the merged schema, whose bytes are those of the
one and then those of the other. -/
theorem Tuple.ofValues_append {x y : Tuple} {m : Schema} (h : Schema.merge x.schema y.schema = .ok m) :
    ∃ z, ofValues m (x.values ++ y.values) = .ok z ∧ z.schema = m ∧ z.values = x.values ++ y.values ∧
      z.bytes = x.bytes ++ y.bytes := by
  have hc : Conforms m.types (x.values ++ y.values) := by
    rw [Schema.types_of_merge h]
    exact conforms_append x.conforms y.conforms
  refine ⟨⟨m, _, none, hc⟩, ofValues_values ⟨m, _, none, hc⟩, rfl, rfl, ?_⟩
  simp only [bytes, Schema.types_of_merge h]
  exact encodeAll_append x.conforms

namespace Schema

/-- Fields make a schema just when there are some, each has a width, and the widths come to less than
2⁶⁴; then the tuple size is their sum, also where it is added up in 64 bits. Two schemas can be merged
unless their tuple sizes come to 2⁶⁴ or more. The merged schema has the fields of the left one and then
those of the right one, and finds a name on the left first. Of three schemas it does not matter which two
are merged first, not even where that fails. And the values of a tuple of each part make a tuple that is
written as the one and then the other. -/
theorem merge_exact :
    (∀ fs : List Field,
      ((∃ s, ofFields fs = .ok s) ↔
        fs ≠ [] ∧ (∀ f ∈ fs, f.type.size ≠ 0) ∧ totalWidth fs < 2 ^ 64) ∧
      ∀ s, ofFields fs = .ok s → s.fields = fs ∧ s.tupleSize = totalWidth fs ∧
        (wrappingWidth s.fields).toNat = totalWidth fs) ∧
    (∀ a b : Schema,
      ((∃ e, merge a b = .error e) ↔ 2 ^ 64 ≤ a.tupleSize + b.tupleSize) ∧
      (∀ e, merge a b = .error e → e = .invalidSchema .widthOverflow) ∧
      ∀ m, merge a b = .ok m → m.fields = a.fields ++ b.fields ∧
        m.tupleSize = a.tupleSize + b.tupleSize ∧
        (∀ name, m.indexOf? name =
          (a.indexOf? name).or ((b.indexOf? name).map (a.fields.length + ·))) ∧
        ∀ x y : Tuple, x.schema = a → y.schema = b → ∃ z,
          Tuple.ofValues m (x.values ++ y.values) = .ok z ∧ z.values = x.values ++ y.values ∧
          z.bytes = x.bytes ++ y.bytes) ∧
    ∀ a b c : Schema, ((merge a b).bind fun ab => merge ab c) = (merge b c).bind fun bc => merge a bc := by
  refine ⟨fun fs => ⟨?_, fun s hs => ?_⟩, fun a b => ⟨?_, fun e he => ?_, fun m hm => ?_⟩, fun a b c => ?_⟩
  · rw [exists_ofFields_iff]
    simp only [← Nat.pos_iff_ne_zero]
    exact ⟨fun h => ⟨h.nonempty, h.positive, h.bounded⟩, fun ⟨hne, hpos, hlt⟩ => ⟨hne, hpos, hlt⟩⟩
  · obtain rfl := eq_of_ofFields hs
    exact ⟨rfl, rfl, s.toNat_wrappingWidth⟩
  · simp only [merge_eq_error_iff, exists_eq_left]
    rfl
  · exact (merge_eq_error_iff.1 he).1
  · refine ⟨fields_of_merge hm, tupleSize_of_merge hm, indexOf?_of_merge hm, ?_⟩
    rintro x y rfl rfl
    obtain ⟨z, hz, -, hv, hb⟩ := Tuple.ofValues_append hm
    exact ⟨z, hz, hv, hb⟩
  · rw [merge_bind_left, merge_bind_right, List.append_assoc]

/-- One text that takes all bytes there can be but four. -/
def broad : Schema := ⟨[⟨.text (2 ^ 64 - 5), "body"⟩], by decide, by decide, by decide⟩

def pair : Schema := ⟨[⟨.int, "label"⟩, ⟨.int, "n"⟩], by decide, by decide, by decide⟩

def pairRow : Tuple := ⟨pair, [.int 1, .int (-1)], none, by decide⟩

/-- The broad schema has no room for a label, and is refused with a label and a pair in either order,
though these two can be merged. There the label is written first, and its name hides that of the pair. -/
theorem merge_exact_broad :
    (∃ s, ofFields broad.fields = .ok s ∧ s.tupleSize = 2 ^ 64 - 5) ∧
    merge broad Tuple.labelSchema = .error (.invalidSchema .widthOverflow) ∧
    ((merge Tuple.labelSchema pair).bind fun lp => merge broad lp) =
      .error (.invalidSchema .widthOverflow) ∧
    ∃ m, merge Tuple.labelSchema pair = .ok m ∧ m.indexOf? "label" = some 0 ∧
      m.indexOf? "n" = some 3 ∧ ∃ z, Tuple.ofValues m (Tuple.label.values ++ pairRow.values) = .ok z ∧
        z.bytes = [0xC3, 0xA9, 0, 0xFF, 0xFF, 0xFF, 0xFE, 0, 0, 0, 1, 0xFF, 0xFF, 0xFF, 0xFF] := by
  obtain ⟨hfields, hmerge, hassoc⟩ := merge_exact
  obtain ⟨s, hs⟩ := (hfields broad.fields).1.2 ⟨by decide, by decide, by decide⟩
  obtain ⟨e, he⟩ := (hmerge broad Tuple.labelSchema).1.2 (by decide)
  obtain rfl := (hmerge _ _).2.1 e he
  have hm : merge Tuple.labelSchema pair = .ok _ := ofFields_of_valid ⟨by decide, by decide, by decide⟩
  obtain ⟨-, -, hname, htuple⟩ := (hmerge _ _).2.2 _ hm
  obtain ⟨z, hz, -, hb⟩ := htuple Tuple.label pairRow rfl rfl
  refine ⟨⟨s, hs, ((hfields _).2 s hs).2.1⟩, he, ?_, _, hm, ?_, ?_, z, hz, ?_⟩
  · rw [← hassoc, he]
    rfl
  · rw [hname]
    decide
  · rw [hname]
    decide
  · rw [hb]
    decide +kernel

end Schema

end HeapStore
