import HeapStore.Proofs.PageLayout
import HeapStore.Proofs.TupleRoundTrip

/-! Setting a field is building the tuple again with that value in place of the old one. The values a
tuple has are those its fields leave as they are, so only the new one decides, and what its field makes of
it depends on the schema alone. So settings of different fields do not touch each other, and of those of
one field the last that is accepted counts. -/

namespace HeapStore

/-- What the field at an index makes of a value, if there is one and it accepts the value. -/
def Schema.fit? (s : Schema) (index : Nat) (v : Value) : Option Value :=
  s.types[index]?.bind fun type => type.coerce v

/-- One new value decides whether the values can be coerced. -/
theorem coerceAll_set {fs : List Field} {vs : List Value} (h : Conforms (fs.map (·.type)) vs)
    {i : Nat} {f : Field} (hf : fs[i]? = some f) (v : Value) (index : Nat) :
    coerceAll index fs (vs.set i v) = match f.type.coerce v with
      | none => .error (.valueKind (index + i) f.name f.type v)
      | some w => .ok (vs.set i w) := by
  rw [conforms_iff_forall₂, List.forall₂_map_left_iff] at h
  induction h generalizing i index with
  | nil => simp at hf
  | @cons g u fs vs hu hrest ih =>
    cases i with
    | zero =>
      simp only [List.getElem?_cons_zero, Option.some.injEq] at hf
      subst hf
      have htail : coerceAll (index + 1) fs vs = .ok vs := by
        rw [coerceAll_of_conforms]
        rwa [conforms_iff_forall₂, List.forall₂_map_left_iff]
      rw [List.set_cons_zero, coerceAll]
      cases hw : g.type.coerce v with
      | none => rfl
      | some w => rw [htail]; rfl
    | succ i =>
      rw [List.set_cons_succ, coerceAll, FieldType.coerce_of_holds hu]
      simp only
      rw [ih (by simpa using hf)]
      cases f.type.coerce v with
      | none => simp only [Except.map, Nat.add_right_comm index 1 i, Nat.add_assoc]
      | some w => rfl

namespace Tuple

/-- The tuple after a value was set, or was refused. -/
def put (t : Tuple) (index : Nat) (v : Value) : Tuple :=
  match t.set index v with
  | .ok u => u
  | .error _ => t

/-- The tuple after all these values were set, each of them or not. -/
def putAll (t : Tuple) (changes : List (Nat × Value)) : Tuple :=
  changes.foldl (fun t c => t.put c.1 c.2) t

variable {t u : Tuple} {s : Schema} {i j : Nat} {v w : Value} {vs : List Value}

theorem ofValues_eq_ok_iff : ofValues s vs = .ok t ↔
    vs.length = s.fields.length ∧ coerceAll 0 s.fields vs = .ok t.values ∧ t.schema = s ∧ t.rid = none := by
  unfold ofValues
  constructor
  · intro h
    split at h
    · next hl =>
      split at h
      · cases h
      · next ws hc =>
        cases h
        exact ⟨hl, hc, rfl, rfl⟩
    · cases h
  · rintro ⟨hl, hc, rfl, hr⟩
    rw [dif_pos hl]
    split
    · next e he => rw [hc] at he; cases he
    · next ws hw =>
      rw [hc] at hw
      cases hw
      exact congrArg Except.ok (eq_of_parts rfl rfl hr.symm)

theorem set_eq_ok_iff : t.set i v = .ok u ↔ ∃ w, t.schema.fit? i v = some w ∧
    u.schema = t.schema ∧ u.values = t.values.set i w ∧ u.rid = t.rid := by
  unfold set Schema.fit?
  constructor
  · intro h
    split at h
    · cases h
    · next type htype =>
      split at h
      · cases h
      · next w hw =>
        cases h
        exact ⟨w, by rw [htype, Option.bind_some, hw], rfl, rfl, rfl⟩
  · rintro ⟨w, hw, hs, hv, hr⟩
    obtain ⟨type, htype, hcoerce⟩ := Option.bind_eq_some_iff.1 hw
    split
    · next hnone => rw [htype] at hnone; cases hnone
    · next type' htype' =>
      obtain rfl : type = type' := Option.some.inj (htype.symm.trans htype')
      split
      · next hnone => rw [hcoerce] at hnone; cases hnone
      · next w' hw' =>
        obtain rfl : w = w' := Option.some.inj (hcoerce.symm.trans hw')
        exact congrArg Except.ok (eq_of_parts hs.symm hv.symm hr.symm)

theorem exists_set_iff : (∃ u, t.set i v = .ok u) ↔ ∃ w, t.schema.fit? i v = some w := by
  constructor
  · rintro ⟨u, hu⟩
    obtain ⟨w, hw, -⟩ := set_eq_ok_iff.1 hu
    exact ⟨w, hw⟩
  · rintro ⟨w, hw⟩
    obtain ⟨type, htype, hcoerce⟩ := Option.bind_eq_some_iff.1 hw
    exact ⟨⟨t.schema, t.values.set i w, t.rid,
      conforms_set t.conforms htype (FieldType.holds_of_coerce hcoerce)⟩,
      set_eq_ok_iff.2 ⟨w, hw, rfl, rfl, rfl⟩⟩

/-! ### Building the tuple again -/

theorem fit?_eq_some_iff : s.fit? i v = some w ↔ ∃ f, s.fields[i]? = some f ∧ f.type.coerce v = some w := by
  unfold Schema.fit? Schema.types
  rw [List.getElem?_map, Option.bind_eq_some_iff]
  constructor
  · rintro ⟨type, htype, hw⟩
    obtain ⟨f, hf, rfl⟩ := Option.map_eq_some_iff.1 htype
    exact ⟨f, hf, hw⟩
  · rintro ⟨f, hf, hw⟩
    exact ⟨f.type, Option.map_eq_some_iff.2 ⟨f, hf, rfl⟩, hw⟩

/-- The tuple can be built with another value just when the field there accepts it. -/
theorem ofValues_set_eq_ok_iff (hi : i < t.schema.fields.length) :
    ofValues t.schema (t.values.set i v) = .ok u ↔ ∃ w, t.schema.fit? i v = some w ∧
      u.schema = t.schema ∧ u.values = t.values.set i w ∧ u.rid = none := by
  have hlen : (t.values.set i v).length = t.schema.fields.length := by
    rw [List.length_set, length_of_conforms t.conforms, Schema.types, List.length_map]
  have hf : t.schema.fields[i]? = some t.schema.fields[i] := List.getElem?_eq_getElem hi
  have hfit : t.schema.fit? i v = t.schema.fields[i].type.coerce v := by
    rw [Schema.fit?, Schema.types, List.getElem?_map, hf, Option.map_some, Option.bind_some]
  rw [ofValues_eq_ok_iff, coerceAll_set t.conforms hf, hfit]
  cases t.schema.fields[i].type.coerce v with
  | none => simp
  | some w => simp [hlen, eq_comm, and_left_comm]

/-! ### One change after the other -/

@[simp]
theorem schema_put (t : Tuple) (i : Nat) (v : Value) : (t.put i v).schema = t.schema := by
  unfold put
  split
  · next u hu => exact (set_eq_ok_iff.1 hu).choose_spec.2.1
  · rfl

@[simp]
theorem rid_put (t : Tuple) (i : Nat) (v : Value) : (t.put i v).rid = t.rid := by
  unfold put
  split
  · next u hu => exact (set_eq_ok_iff.1 hu).choose_spec.2.2.2
  · rfl

theorem values_put (t : Tuple) (i : Nat) (v : Value) : (t.put i v).values =
    match t.schema.fit? i v with
    | some w => t.values.set i w
    | none => t.values := by
  unfold put
  cases hset : t.set i v with
  | ok u =>
    obtain ⟨w, hw, -, hv, -⟩ := set_eq_ok_iff.1 hset
    simp only [hw, hv]
  | error e =>
    cases hw : t.schema.fit? i v with
    | none => rfl
    | some w =>
      obtain ⟨u, hu⟩ := exists_set_iff.2 ⟨w, hw⟩
      rw [hset] at hu
      cases hu

theorem put_comm (hij : i ≠ j) : (t.put i v).put j w = (t.put j w).put i v := by
  refine eq_of_parts (by simp) ?_ (by simp)
  rw [values_put, values_put, values_put, values_put, schema_put, schema_put]
  cases t.schema.fit? i v <;> cases t.schema.fit? j w <;> first | rfl | exact List.set_comm _ _ hij

theorem set_put_self (h : t.set i w = .ok u) : (t.put i v).set i w = .ok u := by
  obtain ⟨x, hx, hs, hv, hr⟩ := set_eq_ok_iff.1 h
  refine set_eq_ok_iff.2 ⟨x, by rw [schema_put, hx], by rw [schema_put, hs], ?_, by rw [rid_put, hr]⟩
  rw [hv, values_put]
  cases t.schema.fit? i v with
  | none => rfl
  | some y => exact (List.set_set ..).symm

/-- Whether a value is refused, and why, depends on the schema alone. -/
theorem answer_set (t : Tuple) (i : Nat) (v : Value) : (t.set i v).map (fun _ => ()) =
    match t.schema.types[i]? with
    | none => .error (.schemaMismatch (.noSuchField i t.schema.fields.length))
    | some type =>
      match type.coerce v with
      | none => .error (.schemaMismatch (.newValueKind i type v))
      | some _ => .ok () := by
  unfold set
  split
  · next hnone => simp only [hnone, Except.map]
  · next type htype =>
    simp only [htype]
    split
    · next hnone => simp only [hnone, Except.map]
    · next w hw => simp only [hw, Except.map]

theorem checkSchema_congr (h : t.schema = u.schema) (s : Schema) : t.checkSchema s = u.checkSchema s := by
  unfold checkSchema
  rw [h]

theorem putAll_of_put {P : Tuple → Prop} (hput : ∀ t i v, P t → P (put t i v)) (ht : P t)
    (changes : List (Nat × Value)) : P (t.putAll changes) := by
  induction changes generalizing t with
  | nil => exact ht
  | cons c changes ih => exact ih (hput t c.1 c.2 ht)

theorem schema_putAll (t : Tuple) (changes : List (Nat × Value)) :
    (t.putAll changes).schema = t.schema :=
  putAll_of_put (P := fun u => u.schema = t.schema) (fun u i v hu => (schema_put u i v).trans hu) rfl changes

theorem rid_putAll (t : Tuple) (changes : List (Nat × Value)) : (t.putAll changes).rid = t.rid :=
  putAll_of_put (P := fun u => u.rid = t.rid) (fun u i v hu => (rid_put u i v).trans hu) rfl changes

/-- A value is set just when there is such a field and the tuple can be built with the value in place of
the old one; then it is the tuple that is built so, in the place where it was. A value that is refused
leaves the tuple as it is. Settings of different fields give one tuple in either order, with the same
answers, and a setting that is accepted gives the same tuple whatever was set there before. However many
fields are set, the tuple can be stored where it could be before and takes as many bytes. -/
theorem set_is_rebuild (t : Tuple) :
    (∀ i v,
      ((∃ u, t.set i v = .ok u) ↔
        i < t.schema.fields.length ∧ ∃ u, ofValues t.schema (t.values.set i v) = .ok u) ∧
      (∀ u, t.set i v = .ok u → t.put i v = u ∧ u.schema = t.schema ∧ u.rid = t.rid ∧
        ofValues t.schema (t.values.set i v) = .ok (u.withRid none)) ∧
      ∀ e, t.set i v = .error e → t.put i v = t) ∧
    (∀ i j v w, i ≠ j → (t.put i v).put j w = (t.put j w).put i v) ∧
    (∀ i j v w, ((t.put j w).set i v).map (fun _ => ()) = (t.set i v).map fun _ => ()) ∧
    (∀ i v w u, t.set i w = .ok u → (t.put i v).set i w = .ok u) ∧
    ∀ changes, (t.putAll changes).schema = t.schema ∧ (t.putAll changes).rid = t.rid ∧
      (∀ s, (t.putAll changes).checkSchema s = t.checkSchema s) ∧
      (t.putAll changes).bytes.length = t.schema.tupleSize := by
  refine ⟨fun i v => ⟨?_, fun u hu => ?_, fun e he => ?_⟩, fun i j v w => put_comm, fun i j v w => ?_,
    fun i v w u => set_put_self, fun changes => ⟨schema_putAll t changes, rid_putAll t changes, ?_, ?_⟩⟩
  · constructor
    · rintro ⟨u, hu⟩
      obtain ⟨w, hw, hs, hv, -⟩ := set_eq_ok_iff.1 hu
      obtain ⟨f, hf, -⟩ := fit?_eq_some_iff.1 hw
      have hi := (List.getElem?_eq_some_iff.1 hf).1
      exact ⟨hi, u.withRid none, (ofValues_set_eq_ok_iff hi).2 ⟨w, hw, hs, hv, rfl⟩⟩
    · rintro ⟨hi, u, hu⟩
      obtain ⟨w, hw, -⟩ := (ofValues_set_eq_ok_iff hi).1 hu
      exact exists_set_iff.2 ⟨w, hw⟩
  · obtain ⟨w, hw, hs, hv, hr⟩ := set_eq_ok_iff.1 hu
    obtain ⟨f, hf, -⟩ := fit?_eq_some_iff.1 hw
    have hi := (List.getElem?_eq_some_iff.1 hf).1
    exact ⟨by rw [put, hu], hs, hr, (ofValues_set_eq_ok_iff hi).2 ⟨w, hw, hs, hv, rfl⟩⟩
  · rw [put, he]
  · rw [answer_set, answer_set, schema_put]
  · exact checkSchema_congr (schema_putAll t changes)
  · rw [length_bytes, schema_putAll, Schema.tupleSize_eq]

def storedLabel : Tuple := label.withRid (some ⟨⟨1, 0⟩, 3⟩)

/-- Three bytes end inside the last character, which is left out. -/
def cutLabel : Tuple :=
  ⟨labelSchema, [.text "ab", .int (-2)], some ⟨⟨1, 0⟩, 3⟩, by decide +kernel⟩

theorem set_is_rebuild_label :
    storedLabel.set 0 (.text "abé") = .ok cutLabel ∧ cutLabel.rid = storedLabel.rid ∧
    ofValues labelSchema [.text "abé", .int (-2)] = .ok (cutLabel.withRid none) ∧
    storedLabel.put 1 (.text "ab") = storedLabel ∧
    (storedLabel.put 0 (.text "abé")).put 1 (.int 7) = (storedLabel.put 1 (.int 7)).put 0 (.text "abé") ∧
    (storedLabel.put 0 (.text "é")).set 0 (.text "abé") = .ok cutLabel ∧
    (storedLabel.putAll [(0, .text "abé"), (1, .text "ab"), (2, .int 0), (1, .int 7)]).bytes.length = 7 := by
  obtain ⟨hset, hcomm, -, hlast, hall⟩ := set_is_rebuild storedLabel
  have hcut : storedLabel.set 0 (.text "abé") = .ok cutLabel := eq_ok_of_toOption (by decide +kernel)
  have hkind : storedLabel.put 1 (.text "ab") = storedLabel := by
    cases hanswer : storedLabel.set 1 (.text "ab") with
    | error e => exact (hset 1 _).2.2 e hanswer
    | ok u =>
      have hnone : (storedLabel.set 1 (.text "ab")).toOption = none := by decide +kernel
      rw [hanswer] at hnone
      cases hnone
  obtain ⟨-, -, hrid, hbuilt⟩ := (hset 0 (.text "abé")).2.1 _ hcut
  obtain ⟨-, -, -, hlen⟩ := hall [(0, .text "abé"), (1, .text "ab"), (2, .int 0), (1, .int 7)]
  exact ⟨hcut, hrid, hbuilt, hkind, hcomm 0 1 _ _ (by decide), hlast 0 _ _ _ hcut, hlen⟩

end Tuple

end HeapStore
