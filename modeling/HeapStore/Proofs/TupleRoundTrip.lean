import HeapStore.Proofs.FieldRoundTrip

/-! A tuple and its bytes determine each other. However a tuple came about, its values are the ones
that storing would leave, so building it again from them changes nothing, and its bytes are read back
whatever follows them. Where bytes can be read at all, the tuple takes the schema's width of them and
gives just those back. -/

namespace HeapStore

/-! ### Values that conform to their types -/

section

variable {ts : List FieldType} {vs : List Value}

theorem length_of_conforms (h : Conforms ts vs) : vs.length = ts.length :=
  (conforms_iff_forall₂.1 h).length_eq.symm

theorem holds_of_conforms (h : Conforms ts vs) {k : Nat} {t : FieldType} {v : Value}
    (ht : ts[k]? = some t) (hv : vs[k]? = some v) : t.Holds v := by
  obtain ⟨hk, rfl⟩ := List.getElem?_eq_some_iff.1 ht
  obtain ⟨hk', rfl⟩ := List.getElem?_eq_some_iff.1 hv
  exact (conforms_iff_forall₂.1 h).get hk hk'

theorem coerceAll_of_conforms {index : Nat} {fs : List Field} (h : Conforms (fs.map (·.type)) vs) :
    coerceAll index fs vs = .ok vs := by
  rw [conforms_iff_forall₂, List.forall₂_map_left_iff] at h
  induction h generalizing index with
  | nil => rfl
  | cons hv _ ih =>
    rw [coerceAll, FieldType.coerce_of_holds hv, ih]
    rfl

end

/-! ### What reading takes -/

theorem FieldType.size_le_of_decode {t : FieldType} {b rest : Bytes} {v : Value}
    (h : t.decode b = (.ok v, rest)) : t.size ≤ b.length := by
  unfold decode at h
  split at h
  · simp at h
  · next hlen => exact Nat.not_lt.1 hlen

theorem decodeAll_takes {ts : List FieldType} {b rest : Bytes} {vs : List Value}
    (h : decodeAll ts b = (.ok vs, rest)) :
    typesWidth ts ≤ b.length ∧ rest = b.drop (typesWidth ts) := by
  induction ts generalizing b vs with
  | nil =>
    simp only [decodeAll, Prod.mk.injEq, Except.ok.injEq] at h
    obtain ⟨-, rfl⟩ := h
    exact ⟨Nat.zero_le _, rfl⟩
  | cons t ts ih =>
    obtain ⟨v, us, hv, hu, -⟩ := decodeAll_cons_eq_ok.1 h
    have hsize := FieldType.size_le_of_decode hv
    obtain ⟨hlen, hrest⟩ := ih hu
    rw [List.length_drop] at hlen
    exact ⟨by simp only [typesWidth]; omega, by rw [hrest, List.drop_drop, typesWidth]⟩

namespace Tuple

theorem eq_of_parts {t u : Tuple} (hs : t.schema = u.schema) (hv : t.values = u.values)
    (hr : t.rid = u.rid) : t = u := by
  cases t
  cases u
  simp only at hs hv hr
  subst hs hv hr
  rfl

/-- A tuple is the one that its own values make. -/
theorem ofValues_values (t : Tuple) : ofValues t.schema t.values = .ok (t.withRid none) := by
  have hlen : t.values.length = t.schema.fields.length := by
    rw [length_of_conforms t.conforms, Schema.types, List.length_map]
  have hcoerce : coerceAll 0 t.schema.fields t.values = .ok t.values := coerceAll_of_conforms t.conforms
  unfold ofValues
  rw [dif_pos hlen]
  split
  · next e he => rw [hcoerce] at he; cases he
  · next ws hw =>
    rw [hcoerce] at hw
    cases hw
    rfl

/-- What was read is the tuple's bytes, and nothing more. -/
theorem eq_bytes_append_of_decode {s : Schema} {b rest : Bytes} {t : Tuple}
    (h : Tuple.decode s b = (.ok t, rest)) :
    s.tupleSize ≤ b.length ∧ b = t.bytes ++ rest ∧ t.bytes.length = s.tupleSize := by
  obtain ⟨hv, rfl, -⟩ := decode_eq_ok.1 h
  obtain ⟨hlen, hrest⟩ := decodeAll_takes hv
  rw [t.length_bytes, Schema.tupleSize_eq, bytes, encodeAll_decodeAll hv, hrest,
    List.take_append_drop]
  exact ⟨hlen, rfl, rfl⟩

theorem exists_decode_iff {s : Schema} {b : Bytes} :
    (∃ t rest, Tuple.decode s b = (.ok t, rest)) ↔ s.tupleSize ≤ b.length ∧ TextsValid s.types b := by
  have hread (h : s.tupleSize ≤ b.length) :
      (∃ t rest, Tuple.decode s b = (.ok t, rest)) ↔ TextsValid s.types b := by
    rw [exists_decode_eq_ok_iff, decodeAll_eq_ok_iff (s.tupleSize_eq ▸ h)]
  constructor
  · rintro ⟨t, rest, ht⟩
    obtain ⟨hlen, -⟩ := eq_bytes_append_of_decode ht
    exact ⟨hlen, (hread hlen).1 ⟨t, rest, ht⟩⟩
  · rintro ⟨hlen, hvalid⟩
    exact (hread hlen).2 hvalid

/-- Every tuple is made by its own values, each of which its field accepts, leaves as it is and can
write. The tuple's bytes have the schema's width and are read back, under any schema with its field
types and before any other bytes. What is read from any bytes gives back those that were taken, as
many as the schema says; bytes can be read just when there are enough of them and the texts in them
are UTF-8. -/
theorem bytes_determine :
    (∀ t : Tuple, ofValues t.schema t.values = .ok (t.withRid none) ∧
      t.values.length = t.schema.types.length ∧
      (∀ (k : Nat) (type : FieldType) (v : Value),
        t.schema.types[k]? = some type → t.values[k]? = some v →
          type.accepts v = true ∧ type.coerce v = some v ∧ (type.encode v).isSome = true) ∧
      t.bytes.length = t.schema.tupleSize ∧
      ∀ s : Schema, t.schema.types = s.types → ∀ rest, ∃ u,
        Tuple.decode s (t.bytes ++ rest) = (.ok u, rest) ∧ u.schema = s ∧ u.values = t.values) ∧
    ∀ (s : Schema) (b : Bytes),
      (∀ t rest, Tuple.decode s b = (.ok t, rest) →
        t.schema = s ∧ b = t.bytes ++ rest ∧ t.bytes.length = s.tupleSize) ∧
      ((∃ t rest, Tuple.decode s b = (.ok t, rest)) ↔
        s.tupleSize ≤ b.length ∧ TextsValid s.types b) := by
  refine ⟨fun t => ⟨t.ofValues_values, length_of_conforms t.conforms, fun k type v ht hv => ?_, ?_,
    fun s hs rest => t.decode_bytes_append hs rest⟩, fun s b => ⟨fun t rest hd => ?_, exists_decode_iff⟩⟩
  · have hcoerce := FieldType.coerce_of_holds (holds_of_conforms t.conforms ht hv)
    have haccepts : type.accepts v = true := by rw [← FieldType.isSome_coerce, hcoerce, Option.isSome_some]
    exact ⟨haccepts, hcoerce, by rw [FieldType.isSome_encode, haccepts]⟩
  · rw [t.length_bytes, Schema.tupleSize_eq]
  · obtain ⟨-, hb, hlen⟩ := eq_bytes_append_of_decode hd
    exact ⟨(decode_eq_ok.1 hd).2.1, hb, hlen⟩

def labelSchema : Schema := ⟨[⟨.text 3, "label"⟩, ⟨.int, "count"⟩], by decide, by decide, by decide⟩

/-- The same types under other names. -/
def renamedSchema : Schema := ⟨[⟨.text 3, "a"⟩, ⟨.int, "b"⟩], by decide, by decide, by decide⟩

def label : Tuple := ⟨labelSchema, [.text "é", .int (-2)], none, by decide +kernel⟩

/-- A label is written with one byte of padding and read back before two other bytes. -/
theorem bytes_determine_label : label.bytes = [0xC3, 0xA9, 0, 0xFF, 0xFF, 0xFF, 0xFE] ∧
    (∃ u, Tuple.decode renamedSchema (label.bytes ++ [8, 9]) = (.ok u, [8, 9]) ∧ u.values = label.values) ∧
    (FieldType.text 3).coerce (.text "é") = some (.text "é") ∧
    ¬ ∃ t rest, Tuple.decode labelSchema [0xC3, 0x28, 0, 0, 0, 0, 0] = (.ok t, rest) := by
  obtain ⟨hall, hbytes⟩ := bytes_determine
  obtain ⟨-, -, hfields, -, hread⟩ := hall label
  obtain ⟨u, hu, -, hv⟩ := hread renamedSchema rfl [8, 9]
  refine ⟨by decide +kernel, ⟨u, hu, hv⟩, (hfields 0 _ _ rfl rfl).2.1, fun hd => ?_⟩
  obtain ⟨-, hvalid⟩ := (hbytes labelSchema _).2.1 hd
  obtain ⟨s, hs⟩ : ∃ s, Text.bytes s = [0xC3, 0x28] := hvalid 0 3 rfl
  have hnone : Text.ofBytes? [0xC3, 0x28] = none := by decide +kernel
  rw [Text.ofBytes?_eq_some_iff.2 hs] at hnone
  cases hnone

end Tuple

end HeapStore
