import Mathlib.Data.List.Forall2
import HeapStore.Tuple

/-! A stored value is read back as it was: `decode` undoes `encode` on the values that a field
holds, whatever bytes follow, and `encode` undoes `decode` wherever the bytes can be read. Tuples
inherit this field by field, so the bytes of a tuple depend on its field types and its values alone,
have the schema's tuple size, and can be read just when all of their texts are UTF-8. -/

namespace HeapStore

namespace Text

theorem truncate_of_le {s : String} {n : Nat} (h : (bytes s).length ≤ n) : truncate s n = s :=
  if_pos h

/-- What is dropped from the end of a list, when all of one element is, are copies of this element. -/
theorem exists_append_replicate {α : Type} [BEq α] [LawfulBEq α] (a : α) (l : List α) :
    ∃ k, l = (l.reverse.dropWhile (· == a)).reverse ++ List.replicate k a := by
  refine ⟨(l.reverse.takeWhile (· == a)).length, ?_⟩
  have hall : l.reverse.takeWhile (· == a) =
      List.replicate (l.reverse.takeWhile (· == a)).length a := by
    refine List.eq_replicate_iff.2 ⟨rfl, fun x hx => ?_⟩
    simpa using List.all_eq_true.1 List.all_takeWhile x hx
  rw [← List.reverse_replicate, ← hall, ← List.reverse_append, List.takeWhile_append_dropWhile,
    List.reverse_reverse]

theorem trimZeros_append_zeros (b : Bytes) (n : Nat) : trimZeros (b ++ zeros n) = trimZeros b := by
  unfold trimZeros zeros
  rw [List.reverse_append, List.reverse_replicate, List.dropWhile_append_of_pos]
  intro x hx
  rw [(List.mem_replicate.1 hx).2]
  rfl

theorem trimZeros_eq_self {b : Bytes} (h : b.getLast? ≠ some 0) : trimZeros b = b := by
  unfold trimZeros
  rw [← List.head?_reverse] at h
  have : b.reverse.dropWhile (· == 0) = b.reverse := by
    cases hr : b.reverse with
    | nil => rfl
    | cons x xs =>
      have hx : x ≠ 0 := by
        rw [hr] at h
        exact fun hx => h (by rw [hx]; rfl)
      rw [List.dropWhile_cons_of_neg (by simpa using hx)]
  rw [this, List.reverse_reverse]

/-- Only NUL has an encoding that ends in a zero byte: a byte that continues a character has its
high bit set. -/
theorem eq_nul_of_getLast? {c : Char} (h : (String.utf8EncodeChar c).getLast? = some 0) :
    c = '\x00' := by
  have tail (k : Nat) : UInt8.ofNat (k % 0x40 + 0x80) ≠ 0 := by
    intro hk
    have := congrArg UInt8.toNat hk
    simp only [UInt8.toNat_ofNat', UInt8.toNat_zero] at this
    omega
  unfold String.utf8EncodeChar at h
  simp only at h
  split at h
  · next hv =>
    simp only [List.getLast?_singleton, Option.some.injEq] at h
    have h0 : c.val.toNat = 0 := by
      have := congrArg UInt8.toNat h
      simp only [UInt8.toNat_ofNat', UInt8.toNat_zero] at this
      omega
    apply Char.ext
    exact UInt32.toNat_inj.1 h0
  · split at h
    · exact absurd (by simpa using h) (tail c.val.toNat)
    · split at h
      · exact absurd (by simpa using h) (tail c.val.toNat)
      · exact absurd (by simpa using h) (tail c.val.toNat)

theorem getLast?_bytes_ne_zero {s : String} (h : s.toList.getLast? ≠ some '\x00') :
    (bytes s).getLast? ≠ some 0 := by
  rw [bytes_eq]
  intro hz
  rcases List.eq_nil_or_concat s.toList with hs | ⟨cs, c, hs⟩
  · simp [hs] at hz
  · rw [hs] at hz h
    have hne : String.utf8EncodeChar c ≠ [] := by
      intro he
      have := Char.utf8Size_pos c
      rw [← String.length_utf8EncodeChar, he] at this
      simp at this
    have hlast := List.getLast?_eq_some_getLast hne
    rw [List.concat_eq_append, List.flatMap_append, List.flatMap_singleton, List.getLast?_append,
      hlast, Option.some_or, ← hlast] at hz
    exact h (by rw [eq_nul_of_getLast? hz]; simp)

theorem trimZeros_append (b : Bytes) : trimZeros b ++ zeros (b.length - (trimZeros b).length) = b := by
  obtain ⟨k, hk⟩ : ∃ k, b = trimZeros b ++ zeros k := exists_append_replicate 0 b
  have hlen : b.length = (trimZeros b).length + k := by
    simpa [zeros] using congrArg List.length hk
  rw [hlen, Nat.add_sub_cancel_left, ← hk]

end Text

theorem length_wordBytes (n : Int32) : (wordBytes n).length = 4 := rfl

theorem wordOfBytes_wordBytes (n : Int32) (rest : Bytes) :
    wordOfBytes (wordBytes n ++ rest) = n := by
  have hw : n.toUInt32.toNat < 0x100000000 := n.toUInt32.toNat_lt
  have hfold : ((wordBytes n ++ rest).take 4).foldl (fun w x => w * 0x100 + x.toNat) 0 =
      n.toUInt32.toNat := by
    simp only [wordBytes, List.cons_append, List.nil_append, List.take_succ_cons, List.take_zero,
      List.foldl_cons, List.foldl_nil, UInt8.toNat_ofNat']
    omega
  unfold wordOfBytes
  rw [hfold, UInt32.ofNat_toNat]
  exact Int32.toInt32_toUInt32 n

theorem wordBytes_wordOfBytes {b : Bytes} (h : 4 ≤ b.length) : wordBytes (wordOfBytes b) = b.take 4 := by
  match b, h with
  | x :: y :: z :: w :: rest, _ =>
    have hx := x.toNat_lt
    have hy := y.toNat_lt
    have hz := z.toNat_lt
    have hw := w.toNat_lt
    have hword : (wordOfBytes (x :: y :: z :: w :: rest)).toUInt32.toNat =
        ((x.toNat * 0x100 + y.toNat) * 0x100 + z.toNat) * 0x100 + w.toNat := by
      unfold wordOfBytes
      rw [UInt32.toUInt32_toInt32, UInt32.toNat_ofNat']
      simp only [List.take_succ_cons, List.take_zero, List.foldl_cons, List.foldl_nil]
      omega
    unfold wordBytes
    rw [hword]
    simp only [List.take_succ_cons, List.take_zero, List.cons.injEq, and_true]
    refine ⟨?_, ?_, ?_, ?_⟩ <;>
    · apply UInt8.toNat_inj.1
      rw [UInt8.toNat_ofNat']
      omega

namespace FieldType

/-- Storing a value that a field holds takes the field's width, and reading gives it back. -/
theorem decode_encode {t : FieldType} {v : Value} (h : t.Holds v) :
    ∃ b, t.encode v = some b ∧ b.length = t.size ∧ ∀ rest, t.decode (b ++ rest) = (.ok v, rest) := by
  cases t with
  | int =>
    cases v with
    | text s => exact h.elim
    | int n =>
      refine ⟨wordBytes n, rfl, rfl, fun rest => ?_⟩
      unfold decode
      rw [if_neg (by simp [length_wordBytes, size])]
      simp only [wordOfBytes_wordBytes]
      rw [List.drop_left' (length_wordBytes n)]
  | text width =>
    cases v with
    | int n => exact h.elim
    | text s =>
      obtain ⟨hl, hn⟩ := h
      have hlen : (Text.bytes s ++ zeros (width - (Text.bytes s).length)).length = width := by
        simp only [List.length_append, zeros, List.length_replicate]
        omega
      refine ⟨_, by simp only [encode, Text.truncate_of_le hl], hlen, fun rest => ?_⟩
      unfold decode
      rw [if_neg (by rw [List.length_append, hlen]; simp [size])]
      simp only [List.take_left' hlen, List.drop_left' hlen]
      rw [Text.trimZeros_append_zeros, Text.trimZeros_eq_self (Text.getLast?_bytes_ne_zero hn),
        Text.ofBytes?_eq_some_iff.2 rfl]

/-- What was read is written back as the bytes it was read from. -/
theorem encode_decode {t : FieldType} {b rest : Bytes} {v : Value} (h : t.decode b = (.ok v, rest)) :
    t.encode v = some (b.take t.size) ∧ rest = b.drop t.size := by
  unfold decode at h
  split at h
  · simp at h
  · next hlen =>
    cases t with
    | int =>
      simp only [Prod.mk.injEq, Except.ok.injEq] at h
      obtain ⟨rfl, rfl⟩ := h
      exact ⟨congrArg some (wordBytes_wordOfBytes (Nat.not_lt.1 hlen)), rfl⟩
    | text width =>
      simp only at h
      split at h
      · next s hs =>
        simp only [Prod.mk.injEq, Except.ok.injEq] at h
        obtain ⟨rfl, rfl⟩ := h
        have hb := Text.ofBytes?_eq_some_iff.1 hs
        have hwidth : (b.take width).length = width := List.length_take_of_le (Nat.not_lt.1 hlen)
        have hle : (Text.bytes s).length ≤ width := by
          have := Text.length_trimZeros_le (b.take width)
          rwa [← hb, hwidth] at this
        have hfill := Text.trimZeros_append (b.take width)
        rw [← hb, hwidth] at hfill
        refine ⟨?_, rfl⟩
        simp only [encode, Text.truncate_of_le hle, hfill, size]
      · simp at h

/-- Can the bytes of a field be read: is a text UTF-8 once its padding is dropped? -/
def Readable (t : FieldType) (b : Bytes) : Prop :=
  ∀ width, t = .text width → ∃ s, Text.bytes s = Text.trimZeros (b.take width)

theorem decode_eq_ok_iff {t : FieldType} {b : Bytes} (h : t.size ≤ b.length) :
    (∃ v rest, t.decode b = (.ok v, rest)) ↔ t.Readable b := by
  unfold decode Readable
  rw [if_neg (Nat.not_lt.2 h)]
  cases t with
  | int => simp
  | text width =>
    simp only [FieldType.text.injEq, forall_eq', ← Text.ofBytes?_eq_some_iff]
    cases Text.ofBytes? (Text.trimZeros (b.take width)) <;> simp

end FieldType

/-- The bytes that fields of these types take together. -/
def typesWidth : List FieldType → Nat
  | [] => 0
  | t :: ts => t.size + typesWidth ts

theorem Schema.tupleSize_eq (s : Schema) : s.tupleSize = typesWidth s.types := by
  unfold Schema.tupleSize Schema.types
  induction s.fields with
  | nil => rfl
  | cons f fs ih => simp [totalWidth, typesWidth, ih]

theorem conforms_iff_forall₂ {ts : List FieldType} {vs : List Value} :
    Conforms ts vs ↔ List.Forall₂ FieldType.Holds ts vs := by
  induction ts generalizing vs with
  | nil => cases vs <;> simp [Conforms]
  | cons t ts ih => cases vs <;> simp [Conforms, ih]

theorem length_encodeAll {ts : List FieldType} {vs : List Value} (h : Conforms ts vs) :
    (encodeAll ts vs).length = typesWidth ts := by
  replace h := conforms_iff_forall₂.1 h
  induction h with
  | nil => rfl
  | cons hv _ ih =>
    obtain ⟨b, hb, hl, -⟩ := FieldType.decode_encode hv
    simp only [encodeAll, hb, Option.getD_some, List.length_append, typesWidth, hl, ih]

theorem decodeAll_encodeAll {ts : List FieldType} {vs : List Value} (h : Conforms ts vs)
    (rest : Bytes) : decodeAll ts (encodeAll ts vs ++ rest) = (.ok vs, rest) := by
  replace h := conforms_iff_forall₂.1 h
  induction h with
  | nil => rfl
  | cons hv _ ih =>
    obtain ⟨b, hb, -, hd⟩ := FieldType.decode_encode hv
    simp only [encodeAll, hb, Option.getD_some, List.append_assoc, decodeAll, hd, ih]

/-- Reading goes on with what the first field leaves, the bytes behind its width. -/
theorem decodeAll_cons_eq_ok {t : FieldType} {ts : List FieldType} {b rest : Bytes} {vs : List Value} :
    decodeAll (t :: ts) b = (.ok vs, rest) ↔ ∃ v us, t.decode b = (.ok v, b.drop t.size) ∧
      decodeAll ts (b.drop t.size) = (.ok us, rest) ∧ vs = v :: us := by
  constructor
  · intro h
    unfold decodeAll at h
    split at h
    · simp at h
    · next v r hv =>
      obtain ⟨-, rfl⟩ := FieldType.encode_decode hv
      split at h
      · simp at h
      · next us r hu =>
        simp only [Prod.mk.injEq, Except.ok.injEq] at h
        obtain ⟨rfl, rfl⟩ := h
        exact ⟨v, us, hv, hu, rfl⟩
  · rintro ⟨v, us, hv, hu, rfl⟩
    simp only [decodeAll, hv, hu]

theorem encodeAll_decodeAll {ts : List FieldType} {b rest : Bytes} {vs : List Value}
    (h : decodeAll ts b = (.ok vs, rest)) : encodeAll ts vs = b.take (typesWidth ts) := by
  induction ts generalizing b vs with
  | nil =>
    simp only [decodeAll, Prod.mk.injEq, Except.ok.injEq] at h
    obtain ⟨rfl, -⟩ := h
    simp [encodeAll, typesWidth]
  | cons t ts ih =>
    obtain ⟨v, us, hv, hu, rfl⟩ := decodeAll_cons_eq_ok.1 h
    obtain ⟨henc, -⟩ := FieldType.encode_decode hv
    rw [encodeAll, henc, ih hu, typesWidth, List.take_add, Option.getD_some]

/-- Every text field of a tuple whose bytes these are is UTF-8 once its padding is dropped. -/
def TextsValid (ts : List FieldType) (b : Bytes) : Prop :=
  ∀ k width, ts[k]? = some (.text width) →
    ∃ s, Text.bytes s = Text.trimZeros ((b.drop (typesWidth (ts.take k))).take width)

theorem textsValid_cons {t : FieldType} {ts : List FieldType} {b : Bytes} :
    TextsValid (t :: ts) b ↔ t.Readable b ∧ TextsValid ts (b.drop t.size) := by
  have shift (k : Nat) : (b.drop t.size).drop (typesWidth (ts.take k)) =
      b.drop (typesWidth ((t :: ts).take (k + 1))) := List.drop_drop
  constructor
  · intro h
    refine ⟨fun width ht => ?_, fun k width hk => ?_⟩
    · simpa [typesWidth] using h 0 width (by simp [ht])
    · rw [shift]
      exact h (k + 1) width (by simpa using hk)
  · intro ⟨hhead, htail⟩ k width hk
    cases k with
    | zero => simpa [typesWidth] using hhead width (by simpa using hk)
    | succ k =>
      rw [← shift]
      exact htail k width (by simpa using hk)

theorem decodeAll_eq_ok_iff {ts : List FieldType} {b : Bytes} (h : typesWidth ts ≤ b.length) :
    (∃ vs rest, decodeAll ts b = (.ok vs, rest)) ↔ TextsValid ts b := by
  induction ts generalizing b with
  | nil => simp [decodeAll, TextsValid]
  | cons t ts ih =>
    simp only [typesWidth] at h
    have ih := ih (b := b.drop t.size) (by rw [List.length_drop]; omega)
    rw [textsValid_cons, ← ih, ← FieldType.decode_eq_ok_iff (by omega)]
    constructor
    · rintro ⟨vs, rest, hd⟩
      obtain ⟨v, us, hv, hu, -⟩ := decodeAll_cons_eq_ok.1 hd
      exact ⟨⟨v, _, hv⟩, us, rest, hu⟩
    · rintro ⟨⟨v, r, hv⟩, us, rest, hu⟩
      obtain ⟨-, rfl⟩ := FieldType.encode_decode hv
      exact ⟨v :: us, rest, decodeAll_cons_eq_ok.2 ⟨v, us, hv, hu, rfl⟩⟩

namespace Tuple

theorem length_bytes (t : Tuple) : t.bytes.length = typesWidth t.schema.types :=
  length_encodeAll t.conforms

theorem decode_eq_ok {s : Schema} {b rest : Bytes} {t : Tuple} :
    Tuple.decode s b = (.ok t, rest) ↔
      decodeAll s.types b = (.ok t.values, rest) ∧ t.schema = s ∧ t.rid = none := by
  unfold Tuple.decode
  constructor
  · intro h
    split at h
    · simp at h
    · next vs r hv =>
      simp only [Prod.mk.injEq, Except.ok.injEq] at h
      obtain ⟨rfl, rfl⟩ := h
      exact ⟨hv, rfl, rfl⟩
  · rintro ⟨hv, rfl, hr⟩
    split
    · next e r he => simp [hv] at he
    · next vs r hv' =>
      rw [hv] at hv'
      simp only [Prod.mk.injEq, Except.ok.injEq] at hv'
      obtain ⟨rfl, rfl⟩ := hv'
      obtain ⟨schema, values, rid, conforms⟩ := t
      cases hr
      rfl

theorem fst_decode_eq_ok {s : Schema} {b : Bytes} {t : Tuple} :
    (Tuple.decode s b).1 = .ok t ↔ ∃ rest, Tuple.decode s b = (.ok t, rest) := by
  refine ⟨fun h => ⟨_, Prod.ext h rfl⟩, ?_⟩
  rintro ⟨rest, h⟩
  rw [h]

/-- The bytes of a tuple are read back under any schema with its field types, whatever follows. -/
theorem decode_bytes_append (t : Tuple) {s : Schema} (h : t.schema.types = s.types) (rest : Bytes) :
    ∃ u, Tuple.decode s (t.bytes ++ rest) = (.ok u, rest) ∧ u.schema = s ∧ u.values = t.values := by
  have hc : Conforms s.types t.values := h ▸ t.conforms
  refine ⟨⟨s, t.values, none, hc⟩, decode_eq_ok.2 ⟨?_, rfl, rfl⟩, rfl, rfl⟩
  simp only [bytes, h, decodeAll_encodeAll hc]

theorem decode_bytes (t : Tuple) {s : Schema} (h : t.schema.types = s.types) :
    ∃ u, (Tuple.decode s t.bytes).1 = .ok u ∧ u.schema = s ∧ u.values = t.values := by
  obtain ⟨u, hu, hs, hv⟩ := t.decode_bytes_append h []
  rw [List.append_nil] at hu
  exact ⟨u, fst_decode_eq_ok.2 ⟨[], hu⟩, hs, hv⟩

theorem schema_of_decode {s : Schema} {b : Bytes} {t : Tuple} (h : (Tuple.decode s b).1 = .ok t) :
    t.schema = s ∧ t.rid = none := by
  obtain ⟨rest, hd⟩ := fst_decode_eq_ok.1 h
  exact (decode_eq_ok.1 hd).2

/-- Types and values determine the bytes. -/
theorem bytes_congr {t u : Tuple} (hs : t.schema.types = u.schema.types) (hv : t.values = u.values) :
    t.bytes = u.bytes := by
  unfold bytes
  rw [hs, hv]

theorem bytes_of_decode {s : Schema} {b : Bytes} {t : Tuple} (h : (Tuple.decode s b).1 = .ok t) :
    t.bytes = b.take s.tupleSize := by
  obtain ⟨rest, hd⟩ := fst_decode_eq_ok.1 h
  obtain ⟨hv, rfl, -⟩ := decode_eq_ok.1 hd
  rw [Schema.tupleSize_eq]
  exact encodeAll_decodeAll hv

theorem exists_decode_eq_ok_iff {s : Schema} {b : Bytes} : (∃ t rest, Tuple.decode s b = (.ok t, rest)) ↔
    ∃ vs rest, decodeAll s.types b = (.ok vs, rest) := by
  constructor
  · rintro ⟨t, rest, ht⟩
    exact ⟨t.values, rest, (decode_eq_ok.1 ht).1⟩
  · rintro ⟨vs, rest, hv⟩
    exact ⟨⟨s, vs, none, conforms_of_decodeAll hv⟩, rest, decode_eq_ok.2 ⟨hv, rfl, rfl⟩⟩

theorem decode_eq_ok_iff {s : Schema} {b : Bytes} (h : s.tupleSize ≤ b.length) :
    (∃ t, (Tuple.decode s b).1 = .ok t) ↔ TextsValid s.types b := by
  rw [s.tupleSize_eq] at h
  rw [← decodeAll_eq_ok_iff h, ← exists_decode_eq_ok_iff]
  exact exists_congr fun t => fst_decode_eq_ok

end Tuple

end HeapStore
