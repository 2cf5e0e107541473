import HeapStore.Proofs.FieldCodec

/-! Coercing a value is storing it and reading it back. A text is first cut: stepping back from the
limit over the bytes that continue a character ends at the longest beginning that fits, since the
first byte of a character continues none. Of the cut text the NULs at the end go the same way as the
padding behind them. -/

namespace HeapStore

namespace Text

/-- `kept` is the longest beginning of `s` that takes at most `limit` bytes. -/
structure IsCut (s : String) (limit : Nat) (kept : String) : Prop where
  isPrefix : kept.toList <+: s.toList
  fits : (bytes kept).length ≤ limit
  longest : ∀ t : String, t.toList <+: s.toList → (bytes t).length ≤ limit → t.toList <+: kept.toList

/-! ### Taking characters by their bytes -/

theorem takeBytes_prefix_self (cs : List Char) (n : Nat) : takeBytes cs n <+: cs := by
  induction cs generalizing n with
  | nil => exact List.prefix_refl _
  | cons c cs ih =>
    unfold takeBytes
    split
    · exact List.cons_prefix_cons.2 ⟨rfl, ih _⟩
    · exact List.nil_prefix

theorem prefix_takeBytes {ds cs : List Char} {n : Nat} (h : ds <+: cs) (hn : width ds ≤ n) :
    ds <+: takeBytes cs n := by
  induction cs generalizing ds n with
  | nil => simpa [takeBytes] using h
  | cons c cs ih =>
    rcases List.prefix_cons_iff.1 h with rfl | ⟨t, rfl, ht⟩
    · exact List.nil_prefix
    · simp only [width] at hn
      rw [takeBytes, if_pos (by omega)]
      exact List.cons_prefix_cons.2 ⟨rfl, ih ht (by omega)⟩

theorem prefix_antisymm {cs ds : List Char} (h : cs <+: ds) (h' : ds <+: cs) : cs = ds :=
  h.eq_of_length_le h'.length_le

theorem takeBytes_of_width_le {cs : List Char} {n : Nat} (h : width cs ≤ n) : takeBytes cs n = cs :=
  prefix_antisymm (takeBytes_prefix_self cs n) (prefix_takeBytes (List.prefix_refl cs) h)

/-- A smaller limit takes the same characters if they fit into it. -/
theorem takeBytes_eq_of_le {cs : List Char} {m n : Nat} (hm : width (takeBytes cs n) ≤ m) (h : m ≤ n) :
    takeBytes cs m = takeBytes cs n := by
  have hle : width (takeBytes cs m) ≤ n := Nat.le_trans (width_takeBytes_le cs m) h
  exact prefix_antisymm (prefix_takeBytes (takeBytes_prefix_self cs m) hle)
    (prefix_takeBytes (takeBytes_prefix_self cs n) hm)

/-! ### Character boundaries -/

theorem not_isContinuation {b : UInt8} (h : b.IsUTF8FirstByte) : isContinuation b = false := by
  rw [isContinuation, beq_eq_false_iff_ne]
  intro hb
  -- the mask of a first byte tells its two high bits too
  have mask (m : UInt8) : b &&& m &&& 0xC0 = 0x80 &&& m := by
    rw [UInt8.and_assoc, UInt8.and_comm m, ← UInt8.and_assoc, hb]
  rcases h with h | h | h | h
  · have := mask 0x80
    rw [h] at this
    exact absurd this (by decide)
  · have := mask 0xE0
    rw [h] at this
    exact absurd this (by decide)
  · have := mask 0xF0
    rw [h] at this
    exact absurd this (by decide)
  · have := mask 0xF8
    rw [h] at this
    exact absurd this (by decide)

/-- Behind whole characters stands no byte that continues one. -/
theorem not_isContinuation_at_width {ds cs : List Char} (h : ds <+: cs) :
    (cs.flatMap String.utf8EncodeChar)[width ds]?.any isContinuation = false := by
  induction ds generalizing cs with
  | nil =>
    cases cs with
    | nil => rfl
    | cons c cs =>
      have hpos : 0 < (String.utf8EncodeChar c).length := by simp [c.utf8Size_pos]
      rw [width, List.flatMap_cons, List.getElem?_append_left hpos, List.getElem?_eq_getElem hpos]
      exact not_isContinuation (UInt8.isUTF8FirstByte_getElem_utf8EncodeChar.2 rfl)
  | cons d ds ih =>
    obtain ⟨t, rfl⟩ := h
    rw [List.cons_append, List.flatMap_cons, width, List.getElem?_append_right (by simp),
      String.length_utf8EncodeChar, Nat.add_sub_cancel_left]
    exact ih (List.prefix_append ds t)

/-- Stepping back stops at a boundary, at the latest. -/
theorem le_floorBoundary {b : List UInt8} {k w : Nat} (hb : b[w]?.any isContinuation = false)
    (h : w ≤ k) : w ≤ floorBoundary b k := by
  induction k with
  | zero => exact h
  | succ k ih =>
    rw [floorBoundary]
    split
    · next hk =>
      rcases Nat.eq_or_lt_of_le h with rfl | hlt
      · rw [hb] at hk
        cases hk
      · exact ih (Nat.le_of_lt_succ hlt)
    · exact h

theorem length_bytes (s : String) : (bytes s).length = width s.toList := by
  rw [← length_bytes_ofList, String.ofList_toList]

/-- A cut text has the characters whose bytes fit into the limit. -/
theorem toList_truncate (s : String) (n : Nat) : (truncate s n).toList = takeBytes s.toList n := by
  unfold truncate
  split
  · next h => exact (takeBytes_of_width_le (length_bytes s ▸ h)).symm
  · rw [String.toList_ofList]
    refine takeBytes_eq_of_le (le_floorBoundary ?_ (width_takeBytes_le _ _)) (floorBoundary_le _ _)
    rw [bytes_eq]
    exact not_isContinuation_at_width (takeBytes_prefix_self s.toList n)

theorem isCut_truncate (s : String) (n : Nat) : IsCut s n (truncate s n) where
  isPrefix := by
    rw [toList_truncate]
    exact takeBytes_prefix_self _ _
  fits := length_bytes_truncate_le s n
  longest t ht hn := by
    rw [toList_truncate]
    exact prefix_takeBytes ht (length_bytes t ▸ hn)

/-! ### NULs at the end -/

theorem toList_eq_trimNuls_append (s : String) :
    ∃ k, s.toList = (trimNuls s).toList ++ List.replicate k '\x00' := by
  rw [trimNuls, String.toList_ofList]
  exact exists_append_replicate '\x00' s.toList

/-- The NULs at the end of a text are the zeros at the end of its bytes. -/
theorem trimZeros_bytes (s : String) : trimZeros (bytes s) = bytes (trimNuls s) := by
  obtain ⟨k, hk⟩ := toList_eq_trimNuls_append s
  have hnul : String.utf8EncodeChar '\x00' = [0] := by decide
  have hzeros : (List.replicate k '\x00').flatMap String.utf8EncodeChar = zeros k := by
    rw [List.flatMap_replicate, hnul, zeros, List.flatten_replicate_singleton]
  rw [bytes_eq s, hk, List.flatMap_append, hzeros, ← bytes_eq, trimZeros_append_zeros,
    trimZeros_eq_self (getLast?_bytes_ne_zero (getLast?_trimNuls_ne s))]

theorem trimNuls_eq_self {s : String} (h : s.toList.getLast? ≠ some '\x00') : trimNuls s = s := by
  obtain ⟨k, hk⟩ := toList_eq_trimNuls_append s
  cases k with
  | zero => exact String.toList_inj.1 (by simpa using hk.symm)
  | succ k =>
    rw [hk, List.replicate_succ', ← List.append_assoc, List.getLast?_concat] at h
    exact absurd rfl h

end Text

theorem zeros_add (m n : Nat) : zeros (m + n) = zeros m ++ zeros n :=
  List.replicate_append_replicate.symm

namespace FieldType

variable {t : FieldType} {v w : Value}

theorem isSome_coerce (t : FieldType) (v : Value) : (t.coerce v).isSome = t.accepts v := by
  cases t <;> cases v <;> rfl

theorem isSome_encode (t : FieldType) (v : Value) : (t.encode v).isSome = t.accepts v := by
  cases t <;> cases v <;> rfl

/-- A value that a field holds is not changed by coercing it. -/
theorem coerce_of_holds (h : t.Holds v) : t.coerce v = some v := by
  cases t with
  | int =>
    cases v with
    | int n => rfl
    | text s => exact h.elim
  | text width =>
    cases v with
    | int n => exact h.elim
    | text s => rw [coerce, Text.truncate_of_le h.1, Text.trimNuls_eq_self h.2]

/-- A coerced value takes the bytes of the value it was made from: the NULs it lost are padding. -/
theorem encode_coerce (h : t.coerce v = some w) : t.encode w = t.encode v := by
  have hw := holds_of_coerce h
  cases t with
  | int =>
    cases v with
    | int n => cases h; rfl
    | text s => cases h
  | text width =>
    cases v with
    | int n => cases h
    | text s =>
      cases h
      have hfit := Text.length_bytes_truncate_le s width
      have hshort := Text.length_bytes_trimNuls_le (Text.truncate s width)
      have hfill := Text.trimZeros_append (Text.bytes (Text.truncate s width))
      rw [Text.trimZeros_bytes] at hfill
      -- the padding, less what fills up the NULs that were trimmed
      have hpad : width - (Text.bytes (Text.trimNuls (Text.truncate s width))).length =
          (Text.bytes (Text.truncate s width)).length -
            (Text.bytes (Text.trimNuls (Text.truncate s width))).length +
          (width - (Text.bytes (Text.truncate s width)).length) := by
        omega
      simp only [encode]
      rw [Text.truncate_of_le hw.1, hpad, zeros_add, ← List.append_assoc, hfill]

/-- A field accepts a value, coerces it and encodes it, or does none of the three and writes nothing.
What it writes has the field's width and is read back as the coerced value, which is written the same
way and coerced no further. A text is cut to the longest beginning that fits, less the NULs at its
end. -/
theorem coerce_is_round_trip (t : FieldType) (v : Value) :
    (t.coerce v).isSome = t.accepts v ∧ (t.encode v).isSome = t.accepts v ∧
      (t.accepts v = false → (t.encode v).getD [] = []) ∧
      (t.accepts v = true → ∃ w b, t.coerce v = some w ∧ t.encode v = some b ∧ b.length = t.size ∧
        t.decode b = (.ok w, []) ∧ t.encode w = some b ∧ t.coerce w = some w) ∧
      ∀ width s, t = .text width → v = .text s → ∃ kept w n, Text.IsCut s width kept ∧
        t.coerce v = some (.text w) ∧ kept.toList = w.toList ++ List.replicate n '\x00' ∧
        w.toList.getLast? ≠ some '\x00' := by
  refine ⟨isSome_coerce t v, isSome_encode t v, fun ha => ?_, fun ha => ?_, ?_⟩
  · rw [← isSome_encode, Option.isSome_eq_false_iff, Option.isNone_iff_eq_none] at ha
    rw [ha, Option.getD_none]
  · rw [← isSome_coerce, Option.isSome_iff_exists] at ha
    obtain ⟨w, hw⟩ := ha
    have hold := holds_of_coerce hw
    obtain ⟨b, hb, hlen, hread⟩ := decode_encode hold
    have hback := hread []
    rw [List.append_nil] at hback
    exact ⟨w, b, hw, encode_coerce hw ▸ hb, hlen, hback, hb, coerce_of_holds hold⟩
  · rintro width s rfl rfl
    obtain ⟨n, hn⟩ := Text.toList_eq_trimNuls_append (Text.truncate s width)
    exact ⟨_, _, n, Text.isCut_truncate s width, rfl, hn, Text.getLast?_trimNuls_ne _⟩

/-- Four bytes end inside the last character of this text; the cut before it leaves two NULs at the
end, which go as well. -/
theorem coerce_is_round_trip_split :
    (FieldType.text 4).accepts (.text "a\x00\x00é") = true ∧
      (∃ b, (FieldType.text 4).encode (.text "a\x00\x00é") = some b ∧ b.length = 4 ∧
        (FieldType.text 4).decode b = (.ok (.text "a"), [])) ∧
      ∃ kept n, Text.IsCut "a\x00\x00é" 4 kept ∧ kept.toList = 'a' :: List.replicate n '\x00' := by
  have hw : (FieldType.text 4).coerce (.text "a\x00\x00é") = some (.text "a") := by decide +kernel
  obtain ⟨-, -, -, hback, hcut⟩ := coerce_is_round_trip (.text 4) (.text "a\x00\x00é")
  obtain ⟨w, b, hc, hb, hlen, hread, -, -⟩ := hback rfl
  obtain ⟨kept, w', n, hkept, hc', hnuls, -⟩ := hcut 4 _ rfl rfl
  rw [hw] at hc hc'
  cases hc
  cases hc'
  exact ⟨rfl, ⟨b, hb, hlen, hread⟩, kept, n, hkept, hnuls⟩

end FieldType

end HeapStore
