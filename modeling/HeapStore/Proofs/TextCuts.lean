import HeapStore.Proofs.FieldRoundTrip

/-! Where a text is cut. The search steps back from the limit, and stops at the end of the last character
that fits: all bytes of a character but its first continue it, and there are at most three of them. So the
search never passes the start of the text, and what stands before the place it finds is whole characters. -/

namespace HeapStore.Text

/-- Does a character begin at byte `k`, or the text end there? -/
def isBoundary (b : List UInt8) (k : Nat) : Bool :=
  k == 0 || if k < b.length then !b[k]?.any isContinuation else k == b.length

/-- The last character boundary at or before byte `k`, if it is reached without a step below zero. -/
def lastBoundary? (b : List UInt8) : Nat → Option Nat
  | 0 => if isBoundary b 0 then some 0 else none
  | k + 1 => if isBoundary b (k + 1) then some (k + 1) else lastBoundary? b k

/-- The text before byte `k`, which has to be a character boundary. -/
def before? (s : String) (k : Nat) : Option String :=
  if isBoundary (bytes s) k then ofBytes? ((bytes s).take k) else none

/-- The cut text, unless the search for the place of the cut fails or ends inside a character. -/
def truncate? (s : String) (limit : Nat) : Option String :=
  if (bytes s).length ≤ limit then some s else (lastBoundary? (bytes s) limit).bind (before? s)

variable {cs ds : List Char} {c : Char} {b : List UInt8} {s : String} {i k n : Nat}

/-! ### Widths -/

theorem width_append (cs ds : List Char) : width (cs ++ ds) = width cs + width ds := by
  induction cs with
  | nil => rw [List.nil_append, width, Nat.zero_add]
  | cons c cs ih => rw [List.cons_append, width, width, ih, Nat.add_assoc]

theorem width_le_of_isPrefix (h : ds <+: cs) : width ds ≤ width cs := by
  obtain ⟨rest, rfl⟩ := h
  rw [width_append]
  exact Nat.le_add_right ..

/-- The character behind those that were taken does not fit any more. -/
theorem lt_width_takeBytes_add {rest : List Char} (h : cs = takeBytes cs n ++ c :: rest) :
    n < width (takeBytes cs n) + c.utf8Size := by
  refine Nat.lt_of_not_le fun hle => ?_
  have hmore : takeBytes cs n ++ [c] <+: cs := ⟨rest, by rw [List.append_assoc]; exact h.symm⟩
  have hwidth : width (takeBytes cs n ++ [c]) ≤ n := by
    rw [width_append, width, width, Nat.add_zero]
    exact hle
  have hlen := (prefix_takeBytes hmore hwidth).length_le
  rw [List.length_append, List.length_singleton] at hlen
  omega

/-- Of the characters that fit into `m` bytes, those that fit into `n`. -/
theorem takeBytes_takeBytes (cs : List Char) (m n : Nat) :
    takeBytes (takeBytes cs m) n = takeBytes cs (min m n) := by
  have htwice : takeBytes (takeBytes cs m) n <+: takeBytes cs m := takeBytes_prefix_self _ n
  have honce : takeBytes cs (min m n) <+: takeBytes cs m := by
    refine prefix_takeBytes (takeBytes_prefix_self cs _) ?_
    exact Nat.le_trans (width_takeBytes_le cs _) (Nat.min_le_left ..)
  refine prefix_antisymm (prefix_takeBytes (htwice.trans (takeBytes_prefix_self cs m)) ?_)
    (prefix_takeBytes honce ?_)
  · have hm := Nat.le_trans (width_le_of_isPrefix htwice) (width_takeBytes_le cs m)
    exact Nat.le_min.2 ⟨hm, width_takeBytes_le _ n⟩
  · exact Nat.le_trans (width_takeBytes_le cs _) (Nat.min_le_right ..)

/-! ### The bytes of one character -/

theorem isContinuation_tail (n : Nat) : isContinuation (UInt8.ofNat (n % 0x40 + 0x80)) = true := by
  have h : ∀ m < 0x40, isContinuation (UInt8.ofNat (m + 0x80)) = true := by decide
  exact h _ (Nat.mod_lt n (by decide))

theorem all_isContinuation (c : Char) : (String.utf8EncodeChar c).tail.all isContinuation = true := by
  unfold String.utf8EncodeChar
  simp only
  split_ifs <;> simp only [List.tail_cons, List.all_cons, List.all_nil, isContinuation_tail, Bool.and_self]

theorem any_isContinuation (h : i + 1 < c.utf8Size) :
    (String.utf8EncodeChar c)[i + 1]?.any isContinuation = true := by
  have hlen : i < (String.utf8EncodeChar c).tail.length := by
    rw [List.length_tail, String.length_utf8EncodeChar]
    omega
  rw [← List.getElem?_tail, List.getElem?_eq_getElem hlen]
  exact List.all_eq_true.1 (all_isContinuation c) _ (List.getElem_mem hlen)

/-- A place where no byte continues a character is behind whole characters. -/
theorem exists_prefix_of_not_any (hk : k ≤ width cs)
    (h : (cs.flatMap String.utf8EncodeChar)[k]?.any isContinuation = false) :
    ∃ ds, ds <+: cs ∧ width ds = k := by
  induction cs generalizing k with
  | nil => exact ⟨[], List.prefix_refl _, (Nat.le_zero.1 hk).symm⟩
  | cons c cs ih =>
    cases k with
    | zero => exact ⟨[], List.nil_prefix, rfl⟩
    | succ k =>
      have hlen := String.length_utf8EncodeChar c
      rw [List.flatMap_cons] at h
      rcases Nat.lt_or_ge (k + 1) c.utf8Size with hlt | hge
      · -- inside the first character
        rw [List.getElem?_append_left (hlen ▸ hlt), any_isContinuation hlt] at h
        cases h
      · rw [List.getElem?_append_right (hlen ▸ hge), hlen] at h
        rw [width] at hk
        obtain ⟨ds, hds, hwidth⟩ := ih (by omega) h
        refine ⟨c :: ds, List.cons_prefix_cons.2 ⟨rfl, hds⟩, ?_⟩
        rw [width, hwidth]
        omega

/-! ### The search -/

theorem not_any_floorBoundary (h : b[0]?.any isContinuation = false) (k : Nat) :
    b[floorBoundary b k]?.any isContinuation = false := by
  induction k with
  | zero => exact h
  | succ k ih =>
    rw [floorBoundary]
    split
    · exact ih
    · next hk => exact Bool.eq_false_iff.2 hk

theorem isBoundary_succ (h : k + 1 ≤ b.length) :
    isBoundary b (k + 1) = !b[k + 1]?.any isContinuation := by
  unfold isBoundary
  split
  · rfl
  · rw [List.getElem?_eq_none (by omega), show k + 1 = b.length by omega]
    simp

theorem lastBoundary?_eq (h : k ≤ b.length) : lastBoundary? b k = some (floorBoundary b k) := by
  induction k with
  | zero => rfl
  | succ k ih =>
    rw [lastBoundary?, floorBoundary, isBoundary_succ h, ih (by omega)]
    cases b[k + 1]?.any isContinuation <;> rfl

theorem isBoundary_of_lastBoundary? {j : Nat} (h : lastBoundary? b k = some j) : isBoundary b j = true := by
  induction k with
  | zero => cases h; rfl
  | succ k ih =>
    rw [lastBoundary?] at h
    split at h
    · next hk => cases h; exact hk
    · exact ih h

/-- The search ends behind the characters that fit into the limit. -/
theorem floorBoundary_eq_width (h : n ≤ (bytes s).length) :
    floorBoundary (bytes s) n = width (takeBytes s.toList n) := by
  rw [length_bytes] at h
  rw [bytes_eq]
  have hle := floorBoundary_le (s.toList.flatMap String.utf8EncodeChar) n
  apply Nat.le_antisymm
  · have hstart := not_isContinuation_at_width (List.nil_prefix (l := s.toList))
    have hstop := not_any_floorBoundary hstart n
    obtain ⟨ds, hds, hwidth⟩ := exists_prefix_of_not_any (Nat.le_trans hle h) hstop
    rw [← hwidth]
    exact width_le_of_isPrefix (prefix_takeBytes hds (hwidth ▸ hle))
  · exact le_floorBoundary (not_isContinuation_at_width (takeBytes_prefix_self _ n)) (width_takeBytes_le _ n)

/-- Before the place that the search finds there are just the characters that are kept. -/
theorem bytes_truncate (h : n < (bytes s).length) :
    bytes (truncate s n) = (bytes s).take (floorBoundary (bytes s) n) := by
  obtain ⟨rest, hrest⟩ := takeBytes_prefix_self s.toList n
  have hkept : bytes (truncate s n) = (takeBytes s.toList n).flatMap String.utf8EncodeChar := by
    rw [bytes_eq, toList_truncate]
  have hsplit : bytes s = bytes (truncate s n) ++ rest.flatMap String.utf8EncodeChar := by
    rw [hkept, ← List.flatMap_append, hrest, bytes_eq]
  have hlen : (bytes (truncate s n)).length = floorBoundary (bytes s) n := by
    rw [floorBoundary_eq_width (Nat.le_of_lt h), length_bytes, toList_truncate]
  calc bytes (truncate s n)
      = (bytes (truncate s n) ++ rest.flatMap String.utf8EncodeChar).take (floorBoundary (bytes s) n) :=
        (List.take_left' hlen).symm
    _ = (bytes s).take (floorBoundary (bytes s) n) := by rw [← hsplit]

theorem truncate?_eq (s : String) (n : Nat) : truncate? s n = some (truncate s n) := by
  rw [truncate?]
  split
  · next h => rw [truncate_of_le h]
  · next h =>
    have hlt := Nat.lt_of_not_le h
    have hsearch := lastBoundary?_eq (Nat.le_of_lt hlt)
    rw [hsearch, Option.bind_some, before?, if_pos (isBoundary_of_lastBoundary? hsearch)]
    exact ofBytes?_eq_some_iff.2 (bytes_truncate hlt)

/-- A character has at most four bytes, so the search takes at most three steps. -/
theorem le_floorBoundary_add (h : n < (bytes s).length) : n ≤ floorBoundary (bytes s) n + 3 := by
  rw [floorBoundary_eq_width (Nat.le_of_lt h)]
  obtain ⟨rest, hrest⟩ := takeBytes_prefix_self s.toList n
  cases rest with
  | nil =>
    rw [length_bytes, ← hrest, List.append_nil] at h
    have := width_takeBytes_le s.toList n
    omega
  | cons c rest =>
    have hnext := lt_width_takeBytes_add hrest.symm
    have := c.utf8Size_le_four
    omega

theorem lt_length_push_truncate {rest : List Char} (h : s.toList = (truncate s n).toList ++ c :: rest) :
    n < (bytes ((truncate s n).push c)).length := by
  rw [toList_truncate] at h
  rw [length_bytes, String.toList_push, width_append, toList_truncate]
  exact lt_width_takeBytes_add h

theorem truncate_eq_self_iff : truncate s n = s ↔ (bytes s).length ≤ n := by
  refine ⟨fun h => ?_, truncate_of_le⟩
  rw [← h]
  exact length_bytes_truncate_le s n

theorem truncate_truncate (s : String) (m n : Nat) :
    truncate (truncate s m) n = truncate s (min m n) := by
  apply String.toList_inj.1
  rw [toList_truncate, toList_truncate, toList_truncate, takeBytes_takeBytes]

/-- Cutting a text ends and never fails: the search stops at a boundary, at most three steps back from the
limit, and the bytes before it are kept. They are the longest beginning of whole characters that fits, so a
text is left as it is just if it fits, and of two cuts the shorter one tells the result. -/
theorem truncate_exact (s : String) (limit : Nat) :
    truncate? s limit = some (truncate s limit) ∧
    (limit < (bytes s).length →
      lastBoundary? (bytes s) limit = some (floorBoundary (bytes s) limit) ∧
      floorBoundary (bytes s) limit ≤ limit ∧ limit ≤ floorBoundary (bytes s) limit + 3 ∧
      bytes (truncate s limit) = (bytes s).take (floorBoundary (bytes s) limit)) ∧
    (truncate s limit).toList <+: s.toList ∧
    (bytes (truncate s limit)).length ≤ limit ∧
    (∀ c rest, s.toList = (truncate s limit).toList ++ c :: rest →
      limit < (bytes ((truncate s limit).push c)).length) ∧
    (truncate s limit = s ↔ (bytes s).length ≤ limit) ∧
    ∀ next, truncate (truncate s limit) next = truncate s (min limit next) := by
  refine ⟨truncate?_eq s limit, fun h => ?_, (isCut_truncate s limit).isPrefix,
    length_bytes_truncate_le s limit, fun c rest h => lt_length_push_truncate h, truncate_eq_self_iff,
    truncate_truncate s limit⟩
  exact ⟨lastBoundary?_eq (Nat.le_of_lt h), floorBoundary_le _ _, le_floorBoundary_add h, bytes_truncate h⟩

/-- The limit falls into the last of three characters. -/
example : truncate "aé€" 5 = "aé" := by decide +kernel

end HeapStore.Text
