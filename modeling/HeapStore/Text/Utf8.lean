/-!
Text and its UTF-8 bytes. A text is cut to a byte limit at a character boundary, which is found by
stepping back from the limit over the bytes that continue a character.
-/

namespace HeapStore.Text

/-- The UTF-8 bytes of a text. -/
def bytes (s : String) : List UInt8 := s.toUTF8.data.toList

/-- The text with these bytes, if they are well-formed UTF-8. -/
def ofBytes? (b : List UInt8) : Option String := String.fromUTF8? ⟨b.toArray⟩

/-- Every byte of a character after its first has the two high bits `10`. -/
def isContinuation (b : UInt8) : Bool := b &&& 0xC0 == 0x80

/-- The last character boundary at or before byte `k`. The positions at and past the end of the
text count as boundaries. -/
def floorBoundary (b : List UInt8) : Nat → Nat
  | 0 => 0
  | k + 1 => if b[k + 1]?.any isContinuation then floorBoundary b k else k + 1

/-- The leading characters whose bytes fit into the first `n`. -/
def takeBytes : List Char → Nat → List Char
  | [], _ => []
  | c :: cs, n => if c.utf8Size ≤ n then c :: takeBytes cs (n - c.utf8Size) else []

/-- Keeps at most `limit` bytes of a text, and only whole characters. -/
def truncate (s : String) (limit : Nat) : String :=
  if (bytes s).length ≤ limit then s
  else String.ofList (takeBytes s.toList (floorBoundary (bytes s) limit))

/-- Drops the NUL characters at the end of a text. -/
def trimNuls (s : String) : String :=
  String.ofList (s.toList.reverse.dropWhile (· == '\x00')).reverse

/-- Drops the zero bytes at the end. -/
def trimZeros (b : List UInt8) : List UInt8 := (b.reverse.dropWhile (· == 0)).reverse

/-! ### Bytes of a list of characters -/

/-- The number of bytes that the characters take. -/
def width : List Char → Nat
  | [] => 0
  | c :: cs => c.utf8Size + width cs

/-- The bytes of a list of characters, one character after the other. -/
theorem bytes_ofList (cs : List Char) : bytes (String.ofList cs) = cs.flatMap String.utf8EncodeChar := by
  simp [bytes, List.utf8Encode]

theorem bytes_eq (s : String) : bytes s = s.toList.flatMap String.utf8EncodeChar := by
  rw [← bytes_ofList, String.ofList_toList]

theorem length_bytes_ofList (cs : List Char) : (bytes (String.ofList cs)).length = width cs := by
  rw [bytes_ofList]
  induction cs with
  | nil => rfl
  | cons c cs ih => simp [List.flatMap_cons, width, ih]

theorem ofBytes?_eq_some_iff {b : List UInt8} {s : String} : ofBytes? b = some s ↔ bytes s = b := by
  unfold ofBytes? String.fromUTF8? bytes
  constructor
  · intro h
    split at h
    · cases h; simp [String.fromUTF8]
    · cases h
  · intro h
    have e : (⟨b.toArray⟩ : ByteArray) = s.toUTF8 := by rw [← h]
    have v : ByteArray.IsValidUTF8 ⟨b.toArray⟩ := by rw [e]; exact s.isValidUTF8
    rw [dif_pos v]
    congr 1
    apply String.toByteArray_inj.1
    simpa [String.fromUTF8] using e

/-! ### What survives a cut -/

theorem floorBoundary_le (b : List UInt8) (k : Nat) : floorBoundary b k ≤ k := by
  induction k with
  | zero => exact Nat.le_refl 0
  | succ k ih => unfold floorBoundary; split <;> omega

theorem width_takeBytes_le (cs : List Char) (n : Nat) : width (takeBytes cs n) ≤ n := by
  induction cs generalizing n with
  | nil => simp [takeBytes, width]
  | cons c cs ih =>
    unfold takeBytes
    split
    · have := ih (n - c.utf8Size)
      simp only [width]
      omega
    · simp [width]

theorem length_bytes_truncate_le (s : String) (n : Nat) : (bytes (truncate s n)).length ≤ n := by
  unfold truncate
  split
  · assumption
  · rw [length_bytes_ofList]
    exact Nat.le_trans (width_takeBytes_le _ _) (floorBoundary_le _ _)

theorem toList_trimNuls_append (s : String) :
    ∃ tail, s.toList = (trimNuls s).toList ++ tail := by
  refine ⟨(s.toList.reverse.takeWhile (· == '\x00')).reverse, ?_⟩
  have := List.takeWhile_append_dropWhile (p := (· == '\x00')) (l := s.toList.reverse)
  simp only [trimNuls, String.toList_ofList, ← List.reverse_append]
  rw [this, List.reverse_reverse]

theorem length_bytes_trimNuls_le (s : String) : (bytes (trimNuls s)).length ≤ (bytes s).length := by
  obtain ⟨tail, h⟩ := toList_trimNuls_append s
  rw [bytes_eq s, bytes_eq (trimNuls s), h, List.flatMap_append, List.length_append]
  omega

theorem getLast?_trimNuls_ne (s : String) : (trimNuls s).toList.getLast? ≠ some '\x00' := by
  simp only [trimNuls, String.toList_ofList, List.getLast?_reverse]
  intro h
  have := List.head?_dropWhile_not (· == '\x00') s.toList.reverse
  rw [h] at this
  simp at this

theorem getLast?_trimZeros_ne (b : List UInt8) : (trimZeros b).getLast? ≠ some 0 := by
  simp only [trimZeros, List.getLast?_reverse]
  intro h
  have := List.head?_dropWhile_not (· == (0 : UInt8)) b.reverse
  rw [h] at this
  simp at this

theorem length_trimZeros_le (b : List UInt8) : (trimZeros b).length ≤ b.length := by
  simpa [trimZeros] using (List.dropWhile_sublist (· == (0 : UInt8)) (l := b.reverse)).length_le

/-- A text that ends in NUL has bytes that end in zero. -/
theorem getLast?_bytes_of_nul {s : String} (h : s.toList.getLast? = some '\x00') :
    (bytes s).getLast? = some 0 := by
  obtain ⟨cs, e⟩ := List.getLast?_eq_some_iff.1 h
  rw [bytes_eq, e, List.flatMap_append]
  have : ['\x00'].flatMap String.utf8EncodeChar = [0] := by decide
  rw [this]
  simp

end HeapStore.Text
