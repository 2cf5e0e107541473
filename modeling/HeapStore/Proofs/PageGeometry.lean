import HeapStore.Proofs.PageLayout

/-! The geometry of pages. The sizes are computed in 64-bit numbers and come out as in exact arithmetic,
also where the bits of a slot are too many for 64 bits. Bitmap, slots and padding then share out the bytes
of a page, and no page has room for one slot more. -/

namespace HeapStore.Layout

/-! ### The sizes in 64-bit numbers -/

/-- The product of two numbers, unless it overflows. -/
def mul? (a b : UInt64) : Option UInt64 :=
  if a.toNat * b.toNat < UInt64.size then some (a * b) else none

/-- The sum of two numbers, unless it overflows. -/
def add? (a b : UInt64) : Option UInt64 :=
  if a.toNat + b.toNat < UInt64.size then some (a + b) else none

/-- The bits of a tuple and one bit of the bitmap. -/
def slotBits? (tupleSize : UInt64) : Option UInt64 := (mul? tupleSize 8).bind (add? · 1)

/-- The number of slots, which is none where the bits of a slot overflow. -/
def slots64 (pageSize tupleSize : UInt64) : UInt64 :=
  match slotBits? tupleSize with
  | none => 0
  | some bits => pageSize * 8 / bits

/-- The number of slots and the bytes of the bitmap. -/
def sizes64 (pageSize tupleSize : UInt64) : Except Error (UInt64 × UInt64) :=
  if pageSize = 0 ∨ 65536 < pageSize then
    .error (.config (.pageSizeOutside pageSize.toNat maxPageSize))
  else if tupleSize = 0 then .error (.invalidSchema .emptyTuple)
  else if slots64 pageSize tupleSize = 0 then
    .error (.invalidSchema (.tupleExceedsPage tupleSize.toNat pageSize.toNat))
  else .ok (slots64 pageSize tupleSize, (slots64 pageSize tupleSize + 7) / 8)

section

variable {a b c pageSize tupleSize : UInt64}

theorem toNat_of_mul? (h : mul? a b = some c) : c.toNat = a.toNat * b.toNat := by
  unfold mul? at h
  split at h
  · next hlt =>
    cases h
    exact (UInt64.toNat_mul a b).trans (Nat.mod_eq_of_lt hlt)
  · cases h

theorem toNat_of_add? (h : add? a b = some c) : c.toNat = a.toNat + b.toNat := by
  unfold add? at h
  split at h
  · next hlt =>
    cases h
    exact (UInt64.toNat_add a b).trans (Nat.mod_eq_of_lt hlt)
  · cases h

theorem toNat_of_slotBits? (h : slotBits? tupleSize = some c) : c.toNat = 8 * tupleSize.toNat + 1 := by
  obtain ⟨b, hb, hc⟩ := Option.bind_eq_some_iff.1 h
  rw [toNat_of_add? hc, toNat_of_mul? hb, Nat.mul_comm]
  rfl

theorem size_le_of_slotBits? (h : slotBits? tupleSize = none) :
    UInt64.size ≤ 8 * tupleSize.toNat + 1 := by
  unfold slotBits? at h
  cases hb : mul? tupleSize 8 with
  | none =>
    unfold mul? at hb
    split at hb
    · cases hb
    · next hproduct =>
      have hproduct : ¬ tupleSize.toNat * 8 < UInt64.size := hproduct
      omega
  | some b =>
    have hproduct : b.toNat = tupleSize.toNat * 8 := toNat_of_mul? hb
    rw [hb, Option.bind_some] at h
    unfold add? at h
    split at h
    · cases h
    · next hsum =>
      have hsum : ¬ b.toNat + 1 < UInt64.size := hsum
      omega

/-- No overflow shows in the number of slots. -/
theorem toNat_slots64 (h : pageSize.toNat ≤ maxPageSize) :
    (slots64 pageSize tupleSize).toNat = 8 * pageSize.toNat / (8 * tupleSize.toNat + 1) := by
  have hpage : 8 * pageSize.toNat < UInt64.size := by
    unfold maxPageSize at h
    unfold UInt64.size
    omega
  unfold slots64
  cases hb : slotBits? tupleSize with
  | none =>
    -- a slot has more bits than any page
    have hbits := size_le_of_slotBits? hb
    rw [Nat.div_eq_of_lt (by omega)]
    rfl
  | some bits =>
    have hbytes : (pageSize * 8).toNat = 8 * pageSize.toNat := by
      rw [UInt64.toNat_mul, Nat.mul_comm]
      exact Nat.mod_eq_of_lt hpage
    rw [UInt64.toNat_div, hbytes, toNat_of_slotBits? hb]

theorem make_eq_ok_iff {pageSize tupleSize : Nat} : (∃ l, make pageSize tupleSize = .ok l) ↔
    1 ≤ pageSize ∧ pageSize ≤ 65536 ∧ 1 ≤ tupleSize ∧ 8 * tupleSize + 1 ≤ 8 * pageSize := by
  constructor
  · intro ⟨l, hl⟩
    obtain ⟨rfl, rfl⟩ := make_eq_ok hl
    exact ⟨l.pageSize_pos, l.page_le, l.tuple_pos, l.fits⟩
  · intro ⟨_, hpage, htuple, hfits⟩
    exact ⟨_, make_sizes ⟨pageSize, tupleSize, hpage, htuple, hfits⟩⟩

/-- A layout is made, or refused, just as the 64-bit numbers say. -/
theorem make_eq_sizes64 (pageSize tupleSize : UInt64) :
    (make pageSize.toNat tupleSize.toNat).map (fun l => (l.numSlots, l.headerSize)) =
      (sizes64 pageSize tupleSize).map fun n => (n.1.toNat, n.2.toNat) := by
  have hzero (x : UInt64) : x = 0 ↔ x.toNat = 0 := UInt64.toNat_inj.symm
  have hlarge : 65536 < pageSize ↔ maxPageSize < pageSize.toNat := UInt64.lt_iff_toNat_lt
  unfold make sizes64
  simp only [hzero, hlarge]
  split
  · rfl
  · next hp =>
    have hpage : pageSize.toNat ≤ maxPageSize := Nat.le_of_not_lt fun h => hp (.inr h)
    have hslots : (slots64 pageSize tupleSize).toNat = 8 * pageSize.toNat / (8 * tupleSize.toNat + 1) :=
      toNat_slots64 hpage
    have hnone : (slots64 pageSize tupleSize).toNat = 0 ↔
        ¬ 8 * tupleSize.toNat + 1 ≤ 8 * pageSize.toNat := by
      rw [hslots, Nat.div_eq_zero_iff]
      omega
    split
    · rfl
    · simp only [hnone]
      split
      · simp only [Except.map]
        have hadd : (slots64 pageSize tupleSize + 7).toNat = (slots64 pageSize tupleSize).toNat + 7 := by
          have : (slots64 pageSize tupleSize).toNat ≤ 8 * pageSize.toNat := hslots ▸ Nat.div_le_self ..
          rw [UInt64.toNat_add]
          apply Nat.mod_eq_of_lt
          unfold maxPageSize at hpage
          have h7 : (7 : UInt64).toNat = 7 := rfl
          omega
        rw [UInt64.toNat_div, hadd, hslots]
        rfl
      · rfl

end

/-! ### The parts of a page -/

/-- The parts of a page, in their order. -/
inductive Part where
  | bitmap
  | slot (i : Nat)
  | padding
  deriving DecidableEq, Repr

/-- Does byte `j` of a page belong to this part? -/
def Holds (l : Layout) (j : Nat) : Part → Prop
  | .bitmap => j < l.headerSize
  | .slot i => i < l.numSlots ∧ l.slotOffset i ≤ j ∧ j < l.slotOffset i + l.tupleSize
  | .padding => l.slotOffset l.numSlots ≤ j ∧ j < l.slotOffset l.numSlots + l.padding

/-- Bitmap, slots and padding share out the page, and slots take as much of it as they can. -/
structure Tight (l : Layout) : Prop where
  covered : ∀ j, j < l.pageSize ↔ ∃ part, l.Holds j part
  apart : ∀ j part part', l.Holds j part → l.Holds j part' → part = part'
  padding : l.slotOffset l.numSlots + l.padding = l.pageSize
  bits : l.numSlots ≤ 8 * l.headerSize
  most : ∀ n, (n + 7) / 8 + n * l.tupleSize ≤ l.pageSize ↔ n ≤ l.numSlots
  numbers : l.numSlots ≤ 65535 ∧ ∀ i < l.numSlots, (UInt16.ofNat i).toNat = i

variable {l : Layout} {i j n : Nat} {part part' : Part}

theorem slotOffset_succ (l : Layout) (i : Nat) : l.slotOffset (i + 1) = l.slotOffset i + l.tupleSize := by
  unfold slotOffset
  rw [Nat.add_one_mul, Nat.add_assoc]

theorem slotOffset_mono (h : i ≤ j) : l.slotOffset i ≤ l.slotOffset j :=
  Nat.add_le_add_left (Nat.mul_le_mul_right _ h) _

theorem slotOffset_add_padding (l : Layout) : l.slotOffset l.numSlots + l.padding = l.pageSize :=
  Nat.add_sub_of_le l.slotOffset_numSlots_le

/-- A byte of a slot is counted to this slot and to no other. -/
theorem Holds.slot_eq (h : l.Holds j (.slot i)) : (j - l.headerSize) / l.tupleSize = i := by
  obtain ⟨-, hstart, hstop⟩ := h
  have hhead : l.headerSize ≤ l.slotOffset i := Nat.le_add_right ..
  exact (div_tupleSize_eq_iff (Nat.le_trans hhead hstart)).2 ⟨hstart, (l.slotOffset_succ i).symm ▸ hstop⟩

theorem Holds.lt_pageSize (h : l.Holds j part) : j < l.pageSize := by
  have hend := l.slotOffset_add_padding
  cases part with
  | bitmap =>
    have hhead : l.headerSize ≤ l.slotOffset l.numSlots := Nat.le_add_right ..
    have hj : j < l.headerSize := h
    omega
  | slot i =>
    obtain ⟨hi, -, hstop⟩ := h
    have hnext : l.slotOffset (i + 1) ≤ l.slotOffset l.numSlots := slotOffset_mono hi
    rw [slotOffset_succ] at hnext
    omega
  | padding => exact hend ▸ h.2

theorem exists_holds (h : j < l.pageSize) : ∃ part, l.Holds j part := by
  by_cases hhead : j < l.headerSize
  · exact ⟨.bitmap, hhead⟩
  · by_cases hpad : l.slotOffset l.numSlots ≤ j
    · exact ⟨.padding, hpad, by rwa [slotOffset_add_padding]⟩
    · have hhead : l.headerSize ≤ j := by omega
      obtain ⟨hstart, hstop⟩ := (div_tupleSize_eq_iff hhead).1 rfl
      refine ⟨.slot ((j - l.headerSize) / l.tupleSize), ?_, hstart, by rwa [← slotOffset_succ]⟩
      rw [Nat.div_lt_iff_lt_mul l.tuple_pos]
      unfold slotOffset at hpad
      omega

theorem Holds.unique (h : l.Holds j part) (h' : l.Holds j part') : part = part' := by
  -- a slot lies behind the bitmap and before the padding
  have hslot {i : Nat} (h : l.Holds j (.slot i)) : l.headerSize ≤ j ∧ j < l.slotOffset l.numSlots := by
    obtain ⟨hi, hstart, hstop⟩ := h
    have hnext : l.slotOffset (i + 1) ≤ l.slotOffset l.numSlots := slotOffset_mono hi
    rw [slotOffset_succ] at hnext
    exact ⟨Nat.le_trans (Nat.le_add_right ..) hstart, by omega⟩
  have hhead : l.headerSize ≤ l.slotOffset l.numSlots := Nat.le_add_right ..
  cases part <;> cases part'
  case bitmap.bitmap | padding.padding => rfl
  case slot.slot i i' => rw [← h.slot_eq, ← h'.slot_eq]
  case bitmap.slot i => exact absurd (hslot h').1 (Nat.not_le.2 h)
  case slot.bitmap i => exact absurd (hslot h).1 (Nat.not_le.2 h')
  case padding.slot i => exact absurd h.1 (Nat.not_le.2 (hslot h').2)
  case slot.padding i => exact absurd h'.1 (Nat.not_le.2 (hslot h).2)
  case bitmap.padding => exact absurd (Nat.le_trans hhead h'.1) (Nat.not_le.2 h)
  case padding.bitmap => exact absurd (Nat.le_trans hhead h.1) (Nat.not_le.2 h')

/-- So many slots have room, with whole bytes for their bits, just when there are not more than a page has. -/
theorem room_iff (l : Layout) (n : Nat) :
    (n + 7) / 8 + n * l.tupleSize ≤ l.pageSize ↔ n ≤ l.numSlots := by
  unfold numSlots
  rw [Nat.le_div_iff_mul_le (Nat.succ_pos _), Nat.mul_succ, Nat.mul_left_comm]
  omega

theorem tight (l : Layout) : l.Tight where
  covered _ := ⟨exists_holds, fun ⟨_, h⟩ => h.lt_pageSize⟩
  apart _ _ _ := Holds.unique
  padding := l.slotOffset_add_padding
  bits := l.numSlots_le
  most := l.room_iff
  numbers := ⟨Nat.le_of_lt_succ l.numSlots_lt, fun _ hi =>
    UInt16.toNat_ofNat_of_lt' (Nat.lt_trans hi l.numSlots_lt)⟩

/-- A layout is made just where one tuple fits on a page of an allowed size, whatever overflows; its parts
share out the page, and the bytes of every page with these sizes fill it. -/
theorem geometry_exact (pageSize tupleSize : UInt64) :
    ((∃ l, make pageSize.toNat tupleSize.toNat = .ok l) ↔
      1 ≤ pageSize.toNat ∧ pageSize.toNat ≤ 65536 ∧ 1 ≤ tupleSize.toNat ∧
        8 * tupleSize.toNat + 1 ≤ 8 * pageSize.toNat) ∧
    (make pageSize.toNat tupleSize.toNat).map (fun l => (l.numSlots, l.headerSize)) =
      (sizes64 pageSize tupleSize).map (fun n => (n.1.toNat, n.2.toNat)) ∧
    ∀ l, make pageSize.toNat tupleSize.toNat = .ok l →
      l.pageSize = pageSize.toNat ∧ l.tupleSize = tupleSize.toNat ∧ l.Tight ∧
      ∀ p : Page, p.Made → p.layout.pageSize = pageSize.toNat → p.schema.tupleSize = tupleSize.toNat →
        p.layout = l ∧ p.toBytes.length = pageSize.toNat := by
  refine ⟨make_eq_ok_iff, make_eq_sizes64 pageSize tupleSize, fun l hl => ?_⟩
  obtain ⟨hpage, htuple⟩ := make_eq_ok hl
  refine ⟨hpage, htuple, l.tight, fun p hp hsize hs => ?_⟩
  refine ⟨?_, hp.sound.length_toBytes.trans hsize⟩
  have hmade := p.layout.make_sizes
  rw [hsize, hp.sound.sized, hs, hl] at hmade
  exact (Except.ok.inj hmade).symm

/-- The largest pages of the smallest tuples have most slots, and their numbers fit into 16 bits; a tuple
whose bits overflow is refused. -/
theorem geometry_exact_largest :
    (∃ l, make 65536 1 = .ok l ∧ l.numSlots = 58254 ∧ l.headerSize = 7282 ∧ l.padding = 0 ∧
      ¬ 7282 + 58255 * l.tupleSize ≤ l.pageSize ∧ (UInt16.ofNat 58253).toNat = 58253) ∧
    ¬ ∃ l, make 4096 0xFFFFFFFFFFFFFFFF = .ok l := by
  refine ⟨?_, fun hmade => absurd ((geometry_exact 4096 0xFFFFFFFFFFFFFFFF).1.1 hmade) (by decide)⟩
  obtain ⟨hmade, -, hall⟩ := geometry_exact 65536 1
  obtain ⟨l, hl⟩ := hmade.2 (by decide)
  obtain ⟨hpage, htuple, htight, -⟩ := hall l hl
  have hslots : l.numSlots = 58254 := by
    unfold numSlots
    rw [hpage, htuple]
    rfl
  have hhead : l.headerSize = 7282 := by
    unfold headerSize
    rw [hslots]
  refine ⟨l, hl, hslots, hhead, ?_, fun hroom => ?_, htight.numbers.2 58253 (by omega)⟩
  · have htotal := htight.padding
    unfold slotOffset at htotal
    rw [hhead, hslots, htuple, hpage] at htotal
    exact Nat.add_left_cancel htotal
  · have := (htight.most 58255).1 hroom
    omega

end HeapStore.Layout
