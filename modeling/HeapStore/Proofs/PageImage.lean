import HeapStore.Page.Basic
import HeapStore.Proofs.FieldCodec

/-! A page and its bytes. `Page.Sound` is what every page keeps that was read from bytes and changed
by inserts and deletes: the bitmap and the slots tell the same story. The bytes of a sound page
decode to a page with the same header and the same rows; only the names of fields may be lost, since
a tuple is stored without its schema. -/

namespace HeapStore

namespace Bitmap

theorem testBit_mask (k i : Nat) (hk : k < 8) :
    ((1 : UInt8) <<< UInt8.ofNat k).toNat.testBit i = decide (i = k) := by
  have hm : ((1 : UInt8) <<< UInt8.ofNat k).toNat = 2 ^ k := by
    rcases k with _ | _ | _ | _ | _ | _ | _ | _ | k <;> first | rfl | omega
  rw [hm, Nat.testBit_two_pow]
  simp [eq_comm]

theorem testBit_setInByte (x : UInt8) (k i : Nat) (hk : k < 8) (hi : i < 8) (on : Bool) :
    (setInByte x k on).toNat.testBit i = if i = k then on else x.toNat.testBit i := by
  unfold setInByte
  cases on with
  | true =>
    simp only [if_true, UInt8.toNat_or, Nat.testBit_or, testBit_mask k i hk]
    by_cases h : i = k <;> simp [h]
  | false =>
    have hc : (~~~((1 : UInt8) <<< UInt8.ofNat k)).toNat.testBit i = decide (i ≠ k) := by
      have := testBit_mask k i hk
      rw [← UInt8.toNat_toBitVec] at this ⊢
      rw [UInt8.toBitVec_not, ← BitVec.getLsbD, BitVec.getLsbD_not]
      rw [← BitVec.getLsbD] at this
      rw [this]
      simp [hi]
    simp only [Bool.false_eq_true, if_false, UInt8.toNat_and, Nat.testBit_and, hc]
    by_cases h : i = k <;> simp [h]

theorem length_set (b : Bytes) (i : Nat) (on : Bool) : (set b i on).length = b.length :=
  List.length_modify ..

theorem test_set (b : Bytes) {i : Nat} (h : i / 8 < b.length) (on : Bool) (j : Nat) :
    test (set b i on) j = if j = i then on else test b j := by
  have hmod (n : Nat) : n % 8 < 8 := Nat.mod_lt _ (by decide)
  unfold test set
  rw [List.getD_eq_getElem?_getD, List.getD_eq_getElem?_getD, List.getElem?_modify]
  by_cases hd : i / 8 = j / 8
  · simp only [hd, if_true] at h ⊢
    rw [List.getElem?_eq_getElem h]
    simp only [Option.map_eq_map, Option.map_some, Option.getD_some]
    rw [testBit_setInByte _ _ _ (hmod i) (hmod j)]
    by_cases he : j = i
    · simp [he]
    · rw [if_neg he, if_neg (by omega)]
  · rw [if_neg (by rintro rfl; exact hd rfl)]
    simp [hd]

theorem length_bits (b : Bytes) : (bits b).length = 8 * b.length := by
  unfold bits
  induction b with
  | nil => rfl
  | cons x b ih => simp [List.flatMap_cons, bitsOfByte, ih]; omega

theorem getElem?_bits (b : Bytes) {i : Nat} (h : i < 8 * b.length) :
    (bits b)[i]? = some (test b i) := by
  induction b generalizing i with
  | nil => simp at h
  | cons x b ih =>
    have hlen : (bitsOfByte x).length = 8 := by simp [bitsOfByte]
    simp only [bits, List.flatMap_cons] at ih ⊢
    by_cases hi : i < 8
    · rw [List.getElem?_append_left (by omega)]
      simp [bitsOfByte, test, hi, Nat.div_eq_of_lt hi, Nat.mod_eq_of_lt hi]
    · rw [List.getElem?_append_right (by omega), hlen, ih (by simp at h; omega)]
      have hd : i / 8 = (i - 8) / 8 + 1 := by omega
      have hm : i % 8 = (i - 8) % 8 := by omega
      simp only [test, hd, hm, List.getD_cons_succ]

end Bitmap

namespace Layout

theorem make_eq_ok {pageSize tupleSize : Nat} {l : Layout} (h : make pageSize tupleSize = .ok l) :
    l.pageSize = pageSize ∧ l.tupleSize = tupleSize := by
  unfold make at h
  split at h
  · cases h
  · split at h
    · cases h
    · split at h
      · cases h; exact ⟨rfl, rfl⟩
      · cases h

/-- Every layout is the one that is made from its sizes. -/
theorem make_sizes (l : Layout) : make l.pageSize l.tupleSize = .ok l := by
  have := l.page_le
  have := l.tuple_pos
  have := l.fits
  unfold make
  rw [dif_neg (by omega), dif_neg (by omega), dif_pos l.fits]

theorem pageSize_pos (l : Layout) : 0 < l.pageSize := by
  have := l.fits
  omega

theorem numSlots_le (l : Layout) : l.numSlots ≤ 8 * l.headerSize := by
  unfold headerSize
  omega

/-- The slots, with the bitmap before them, lie within the page. -/
theorem numSlots_pos (l : Layout) : 0 < l.numSlots := Nat.div_pos l.fits (Nat.succ_pos _)

theorem slotOffset_numSlots_le (l : Layout) : l.slotOffset l.numSlots ≤ l.pageSize := by
  have h : l.numSlots * (8 * l.tupleSize + 1) ≤ 8 * l.pageSize := Nat.div_mul_le_self _ _
  rw [Nat.mul_add, Nat.mul_left_comm] at h
  unfold slotOffset headerSize
  omega

end Layout

namespace Page

/-- The values in a slot. -/
def row (p : Page) (slot : Nat) : Option (List Value) := (p.tuple? slot).map (·.values)

structure Sound (p : Page) : Prop where
  sized : p.layout.tupleSize = p.schema.tupleSize
  header : p.header.length = p.layout.headerSize
  slots : p.slots.length = p.layout.numSlots
  bit : ∀ i < p.layout.numSlots, Bitmap.test p.header i = (p.tuple? i).isSome
  types : ∀ i t, p.tuple? i = some t → t.schema.types = p.schema.types
  placed : ∀ i t, p.tuple? i = some t → t.rid = some ⟨p.id, i⟩

/-- The same header, and the same values in every slot. -/
structure SameRows (p q : Page) : Prop where
  header : p.header = q.header
  row : ∀ i, p.row i = q.row i

/-- Two pages that differ at most in the field names of their tuples. -/
structure Alike (p q : Page) : Prop extends SameRows p q where
  id : p.id = q.id
  schema : p.schema = q.schema
  layout : p.layout = q.layout
  dirtiedBy : p.dirtiedBy = q.dirtiedBy
  before : p.beforeBytes = q.beforeBytes

theorem SameRows.refl (p : Page) : SameRows p p := ⟨rfl, fun _ => rfl⟩

theorem SameRows.symm {p q : Page} (h : SameRows p q) : SameRows q p :=
  ⟨h.header.symm, fun i => (h.row i).symm⟩

theorem SameRows.trans {p q r : Page} (h : SameRows p q) (h' : SameRows q r) : SameRows p r :=
  ⟨h.header.trans h'.header, fun i => (h.row i).trans (h'.row i)⟩

theorem Alike.refl (p : Page) : Alike p p := ⟨.refl p, rfl, rfl, rfl, rfl, rfl⟩

theorem Alike.symm {p q : Page} (h : Alike p q) : Alike q p :=
  ⟨h.toSameRows.symm, h.id.symm, h.schema.symm, h.layout.symm, h.dirtiedBy.symm, h.before.symm⟩

theorem Alike.trans {p q r : Page} (h : Alike p q) (h' : Alike q r) : Alike p r :=
  ⟨h.toSameRows.trans h'.toSameRows, h.id.trans h'.id, h.schema.trans h'.schema,
    h.layout.trans h'.layout, h.dirtiedBy.trans h'.dirtiedBy, h.before.trans h'.before⟩

theorem isSome_row (p : Page) (i : Nat) : (p.row i).isSome = (p.tuple? i).isSome := by
  simp [row]

theorem tuple?_eq_none_of_le {p : Page} {i : Nat} (h : p.slots.length ≤ i) : p.tuple? i = none := by
  simp [tuple?, List.getElem?_eq_none h]

/-! ### From bytes to a page -/

theorem decodeSlots_eq_ok {id : PageId} {s : Schema} {slot : Nat} {used : List Bool} {body : Bytes}
    {slots : List (Option Tuple)} (h : decodeSlots id s slot used body = .ok slots) :
    slots.map Option.isSome = used ∧
      ∀ (i : Nat) (t : Tuple), slots[i]?.join = some t →
        t.schema = s ∧ t.rid = some ⟨id, slot + i⟩ := by
  induction used generalizing slot body slots with
  | nil => cases h; simp
  | cons u used ih =>
    unfold decodeSlots at h
    -- the slots that follow, whatever this one holds
    have next : ∀ o, (o : Option Tuple).isSome = u →
        (∀ t, o = some t → t.schema = s ∧ t.rid = some ⟨id, slot⟩) →
        (decodeSlots id s (slot + 1) used (body.drop s.tupleSize)).map (o :: ·) = .ok slots →
        slots.map Option.isSome = u :: used ∧
          ∀ (i : Nat) (t : Tuple), slots[i]?.join = some t →
            t.schema = s ∧ t.rid = some ⟨id, slot + i⟩ := by
      intro o ho ht hr
      cases hd : decodeSlots id s (slot + 1) used (body.drop s.tupleSize) with
      | error e => rw [hd] at hr; cases hr
      | ok rest =>
        rw [hd] at hr
        cases hr
        obtain ⟨hused, hrest⟩ := ih hd
        refine ⟨by simp [ho, hused], fun i t hi => ?_⟩
        cases i with
        | zero => exact ht t (by simpa using hi)
        | succ i =>
          have := hrest i t (by simpa using hi)
          rwa [Nat.add_right_comm, Nat.add_assoc] at this
    split at h
    · next hu =>
      split at h
      · cases h
      · next t hd =>
        refine next _ (by simp [hu]) (fun t' ht' => ?_) h
        cases ht'
        exact ⟨(Tuple.schema_of_decode hd).1, rfl⟩
    · next hu => exact next none (by simpa using hu) (fun t ht => by cases ht) h

theorem sound_of_ofBytes {id : PageId} {s : Schema} {pageSize : Nat} {data : Bytes} {p : Page}
    (h : ofBytes id s pageSize data = .ok p) :
    p.Sound ∧ p.id = id ∧ p.schema = s ∧ p.layout.pageSize = pageSize ∧ p.dirtiedBy = none ∧
      p.beforeBytes = data := by
  unfold ofBytes at h
  split at h
  · cases h
  · next layout hl =>
    obtain ⟨hps, hts⟩ := Layout.make_eq_ok hl
    split at h
    · cases h
    · next hlen =>
      simp only at h
      split at h
      · cases h
      · next slots hd =>
        cases h
        obtain ⟨hused, ht⟩ := decodeSlots_eq_ok hd
        have hoff := layout.slotOffset_numSlots_le
        have hhead : (data.take layout.headerSize).length = layout.headerSize := by
          rw [List.length_take]
          unfold Layout.slotOffset at hoff
          omega
        have hbits : ∀ i < layout.numSlots,
            slots[i]?.map Option.isSome = some (Bitmap.test (data.take layout.headerSize) i) := by
          intro i hi
          have := layout.numSlots_le
          rw [← List.getElem?_map, hused, List.getElem?_take_of_lt hi,
            Bitmap.getElem?_bits _ (by rw [hhead]; omega)]
        have hslots : slots.length = layout.numSlots := by
          have := congrArg List.length hused
          rw [List.length_map, List.length_take, Bitmap.length_bits, hhead] at this
          have := layout.numSlots_le
          omega
        refine ⟨⟨hts, hhead, hslots, fun i hi => ?_, fun i t hi => ?_, fun i t hi => ?_⟩,
          rfl, rfl, hps, rfl, rfl⟩
        · have hb := hbits i hi
          have hi' : i < slots.length := hslots.symm ▸ hi
          rw [List.getElem?_eq_getElem hi'] at hb
          simp only [Option.map_some, Option.some.injEq] at hb
          rw [← hb]
          simp [tuple?, List.getElem?_eq_getElem hi']
        · rw [(ht i t hi).1]
        · simpa using (ht i t hi).2

/-! ### From a page to bytes and back -/

theorem decodeSlots_slotBytes (id : PageId) (s : Schema) (slots : List (Option Tuple)) (slot : Nat)
    (rest : Bytes) (h : ∀ t, some t ∈ slots → t.schema.types = s.types) :
    ∃ slots', decodeSlots id s slot (slots.map Option.isSome)
        (slots.flatMap (slotBytes s.tupleSize) ++ rest) = .ok slots' ∧
      slots'.map (Option.map Tuple.values) = slots.map (Option.map Tuple.values) := by
  induction slots generalizing slot with
  | nil => exact ⟨[], rfl, rfl⟩
  | cons o slots ih =>
    obtain ⟨slots', hd, hv⟩ := ih (slot + 1) fun t ht => h t (List.mem_cons_of_mem _ ht)
    have hlen : (slotBytes s.tupleSize o).length = s.tupleSize := by
      cases o with
      | none => simp [slotBytes, zeros]
      | some t => simp [slotBytes, Tuple.length_bytes, h t List.mem_cons_self, Schema.tupleSize_eq]
    rw [List.flatMap_cons, List.append_assoc, List.map_cons]
    unfold decodeSlots
    rw [List.take_left' hlen, List.drop_left' hlen, hd]
    cases o with
    | none => exact ⟨none :: slots', rfl, by simp [hv]⟩
    | some t =>
      obtain ⟨u, hu, -, huv⟩ := t.decode_bytes (h t List.mem_cons_self)
      simp only [Option.isSome_some, if_true, slotBytes, hu]
      exact ⟨_, rfl, by simp [hv, huv, Tuple.withRid]⟩

namespace Sound

variable {p : Page}

theorem length_slot (h : p.Sound) {o : Option Tuple} (ho : o ∈ p.slots) :
    (slotBytes p.layout.tupleSize o).length = p.layout.tupleSize := by
  obtain ⟨i, hi⟩ := List.mem_iff_getElem?.1 ho
  cases o with
  | none => simp [slotBytes, zeros]
  | some t =>
    have ht := h.types i t (by simp [tuple?, hi])
    simp [slotBytes, Tuple.length_bytes, ht, h.sized, Schema.tupleSize_eq]

theorem length_slotBytes (h : p.Sound) :
    (p.slots.flatMap (slotBytes p.layout.tupleSize)).length = p.layout.numSlots * p.layout.tupleSize := by
  have each : ∀ o ∈ p.slots, (slotBytes p.layout.tupleSize o).length = p.layout.tupleSize :=
    fun o ho => h.length_slot ho
  rw [← h.slots]
  generalize p.slots = slots at each
  induction slots with
  | nil => simp
  | cons o slots ih =>
    rw [List.flatMap_cons, List.length_append, each o List.mem_cons_self,
      ih fun o ho => each o (List.mem_cons_of_mem _ ho), List.length_cons, Nat.add_one_mul,
      Nat.add_comm]

theorem length_toBytes (h : p.Sound) : p.toBytes.length = p.layout.pageSize := by
  have hoff := p.layout.slotOffset_numSlots_le
  unfold toBytes
  rw [List.length_append, List.length_append, h.header, h.length_slotBytes]
  simp only [zeros, List.length_replicate, Layout.padding]
  unfold Layout.slotOffset at hoff ⊢
  omega

theorem used_eq (h : p.Sound) :
    (Bitmap.bits p.header).take p.layout.numSlots = p.slots.map Option.isSome := by
  apply List.ext_getElem?
  intro i
  by_cases hi : i < p.layout.numSlots
  · have hlen := p.layout.numSlots_le
    have hs : i < p.slots.length := by rw [h.slots]; exact hi
    rw [List.getElem?_take_of_lt hi, Bitmap.getElem?_bits _ (by rw [h.header]; omega), h.bit i hi,
      List.getElem?_map, List.getElem?_eq_getElem hs]
    simp [tuple?, List.getElem?_eq_getElem hs]
  · rw [List.getElem?_eq_none (by rw [List.length_take]; omega),
      List.getElem?_eq_none (by rw [List.length_map, h.slots]; omega)]

/-- The bytes of a page decode to the same rows, also where its fields have other names. -/
theorem ofBytes_toBytes_of_types (h : p.Sound) {s : Schema} (hs : p.schema.types = s.types) :
    ∃ q, ofBytes p.id s p.layout.pageSize p.toBytes = .ok q ∧ q.SameRows p := by
  have htypes : ∀ t, some t ∈ p.slots → t.schema.types = s.types := by
    intro t ht
    obtain ⟨i, hi⟩ := List.mem_iff_getElem?.1 ht
    exact (h.types i t (by simp [tuple?, hi])).trans hs
  have hsized : p.layout.tupleSize = s.tupleSize := by
    rw [h.sized, Schema.tupleSize_eq, Schema.tupleSize_eq, hs]
  obtain ⟨slots, hd, hv⟩ := decodeSlots_slotBytes p.id s p.slots 0 (zeros p.layout.padding) htypes
  have hbytes : p.toBytes =
      p.header ++ (p.slots.flatMap (slotBytes p.layout.tupleSize) ++ zeros p.layout.padding) := by
    rw [toBytes, List.append_assoc]
  refine ⟨⟨p.id, s, p.layout, p.header, slots, none, p.toBytes⟩, ?_, rfl, fun i => ?_⟩
  · unfold ofBytes
    rw [← hsized, p.layout.make_sizes]
    simp only
    rw [if_neg (by rw [h.length_toBytes]; simp)]
    rw [hbytes, List.take_left' h.header, List.drop_left' h.header, h.used_eq, hsized, hd]
  · have := congrArg (fun l => l[i]?.join) hv
    simp only [List.getElem?_map] at this
    unfold row tuple?
    cases h1 : slots[i]? <;> cases h2 : p.slots[i]? <;> simp_all

/-- The bytes of a page decode to the same rows. -/
theorem ofBytes_toBytes (h : p.Sound) :
    ∃ q, ofBytes p.id p.schema p.layout.pageSize p.toBytes = .ok q ∧ q.SameRows p :=
  h.ofBytes_toBytes_of_types rfl

end Sound

end Page

end HeapStore
