import HeapStore.Proofs.PageChange

/-! The page format, both ways. The bytes of every page that was made and then changed through its
own calls decode to a page of the same rows and the same bytes. A byte string decodes to a page just
when it has the page's length and the texts in its used slots are UTF-8, and the page then gives the
string back with the free slots and the padding cleared. -/

namespace HeapStore

theorem Bitmap.test_take (b : Bytes) {n i : Nat} (h : i / 8 < n) : test (b.take n) i = test b i := by
  unfold test
  rw [List.getD_eq_getElem?_getD, List.getD_eq_getElem?_getD, List.getElem?_take_of_lt h]

namespace Layout

/-- The bytes of a slot. -/
def window (l : Layout) (b : Bytes) (slot : Nat) : Bytes := (b.drop (l.slotOffset slot)).take l.tupleSize

/-- Does a byte of a page lie in a free slot or in the padding? -/
def Blank (l : Layout) (data : Bytes) (j : Nat) : Prop :=
  (∃ slot < l.numSlots, Bitmap.test data slot = false ∧
    l.slotOffset slot ≤ j ∧ j < l.slotOffset (slot + 1)) ∨ l.slotOffset l.numSlots ≤ j

instance (l : Layout) (data : Bytes) (j : Nat) : Decidable (l.Blank data j) :=
  inferInstanceAs (Decidable (_ ∨ _))

/-- The bits of the slots. -/
def used (l : Layout) (data : Bytes) : List Bool := (Bitmap.bits (data.take l.headerSize)).take l.numSlots

section

variable {l : Layout} {data : Bytes}

theorem length_used (h : l.headerSize ≤ data.length) : (l.used data).length = l.numSlots := by
  have := l.numSlots_le
  rw [used, List.length_take, Bitmap.length_bits, List.length_take]
  omega

theorem getElem?_used (h : l.headerSize ≤ data.length) {slot : Nat} (hs : slot < l.numSlots) :
    (l.used data)[slot]? = some (Bitmap.test data slot) := by
  have := l.numSlots_le
  rw [used, List.getElem?_take_of_lt hs, Bitmap.getElem?_bits _ (by rw [List.length_take]; omega),
    Bitmap.test_take _ (by omega)]

theorem not_blank_of_lt_headerSize {j : Nat} (hj : j < l.headerSize) : ¬ l.Blank data j := by
  unfold Blank slotOffset
  intro hb
  rcases hb with ⟨slot, -, -, hle, -⟩ | hle <;> omega

/-- The slot that a byte behind the bitmap is counted to, be it one of the page's or not. -/
theorem div_tupleSize_eq_iff {j slot : Nat} (hj : l.headerSize ≤ j) :
    (j - l.headerSize) / l.tupleSize = slot ↔ l.slotOffset slot ≤ j ∧ j < l.slotOffset (slot + 1) := by
  rw [Nat.div_eq_iff l.tuple_pos]
  unfold slotOffset
  rw [Nat.add_one_mul]
  have hpos := l.tuple_pos
  omega

theorem blank_iff {j : Nat} (hj : l.headerSize ≤ j) (hlt : j < l.slotOffset l.numSlots) :
    l.Blank data j ↔ Bitmap.test data ((j - l.headerSize) / l.tupleSize) = false := by
  constructor
  · intro hb
    rcases hb with ⟨slot, -, hfree, hle, hnext⟩ | hpad
    · rwa [(div_tupleSize_eq_iff hj).2 ⟨hle, hnext⟩]
    · omega
  · intro hfree
    obtain ⟨hle, hnext⟩ := (div_tupleSize_eq_iff hj).1 rfl
    refine .inl ⟨_, ?_, hfree, hle, hnext⟩
    rw [Nat.div_lt_iff_lt_mul l.tuple_pos]
    unfold slotOffset at hlt
    omega

end

end Layout

namespace Page

/-! ### Changes to a page -/

inductive Call where
  | insert (t : Tuple)
  | delete (t : Tuple)
  | mark (dirty : Bool) (txn : TxnId)
  | snapshot
  /-- Takes these bytes as the stored ones. -/
  | stored (data : Bytes)
  deriving DecidableEq, Repr

def call (p : Page) : Call → Page
  | .insert t => (p.insert t).2.2
  | .delete t => (p.delete t).2
  | .mark dirty txn => p.markDirty dirty txn
  | .snapshot => p.snapshot
  | .stored data => p.withBefore data

def after (p : Page) (calls : List Call) : Page := calls.foldl call p

theorem after_append (p : Page) (calls calls' : List Call) :
    p.after (calls ++ calls') = (p.after calls).after calls' := List.foldl_append ..

/-- What every call keeps holds after all of them. -/
theorem after_of_call {P : Page → Prop} (hcall : ∀ p c, P p → P (call p c)) {p : Page} (hp : P p)
    (calls : List Call) : P (p.after calls) := by
  induction calls generalizing p with
  | nil => exact hp
  | cons c calls ih => exact ih (hcall p c hp)

/-- What no call on a page changes. -/
structure Kind (p : Page) (id : PageId) (s : Schema) (pageSize : Nat) : Prop where
  sound : p.Sound
  id : p.id = id
  schema : p.schema = s
  pageSize : p.layout.pageSize = pageSize

section

variable {p q : Page} {id : PageId} {s : Schema} {pageSize : Nat}

theorem Kind.insert (h : p.Kind id s pageSize) (t : Tuple) : (p.insert t).2.2.Kind id s pageSize := by
  have hs := h.sound.insert t
  rcases p.insert_cases t with ⟨e, he⟩ | ⟨slot, -, -, -, he⟩ <;>
  · rw [he] at hs ⊢
    exact ⟨hs, h.id, h.schema, h.pageSize⟩

theorem Kind.delete (h : p.Kind id s pageSize) (t : Tuple) : (p.delete t).2.Kind id s pageSize := by
  have hs := h.sound.delete t
  rcases p.delete_cases t with ⟨e, he⟩ | ⟨slot, -, -, he⟩ <;>
  · rw [he] at hs ⊢
    exact ⟨hs, h.id, h.schema, h.pageSize⟩

theorem Kind.call (h : p.Kind id s pageSize) (c : Call) : (p.call c).Kind id s pageSize := by
  cases c with
  | insert t => exact h.insert t
  | delete t => exact h.delete t
  | mark dirty txn => exact ⟨h.sound.markDirty dirty txn, h.id, h.schema, h.pageSize⟩
  | snapshot => exact ⟨h.sound.withBefore _, h.id, h.schema, h.pageSize⟩
  | stored data => exact ⟨h.sound.withBefore _, h.id, h.schema, h.pageSize⟩

theorem Kind.after (h : p.Kind id s pageSize) (calls : List Call) : (p.after calls).Kind id s pageSize :=
  after_of_call (P := fun p => p.Kind id s pageSize) (fun _ c hp => hp.call c) h calls

theorem id_call (p : Page) (c : Call) : (p.call c).id = p.id := by
  cases c with
  | insert t =>
    rcases p.insert_cases t with ⟨e, he⟩ | ⟨slot, -, -, -, he⟩
    · simp only [call, he]
    · simp only [call, he]
      rfl
  | delete t =>
    rcases p.delete_cases t with ⟨e, he⟩ | ⟨slot, -, -, he⟩
    · simp only [call, he]
    · simp only [call, he]
      rfl
  | mark dirty txn => cases dirty <;> rfl
  | snapshot => rfl
  | stored data => rfl

theorem kind_of_ofBytes {data : Bytes} (h : ofBytes id s pageSize data = .ok p) :
    p.Kind id s pageSize := by
  obtain ⟨hs, hid, hschema, hsize, -⟩ := sound_of_ofBytes h
  exact ⟨hs, hid, hschema, hsize⟩

theorem kind_of_empty (h : empty id s pageSize = .ok p) : p.Kind id s pageSize := by
  unfold empty at h
  split at h
  · cases h
  · exact kind_of_ofBytes h

/-- The page was made empty or from bytes, and then changed by its own calls only. -/
def Made (p : Page) : Prop :=
  ∃ id s pageSize q calls, (empty id s pageSize = .ok q ∨ ∃ data, ofBytes id s pageSize data = .ok q) ∧
    p = q.after calls

theorem Made.sound (h : p.Made) : p.Sound := by
  obtain ⟨id, s, pageSize, q, calls, hq, rfl⟩ := h
  have hk : q.Kind id s pageSize := by
    rcases hq with hq | ⟨data, hq⟩
    · exact kind_of_empty hq
    · exact kind_of_ofBytes hq
  exact (hk.after calls).sound

/-! ### From a page to bytes and back -/

/-- What is stored in a slot: the values and the record id. -/
def entry (p : Page) (slot : Nat) : Option (List Value × Option RecordId) :=
  (p.tuple? slot).map fun t => (t.values, t.rid)

theorem SameRows.entry_eq (h : p.SameRows q) (hp : p.Sound) (hq : q.Sound) (hid : p.id = q.id)
    (slot : Nat) : p.entry slot = q.entry slot := by
  have hrow := h.row slot
  unfold Page.row at hrow
  unfold entry
  cases ht : p.tuple? slot with
  | none => cases hu : q.tuple? slot with
    | none => rfl
    | some u => simp [ht, hu] at hrow
  | some t => cases hu : q.tuple? slot with
    | none => simp [ht, hu] at hrow
    | some u =>
      have hv : t.values = u.values := by simpa [ht, hu] using hrow
      simp [hv, hp.placed slot t ht, hq.placed slot u hu, hid]

theorem Kind.ofBytes_toBytes (h : p.Kind id s pageSize) : p.toBytes.length = pageSize ∧
    ∃ q, ofBytes id s pageSize p.toBytes = .ok q ∧ q.header = p.header ∧
      (∀ slot, q.isSlotUsed slot = p.isSlotUsed slot) ∧ (∀ slot, q.entry slot = p.entry slot) ∧
      q.toBytes = p.toBytes := by
  refine ⟨by rw [h.sound.length_toBytes, h.pageSize], ?_⟩
  obtain ⟨q, hq, hrows⟩ := h.sound.ofBytes_toBytes
  rw [h.id, h.schema, h.pageSize] at hq
  have hk := kind_of_ofBytes hq
  have hlayout : q.layout = p.layout := by
    have hmade := q.layout.make_sizes
    rw [hk.pageSize, hk.sound.sized, hk.schema] at hmade
    have hmade' := p.layout.make_sizes
    rw [h.pageSize, h.sound.sized, h.schema, hmade] at hmade'
    exact Except.ok.inj hmade'
  refine ⟨q, hq, hrows.header, fun slot => ?_, ?_, ?_⟩
  · rw [hk.sound.isSlotUsed, h.sound.isSlotUsed, ← isSome_row, ← isSome_row, hrows.row]
  · exact hrows.entry_eq hk.sound h.sound (hk.id.trans h.id.symm)
  · -- the mark and the stored image leave no trace in the bytes
    have halike : q.Alike (({ p with dirtiedBy := q.dirtiedBy } : Page).withBefore q.beforeBytes) :=
      ⟨⟨hrows.header, hrows.row⟩, hk.id.trans h.id.symm, hk.schema.trans h.schema.symm, hlayout, rfl, rfl⟩
    exact halike.toBytes_eq hk.sound ⟨h.sound.sized, h.sound.header, h.sound.slots, h.sound.bit,
      h.sound.types, h.sound.placed⟩

end

/-! ### From bytes to a page and back -/

section

variable {id : PageId} {s : Schema} {slot : Nat} {used : List Bool} {body : Bytes}

theorem decodeSlots_eq_ok_iff (h : used.length * s.tupleSize ≤ body.length) :
    (∃ slots, decodeSlots id s slot used body = .ok slots) ↔
      ∀ i, used[i]? = some true → TextsValid s.types ((body.drop (i * s.tupleSize)).take s.tupleSize) := by
  induction used generalizing slot body with
  | nil => simp [decodeSlots]
  | cons u used ih =>
    rw [List.length_cons, Nat.add_one_mul] at h
    have ih := @ih (slot + 1) (body.drop s.tupleSize) (by rw [List.length_drop]; omega)
    have shift (i : Nat) : (body.drop s.tupleSize).drop (i * s.tupleSize) =
        body.drop ((i + 1) * s.tupleSize) := by
      rw [List.drop_drop, Nat.add_one_mul, Nat.add_comm]
    have hfirst : s.tupleSize ≤ (body.take s.tupleSize).length := by
      rw [List.length_take]
      omega
    have hmap (o : Option Tuple) : (∃ slots, (decodeSlots id s (slot + 1) used
          (body.drop s.tupleSize)).map (o :: ·) = .ok slots) ↔
        ∃ slots, decodeSlots id s (slot + 1) used (body.drop s.tupleSize) = .ok slots := by
      cases decodeSlots id s (slot + 1) used (body.drop s.tupleSize) <;> simp [Except.map]
    have hsplit : (∀ i, (u :: used)[i]? = some true →
          TextsValid s.types ((body.drop (i * s.tupleSize)).take s.tupleSize)) ↔
        (u = true → TextsValid s.types (body.take s.tupleSize)) ∧
          ∃ slots, decodeSlots id s (slot + 1) used (body.drop s.tupleSize) = .ok slots := by
      rw [ih]
      simp only [shift]
      constructor
      · intro hall
        exact ⟨fun hu => by simpa using hall 0 (by simp [hu]), fun i hi => hall (i + 1) (by simpa using hi)⟩
      · intro ⟨hhead, htail⟩ i hi
        cases i with
        | zero => simpa using hhead (by simpa using hi)
        | succ i => exact htail i (by simpa using hi)
    rw [hsplit, ← Tuple.decode_eq_ok_iff hfirst, decodeSlots]
    cases u with
    | false => simpa using hmap none
    | true =>
      simp only [if_true, forall_const]
      cases hd : (Tuple.decode s (body.take s.tupleSize)).1 with
      | error e => simp
      | ok t => simpa using hmap (some (t.withRid (some ⟨id, slot⟩)))

/-- The bytes of the decoded slots are those they were read from, where a slot is used. -/
theorem getD_slotBytes {slots : List (Option Tuple)} (h : decodeSlots id s slot used body = .ok slots)
    (hlen : used.length * s.tupleSize ≤ body.length) {j : Nat} (hj : j < used.length * s.tupleSize) :
    (slots.flatMap (slotBytes s.tupleSize)).getD j 0 =
      if used.getD (j / s.tupleSize) false then body.getD j 0 else 0 := by
  have hpos := s.tupleSize_pos
  induction used generalizing slot body slots j with
  | nil => simp at hj
  | cons u used ih =>
    rw [List.length_cons, Nat.add_one_mul] at hlen hj
    -- one slot is read, and the others follow it
    have next : ∀ o, (slotBytes s.tupleSize o).length = s.tupleSize →
        (∀ k < s.tupleSize, (slotBytes s.tupleSize o).getD k 0 = if u then body.getD k 0 else 0) →
        (decodeSlots id s (slot + 1) used (body.drop s.tupleSize)).map (o :: ·) = .ok slots →
        (slots.flatMap (slotBytes s.tupleSize)).getD j 0 =
          if (u :: used).getD (j / s.tupleSize) false then body.getD j 0 else 0 := by
      intro o hwidth hfirst hr
      cases hd : decodeSlots id s (slot + 1) used (body.drop s.tupleSize) with
      | error e => rw [hd] at hr; cases hr
      | ok rest =>
        rw [hd] at hr
        cases hr
        rw [List.flatMap_cons, List.getD_eq_getElem?_getD]
        by_cases hk : j < s.tupleSize
        · rw [List.getElem?_append_left (by omega), ← List.getD_eq_getElem?_getD, hfirst j hk,
            Nat.div_eq_of_lt hk]
          rfl
        · have hdiv : j / s.tupleSize = (j - s.tupleSize) / s.tupleSize + 1 := by
            rw [← Nat.add_div_right _ hpos]
            congr 1
            omega
          rw [List.getElem?_append_right (by omega), hwidth, ← List.getD_eq_getElem?_getD,
            ih hd (by rw [List.length_drop]; omega) (by omega), hdiv, List.getD_cons_succ]
          have hbody : (body.drop s.tupleSize).getD (j - s.tupleSize) 0 = body.getD j 0 := by
            rw [List.getD_eq_getElem?_getD, List.getElem?_drop, ← List.getD_eq_getElem?_getD]
            congr 1
            omega
          rw [hbody]
    unfold decodeSlots at h
    split at h
    · next hu =>
      split at h
      · cases h
      · next t hd =>
        have hbytes : slotBytes s.tupleSize (some (t.withRid (some ⟨id, slot⟩))) =
            body.take s.tupleSize := by
          have := Tuple.bytes_of_decode hd
          rwa [List.take_take, Nat.min_self] at this
        refine next _ ?_ ?_ h
        · rw [hbytes, List.length_take]
          omega
        · intro k hk
          rw [hbytes, if_pos hu, List.getD_eq_getElem?_getD, List.getElem?_take_of_lt hk,
            List.getD_eq_getElem?_getD]
    · next hu =>
      refine next none (by simp [slotBytes, zeros]) ?_ h
      intro k hk
      rw [if_neg hu]
      simp [slotBytes, zeros, List.getD_eq_getElem?_getD, hk]

end

section

variable {id : PageId} {s : Schema} {pageSize : Nat} {layout : Layout} {data : Bytes} {p : Page}

theorem ofBytes_eq (hl : Layout.make pageSize s.tupleSize = .ok layout) (hlen : data.length = pageSize) :
    ofBytes id s pageSize data =
      (decodeSlots id s 0 (layout.used data) (data.drop layout.headerSize)).map fun slots =>
        ⟨id, s, layout, data.take layout.headerSize, slots, none, data⟩ := by
  unfold ofBytes
  simp only [hl, hlen, ne_eq, not_true_eq_false, if_false]
  rw [Layout.used]
  split
  · next e he => rw [he]; rfl
  · next slots hd => rw [hd]; rfl

theorem room (hl : Layout.make pageSize s.tupleSize = .ok layout) (hlen : data.length = pageSize) :
    layout.headerSize ≤ data.length ∧
      (layout.used data).length * s.tupleSize ≤ (data.drop layout.headerSize).length := by
  obtain ⟨hsize, htuple⟩ := Layout.make_eq_ok hl
  have hoff := layout.slotOffset_numSlots_le
  unfold Layout.slotOffset at hoff
  have hhead : layout.headerSize ≤ data.length := by omega
  rw [Layout.length_used hhead, List.length_drop, ← htuple]
  omega

theorem length_of_ofBytes (h : ofBytes id s pageSize data = .ok p) : data.length = pageSize := by
  unfold ofBytes at h
  split at h
  · cases h
  · split at h
    · cases h
    · next hlen => exact Decidable.not_not.1 hlen

theorem ofBytes_eq_ok_iff (hl : Layout.make pageSize s.tupleSize = .ok layout) :
    (∃ p, ofBytes id s pageSize data = .ok p) ↔ data.length = pageSize ∧
      ∀ slot < layout.numSlots, Bitmap.test data slot = true →
        TextsValid s.types (layout.window data slot) := by
  have key (hlen : data.length = pageSize) : (∃ p, ofBytes id s pageSize data = .ok p) ↔
      ∀ slot < layout.numSlots, Bitmap.test data slot = true →
        TextsValid s.types (layout.window data slot) := by
    obtain ⟨hhead, hroom⟩ := room hl hlen
    obtain ⟨-, htuple⟩ := Layout.make_eq_ok hl
    have hmap : (∃ p, ofBytes id s pageSize data = .ok p) ↔
        ∃ slots, decodeSlots id s 0 (layout.used data) (data.drop layout.headerSize) = .ok slots := by
      rw [ofBytes_eq hl hlen]
      cases decodeSlots id s 0 (layout.used data) (data.drop layout.headerSize) <;> simp [Except.map]
    rw [hmap, decodeSlots_eq_ok_iff hroom]
    have hwindow (slot : Nat) : ((data.drop layout.headerSize).drop (slot * s.tupleSize)).take s.tupleSize =
        layout.window data slot := by
      rw [List.drop_drop, Layout.window, Layout.slotOffset, htuple]
    simp only [hwindow]
    refine forall_congr' fun slot => ?_
    by_cases hs : slot < layout.numSlots
    · simp [Layout.getElem?_used hhead hs, hs]
    · have hnone : (layout.used data)[slot]? = none := by
        rw [List.getElem?_eq_none_iff, Layout.length_used hhead]
        omega
      simp [hnone, hs]
  constructor
  · intro ⟨p, hp⟩
    exact ⟨length_of_ofBytes hp, (key (length_of_ofBytes hp)).1 ⟨p, hp⟩⟩
  · intro ⟨hlen, hvalid⟩
    exact (key hlen).2 hvalid

theorem getD_toBytes (hl : Layout.make pageSize s.tupleSize = .ok layout)
    (h : ofBytes id s pageSize data = .ok p) (j : Nat) :
    p.toBytes.getD j 0 = if layout.Blank data j then 0 else data.getD j 0 := by
  have hlen := length_of_ofBytes h
  obtain ⟨hhead, hroom⟩ := room hl hlen
  obtain ⟨hsize, htuple⟩ := Layout.make_eq_ok hl
  have hk := (kind_of_ofBytes h).sound
  have hslots := hk.length_slotBytes
  rw [ofBytes_eq hl hlen] at h
  cases hd : decodeSlots id s 0 (layout.used data) (data.drop layout.headerSize) with
  | error e => rw [hd] at h; cases h
  | ok slots =>
    rw [hd] at h
    cases h
    have hheader : (data.take layout.headerSize).length = layout.headerSize := hk.header
    have hoff : layout.slotOffset layout.numSlots = layout.headerSize + layout.numSlots * layout.tupleSize := rfl
    simp only [toBytes, List.append_assoc, List.getD_eq_getElem?_getD] at hslots ⊢
    by_cases hhdr : j < layout.headerSize
    · rw [if_neg (Layout.not_blank_of_lt_headerSize hhdr), List.getElem?_append_left (by omega),
        List.getElem?_take_of_lt hhdr]
    · rw [List.getElem?_append_right (by omega), hheader]
      by_cases hslot : j < layout.slotOffset layout.numSlots
      · have hin : j - layout.headerSize < (layout.used data).length * s.tupleSize := by
          rw [Layout.length_used hhead, ← htuple]
          omega
        have hbyte := getD_slotBytes hd hroom hin
        have hnum : (j - layout.headerSize) / s.tupleSize < layout.numSlots := by
          rwa [Nat.div_lt_iff_lt_mul s.tupleSize_pos, ← Layout.length_used hhead]
        rw [List.getD_eq_getElem?_getD, List.getD_eq_getElem?_getD, List.getD_eq_getElem?_getD,
          Layout.getElem?_used hhead hnum, List.getElem?_drop, ← htuple] at hbyte
        have hblank : layout.Blank data j ↔
            Bitmap.test data ((j - layout.headerSize) / layout.tupleSize) = false :=
          Layout.blank_iff (Nat.not_lt.1 hhdr) hslot
        rw [List.getElem?_append_left (by omega), hbyte, Nat.add_sub_cancel' (Nat.not_lt.1 hhdr)]
        simp only [Option.getD_some, hblank]
        cases Bitmap.test data ((j - layout.headerSize) / layout.tupleSize) <;> simp
      · rw [List.getElem?_append_right (by omega), if_pos (.inr (by omega))]
        simp only [zeros, List.getElem?_replicate]
        split <;> rfl

end

/-- A page that was made and then changed by any calls goes to bytes and back; bytes go to a page
and back, where they are those of a page. -/
theorem format_round_trip (id : PageId) (s : Schema) (pageSize : Nat) :
    (∀ p, (empty id s pageSize = .ok p ∨ ∃ data, ofBytes id s pageSize data = .ok p) →
      ∀ calls, (p.after calls).toBytes.length = pageSize ∧
        ∃ q, ofBytes id s pageSize (p.after calls).toBytes = .ok q ∧
          q.header = (p.after calls).header ∧
          (∀ slot, q.isSlotUsed slot = (p.after calls).isSlotUsed slot) ∧
          (∀ slot, q.entry slot = (p.after calls).entry slot) ∧
          q.toBytes = (p.after calls).toBytes) ∧
    (∀ layout, Layout.make pageSize s.tupleSize = .ok layout → ∀ data,
      ((∃ p, ofBytes id s pageSize data = .ok p) ↔ data.length = pageSize ∧
        ∀ slot < layout.numSlots, Bitmap.test data slot = true →
          TextsValid s.types (layout.window data slot)) ∧
      ∀ p, ofBytes id s pageSize data = .ok p → p.toBytes.length = pageSize ∧
        ∀ j, p.toBytes.getD j 0 = if layout.Blank data j then 0 else data.getD j 0) := by
  refine ⟨fun p hp calls => ?_, fun layout hl data => ⟨ofBytes_eq_ok_iff hl, fun p hp => ⟨?_, getD_toBytes hl hp⟩⟩⟩
  · have hk : p.Kind id s pageSize := by
      rcases hp with hp | ⟨data, hp⟩
      · exact kind_of_empty hp
      · exact kind_of_ofBytes hp
    exact (hk.after calls).ofBytes_toBytes
  · have hk := kind_of_ofBytes hp
    rw [hk.sound.length_toBytes, hk.pageSize]

/-! ### A page with rubbish on it -/

def noteSchema : Schema := ⟨[⟨.int, "n"⟩, ⟨.text 3, "note"⟩], by decide, by decide, by decide⟩

def noteId : PageId := ⟨1, 0⟩

/-- Room for two notes. The first slot is used and its text has a NUL inside; the bits that stand for
no slot, the free slot and the padding hold rubbish. -/
def rubbish : Bytes := [0xFD, 0, 0, 0, 5, 0x61, 0, 0x62, 1, 2, 3, 4, 5, 6, 7, 9]

def note (n : Int32) (slot : Nat) : Tuple :=
  ⟨noteSchema, [.int n, .text "a\x00b"], some ⟨noteId, slot⟩, ⟨trivial, by decide, trivial⟩⟩

def rubbishPage : Page :=
  ⟨noteId, noteSchema, ⟨16, 7, by decide, by decide, by decide⟩, [0xFD], [some (note 5 0), none], none, rubbish⟩

theorem format_round_trip_rubbish :
    ofBytes noteId noteSchema 16 rubbish = .ok rubbishPage ∧
      (∃ q, ofBytes noteId noteSchema 16 (rubbishPage.after [.insert (note 6 0), .mark true ⟨7⟩]).toBytes = .ok q ∧
        q.entry 1 = some ([.int 6, .text "a\x00b"], some ⟨noteId, 1⟩)) ∧
      rubbishPage.toBytes.getD 7 0 = 0x62 ∧ rubbishPage.toBytes.getD 8 0 = 0 := by
  have hp : ofBytes noteId noteSchema 16 rubbish = .ok rubbishPage := by
    have : (ofBytes noteId noteSchema 16 rubbish).toOption = some rubbishPage := by decide +kernel
    cases h : ofBytes noteId noteSchema 16 rubbish with
    | error e => rw [h] at this; cases this
    | ok p => rw [h] at this; exact congrArg Except.ok (Option.some.inj this)
  have h := format_round_trip noteId noteSchema 16
  obtain ⟨-, q, hq, -, -, hentry, -⟩ := h.1 rubbishPage (.inr ⟨rubbish, hp⟩) [.insert (note 6 0), .mark true ⟨7⟩]
  have hback := ((h.2 rubbishPage.layout rubbishPage.layout.make_sizes rubbish).2 rubbishPage hp).2
  refine ⟨hp, ⟨q, hq, ?_⟩, ?_, ?_⟩
  · rw [hentry]
    decide +kernel
  · rw [hback]
    decide
  · rw [hback]
    decide

end Page

end HeapStore
