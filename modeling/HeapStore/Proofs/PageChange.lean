import HeapStore.Proofs.PageImage

/-! What inserts and deletes do to a page. Each fails and leaves the page alone or changes exactly
one slot together with its bit. Pages that are alike stay alike under the same change and give the
same answers. -/

namespace HeapStore

theorem Tuple.types_eq_of_typeMismatch? {i : Nat} {ts us : List FieldType}
    (hl : us.length = ts.length) (h : Tuple.typeMismatch? i ts us = none) : us = ts := by
  induction ts generalizing i us with
  | nil => exact List.length_eq_zero_iff.1 hl
  | cons t ts ih =>
    cases us with
    | nil => cases hl
    | cons u us =>
      unfold typeMismatch? at h
      split at h
      · next htu => rw [htu, ih (by simpa using hl) h]
      · cases h

theorem Tuple.typeMismatch?_self (i : Nat) (ts : List FieldType) : typeMismatch? i ts ts = none := by
  induction ts generalizing i with
  | nil => rfl
  | cons t ts ih => rw [typeMismatch?, if_pos rfl, ih]

/-- A tuple is refused for its field types, or else it has those of the schema. -/
theorem Tuple.checkSchema_cases (t : Tuple) (s : Schema) :
    (t.checkSchema s = .ok () ∧ t.schema.types = s.types) ∨
      ∃ m, t.checkSchema s = .error (.schemaMismatch m) ∧ t.schema.types ≠ s.types := by
  unfold checkSchema
  split
  · next hl =>
    refine .inr ⟨_, rfl, fun h => hl ?_⟩
    simpa [Schema.types] using congrArg List.length h
  · next hl =>
    split
    · next m hm =>
      refine .inr ⟨m, rfl, fun h => ?_⟩
      rw [h, typeMismatch?_self] at hm
      cases hm
    · next hm => exact .inl ⟨rfl, types_eq_of_typeMismatch? (by simpa [Schema.types] using hl) hm⟩

theorem Tuple.types_of_checkSchema {t : Tuple} {s : Schema} (h : t.checkSchema s = .ok ()) :
    t.schema.types = s.types := by
  rcases t.checkSchema_cases s with ⟨-, htypes⟩ | ⟨m, hc, -⟩
  · exact htypes
  · rw [hc] at h
    cases h

namespace Page

/-- The page with a slot filled or freed. -/
def setSlot (p : Page) (slot : Nat) (o : Option Tuple) : Page :=
  { p with
    header := Bitmap.set p.header slot o.isSome
    slots := p.slots.set slot o }

theorem tuple?_setSlot {p : Page} {slot : Nat} (h : slot < p.slots.length) (o : Option Tuple)
    (i : Nat) : (p.setSlot slot o).tuple? i = if i = slot then o else p.tuple? i := by
  unfold tuple? setSlot
  rw [List.getElem?_set]
  by_cases hi : i = slot
  · simp [hi, h]
  · simp [hi, Ne.symm hi]

theorem row_setSlot {p : Page} {slot : Nat} (h : slot < p.slots.length) (o : Option Tuple)
    (i : Nat) : (p.setSlot slot o).row i = if i = slot then o.map (·.values) else p.row i := by
  unfold row
  rw [tuple?_setSlot h]
  split <;> rfl

theorem insert_eq (p : Page) (t : Tuple) : p.insert t =
    match t.checkSchema p.schema with
    | .error e => (.error e, t, p)
    | .ok () =>
      match p.slots.findIdx? Option.isNone with
      | none => (.error .pageFull, t, p)
      | some slot => (.ok ⟨p.id, slot⟩, t.withRid (some ⟨p.id, slot⟩),
          p.setSlot slot (some (t.withRid (some ⟨p.id, slot⟩)))) := by
  unfold insert
  rfl

theorem delete_eq (p : Page) (t : Tuple) : p.delete t =
    match t.rid with
    | none => (.error (.tupleNotOnPage p.id .noRecordId), p)
    | some rid =>
      if rid.page ≠ p.id then (.error (.tupleNotOnPage p.id (.otherPage rid.page)), p)
      else if p.isSlotUsed rid.slot then (.ok (), p.setSlot rid.slot none)
      else (.error (.slotEmpty p.id rid.slot), p) := by
  unfold delete
  rfl

theorem tuple?_eq_getElem {p : Page} {i : Nat} (h : i < p.slots.length) : p.tuple? i = p.slots[i] := by
  rw [tuple?, List.getElem?_eq_getElem h, Option.join_some]

/-- All that can become of an insert: the tuple is refused, or no slot is free, or the lowest free slot
is filled. -/
theorem insert_outcome (p : Page) (t : Tuple) :
    (∃ m, t.schema.types ≠ p.schema.types ∧ p.insert t = (.error (.schemaMismatch m), t, p)) ∨
    (t.schema.types = p.schema.types ∧ (∀ i < p.slots.length, p.tuple? i ≠ none) ∧
      p.insert t = (.error .pageFull, t, p)) ∨
    ∃ slot, t.schema.types = p.schema.types ∧ slot < p.slots.length ∧ p.tuple? slot = none ∧
      (∀ i < slot, p.tuple? i ≠ none) ∧
      p.insert t = (.ok ⟨p.id, slot⟩, t.withRid (some ⟨p.id, slot⟩),
        p.setSlot slot (some (t.withRid (some ⟨p.id, slot⟩)))) := by
  rw [insert_eq]
  rcases t.checkSchema_cases p.schema with ⟨hc, htypes⟩ | ⟨m, hc, htypes⟩
  · rw [hc]
    cases hf : p.slots.findIdx? Option.isNone with
    | none =>
      refine .inr (.inl ⟨htypes, fun i hi => ?_, rfl⟩)
      have hused := List.findIdx?_eq_none_iff.1 hf p.slots[i] (List.getElem_mem hi)
      rw [tuple?_eq_getElem hi, Ne, ← Option.isNone_iff_eq_none, hused]
      exact Bool.false_ne_true
    | some slot =>
      obtain ⟨hlt, hnone, hused⟩ := List.findIdx?_eq_some_iff_getElem.1 hf
      refine .inr (.inr ⟨slot, htypes, hlt, ?_, fun i hi => ?_, rfl⟩)
      · rw [tuple?_eq_getElem hlt]
        simpa using hnone
      · rw [tuple?_eq_getElem (Nat.lt_trans hi hlt)]
        simpa using hused i hi
  · rw [hc]
    exact .inl ⟨m, htypes, rfl⟩

theorem insert_cases (p : Page) (t : Tuple) :
    (∃ e, p.insert t = (.error e, t, p)) ∨
    ∃ slot, t.schema.types = p.schema.types ∧ slot < p.slots.length ∧ p.tuple? slot = none ∧
      p.insert t = (.ok ⟨p.id, slot⟩, t.withRid (some ⟨p.id, slot⟩),
        p.setSlot slot (some (t.withRid (some ⟨p.id, slot⟩)))) := by
  rcases p.insert_outcome t with ⟨m, -, he⟩ | ⟨-, -, he⟩ | ⟨slot, htypes, hlt, hnone, -, he⟩
  · exact .inl ⟨_, he⟩
  · exact .inl ⟨_, he⟩
  · exact .inr ⟨slot, htypes, hlt, hnone, he⟩

/-- A page without tuples takes a tuple of its schema in its first slot. -/
theorem Sound.insert_of_empty {p : Page} {t : Tuple} (h : p.Sound) (hnone : ∀ i, p.tuple? i = none)
    (hc : t.checkSchema p.schema = .ok ()) : (p.insert t).1 = .ok ⟨p.id, 0⟩ := by
  have hpos : 0 < p.slots.length := h.slots ▸ p.layout.numSlots_pos
  rcases p.insert_outcome t with ⟨m, htypes, -⟩ | ⟨-, hused, -⟩ | ⟨slot, -, -, -, hused, he⟩
  · exact absurd (Tuple.types_of_checkSchema hc) htypes
  · exact absurd (hnone 0) (hused 0 hpos)
  · have hzero : slot = 0 := Nat.eq_zero_of_not_pos fun hpos => hused 0 hpos (hnone 0)
    rw [he, hzero]

theorem freeSlots_eq_zero_iff {p : Page} : p.freeSlots = 0 ↔ ∀ i < p.slots.length, p.tuple? i ≠ none := by
  rw [freeSlots, List.countP_eq_zero, List.forall_mem_iff_forall_getElem]
  refine forall_congr' fun i => forall_congr' fun hi => ?_
  rw [tuple?_eq_getElem hi, Option.isNone_iff_eq_none]

/-- An insert fails on a page with a free slot for other reasons than room. -/
theorem isPageFull_insert {p : Page} {t : Tuple} {err : Error} (hfree : p.freeSlots ≠ 0)
    (h : (p.insert t).1 = .error err) : err.isPageFull = false := by
  rcases p.insert_outcome t with ⟨m, -, he⟩ | ⟨-, hused, -⟩ | ⟨slot, -, -, -, -, he⟩
  · rw [he] at h
    cases h
    rfl
  · exact absurd (freeSlots_eq_zero_iff.2 hused) hfree
  · rw [he] at h
    cases h

theorem delete_cases (p : Page) (t : Tuple) :
    (∃ e, p.delete t = (.error e, p)) ∨
    ∃ slot, t.rid = some ⟨p.id, slot⟩ ∧ p.isSlotUsed slot = true ∧
      p.delete t = (.ok (), p.setSlot slot none) := by
  rw [delete_eq]
  split
  · exact .inl ⟨_, rfl⟩
  · next rid hr =>
    split
    · exact .inl ⟨_, rfl⟩
    · next hp =>
      split
      · next hu =>
        have : rid.page = p.id := Decidable.not_not.1 hp
        exact .inr ⟨rid.slot, by rw [hr, ← this], hu, rfl⟩
      · exact .inl ⟨_, rfl⟩

/-! ### Sound pages -/

namespace Sound

variable {p : Page}

theorem setSlot (h : p.Sound) {slot : Nat} (hs : slot < p.slots.length) {o : Option Tuple}
    (ho : ∀ t, o = some t → t.schema.types = p.schema.types ∧ t.rid = some ⟨p.id, slot⟩) :
    (p.setSlot slot o).Sound where
  sized := h.sized
  header := by rw [Page.setSlot, Bitmap.length_set]; exact h.header
  slots := by rw [Page.setSlot, List.length_set]; exact h.slots
  bit i hi := by
    have hlen := p.layout.numSlots_le
    rw [h.slots] at hs
    rw [tuple?_setSlot (by rw [h.slots]; exact hs), Page.setSlot]
    rw [Bitmap.test_set _ (by rw [h.header]; omega), h.bit i hi]
    split <;> rfl
  types i t ht := by
    rw [tuple?_setSlot hs] at ht
    split at ht
    · exact (ho t ht).1
    · exact h.types i t ht
  placed i t ht := by
    rw [tuple?_setSlot hs] at ht
    split at ht
    · next hi => rw [(ho t ht).2, hi]; rfl
    · exact h.placed i t ht

theorem markDirty (h : p.Sound) (on : Bool) (txn : TxnId) : (p.markDirty on txn).Sound :=
  ⟨h.sized, h.header, h.slots, h.bit, h.types, h.placed⟩

theorem withBefore (h : p.Sound) (data : Bytes) : (p.withBefore data).Sound :=
  ⟨h.sized, h.header, h.slots, h.bit, h.types, h.placed⟩

theorem insert (h : p.Sound) (t : Tuple) : (p.insert t).2.2.Sound := by
  rcases p.insert_cases t with ⟨e, he⟩ | ⟨slot, ht, hs, -, he⟩
  · rw [he]; exact h
  · rw [he]
    refine h.setSlot hs fun u hu => ?_
    cases hu
    exact ⟨ht, rfl⟩

theorem isSlotUsed (h : p.Sound) (slot : Nat) : p.isSlotUsed slot = (p.tuple? slot).isSome := by
  unfold Page.isSlotUsed
  by_cases hs : slot < p.layout.numSlots
  · simp [hs, h.bit slot hs]
  · simp [hs, tuple?_eq_none_of_le (show p.slots.length ≤ slot by rw [h.slots]; omega)]

theorem lt_of_isSlotUsed (h : p.Sound) {slot : Nat} (hu : p.isSlotUsed slot = true) :
    slot < p.slots.length := by
  unfold Page.isSlotUsed at hu
  simp only [Bool.and_eq_true, decide_eq_true_eq] at hu
  rw [h.slots]
  exact hu.1

theorem delete (h : p.Sound) (t : Tuple) : (p.delete t).2.Sound := by
  rcases p.delete_cases t with ⟨e, he⟩ | ⟨slot, -, hu, he⟩
  · rw [he]; exact h
  · rw [he]
    exact h.setSlot (h.lt_of_isSlotUsed hu) fun u hu => by cases hu

end Sound

/-! ### The next used slot -/

theorem nextUsedSlot_eq_some {p : Page} {start slot : Nat} (h : p.nextUsedSlot start = some slot) :
    start ≤ slot ∧ (p.tuple? slot).isSome = true ∧ ∀ i, start ≤ i → i < slot → p.tuple? i = none := by
  unfold nextUsedSlot at h
  obtain ⟨k, hk, rfl⟩ := Option.map_eq_some_iff.1 h
  obtain ⟨hlt, hsome, hbefore⟩ := List.findIdx?_eq_some_iff_getElem.1 hk
  rw [List.length_drop] at hlt
  rw [List.getElem_drop] at hsome
  refine ⟨Nat.le_add_right _ _, ?_, fun i hi hik => ?_⟩
  · rw [tuple?, List.getElem?_eq_getElem (by omega)]
    simpa using hsome
  · have := hbefore (i - start) (by omega)
    simp only [List.getElem_drop, show start + (i - start) = i by omega] at this
    rw [tuple?, List.getElem?_eq_getElem (by omega)]
    simpa using this

theorem nextUsedSlot_eq_none {p : Page} {start : Nat} (h : p.nextUsedSlot start = none) {i : Nat}
    (hi : start ≤ i) : p.tuple? i = none := by
  unfold nextUsedSlot at h
  rw [Option.map_eq_none_iff, List.findIdx?_eq_none_iff] at h
  by_cases hl : i < p.slots.length
  · have hmem : p.slots[i] ∈ p.slots.drop start := by
      rw [List.mem_drop_iff_getElem]
      exact ⟨i - start, by omega, by simp only [show start + (i - start) = i by omega]⟩
    rw [tuple?, List.getElem?_eq_getElem hl]
    simpa using h _ hmem
  · exact tuple?_eq_none_of_le (by omega)

/-! ### Pages that are alike -/

namespace Alike

variable {p q : Page}

theorem used_eq (h : p.Alike q) (hp : p.Sound) (hq : q.Sound) :
    p.slots.map Option.isSome = q.slots.map Option.isSome := by
  rw [← hp.used_eq, ← hq.used_eq, h.header, h.layout]

theorem toBytes_eq (h : p.Alike q) (hp : p.Sound) (hq : q.Sound) : p.toBytes = q.toBytes := by
  have hslots : p.slots.map (slotBytes p.layout.tupleSize) = q.slots.map (slotBytes p.layout.tupleSize) := by
    apply List.ext_getElem?
    intro i
    rw [List.getElem?_map, List.getElem?_map]
    by_cases hi : i < p.layout.numSlots
    · have hpl : i < p.slots.length := by rw [hp.slots]; exact hi
      have hql : i < q.slots.length := by rw [hq.slots, ← h.layout]; exact hi
      have hrow := h.row i
      have hpt := hp.types i
      have hqt := hq.types i
      simp only [row, tuple?, List.getElem?_eq_getElem hpl, List.getElem?_eq_getElem hql,
        Option.join_some] at hrow hpt hqt
      rw [List.getElem?_eq_getElem hpl, List.getElem?_eq_getElem hql]
      cases hpo : p.slots[i] with
      | none => cases hqo : q.slots[i] with
        | none => rfl
        | some u => rw [hpo, hqo] at hrow; cases hrow
      | some t => cases hqo : q.slots[i] with
        | none => rw [hpo, hqo] at hrow; cases hrow
        | some u =>
          rw [hpo, hqo] at hrow
          simp only [Option.map_some, Option.some.injEq, slotBytes] at hrow ⊢
          exact Tuple.bytes_congr (by rw [hpt t hpo, hqt u hqo, h.schema]) hrow
    · rw [List.getElem?_eq_none (by rw [hp.slots]; omega),
        List.getElem?_eq_none (by rw [hq.slots, ← h.layout]; omega)]
  unfold toBytes
  rw [List.flatMap_def, List.flatMap_def, hslots, h.header, h.layout]

theorem freeSlots_eq (h : p.Alike q) (hp : p.Sound) (hq : q.Sound) : p.freeSlots = q.freeSlots := by
  have count (r : Page) : r.freeSlots = (r.slots.map Option.isSome).countP (! ·) := by
    rw [freeSlots, List.countP_map]
    congr 1
    funext o
    cases o <;> rfl
  rw [count p, count q, h.used_eq hp hq]

theorem findFree_eq (h : p.Alike q) (hp : p.Sound) (hq : q.Sound) :
    p.slots.findIdx? Option.isNone = q.slots.findIdx? Option.isNone := by
  have find (r : Page) : r.slots.findIdx? Option.isNone =
      (r.slots.map Option.isSome).findIdx? (! ·) := by
    rw [List.findIdx?_map]
    congr 1
    funext o
    cases o <;> rfl
  rw [find p, find q, h.used_eq hp hq]

theorem nextUsedSlot_eq (h : p.Alike q) (hp : p.Sound) (hq : q.Sound) (start : Nat) :
    p.nextUsedSlot start = q.nextUsedSlot start := by
  have next (r : Page) : r.nextUsedSlot start =
      (((r.slots.map Option.isSome).drop start).findIdx? (·)).map (start + ·) := by
    rw [nextUsedSlot, ← List.map_drop, List.findIdx?_map]
    rfl
  rw [next p, next q, h.used_eq hp hq]

theorem length_slots (h : p.Alike q) (hp : p.Sound) (hq : q.Sound) :
    q.slots.length = p.slots.length := by
  rw [hq.slots, ← h.layout, ← hp.slots]

theorem setSlot (h : p.Alike q) {slot : Nat} (hs : slot < p.slots.length)
    (hs' : slot < q.slots.length) (o : Option Tuple) :
    (p.setSlot slot o).Alike (q.setSlot slot o) where
  header := by rw [Page.setSlot, Page.setSlot, h.header]
  row i := by rw [row_setSlot hs, row_setSlot hs', h.row i]
  id := h.id
  schema := h.schema
  layout := h.layout
  dirtiedBy := h.dirtiedBy
  before := h.before

theorem markDirty (h : p.Alike q) (on : Bool) (txn : TxnId) :
    (p.markDirty on txn).Alike (q.markDirty on txn) :=
  ⟨⟨h.header, h.row⟩, h.id, h.schema, h.layout, rfl, h.before⟩

theorem insert (h : p.Alike q) (hp : p.Sound) (hq : q.Sound) (t : Tuple) :
    (p.insert t).1 = (q.insert t).1 ∧ (p.insert t).2.1 = (q.insert t).2.1 ∧
      (p.insert t).2.2.Alike (q.insert t).2.2 := by
  rw [insert_eq, insert_eq, ← h.schema, ← h.findFree_eq hp hq]
  split
  · exact ⟨rfl, rfl, h⟩
  · split
    · exact ⟨rfl, rfl, h⟩
    · next slot hf =>
      obtain ⟨hlt, -, -⟩ := List.findIdx?_eq_some_iff_getElem.1 hf
      have hlt' : slot < q.slots.length := by rwa [h.length_slots hp hq]
      rw [← h.id]
      exact ⟨rfl, rfl, h.setSlot hlt hlt' (some (t.withRid (some ⟨p.id, slot⟩)))⟩

theorem delete (h : p.Alike q) (hp : p.Sound) (hq : q.Sound) (t : Tuple) :
    (p.delete t).1 = (q.delete t).1 ∧ (p.delete t).2.Alike (q.delete t).2 := by
  have hused (slot : Nat) : q.isSlotUsed slot = p.isSlotUsed slot := by
    unfold Page.isSlotUsed
    rw [h.layout, h.header]
  rw [delete_eq, delete_eq, ← h.id]
  split
  · exact ⟨rfl, h⟩
  · next rid _ =>
    rw [hused]
    split
    · exact ⟨rfl, h⟩
    · split
      · next hu =>
        have hlt := hp.lt_of_isSlotUsed hu
        have hlt' : rid.slot < q.slots.length := by rwa [h.length_slots hp hq]
        exact ⟨rfl, h.setSlot hlt hlt' none⟩
      · exact ⟨rfl, h⟩

end Alike

end Page

end HeapStore
