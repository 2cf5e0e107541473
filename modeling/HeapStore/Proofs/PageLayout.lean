import HeapStore.Proofs.PageFormat

/-! What holds of a page however it was made and changed. Bitmap, slots and all that reads them tell
of the same used slots, and the page's bytes are the bitmap, every slot in its own window and zeros.
The bits that stand for no slot are never touched. -/

namespace HeapStore

theorem eq_ok_of_toOption {ε α : Type} {x : Except ε α} {a : α} (h : x.toOption = some a) : x = .ok a := by
  cases x with
  | error e => cases h
  | ok b => exact congrArg Except.ok (Option.some.inj h)

theorem Layout.numSlots_lt (l : Layout) : l.numSlots < 65536 := by
  have hsize : l.pageSize ≤ 65536 := l.page_le
  have htuple := l.tuple_pos
  unfold numSlots
  rw [Nat.div_lt_iff_lt_mul (by omega)]
  omega

namespace Page

/-- The slots that hold a tuple, in ascending order. -/
def usedSlots (p : Page) : List Nat := (List.range p.layout.numSlots).filter p.isSlotUsed

/-- The answers of `nextUsedSlot` when every call starts right behind the answer before it. -/
inductive Chain (p : Page) : Nat → List Nat → Prop where
  | done {start : Nat} : p.nextUsedSlot start = none → Chain p start []
  | step {start slot : Nat} {slots : List Nat} : p.nextUsedSlot start = some slot →
      Chain p (slot + 1) slots → Chain p start (slot :: slots)

/-- Bitmap, slots and all that reads them tell the same. -/
structure Consistent (p : Page) : Prop where
  header : p.header.length = p.layout.headerSize
  slots : p.slots.length = p.layout.numSlots
  bit : ∀ i < p.layout.numSlots, Bitmap.test p.header i = (p.tuple? i).isSome
  used : ∀ i, p.isSlotUsed i = (p.tuple? i).isSome
  placed : ∀ i t, p.tuple? i = some t → t.rid = some ⟨p.id, i⟩
  tupleCount : p.tupleCount = p.usedSlots.length
  freeSlots : p.freeSlots + p.usedSlots.length = p.layout.numSlots
  bits : (List.range p.layout.numSlots).countP (Bitmap.test p.header) = p.usedSlots.length
  tuples : p.tuples.map some = p.usedSlots.map p.tuple?
  chain : p.Chain 0 p.usedSlots

/-- The page's bytes: the bitmap, the slots in their windows, zeros. -/
structure BitExact (p : Page) : Prop where
  length : p.toBytes.length = p.layout.pageSize
  header : p.toBytes.take p.layout.headerSize = p.header
  window : ∀ i < p.layout.numSlots,
    p.layout.window p.toBytes i = slotBytes p.layout.tupleSize (p.tuple? i)
  padding : p.toBytes.drop (p.layout.slotOffset p.layout.numSlots) = zeros p.layout.padding

variable {p q : Page} {i start : Nat}

/-! ### The readers -/

theorem nextUsedSlot_of_isSome (h : (p.tuple? i).isSome = true) : p.nextUsedSlot i = some i := by
  cases hn : p.nextUsedSlot i with
  | none => simp [nextUsedSlot_eq_none hn (Nat.le_refl i)] at h
  | some slot =>
    obtain ⟨hle, -, hbefore⟩ := nextUsedSlot_eq_some hn
    rcases Nat.eq_or_lt_of_le hle with rfl | hlt
    · rfl
    · simp [hbefore i (Nat.le_refl i) hlt] at h

theorem nextUsedSlot_of_none (h : p.tuple? i = none) (hi : i < p.slots.length) :
    p.nextUsedSlot i = p.nextUsedSlot (i + 1) := by
  have hslot : p.slots[i].isSome = false := by
    rw [tuple?, List.getElem?_eq_getElem hi] at h
    rw [show p.slots[i] = none from h]
    rfl
  unfold nextUsedSlot
  rw [List.drop_eq_getElem_cons hi, List.findIdx?_cons, hslot]
  simp [Nat.add_assoc, Nat.add_comm 1, Function.comp_def]

theorem Chain.of_nextUsedSlot_eq {slots : List Nat} (h : p.Chain (i + 1) slots)
    (he : p.nextUsedSlot i = p.nextUsedSlot (i + 1)) : p.Chain i slots := by
  cases h with
  | done hn => exact .done (he.trans hn)
  | step hn hrest => exact .step (he.trans hn) hrest

namespace Sound

variable (h : p.Sound)
include h

theorem slots_eq : p.slots = (List.range p.layout.numSlots).map p.tuple? := by
  refine List.ext_getElem (by simp [h.slots]) fun i hi hi' => ?_
  simp [tuple?, List.getElem?_eq_getElem hi]

theorem usedSlots_eq :
    p.usedSlots = (List.range p.layout.numSlots).filter fun i => (p.tuple? i).isSome := by
  refine List.filter_congr fun i _ => ?_
  rw [h.isSlotUsed]

theorem freeSlots_add_length_usedSlots : p.freeSlots + p.usedSlots.length = p.layout.numSlots := by
  have hsplit := List.length_eq_countP_add_countP (fun i => (p.tuple? i).isNone)
    (l := List.range p.layout.numSlots)
  have hused : (fun i => decide ¬ (p.tuple? i).isNone = true) = fun i => (p.tuple? i).isSome := by
    funext i
    cases p.tuple? i <;> rfl
  rw [Page.freeSlots, h.slots_eq, List.countP_map, h.usedSlots_eq, ← List.countP_eq_length_filter, ← hused]
  exact hsplit.symm.trans List.length_range

theorem countP_test_header :
    (List.range p.layout.numSlots).countP (Bitmap.test p.header) = p.usedSlots.length := by
  rw [usedSlots, ← List.countP_eq_length_filter]
  refine List.countP_congr fun i hi => ?_
  rw [h.isSlotUsed, h.bit i (List.mem_range.1 hi)]

theorem map_some_tuples : p.tuples.map some = p.usedSlots.map p.tuple? := by
  have hsome (slots : List (Option Tuple)) :
      (slots.filterMap fun slot => slot).map some = slots.filter Option.isSome := by
    induction slots with
    | nil => rfl
    | cons o slots ih => cases o <;> simp [ih]
  rw [tuples, hsome, h.usedSlots_eq, h.slots_eq, List.filter_map]
  rfl

/-- From any slot on, the chain of `nextUsedSlot` is what is left of the used slots. -/
theorem chain_range' (k : Nat) (hk : start + k = p.layout.numSlots) :
    p.Chain start ((List.range' start k).filter p.isSlotUsed) := by
  induction k generalizing start with
  | zero =>
    refine .done ?_
    cases hn : p.nextUsedSlot start with
    | none => rfl
    | some slot =>
      have hused := (nextUsedSlot_eq_some hn).2.1
      rw [← h.isSlotUsed] at hused
      have hlt := h.lt_of_isSlotUsed hused
      have hle := (nextUsedSlot_eq_some hn).1
      rw [h.slots] at hlt
      omega
  | succ k ih =>
    have hrest : p.Chain (start + 1) ((List.range' (start + 1) k).filter p.isSlotUsed) :=
      ih (by omega)
    rw [List.range'_succ, List.filter_cons]
    cases ht : p.tuple? start with
    | none =>
      rw [if_neg (by simp [h.isSlotUsed, ht])]
      exact hrest.of_nextUsedSlot_eq (nextUsedSlot_of_none ht (by rw [h.slots]; omega))
    | some t =>
      rw [if_pos (by simp [h.isSlotUsed, ht])]
      exact .step (nextUsedSlot_of_isSome (by simp [ht])) hrest

theorem consistent : p.Consistent where
  header := h.header
  slots := h.slots
  bit := h.bit
  used := h.isSlotUsed
  placed := h.placed
  tupleCount := by
    have := h.freeSlots_add_length_usedSlots
    unfold Page.tupleCount
    omega
  freeSlots := h.freeSlots_add_length_usedSlots
  bits := h.countP_test_header
  tuples := h.map_some_tuples
  chain := by
    rw [usedSlots, List.range_eq_range']
    exact h.chain_range' _ (Nat.zero_add _)

end Sound

/-! ### The bytes -/

theorem take_drop_flatMap {α : Type} {f : α → Bytes} {w : Nat} {xs : List α} {x : α} {i : Nat}
    (hw : ∀ x ∈ xs, (f x).length = w) (hx : xs[i]? = some x) (rest : Bytes) :
    ((xs.flatMap f ++ rest).drop (i * w)).take w = f x := by
  induction xs generalizing i with
  | nil => simp at hx
  | cons y xs ih =>
    have hy := hw y List.mem_cons_self
    rw [List.flatMap_cons, List.append_assoc]
    cases i with
    | zero =>
      cases hx
      rw [Nat.zero_mul, List.drop_zero, List.take_left' hy]
    | succ i =>
      rw [Nat.add_one_mul, Nat.add_comm, ← List.drop_drop, List.drop_left' hy]
      exact ih (fun x hx => hw x (List.mem_cons_of_mem _ hx)) hx

theorem Sound.bitExact (h : p.Sound) : p.BitExact where
  length := h.length_toBytes
  header := by rw [toBytes, List.append_assoc, List.take_left' h.header]
  window i hi := by
    have hslot : p.slots[i]? = some (p.tuple? i) := by simp [h.slots_eq, hi]
    rw [Layout.window, Layout.slotOffset, toBytes, List.append_assoc, ← List.drop_drop,
      List.drop_left' h.header]
    exact take_drop_flatMap (fun o ho => h.length_slot ho) hslot _
  padding := by
    rw [Layout.slotOffset, toBytes, List.drop_left']
    rw [List.length_append, h.header, h.length_slotBytes]

/-! ### The bits that stand for no slot -/

theorem test_setSlot_of_le (h : p.Sound) {slot : Nat} (hs : slot < p.layout.numSlots)
    (hi : p.layout.numSlots ≤ i) (o : Option Tuple) :
    Bitmap.test (p.setSlot slot o).header i = Bitmap.test p.header i := by
  have := p.layout.numSlots_le
  rw [setSlot, Bitmap.test_set _ (by rw [h.header]; omega), if_neg (by omega)]

theorem call_header (h : p.Sound) (c : Call) (hi : p.layout.numSlots ≤ i) :
    (p.call c).layout = p.layout ∧ Bitmap.test (p.call c).header i = Bitmap.test p.header i := by
  cases c with
  | insert t =>
    rcases p.insert_cases t with ⟨e, he⟩ | ⟨slot, -, hs, -, he⟩
    · simp only [call, he, and_self]
    · simp only [call, he]
      exact ⟨rfl, test_setSlot_of_le h (h.slots ▸ hs) hi _⟩
  | delete t =>
    rcases p.delete_cases t with ⟨e, he⟩ | ⟨slot, -, hu, he⟩
    · simp only [call, he, and_self]
    · simp only [call, he]
      exact ⟨rfl, test_setSlot_of_le h (h.slots ▸ h.lt_of_isSlotUsed hu) hi _⟩
  | mark dirty txn => exact ⟨rfl, rfl⟩
  | snapshot => exact ⟨rfl, rfl⟩
  | stored data => exact ⟨rfl, rfl⟩

/-- After any calls the layout is the old one and the bits that stand for no slot are as they were. -/
theorem Kind.header_after {id : PageId} {s : Schema} {pageSize : Nat} (h : p.Kind id s pageSize)
    (calls : List Call) : (p.after calls).layout = p.layout ∧
      ∀ i, p.layout.numSlots ≤ i → Bitmap.test (p.after calls).header i = Bitmap.test p.header i := by
  -- the calls that are left change nothing, and they start from a page of the same kind
  have hkeep := after_of_call (P := fun q => q.Kind id s pageSize ∧ q.layout = p.layout ∧
    ∀ i, p.layout.numSlots ≤ i → Bitmap.test q.header i = Bitmap.test p.header i)
    (fun q c ⟨hq, hlayout, hbits⟩ => ⟨hq.call c, (call_header hq.sound c (Nat.le_refl _)).1.trans hlayout,
      fun i hi => (call_header hq.sound c (hlayout ▸ hi)).2.trans (hbits i hi)⟩)
    ⟨h, rfl, fun i _ => rfl⟩ calls
  exact hkeep.2

theorem header_of_ofBytes {id : PageId} {s : Schema} {pageSize : Nat} {data : Bytes}
    (h : ofBytes id s pageSize data = .ok p) : p.header = data.take p.layout.headerSize := by
  unfold ofBytes at h
  split at h
  · cases h
  · split at h
    · cases h
    · simp only at h
      split at h
      · cases h
      · cases h
        rfl

theorem test_header_of_empty {id : PageId} {s : Schema} {pageSize : Nat}
    (h : empty id s pageSize = .ok p) (i : Nat) : Bitmap.test p.header i = false := by
  unfold empty at h
  split at h
  · cases h
  · rw [header_of_ofBytes h, emptyBytes, zeros, List.take_replicate, Bitmap.test,
      List.getD_eq_getElem?_getD, List.getElem?_replicate]
    split <;> simp

/-- A page that was made empty or from any bytes, and then changed by any calls, is consistent and
has the bytes of its layout; the bits that stand for no slot are those it was made with. -/
theorem consistent_and_bitExact {id : PageId} {s : Schema} {pageSize : Nat} {p : Page}
    (hp : empty id s pageSize = .ok p ∨ ∃ data, ofBytes id s pageSize data = .ok p) (calls : List Call) :
    (p.after calls).Consistent ∧ (p.after calls).BitExact ∧
      (p.after calls).id = id ∧ (p.after calls).layout = p.layout ∧
      Layout.make pageSize s.tupleSize = .ok p.layout ∧ p.layout.numSlots < 65536 ∧
      (∀ i, p.layout.numSlots ≤ i → Bitmap.test (p.after calls).header i = Bitmap.test p.header i) ∧
      (empty id s pageSize = .ok p → ∀ i, Bitmap.test p.header i = false) ∧
      ∀ data, ofBytes id s pageSize data = .ok p → p.header = data.take p.layout.headerSize := by
  have hk : p.Kind id s pageSize := by
    rcases hp with hp | ⟨data, hp⟩
    · exact kind_of_empty hp
    · exact kind_of_ofBytes hp
  have hq := hk.after calls
  obtain ⟨hlayout, hbits⟩ := hk.header_after calls
  have hmake : Layout.make pageSize s.tupleSize = .ok p.layout := by
    rw [← hk.pageSize, ← hk.schema, ← hk.sound.sized, p.layout.make_sizes]
  exact ⟨hq.sound.consistent, hq.sound.bitExact, hq.id, hlayout, hmake, p.layout.numSlots_lt, hbits,
    test_header_of_empty, fun data hd => header_of_ofBytes hd⟩

/-- A note goes into the second slot of the page with rubbish; the first note is freed, once. -/
def notedPage : Page := rubbishPage.after [.insert (note 6 0), .delete (note 5 0), .delete (note 5 0)]

theorem consistent_and_bitExact_rubbish : ofBytes noteId noteSchema 16 rubbish = .ok rubbishPage ∧
    notedPage.usedSlots = [1] ∧ notedPage.tupleCount = 1 ∧ notedPage.Chain 0 [1] ∧
      notedPage.header = [0xFE] ∧ Bitmap.test notedPage.header 7 = true ∧
      notedPage.layout.window notedPage.toBytes 0 = zeros 7 := by
  have hp : ofBytes noteId noteSchema 16 rubbish = .ok rubbishPage :=
    eq_ok_of_toOption (by decide +kernel)
  have hused : notedPage.usedSlots = [1] := by decide +kernel
  obtain ⟨hc, hb, -, -, -, -, hbits, -⟩ := consistent_and_bitExact (.inr ⟨rubbish, hp⟩)
    [.insert (note 6 0), .delete (note 5 0), .delete (note 5 0)]
  refine ⟨hp, hused, ?_, ?_, by decide +kernel, ?_, ?_⟩
  · exact hc.tupleCount.trans (congrArg List.length hused)
  · exact hused ▸ hc.chain
  · exact (hbits 7 (by decide)).trans (by decide)
  · exact (hb.window 0 (by decide)).trans (by decide +kernel)

end Page

end HeapStore
