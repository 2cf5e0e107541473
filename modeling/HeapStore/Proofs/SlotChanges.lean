import HeapStore.Proofs.PageLayout

/-! What changing a page comes to, to the bit, and how it is taken back. An insert or a delete that
fails changes nothing. One that succeeds changes the window of one slot and the slot's bit, and the
other of the two then gives back the page as it was. -/

namespace HeapStore

namespace Bitmap

theorem ext {b c : Bytes} (hlen : b.length = c.length) (h : ∀ i, test b i = test c i) : b = c := by
  refine List.ext_getElem hlen fun j hj hj' => UInt8.toNat_inj.1 (Nat.eq_of_testBit_eq fun k => ?_)
  by_cases hk : k < 8
  · have hbit := h (8 * j + k)
    rw [test, test, show (8 * j + k) / 8 = j by omega, show (8 * j + k) % 8 = k by omega] at hbit
    simpa [hj, hj'] using hbit
  · -- a byte has no bits from the eighth on
    have hhigh (x : UInt8) : x.toNat.testBit k = false := Nat.testBit_lt_two_pow <|
      Nat.lt_of_lt_of_le (UInt8.toNat_lt x) (Nat.pow_le_pow_right (by decide) (Nat.not_lt.1 hk))
    rw [hhigh, hhigh]

/-- A bit that is given its old value back leaves no trace. -/
theorem set_set_test {b : Bytes} {i : Nat} (h : i / 8 < b.length) (on : Bool) :
    set (set b i on) i (test b i) = b := by
  refine ext (by rw [length_set, length_set]) fun j => ?_
  rw [test_set _ (by rwa [length_set]), test_set _ h]
  split
  · next hj => rw [hj]
  · rfl

end Bitmap

namespace Layout

variable {l : Layout} {j k : Nat}

theorem getElem?_window (b : Bytes) (h : l.slotOffset k ≤ j) (h' : j < l.slotOffset (k + 1)) :
    (l.window b k)[j - l.slotOffset k]? = b[j]? := by
  have hnext : l.slotOffset (k + 1) = l.slotOffset k + l.tupleSize := by
    rw [slotOffset, slotOffset, Nat.add_one_mul, Nat.add_assoc]
  rw [window, List.getElem?_take_of_lt (by omega), List.getElem?_drop, Nat.add_sub_cancel' h]

end Layout

namespace Page

variable {p : Page} {t : Tuple} {slot : Nat}

/-! ### One slot -/

/-- `q` is `p` with one slot filled or freed: in the bytes no other bit of the bitmap and no byte of
another slot or of the padding is touched, and besides the bytes nothing is. -/
structure Touched (p : Page) (slot : Nat) (o : Option Tuple) (q : Page) : Prop where
  tuple? : ∀ i, q.tuple? i = if i = slot then o else p.tuple? i
  length : q.toBytes.length = p.toBytes.length
  bit : ∀ i < 8 * p.layout.headerSize,
    Bitmap.test q.toBytes i = if i = slot then o.isSome else Bitmap.test p.toBytes i
  window : p.layout.window q.toBytes slot = slotBytes p.layout.tupleSize o
  outside : ∀ j, p.layout.headerSize ≤ j →
    ¬ (p.layout.slotOffset slot ≤ j ∧ j < p.layout.slotOffset (slot + 1)) → q.toBytes[j]? = p.toBytes[j]?
  /-- The mark and the stored bytes are the old ones as well. -/
  rest : { q with header := p.header, slots := p.slots } = p

theorem Sound.test_toBytes (h : p.Sound) {i : Nat} (hi : i < 8 * p.layout.headerSize) :
    Bitmap.test p.toBytes i = Bitmap.test p.header i := by
  rw [← h.bitExact.header, Bitmap.test_take _ (by omega)]

/-- Behind the bitmap only the bytes of the slot that is set change. -/
theorem Sound.getElem?_toBytes_setSlot (h : p.Sound) (hs : slot < p.slots.length) {o : Option Tuple}
    (hq : (p.setSlot slot o).Sound) {j : Nat} (hj : p.layout.headerSize ≤ j)
    (hout : ¬ (p.layout.slotOffset slot ≤ j ∧ j < p.layout.slotOffset (slot + 1))) :
    (p.setSlot slot o).toBytes[j]? = p.toBytes[j]? := by
  obtain ⟨k, hk, hk'⟩ : ∃ k, p.layout.slotOffset k ≤ j ∧ j < p.layout.slotOffset (k + 1) :=
    ⟨_, (Layout.div_tupleSize_eq_iff hj).1 rfl⟩
  by_cases hkn : k < p.layout.numSlots
  · have hne : k ≠ slot := fun he => hout ⟨he ▸ hk, he ▸ hk'⟩
    have hother : (p.setSlot slot o).tuple? k = p.tuple? k := (tuple?_setSlot hs o k).trans (if_neg hne)
    have hwindow : p.layout.window (p.setSlot slot o).toBytes k = p.layout.window p.toBytes k := by
      rw [h.bitExact.window k hkn, ← hother]
      exact hq.bitExact.window k hkn
    rw [← Layout.getElem?_window _ hk hk', hwindow, Layout.getElem?_window _ hk hk']
  · -- both pages end in the same zeros
    have hend : p.layout.slotOffset p.layout.numSlots ≤ j :=
      Nat.le_trans (Nat.add_le_add_left (Nat.mul_le_mul_right _ (Nat.not_lt.1 hkn)) _) hk
    have hpad : (p.setSlot slot o).toBytes.drop (p.layout.slotOffset p.layout.numSlots) =
        p.toBytes.drop (p.layout.slotOffset p.layout.numSlots) :=
      hq.bitExact.padding.trans h.bitExact.padding.symm
    rw [← Nat.add_sub_cancel' hend, ← List.getElem?_drop, hpad, List.getElem?_drop]

theorem Sound.touched (h : p.Sound) (hs : slot < p.slots.length) {o : Option Tuple}
    (ho : ∀ t, o = some t → t.schema.types = p.schema.types ∧ t.rid = some ⟨p.id, slot⟩) :
    p.Touched slot o (p.setSlot slot o) where
  tuple? := tuple?_setSlot hs o
  length := (h.setSlot hs ho).length_toBytes.trans h.length_toBytes.symm
  bit i hi := by
    have hle := p.layout.numSlots_le
    rw [h.slots] at hs
    rw [(h.setSlot (h.slots ▸ hs) ho).test_toBytes hi, h.test_toBytes hi]
    exact Bitmap.test_set _ (by rw [h.header]; omega) _ _
  window := by
    have hown : (p.setSlot slot o).tuple? slot = o := (tuple?_setSlot hs o slot).trans (if_pos rfl)
    have hwindow := (h.setSlot hs ho).bitExact.window slot (h.slots ▸ hs)
    exact hwindow.trans (congrArg (slotBytes _) hown)
  outside _ hj hout := h.getElem?_toBytes_setSlot hs (h.setSlot hs ho) hj hout
  rest := rfl

/-- A slot that is given its old tuple back leaves no trace. -/
theorem Sound.setSlot_setSlot (h : p.Sound) (hs : slot < p.slots.length) (o : Option Tuple) :
    (p.setSlot slot o).setSlot slot (p.tuple? slot) = p := by
  have hn : slot < p.layout.numSlots := h.slots ▸ hs
  have hle := p.layout.numSlots_le
  have hheader : Bitmap.set (Bitmap.set p.header slot o.isSome) slot (p.tuple? slot).isSome = p.header := by
    rw [← h.bit slot hn]
    exact Bitmap.set_set_test (by rw [h.header]; omega) _
  have hslots : (p.slots.set slot o).set slot (p.tuple? slot) = p.slots := by
    rw [List.set_set, tuple?_eq_getElem hs, List.set_getElem_self]
  unfold Page.setSlot
  rw [hheader, hslots]

theorem freeSlots_setSlot (hs : slot < p.slots.length) (hnone : p.tuple? slot = none) (t : Tuple) :
    (p.setSlot slot (some t)).freeSlots = p.freeSlots - 1 := by
  rw [tuple?_eq_getElem hs] at hnone
  rw [freeSlots, setSlot, List.countP_set hs, hnone]
  rfl

/-! ### Inserting -/

/-- The first slot without a tuple. -/
structure LowestFree (p : Page) (slot : Nat) : Prop where
  lt : slot < p.layout.numSlots
  free : p.tuple? slot = none
  below : ∀ i < slot, (p.tuple? i).isSome

/-- What inserting a tuple comes to. -/
structure InsertExact (p : Page) (t : Tuple) : Prop where
  succeeds : (∃ rid, (p.insert t).1 = .ok rid) ↔
    t.schema.types = p.schema.types ∧ ∃ slot < p.layout.numSlots, p.tuple? slot = none
  failed : ∀ e, (p.insert t).1 = .error e → (p.insert t).2 = (t, p)
  placed : ∀ rid, (p.insert t).1 = .ok rid → rid.page = p.id ∧ p.LowestFree rid.slot ∧
    (p.insert t).2.1 = t.withRid (some rid) ∧
      p.Touched rid.slot (some (t.withRid (some rid))) (p.insert t).2.2
  undone : ∀ rid, (p.insert t).1 = .ok rid → ∀ u : Tuple, u.rid = some rid →
    (p.insert t).2.2.delete u = (.ok (), p)

theorem delete_eq_ok (hr : t.rid = some ⟨p.id, slot⟩) (hu : p.isSlotUsed slot = true) :
    p.delete t = (.ok (), p.setSlot slot none) := by
  simp [delete_eq, hr, hu]

theorem insert_of_full (htypes : t.schema.types = p.schema.types) (h : p.freeSlots = 0) :
    p.insert t = (.error .pageFull, t, p) := by
  rcases p.insert_outcome t with ⟨m, hne, -⟩ | ⟨-, -, he⟩ | ⟨slot, -, hlt, hnone, -, -⟩
  · exact absurd htypes hne
  · exact he
  · exact absurd hnone (freeSlots_eq_zero_iff.1 h slot hlt)

theorem insert_of_lowestFree (h : p.Sound) (htypes : t.schema.types = p.schema.types)
    (hf : p.LowestFree slot) : p.insert t = (.ok ⟨p.id, slot⟩, t.withRid (some ⟨p.id, slot⟩),
      p.setSlot slot (some (t.withRid (some ⟨p.id, slot⟩)))) := by
  have hlt : slot < p.slots.length := h.slots.symm ▸ hf.lt
  rcases p.insert_outcome t with ⟨m, hne, -⟩ | ⟨-, hused, -⟩ | ⟨slot', -, hlt', hnone, hused, he⟩
  · exact absurd htypes hne
  · exact absurd hf.free (hused slot hlt)
  · obtain rfl : slot' = slot := by
      rcases Nat.lt_trichotomy slot' slot with hl | heq | hl
      · have := hf.below slot' hl
        rw [hnone] at this
        cases this
      · exact heq
      · exact absurd hf.free (hused slot hl)
    exact he

theorem InsertExact.of_error {e : Error} (he : p.insert t = (.error e, t, p))
    (hno : ¬ (t.schema.types = p.schema.types ∧ ∃ slot < p.layout.numSlots, p.tuple? slot = none)) :
    p.InsertExact t := by
  have hfails (rid : RecordId) : (p.insert t).1 ≠ .ok rid := by simp [he]
  refine ⟨⟨?_, fun h => absurd h hno⟩, fun _ _ => by rw [he], ?_, ?_⟩
  · rintro ⟨rid, hok⟩
    exact absurd hok (hfails rid)
  · exact fun rid hok => absurd hok (hfails rid)
  · exact fun rid hok => absurd hok (hfails rid)

theorem Sound.insertExact (h : p.Sound) (t : Tuple) : p.InsertExact t := by
  rcases p.insert_outcome t with ⟨m, hne, he⟩ | ⟨-, hused, he⟩ | ⟨slot, htypes, hlt, hnone, hused, he⟩
  · exact .of_error he fun hgood => hne hgood.1
  · refine .of_error he ?_
    rintro ⟨-, slot, hslot, hnone⟩
    exact hused slot (h.slots.symm ▸ hslot) hnone
  · have hslot : slot < p.layout.numSlots := h.slots ▸ hlt
    have hplaced : ∀ u, some (t.withRid (some ⟨p.id, slot⟩)) = some u →
        u.schema.types = p.schema.types ∧ u.rid = some ⟨p.id, slot⟩ := by
      intro u hu
      cases hu
      exact ⟨htypes, rfl⟩
    refine ⟨⟨fun _ => ⟨htypes, slot, hslot, hnone⟩, fun _ => ⟨_, congrArg Prod.fst he⟩⟩, ?_, ?_, ?_⟩ <;> rw [he]
    · exact fun e herr => by cases herr
    · intro rid hok
      cases hok
      have hbelow : ∀ i < slot, (p.tuple? i).isSome := fun i hi => Option.isSome_iff_ne_none.2 (hused i hi)
      exact ⟨rfl, ⟨hslot, hnone, hbelow⟩, rfl, h.touched hlt hplaced⟩
    · intro rid hok u hu
      cases hok
      have hfilled : (p.setSlot slot (some (t.withRid (some ⟨p.id, slot⟩)))).isSlotUsed slot = true := by
        rw [(h.setSlot hlt hplaced).isSlotUsed, tuple?_setSlot hlt, if_pos rfl]
        rfl
      rw [delete_eq_ok (p := p.setSlot slot _) hu hfilled, ← hnone, h.setSlot_setSlot hlt]

/-! ### Deleting -/

/-- What deleting a tuple comes to. -/
structure DeleteExact (p : Page) (t : Tuple) : Prop where
  succeeds : (p.delete t).1 = .ok () ↔ ∃ slot, t.rid = some ⟨p.id, slot⟩ ∧ (p.tuple? slot).isSome
  failed : ∀ e, (p.delete t).1 = .error e → (p.delete t).2 = p
  freed : (p.delete t).1 = .ok () →
    ∃ slot, t.rid = some ⟨p.id, slot⟩ ∧ p.Touched slot none (p.delete t).2
  undone : ∀ slot, p.tuple? slot = some t → (∀ i < slot, (p.tuple? i).isSome) →
    (p.delete t).1 = .ok () ∧ (p.delete t).2.insert t = (.ok ⟨p.id, slot⟩, t, p)

theorem Sound.deleteExact (h : p.Sound) (t : Tuple) : p.DeleteExact t := by
  have succeeds (slot : Nat) (hr : t.rid = some ⟨p.id, slot⟩) (hs : (p.tuple? slot).isSome) :
      p.delete t = (.ok (), p.setSlot slot none) := delete_eq_ok hr ((h.isSlotUsed slot).trans hs)
  refine ⟨⟨fun hok => ?_, ?_⟩, fun e herr => ?_, fun hok => ?_, fun slot ht hused => ?_⟩
  · rcases p.delete_cases t with ⟨e, he⟩ | ⟨slot, hr, hu, -⟩
    · rw [he] at hok
      cases hok
    · exact ⟨slot, hr, (h.isSlotUsed slot).symm.trans hu⟩
  · rintro ⟨slot, hr, hs⟩
    rw [succeeds slot hr hs]
  · rcases p.delete_cases t with ⟨e', he⟩ | ⟨slot, -, -, he⟩
    · rw [he]
    · rw [he] at herr
      cases herr
  · rcases p.delete_cases t with ⟨e, he⟩ | ⟨slot, hr, hu, he⟩
    · rw [he] at hok
      cases hok
    · rw [he]
      exact ⟨slot, hr, h.touched (h.lt_of_isSlotUsed hu) fun u hnone => by cases hnone⟩
  · have hr := h.placed slot t ht
    have hs : (p.tuple? slot).isSome := by rw [ht]; rfl
    have hlt : slot < p.slots.length := h.lt_of_isSlotUsed ((h.isSlotUsed slot).trans hs)
    have htouched : p.Touched slot none (p.setSlot slot none) := h.touched hlt fun u hnone => by cases hnone
    have hsound : (p.setSlot slot none).Sound := h.setSlot hlt fun u hnone => by cases hnone
    have hfree : (p.setSlot slot none).LowestFree slot := by
      refine ⟨h.slots ▸ hlt, (htouched.tuple? slot).trans (if_pos rfl), fun i hi => ?_⟩
      rw [htouched.tuple? i, if_neg (Nat.ne_of_lt hi)]
      exact hused i hi
    have hself : t.withRid (some ⟨p.id, slot⟩) = t := by rw [← hr]; rfl
    rw [succeeds slot hr hs]
    refine ⟨rfl, ?_⟩
    rw [insert_of_lowestFree hsound (h.types slot t ht) hfree]
    change (Except.ok _, t.withRid (some ⟨p.id, slot⟩),
      (p.setSlot slot none).setSlot slot (some (t.withRid (some ⟨p.id, slot⟩)))) = _
    rw [hself, ← ht, h.setSlot_setSlot hlt]
    rfl

/-! ### Filling a page -/

theorem insert_of_free (htypes : t.schema.types = p.schema.types) (h : 0 < p.freeSlots) :
    ∃ rid, (p.insert t).1 = .ok rid := by
  rcases p.insert_outcome t with ⟨m, hne, -⟩ | ⟨-, hused, -⟩ | ⟨slot, -, -, -, -, he⟩
  · exact absurd htypes hne
  · exact absurd (freeSlots_eq_zero_iff.2 hused) (Nat.ne_of_gt h)
  · exact ⟨_, congrArg Prod.fst he⟩

theorem freeSlots_insert (htypes : t.schema.types = p.schema.types) :
    (p.insert t).2.2.freeSlots = p.freeSlots - 1 := by
  rcases p.insert_outcome t with ⟨m, hne, -⟩ | ⟨-, hused, he⟩ | ⟨slot, -, hlt, hnone, -, he⟩
  · exact absurd htypes hne
  · rw [he, freeSlots_eq_zero_iff.2 hused]
  · rw [he, freeSlots_setSlot hlt hnone]

theorem Kind.freeSlots_after_inserts {id : PageId} {s : Schema} {pageSize : Nat} {ts : List Tuple}
    (h : p.Kind id s pageSize) (hts : ∀ t ∈ ts, t.schema.types = s.types) :
    (p.after (ts.map .insert)).freeSlots = p.freeSlots - ts.length := by
  induction ts generalizing p with
  | nil => rfl
  | cons t ts ih =>
    have ht : t.schema.types = p.schema.types := by
      rw [h.schema]
      exact hts t List.mem_cons_self
    calc (p.after ((t :: ts).map .insert)).freeSlots
        = ((p.call (.insert t)).after (ts.map .insert)).freeSlots := rfl
      _ = (p.call (.insert t)).freeSlots - ts.length :=
        ih (h.call _) fun u hu => hts u (List.mem_cons_of_mem _ hu)
      _ = p.freeSlots - 1 - ts.length := by rw [Page.call, freeSlots_insert ht]
      _ = p.freeSlots - (t :: ts).length := by rw [List.length_cons, Nat.sub_sub, Nat.add_comm]

/-- Inserts and deletes change one slot each or nothing and undo each other, and a page takes as many
tuples as it has free slots. -/
structure ChangesExactly (p : Page) : Prop where
  inserts : ∀ t, p.InsertExact t
  deletes : ∀ t, p.DeleteExact t
  fills : ∀ ts t, (∀ u ∈ t :: ts, u.schema.types = p.schema.types) →
    (ts.length < p.freeSlots → ∃ rid, ((p.after (ts.map .insert)).insert t).1 = .ok rid) ∧
      (p.freeSlots ≤ ts.length → ((p.after (ts.map .insert)).insert t).1 = .error .pageFull)

theorem Sound.changesExactly (h : p.Sound) : p.ChangesExactly := by
  refine ⟨h.insertExact, h.deleteExact, fun ts t hts => ?_⟩
  obtain ⟨ht, hts⟩ := List.forall_mem_cons.1 hts
  have hk : p.Kind p.id p.schema p.layout.pageSize := ⟨h, rfl, rfl, rfl⟩
  have hfree := hk.freeSlots_after_inserts hts
  have htypes : t.schema.types = (p.after (ts.map .insert)).schema.types := by
    rw [(hk.after _).schema]
    exact ht
  refine ⟨fun hroom => ?_, fun hfull => ?_⟩
  · exact insert_of_free htypes (by omega)
  · rw [insert_of_full htypes (by omega)]

/-- So it is on every page that was read from bytes and then changed by any calls. -/
theorem slot_changes_exact {id : PageId} {s : Schema} {pageSize : Nat} {data : Bytes} {p : Page}
    (hp : ofBytes id s pageSize data = .ok p) (calls : List Call) : (p.after calls).ChangesExactly :=
  ((kind_of_ofBytes hp).after calls).sound.changesExactly

/-- The page with rubbish takes one note more, and not a second one. Taking it away again, or the first
note and putting that back, leaves the page with its rubbish. -/
theorem slot_changes_exact_rubbish : ofBytes noteId noteSchema 16 rubbish = .ok rubbishPage ∧
    (rubbishPage.insert (note 6 0)).2.2.delete (note 6 1) = (.ok (), rubbishPage) ∧
    (rubbishPage.delete (note 5 0)).2.insert (note 5 0) = (.ok ⟨noteId, 0⟩, note 5 0, rubbishPage) ∧
    (rubbishPage.insert (note 6 0)).2.2.toBytes[0]? = some 0xFF ∧
    ((rubbishPage.after [.insert (note 6 0)]).insert (note 7 0)).1 = .error .pageFull := by
  have hp : ofBytes noteId noteSchema 16 rubbish = .ok rubbishPage :=
    eq_ok_of_toOption (by decide +kernel)
  have h : rubbishPage.ChangesExactly := slot_changes_exact hp []
  have hok : (rubbishPage.insert (note 6 0)).1 = .ok ⟨noteId, 1⟩ := eq_ok_of_toOption (by decide +kernel)
  refine ⟨hp, (h.inserts _).undone _ hok _ rfl, ?_, by decide +kernel, ?_⟩
  · exact ((h.deletes (note 5 0)).undone 0 (by decide +kernel) (fun i hi => absurd hi (Nat.not_lt_zero i))).2
  · exact (h.fills [note 6 0] (note 7 0) (by decide)).2 (by decide +kernel)

end Page

end HeapStore
