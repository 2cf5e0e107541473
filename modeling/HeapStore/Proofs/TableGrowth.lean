import HeapStore.Engine.Tuples
import HeapStore.Proofs.Checkouts

/-! A table grows by one empty page at its end. Zeros past the end of a file decode to a page without
tuples, so the new page was there before as a logical page: only the file is longer, also where the
pool then has no room for the page. -/

namespace HeapStore

theorem zeros_eq_iff {n : Nat} {b : Bytes} : b = zeros n ↔ b.length = n ∧ ∀ x ∈ b, x = 0 :=
  List.eq_replicate_iff

namespace Page

theorem decodeSlots_unused (id : PageId) (s : Schema) (slot n : Nat) (body : Bytes) :
    decodeSlots id s slot (List.replicate n false) body = .ok (List.replicate n none) := by
  induction n generalizing slot body with
  | zero => rfl
  | succ n ih =>
    rw [List.replicate_succ, decodeSlots, ih]
    rfl

theorem bits_zeros (n : Nat) : Bitmap.bits (zeros n) = List.replicate (8 * n) false := by
  induction n with
  | zero => rfl
  | succ n ih =>
    have : Bitmap.bits (zeros (n + 1)) = List.replicate 8 false ++ Bitmap.bits (zeros n) := rfl
    rw [this, ih, List.replicate_append_replicate, Nat.mul_add_one, Nat.add_comm]

/-- Bytes that are all zero are those of a page without tuples. -/
theorem ofBytes_zeros (id : PageId) (t : Table) :
    ∃ p, ofBytes id t.schema t.pageSize (zeros t.pageSize) = .ok p ∧
      Page.empty id t.schema t.pageSize = .ok p ∧ p.toBytes = zeros t.pageSize ∧
      p.withBefore p.toBytes = p ∧ ∀ i, p.tuple? i = none := by
  have hmake : Layout.make t.pageSize t.schema.tupleSize = .ok t.layout := by
    rw [← t.sized]
    exact t.layout.make_sizes
  have hoff := t.layout.slotOffset_numSlots_le
  have hle := t.layout.numSlots_le
  have hhead : (zeros t.pageSize).take t.layout.headerSize = zeros t.layout.headerSize := by
    have : t.layout.headerSize ≤ t.pageSize := Nat.le_trans (Nat.le_add_right _ _) hoff
    rw [zeros, List.take_replicate, Nat.min_eq_left this, zeros]
  have hused : (Bitmap.bits (zeros t.layout.headerSize)).take t.layout.numSlots =
      List.replicate t.layout.numSlots false := by
    rw [bits_zeros, List.take_replicate, Nat.min_eq_left hle]
  have hof : ofBytes id t.schema t.pageSize (zeros t.pageSize) =
      .ok ⟨id, t.schema, t.layout, zeros t.layout.headerSize,
        List.replicate t.layout.numSlots none, none, zeros t.pageSize⟩ := by
    unfold ofBytes
    rw [hmake]
    simp only
    rw [if_neg (by simp [zeros]), hhead, hused, decodeSlots_unused]
  have hbytes : Page.toBytes ⟨id, t.schema, t.layout, zeros t.layout.headerSize,
      List.replicate t.layout.numSlots none, none, zeros t.pageSize⟩ = zeros t.pageSize := by
    refine zeros_eq_iff.2 ⟨(sound_of_ofBytes hof).1.length_toBytes, fun x hx => ?_⟩
    have each (n : Nat) : x ∈ zeros n → x = 0 := fun h => (zeros_eq_iff.1 rfl).2 x h
    simp only [toBytes, List.mem_append, List.mem_flatMap, List.mem_replicate] at hx
    rcases hx with (hx | ⟨o, ⟨-, rfl⟩, hx⟩) | hx
    · exact each _ hx
    · exact each _ hx
    · exact each _ hx
  refine ⟨_, hof, ?_, hbytes, ?_, fun i => ?_⟩
  · unfold Page.empty
    rw [hmake]
    exact hof
  · rw [hbytes]
    rfl
  · simp only [tuple?, List.getElem?_replicate]
    split <;> rfl

end Page

namespace Table

variable {t : Table} {d d' : Disk}

theorem Small.pageCount_mono (h : t.Small d) (h' : t.Small d')
    (hle : (d.contents t.path).size ≤ (d'.contents t.path).size) : t.pageCount d ≤ t.pageCount d' := by
  rw [h.pageCount_eq, h'.pageCount_eq]
  exact Nat.div_le_div_right (Nat.add_le_add_right hle _)

theorem Stands.size_le_store (h : t.Stands d) {n : Nat} {data : Bytes}
    (hl : data.length = t.pageSize) :
    (d.contents t.path).size ≤ ((t.store d n data).contents t.path).size := by
  rw [size_store h hl]
  exact Nat.le_max_left ..

/-- The disk after the table has grown by a page. -/
def grow (t : Table) (d : Disk) : Disk := t.store d (t.pageCount d) (zeros t.pageSize)

theorem length_zeros (n : Nat) : (zeros n).length = n := by simp [zeros]

theorem window_grow (h : t.Stands d) (hs : t.Small d) (m : Nat) :
    t.window (t.grow d) m = t.window d m := by
  unfold grow
  rw [window_store h (length_zeros _)]
  split
  · next hm =>
    subst hm
    exact (window_of_pageCount_le hs (Nat.le_refl _)).symm
  · rfl

/-- The new page is the last one. -/
theorem pageCount_grow (h : t.Stands d) (hs : t.Small d) (hs' : t.Small (t.grow d)) :
    t.pageCount (t.grow d) = t.pageCount d + 1 := by
  have hp := t.pageSize_pos
  have hsize : (d.contents t.path).size ≤ t.pageCount d * t.pageSize := by
    apply Nat.le_of_not_lt
    intro hlt
    exact Nat.lt_irrefl _ ((hs.lt_pageCount_iff _).2 hlt)
  have hsize' : ((t.grow d).contents t.path).size = (t.pageCount d + 1) * t.pageSize := by
    unfold grow
    rw [size_store h (length_zeros _), Nat.add_one_mul]
    omega
  rw [hs'.pageCount_eq, hsize', Nat.mul_comm, Nat.mul_add_div hp, Nat.div_eq_of_lt (by omega)]

end Table

namespace Engine

variable {e : Engine} {held : List Checkout} {loose : Nat → Prop} {id : PageId} {t : Table}

theorem stored_of_window {f : Engine} (ht : f.pool.tables = e.pool.tables)
    (hw : ∀ t, e.table? id.table = some t → t.window f.disk id.page = t.window e.disk id.page) :
    f.stored id = e.stored id := by
  unfold stored
  rw [table?_congr ht]
  cases htbl : e.table? id.table with
  | none => rfl
  | some t => rw [Option.bind_some, Option.bind_some, hw t htbl]

namespace Coherent

/-- Files may grow by zeros. -/
theorem extended (h : e.Coherent held loose) {d : Disk}
    (hstands : ∀ k t, e.table? k = some t → t.Stands d)
    (hsmall : ∀ k t, e.table? k = some t → t.Small d)
    (hw : ∀ k t, e.table? k = some t → ∀ n, t.window d n = t.window e.disk n)
    (hsize : ∀ k t, e.table? k = some t →
      (e.disk.contents t.path).size ≤ (d.contents t.path).size) :
    Coherent { e with disk := d } held loose ∧ Unchanged held e { e with disk := d } := by
  refine ⟨⟨h.pool, h.own, hstands, hsmall, fun id c p hc hp => ?_, h.loose⟩,
    ⟨rfl, rfl, fun _ _ _ hc => hc, fun _ _ => rfl, hsize⟩, fun id => ?_⟩
  · obtain ⟨t, ht, hb⟩ := h.backed id c p hc hp
    exact ⟨t, ht, hb.elsewhere (hw _ t ht _)
      ((h.small _ t ht).pageCount_mono (hsmall _ t ht) (hsize _ t ht))⟩
  · apply rel_of_eq
    unfold logical
    rw [stored_of_window (e := e) (f := { e with disk := d }) rfl fun t ht => hw _ t ht _]

/-- Another table than this one has another id. -/
theorem eq_or_ne (h : e.Coherent held loose) (ht : e.table? t.id = some t) {k : Nat} {u : Table}
    (hu : e.table? k = some u) : u = t ∨ u.id ≠ t.id := by
  by_cases hid : u.id = t.id
  · left
    have hk := h.own k u hu
    rw [← hk, hid, ht] at hu
    exact (Option.some.inj hu).symm
  · exact .inr hid

section Store

variable {n k : Nat} {data : Bytes} {u : Table}

theorem small_store (h : e.Coherent held loose) (ht : e.table? t.id = some t)
    (hs : t.Small (t.store e.disk n data)) (hu : e.table? k = some u) :
    u.Small (t.store e.disk n data) := by
  rcases h.eq_or_ne ht hu with rfl | hne
  · exact hs
  · unfold Table.Small
    rw [Table.contents_store_of_ne hne]
    exact h.small k u hu

/-- No file becomes shorter. -/
theorem size_le_store (h : e.Coherent held loose) (ht : e.table? t.id = some t)
    (hl : data.length = t.pageSize) (hu : e.table? k = some u) :
    (e.disk.contents u.path).size ≤ ((t.store e.disk n data).contents u.path).size := by
  rcases h.eq_or_ne ht hu with rfl | hne
  · exact (h.stands k u hu).size_le_store hl
  · exact Table.size_le_store_of_ne hne

theorem window_store (h : e.Coherent held loose) (ht : e.table? id.table = some t)
    (hl : data.length = t.pageSize) {id' : PageId} (hu : e.table? id'.table = some u)
    (hne : id' ≠ id) :
    u.window (t.store e.disk id.page data) id'.page = u.window e.disk id'.page := by
  have ht' : e.table? t.id = some t := by rw [h.own _ _ ht, ht]
  rcases h.eq_or_ne ht' hu with rfl | hne'
  · rw [Table.window_store (h.stands _ u ht) hl, if_neg]
    intro hpage
    have htable : id'.table = id.table := by rw [← h.own _ _ hu, h.own _ _ ht]
    obtain ⟨table, page⟩ := id
    obtain ⟨table', page'⟩ := id'
    obtain rfl : table' = table := htable
    obtain rfl : page' = page := hpage
    exact hne rfl
  · exact Table.window_store_of_ne hne' _

end Store

theorem grown (h : e.Coherent held loose) (ht : e.table? t.id = some t)
    (hs : t.Small (t.grow e.disk)) :
    Coherent { e with disk := t.grow e.disk } held loose ∧
      Unchanged held e { e with disk := t.grow e.disk } := by
  have hwindow (k : Nat) (u : Table) (hu : e.table? k = some u) (n : Nat) :
      u.window (t.grow e.disk) n = u.window e.disk n := by
    rcases h.eq_or_ne ht hu with rfl | hne
    · exact Table.window_grow (h.stands _ u ht) (h.small _ u ht) n
    · exact Table.window_store_of_ne hne n
  exact h.extended (fun k u hu => (h.stands _ t ht).store (h.stands k u hu))
    (fun k u hu => h.small_store ht hs hu) hwindow
    fun k u hu => h.size_le_store ht (Table.length_zeros _) hu

end Coherent

/-- The new page is written, and then the pool is asked to take it in. -/
theorem appendPage_eq (e : Engine) (t : Table) :
    ∃ p, Page.ofBytes ⟨t.id, t.pageCount e.disk⟩ t.schema t.pageSize (zeros t.pageSize) = .ok p ∧
      (∀ i, p.tuple? i = none) ∧
      e.appendPage t (t.pageCount e.disk) =
        match adopt { e with disk := t.grow e.disk } ⟨t.id, t.pageCount e.disk⟩ p with
        | (.error err, e') => (.error err, e')
        | (.ok (), e') => (.ok ⟨t.id, t.pageCount e.disk⟩, e') := by
  obtain ⟨p, hof, hempty, hbytes, hbefore, hnone⟩ :=
    Page.ofBytes_zeros ⟨t.id, t.pageCount e.disk⟩ t
  obtain ⟨hs, hid, -⟩ := Page.sound_of_ofBytes hof
  refine ⟨p, hof, hnone, ?_⟩
  have hwrite := t.writePage_eq e.disk hs (by rw [hid]) (by rw [hid]; exact t.pageCount_lt e.disk)
  rw [hbefore, hbytes, hid] at hwrite
  unfold appendPage
  simp only [hempty, hwrite]
  rfl

theorem disk_appendPage (e : Engine) (t : Table) :
    (e.appendPage t (t.pageCount e.disk)).2.disk = t.grow e.disk := by
  obtain ⟨p, -, -, heq⟩ := e.appendPage_eq t
  rw [heq]
  split
  · next h => exact (congrArg (·.2.disk) h).symm
  · next h => exact (congrArg (·.2.disk) h).symm

/-- The new page finds room or the pool is full; in both cases no logical page has changed. -/
theorem Coherent.appendPage_cases (h : e.Coherent held loose) (ht : e.table? t.id = some t)
    (hs : t.Small (t.grow e.disk)) :
    ∃ r e', e.appendPage t (t.pageCount e.disk) = (r, e') ∧ e'.disk = t.grow e.disk ∧
      e'.Coherent held loose ∧ Unchanged held e e' ∧
      e.pool.copyOf? ⟨t.id, t.pageCount e.disk⟩ = none ∧
      ((e.pool.Full ∧ r = .error .poolFull) ∨
       (¬ e.pool.Full ∧ r = .ok ⟨t.id, t.pageCount e.disk⟩ ∧
         ∃ c, e'.pool.copyOf? ⟨t.id, t.pageCount e.disk⟩ = some c)) := by
  obtain ⟨p, hof, -, heq⟩ := e.appendPage_eq t
  obtain ⟨hgrown, hun⟩ := h.grown ht hs
  have hst := h.stands _ t ht
  have hsm := h.small _ t ht
  have hnew : e.pool.copyOf? ⟨t.id, t.pageCount e.disk⟩ = none := by
    cases hc : e.pool.copyOf? ⟨t.id, t.pageCount e.disk⟩ with
    | none => rfl
    | some c =>
      obtain ⟨q, hq⟩ := h.exists_page hc
      obtain ⟨u, hu, hb⟩ := h.backed _ c q hc hq
      obtain rfl : t = u := Option.some.inj (ht.symm.trans hu)
      exact absurd hb.number (Nat.lt_irrefl _)
  have hread : read { e with disk := t.grow e.disk } ⟨t.id, t.pageCount e.disk⟩ = .ok p := by
    have hreg : table? { e with disk := t.grow e.disk }
        (⟨t.id, t.pageCount e.disk⟩ : PageId).table = some t := ht
    rw [hgrown.read_eq hreg, if_pos]
    · have hw := Table.window_of_pageCount_le hsm (Nat.le_refl (t.pageCount e.disk))
      rw [Table.window_grow hst hsm, hw, hof]
    · rw [Table.pageCount_grow hst hsm hs]
      exact Nat.lt_succ_self _
  have hframe := h.pool.frameOf?_isSome_iff.2 hnew
  have hadopt : adopt { e with disk := t.grow e.disk } ⟨t.id, t.pageCount e.disk⟩ p =
      ((e.pool.install ⟨t.id, t.pageCount e.disk⟩ p).1.map fun _ => (),
        ⟨t.grow e.disk, (e.pool.install ⟨t.id, t.pageCount e.disk⟩ p).2⟩) := by
    unfold adopt Pool.adopt
    rw [hframe]
    simp only
    split <;> rename_i heq <;> rw [heq] <;> rfl
  rw [heq, hadopt]
  rcases h.pool.install_cases hframe p with ⟨hfull, hi⟩ | ⟨hfull, q, gone, hi, hinst⟩
  · rw [hi]
    exact ⟨_, _, rfl, rfl, hgrown, hun, hnew, .inl ⟨hfull, rfl⟩⟩
  · rw [hi]
    have hcoh := hgrown.installed_coherent hinst hread
    have hun' := hgrown.installed_unchanged hinst hnew hread
    exact ⟨_, _, rfl, rfl, hcoh, hun.trans hun', hnew, .inr ⟨hfull, rfl, _, hinst.copyOf?_self⟩⟩

end Engine

end HeapStore
