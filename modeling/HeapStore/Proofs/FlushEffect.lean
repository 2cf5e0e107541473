import HeapStore.Proofs.CheckoutOutcome
import HeapStore.Proofs.FileWrites
import HeapStore.Proofs.TwinFlush

/-! What a flush over several pages does, exactly. It goes over the resident pages in the order of their
ids and stops at the first that somebody has checked out. The selected pages before that one are
written, each to its own window of its table's file, and are clean afterwards; nothing else changes. -/

namespace HeapStore

theorem PageId.mem_takeWhile {ids : List PageId}
    (hs : ids.Pairwise fun id id' => id.le id' = true) (f : PageId → Bool) {id : PageId} :
    id ∈ ids.takeWhile f ↔ id ∈ ids ∧ ∀ id' ∈ ids, id'.le id = true → f id' = true := by
  induction ids with
  | nil => simp
  | cons first ids ih =>
    obtain ⟨hfirst, hs⟩ := List.pairwise_cons.1 hs
    have hrefl : first.le first = true := by simpa using PageId.le_total first first
    rw [List.takeWhile_cons]
    cases hf : f first with
    | false =>
      simp only [Bool.false_eq_true, if_false, List.not_mem_nil, false_iff, not_and, not_forall]
      intro hid
      refine ⟨first, List.mem_cons_self, ?_, by simp [hf]⟩
      rcases List.mem_cons.1 hid with rfl | hid
      · exact hrefl
      · exact hfirst id hid
    | true =>
      simp only [if_true, List.mem_cons, ih hs, forall_eq_or_imp, hf]
      constructor
      · rintro (rfl | ⟨hid, hall⟩)
        · refine ⟨.inl rfl, fun _ => trivial, fun id' hid' hle => ?_⟩
          rw [PageId.le_antisymm hle (hfirst id' hid'), hf]
        · exact ⟨.inr hid, fun _ => trivial, hall⟩
      · rintro ⟨rfl | hid, -, hall⟩
        · exact .inl rfl
        · exact .inr ⟨hid, hall⟩

namespace Table

variable {t : Table} {d : Disk} {n : Nat} {data : Bytes} {ws : List (Table × Page)} {path : String}
  {i : Nat}

/-- Does byte `i` of the file belong to page `n`? -/
def Spans (t : Table) (n i : Nat) : Prop := n * t.pageSize ≤ i ∧ i < n * t.pageSize + t.pageSize

theorem byteAt_store (h : t.Stands d) (hl : data.length = t.pageSize)
    (hout : t.path = path → ¬ t.Spans n i) :
    ((t.store d n data).contents path).byteAt i = (d.contents path).byteAt i := by
  by_cases hp : t.path = path
  · subst hp
    rw [byteAt_store_self h, if_neg]
    rw [hl]
    exact hout rfl
  · rw [store, d.contents_setContents_of_ne (Ne.symm hp)]

theorem stand_tail {w : Table × Page} (hws : ∀ w' ∈ w :: ws, w'.1.Stands d ∧ w'.2.Fits w'.1) :
    ∀ w' ∈ ws, w'.1.Stands (w.1.store d w.2.id.page w.2.toBytes) ∧ w'.2.Fits w'.1 := by
  intro w' hw'
  obtain ⟨hst, hfit⟩ := hws w' (List.mem_cons_of_mem _ hw')
  exact ⟨(hws w List.mem_cons_self).1.store hst, hfit⟩

/-- Bytes outside the windows of the pages stay, and a file grows by zeros up to such a window. -/
theorem byteAt_storeAll (hws : ∀ w ∈ ws, w.1.Stands d ∧ w.2.Fits w.1)
    (hout : ∀ w ∈ ws, w.1.path = path → ¬ w.1.Spans w.2.id.page i) :
    ((storeAll ws d).contents path).byteAt i = (d.contents path).byteAt i := by
  induction ws generalizing d with
  | nil => rfl
  | cons w ws ih =>
    obtain ⟨hst, hfit⟩ := hws w List.mem_cons_self
    have hrest := ih (stand_tail hws) fun w' hw' => hout w' (List.mem_cons_of_mem _ hw')
    exact hrest.trans (byteAt_store hst hfit.length_toBytes (hout w List.mem_cons_self))

/-- A file ends where it did, or with the page that was stored behind its end. -/
theorem size_store_cases (h : t.Stands d) (hl : data.length = t.pageSize) (path : String) :
    (d.contents path).size ≤ ((t.store d n data).contents path).size ∧
      (((t.store d n data).contents path).size = (d.contents path).size ∨
        t.path = path ∧ ((t.store d n data).contents path).size = n * t.pageSize + t.pageSize) := by
  by_cases hp : t.path = path
  · subst hp
    rw [size_store h hl]
    refine ⟨Nat.le_max_left _ _, ?_⟩
    by_cases hmax : (d.contents t.path).size ≤ n * t.pageSize + t.pageSize
    · exact .inr ⟨rfl, Nat.max_eq_right hmax⟩
    · exact .inl (Nat.max_eq_left (Nat.le_of_not_le hmax))
  · have hsame : (t.store d n data).contents path = d.contents path :=
      d.contents_setContents_of_ne (Ne.symm hp) _
    rw [hsame]
    exact ⟨Nat.le_refl _, .inl rfl⟩

theorem size_storeAll (hws : ∀ w ∈ ws, w.1.Stands d ∧ w.2.Fits w.1) :
    (d.contents path).size ≤ ((storeAll ws d).contents path).size ∧
      (((storeAll ws d).contents path).size = (d.contents path).size ∨
        ∃ w ∈ ws, w.1.path = path ∧
          ((storeAll ws d).contents path).size = w.2.id.page * w.1.pageSize + w.1.pageSize) := by
  induction ws generalizing d with
  | nil => exact ⟨Nat.le_refl _, .inl rfl⟩
  | cons w ws ih =>
    obtain ⟨hst, hfit⟩ := hws w List.mem_cons_self
    obtain ⟨hgrows, hfirst⟩ := size_store_cases (n := w.2.id.page) hst hfit.length_toBytes path
    obtain ⟨hgrows', hrest⟩ := ih (stand_tail hws)
    refine ⟨hgrows.trans hgrows', ?_⟩
    rcases hrest with hrest | ⟨w', hw', hrest⟩
    · rcases hfirst with hfirst | ⟨hpath, hfirst⟩
      · exact .inl (hrest.trans hfirst)
      · exact .inr ⟨w, List.mem_cons_self, hpath, hrest.trans hfirst⟩
    · exact .inr ⟨w', List.mem_cons_of_mem _ hw', hrest⟩

end Table

theorem Pool.mem_index_of_copyOf? {p : Pool} {id : PageId} (h : (p.copyOf? id).isSome = true) :
    ∃ i, (id, i) ∈ p.index := by
  obtain ⟨c, hc⟩ := Option.isSome_iff_exists.1 h
  obtain ⟨i, hi, -⟩ := Option.bind_eq_some_iff.1 hc
  exact ⟨i, Session.mem_of_lookup hi⟩

namespace Engine

open Pool (Compatible)
open Table (Mounted storeAll)

variable {e e' : Engine} {held : List Checkout} {id : PageId} {c : Nat} {p : Page} {t : Table}
  {only : Option TxnId} {ids : List PageId}

/-- The page has a place of its own, in the file of its table. -/
structure HasPlace (e : Engine) (id : PageId) (p : Page) (t : Table) : Prop where
  table : e.table? id.table = some t
  named : p.id = id
  fits : p.Fits t
  stands : t.Stands e.disk

/-- Every resident page has a place of its own. -/
def Placed (e : Engine) : Prop := ∀ id p, e.pool.page? id = some p → ∃ t, e.HasPlace id p t

/-- Is the page resident and selected? -/
def picks (e : Engine) (only : Option TxnId) (id : PageId) : Bool :=
  (e.pool.page? id).any (·.isSelected only)

instance (e : Engine) (held : List Checkout) (id : PageId) (access : Access) :
    Decidable (e.Admits held id access) := by
  cases access <;> unfold Admits <;> infer_instance

/-! ### One page -/

/-- The engine after a resident page was written. -/
def storedAt (e : Engine) (id : PageId) : Engine :=
  match e.pool.copyOf? id, e.pool.page? id, e.table? id.table with
  | some c, some p, some t => e.wrote t id c p
  | _, _, _ => e

theorem storedAt_eq (hc : e.pool.copyOf? id = some c) (hp : e.pool.page? id = some p)
    (ht : e.table? id.table = some t) : e.storedAt id = e.wrote t id c p := by
  unfold storedAt
  rw [hc, hp, ht]

theorem pool_storedAt (e : Engine) (id : PageId) :
    ∃ copies, (e.storedAt id).pool = { e.pool with copies := copies } := by
  unfold storedAt
  split
  · exact ⟨_, rfl⟩
  · exact ⟨e.pool.copies, rfl⟩

theorem copyOf?_storedAt (e : Engine) (id id' : PageId) :
    (e.storedAt id).pool.copyOf? id' = e.pool.copyOf? id' := by
  obtain ⟨copies, hpool⟩ := e.pool_storedAt id
  rw [hpool]
  rfl

theorem table?_storedAt (e : Engine) (id : PageId) (k : Nat) :
    (e.storedAt id).table? k = e.table? k := by
  obtain ⟨copies, hpool⟩ := e.pool_storedAt id
  rw [table?, hpool]
  rfl

@[simp]
theorem admits_storedAt (e : Engine) (held : List Checkout) (id id' : PageId) (access : Access) :
    (e.storedAt id).Admits held id' access ↔ e.Admits held id' access := by
  cases access <;> simp only [Admits, holders, copyOf?_storedAt]

/-- A resident page in its place. -/
structure Resides (e : Engine) (id : PageId) (c : Nat) (p : Page) (t : Table) : Prop
    extends e.HasPlace id p t where
  copy : e.pool.copyOf? id = some c
  page : e.pool.page? id = some p

theorem Placed.resides (hpl : e.Placed) (h : e.pool.Sound held)
    (hres : (e.pool.copyOf? id).isSome = true) : ∃ c p t, e.Resides id c p t := by
  obtain ⟨c, hc⟩ := Option.isSome_iff_exists.1 hres
  obtain ⟨p, hp⟩ := exists_page_of_sound h hc
  have hpage : e.pool.page? id = some p := (page?_of_copyOf? hc).trans hp
  obtain ⟨t, ht⟩ := hpl id p hpage
  exact ⟨c, p, t, ht, hc, hpage⟩

namespace Resides

theorem page?_copies (hr : e.Resides id c p t) : e.pool.copies.page? c = some p :=
  (page?_of_copyOf? hr.copy).symm.trans hr.page

theorem storedAt_eq (hr : e.Resides id c p t) : e.storedAt id = e.wrote t id c p :=
  Engine.storedAt_eq hr.copy hr.page hr.table

theorem disk_storedAt (hr : e.Resides id c p t) :
    (e.storedAt id).disk = t.store e.disk id.page p.toBytes := by
  rw [hr.storedAt_eq]
  rfl

/-- Other copies stay, those that were dropped from the pool included. -/
theorem page?_copies_storedAt (hr : e.Resides id c p t) {d : Nat} (hd : e.pool.copyOf? id ≠ some d) :
    (e.storedAt id).pool.copies.page? d = e.pool.copies.page? d := by
  rw [hr.storedAt_eq, Coherent.page?_wrote hr.page?_copies t id, if_neg]
  rintro rfl
  exact hd hr.copy

theorem sound_storedAt (hr : e.Resides id c p t) (h : e.pool.Sound held) :
    (e.storedAt id).pool.Sound held := by
  rw [hr.storedAt_eq]
  exact sound_setPage h hr.page?_copies p.cleaned

theorem page?_storedAt (hr : e.Resides id c p t) (h : e.pool.Sound held) (id' : PageId) :
    (e.storedAt id).pool.page? id' = if id' = id then some p.cleaned else e.pool.page? id' := by
  have hpage (d : Nat) := Coherent.page?_wrote hr.page?_copies t id d
  rw [hr.storedAt_eq]
  have hcopy : (e.wrote t id c p).pool.copyOf? id' = e.pool.copyOf? id' := rfl
  by_cases hid : id' = id
  · subst hid
    rw [if_pos rfl, page?_of_copyOf? (hcopy.trans hr.copy), hpage, if_pos rfl]
  · rw [if_neg hid]
    cases hc' : e.pool.copyOf? id' with
    | none => rw [page?_eq_none_of_copyOf? (hcopy.trans hc'), page?_eq_none_of_copyOf? hc']
    | some d =>
      have hd : d ≠ c := by
        rintro rfl
        exact hid (h.copyOf?_inj hc' hr.copy)
      rw [page?_of_copyOf? (hcopy.trans hc'), page?_of_copyOf? hc', hpage, if_neg hd]

theorem placed_storedAt (hr : e.Resides id c p t) (h : e.pool.Sound held) (hpl : e.Placed) :
    (e.storedAt id).Placed := by
  intro id' q hq
  rw [hr.page?_storedAt h] at hq
  split at hq
  · next hid =>
    cases hq
    subst hid
    refine ⟨t, (e.table?_storedAt _ _).trans hr.table, hr.named, hr.fits.cleaned, ?_⟩
    rw [hr.disk_storedAt]
    exact hr.stands.store hr.stands
  · obtain ⟨u, hu⟩ := hpl id' q hq
    refine ⟨u, (e.table?_storedAt _ _).trans hu.table, hu.named, hu.fits, ?_⟩
    rw [hr.disk_storedAt]
    exact hr.stands.store hu.stands

theorem picks_eq (hr : e.Resides id c p t) (only : Option TxnId) :
    e.picks only id = p.isSelected only := by
  rw [picks, hr.page, Option.any_some]

theorem picks_storedAt (hr : e.Resides id c p t) (h : e.pool.Sound held) (only : Option TxnId)
    (id' : PageId) : (e.storedAt id).picks only id' = (decide (id' ≠ id) && e.picks only id') := by
  rw [picks, hr.page?_storedAt h]
  by_cases hid : id' = id
  · rw [if_pos hid]
    simp [hid, Page.isSelected, Page.cleaned]
  · rw [if_neg hid]
    simp [hid, picks]

/-- A page is refused while somebody has it checked out; then it is written if it is selected. -/
theorem flushAt_cases (hr : e.Resides id c p t) (h : e.pool.Sound held) (only : Option TxnId) :
    (¬ e.Admits held id .exclusive ∧
      e.flushAt id only = (.error (.aborted (.lockTimeout .exclusive id)), e)) ∨
    (e.Admits held id .exclusive ∧ e.picks only id = false ∧ e.flushAt id only = (.ok false, e)) ∨
    (e.Admits held id .exclusive ∧ e.picks only id = true ∧
      e.flushAt id only = (.ok true, e.storedAt id)) := by
  have hflush : e.flushAt id only = e.writeBack id c only := by
    unfold flushAt
    rw [hr.copy]
  rw [hflush, admits_iff hr.copy, hr.picks_eq, hr.storedAt_eq]
  rcases writeBack_of_sound h hr.page?_copies id only with hlocked | hskipped | ⟨hy, hsel, hwrites⟩
  · exact .inl hlocked
  · exact .inr (.inl hskipped)
  · refine .inr (.inr ⟨hy, hsel, hwrites t hr.table ?_⟩)
    rw [hr.fits.writePage_eq, hr.named]

end Resides

/-! ### The pages in turn -/

/-- The pages that are written: those that are selected, up to the first that is checked out. -/
def due (e : Engine) (held : List Checkout) (only : Option TxnId) (ids : List PageId) : List PageId :=
  (ids.takeWhile fun id => e.Admits held id .exclusive).filter (e.picks only)

/-- The answer of a flush that has written `count` pages before these. -/
def flushAnswer (e : Engine) (held : List Checkout) (only : Option TxnId) (count : Nat)
    (ids : List PageId) : Except Error Nat :=
  match ids.find? fun id => ¬ e.Admits held id .exclusive with
  | some id => .error (.aborted (.lockTimeout .exclusive id))
  | none => .ok (count + ids.countP (e.picks only))

theorem flushEach_eq (h : e.pool.Sound held) (hpl : e.Placed) (only : Option TxnId) (count : Nat)
    (hn : ids.Nodup) (hres : ∀ id ∈ ids, (e.pool.copyOf? id).isSome = true) :
    flushEach only count ids e =
      (e.flushAnswer held only count ids, (e.due held only ids).foldl storedAt e) := by
  induction ids generalizing e count with
  | nil => rfl
  | cons id ids ih =>
    obtain ⟨hnot, hn⟩ := List.nodup_cons.1 hn
    obtain ⟨c, p, t, hr⟩ := hpl.resides h (hres id List.mem_cons_self)
    have hres' : ∀ id' ∈ ids, (e.pool.copyOf? id').isSome = true :=
      fun id' hid' => hres id' (List.mem_cons_of_mem _ hid')
    unfold flushEach flushAnswer due
    rcases hr.flushAt_cases h only with ⟨hlocked, heq⟩ | ⟨hfree, hpick, heq⟩ | ⟨hfree, hpick, heq⟩
    · simp [heq, hlocked]
    · rw [heq]
      refine (ih h hpl count hn hres').trans ?_
      simp [flushAnswer, due, hfree, hpick]
    · rw [heq]
      refine (ih (hr.sound_storedAt h) (hr.placed_storedAt h hpl) (count + 1) hn fun id' hid' => ?_).trans ?_
      · rw [copyOf?_storedAt]
        exact hres' id' hid'
      · -- what comes later is picked as before
        have hpicks : ∀ id' ∈ ids, (e.storedAt id).picks only id' = e.picks only id' := by
          intro id' hid'
          have hne : id' ≠ id := by
            rintro rfl
            exact hnot hid'
          rw [hr.picks_storedAt h]
          simp [hne]
        have hcount : ids.countP ((e.storedAt id).picks only) = ids.countP (e.picks only) :=
          List.countP_congr fun id' hid' => by rw [hpicks id' hid']
        have hfilter : (ids.takeWhile fun id => e.Admits held id .exclusive).filter
              ((e.storedAt id).picks only) =
            (ids.takeWhile fun id => e.Admits held id .exclusive).filter (e.picks only) :=
          List.filter_congr fun id' hid' => hpicks id' ((List.takeWhile_subset _) hid')
        simp only [flushAnswer, due, admits_storedAt, hcount, hfilter, List.find?_cons,
          List.takeWhile_cons, hfree, not_true_eq_false, decide_false, decide_true, if_true,
          List.filter_cons, hpick, List.countP_cons, List.foldl_cons]
        simp only [Nat.add_assoc, Nat.add_comm 1]

/-- These pages with the tables whose files they belong to. -/
def homes (e : Engine) (ids : List PageId) : List (Table × Page) :=
  ids.filterMap fun id => (e.table? id.table).bind fun t => (e.pool.page? id).map fun p => (t, p)

theorem mem_homes {w : Table × Page} : w ∈ e.homes ids ↔
    ∃ id ∈ ids, e.table? id.table = some w.1 ∧ e.pool.page? id = some w.2 := by
  unfold homes
  simp only [List.mem_filterMap, Option.bind_eq_some_iff, Option.map_eq_some_iff]
  constructor
  · rintro ⟨id, hid, t, ht, p, hp, rfl⟩
    exact ⟨id, hid, ht, hp⟩
  · rintro ⟨id, hid, ht, hp⟩
    exact ⟨id, hid, w.1, ht, w.2, hp, rfl⟩

/-- These pages were written one after the other. -/
structure StoredEach (e : Engine) (held : List Checkout) (ids : List PageId) (e' : Engine) : Prop where
  sound : e'.pool.Sound held
  placed : e'.Placed
  pool : ∃ copies, e'.pool = { e.pool with copies := copies }
  page? : ∀ id, e'.pool.page? id =
    if id ∈ ids then (e.pool.page? id).map Page.cleaned else e.pool.page? id
  copies : ∀ d, (∀ id ∈ ids, e.pool.copyOf? id ≠ some d) →
    e'.pool.copies.page? d = e.pool.copies.page? d
  disk : e'.disk = storeAll (e.homes ids) e.disk

theorem foldl_storedAt (h : e.pool.Sound held) (hpl : e.Placed) (hn : ids.Nodup)
    (hres : ∀ id ∈ ids, (e.pool.copyOf? id).isSome = true) :
    StoredEach e held ids (ids.foldl storedAt e) := by
  induction ids generalizing e with
  | nil => exact ⟨h, hpl, ⟨e.pool.copies, rfl⟩, fun id => by simp, fun _ _ => rfl, rfl⟩
  | cons id ids ih =>
    obtain ⟨hnot, hn⟩ := List.nodup_cons.1 hn
    obtain ⟨c, p, t, hr⟩ := hpl.resides h (hres id List.mem_cons_self)
    have hrest := ih (hr.sound_storedAt h) (hr.placed_storedAt h hpl) hn fun id' hid' => by
      rw [copyOf?_storedAt]
      exact hres id' (List.mem_cons_of_mem _ hid')
    obtain ⟨copies, hpool⟩ := e.pool_storedAt id
    obtain ⟨copies', hpool'⟩ := hrest.pool
    refine ⟨hrest.sound, hrest.placed, ⟨copies', ?_⟩, fun id' => ?_, fun d hd => ?_, ?_⟩
    · rw [List.foldl_cons, hpool', hpool]
    · rw [List.foldl_cons, hrest.page?, hr.page?_storedAt h]
      by_cases hid : id' = id
      · subst hid
        simp [hnot, hr.page]
      · simp [hid]
    · have hlater : ∀ id' ∈ ids, (e.storedAt id).pool.copyOf? id' ≠ some d := by
        intro id' hid'
        rw [copyOf?_storedAt]
        exact hd id' (List.mem_cons_of_mem _ hid')
      exact (hrest.copies d hlater).trans (hr.page?_copies_storedAt (hd id List.mem_cons_self))
    · have hhomes : (e.storedAt id).homes ids = e.homes ids := by
        apply List.filterMap_congr
        intro id' hid'
        have hne : id' ≠ id := by
          rintro rfl
          exact hnot hid'
        rw [table?_storedAt, hr.page?_storedAt h, if_neg hne]
      have hcons : e.homes (id :: ids) = (t, p) :: e.homes ids := by
        simp [homes, hr.table, hr.page]
      rw [List.foldl_cons, hrest.disk, hhomes, hcons, hr.disk_storedAt, ← hr.named]
      rfl

/-! ### Flushes -/

/-- Writes back the resident pages in the order of their ids. -/
def flush (e : Engine) (only : Option TxnId) : Except Error Nat × Engine :=
  writeBackAll only 0 e.pool.residents e

theorem flush_eq (h : e.pool.Sound held) (hpl : e.Placed) (only : Option TxnId) :
    e.flush only = (e.flushAnswer held only 0 e.pool.residentIds,
      (e.due held only e.pool.residentIds).foldl storedAt e) := by
  have hres : ∀ id ∈ e.pool.residentIds, (e.pool.copyOf? id).isSome = true :=
    fun _ hid => h.mem_residentIds.1 hid
  rw [flush, writeBackAll_eq_flushEach only 0 _ fun r hr => h.mem_residents.1 hr]
  exact flushEach_eq h hpl only 0 h.nodup_residentIds hres

/-- The page is resident and selected, and no resident page up to it is checked out. -/
structure Chosen (e : Engine) (held : List Checkout) (only : Option TxnId) (id : PageId) (p : Page) :
    Prop where
  page : e.pool.page? id = some p
  selected : p.isSelected only = true
  reached : ∀ id', (e.pool.copyOf? id').isSome = true → id'.le id = true →
    e.Admits held id' .exclusive

/-- The page is resident and somebody has it checked out. -/
def Blocked (e : Engine) (held : List Checkout) (id : PageId) : Prop :=
  (e.pool.copyOf? id).isSome = true ∧ ¬ e.Admits held id .exclusive

/-- What a flush of the selected pages does, with these checkouts out. -/
structure FlushEffect (e : Engine) (held : List Checkout) (only : Option TxnId)
    (res : Except Error Nat × Engine) : Prop where
  /-- It answers with the number of the selected pages if nobody has a page checked out. -/
  done : (∀ id, ¬ e.Blocked held id) → ∃ ids : List PageId, ids.Nodup ∧
    (∀ id, id ∈ ids ↔ ∃ p, e.pool.page? id = some p ∧ p.isSelected only = true) ∧
    res.1 = .ok ids.length
  /-- Otherwise it fails at the first page that somebody has checked out. -/
  stopped : (∃ id, e.Blocked held id) → ∃ id, e.Blocked held id ∧
    (∀ id', e.Blocked held id' → id.le id' = true) ∧
    res.1 = .error (.aborted (.lockTimeout .exclusive id))
  written : ∀ id p, e.Chosen held only id p → res.2.pool.page? id = some p.cleaned ∧
    p.cleaned.beforeBytes = p.cleaned.toBytes ∧
    ∃ t, e.table? id.table = some t ∧ t.window res.2.disk id.page = p.cleaned.toBytes
  unwritten : ∀ id, (∀ p, ¬ e.Chosen held only id p) → res.2.pool.page? id = e.pool.page? id
  /-- Copies that were dropped from the pool while they were out stay as they are. -/
  dropped : ∀ c, (∀ id, e.pool.copyOf? id ≠ some c) →
    res.2.pool.copies.page? c = e.pool.copies.page? c
  pool : ∃ copies, res.2.pool = { e.pool with copies := copies }
  bytes : ∀ path i, (∀ id p t, e.Chosen held only id p → e.table? id.table = some t →
      t.path = path → ¬ t.Spans id.page i) →
    (res.2.disk.contents path).byteAt i = (e.disk.contents path).byteAt i
  /-- A file ends where it did, or with a page that was written behind its end. -/
  sizes : ∀ path, (e.disk.contents path).size ≤ (res.2.disk.contents path).size ∧
    ((res.2.disk.contents path).size = (e.disk.contents path).size ∨
      ∃ id p t, e.Chosen held only id p ∧ e.table? id.table = some t ∧ t.path = path ∧
        (res.2.disk.contents path).size = id.page * t.pageSize + t.pageSize)
  again : ∀ k, res.1 = .ok k → res.2.flush only = (.ok 0, res.2)
  clean : only = none → ∀ k, res.1 = .ok k → ∀ id p, res.2.pool.page? id = some p → p.dirtiedBy = none

theorem isSome_copyOf?_of_page? (hp : e.pool.page? id = some p) :
    (e.pool.copyOf? id).isSome = true := by
  obtain ⟨c, hc, -⟩ := Option.bind_eq_some_iff.1 hp
  simp [hc]

theorem mem_selected (h : e.pool.Sound held) (only : Option TxnId) :
    id ∈ e.pool.residentIds.filter (e.picks only) ↔
      ∃ p, e.pool.page? id = some p ∧ p.isSelected only = true := by
  rw [List.mem_filter, h.mem_residentIds, picks, Option.any_eq_true]
  constructor
  · exact fun hid => hid.2
  · rintro ⟨p, hp, hsel⟩
    exact ⟨isSome_copyOf?_of_page? hp, p, hp, hsel⟩

theorem mem_due_iff (h : e.pool.Sound held) (only : Option TxnId) :
    id ∈ e.due held only e.pool.residentIds ↔ ∃ p, e.Chosen held only id p := by
  unfold due
  rw [List.mem_filter, PageId.mem_takeWhile e.pool.residentIds_sorted]
  simp only [h.mem_residentIds, decide_eq_true_eq, picks, Option.any_eq_true]
  constructor
  · rintro ⟨⟨-, hreached⟩, p, hp, hsel⟩
    exact ⟨p, hp, hsel, hreached⟩
  · rintro ⟨p, hp, hsel, hreached⟩
    exact ⟨⟨isSome_copyOf?_of_page? hp, hreached⟩, p, hp, hsel⟩

theorem nodup_due (h : e.pool.Sound held) (only : Option TxnId) :
    (e.due held only e.pool.residentIds).Nodup :=
  (h.nodup_residentIds.sublist (List.takeWhile_sublist _)).filter _

/-- The answer tells whether a page is checked out, and which is the first. -/
theorem flushAnswer_cases (h : e.pool.Sound held) (only : Option TxnId) :
    ((∀ id, ¬ e.Blocked held id) ∧ e.flushAnswer held only 0 e.pool.residentIds =
      .ok (e.pool.residentIds.filter (e.picks only)).length) ∨
    ∃ id, e.Blocked held id ∧ (∀ id', e.Blocked held id' → id.le id' = true) ∧
      e.flushAnswer held only 0 e.pool.residentIds =
        .error (.aborted (.lockTimeout .exclusive id)) := by
  unfold flushAnswer
  cases hf : e.pool.residentIds.find? fun id => ¬ e.Admits held id .exclusive with
  | none =>
    rw [List.find?_eq_none] at hf
    refine .inl ⟨fun id hb => ?_, ?_⟩
    · exact hf id (h.mem_residentIds.2 hb.1) (by simpa using hb.2)
    · simp [List.countP_eq_length_filter]
  | some id =>
    obtain ⟨hadmits, before, after, hids, hbefore⟩ := List.find?_eq_some_iff_append.1 hf
    have hid : id ∈ e.pool.residentIds := by simp [hids]
    refine .inr ⟨id, ⟨h.mem_residentIds.1 hid, by simpa using hadmits⟩, fun id' hb => ?_, rfl⟩
    have hsorted := e.pool.residentIds_sorted
    have hid' := h.mem_residentIds.2 hb.1
    rw [hids] at hsorted hid'
    rcases List.mem_append.1 hid' with hbef | haft
    · exact absurd hb.2 (by simpa using hbefore id' hbef)
    · rcases List.mem_cons.1 haft with rfl | haft
      · simpa using PageId.le_total id' id'
      · exact (List.pairwise_cons.1 (List.pairwise_append.1 hsorted).2.1).1 id' haft

/-- A flush after a flush that got to the end finds nothing to do. -/
theorem StoredEach.flush_again (hs : StoredEach e held (e.due held only e.pool.residentIds) e')
    (h : e.pool.Sound held) (hfree : ∀ id, ¬ e.Blocked held id) :
    (∀ id p, e'.pool.page? id = some p → p.isSelected only = false) ∧
      e'.flush only = (.ok 0, e') := by
  have hclean : ∀ id p, e'.pool.page? id = some p → p.isSelected only = false := by
    intro id p hp
    rw [hs.page?] at hp
    split at hp
    · obtain ⟨q, -, rfl⟩ := Option.map_eq_some_iff.1 hp
      rfl
    · next hnot =>
      rw [mem_due_iff h] at hnot
      cases hsel : p.isSelected only with
      | false => rfl
      | true =>
        refine absurd ⟨p, hp, hsel, fun id' hres _ => ?_⟩ hnot
        by_contra hadmits
        exact hfree id' ⟨hres, hadmits⟩
  refine ⟨hclean, ?_⟩
  have hpicks : ∀ id, e'.picks only id = false := by
    intro id
    unfold picks
    cases hp : e'.pool.page? id with
    | none => rfl
    | some p => simpa using hclean id p hp
  have hfilter (ids : List PageId) : ids.filter (e'.picks only) = [] := by
    simp [List.filter_eq_nil_iff, hpicks]
  obtain ⟨copies, hpool⟩ := hs.pool
  have hblocked : ∀ id, e'.Blocked held id → e.Blocked held id := by
    intro id hb
    unfold Blocked Admits holders at hb ⊢
    rwa [hpool] at hb
  rw [flush_eq hs.sound hs.placed, due, hfilter, List.foldl_nil]
  rcases flushAnswer_cases hs.sound only with ⟨-, hanswer⟩ | ⟨id, hb, -⟩
  · rw [hanswer, hfilter, List.length_nil]
  · exact absurd (hblocked id hb) (hfree id)

/-- The table is registered under its id, and its file is there. -/
def Mounts (e : Engine) (t : Table) : Prop := e.table? t.id = some t ∧ t.Stands e.disk

theorem mounted (e : Engine) : Mounted e.Mounts e.disk where
  stands _ ht := ht.2
  apart t u ht hu hid := by
    have htables := ht.1
    rw [hid, hu.1] at htables
    exact (Option.some.inj htables).symm

theorem HasPlace.mounts (h : e.HasPlace id p t) : e.Mounts t := by
  refine ⟨?_, h.stands⟩
  rw [← h.fits.table, h.named]
  exact h.table

theorem Placed.of_mem_homes (hpl : e.Placed) {w : Table × Page} (hw : w ∈ e.homes ids) :
    ∃ id ∈ ids, e.HasPlace id w.2 w.1 ∧ e.pool.page? id = some w.2 := by
  obtain ⟨id, hid, ht, hp⟩ := mem_homes.1 hw
  obtain ⟨t, hplace⟩ := hpl id w.2 hp
  obtain rfl : t = w.1 := Option.some.inj (hplace.table.symm.trans ht)
  exact ⟨id, hid, hplace, hp⟩

/-- The pages that were written are found in their windows. -/
theorem StoredEach.window (hs : StoredEach e held ids e') (hpl : e.Placed) (hid : id ∈ ids)
    (hp : e.pool.page? id = some p) :
    ∃ t, e.table? id.table = some t ∧ t.window e'.disk id.page = p.toBytes := by
  obtain ⟨t, hplace⟩ := hpl id p hp
  refine ⟨t, hplace.table, ?_⟩
  have hws : ∀ w ∈ e.homes ids, e.Mounts w.1 ∧ w.2.Fits w.1 := by
    intro w hw
    obtain ⟨_, -, hplace', -⟩ := hpl.of_mem_homes hw
    exact ⟨hplace'.mounts, hplace'.fits⟩
  have hw : (t, p) ∈ e.homes ids := mem_homes.2 ⟨id, hid, hplace.table, hp⟩
  rw [hs.disk, ← hplace.named]
  refine e.mounted.window_storeAll hws hw fun w' hw' hsame => ?_
  -- the page with this id is this one
  obtain ⟨id', -, hplace', hp'⟩ := hpl.of_mem_homes hw'
  rw [← hplace'.named, hsame, hplace.named, hp] at hp'
  exact (Option.some.inj hp').symm

theorem Placed.homes_stand (hpl : e.Placed) : ∀ w ∈ e.homes ids, w.1.Stands e.disk ∧ w.2.Fits w.1 := by
  intro w hw
  obtain ⟨_, -, hplace, -⟩ := hpl.of_mem_homes hw
  exact ⟨hplace.stands, hplace.fits⟩

/-- What a flush stores are the chosen pages. -/
theorem chosen_of_mem_homes (h : e.pool.Sound held) (hpl : e.Placed) {w : Table × Page}
    (hw : w ∈ e.homes (e.due held only e.pool.residentIds)) :
    e.Chosen held only w.2.id w.2 ∧ e.table? w.2.id.table = some w.1 := by
  obtain ⟨id, hid, hplace, hp⟩ := hpl.of_mem_homes hw
  obtain ⟨p, hc⟩ := (mem_due_iff h only).1 hid
  obtain rfl : p = w.2 := Option.some.inj (hc.page.symm.trans hp)
  rw [hplace.named]
  exact ⟨hc, hplace.table⟩

theorem foldl_due (h : e.pool.Sound held) (hpl : e.Placed) (only : Option TxnId) :
    StoredEach e held (e.due held only e.pool.residentIds)
      ((e.due held only e.pool.residentIds).foldl storedAt e) := by
  refine foldl_storedAt h hpl (nodup_due h only) fun id hid => ?_
  obtain ⟨p, hc⟩ := (mem_due_iff h only).1 hid
  exact isSome_copyOf?_of_page? hc.page

/-- Where every resident page has a place of its own, a flush has this effect. -/
theorem flush_effect (h : e.pool.Sound held) (hpl : e.Placed) (only : Option TxnId) :
    FlushEffect e held only (e.flush only) := by
  have hs := foldl_due h hpl only
  have hanswer := flushAnswer_cases h only
  -- an answer is given where nothing is blocked
  have hfree : ∀ k, e.flushAnswer held only 0 e.pool.residentIds = .ok k → ∀ id, ¬ e.Blocked held id := by
    intro k hk
    rcases hanswer with ⟨hfree, -⟩ | ⟨_, -, -, herr⟩
    · exact hfree
    · rw [hk] at herr
      cases herr
  rw [flush_eq h hpl]
  exact {
    done := by
      intro hnone
      rcases hanswer with ⟨-, hok⟩ | ⟨id, hb, -⟩
      · exact ⟨_, h.nodup_residentIds.filter (e.picks only), fun _ => mem_selected h only, hok⟩
      · exact absurd hb (hnone id)
    stopped := by
      rintro ⟨id, hb⟩
      rcases hanswer with ⟨hnone, -⟩ | hstop
      · exact absurd hb (hnone id)
      · exact hstop
    written := by
      intro id p hc
      have hid := (mem_due_iff h only).2 ⟨p, hc⟩
      have hpage : ((e.due held only e.pool.residentIds).foldl storedAt e).pool.page? id =
          some p.cleaned := by
        rw [hs.page?, if_pos hid, hc.page]
        rfl
      obtain ⟨t, ht, hwindow⟩ := hs.window hpl hid hc.page
      exact ⟨hpage, rfl, t, ht, hwindow⟩
    unwritten := by
      intro id hnone
      rw [hs.page?, if_neg]
      rintro hid
      obtain ⟨p, hc⟩ := (mem_due_iff h only).1 hid
      exact hnone p hc
    dropped := fun c hc => hs.copies c fun id _ => hc id
    pool := hs.pool
    bytes := by
      intro path i hout
      rw [hs.disk]
      refine Table.byteAt_storeAll hpl.homes_stand fun w hw hpath => ?_
      obtain ⟨hc, ht⟩ := chosen_of_mem_homes h hpl hw
      exact hout w.2.id w.2 w.1 hc ht hpath
    sizes := by
      intro path
      rw [hs.disk]
      refine (Table.size_storeAll hpl.homes_stand).imp_right (Or.imp_right ?_)
      rintro ⟨w, hw, hpath, hsize⟩
      obtain ⟨hc, ht⟩ := chosen_of_mem_homes h hpl hw
      exact ⟨w.2.id, w.2, w.1, hc, ht, hpath, hsize⟩
    again := fun k hk => (hs.flush_again h (hfree k hk)).2
    clean := by
      rintro rfl k hk id p hp
      have hsel := (hs.flush_again h (hfree k hk)).1 id p hp
      by_contra hdirty
      rw [Page.isSelected_none_iff.2 hdirty] at hsel
      cases hsel }

/-- Every resident page is found under its own id and belongs to a registered table, with pages of its
size, whose file is there. The number of a page has 32 bits. -/
def Homed (e : Engine) : Prop :=
  ∀ id p, e.pool.page? id = some p → p.id = id ∧ id.page < 0x100000000 ∧
    ∃ t, e.table? id.table = some t ∧ p.layout.pageSize = t.pageSize ∧ t.Stands e.disk

theorem Homed.placed (h : e.Homed) (hreg : e.Registered)
    (hsound : ∀ id p, e.pool.page? id = some p → p.Sound) : e.Placed := by
  intro id p hp
  obtain ⟨hid, hnumber, t, ht, hsize, hst⟩ := h id p hp
  refine ⟨t, ht, hid, ⟨hsound id p hp, ?_, hsize, ?_⟩, hst⟩
  · rw [hid, hreg _ t ht]
  · rw [hid]
    exact hnumber

end Engine

namespace Session

open Engine (Homed FlushEffect)

/-- What the flushes over several pages do, in every state that a new pool can be brought into. Pages
that are taken in are pages as they are read from files. -/
theorem flush_outcome (d : Disk) (n : Nat) (es : List Event)
    (hes : ∀ id page, .call (.adopt id page) ∈ es → page.Sound)
    (hhome : Homed ((start d n []).afterEvents es).engine) :
    FlushEffect ((start d n []).afterEvents es).engine ((start d n []).afterEvents es).held none
        ((start d n []).afterEvents es).engine.flushAll ∧
      ∀ txn, FlushEffect ((start d n []).afterEvents es).engine ((start d n []).afterEvents es).held
        (some txn) (((start d n []).afterEvents es).engine.flushTxn txn) := by
  have hsound := sound_of_new d n es
  have hpl := hhome.placed (registered_of_new d n es) <|
    residents_of_new d n (fun _ _ _ _ hk => hk.sound) (fun _ p call hp => by
      have hk : p.Kind p.id p.schema p.layout.pageSize := ⟨hp, rfl, rfl, rfl⟩
      exact (hk.call call).sound) hes
  exact ⟨Engine.flush_effect hsound hpl none, fun txn => Engine.flush_effect hsound hpl (some txn)⟩

/-- Two pages are dirty, and somebody reads the second. -/
def tinyBlocked : List Event :=
  [.register tinyTable, .call (.insert tinyTable.id ⟨1⟩ (tinyTuple 7 none)),
    .call (.insert tinyTable.id ⟨1⟩ (tinyTuple 8 none)),
    .call (.insert tinyTable.id ⟨2⟩ (tinyTuple 9 none)), .call (.get (tinyPage 1) .shared)]

theorem flush_outcome_blocked :
    (∀ id page, .call (.adopt id page) ∈ tinyBlocked → page.Sound) ∧
      Homed ((start tinyDisk 2 []).afterEvents tinyBlocked).engine ∧
      ((start tinyDisk 2 []).afterEvents tinyBlocked).engine.flushAll.1 =
        .error (.aborted (.lockTimeout .exclusive (tinyPage 1))) := by
  have hes : ∀ id page, .call (.adopt id page) ∈ tinyBlocked → page.Sound := by
    intro id page h
    simp [tinyBlocked] at h
  have hindex : ∀ e ∈ ((start tinyDisk 2 []).afterEvents tinyBlocked).engine.pool.index,
      (e.1 = tinyPage 1 ∨ ((start tinyDisk 2 []).afterEvents tinyBlocked).engine.Admits
        ((start tinyDisk 2 []).afterEvents tinyBlocked).held e.1 .exclusive) ∧
      ∀ p ∈ ((start tinyDisk 2 []).afterEvents tinyBlocked).engine.pool.page? e.1,
        p.id = e.1 ∧ e.1.page < 0x100000000 ∧ e.1.table = tinyTable.id ∧ p.layout.pageSize = 9 := by
    decide +kernel
  have hhome : Homed ((start tinyDisk 2 []).afterEvents tinyBlocked).engine := by
    intro id p hp
    obtain ⟨i, hi⟩ := Pool.mem_index_of_copyOf? (Engine.isSome_copyOf?_of_page? hp)
    obtain ⟨hname, hnumber, htable, hsize⟩ := (hindex _ hi).2 p hp
    refine ⟨hname, hnumber, tinyTable, ?_, hsize,
      ((start tinyDisk 2 []).afterEvents tinyBlocked).engine.disk.contents "/t", ?_⟩
    · rw [htable]
      decide +kernel
    · decide +kernel
  obtain ⟨id, hb, -, herr⟩ := (flush_outcome tinyDisk 2 tinyBlocked hes hhome).1.stopped
    ⟨tinyPage 1, by decide +kernel, by decide +kernel⟩
  obtain ⟨i, hi⟩ := Pool.mem_index_of_copyOf? hb.1
  obtain rfl := (hindex _ hi).1.resolve_right hb.2
  exact ⟨hes, hhome, herr⟩

end Session

end HeapStore
