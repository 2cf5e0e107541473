import HeapStore.Proofs.TableGrowth

/-! Storing and removing tuples. A table is a map from record ids to values, read off its logical
pages. A tuple that is stored takes a key that was free, one that is removed gives its key up, and on
every failure, also after the table has grown by an empty page, the map is what it was. -/

namespace HeapStore

namespace Engine

open Pool (Compatible)

/-- The tables as a map from record ids to values. -/
def rows (e : Engine) (r : RecordId) : Option (List Value) := (e.logical r.page).bind (·.row r.slot)

/-- One slot was filled or freed, on a page that nobody had checked out; its page is dirty. -/
def SlotSet (held : List Checkout) (txn : TxnId) (r : RecordId) (o : Option Tuple) (e e' : Engine) :
    Prop :=
  ∃ p, Option.Rel Page.Alike (e.logical r.page) (some p) ∧ r.slot < p.slots.length ∧
    Changed held r.page ((p.setSlot r.slot o).markDirty true txn) e e'

/-- What comes of storing a tuple: it takes a key that was free, or everything is as it was. -/
inductive Stored (held : List Checkout) (txn : TxnId) (t : Tuple) (e : Engine) :
    Except Error RecordId → Tuple → Engine → Prop
  | failed {err : Error} {e' : Engine} : Unchanged held e e' → Stored held txn t e (.error err) t e'
  | done {r : RecordId} {e' : Engine} : e.rows r = none →
      SlotSet held txn r (some (t.withRid (some r))) e e' →
      Stored held txn t e (.ok r) (t.withRid (some r)) e'

/-- The table grows by an empty page, the one with number `n`, and the tuple is stored there. -/
def insertNew (e : Engine) (table : Table) (n : Nat) (txn : TxnId) (t : Tuple) :
    Except Error RecordId × Tuple × Engine :=
  match e.appendPage table n with
  | (.error err, e) => (.error err, t, e)
  | (.ok id, e) =>
    match e.getPage id .exclusive with
    | (.error err, e) => (.error err, t, e)
    | (.ok g, e) =>
      match e.pageAt? g with
      | none => (.error (.internal .staleCheckout), t, e)
      | some page => e.insertAt g page txn t

variable {e e' e'' : Engine} {held : List Checkout} {loose : Nat → Prop} {id : PageId}
  {c : Nat} {p : Page} {txn : TxnId} {r : RecordId} {o : Option Tuple} {t : Tuple}

theorem row_of_rel {o o' : Option Page} (h : Option.Rel Page.Alike o o') (i : Nat) :
    o.bind (·.row i) = o'.bind (·.row i) := by
  cases h with
  | none => rfl
  | some h => exact h.row i

theorem Unchanged.rows_eq (h : Unchanged held e e') : e'.rows = e.rows :=
  funext fun r => (row_of_rel (h.pages r.page) r.slot).symm

theorem SlotSet.rows_eq (h : SlotSet held txn r o e e') (s : RecordId) :
    e'.rows s = if s = r then o.map (·.values) else e.rows s := by
  obtain ⟨p, hp, hlt, hch⟩ := h
  by_cases hpage : s.page = r.page
  · have hrow : e'.rows s = (p.setSlot r.slot o).row s.slot := by
      unfold rows
      rw [hpage, hch.now]
      rfl
    rw [hrow, Page.row_setSlot hlt]
    by_cases hslot : s.slot = r.slot
    · have : s = r := by
        cases s
        cases r
        simp_all
      rw [if_pos hslot, if_pos this]
    · rw [if_neg hslot, if_neg (by rintro rfl; exact hslot rfl)]
      unfold rows
      rw [hpage]
      exact (row_of_rel hp s.slot).symm
  · rw [if_neg (by rintro rfl; exact hpage rfl)]
    exact (row_of_rel (hch.others s.page hpage) s.slot).symm

theorem Unchanged.slotSet (h : Unchanged held e e') (h' : SlotSet held txn r o e' e'') :
    SlotSet held txn r o e e'' := by
  obtain ⟨p, hp, hlt, hch⟩ := h'
  exact ⟨p, rel_trans (h.pages r.page) hp, hlt, h.then hch⟩

theorem Unchanged.stored (h : Unchanged held e e') {x : Except Error RecordId} {t' : Tuple}
    (h' : Stored held txn t e' x t' e'') : Stored held txn t e x t' e'' := by
  cases h' with
  | failed hun => exact .failed (h.trans hun)
  | done hfree hset => exact .done (by rw [← h.rows_eq, hfree]) (h.slotSet hset)

theorem SlotSet.follows (h : SlotSet held txn r o e e') : Follows held e e' := by
  obtain ⟨p, -, -, hch⟩ := h
  exact hch.toFollows

/-! ### Disks -/

theorem disk_getPage (e : Engine) (id : PageId) (access : Access) :
    (e.getPage id access).2.disk = e.disk := by
  have hload (e : Engine) : (e.load id).2.disk = e.disk := by
    rw [Coherent.load_eq]
    split <;> rfl
  have hfetch : (e.fetch id).2.disk = e.disk := by
    unfold fetch
    split
    · split
      · rfl
      · exact hload _
    · exact hload _
  unfold getPage
  split
  · next heq => rw [heq] at hfetch; exact hfetch
  · next heq => rw [heq] at hfetch; exact hfetch

theorem disk_insertAt (e : Engine) (g : Checkout) (page : Page) (txn : TxnId) (t : Tuple) :
    (e.insertAt g page txn t).2.2.disk = e.disk := by
  unfold insertAt
  simp only
  split <;> rfl

theorem disk_insertInto (table : Nat) (txn : TxnId) (t : Tuple) (count n : Nat) (e : Engine) :
    (insertInto table txn t count n e).2.2.disk = e.disk := by
  induction count generalizing n e t with
  | zero => rfl
  | succ count ih =>
    have hget := disk_getPage e ⟨table, n⟩ .exclusive
    unfold insertInto
    split
    · next heq => rw [heq] at hget; exact hget
    · next g e1 heq =>
      rw [heq] at hget
      have hget : e1.disk = e.disk := hget
      split
      · exact hget
      · next p hp =>
        split
        · exact (ih t (n + 1) _).trans hget
        · have hins := disk_insertAt e1 g p txn t
          split
          · next heq => rw [heq] at hins; exact hins.trans hget
          · next t' e2 heq =>
            rw [heq] at hins
            split
            · exact (ih t' (n + 1) e2).trans (hins.trans hget)
            · exact hins.trans hget

/-- Once a table has grown, nothing else is written. -/
theorem disk_insertNew (e : Engine) (table : Table) (txn : TxnId) (t : Tuple) :
    (e.insertNew table (table.pageCount e.disk) txn t).2.2.disk = table.grow e.disk := by
  have hdisk := e.disk_appendPage table
  unfold insertNew
  split
  · next happ =>
    rw [happ] at hdisk
    exact hdisk
  · next id e1 happ =>
    rw [happ] at hdisk
    have hget := disk_getPage e1 id .exclusive
    split
    · next heq =>
      rw [heq] at hget
      exact hget.trans hdisk
    · next heq =>
      rw [heq] at hget
      split
      · exact hget.trans hdisk
      · rw [disk_insertAt]
        exact hget.trans hdisk

theorem insertTuple_eq (e : Engine) (table : Table) (txn : TxnId) (t : Tuple) :
    e.insertTuple table txn t =
      match t.checkSchema table.schema with
      | .error err => (.error err, t, e)
      | .ok () =>
        match insertInto table.id txn t (table.pageCount e.disk) 0 e with
        | (.error err, t, e) => (.error err, t, e)
        | (.ok (some rid), t, e) => (.ok rid, t, e)
        | (.ok none, t, e') => e'.insertNew table (table.pageCount e.disk) txn t := rfl

/-! ### Full tables -/

/-- The search of an insert goes over so many pages from a number on: each in turn can be checked out,
and has no free slot. -/
def FindsFull (table : Nat) : (count n : Nat) → Engine → Prop
  | 0, _, _ => True
  | count + 1, n, e => ∃ g e' p, e.getPage ⟨table, n⟩ .exclusive = (.ok g, e') ∧
      e'.pageAt? g = some p ∧ p.freeSlots = 0 ∧ FindsFull table count (n + 1) (e'.release g)

/-- A page with a free slot ends the search, whether it takes the tuple or not. -/
theorem insertAt_ends (e : Engine) (g : Checkout) (hfree : p.freeSlots ≠ 0) {err : Error}
    (h : (e.insertAt g p txn t).1 = .error err) : err.isPageFull = false := by
  cases hi : (p.insert t).1 with
  | error err' =>
    have herr : (e.insertAt g p txn t).1 = .error err' := by
      unfold insertAt
      simp only [hi]
    rw [herr] at h
    cases h
    exact p.isPageFull_insert hfree hi
  | ok rid =>
    have hok : (e.insertAt g p txn t).1 = .ok rid := by
      unfold insertAt
      simp only [hi]
    rw [hok] at h
    cases h

theorem insertInto_eq_none_iff (txn : TxnId) (t : Tuple) (table count n : Nat) (e : Engine) :
    (insertInto table txn t count n e).1 = .ok none ↔ FindsFull table count n e := by
  induction count generalizing n e with
  | zero => exact ⟨fun _ => trivial, fun _ => rfl⟩
  | succ count ih =>
    unfold insertInto FindsFull
    cases hget : e.getPage ⟨table, n⟩ .exclusive with
    | mk r e1 =>
      cases r with
      | error err => simp
      | ok g =>
        cases hp : e1.pageAt? g with
        | none => simp [hp]
        | some p =>
          by_cases hfree : p.freeSlots = 0
          · simp [hp, hfree, ih, and_assoc]
          · have hends : ∀ err, (e1.insertAt g p txn t).1 = .error err → err.isPageFull = false :=
              fun _ => insertAt_ends e1 g hfree
            cases hins : e1.insertAt g p txn t with
            | mk r rest =>
              obtain ⟨t', e2⟩ := rest
              rw [hins] at hends
              cases r with
              | ok rid => simp [hp, hfree, hins]
              | error err => simp [hp, hfree, hins, hends err rfl]

namespace Coherent

/-- The holder of an exclusive checkout is the only holder. -/
theorem alone (h : e.Coherent (⟨c, .exclusive⟩ :: held) loose) : ∀ g ∈ held, g.copy ≠ c := by
  intro g hg hgc
  have hpos := Pool.mem_held_iff.1 ⟨g, hg, hgc⟩
  obtain ⟨hr, hw⟩ := h.pool.compatible_of_exclusive
  omega

/-- A slot of a page that is checked out exclusively is filled or freed. -/
theorem setSlot (h : e.Coherent (⟨c, .exclusive⟩ :: held) loose) (hc : e.pool.copyOf? id = some c)
    (hp : e.pool.copies.page? c = some p) (hl : ¬ loose c) {slot : Nat} (hs : slot < p.slots.length)
    (ho : ∀ t, o = some t → t.schema.types = p.schema.types ∧ t.rid = some ⟨p.id, slot⟩)
    (txn : TxnId) :
    ((e.setPage c ((p.setSlot slot o).markDirty true txn)).release ⟨c, .exclusive⟩).Coherent held
        loose ∧
      SlotSet held txn ⟨id, slot⟩ o e
        ((e.setPage c ((p.setSlot slot o).markDirty true txn)).release ⟨c, .exclusive⟩) := by
  have hcoh : (e.setPage c ((p.setSlot slot o).markDirty true txn)).Coherent
      (⟨c, .exclusive⟩ :: held) loose := by
    refine h.setPage hp (fun t id' _ hb => ?_) (fun _ _ hd => hd) h.loose
    exact hb.changed ((hb.sound.setSlot hs ho).markDirty true txn) rfl rfl rfl rfl
      fun hd => by cases hd
  have hch : Changed held id ((p.setSlot slot o).markDirty true txn) e
      (e.setPage c ((p.setSlot slot o).markDirty true txn)) := h.changed_setPage hc hp h.alone
  obtain ⟨hrel, hun⟩ := hcoh.release fun _ => hl
  refine ⟨hrel, p, ?_, hs, hch.toFollows.trans hun.toFollows, ?_, fun id' hne => ?_⟩
  · rw [logical_of_page? hc hp]
    exact rel_refl _
  · -- giving the checkout back leaves the very page
    refine logical_of_page? (e := Engine.release _ _) hc ?_
    have hsame := hcoh.pool.page?_release (c := c) (.inl (h.pool.seated_iff.2 ⟨id, hc⟩))
    refine hsame.trans ?_
    rw [page?_setPage hp, if_pos rfl]
  · exact rel_trans (hch.others id' hne) (hun.pages id')

/-! ### Storing a tuple -/

theorem insertAt_cases (h : e.Coherent (⟨c, .exclusive⟩ :: held) loose)
    (hc : e.pool.copyOf? id = some c) (hp : e.pool.copies.page? c = some p) (hl : ¬ loose c)
    (txn : TxnId) (t : Tuple) :
    ∃ r t' e', e.insertAt ⟨c, .exclusive⟩ p txn t = (r, t', e') ∧ e'.disk = e.disk ∧
      e'.Coherent held loose ∧ Stored held txn t e r t' e' := by
  have hlogical := logical_of_page? hc hp
  obtain ⟨-, hid⟩ := h.logical_sound hlogical
  have hd := disk_insertAt e ⟨c, .exclusive⟩ p txn t
  unfold insertAt at hd ⊢
  rcases p.insert_cases t with ⟨err, hi⟩ | ⟨slot, htypes, hs, hnone, hi⟩
  · rw [hi] at hd ⊢
    obtain ⟨hrel, hun⟩ := h.release fun _ => hl
    exact ⟨_, _, _, rfl, hd, hrel, .failed hun⟩
  · rw [hi] at hd ⊢
    simp only [edit_exclusive hp] at hd ⊢
    obtain ⟨hcoh, hset⟩ := h.setSlot (o := some (t.withRid (some ⟨p.id, slot⟩))) hc hp hl hs
      (fun u hu => by cases hu; exact ⟨htypes, rfl⟩) txn
    rw [hid] at hcoh hset hd ⊢
    refine ⟨_, _, _, rfl, hd, hcoh, .done ?_ hset⟩
    rw [rows, hlogical, Option.bind_some, Page.row, hnone]
    rfl

/-- Trying pages in turn changes nothing until a page takes the tuple. -/
theorem insertInto_cases (h : e.Coherent held loose) (table : Nat) (txn : TxnId) (t : Tuple)
    (count n : Nat) :
    ∃ r t' e', insertInto table txn t count n e = (r, t', e') ∧ e'.disk = e.disk ∧
      e'.Coherent held loose ∧ ((r = .ok none ∧ t' = t ∧ Unchanged held e e') ∨
        ∃ r', r = r'.map some ∧ Stored held txn t e r' t' e') := by
  induction count generalizing n e with
  | zero => exact ⟨_, _, _, rfl, rfl, h, .inl ⟨rfl, rfl, .refl held e⟩⟩
  | succ count ih =>
    -- a page that does not take the tuple is given back, and the search goes on
    have next : ∀ e1, e1.disk = e.disk → Unchanged held e e1 → e1.Coherent held loose →
        ∃ r t' e', insertInto table txn t count (n + 1) e1 = (r, t', e') ∧ e'.disk = e.disk ∧
          e'.Coherent held loose ∧ ((r = .ok none ∧ t' = t ∧ Unchanged held e e') ∨
            ∃ r', r = r'.map some ∧ Stored held txn t e r' t' e') := by
      intro e1 hd1 hun1 h1
      obtain ⟨r, t', e', heq, hd, hcoh, hcases⟩ := ih h1 (n + 1)
      refine ⟨r, t', e', heq, hd.trans hd1, hcoh, ?_⟩
      rcases hcases with ⟨hr, ht, hun⟩ | ⟨r', hr, hstored⟩
      · exact .inl ⟨hr, ht, hun1.trans hun⟩
      · exact .inr ⟨r', hr, hun1.stored hstored⟩
    unfold insertInto
    rcases h.getPage_or_fail ⟨table, n⟩ .exclusive with ⟨err, e1, hget, hd1, hun1, hcoh⟩ |
      ⟨c, p, e1, hget, hd1, hun1, hcoh, hl, hc, hp⟩
    · rw [hget]
      exact ⟨_, _, _, rfl, hd1, hcoh, .inr ⟨.error err, rfl, .failed hun1⟩⟩
    · rw [hget]
      have hpage : e1.pageAt? ⟨c, .exclusive⟩ = some p := hp
      simp only [hpage]
      split
      · obtain ⟨hrel, hun⟩ := hcoh.release fun _ => hl
        exact next _ hd1 (hun1.trans hun) hrel
      · obtain ⟨r, t', e2, hins, hd2, hcoh2, hstored⟩ := hcoh.insertAt_cases hc hp hl txn t
        rw [hins]
        cases hstored with
        | failed hun =>
          simp only
          split
          · exact next e2 (hd2.trans hd1) (hun1.trans hun) hcoh2
          · exact ⟨_, _, _, rfl, hd2.trans hd1, hcoh2, .inr ⟨.error _, rfl, .failed (hun1.trans hun)⟩⟩
        | done hfree hset =>
          exact ⟨_, _, _, rfl, hd2.trans hd1, hcoh2,
            .inr ⟨.ok _, rfl, hun1.stored (.done hfree hset)⟩⟩

theorem insertNew_cases (h : e.Coherent held loose) {table : Table}
    (ht : e.table? table.id = some table) (txn : TxnId) (t : Tuple)
    (hs : table.Small (table.grow e.disk)) :
    ∃ r t' e', e.insertNew table (table.pageCount e.disk) txn t = (r, t', e') ∧
      e'.Coherent held loose ∧ Stored held txn t e r t' e' := by
  unfold insertNew
  obtain ⟨ra, e1, happ, -, hcoh1, hun1, -, hcases⟩ := h.appendPage_cases ht hs
  rw [happ]
  rcases hcases with ⟨-, rfl⟩ | ⟨-, rfl, -⟩
  · exact ⟨_, _, _, rfl, hcoh1, .failed hun1⟩
  · simp only
    rcases hcoh1.getPage_or_fail ⟨table.id, table.pageCount e.disk⟩ .exclusive with
      ⟨err, e2, hget, -, hun2, hcoh2⟩ | ⟨c, p, e2, hget, -, hun2, hcoh2, hl, hc, hp⟩
    · rw [hget]
      exact ⟨_, _, _, rfl, hcoh2, .failed (hun1.trans hun2)⟩
    · rw [hget]
      have hpage : e2.pageAt? ⟨c, .exclusive⟩ = some p := hp
      simp only [hpage]
      obtain ⟨r, t', e3, hins, -, hcoh3, hstored⟩ := hcoh2.insertAt_cases hc hp hl txn t
      exact ⟨r, t', e3, hins, hcoh3, (hun1.trans hun2).stored hstored⟩

/-- A tuple that is stored goes to a key that was free; a tuple that is not leaves everything as it
was. The tables stay small if they are small in the end. -/
theorem insertTuple_cases (h : e.Coherent held loose) {table : Table}
    (ht : e.table? table.id = some table) (txn : TxnId) (t : Tuple)
    (hs : table.Small (e.insertTuple table txn t).2.2.disk) :
    ∃ r t' e', e.insertTuple table txn t = (r, t', e') ∧ e'.Coherent held loose ∧
      Stored held txn t e r t' e' := by
  rw [insertTuple_eq] at hs ⊢
  cases hcheck : t.checkSchema table.schema with
  | error err => exact ⟨_, _, _, rfl, h, .failed (.refl held e)⟩
  | ok =>
    rw [hcheck] at hs
    simp only at hs ⊢
    obtain ⟨r, t', e1, hinto, hd1, hcoh1, hcases⟩ :=
      h.insertInto_cases table.id txn t (table.pageCount e.disk) 0
    rw [hinto] at hs ⊢
    rcases hcases with ⟨rfl, rfl, hun1⟩ | ⟨r', rfl, hstored⟩
    · -- all pages are full and the table grows
      simp only at hs ⊢
      rw [← hd1] at hs ⊢
      rw [disk_insertNew] at hs
      obtain ⟨r, t', e2, heq, hcoh2, hstored⟩ :=
        hcoh1.insertNew_cases (by rw [hun1.table?_eq, ht]) txn t' hs
      exact ⟨r, t', e2, heq, hcoh2, hun1.stored hstored⟩
    · cases r' with
      | error err => exact ⟨_, _, _, rfl, hcoh1, hstored⟩
      | ok rid => exact ⟨_, _, _, rfl, hcoh1, hstored⟩

/-! ### Removing a tuple -/

/-- A tuple that is removed was there; on a failure everything is as it was. -/
theorem deleteTuple_cases (h : e.Coherent held loose) (table : Table) (txn : TxnId) (t : Tuple) :
    ∃ r e', e.deleteTuple table txn t = (r, e') ∧ e'.disk = e.disk ∧ e'.Coherent held loose ∧
      ((∃ err, r = .error err ∧ Unchanged held e e') ∨
       (∃ rid, t.rid = some rid ∧ r = .ok rid.page ∧ (e.rows rid).isSome = true ∧
         SlotSet held txn rid none e e')) := by
  unfold deleteTuple
  cases hrid : t.rid with
  | none => exact ⟨_, _, rfl, rfl, h, .inl ⟨_, rfl, .refl held e⟩⟩
  | some rid =>
    simp only
    split
    · exact ⟨_, _, rfl, rfl, h, .inl ⟨_, rfl, .refl held e⟩⟩
    · rcases h.getPage_or_fail rid.page .exclusive with ⟨err, e1, hget, hd1, hun1, hcoh⟩ |
        ⟨c, p, e1, hget, hd1, hun1, hcoh, hl, hc, hp⟩
      · rw [hget]
        exact ⟨_, _, rfl, hd1, hcoh, .inl ⟨_, rfl, hun1⟩⟩
      · rw [hget]
        have hlogical := logical_of_page? hc hp
        obtain ⟨hsound, -⟩ := hcoh.logical_sound hlogical
        simp only [edit_exclusive hp]
        rcases p.delete_cases t with ⟨err, hdel⟩ | ⟨slot, hslot, hused, hdel⟩
        · simp only [hdel]
          obtain ⟨hcoh2, hun2⟩ := hcoh.setPage_self hc hp
          obtain ⟨hrel, hun3⟩ := hcoh2.release fun _ => hl
          exact ⟨_, _, rfl, hd1, hrel, .inl ⟨_, rfl,
            hun1.trans ((hun2.mono fun _ hg => List.mem_cons_of_mem _ hg).trans hun3)⟩⟩
        · simp only [hdel]
          obtain rfl : rid.slot = slot := by
            rw [hrid] at hslot
            exact congrArg RecordId.slot (Option.some.inj hslot)
          obtain ⟨hcoh2, hset⟩ := hcoh.setSlot (o := none) hc hp hl (hsound.lt_of_isSlotUsed hused)
            (fun _ hu => by cases hu) txn
          refine ⟨_, _, rfl, hd1, hcoh2, .inr ⟨rid, rfl, rfl, ?_, hun1.slotSet hset⟩⟩
          rw [← hun1.rows_eq, rows, hlogical, Option.bind_some, Page.isSome_row,
            ← hsound.isSlotUsed, hused]

/-! ### By the registered tables -/

theorem insert_cases (h : e.Coherent held loose) (table : Nat) (txn : TxnId) (t : Tuple)
    (hs : ∀ k u, e.table? k = some u → u.Small (e.insert table txn t).2.2.disk) :
    ∃ r t' e', e.insert table txn t = (r, t', e') ∧ e'.Coherent held loose ∧
      Stored held txn t e r t' e' := by
  unfold Engine.insert at hs ⊢
  cases htbl : e.pool.table table with
  | error err => exact ⟨_, _, _, rfl, h, .failed (.refl held e)⟩
  | ok tbl =>
    have ht := table_eq_ok.1 htbl
    have ht' : e.table? tbl.id = some tbl := by rw [h.own _ _ ht, ht]
    rw [htbl] at hs
    exact h.insertTuple_cases ht' txn t (hs _ _ ht')

theorem delete_cases (h : e.Coherent held loose) (txn : TxnId) (t : Tuple) :
    ∃ r e', e.delete txn t = (r, e') ∧ e'.disk = e.disk ∧ e'.Coherent held loose ∧
      ((∃ err, r = .error err ∧ Unchanged held e e') ∨
       (∃ rid, t.rid = some rid ∧ r = .ok () ∧ (e.rows rid).isSome = true ∧
         SlotSet held txn rid none e e')) := by
  unfold Engine.delete
  cases hrid : t.rid with
  | none => exact ⟨_, _, rfl, rfl, h, .inl ⟨_, rfl, .refl held e⟩⟩
  | some rid =>
    simp only
    cases e.pool.table rid.page.table with
    | error err => exact ⟨_, _, rfl, rfl, h, .inl ⟨_, rfl, .refl held e⟩⟩
    | ok tbl =>
      obtain ⟨r, e', heq, hd, hcoh, hcases⟩ := h.deleteTuple_cases tbl txn t
      simp only [heq]
      rcases hcases with ⟨err, rfl, hun⟩ | ⟨rid', hrid', rfl, hlive, hset⟩
      · exact ⟨_, _, rfl, hd, hcoh, .inl ⟨err, rfl, hun⟩⟩
      · rw [hrid] at hrid'
        exact ⟨_, _, rfl, hd, hcoh, .inr ⟨rid', hrid', rfl, hlive, hset⟩⟩

end Coherent

end Engine

end HeapStore
