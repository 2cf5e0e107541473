import HeapStore.Proofs.Twins

/-! Storing and removing tuples in two engines that are twins. The same pages are tried in the same
order and the same slot is found, so the answers agree and both change the same slot; the smaller
engine may instead fail for want of room. -/

namespace HeapStore.Engine

variable {e e' f f' : Engine} {held held' : List Checkout} {loose loose' : Nat → Prop} {id : PageId}
  {c c' : Nat} {p q : Page} {txn : TxnId} {r : RecordId} {o : Option Tuple} {t : Tuple}

theorem SlotSet.samePages (hset : SlotSet held txn r o e e') (hset' : SlotSet held' txn r o f f')
    (h : SamePages e f) : SamePages e' f' := by
  obtain ⟨p, hp, hlt, hch⟩ := hset
  obtain ⟨q, hq, hlt', hch'⟩ := hset'
  have hrel := rel_trans (rel_symm hp) (rel_trans (h r.page) hq)
  cases hrel with
  | some ha => exact h.changed hch hch' ((ha.setSlot hlt hlt' o).markDirty true txn)

theorem Paired.slotSet (h : Paired e f held held') (hc : e'.Coherent held loose)
    (hc' : f'.Coherent held' loose') (hset : SlotSet held txn r o e e')
    (hset' : SlotSet held' txn r o f f') (hd : f'.disk = e'.disk) :
    Abreast held held' loose loose' e f e' f' :=
  h.abreast hc hc' hset.follows hset'.follows (hset.samePages hset' h.pages) hd

/-- What comes of storing a tuple on a page is decided by the page. -/
theorem insertAt_answer (e : Engine) (g : Checkout) (p : Page) (txn : TxnId) (t : Tuple) :
    (e.insertAt g p txn t).1 = (p.insert t).1 ∧ (e.insertAt g p txn t).2.1 = (p.insert t).2.1 := by
  unfold insertAt
  rcases p.insert_cases t with ⟨err, hi⟩ | ⟨slot, -, -, -, hi⟩ <;> rw [hi] <;> exact ⟨rfl, rfl⟩

theorem deleteTuple_of_error {table : Table} (hrid : t.rid = some r) (htable : r.page.table = table.id)
    (txn : TxnId) {err : Error} (hget : e.getPage r.page .exclusive = (.error err, e')) :
    e.deleteTuple table txn t = (.error err, e') := by
  unfold deleteTuple
  simp only [hrid, hget]
  rw [if_neg (not_not.2 htable)]

/-- What comes of removing a tuple is decided by the page that it is on. -/
theorem deleteTuple_answer {table : Table} (hrid : t.rid = some r) (htable : r.page.table = table.id)
    (txn : TxnId) (hget : e.getPage r.page .exclusive = (.ok ⟨c, .exclusive⟩, e'))
    (hp : e'.pool.copies.page? c = some p) :
    (e.deleteTuple table txn t).1 = (p.delete t).1.map fun _ => r.page := by
  unfold deleteTuple
  simp only [hrid, hget, Coherent.edit_exclusive hp]
  rw [if_neg (not_not.2 htable)]
  rcases p.delete t with ⟨_ | _, _⟩ <;> rfl

namespace Twins

theorem insertAt (h : Twins e f (⟨c, .exclusive⟩ :: held) (⟨c', .exclusive⟩ :: held') loose loose')
    (ho : Opposite e f id c c' p q) (hl : ¬ loose c) (hl' : ¬ loose' c') (txn : TxnId) (t : Tuple) :
    ∃ r t' e' f', e.insertAt ⟨c, .exclusive⟩ p txn t = (r, t', e') ∧
      f.insertAt ⟨c', .exclusive⟩ q txn t = (r, t', f') ∧
      Abreast held held' loose loose' e f e' f' := by
  obtain ⟨ha, hp, hq⟩ := h.alike ho
  obtain ⟨hans, hout, -⟩ := ha.insert hp hq t
  obtain ⟨h1, h2⟩ := e.insertAt_answer ⟨c, .exclusive⟩ p txn t
  obtain ⟨h1', h2'⟩ := f.insertAt_answer ⟨c', .exclusive⟩ q txn t
  obtain ⟨r, t1, e', heq, hd, hcoh, hstored⟩ := h.small.insertAt_cases ho.small ho.page hl txn t
  obtain ⟨r', t1', f', heq', hd', hcoh', hstored'⟩ :=
    h.large.insertAt_cases ho.large ho.page' hl' txn t
  rw [heq] at h1 h2
  rw [heq'] at h1' h2'
  have hr : r = r' := h1.trans (hans.trans h1'.symm)
  have ht : t1 = t1' := h2.trans (hout.trans h2'.symm)
  have hdisk : f'.disk = e'.disk := hd'.trans (h.disk.trans hd.symm)
  subst hr ht
  have hpaired := h.tail h.small.pool h.large.pool ho.small ho.large
  refine ⟨r, t1, e', f', heq, heq', ?_⟩
  cases hstored with
  | failed hun =>
    cases hstored' with
    | failed hun' => exact hpaired.unchanged hcoh hcoh' hun hun' hdisk
  | done hfree hset =>
    cases hstored' with
    | done hfree' hset' => exact hpaired.slotSet hcoh hcoh' hset hset' hdisk

theorem insertInto (h : Twins e f held held' loose loose') (table : Nat) (txn : TxnId) (t : Tuple)
    (count n : Nat) :
    (∃ t' e', insertInto table txn t count n e = (.error .poolFull, t', e')) ∨
      ∃ r t' e' f', insertInto table txn t count n e = (r, t', e') ∧
        insertInto table txn t count n f = (r, t', f') ∧
        Abreast held held' loose loose' e f e' f' := by
  induction count generalizing n e f t with
  | zero => exact .inr ⟨_, _, _, _, rfl, rfl, .refl h⟩
  | succ count ih =>
    have next : ∀ t e1 f1, Abreast held held' loose loose' e f e1 f1 →
        (∃ t' e', Engine.insertInto table txn t count (n + 1) e1 = (.error .poolFull, t', e')) ∨
        ∃ r t' e' f', Engine.insertInto table txn t count (n + 1) e1 = (r, t', e') ∧
          Engine.insertInto table txn t count (n + 1) f1 = (r, t', f') ∧
          Abreast held held' loose loose' e f e' f' := by
      intro t e1 f1 hab
      rcases ih hab.twins t (n + 1) with hfull | ⟨r, t', e', f', he, hf, hab'⟩
      · exact .inl hfull
      · exact .inr ⟨r, t', e', f', he, hf, hab.trans hab'⟩
    unfold Engine.insertInto
    rcases h.getPage ⟨table, n⟩ .exclusive with ⟨e1, he⟩ | ⟨err, e1, f1, he, hf, hab⟩ |
      ⟨c, c', p, q, e1, f1, he, hf, h1, hfol, hfol', hl, hl', ho⟩
    · rw [he]
      exact .inl ⟨_, _, rfl⟩
    · rw [he, hf]
      exact .inr ⟨_, _, _, _, rfl, rfl, hab⟩
    · rw [he, hf]
      obtain ⟨ha, hp, hq⟩ := h1.alike ho
      have hpage : e1.pageAt? ⟨c, .exclusive⟩ = some p := ho.page
      have hpage' : f1.pageAt? ⟨c', .exclusive⟩ = some q := ho.page'
      simp only [hpage, hpage', ha.freeSlots_eq hp hq]
      split
      · exact next _ _ _ ((h1.release ho.small ho.large (fun _ => hl) fun _ => hl').after hfol hfol')
      · obtain ⟨r, t', e2, f2, hins, hins', hab⟩ := h1.insertAt ho hl hl' txn t
        rw [hins, hins']
        have hab := hab.after hfol hfol'
        cases r with
        | ok rid => exact .inr ⟨_, _, _, _, rfl, rfl, hab⟩
        | error err =>
          simp only
          split
          · exact next _ _ _ hab
          · exact .inr ⟨_, _, _, _, rfl, rfl, hab⟩

/-- Both tables grow by the same page, and the larger pool has room for it if the smaller one has. -/
theorem appendPage (h : Twins e f held held' loose loose') {table : Table}
    (ht : e.table? table.id = some table) (hs : table.Small (table.grow e.disk)) :
    (∃ e', e.appendPage table (table.pageCount e.disk) = (.error .poolFull, e')) ∨
      ∃ e' f', e.appendPage table (table.pageCount e.disk) =
          (.ok ⟨table.id, table.pageCount e.disk⟩, e') ∧
        f.appendPage table (table.pageCount e.disk) =
          (.ok ⟨table.id, table.pageCount e.disk⟩, f') ∧
        Abreast held held' loose loose' e f e' f' := by
  have ht' : f.table? table.id = some table := by rw [h.table?_eq, ht]
  obtain ⟨r, e', heq, hd, hcoh, hun, -, hcases⟩ := h.small.appendPage_cases ht hs
  rw [← h.disk] at hs
  obtain ⟨r', f', heq', hd', hcoh', hun', hnew', hcases'⟩ := h.large.appendPage_cases ht' hs
  have hdisk : f'.disk = e'.disk := by rw [hd', hd, h.disk]
  rw [h.disk] at heq' hcases'
  rw [heq, heq']
  rcases hcases with ⟨-, rfl⟩ | ⟨hroom, rfl, -⟩
  · exact .inl ⟨_, rfl⟩
  · rcases hcases' with ⟨hfull', -⟩ | ⟨-, rfl, -⟩
    · exact absurd (h.full hfull').1 hroom
    · exact .inr ⟨_, _, rfl, rfl, h.unchanged hcoh hcoh' hun hun' hdisk⟩

theorem insertNew (h : Twins e f held held' loose loose') {table : Table}
    (ht : e.table? table.id = some table) (hs : table.Small (table.grow e.disk)) (txn : TxnId)
    (t : Tuple) :
    (∃ t' e', e.insertNew table (table.pageCount e.disk) txn t = (.error .poolFull, t', e')) ∨
      ∃ r t' e' f', e.insertNew table (table.pageCount e.disk) txn t = (r, t', e') ∧
        f.insertNew table (table.pageCount e.disk) txn t = (r, t', f') ∧
        Abreast held held' loose loose' e f e' f' := by
  unfold Engine.insertNew
  rcases h.appendPage ht hs with ⟨e1, he⟩ | ⟨e1, f1, he, hf, hab⟩
  · rw [he]
    exact .inl ⟨_, _, rfl⟩
  · rw [he, hf]
    simp only
    rcases hab.twins.getPage ⟨table.id, table.pageCount e.disk⟩ .exclusive with ⟨e2, he2⟩ |
      ⟨err, e2, f2, he2, hf2, hab2⟩ | ⟨c, c', p, q, e2, f2, he2, hf2, h2, hfol, hfol', hl, hl', ho⟩
    · rw [he2]
      exact .inl ⟨_, _, rfl⟩
    · rw [he2, hf2]
      exact .inr ⟨_, _, _, _, rfl, rfl, hab.trans hab2⟩
    · rw [he2, hf2]
      have hpage : e2.pageAt? ⟨c, .exclusive⟩ = some p := ho.page
      have hpage' : f2.pageAt? ⟨c', .exclusive⟩ = some q := ho.page'
      simp only [hpage, hpage']
      obtain ⟨r, t', e3, f3, hins, hins', hab3⟩ := h2.insertAt ho hl hl' txn t
      exact .inr ⟨r, t', e3, f3, hins, hins', hab.trans (hab3.after hfol hfol')⟩

theorem insertTuple (h : Twins e f held held' loose loose') {table : Table}
    (ht : e.table? table.id = some table) (txn : TxnId) (t : Tuple)
    (hs : table.Small (e.insertTuple table txn t).2.2.disk) :
    (∃ t' e', e.insertTuple table txn t = (.error .poolFull, t', e')) ∨
      ∃ r t' e' f', e.insertTuple table txn t = (r, t', e') ∧
        f.insertTuple table txn t = (r, t', f') ∧ Abreast held held' loose loose' e f e' f' := by
  rw [insertTuple_eq] at hs
  rw [insertTuple_eq, insertTuple_eq]
  cases hcheck : t.checkSchema table.schema with
  | error err => exact .inr ⟨_, _, _, _, rfl, rfl, .refl h⟩
  | ok =>
    rw [hcheck] at hs
    simp only [h.disk] at hs ⊢
    rcases h.insertInto table.id txn t (table.pageCount e.disk) 0 with ⟨t', e1, he⟩ |
      ⟨r, t', e1, f1, he, hf, hab⟩
    · rw [he]
      exact .inl ⟨_, _, rfl⟩
    · obtain ⟨_, _, _, heq, hd1, -⟩ :=
        h.small.insertInto_cases table.id txn t (table.pageCount e.disk) 0
      rw [he] at heq hs ⊢
      rw [hf]
      cases heq
      match r with
      | .error err => exact .inr ⟨_, _, _, _, rfl, rfl, hab⟩
      | .ok (some rid) => exact .inr ⟨_, _, _, _, rfl, rfl, hab⟩
      | .ok none =>
        simp only at hs ⊢
        rw [← hd1] at hs ⊢
        rw [disk_insertNew] at hs
        rcases hab.twins.insertNew (by rw [hab.small.table?_eq, ht]) hs txn t' with hfull |
          ⟨r, t', e2, f2, he2, hf2, hab2⟩
        · exact .inl hfull
        · exact .inr ⟨r, t', e2, f2, he2, hf2, hab.trans hab2⟩

theorem insert (h : Twins e f held held' loose loose') (table : Nat) (txn : TxnId) (t : Tuple)
    (hs : ∀ k u, e.table? k = some u → u.Small (e.insert table txn t).2.2.disk) :
    (∃ t' e', e.insert table txn t = (.error .poolFull, t', e')) ∨
      ∃ r t' e' f', e.insert table txn t = (r, t', e') ∧ f.insert table txn t = (r, t', f') ∧
        Abreast held held' loose loose' e f e' f' := by
  unfold Engine.insert at hs ⊢
  rw [h.table_eq]
  cases htbl : e.pool.table table with
  | error err => exact .inr ⟨_, _, _, _, rfl, rfl, .refl h⟩
  | ok tbl =>
    have ht := table_eq_ok.1 htbl
    have ht' : e.table? tbl.id = some tbl := by rw [h.small.own _ _ ht, ht]
    rw [htbl] at hs
    exact h.insertTuple ht' txn t (hs _ _ ht')

/-! ### Removing a tuple -/

/-- What comes of removing a tuple is the same in both, unless the smaller pool has no room for its
page. -/
theorem deleteTuple_answers (h : Twins e f held held' loose loose') (table : Table) (txn : TxnId)
    (t : Tuple) : (∃ e', e.deleteTuple table txn t = (.error .poolFull, e')) ∨
      (e.deleteTuple table txn t).1 = (f.deleteTuple table txn t).1 := by
  cases hrid : t.rid with
  | none =>
    right
    unfold Engine.deleteTuple
    rw [hrid]
  | some rid =>
    by_cases htable : rid.page.table = table.id
    · rcases h.getPage rid.page .exclusive with ⟨e1, he⟩ | ⟨err, e1, f1, he, hf, -⟩ |
        ⟨c, c', p, q, e1, f1, he, hf, h1, -, -, -, -, ho⟩
      · exact .inl ⟨e1, deleteTuple_of_error hrid htable txn he⟩
      · right
        rw [deleteTuple_of_error hrid htable txn he, deleteTuple_of_error hrid htable txn hf]
      · right
        obtain ⟨ha, hp, hq⟩ := h1.alike ho
        obtain ⟨hans, -⟩ := ha.delete hp hq t
        rw [deleteTuple_answer hrid htable txn he ho.page, deleteTuple_answer hrid htable txn hf ho.page',
          hans]
    · right
      unfold Engine.deleteTuple
      simp only [hrid]
      rw [if_pos htable, if_pos htable]

theorem deleteTuple (h : Twins e f held held' loose loose') (table : Table) (txn : TxnId)
    (t : Tuple) : (∃ e', e.deleteTuple table txn t = (.error .poolFull, e')) ∨
      ∃ r e' f', e.deleteTuple table txn t = (r, e') ∧ f.deleteTuple table txn t = (r, f') ∧
        Abreast held held' loose loose' e f e' f' := by
  rcases h.deleteTuple_answers table txn t with hfull | hans
  · exact .inl hfull
  · right
    obtain ⟨r, e', heq, hd, hcoh, hcases⟩ := h.small.deleteTuple_cases table txn t
    obtain ⟨r', f', heq', hd', hcoh', hcases'⟩ := h.large.deleteTuple_cases table txn t
    have hdisk : f'.disk = e'.disk := by rw [hd', hd, h.disk]
    rw [heq, heq'] at hans ⊢
    obtain rfl : r = r' := hans
    refine ⟨r, e', f', rfl, rfl, ?_⟩
    rcases hcases with ⟨err, rfl, hun⟩ | ⟨rid, hrid, rfl, -, hset⟩
    · rcases hcases' with ⟨err', -, hun'⟩ | ⟨rid', -, hr', -⟩
      · exact h.unchanged hcoh hcoh' hun hun' hdisk
      · cases hr'
    · rcases hcases' with ⟨err', hr', -⟩ | ⟨rid', hrid', -, -, hset'⟩
      · cases hr'
      · obtain rfl : rid = rid' := Option.some.inj (hrid.symm.trans hrid')
        exact h.slotSet hcoh hcoh' hset hset' hdisk

theorem delete (h : Twins e f held held' loose loose') (txn : TxnId) (t : Tuple) :
    (∃ e', e.delete txn t = (.error .poolFull, e')) ∨
      ∃ r e' f', e.delete txn t = (r, e') ∧ f.delete txn t = (r, f') ∧
        Abreast held held' loose loose' e f e' f' := by
  unfold Engine.delete
  cases hrid : t.rid with
  | none => exact .inr ⟨_, _, _, rfl, rfl, .refl h⟩
  | some rid =>
    simp only [h.table_eq]
    cases e.pool.table rid.page.table with
    | error err => exact .inr ⟨_, _, _, rfl, rfl, .refl h⟩
    | ok tbl =>
      rcases h.deleteTuple tbl txn t with ⟨e', he⟩ | ⟨r, e', f', he, hf, hab⟩
      · simp only [he]
        exact .inl ⟨_, rfl⟩
      · simp only [he, hf]
        exact .inr ⟨_, _, _, rfl, rfl, hab⟩

end Twins

end HeapStore.Engine
