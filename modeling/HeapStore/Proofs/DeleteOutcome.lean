import HeapStore.Proofs.DirtyPages
import HeapStore.Proofs.PageUse
import HeapStore.Proofs.TwinUpdates

/-! What removing a tuple comes to, in every state of a pool. The record id, the table, the request for
the page and the slot are looked at in this order, and the first that is amiss decides the error. Where
nothing is amiss, the transaction frees this one slot. The page may have to be loaded first, and then a
clean page that nobody has checked out gives way where no frame is free. It is found in its file from
then on; that makes no difference as a rule, but a page that was taken in, or changed by hand, and not
marked dirty may differ from its file. -/

namespace HeapStore

theorem Bitmap.lt_of_test {b : Bytes} {i : Nat} (h : test b i = true) : i / 8 < b.length := by
  by_contra hle
  rw [test, List.getD_eq_getElem?_getD, List.getElem?_eq_none (Nat.le_of_not_lt hle)] at h
  simp at h

/-! ### A page with a slot freed -/

namespace Page

variable {p : Page} {slot : Nat} {txn : TxnId}

/-- The page as it is once a transaction has freed a slot: no other bit, no other tuple and nothing else
has changed. -/
structure Freed (p : Page) (slot : Nat) (txn : TxnId) (p' : Page) : Prop where
  bit : ∀ i, Bitmap.test p'.header i = if i = slot then false else Bitmap.test p.header i
  used : ∀ i, p'.isSlotUsed i = if i = slot then false else p.isSlotUsed i
  tuple? : ∀ i, p'.tuple? i = if i = slot then none else p.tuple? i
  dirtiedBy : p'.dirtiedBy = some txn
  rest : { p' with header := p.header, slots := p.slots, dirtiedBy := p.dirtiedBy } = p

theorem freed_of_isSlotUsed (h : p.isSlotUsed slot = true) (txn : TxnId) :
    p.Freed slot txn ((p.setSlot slot none).markDirty true txn) := by
  have hbit (i : Nat) : Bitmap.test (p.setSlot slot none).header i =
      if i = slot then false else Bitmap.test p.header i :=
    Bitmap.test_set _ (Bitmap.lt_of_test (Bool.and_eq_true_iff.1 h).2) _ _
  refine ⟨hbit, fun i => ?_, fun i => ?_, rfl, rfl⟩
  · change (i < p.layout.numSlots && Bitmap.test (p.setSlot slot none).header i) = _
    rw [hbit]
    split
    · exact Bool.and_false _
    · rfl
  · change (p.setSlot slot none).tuple? i = _
    by_cases hi : i = slot
    · subst hi
      rw [if_pos rfl, tuple?, setSlot, List.getElem?_set_self']
      cases p.slots[i]? <;> rfl
    · rw [if_neg hi, tuple?_setSlot_of_ne hi]

end Page

namespace Engine

variable {e e1 : Engine} {held : List Checkout} {id id' : PageId} {access : Access} {c : Nat} {p p' : Page}
  {txn : TxnId} {t : Tuple} {r : RecordId}

/-! ### The pages that a request finds -/

/-- The resident page, or else the one that its table's file has. -/
def found (e : Engine) (id : PageId) : Option Page := (e.pool.page? id).or (e.read id).toOption

theorem found_of_page? (h : e.pool.page? id = some p) : e.found id = some p := by
  rw [found, h, Option.some_or]

theorem found_congr {e' : Engine} (hpage : e'.pool.page? id = e.pool.page? id)
    (htables : e'.pool.tables = e.pool.tables) (hd : e'.disk = e.disk) : e'.found id = e.found id := by
  rw [found, found, hpage, read_congr htables hd]

/-- A page has given way to another one, which had to be loaded, and no frame was free. -/
structure GaveWay (held : List Checkout) (e : Engine) (id id' : PageId) (e' : Engine) : Prop where
  room : e.pool.page? id = none ∧ e.pool.free = []
  other : id' ≠ id
  resident : (e.pool.page? id').isSome
  rests : e.Rests held id'
  filed : e'.found id' = (e.read id').toOption

/-- Nothing has happened to any page but one, except that a page may have given way to it. -/
structure Elsewhere (held : List Checkout) (e : Engine) (id : PageId) (e' : Engine) : Prop where
  disk : e'.disk = e.disk
  dirtiedBy : ∀ id', id' ≠ id → e'.pool.dirtiedBy id' = e.pool.dirtiedBy id'
  found : ∃ gone : Option PageId, (∀ id', gone = some id' → GaveWay held e id id' e') ∧
    ∀ id', id' ≠ id → gone ≠ some id' → e'.found id' = e.found id'

/-- A clean page that nobody has checked out is as its file has it. -/
def AsFiled (e : Engine) (held : List Checkout) : Prop :=
  ∀ id p, e.pool.page? id = some p → e.Rests held id → e.read id = .ok p

theorem Elsewhere.found_eq {e' : Engine} (h : Elsewhere held e id e') (hfiled : e.AsFiled held)
    (hne : id' ≠ id) : e'.found id' = e.found id' := by
  obtain ⟨gone, hgone, hrest⟩ := h.found
  by_cases hg : gone = some id'
  · obtain ⟨-, -, hres, hrests, hfile⟩ := hgone id' hg
    obtain ⟨p, hp⟩ := Option.isSome_iff_exists.1 hres
    rw [hfile, hfiled id' p hp hrests, found_of_page? hp]
    rfl
  · exact hrest id' hne hg

theorem isSome_page? (h : e.pool.Sound held) : (e.pool.page? id).isSome ↔ (e.pool.copyOf? id).isSome := by
  cases hc : e.pool.copyOf? id with
  | none =>
    rw [page?_eq_none_of_copyOf? hc]
    simp
  | some c =>
    obtain ⟨p, hp⟩ := exists_page_of_sound h hc
    rw [page?_of_copyOf? hc, hp]
    simp

/-- A request changes no page's contents, unless one gives way. -/
theorem getPage_elsewhere (h : e.pool.Sound held) (hreg : e.Registered) {g : Checkout}
    (hget : e.getPage id access = (.ok g, e1)) : Elsewhere held e id e1 := by
  have hout := getPage_outcome h hreg id access
  have huse := getPage_sameUse h id access
  obtain ⟨r, e', heq, hdisk, hturned, -⟩ := getPage_turned h id access
  rw [hget] at hout huse heq
  cases heq
  obtain ⟨gone, hroom, hgone, hstays⟩ := hout.evicts g rfl
  refine ⟨hdisk, fun id' _ => huse.dirtiedBy id', gone, fun id' hg => ?_, fun id' hne hg => ?_⟩
  · obtain ⟨hne, hres, hrests, hnone⟩ := hgone id' hg
    obtain ⟨habsent, hfree⟩ := hroom.1 (by rw [hg]; rfl)
    refine ⟨⟨page?_eq_none_of_copyOf? habsent, hfree⟩, hne, (isSome_page? h).2 hres, hrests, ?_⟩
    rw [found, page?_eq_none_of_copyOf? hnone, Option.none_or, read_congr hturned.tables hdisk]
  · exact found_congr (hstays id' (.inl hne) hg).2 hturned.tables hdisk

/-- The page that a request hands out is the one that was found. -/
theorem found_of_getPage (h : e.pool.Sound held) (hreg : e.Registered) {g : Checkout}
    (hget : e.getPage id access = (.ok g, e1)) (hp : e1.pool.page? id = some p) :
    e.found id = some p := by
  cases hc : e.pool.copyOf? id with
  | some c =>
    have hout := getPage_outcome h hreg id access
    rw [hget] at hout
    obtain ⟨gone, -, hgone, hstays⟩ := hout.evicts g rfl
    have hresident : e.pool.copyOf? id ≠ none := by rw [hc]; exact Option.some_ne_none c
    refine found_of_page? ?_
    rw [← (hstays id (.inr hresident) fun hg => (hgone id hg).1 rfl).2, hp]
  | none =>
    rcases getPage_of_absent h hc access with ⟨err, -, heq⟩ | ⟨page, -, -, heq⟩ |
      ⟨page, q, gone, e', hread, -, hinst, heq, -, hsame⟩
    · cases hget.symm.trans heq
    · cases hget.symm.trans heq
    · cases hget.symm.trans heq
      rw [hsame.page?_pool id] at hp
      cases hinst.page?_id.symm.trans hp
      rw [found, page?_eq_none_of_copyOf? hc, hread]
      rfl

/-! ### The page under an exclusive checkout -/

theorem page?_setPage_release_of_ne (h : e.pool.Sound (⟨c, .exclusive⟩ :: held))
    (hc : e.pool.copyOf? id = some c) (hp : e.pool.copies.page? c = some p) (p' : Page)
    (hne : id' ≠ id) :
    ((e.setPage c p').release ⟨c, .exclusive⟩).pool.page? id' = e.pool.page? id' := by
  rw [(sameResidents_release (sound_setPage h hp p')).page?_pool id']
  change (e.pool.copyOf? id').bind (e.setPage c p').pool.copies.page? = _
  unfold Pool.page?
  cases hd : e.pool.copyOf? id' with
  | none => rfl
  | some d =>
    have hdc : d ≠ c := fun hdc => hne (h.copyOf?_inj hd (hdc ▸ hc))
    rw [Option.bind_some, Option.bind_some, Coherent.page?_setPage hp, if_neg hdc]

/-- A change of the one page touches no other. -/
theorem Elsewhere.setPage_release (h : Elsewhere held e id e1)
    (hs : e1.pool.Sound (⟨c, .exclusive⟩ :: held)) (hc : e1.pool.copyOf? id = some c)
    (hp : e1.pool.copies.page? c = some p) (p' : Page) :
    Elsewhere held e id ((e1.setPage c p').release ⟨c, .exclusive⟩) := by
  have hpage {id'} (hne : id' ≠ id) := page?_setPage_release_of_ne hs hc hp p' hne
  have hfound {id'} (hne : id' ≠ id) :
      ((e1.setPage c p').release ⟨c, .exclusive⟩).found id' = e1.found id' :=
    found_congr (hpage hne) rfl rfl
  obtain ⟨gone, hgone, hrest⟩ := h.found
  refine ⟨h.disk, fun id' hne => ?_, gone, fun id' hg => ?_, fun id' hne hg => ?_⟩
  · rw [Pool.dirtiedBy, hpage hne]
    exact h.dirtiedBy id' hne
  · have hway := hgone id' hg
    exact { hway with filed := (hfound hway.other).trans hway.filed }
  · exact (hfound hne).trans (hrest id' hne hg)

/-- A page that was held exclusively and is given back can be had again. -/
theorem getPage_again (h : e.pool.Sound (⟨c, .exclusive⟩ :: held)) (hc : e.pool.copyOf? id = some c)
    (hp : e.pool.copies.page? c = some p) (p' : Page) : ∃ e2,
    ((e.setPage c p').release ⟨c, .exclusive⟩).getPage id .exclusive = (.ok ⟨c, .exclusive⟩, e2) ∧
      e2.pool.copies.page? c = some p' := by
  have hs := sound_setPage h hp p'
  have hrel := hs.release
  have hsame := sameResidents_release hs
  have hc' : ((e.setPage c p').release ⟨c, .exclusive⟩).pool.copyOf? id = some c := hc
  obtain ⟨i, hseat, hfetch⟩ := Coherent.fetch_of_resident hrel hc'
  rcases getPage_of_fetch hfetch (hrel.access hseat) hc' .exclusive with ⟨hn, -⟩ |
    ⟨-, e2, heq, -, -, hsame2⟩
  · exact absurd hs.compatible_of_exclusive hn
  · refine ⟨e2, heq, ?_⟩
    rw [hsame2.page? id c hc']
    change ((e.setPage c p').release ⟨c, .exclusive⟩).pool.copies.page? c = some p'
    rw [hsame.page? id c hc, Coherent.page?_setPage hp, if_pos rfl]

/-! ### Removing a tuple -/

theorem delete_of_error {tbl : Table} {err : Error} (hreg : e.Registered) (hrid : t.rid = some r)
    (ht : e.table? r.page.table = some tbl) (hget : e.getPage r.page .exclusive = (.error err, e1)) :
    e.delete txn t = (.error err, e1) := by
  have hid : r.page.table = tbl.id := (hreg _ _ ht).symm
  simp only [Engine.delete, hrid, table_eq_ok.2 ht, deleteTuple_of_error hrid hid txn hget]
  rfl

/-- Once the page is at hand, only the slot decides. -/
theorem delete_of_page {tbl : Table} (hreg : e.Registered) (hrid : t.rid = some r)
    (ht : e.table? r.page.table = some tbl)
    (hget : e.getPage r.page .exclusive = (.ok ⟨c, .exclusive⟩, e1))
    (hp : e1.pool.copies.page? c = some p) (hid : p.id = r.page) :
    e.delete txn t =
      if p.isSlotUsed r.slot then
        (.ok (), (e1.setPage c ((p.setSlot r.slot none).markDirty true txn)).release ⟨c, .exclusive⟩)
      else (.error (.slotEmpty r.page r.slot), (e1.setPage c p).release ⟨c, .exclusive⟩) := by
  have htable : ¬ r.page.table ≠ tbl.id := not_not.2 (hreg _ _ ht).symm
  have hdelete : p.delete t = if p.isSlotUsed r.slot then (.ok (), p.setSlot r.slot none)
      else (.error (.slotEmpty r.page r.slot), p) := by
    simp only [p.delete_eq, hrid, hid, ne_eq, not_true_eq_false, if_false]
  simp only [Engine.delete, deleteTuple, hrid, table_eq_ok.2 ht, if_neg htable, hget,
    Coherent.edit_exclusive hp, hdelete]
  cases p.isSlotUsed r.slot <;> rfl

/-- A slot that is free on the page that was given back is not freed again. -/
theorem delete_again {tbl : Table} (h : e.pool.Sound (⟨c, .exclusive⟩ :: held)) (hreg : e.Registered)
    (hrid : t.rid = some r) (ht : e.table? r.page.table = some tbl)
    (hc : e.pool.copyOf? r.page = some c) (hp : e.pool.copies.page? c = some p) (hid : p'.id = r.page)
    (hfree : p'.isSlotUsed r.slot = false) :
    (((e.setPage c p').release ⟨c, .exclusive⟩).delete txn t).1 =
      .error (.slotEmpty r.page r.slot) := by
  obtain ⟨e2, hget, hp2⟩ := getPage_again h hc hp p'
  have hreg' : ((e.setPage c p').release ⟨c, .exclusive⟩).Registered := hreg.of_tables rfl
  rw [delete_of_page hreg' hrid ht hget hp2 hid, hfree, if_neg Bool.false_ne_true]

/-- The tuple has a record id, and its page can be had. -/
structure Reached (e : Engine) (t : Tuple) (r : RecordId) (p : Page) : Prop where
  rid : t.rid = some r
  table : (e.table? r.page.table).isSome
  granted : (e.getPage r.page .exclusive).1.isOk = true
  page : e.found r.page = some p

/-- What removing a tuple comes to, with these checkouts out: the answer and what is left. -/
inductive Deletion (held : List Checkout) (txn : TxnId) (t : Tuple) (e : Engine) :
    Except Error Unit × Engine → Prop
  | unplaced : t.rid = none → Deletion held txn t e (.error .tupleNotPlaced, e)
  | unregistered {r : RecordId} : t.rid = some r → e.table? r.page.table = none →
      Deletion held txn t e (.error (.tableNotFound r.page.table), e)
  /-- The page cannot be had, for the reason that the pool gives. All but the clock is as it was. -/
  | refused {r : RecordId} {err : Error} (clock : Clock) : t.rid = some r →
      (e.table? r.page.table).isSome → (e.getPage r.page .exclusive).1 = .error err →
      Deletion held txn t e (.error err, e.withPool { e.pool with clock := clock })
  /-- There is no tuple in the slot, or no such slot. -/
  | free {r : RecordId} {p : Page} {e' : Engine} : e.Reached t r p → p.isSlotUsed r.slot = false →
      Elsewhere held e r.page e' → e'.pool.page? r.page = some p →
      e'.pool.dirtiedBy r.page = e.pool.dirtiedBy r.page →
      Deletion held txn t e (.error (.slotEmpty r.page r.slot), e')
  /-- The slot is freed, and it cannot be freed again. -/
  | freed {r : RecordId} {p p' : Page} {e' : Engine} : e.Reached t r p → p.isSlotUsed r.slot = true →
      Elsewhere held e r.page e' → e'.pool.page? r.page = some p' → p.Freed r.slot txn p' →
      (∀ txn', (e'.delete txn' t).1 = .error (.slotEmpty r.page r.slot)) →
      Deletion held txn t e (.ok (), e')

/-- A page that a request hands out carries its id if the resident pages do. -/
theorem named_of_found (hkeys : ∀ id p, e.pool.page? id = some p → p.id = id)
    (h : e.found id = some p) : p.id = id := by
  rcases Option.or_eq_some_iff.1 h with hp | ⟨-, hread⟩
  · exact hkeys id p hp
  · cases hr : e.read id with
    | error err => rw [hr] at hread; cases hread
    | ok q =>
      rw [hr] at hread
      cases hread
      obtain ⟨_, -, -, -, hkind⟩ := kind_of_read hr
      exact hkind.id

theorem deletion_of_page {tbl : Table} (h : e.pool.Sound held) (hreg : e.Registered)
    (hkeys : ∀ id p, e.pool.page? id = some p → p.id = id) (hrid : t.rid = some r)
    (ht : e.table? r.page.table = some tbl)
    (hget : e.getPage r.page .exclusive = (.ok ⟨c, .exclusive⟩, e1))
    (hs : e1.pool.Sound (⟨c, .exclusive⟩ :: held)) (hc : e1.pool.copyOf? r.page = some c)
    (hp : e1.pool.copies.page? c = some p) (txn : TxnId) :
    Deletion held txn t e (e.delete txn t) := by
  have hfound := found_of_getPage h hreg hget ((page?_of_copyOf? hc).trans hp)
  have hreached : e.Reached t r p := ⟨hrid, by rw [ht]; rfl, by rw [hget]; rfl, hfound⟩
  have hname := named_of_found hkeys hfound
  have helse := (getPage_elsewhere h hreg hget).setPage_release hs hc hp
  have hpage := page?_setPage_release hs hc hp
  rw [delete_of_page hreg hrid ht hget hp hname]
  split
  · next hused =>
    have hfreed := Page.freed_of_isSlotUsed hused txn
    have hnow : ((p.setSlot r.slot none).markDirty true txn).isSlotUsed r.slot = false := by
      rw [hfreed.used, if_pos rfl]
    obtain ⟨_, _, heq, -, hturned, -⟩ := getPage_turned h r.page .exclusive
    cases hget.symm.trans heq
    have ht1 := (table?_congr hturned.tables r.page.table).trans ht
    exact .freed hreached hused (helse _) (hpage _) hfreed fun _ =>
      delete_again hs (hreg.of_tables hturned.tables) hrid ht1 hc hp hname hnow
  · next hused =>
    refine .free hreached (Bool.not_eq_true _ ▸ hused) (helse p) (hpage p) ?_
    have huse := (getPage_sameUse h r.page .exclusive).dirtiedBy r.page
    rw [hget] at huse
    rw [← huse, Pool.dirtiedBy, Pool.dirtiedBy, hpage, page?_of_copyOf? hc, hp]

theorem delete_deletion (h : e.pool.Sound held) (hreg : e.Registered)
    (hkeys : ∀ id p, e.pool.page? id = some p → p.id = id) (txn : TxnId) (t : Tuple) :
    Deletion held txn t e (e.delete txn t) := by
  cases hrid : t.rid with
  | none =>
    have heq : e.delete txn t = (.error .tupleNotPlaced, e) := by simp only [Engine.delete, hrid]
    rw [heq]
    exact .unplaced hrid
  | some r =>
    cases ht : e.table? r.page.table with
    | none =>
      have heq : e.delete txn t = (.error (.tableNotFound r.page.table), e) := by
        unfold table? at ht
        simp only [Engine.delete, hrid, Pool.table, ht]
      rw [heq]
      exact .unregistered hrid ht
    | some tbl =>
      obtain ⟨x, e1, hget, -, -, ⟨err, rfl, -⟩ | ⟨c, p, rfl, hs, hc, hp⟩⟩ :=
        getPage_turned h r.page .exclusive
      · obtain ⟨clock, hclock⟩ := (getPage_outcome h hreg r.page .exclusive).failed err (by rw [hget])
        rw [hget] at hclock
        obtain rfl : e1 = e.withPool { e.pool with clock := clock } := hclock
        rw [delete_of_error hreg hrid ht hget]
        exact .refused clock hrid (by rw [ht]; rfl) (by rw [hget])
      · exact deletion_of_page h hreg hkeys hrid ht hget hs hc hp txn

/-- Nothing but the page of a tuple that was removed has changed if all that could give way to it is
in the files. -/
theorem Deletion.found_eq {x : Except Error Unit} {e' : Engine} (h : Deletion held txn t e (x, e'))
    (hfiled : e.AsFiled held) (hother : x = .ok () → ∀ r, t.rid = some r → id ≠ r.page) :
    e'.found id = e.found id := by
  cases h with
  | unplaced | unregistered | refused => rfl
  | @free r p _ hreached _ helse hpage _ =>
    by_cases he : id = r.page
    · rw [he, hreached.page, found_of_page? hpage]
    · exact helse.found_eq hfiled he
  | freed hreached _ helse _ _ _ => exact helse.found_eq hfiled (hother rfl _ hreached.rid)

/-- What holds of the page in every frame holds of every resident page. -/
theorem forall_resident {P : PageId → Page → Prop} (h : e.pool.Sound held)
    (hframes : ∀ i < e.pool.numFrames, ∀ x ∈ e.pool.seat i, ∀ p ∈ e.pool.copies.page? x.copy,
      P x.page p) (id : PageId) (p : Page) (hp : e.pool.page? id = some p) : P id p := by
  obtain ⟨c, hc, hpage⟩ := Option.bind_eq_some_iff.1 hp
  obtain ⟨i, hi⟩ := h.copyOf?_eq_some.1 hc
  exact hframes i (Pool.lt_numFrames_of_seat hi) _ hi p hpage

end Engine

namespace Session

/-- Removing a tuple has exactly this outcome in every state that a new pool can be brought into in
which the resident pages carry the ids that they are found under. -/
theorem delete_outcome (d : Disk) (n : Nat) (es : List Event) (txn : TxnId) (t : Tuple)
    (hkeys : ∀ id p, ((start d n []).afterEvents es).engine.pool.page? id = some p → p.id = id) :
    Engine.Deletion ((start d n []).afterEvents es).held txn t ((start d n []).afterEvents es).engine
        (((start d n []).afterEvents es).engine.delete txn t) ∧
      (((start d n []).afterEvents es).engine.AsFiled ((start d n []).afterEvents es).held →
        ∀ id, ((((start d n []).afterEvents es).engine.delete txn t).1 = .ok () →
            ∀ r, t.rid = some r → id ≠ r.page) →
          (((start d n []).afterEvents es).engine.delete txn t).2.found id =
            ((start d n []).afterEvents es).engine.found id) := by
  have hdel := Engine.delete_deletion (sound_of_new d n es) (registered_of_new d n es) hkeys txn t
  exact ⟨hdel, fun hfiled id hother => hdel.found_eq hfiled hother⟩

/-- A table has a full page, which is resident, and one with a single tuple, which is not. -/
def tinyTurned : List Event :=
  [.register tinyTable, .call (.insert tinyTable.id ⟨1⟩ (tinyTuple 7 none)),
    .call (.insert tinyTable.id ⟨1⟩ (tinyTuple 8 none)), .call (.flushPage (tinyPage 0)),
    .call (.insert tinyTable.id ⟨1⟩ (tinyTuple 9 none)), .call (.flushPage (tinyPage 1)),
    .call (.get (tinyPage 0) .shared), .call (.release 0)]

/-- The tuple on the other page is removed. The full page gives way and is as it was. -/
theorem delete_outcome_turned :
    (∀ id p, ((start tinyDisk 1 []).afterEvents tinyTurned).engine.pool.page? id = some p → p.id = id) ∧
      ((start tinyDisk 1 []).afterEvents tinyTurned).engine.AsFiled
        ((start tinyDisk 1 []).afterEvents tinyTurned).held ∧
      (((start tinyDisk 1 []).afterEvents tinyTurned).engine.delete ⟨2⟩
        (tinyTuple 9 (some ⟨tinyPage 1, 0⟩))).1 = .ok () ∧
      Engine.Deletion ((start tinyDisk 1 []).afterEvents tinyTurned).held ⟨2⟩
        (tinyTuple 9 (some ⟨tinyPage 1, 0⟩)) ((start tinyDisk 1 []).afterEvents tinyTurned).engine
        (((start tinyDisk 1 []).afterEvents tinyTurned).engine.delete ⟨2⟩
          (tinyTuple 9 (some ⟨tinyPage 1, 0⟩))) ∧
      (((start tinyDisk 1 []).afterEvents tinyTurned).engine.delete ⟨2⟩
        (tinyTuple 9 (some ⟨tinyPage 1, 0⟩))).2.found (tinyPage 0) =
          ((start tinyDisk 1 []).afterEvents tinyTurned).engine.found (tinyPage 0) := by
  have hsound := sound_of_new tinyDisk 1 tinyTurned
  have hkeys := Engine.forall_resident (P := fun id p => p.id = id) hsound (by decide +kernel)
  have hfiled := Engine.forall_resident
    (P := fun id p => ((start tinyDisk 1 []).afterEvents tinyTurned).engine.read id = .ok p) hsound
    (by decide +kernel)
  have hall : ((start tinyDisk 1 []).afterEvents tinyTurned).engine.AsFiled
      ((start tinyDisk 1 []).afterEvents tinyTurned).held := fun id p hp _ => hfiled id p hp
  obtain ⟨hdel, hfound⟩ :=
    delete_outcome tinyDisk 1 tinyTurned ⟨2⟩ (tinyTuple 9 (some ⟨tinyPage 1, 0⟩)) hkeys
  refine ⟨hkeys, hall, by decide +kernel, hdel, hfound hall (tinyPage 0) fun _ r hr => ?_⟩
  cases hr
  decide +kernel

/-- The resident page is another one, an empty page that was taken in and not marked dirty. -/
def tinyCovered : List Event := tinyTurned ++ [.call (.adopt (tinyPage 0) (tinyEmpty 0))]

/-- The empty page gives way, and the tuples that the file has show again, also where the slot on the
other page turns out to be free. -/
theorem delete_uncovers_page :
    (∀ id p, ((start tinyDisk 1 []).afterEvents tinyCovered).engine.pool.page? id = some p → p.id = id) ∧
      (((start tinyDisk 1 []).afterEvents tinyCovered).engine.found (tinyPage 0)).map (·.tuples) =
        some [] ∧
      (((start tinyDisk 1 []).afterEvents tinyCovered).engine.delete ⟨2⟩
        (tinyTuple 9 (some ⟨tinyPage 1, 0⟩))).1 = .ok () ∧
      ((((start tinyDisk 1 []).afterEvents tinyCovered).engine.delete ⟨2⟩
        (tinyTuple 9 (some ⟨tinyPage 1, 0⟩))).2.found (tinyPage 0)).map (·.tuples) =
          some [tinyTuple 7 (some ⟨tinyPage 0, 0⟩), tinyTuple 8 (some ⟨tinyPage 0, 1⟩)] ∧
      (((start tinyDisk 1 []).afterEvents tinyCovered).engine.delete ⟨2⟩
        (tinyTuple 9 (some ⟨tinyPage 1, 1⟩))).1 = .error (.slotEmpty (tinyPage 1) 1) ∧
      ((((start tinyDisk 1 []).afterEvents tinyCovered).engine.delete ⟨2⟩
        (tinyTuple 9 (some ⟨tinyPage 1, 1⟩))).2.found (tinyPage 0)).map (·.tuples) =
          some [tinyTuple 7 (some ⟨tinyPage 0, 0⟩), tinyTuple 8 (some ⟨tinyPage 0, 1⟩)] :=
  ⟨Engine.forall_resident (P := fun id p => p.id = id) (sound_of_new ..) (by decide +kernel),
    by decide +kernel⟩

end Session

end HeapStore
