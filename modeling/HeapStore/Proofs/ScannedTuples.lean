import HeapStore.Proofs.CheckoutOutcome
import HeapStore.Proofs.ScanUpdates
import HeapStore.Proofs.TupleRoundTrip

/-! The schemas of the tuples that scans hand out. A tuple that is read from a file gets the schema of
its table. A tuple that is stored keeps the one it came with until its page is read again; that one has
the types of the table, but may name the fields otherwise. So the names that a scan shows depend on
whether the page was reloaded, unless every tuple is stored with the schema of the table. -/

namespace HeapStore

namespace Page

variable {p : Page} {slot : Nat} {u : Tuple}

theorem schema_of_ofBytes {id : PageId} {s : Schema} {pageSize : Nat} {data : Bytes}
    (h : ofBytes id s pageSize data = .ok p) (hu : p.tuple? slot = some u) : u.schema = s := by
  unfold ofBytes at h
  split at h
  · cases h
  · split at h
    · cases h
    · simp only at h
      split at h
      · cases h
      · next slots hd =>
        cases h
        exact ((decodeSlots_eq_ok hd).2 slot u hu).1

/-- A call puts no tuple on a page but the one that it inserts. -/
theorem tuple?_call (hs : p.Sound) {c : Call} (h : (p.call c).tuple? slot = some u) :
    p.tuple? slot = some u ∨ ∃ t, c = .insert t ∧ u.schema = t.schema := by
  cases c with
  | insert t =>
    rcases p.insert_cases t with ⟨err, hi⟩ | ⟨i, -, hlt, -, hi⟩
    · rw [call, hi] at h
      exact .inl h
    · rw [call, hi, tuple?_setSlot hlt] at h
      split at h
      · cases h
        exact .inr ⟨t, rfl, rfl⟩
      · exact .inl h
  | delete t =>
    rcases p.delete_cases t with ⟨err, hd⟩ | ⟨i, -, hused, hd⟩
    · rw [call, hd] at h
      exact .inl h
    · rw [call, hd, tuple?_setSlot (hs.lt_of_isSlotUsed hused)] at h
      split at h
      · cases h
      · exact .inl h
  | mark | snapshot | stored => exact .inl h

theorem tuple?_after {id : PageId} {s : Schema} {pageSize : Nat} (hk : p.Kind id s pageSize)
    {calls : List Call} (h : (p.after calls).tuple? slot = some u) :
    p.tuple? slot = some u ∨ ∃ t, .insert t ∈ calls ∧ u.schema = t.schema := by
  induction calls generalizing p with
  | nil => exact .inl h
  | cons c calls ih =>
    rcases ih (hk.call c) h with hu | ⟨t, ht, hschema⟩
    · refine (tuple?_call hk.sound hu).imp_right ?_
      rintro ⟨t, rfl, hschema⟩
      exact ⟨t, List.mem_cons_self, hschema⟩
    · exact .inr ⟨t, List.mem_cons_of_mem _ ht, hschema⟩

end Page

/-- The tuple has the schema of the table, or that of a tuple that was stored there. -/
def Tuple.NamedBy (u : Tuple) (t : Table) (stored : List (PageId × Tuple)) : Prop :=
  u.schema = t.schema ∨ ∃ x ∈ stored, x.1.table = t.id ∧ x.2.schema = u.schema

theorem Tuple.NamedBy.mono {u : Tuple} {t : Table} {stored stored' : List (PageId × Tuple)}
    (h : u.NamedBy t stored) (hsub : ∀ x ∈ stored, x ∈ stored') : u.NamedBy t stored' := by
  refine h.imp_right ?_
  rintro ⟨x, hx, hrest⟩
  exact ⟨x, hsub x hx, hrest⟩

namespace Engine

variable {e e' : Engine} {id : PageId} {p : Page} {stored stored' : List (PageId × Tuple)}

/-- The page is one of its table, and so are the tuples on it. -/
def Bears (e : Engine) (stored : List (PageId × Tuple)) (id : PageId) (p : Page) : Prop :=
  ∃ t, e.table? id.table = some t ∧ p.Kind id t.schema t.pageSize ∧
    ∀ slot u, p.tuple? slot = some u → u.NamedBy t stored

theorem Bears.mono (h : e.Bears stored id p) (hsub : ∀ x ∈ stored, x ∈ stored') :
    e.Bears stored' id p := by
  obtain ⟨t, ht, hk, hall⟩ := h
  exact ⟨t, ht, hk, fun slot u hu => (hall slot u hu).mono hsub⟩

theorem Bears.congr (h : e.Bears stored id p) (htables : e'.pool.tables = e.pool.tables) :
    e'.Bears stored id p := by
  unfold Bears
  rw [table?_congr htables]
  exact h

theorem Bears.named (h : e.Bears stored id p) : p.id = id := by
  obtain ⟨t, -, hk, -⟩ := h
  exact hk.id

theorem bears_of_ofBytes {t : Table} {data : Bytes} (ht : e.table? id.table = some t)
    (h : Page.ofBytes id t.schema t.pageSize data = .ok p) (stored : List (PageId × Tuple)) :
    e.Bears stored id p :=
  ⟨t, ht, Page.kind_of_ofBytes h, fun _ _ hu => .inl (Page.schema_of_ofBytes h hu)⟩

theorem Bears.cleaned (h : e.Bears stored id p) : e.Bears stored id p.cleaned := by
  obtain ⟨t, ht, hk, hall⟩ := h
  exact ⟨t, ht, hk.after [.stored p.toBytes, .mark false ⟨0⟩], hall⟩

/-- The tuples that are put on a page are stored there. -/
theorem Bears.after (h : e.Bears stored id p) (hreg : e.Registered) {calls : List Page.Call}
    (hcalls : ∀ t, .insert t ∈ calls → (id, t) ∈ stored) : e.Bears stored id (p.after calls) := by
  obtain ⟨t, ht, hk, hall⟩ := h
  refine ⟨t, ht, hk.after calls, fun slot u hu => ?_⟩
  rcases Page.tuple?_after hk hu with hu | ⟨v, hv, hschema⟩
  · exact hall slot u hu
  · exact .inr ⟨(id, v), hcalls v hv, (hreg _ t ht).symm, hschema.symm⟩

end Engine

namespace Session

variable {s : Session} {a : Action} {st : List (PageId × Tuple)} {id : PageId}

/-- The tuple that an action stores, with its page. -/
def stores (s : Session) (a : Action) : List (PageId × Tuple) :=
  match a with
  | .insert _ _ t | .pageInsert _ t => (s.altered a).toList.map (·, t)
  | _ => []

/-- The tuples that these actions store, each with its page. -/
def stored (s : Session) : List Action → List (PageId × Tuple)
  | [] => []
  | a :: as => s.stores a ++ (s.step a).2.stored as

theorem mem_stores {t : Tuple} (h : .insert t ∈ a.calls) (ha : s.altered a = some id) :
    (id, t) ∈ s.stores a := by
  cases a with
  | insert table txn v =>
    obtain rfl : t = v := by simpa [Action.calls, Engine.insertCalls] using h
    simp [stores, ha]
  | pageInsert i v =>
    obtain rfl : t = v := by simpa [Action.calls] using h
    simp [stores, ha]
  | _ => simp [Action.calls, Engine.deleteCalls] at h

/-- Where no page is taken in from outside, the resident pages are those of their tables. -/
theorem bears_step (h : s.engine.pool.Sound s.held) (hreg : s.engine.Registered)
    (ha : ∀ id page, a ≠ .adopt id page)
    (hall : ∀ id p, s.engine.pool.page? id = some p → s.engine.Bears st id p) :
    ∀ id p, (s.step a).2.engine.pool.page? id = some p →
      (s.step a).2.engine.Bears (st ++ s.stores a) id p := by
  obtain ⟨own, own', ms, ht⟩ := step_traced h a
  have hpool := h.perm ht.before
  suffices hres : ∀ id p, (s.step a).2.engine.pool.page? id = some p →
      s.engine.Bears (st ++ s.stores a) id p from
    fun id p hp => (hres id p hp).congr (tables_step h a)
  refine ht.trace.residents_of_changes (P := s.engine.Bears (st ++ s.stores a)) hpool
    (fun p c calls id hm hp => ?_) (fun id p hp => hp.cleaned) (fun f hf id p hr => ?_)
    (fun id p hm => ?_) fun id p hp => (hall id p hp).mono fun x hx => List.mem_append_left _ hx
  · cases ht.script.allowed _ hm with
    | handled _ hh =>
      rcases hh with rfl | ⟨halt, rfl⟩
      · exact hp
      · rw [hp.named] at halt
        exact hp.after hreg fun t hins => List.mem_append_right _ (mem_stores hins halt)
  · have hregf : f.Registered := fun k t hk => hreg k t ((Engine.table?_congr hf k).symm.trans hk)
    obtain ⟨t, htable, -, hof⟩ := (Engine.read_eq_ok_iff hregf).1 hr
    exact Engine.bears_of_ofBytes ((Engine.table?_congr hf _).symm.trans htable) hof _
  · rcases (ht.script.allowed _ hm).adopt with hadopt | ⟨table, txn, t, tbl, -, hfull, rfl, hof⟩
    · exact absurd hadopt (ha id p)
    · have htable : s.engine.table? tbl.id = some tbl := by
        rw [hreg _ tbl hfull.1]
        exact hfull.1
      exact Engine.bears_of_ofBytes htable hof _

end Session

namespace Scan

open Cursor (Landed reads_idle landed_idle)

variable {e : Engine} {base : List Checkout} {t : Table} {c : Cursor} {s : Scan}

/-- A search that is over holds the page that it found a tuple on, for reading. -/
theorem seek_landed (hs : e.pool.Sound base) (t : Table) (count page : Nat) :
    (seek t count page e).2.1.Reads ∧
      Landed (seek t count page e).2.2 t (seek t count page e).1 (seek t count page e).2.1 := by
  induction count generalizing page e with
  | zero => exact ⟨reads_idle page, landed_idle e t page (by simp [seek])⟩
  | succ count ih =>
    have h0 : e.pool.Sound ([] ++ base) := hs
    unfold seek
    rcases Engine.getPage_trace h0 ⟨t.id, page⟩ .shared with ⟨err, e1, hget, -⟩ |
      ⟨c, p, e1, hget, -, hs1, hp⟩
    · rw [hget]
      exact ⟨reads_idle page, landed_idle e1 t page (by simp)⟩
    · have hpage : e1.pool.copies.page? c = some p := hp
      simp only [hget, findOn_eq (g := ⟨c, .shared⟩) hpage]
      cases hnext : p.nextUsedSlot 0 with
      | some slot =>
        obtain ⟨-, hsome, -⟩ := Page.nextUsedSlot_eq_some hnext
        obtain ⟨u, hu⟩ := Option.isSome_iff_exists.1 hsome
        simp only [Option.map_some, hu]
        refine ⟨?_, landed_on (Engine.copyOf?_getPage hs hget) hpage hu⟩
        rintro g ⟨⟩
        rfl
      | none =>
        have hs2 : (e1.release ⟨c, .shared⟩).pool.Sound base := hs1.release
        exact ih hs2 (page + 1)

theorem advance_landed (hs : e.pool.Sound (c.held.toList ++ base)) (hr : c.Reads)
    (hpeek : c.peeked = none) : (advance t c e).2.1.Reads ∧ (c.Fits e t →
      Landed (advance t c e).2.2 t (advance t c e).1 (advance t c e).2.1) := by
  obtain ⟨page, held, start, peeked⟩ := c
  obtain rfl : peeked = none := hpeek
  unfold advance
  cases held with
  | none =>
    obtain ⟨hreads, hland⟩ := seek_landed hs t (t.pageCount e.disk - page) page
    exact ⟨hreads, fun _ => hland⟩
  | some g =>
    obtain ⟨k, hk⟩ := hs.exists_copy (.inr ⟨g, List.mem_cons_self, rfl⟩)
    have hp : e.pool.copies.page? g.copy = some k.page := Copies.page?_of_get? hk
    simp only [findOn_eq hp]
    cases hnext : k.page.nextUsedSlot start with
    | some slot =>
      obtain ⟨-, hsome, -⟩ := Page.nextUsedSlot_eq_some hnext
      obtain ⟨u, hu⟩ := Option.isSome_iff_exists.1 hsome
      simp only [Option.map_some, hu]
      exact ⟨hr, fun hf => landed_on (hf.held g rfl) hp hu⟩
    | none =>
      have hs1 : (e.release g).pool.Sound base := hs.release
      obtain ⟨hreads, hland⟩ := seek_landed hs1 t (t.pageCount (e.release g).disk - (page + 1)) (page + 1)
      exact ⟨hreads, fun _ => hland⟩

theorem advances_of_sound (hs : e.pool.Sound (s.checkouts ++ base)) (hr : s.Reads) : s.Advances e := by
  obtain ⟨t, cursor⟩ := s
  rintro c rfl hpeek
  exact advance_landed hs (hr c rfl) hpeek

/-- What every call on a scan keeps, whatever the files may hold. -/
theorem call_fits (hs : e.pool.Sound (s.checkouts ++ base)) (hr : s.Reads) (hf : s.Fits e)
    (call : ScanCall) :
    (s.call e call).2.1.Reads ∧ (s.call e call).2.1.Fits (s.call e call).2.2 := by
  have ha := advances_of_sound hs hr
  cases call with
  | start => exact (start_fits hr).imp_right fun h => h hf
  | hasNext => exact (hasNext_fits hr ha).imp_right fun h => h hf
  | next => exact (next_fits hr ha).imp_right fun h => h hf
  | rewind => exact rewind_fits e s
  | close => exact close_fits e s

theorem table_call (e : Engine) (s : Scan) (call : ScanCall) : (s.call e call).2.1.table = s.table := by
  obtain ⟨t, cursor⟩ := s
  cases cursor with
  | none => cases call <;> rfl
  | some c =>
    cases call with
    | hasNext =>
      simp only [Scan.call, hasNext]
      repeat' split
      all_goals rfl
    | next =>
      simp only [Scan.call, next]
      split <;> rfl
    | _ => rfl

/-- The tuple that a scan hands out is the one right behind its cursor. -/
theorem next_behind (hs : e.pool.Sound (s.checkouts ++ base)) (hr : s.Reads) (hf : s.Fits e)
    {u : Tuple} (h : (s.next e).1 = .ok (some u)) :
    ∃ c, (s.next e).2.1.cursor = some c ∧ c.Behind (s.next e).2.2 u := by
  obtain ⟨t, cursor⟩ := s
  unfold next at h ⊢
  cases cursor with
  | none => cases h
  | some c =>
    simp only at h ⊢
    cases hpeek : c.peeked with
    | some v =>
      simp only [hpeek] at h
      cases h
      exact ⟨_, rfl, (hf c rfl).peeked u hpeek⟩
    | none =>
      simp only [hpeek] at h
      exact ⟨_, rfl, ((advances_of_sound hs hr c rfl hpeek).2 (hf c rfl)).found u h⟩

end Scan

namespace Session

variable {s : Session} {a : Action} {sc : Scan}

theorem handsOut_eq_some {i : Nat} {u : Tuple} (h : s.handsOut i a = some u) :
    a = .scan i .next ∧ (s.step a).1 = .ok (.tuple (some u)) := by
  unfold handsOut at h
  split at h
  · next j o hans =>
    split at h
    · next hj =>
      subst hj h
      exact ⟨rfl, hans⟩
    · cases h
  · cases h

/-- The scans after an action are those before it, a new one, or the one that was called. -/
theorem mem_scans_step (hreg : s.engine.Registered) (h : sc ∈ (s.step a).2.scans) : sc ∈ s.scans ∨
    (∃ t, s.engine.table? t.id = some t ∧ sc = .ofTable t) ∨
    ∃ (i : Nat) (sc' : Scan) (call : ScanCall), s.scans[i]? = some sc' ∧
      sc = (sc'.call s.engine call).2.1 ∧
      (s.step a).2.engine = (sc'.call s.engine call).2.2 := by
  cases a with
  | pageInsert i t | pageDelete i t | mark i txn =>
    simp only [step] at h
    rw [(Holdings.guards_change s i _ _).2] at h
    exact .inl h
  | newScan table =>
    cases htbl : s.engine.pool.table table with
    | error err => exact .inl (by simpa only [step, htbl] using h)
    | ok t =>
      have ht := Engine.table_eq_ok.1 htbl
      simp only [step, htbl] at h
      rcases List.mem_append.1 h with h | h
      · exact .inl h
      · exact .inr (.inl ⟨t, by rw [hreg _ t ht, ht], List.mem_singleton.1 h⟩)
  | scan i call =>
    cases hsc : s.scans[i]? with
    | none => exact .inl (by simpa only [step, hsc] using h)
    | some sc' =>
      rw [step_scan hsc] at h ⊢
      rcases List.mem_or_eq_of_mem_set h with h | rfl
      · exact .inl h
      · exact .inr (.inr ⟨i, sc', call, hsc, rfl, rfl⟩)
  | get | release | deleteFrom =>
    refine .inl ?_
    simp only [step] at h
    split at h <;> exact h
  | _ => exact .inl h

end Session

/-- A tuple that a scan of the table has handed out: a row of the table. -/
structure Scanned (s : Session) (t : Table) (stored : List (PageId × Tuple)) (u : Tuple) : Prop where
  registered : s.engine.table? t.id = some t
  types : u.schema.types = t.schema.types
  named : u.NamedBy t stored
  row : ∃ r, u.rid = some r ∧ r.page.table = t.id ∧ s.engine.rows r = some u.values

theorem Scanned.mono {s : Session} {t : Table} {stored stored' : List (PageId × Tuple)} {u : Tuple}
    (h : Scanned s t stored u) (hsub : ∀ x ∈ stored, x ∈ stored') : Scanned s t stored' u :=
  { h with named := h.named.mono hsub }

namespace Holdings

variable {h : Holdings} {a : Action} {st : List (PageId × Tuple)} {sc : Scan} {i : Nat} {u : Tuple}

/-- The scans are over registered tables, each has its page checked out for reading, and the resident
pages are those of their tables. -/
structure Reading (h : Holdings) (st : List (PageId × Tuple)) : Prop extends h.Sound where
  registered : h.session.engine.Registered
  tables : ∀ sc ∈ h.session.scans, h.session.engine.table? sc.table.id = some sc.table
  reads : ∀ sc ∈ h.session.scans, sc.Reads
  fits : ∀ sc ∈ h.session.scans, sc.Fits h.session.engine
  pages : ∀ id p, h.session.engine.pool.page? id = some p → h.session.engine.Bears st id p

theorem mem_out_of_pin {o : PageId × Checkout} (hsc : sc ∈ h.session.scans) (ho : sc.pin? = some o) :
    o ∈ h.out :=
  List.mem_append_right _ (List.mem_flatMap.2 ⟨sc, hsc, Option.mem_toList.2 ho⟩)

/-- A scan that is not called stays right, as nobody changes or drops the page that it reads. -/
theorem Sound.fits_step (hs : h.Sound) (hsp : h.Spares a) (hsc : sc ∈ h.session.scans)
    (hsc' : sc ∈ (h.step a).session.scans) (hr : sc.Reads) (hf : sc.Fits h.session.engine) :
    sc.Fits (h.step a).session.engine := by
  intro c hc
  have hpin (g : Checkout) (hg : c.held = some g) : sc.pin? = some (⟨sc.table.id, c.page⟩, g) := by
    unfold Scan.pin?
    simp [hc, hg]
  have hres (g : Checkout) (hg : c.held = some g) :=
    (hs.step hsp).resident _ (mem_out_of_pin hsc' (hpin g hg))
  refine ⟨(hf c hc).start, hres, fun u hu => ?_⟩
  obtain ⟨⟨d, access⟩, p, hg, hp, hslot, htuple⟩ := (hf c hc).peeked u hu
  obtain rfl : access = .shared := hr c hc _ hg
  have hsame := hs.page?_step hsp (mem_out_of_pin hsc (hpin _ hg)) (mem_out_of_pin hsc' (hpin _ hg))
  rw [Engine.page?_of_copyOf? ((hf c hc).held _ hg), Engine.page?_of_copyOf? (hres _ hg)] at hsame
  exact ⟨_, p, hg, hsame.trans hp, hslot, htuple⟩

theorem Reading.step (hs : h.Reading st) (hsp : h.Spares a) (ha : ∀ id page, a ≠ .adopt id page) :
    (h.step a).Reading (st ++ h.session.stores a) := by
  have htable (k : Nat) := Engine.table?_congr (Session.tables_step hs.pool a) k
  suffices hscans : ∀ sc ∈ (h.step a).session.scans,
      h.session.engine.table? sc.table.id = some sc.table ∧ sc.Reads ∧
        sc.Fits (h.step a).session.engine from
    { toSound := hs.toSound.step hsp
      registered := fun k t hk => hs.registered k t (htable k ▸ hk)
      tables := fun sc hsc => (htable _).trans (hscans sc hsc).1
      reads := fun sc hsc => (hscans sc hsc).2.1
      fits := fun sc hsc => (hscans sc hsc).2.2
      pages := Session.bears_step hs.pool hs.registered ha hs.pages }
  intro sc hsc
  rcases Session.mem_scans_step hs.registered hsc with hmem | ⟨t, ht, rfl⟩ |
    ⟨i, sc', call, hsc', rfl, heng⟩
  · have hreads := hs.reads sc hmem
    exact ⟨hs.tables sc hmem, hreads, hs.toSound.fits_step hsp hmem hsc hreads (hs.fits sc hmem)⟩
  · exact ⟨ht, Scan.reads_closed t, Scan.fits_closed _ t⟩
  · have hmem := List.mem_of_getElem? hsc'
    have hpool := hs.pool.perm (Session.held_perm_scan hsc')
    obtain ⟨hreads, hfits⟩ := Scan.call_fits hpool (hs.reads _ hmem) (hs.fits _ hmem) call
    have heng : (h.step a).session.engine = (sc'.call h.session.engine call).2.2 := heng
    rw [Scan.table_call, heng]
    exact ⟨hs.tables sc' hmem, hreads, hfits⟩

/-- The tuple right behind a scan's cursor is a row of its table. -/
theorem Reading.scanned (hs : h.Reading st) (hsc : h.session.scans[i]? = some sc) {c : Cursor}
    (hc : sc.cursor = some c) (hu : c.Behind h.session.engine u) : Scanned h.session sc.table st u := by
  have hmem := List.mem_of_getElem? hsc
  obtain ⟨g, p, hg, hp, -, htuple⟩ := hu
  have hcopy := (hs.fits sc hmem c hc).held g hg
  obtain ⟨t, ht, hk, hnamed⟩ := hs.pages _ p ((Engine.page?_of_copyOf? hcopy).trans hp)
  obtain rfl : t = sc.table := Option.some.inj (ht.symm.trans (hs.tables sc hmem))
  refine ⟨ht, ?_, hnamed _ u htuple, ⟨⟨sc.table.id, c.page⟩, c.nextSlot - 1⟩, ?_, rfl, ?_⟩
  · rw [hk.sound.types _ u htuple, hk.schema]
  · rw [hk.sound.placed _ u htuple, hk.id]
  · rw [Engine.rows, Engine.logical_of_page? hcopy hp, Option.bind_some, Page.row, htuple]
    rfl

theorem Reading.handsOut (hs : h.Reading st) (hu : h.session.handsOut i a = some u) :
    ∃ sc, (h.step a).session.scans[i]? = some sc ∧
      Scanned (h.step a).session sc.table (st ++ h.session.stores a) u := by
  obtain ⟨rfl, hans⟩ := Session.handsOut_eq_some hu
  cases hsc : h.session.scans[i]? with
  | none => simp [Session.step, hsc] at hans
  | some sc =>
    have hmem := List.mem_of_getElem? hsc
    have hstep := Session.step_scan hsc .next
    have hnext : (sc.next h.session.engine).1 = .ok (some u) := by
      rw [hstep] at hans
      revert hans
      simp only [Scan.call]
      cases (sc.next h.session.engine).1 <;> simp [Except.map]
    have hpool := hs.pool.perm (Session.held_perm_scan hsc)
    obtain ⟨c, hc, hbehind⟩ := Scan.next_behind hpool (hs.reads _ hmem) (hs.fits _ hmem) hnext
    have hscan : (h.step (.scan i .next)).session.scans[i]? = some (sc.next h.session.engine).2.1 := by
      change (h.session.step (.scan i .next)).2.scans[i]? = _
      rw [hstep]
      exact Session.getElem?_set_scan hsc _
    have heng : (h.step (.scan i .next)).session.engine = (sc.next h.session.engine).2.2 := by
      change (h.session.step (.scan i .next)).2.engine = _
      rw [hstep]
      rfl
    refine ⟨_, hscan, (hs.step ?_ (by simp)).scanned hscan hc (heng ▸ hbehind)⟩
    rintro o - ⟨⟩

theorem Reading.run (hs : h.Reading st) {as : List Action} (hsp : h.SparesAlong as)
    (ha : ∀ id page, .adopt id page ∉ as) (i : Nat) : ∀ x ∈ h.session.handed i as,
      x.2.engine.pool.tables = h.session.engine.pool.tables ∧
      ∃ sc, x.2.scans[i]? = some sc ∧ Scanned x.2 sc.table (st ++ h.session.stored as) x.1 := by
  induction as generalizing h st with
  | nil => rintro x ⟨⟩
  | cons a as ih =>
    have ha' : ∀ id page, a ≠ .adopt id page := by
      rintro id page rfl
      exact ha id page List.mem_cons_self
    have hstep := hs.step hsp.1 ha'
    have htables := Session.tables_step hs.pool a
    intro x hx
    rw [Session.stored, ← List.append_assoc]
    rcases List.mem_append.1 hx with hx | hx
    · obtain ⟨u, hu, rfl⟩ := List.mem_map.1 hx
      obtain ⟨sc, hsc, hscanned⟩ := hs.handsOut (Option.mem_toList.1 hu)
      exact ⟨htables, sc, hsc, hscanned.mono fun y hy => List.mem_append_left _ hy⟩
    · obtain ⟨htables', hrest⟩ := ih hstep hsp.2
        (fun id page hmem => ha id page (List.mem_cons_of_mem _ hmem)) x hx
      exact ⟨htables'.trans htables, hrest⟩

theorem start_reading (d : Disk) (n : Nat) (ts : List Table) : (start d n ts).Reading [] where
  toSound := start_sound d n ts
  registered k t hk := (Session.lookup_ofTables (n := n) hk).2
  tables sc hsc := by cases hsc
  reads sc hsc := by cases hsc
  fits sc hsc := by cases hsc
  pages id p hp := by
    have hnone : (start d n ts).session.engine.pool.copyOf? id = none :=
      Session.copyOf?_ofTables n ts id
    rw [Engine.page?_eq_none_of_copyOf? hnone] at hp
    cases hp

end Holdings

namespace Session

/-- Every tuple is stored with the schema of its table, the names of the fields included. -/
def StoresNamed (s : Session) (as : List Action) : Prop :=
  ∀ x ∈ s.stored as, ∀ t, s.engine.table? x.1.table = some t → x.2.schema = t.schema

/-- Scans show the schema of their table, and the same row as the same tuple, whenever it is shown. -/
structure ScansAgree (s : Session) (as : List Action) : Prop where
  schema : ∀ i, ∀ x ∈ s.handed i as, ∃ sc, x.2.scans[i]? = some sc ∧ x.1.schema = sc.table.schema
  same : ∀ i j, ∀ x ∈ s.handed i as, ∀ y ∈ s.handed j as, x.1.rid = y.1.rid →
    (∀ r, x.1.rid = some r → x.2.engine.rows r = y.2.engine.rows r) → x.1 = y.1

/-- Whatever is done to the tables and to their pages, a scan hands out rows of its table, with the
table's types, and with field names that are the table's or came with a tuple that was stored. Where
tuples are stored with the schema of their table, it makes no difference to a scan whether a page was
written back, gave way to another and was read again. -/
theorem scanned_tuples {d : Disk} {n : Nat} {ts : List Table} {as : List Action}
    (hspares : (Holdings.start d n ts).SparesAlong as) (hadopt : ∀ id page, .adopt id page ∉ as) :
    (∀ i, ∀ x ∈ (start d n ts).handed i as, ∃ sc, x.2.scans[i]? = some sc ∧
      Scanned x.2 sc.table ((start d n ts).stored as) x.1) ∧
      ((start d n ts).StoresNamed as → (start d n ts).ScansAgree as) := by
  have hrun := (Holdings.start_reading d n ts).run hspares hadopt
  -- the table is the one that was registered at the start
  have hnamed (hnames : (start d n ts).StoresNamed as) (i : Nat) :
      ∀ x ∈ (start d n ts).handed i as, ∃ sc, x.2.scans[i]? = some sc ∧
        (start d n ts).engine.table? sc.table.id = some sc.table ∧
        x.1.schema = sc.table.schema ∧
        ∃ r, x.1.rid = some r ∧ r.page.table = sc.table.id ∧ x.2.engine.rows r = some x.1.values := by
    intro x hx
    obtain ⟨htables, sc, hsc, hscanned⟩ := hrun i x hx
    have htable : (start d n ts).engine.table? sc.table.id = some sc.table :=
      (Engine.table?_congr htables _).symm.trans hscanned.registered
    refine ⟨sc, hsc, htable, ?_, hscanned.row⟩
    rcases hscanned.named with hschema | ⟨y, hy, hid, hschema⟩
    · exact hschema
    · rw [← hschema]
      exact hnames y hy sc.table (hid ▸ htable)
  refine ⟨fun i x hx => (hrun i x hx).2, fun hnames => ⟨fun i x hx => ?_, fun i j x hx y hy hrid hrows => ?_⟩⟩
  · obtain ⟨sc, hsc, -, hschema, -⟩ := hnamed hnames i x hx
    exact ⟨sc, hsc, hschema⟩
  · obtain ⟨sc, -, ht, hschema, r, hr, hid, hrow⟩ := hnamed hnames i x hx
    obtain ⟨sc', -, ht', hschema', r', hr', hid', hrow'⟩ := hnamed hnames j y hy
    obtain rfl : r = r' := by
      rw [hr, hr'] at hrid
      exact Option.some.inj hrid
    have htable : sc.table = sc'.table := by
      rw [← hid] at ht
      rw [← hid', ht] at ht'
      exact Option.some.inj ht'
    have hvalues : x.1.values = y.1.values := by
      rw [hrows r hr, hrow'] at hrow
      exact (Option.some.inj hrow).symm
    exact Tuple.eq_of_parts (by rw [hschema, hschema', htable]) hvalues hrid

/-- A tuple is stored and shown. Then its page is filled and written back, gives way to the second page
of the table in the only frame, is read again for another scan, and the tuple is shown again. -/
def shownTwice (t : Tuple) : List Action :=
  [.insert tinyTable.id ⟨1⟩ t, .newScan tinyTable.id, .scan 0 .start, .scan 0 .next, .scan 0 .close,
    .insert tinyTable.id ⟨1⟩ (tinyTuple 8 none), .flushAll,
    .insert tinyTable.id ⟨1⟩ (tinyTuple 9 none), .flushAll, .newScan tinyTable.id, .scan 1 .start,
    .scan 1 .next, .scan 1 .close]

theorem scanned_tuples_twice :
    (Holdings.start tinyDisk 1 [tinyTable]).SparesAlong (shownTwice (tinyTuple 7 none)) ∧
      (∀ id page, .adopt id page ∉ shownTwice (tinyTuple 7 none)) ∧
      (start tinyDisk 1 [tinyTable]).StoresNamed (shownTwice (tinyTuple 7 none)) ∧
      (start tinyDisk 1 [tinyTable]).ScansAgree (shownTwice (tinyTuple 7 none)) := by
  have hspares : (Holdings.start tinyDisk 1 [tinyTable]).SparesAlong
      (shownTwice (tinyTuple 7 none)) := by
    decide +kernel
  have hadopt : ∀ id page, .adopt id page ∉ shownTwice (tinyTuple 7 none) := by
    intro id page
    simp [shownTwice]
  have hnames : (start tinyDisk 1 [tinyTable]).StoresNamed (shownTwice (tinyTuple 7 none)) := by
    have hall : ∀ x ∈ (start tinyDisk 1 [tinyTable]).stored (shownTwice (tinyTuple 7 none)),
        ∀ t ∈ (start tinyDisk 1 [tinyTable]).engine.table? x.1.table, x.2.schema = t.schema := by
      decide +kernel
    exact hall
  exact ⟨hspares, hadopt, hnames, (scanned_tuples hspares hadopt).2 hnames⟩

/-- A tuple of the table's shape whose field has another name. -/
def respelled : Tuple :=
  ⟨⟨[⟨.int, "m"⟩], by decide, by decide, by decide⟩, [.int 7], none, ⟨trivial, trivial⟩⟩

/-- The first scan shows the name that the tuple was stored with, the second one that of the table. -/
theorem scans_disagree : respelled.checkSchema tinySchema = .ok () ∧
    ((start tinyDisk 1 [tinyTable]).handed 0 (shownTwice respelled)).map (·.1) =
      [respelled.withRid (some ⟨tinyPage 0, 0⟩)] ∧
    ((start tinyDisk 1 [tinyTable]).handed 1 (shownTwice respelled)).map (·.1) =
      [tinyTuple 7 (some ⟨tinyPage 0, 0⟩)] ∧
    ¬ (start tinyDisk 1 [tinyTable]).ScansAgree (shownTwice respelled) := by
  have hfirst : ((start tinyDisk 1 [tinyTable]).handed 0 (shownTwice respelled)).map (·.1) =
      [respelled.withRid (some ⟨tinyPage 0, 0⟩)] := by
    decide +kernel
  refine ⟨by decide, hfirst, by decide +kernel, fun hagree => ?_⟩
  have htables : ∀ x ∈ (start tinyDisk 1 [tinyTable]).handed 0 (shownTwice respelled),
      ∀ sc ∈ x.2.scans[0]?, sc.table.schema = tinySchema := by
    decide +kernel
  obtain ⟨x, hx, heq⟩ := List.mem_map.1 (hfirst ▸ List.mem_singleton_self _)
  obtain ⟨sc, hsc, hschema⟩ := hagree.schema 0 x hx
  rw [heq, htables x hx sc hsc] at hschema
  revert hschema
  decide

end Session

end HeapStore
