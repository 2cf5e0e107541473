import HeapStore.Proofs.EngineMoves
import HeapStore.Proofs.GuardedChanges

/-! Every action is a list of moves. An insert asks for pages and gives them back, changes one page at
most, and may let its table grow; a delete changes one page at most; a scan changes none; a flush
writes pages back and does nothing else. -/

namespace HeapStore

namespace Engine

/-- Moves of which each is allowed, and that change one copy at most, by these calls. -/
structure Script (allowed : Move → Prop) (calls : List Page.Call) (ms : List Move) : Prop where
  allowed : ∀ m ∈ ms, allowed m
  once : ∀ c, callsOn ms c = [] ∨ callsOn ms c = calls

/-- Pages may be asked for, given back, refused and written over themselves, and the target may be
changed by these calls. -/
structure Permits (allowed : Move → Prop) (target : PageId → Prop) (calls : List Page.Call) : Prop where
  get : ∀ id, allowed (.get id)
  release : allowed .release
  refuse : allowed .refuse
  touch : ∀ id c, allowed (.change id c [])
  change : ∀ id c, target id → allowed (.change id c calls)

variable {e e' : Engine} {base own : List Checkout} {allowed : Move → Prop}
  {target : PageId → Prop} {calls : List Page.Call} {ms ms' : List Move} {id : PageId} {c : Nat}
  {p : Page} {txn : TxnId} {t : Tuple}

/-- A move that only handles pages: nothing is written, taken in or dropped. -/
def Move.Handles (target : PageId → Prop) (calls : List Page.Call) : Move → Prop
  | .get _ | .release | .refuse => True
  | .change id _ calls' => calls' = [] ∨ target id ∧ calls' = calls
  | _ => False

theorem permits_handles (target : PageId → Prop) (calls : List Page.Call) :
    Permits (Move.Handles target calls) target calls :=
  ⟨fun _ => trivial, trivial, trivial, fun _ _ => .inl rfl, fun _ _ ht => .inr ⟨ht, rfl⟩⟩

theorem Move.Handles.dirties {m : Move} (h : m.Handles target calls)
    (hcalls : ∀ p : Page, p.dirtiedBy ≠ none → (p.after calls).dirtiedBy ≠ none) : m.Dirties := by
  cases m with
  | get | release | refuse => trivial
  | change id c calls' =>
    intro p hd
    rcases h with rfl | ⟨-, rfl⟩
    · exact hd
    · exact hcalls p hd
  | _ => exact h.elim

theorem Move.Handles.not_loses {m : Move} (h : m.Handles target calls) : ¬ Loses base m id c := by
  rintro (rfl | ⟨⟨page, rfl⟩, -⟩) <;> exact h

theorem callsOn_append (ms ms' : List Move) (c : Nat) :
    callsOn (ms ++ ms') c = callsOn ms c ++ callsOn ms' c := List.flatMap_append

namespace Script

theorem nil : Script allowed calls [] := ⟨by simp, fun _ => .inl rfl⟩

/-- Nothing is changed by the first moves. -/
theorem append (h : Script allowed calls ms) (hq : ∀ c, callsOn ms c = [])
    (h' : Script allowed calls ms') : Script allowed calls (ms ++ ms') := by
  refine ⟨fun m hm => ?_, fun c => ?_⟩
  · rcases List.mem_append.1 hm with hm | hm
    · exact h.allowed m hm
    · exact h'.allowed m hm
  · rw [callsOn_append, hq, List.nil_append]
    exact h'.once c

theorem quiet (ha : ∀ m ∈ ms, allowed m) (hq : ∀ c, callsOn ms c = []) : Script allowed calls ms :=
  ⟨ha, fun c => .inl (hq c)⟩

theorem get (ha : Permits allowed target calls) (id : PageId) : Script allowed calls [.get id] :=
  quiet (by simpa using ha.get id) fun _ => rfl

theorem release (ha : Permits allowed target calls) : Script allowed calls [.release] :=
  quiet (by simpa using ha.release) fun _ => rfl

theorem change (ha : Permits allowed target calls) (ht : target id) (c : Nat) :
    Script allowed calls [.change id c calls] := by
  refine ⟨by simpa using ha.change id c ht, fun d => ?_⟩
  by_cases hd : c = d
  · exact .inr (by simp [callsOn, Move.callsOn, hd])
  · exact .inl (by simp [callsOn, Move.callsOn, hd])

/-- The page is given back after the change. -/
theorem released (h : Script allowed calls ms) (ha : Permits allowed target calls) :
    Script allowed calls (ms ++ [.release]) := by
  refine ⟨fun m hm => ?_, fun c => ?_⟩
  · rcases List.mem_append.1 hm with hm | hm
    · exact h.allowed m hm
    · obtain rfl := List.mem_singleton.1 hm
      exact ha.release
  · rw [callsOn_append]
    exact (List.append_nil (callsOn ms c)).symm ▸ h.once c

end Script

/-! ### Asking for a page -/

/-- The request fails, or the page is checked out. -/
theorem getPage_trace (hs : e.pool.Sound (own ++ base)) (id : PageId) (access : Access) :
    (∃ err e', e.getPage id access = (.error err, e') ∧ Trace base own e [.get id] own e') ∨
    ∃ c p e', e.getPage id access = (.ok ⟨c, access⟩, e') ∧
      Trace base own e [.get id] (⟨c, access⟩ :: own) e' ∧
      e'.pool.Sound (⟨c, access⟩ :: own ++ base) ∧ e'.pageAt? ⟨c, access⟩ = some p := by
  obtain ⟨r, e', heq, -, -, hcases⟩ := getPage_turned hs id access
  rcases hcases with ⟨err, rfl, -⟩ | ⟨c, p, rfl, hsound, -, hp⟩
  · exact .inl ⟨err, e', heq, .one (.missed heq)⟩
  · exact .inr ⟨c, p, e', heq, .one (.got heq), hsound, hp⟩

/-! ### Storing a tuple -/

/-- The calls of an insert on the page that takes the tuple. -/
def insertCalls (txn : TxnId) (t : Tuple) : List Page.Call := [.insert t, .mark true txn]

/-- The calls of a delete on the page that the tuple is on. -/
def deleteCalls (txn : TxnId) (t : Tuple) : List Page.Call := [.delete t, .mark true txn]

variable (base own) in
theorem insertAt_trace (ha : Permits allowed target (insertCalls txn t))
    (hp : e.pageAt? ⟨c, .exclusive⟩ = some p)
    (ht : ∀ rid, (e.insertAt ⟨c, .exclusive⟩ p txn t).1 = .ok rid → target rid.page) :
    ∃ ms, Trace base (⟨c, .exclusive⟩ :: own) e ms own (e.insertAt ⟨c, .exclusive⟩ p txn t).2.2 ∧
      Script allowed (insertCalls txn t) ms ∧
      ∀ err, (e.insertAt ⟨c, .exclusive⟩ p txn t).1 = .error err →
        (e.insertAt ⟨c, .exclusive⟩ p txn t).2.1 = t ∧ ∀ c, callsOn ms c = [] := by
  have hp : e.pool.copies.page? c = some p := hp
  unfold insertAt at ht ⊢
  rcases p.insert_cases t with ⟨err, hi⟩ | ⟨slot, -, -, -, hi⟩
  · rw [hi]
    exact ⟨[.release], .one .released, .release ha, fun _ _ => ⟨rfl, fun _ => rfl⟩⟩
  · have hcalls : p.after (insertCalls txn t) = (p.insert t).2.2.markDirty true txn := rfl
    rw [hi] at hcalls ht ⊢
    simp only [Coherent.edit_exclusive hp]
    refine ⟨[.change p.id c (insertCalls txn t), .release], ?_,
      (Script.change ha (ht _ rfl) c).released ha, fun _ herr => by cases herr⟩
    rw [← hcalls]
    exact .cons (.changed List.mem_cons_self hp) (.one .released)

theorem insertInto_trace (ha : Permits allowed target (insertCalls txn t))
    (hs : e.pool.Sound (own ++ base)) (table count n : Nat)
    (ht : ∀ rid, (insertInto table txn t count n e).1 = .ok (some rid) → target rid.page) :
    ∃ ms, Trace base own e ms own (insertInto table txn t count n e).2.2 ∧
      Script allowed (insertCalls txn t) ms ∧
      ((insertInto table txn t count n e).1 = .ok none →
        (insertInto table txn t count n e).2.1 = t ∧ ∀ c, callsOn ms c = []) := by
  induction count generalizing n e with
  | zero => exact ⟨[], .nil, .nil, fun _ => ⟨rfl, fun _ => rfl⟩⟩
  | succ count ih =>
    unfold insertInto at ht ⊢
    rcases getPage_trace hs ⟨table, n⟩ .exclusive with ⟨err, e1, hget, htrace⟩ |
      ⟨c, p, e1, hget, htrace, hs1, hp⟩
    · rw [hget]
      exact ⟨_, htrace, .get ha _, fun hr => by cases hr⟩
    · simp only [hget, hp] at ht ⊢
      -- a page that does not take the tuple is given back, and the search goes on
      have next : ∀ ms1 e2, Trace base (⟨c, .exclusive⟩ :: own) e1 ms1 own e2 →
          Script allowed (insertCalls txn t) ms1 → (∀ c, callsOn ms1 c = []) →
          (∀ rid, (insertInto table txn t count (n + 1) e2).1 = .ok (some rid) → target rid.page) →
          ∃ ms, Trace base own e ms own (insertInto table txn t count (n + 1) e2).2.2 ∧
            Script allowed (insertCalls txn t) ms ∧
            ((insertInto table txn t count (n + 1) e2).1 = .ok none →
              (insertInto table txn t count (n + 1) e2).2.1 = t ∧ ∀ c, callsOn ms c = []) := by
        intro ms1 e2 htrace1 hscript hquiet ht2
        obtain ⟨ms2, htrace2, hscript2, hnone⟩ := ih (htrace1.sound hs1) (n + 1) ht2
        refine ⟨.get ⟨table, n⟩ :: ms1 ++ ms2, htrace.append (htrace1.append htrace2), ?_, fun hr => ?_⟩
        · exact (Script.get ha _).append (fun _ => rfl) (hscript.append hquiet hscript2)
        · obtain ⟨ht, hq⟩ := hnone hr
          refine ⟨ht, fun d => ?_⟩
          rw [List.cons_append, callsOn, List.flatMap_cons]
          exact (callsOn_append ms1 ms2 d).trans (by rw [hquiet, hq]; rfl)
      by_cases hfull : p.freeSlots = 0
      · rw [if_pos hfull] at ht ⊢
        exact next [.release] _ (.one .released) (.release ha) (fun _ => rfl) ht
      · rw [if_neg hfull] at ht ⊢
        have htarget : ∀ rid, (e1.insertAt ⟨c, .exclusive⟩ p txn t).1 = .ok rid → target rid.page := by
          intro rid hok
          refine ht rid ?_
          revert hok
          cases e1.insertAt ⟨c, .exclusive⟩ p txn t with
          | mk r rest =>
            rintro ⟨⟩
            rfl
        obtain ⟨ms1, htrace1, hscript, herr⟩ := insertAt_trace base own ha hp htarget
        cases hins : e1.insertAt ⟨c, .exclusive⟩ p txn t with
        | mk r rest =>
          obtain ⟨t', e2⟩ := rest
          rw [hins] at htrace1 herr
          cases r with
          | ok rid =>
            exact ⟨_, htrace.append htrace1, (Script.get ha _).append (fun _ => rfl) hscript,
              fun hr => by cases hr⟩
          | error err =>
            obtain ⟨rfl, hquiet⟩ := herr err rfl
            simp only [hins] at ht ⊢
            by_cases hpf : err.isPageFull = true
            · rw [if_pos hpf] at ht ⊢
              exact next ms1 e2 htrace1 hscript hquiet ht
            · rw [if_neg hpf]
              exact ⟨_, htrace.append htrace1, (Script.get ha _).append (fun _ => rfl) hscript,
                fun hr => by cases hr⟩

/-- A page that was taken in just now can be checked out. -/
theorem getPage_of_unused (hs : e.pool.Sound own) (hc : e.pool.copyOf? id = some c)
    (hp : e.pool.copies.page? c = some p) (hfree : ∀ g ∈ own, g.copy ≠ c) (access : Access) :
    ∃ e', e.getPage id access = (.ok ⟨c, access⟩, e') ∧ e'.pool.Sound (⟨c, access⟩ :: own) ∧
      e'.disk = e.disk ∧ e'.pool.copyOf? id = some c ∧ e'.pool.copies.page? c = some p := by
  obtain ⟨i, hseat, hfetch⟩ := Coherent.fetch_of_resident hs hc
  have hcompat : Pool.Compatible own c access := by
    have hnone : ¬ 0 < Pool.readers own c + Pool.writers own c := fun hpos => by
      obtain ⟨g, hg, hgc⟩ := Pool.mem_held_iff.2 hpos
      exact hfree g hg hgc
    cases access <;> unfold Pool.Compatible <;> omega
  rcases getPage_of_fetch hfetch (hs.access hseat) hc access with
    ⟨hn, -⟩ | ⟨-, e', heq, hd, hsound, hsame⟩
  · exact absurd hcompat hn
  · exact ⟨e', heq, hsound, hd, (hsame.copyOf? id).trans hc, (hsame.page? id c hc).trans hp⟩

/-- Once the pool has taken the new page in, the tuple is stored in its first slot. -/
theorem insertNew_of_adopt (hs : e.pool.Sound own) (txn : TxnId) {table : Table}
    (hcheck : t.checkSchema table.schema = .ok ())
    (hof : Page.ofBytes ⟨table.id, table.pageCount e.disk⟩ table.schema table.pageSize
      (zeros table.pageSize) = .ok p) {e1 : Engine}
    (hadopt : adopt { e with disk := table.grow e.disk } ⟨table.id, table.pageCount e.disk⟩ p =
      (.ok (), e1)) :
    ∃ c e2, e1.getPage ⟨table.id, table.pageCount e.disk⟩ .exclusive = (.ok ⟨c, .exclusive⟩, e2) ∧
      e2.pool.Sound (⟨c, .exclusive⟩ :: own) ∧
      e2.pool.copyOf? ⟨table.id, table.pageCount e.disk⟩ = some c ∧ e2.pool.copies.page? c = some p ∧
      e.insertNew table (table.pageCount e.disk) txn t = e2.insertAt ⟨c, .exclusive⟩ p txn t ∧
      (e.insertNew table (table.pageCount e.disk) txn t).1 =
        .ok ⟨⟨table.id, table.pageCount e.disk⟩, 0⟩ := by
  obtain ⟨q, hof', hnone, happ⟩ := e.appendPage_eq table
  obtain rfl : p = q := Except.ok.inj (hof.symm.trans hof')
  have hk := Page.kind_of_ofBytes hof
  have hs0 : ({ e with disk := table.grow e.disk } : Engine).pool.Sound own := hs
  rcases adopt_cases hs0 ⟨table.id, table.pageCount e.disk⟩ p with ⟨err, q, herr, -⟩ |
    ⟨c, q, hok, hsound, -, hc, hp, hfree⟩
  · cases hadopt.symm.trans herr
  · cases hadopt.symm.trans hok
    obtain ⟨e2, hget, hs2, -, hc2, hp2⟩ := getPage_of_unused
      (e := withPool { e with disk := table.grow e.disk } q) hsound hc hp hfree .exclusive
    have hp2' : e2.pageAt? ⟨c, .exclusive⟩ = some p := hp2
    have hnew : e.insertNew table (table.pageCount e.disk) txn t =
        e2.insertAt ⟨c, .exclusive⟩ p txn t := by
      unfold insertNew
      rw [happ, hadopt]
      simp only [hget, hp2']
    refine ⟨c, e2, hget, hs2, hc2, hp2, hnew, ?_⟩
    have hins := hk.sound.insert_of_empty (t := t) hnone (by rw [hk.schema, hcheck])
    rw [hk.id] at hins
    rw [hnew]
    unfold insertAt
    simp only [hins]

/-- The table grows, the new page is taken in, and then it is asked for. -/
theorem insertNew_trace (ha : Permits allowed target (insertCalls txn t))
    (hs : e.pool.Sound (own ++ base)) {table : Table} (hcheck : t.checkSchema table.schema = .ok ())
    (hgrow : allowed (.grow table))
    (hadopt : ∀ p, Page.ofBytes ⟨table.id, table.pageCount e.disk⟩ table.schema table.pageSize
      (zeros table.pageSize) = .ok p → (e.insertNew table (table.pageCount e.disk) txn t).1 =
        .ok ⟨⟨table.id, table.pageCount e.disk⟩, 0⟩ →
      allowed (.adopt ⟨table.id, table.pageCount e.disk⟩ p))
    (ht : ∀ rid, (e.insertNew table (table.pageCount e.disk) txn t).1 = .ok rid → target rid.page) :
    ∃ ms, Trace base own e ms own (e.insertNew table (table.pageCount e.disk) txn t).2.2 ∧
      Script allowed (insertCalls txn t) ms := by
  obtain ⟨p, hof, -, happ⟩ := e.appendPage_eq table
  cases hr : adopt { e with disk := table.grow e.disk } ⟨table.id, table.pageCount e.disk⟩ p with
  | mk r e1 =>
    cases r with
    | error err =>
      unfold insertNew
      rw [happ, hr]
      exact ⟨[.grow table, .refuse], .cons .grown (.one (.refused hr)),
        .quiet (by simpa using ⟨hgrow, ha.refuse⟩) fun _ => rfl⟩
    | ok =>
      obtain ⟨c, e2, hget, -, -, hp, hnew, hok⟩ := insertNew_of_adopt hs txn hcheck hof hr
      have htrace : Trace base own e
          [.grow table, .adopt ⟨table.id, table.pageCount e.disk⟩ p,
            .get ⟨table.id, table.pageCount e.disk⟩] (⟨c, .exclusive⟩ :: own) e2 :=
        .cons .grown (.cons (.adopted hr) (.one (.got hget)))
      have hscript : Script allowed (insertCalls txn t)
          [.grow table, .adopt ⟨table.id, table.pageCount e.disk⟩ p,
            .get ⟨table.id, table.pageCount e.disk⟩] :=
        .quiet (by simpa using ⟨hgrow, hadopt p hof hok, ha.get _⟩) fun _ => rfl
      rw [hnew] at ht ⊢
      obtain ⟨ms, htrace2, hscript2, -⟩ := insertAt_trace base own ha hp ht
      exact ⟨_, htrace.append htrace2, hscript.append (fun _ => rfl) hscript2⟩

theorem insertTuple_trace (ha : Permits allowed target (insertCalls txn t))
    (hs : e.pool.Sound (own ++ base)) {table : Table}
    (hgrow : t.checkSchema table.schema = .ok () → FindsFull table.id (table.pageCount e.disk) 0 e →
      allowed (.grow table) ∧ ∀ p, Page.ofBytes ⟨table.id, table.pageCount e.disk⟩ table.schema
        table.pageSize (zeros table.pageSize) = .ok p →
          (e.insertTuple table txn t).1 = .ok ⟨⟨table.id, table.pageCount e.disk⟩, 0⟩ →
          allowed (.adopt ⟨table.id, table.pageCount e.disk⟩ p))
    (ht : ∀ rid, (e.insertTuple table txn t).1 = .ok rid → target rid.page) :
    ∃ ms, Trace base own e ms own (e.insertTuple table txn t).2.2 ∧
      Script allowed (insertCalls txn t) ms := by
  rw [insertTuple_eq] at hgrow ht ⊢
  cases hc : t.checkSchema table.schema with
  | error err => exact ⟨[], .nil, .nil⟩
  | ok =>
    simp only [hc] at hgrow ht ⊢
    have hfull := insertInto_eq_none_iff txn t table.id (table.pageCount e.disk) 0 e
    have hdisk := disk_insertInto table.id txn t (table.pageCount e.disk) 0 e
    have htarget : ∀ rid, (insertInto table.id txn t (table.pageCount e.disk) 0 e).1 =
        .ok (some rid) → target rid.page := by
      intro rid hok
      refine ht rid ?_
      revert hok
      cases insertInto table.id txn t (table.pageCount e.disk) 0 e with
      | mk r rest =>
        rintro ⟨⟩
        rfl
    obtain ⟨ms1, htrace1, hscript1, hnone⟩ :=
      insertInto_trace ha hs table.id (table.pageCount e.disk) 0 htarget
    cases hinto : insertInto table.id txn t (table.pageCount e.disk) 0 e with
    | mk r rest =>
      obtain ⟨t', e1⟩ := rest
      rw [hinto] at hfull htrace1 hnone hdisk
      cases r with
      | error err => exact ⟨ms1, htrace1, hscript1⟩
      | ok o =>
        cases o with
        | some rid => exact ⟨ms1, htrace1, hscript1⟩
        | none =>
          obtain ⟨rfl, hquiet⟩ := hnone rfl
          simp only [hinto] at hgrow ht
          obtain ⟨hgrow, hadopt⟩ := hgrow trivial (hfull.1 rfl)
          have hdisk : e1.disk = e.disk := hdisk
          simp only
          rw [← hdisk] at hadopt ht ⊢
          obtain ⟨ms2, htrace2, hscript2⟩ :=
            insertNew_trace ha (htrace1.sound hs) hc hgrow hadopt ht
          exact ⟨ms1 ++ ms2, htrace1.append htrace2, hscript1.append hquiet hscript2⟩

/-! ### Removing a tuple -/

theorem deleteTuple_trace (ha : Permits allowed target (deleteCalls txn t))
    (hs : e.pool.Sound (own ++ base)) (table : Table)
    (ht : ∀ id, (e.deleteTuple table txn t).1 = .ok id → target id) :
    ∃ ms, Trace base own e ms own (e.deleteTuple table txn t).2 ∧
      Script allowed (deleteCalls txn t) ms := by
  unfold deleteTuple at ht ⊢
  cases hrid : t.rid with
  | none => exact ⟨[], .nil, .nil⟩
  | some rid =>
    simp only [hrid] at ht ⊢
    by_cases hother : rid.page.table ≠ table.id
    · rw [if_pos hother]
      exact ⟨[], .nil, .nil⟩
    · rw [if_neg hother] at ht ⊢
      rcases getPage_trace hs rid.page .exclusive with ⟨err, e1, hget, htrace⟩ |
        ⟨c, p, e1, hget, htrace, -, hp⟩
      · rw [hget]
        exact ⟨_, htrace, .get ha _⟩
      · have hp : e1.pool.copies.page? c = some p := hp
        simp only [hget, Coherent.edit_exclusive hp] at ht ⊢
        rcases p.delete_cases t with ⟨err, hdel⟩ | ⟨slot, hslot, -, hdel⟩
        · -- a delete that fails writes the page over itself
          simp only [hdel]
          have htouch : Moves base (⟨c, .exclusive⟩ :: own) e1 (.change p.id c [])
              (⟨c, .exclusive⟩ :: own) (e1.setPage c p) := .changed List.mem_cons_self hp
          refine ⟨[.get rid.page, .change p.id c [], .release],
            htrace.append (.cons htouch (.one .released)), .quiet ?_ fun d => ?_⟩
          · simpa using ⟨ha.get _, ha.touch _ c, ha.release⟩
          · simp [callsOn, Move.callsOn]
        · simp only [hdel] at ht ⊢
          have hid : rid.page = p.id := by
            rw [hrid] at hslot
            exact congrArg RecordId.page (Option.some.inj hslot)
          have hcalls : p.after (deleteCalls txn t) = (p.delete t).2.markDirty true txn := rfl
          rw [hdel] at hcalls
          rw [← hcalls]
          exact ⟨_, htrace.append (.cons (.changed List.mem_cons_self hp) (.one .released)),
            (Script.get ha _).append (fun _ => rfl)
              ((Script.change ha (hid ▸ ht _ rfl) c).released ha)⟩

theorem edit_ok {α : Type} {g : Checkout} {f : Page → Except Error α × Page} {r : α}
    (h : (e.edit g f).1 = .ok r) : ∃ p, (f p).1 = .ok r := by
  unfold edit Pool.edit Copies.edit at h
  cases hp : e.pool.copies.page? g.copy with
  | none => simp [hp] at h
  | some p =>
    cases hg : g.access with
    | shared => simp [hp, hg] at h
    | exclusive => exact ⟨p, by simpa [hp, hg] using h⟩

/-- The page that is answered is the one that the tuple's record id names. -/
theorem deleteTuple_ok {table : Table} {rid : RecordId} (e : Engine)
    (hok : (e.deleteTuple table txn t).1 = .ok id) (hrid : t.rid = some rid) : rid.page = id := by
  unfold deleteTuple at hok
  simp only [hrid] at hok
  split at hok
  · cases hok
  · cases hget : e.getPage rid.page .exclusive with
    | mk r e1 =>
      rw [hget] at hok
      cases r with
      | error err => cases hok
      | ok g =>
        obtain ⟨p, hp⟩ := edit_ok hok
        split at hp
        · cases hp
        · exact Except.ok.inj hp

/-! ### Write-back -/

theorem writeBackAll_trace (hs : e.pool.Sound (own ++ base)) (only : Option TxnId) (count : Nat)
    {rs : List Resident} (hrs : ∀ r ∈ rs, e.pool.copyOf? r.page = some r.copy) :
    ∃ ms, Trace base own e ms own (writeBackAll only count rs e).2 ∧
      ∀ m ∈ ms, ∃ r ∈ rs, m = .writeBack r.page only := by
  induction rs generalizing e count with
  | nil => exact ⟨[], .nil, by simp⟩
  | cons r rs ih =>
    have hr := hrs r List.mem_cons_self
    have hmove : Moves base own e (.writeBack r.page only) own (e.writeBack r.page r.copy only).2 :=
      .wroteBack hr
    have hcopy := copyOf?_writeBack e r.page r.copy only
    unfold writeBackAll
    cases heq : e.writeBack r.page r.copy only with
    | mk b e1 =>
      rw [heq] at hmove hcopy
      cases b with
      | error err => exact ⟨_, .one hmove, by simp⟩
      | ok written =>
        obtain ⟨ms, htrace, hms⟩ := ih (hmove.turned hs).1 (if written then count + 1 else count)
          fun r' hr' => by
            rw [hcopy]
            exact hrs r' (List.mem_cons_of_mem _ hr')
        refine ⟨_, .cons hmove htrace, fun m hm => ?_⟩
        rcases List.mem_cons.1 hm with rfl | hm
        · exact ⟨r, List.mem_cons_self, rfl⟩
        · obtain ⟨r', hr', rfl⟩ := hms m hm
          exact ⟨r', List.mem_cons_of_mem _ hr', rfl⟩

end Engine

/-! ### Scans -/

namespace Scan

open Engine (Trace Script Permits getPage_trace callsOn)

variable {e : Engine} {base own : List Checkout} {allowed : Engine.Move → Prop}
  {target : PageId → Prop} {s : Scan}

theorem seek_trace (ha : Permits allowed target []) (t : Table) (count page : Nat)
    (hs : e.pool.Sound (own ++ base)) : ∃ ms,
    Trace base own e ms ((seek t count page e).2.1.held.toList ++ own) (seek t count page e).2.2 ∧
      Script allowed [] ms := by
  induction count generalizing page e with
  | zero => exact ⟨[], .nil, .nil⟩
  | succ count ih =>
    unfold seek
    rcases getPage_trace hs ⟨t.id, page⟩ .shared with ⟨err, e1, hget, htrace⟩ |
      ⟨c, p, e1, hget, htrace, hs1, hp⟩
    · rw [hget]
      exact ⟨_, htrace, .get ha _⟩
    · simp only [hget]
      split
      · exact ⟨_, htrace, .get ha _⟩
      · have hs2 : (e1.release ⟨c, .shared⟩).pool.Sound (own ++ base) := hs1.release
        obtain ⟨ms, htrace2, hscript⟩ := ih (page + 1) hs2
        exact ⟨_, htrace.append (.cons .released htrace2), (Script.get ha _).append (fun _ => rfl)
          ((Script.release ha).append (fun _ => rfl) hscript)⟩

theorem advance_trace (ha : Permits allowed target []) (t : Table) (c : Cursor)
    (hs : e.pool.Sound (c.held.toList ++ base)) : ∃ ms,
    Trace base c.held.toList e ms (advance t c e).2.1.held.toList (advance t c e).2.2 ∧
      Script allowed [] ms := by
  obtain ⟨page, held, nextSlot, peeked⟩ := c
  unfold advance
  cases held with
  | none =>
    have hs : e.pool.Sound ([] ++ base) := hs
    obtain ⟨ms, htrace, hscript⟩ := seek_trace ha t (t.pageCount e.disk - page) page hs
    rw [List.append_nil] at htrace
    exact ⟨ms, htrace, hscript⟩
  | some g =>
    simp only
    split
    · exact ⟨[], .nil, .nil⟩
    · have hs1 : (e.release g).pool.Sound ([] ++ base) := hs.release
      obtain ⟨ms, htrace, hscript⟩ := seek_trace ha t
        (t.pageCount (e.release g).disk - (page + 1)) (page + 1) hs1
      rw [List.append_nil] at htrace
      exact ⟨_, .cons .released htrace, (Script.release ha).append (fun _ => rfl) hscript⟩

theorem releaseHeld_trace (ha : Permits allowed target []) (s : Scan) : ∃ ms,
    Trace base s.checkouts e ms [] (s.releaseHeld e) ∧ Script allowed [] ms := by
  unfold releaseHeld checkouts
  cases s.cursor.bind (·.held) with
  | none => exact ⟨[], .nil, .nil⟩
  | some g => exact ⟨_, .one .released, .release ha⟩

theorem call_trace (ha : Permits allowed target []) (hs : e.pool.Sound (s.checkouts ++ base)) (call : ScanCall) :
    ∃ ms, Trace base s.checkouts e ms (s.call e call).2.1.checkouts (s.call e call).2.2 ∧
      Script allowed [] ms := by
  obtain ⟨t, cursor⟩ := s
  cases cursor with
  | none => cases call <;> exact ⟨[], .nil, .nil⟩
  | some c =>
    cases call with
    | start => exact ⟨[], .nil, .nil⟩
    | rewind => exact releaseHeld_trace ha ⟨t, some c⟩
    | close => exact releaseHeld_trace ha ⟨t, some c⟩
    | next =>
      cases hpeek : c.peeked with
      | some u =>
        simp only [Scan.call, next, hpeek]
        exact ⟨[], .nil, .nil⟩
      | none =>
        simp only [Scan.call, next, hpeek]
        exact advance_trace ha t c hs
    | hasNext =>
      simp only [Scan.call, hasNext]
      split
      · exact ⟨[], .nil, .nil⟩
      · obtain ⟨ms, htrace, hscript⟩ := advance_trace ha t c hs
        cases hadv : advance t c e with
        | mk r rest =>
          rw [hadv] at htrace
          cases r <;> exact ⟨ms, htrace, hscript⟩

end Scan

/-! ### Actions -/

/-- What an action does to the page it changes. -/
def Action.calls : Action → List Page.Call
  | .pageInsert _ t => [.insert t]
  | .pageDelete _ t => [.delete t]
  | .mark _ txn => [.mark true txn]
  | .insert _ txn t => Engine.insertCalls txn t
  | .delete txn t | .deleteFrom _ txn t => Engine.deleteCalls txn t
  | _ => []

/-- Does the action write back pages? -/
def Action.isFlush : Action → Bool
  | .flushPage _ | .flushAll | .flushTxn _ => true
  | _ => false

/-- Does the action write back this page if it is dirty, and resident under this id? -/
def Action.Flushes (a : Action) (id : PageId) (p : Page) : Prop :=
  match a with
  | .flushPage id' => id' = id
  | .flushAll => True
  | .flushTxn txn => p.dirtiedBy = some txn
  | _ => False

namespace Session

open Engine (Trace Script Permits insertCalls deleteCalls)

/-- An insert into a registered table would find every page full. -/
def FindsFull (s : Session) (table : Nat) (t : Tuple) (tbl : Table) : Prop :=
  s.engine.table? table = some tbl ∧ t.checkSchema tbl.schema = .ok () ∧
    Engine.FindsFull tbl.id (tbl.pageCount s.engine.disk) 0 s.engine

/-- The page that an action changes, replaces or drops, as its answer tells. -/
def altered (s : Session) (a : Action) : Option PageId :=
  match a, (s.step a).1 with
  | .insert .., .ok (.record rid) => some rid.page
  | .delete _ t, .ok _ => t.rid.map (·.page)
  | .deleteFrom .., .ok (.page id) => some id
  | .pageInsert i _, .ok _ | .pageDelete i _, .ok _ | .mark i _, .ok _ =>
    ((s.guards[i]?).bind fun g => s.engine.pageAt? g.checkout).map (·.id)
  | .adopt id _, .ok _ => some id
  | .discard id, _ => some id
  | _, _ => none

/-- The moves an action may be made of. -/
inductive Allows (s : Session) (a : Action) : Engine.Move → Prop
  | handled {m : Engine.Move} : a.isFlush = false → m.Handles (s.altered a = some ·) a.calls →
      s.Allows a m
  | flushed {id : PageId} {only : Option TxnId} : a.isFlush = true →
      (∀ p : Page, p.isSelected only = true → a.Flushes id p) → s.Allows a (.writeBack id only)
  | adopted {id : PageId} {page : Page} : a = .adopt id page → s.altered a = some id →
      s.Allows a (.adopt id page)
  | discarded {id : PageId} : a = .discard id → s.Allows a (.discard id)
  /-- An empty page is written after the last one. -/
  | grown {table : Nat} {txn : TxnId} {t : Tuple} {tbl : Table} : a = .insert table txn t →
      s.FindsFull table t tbl → s.Allows a (.grow tbl)
  /-- The page that was written is taken in. -/
  | added {table : Nat} {txn : TxnId} {t : Tuple} {tbl : Table} {page : Page} :
      a = .insert table txn t → s.FindsFull table t tbl →
      s.altered a = some ⟨tbl.id, tbl.pageCount s.engine.disk⟩ →
      Page.ofBytes ⟨tbl.id, tbl.pageCount s.engine.disk⟩ tbl.schema tbl.pageSize (zeros tbl.pageSize) =
        .ok page → s.Allows a (.adopt ⟨tbl.id, tbl.pageCount s.engine.disk⟩ page)

theorem permits_allows (s : Session) {a : Action} (hf : a.isFlush = false) :
    Permits (s.Allows a) (s.altered a = some ·) a.calls :=
  ⟨fun _ => .handled hf trivial, .handled hf trivial, .handled hf trivial,
    fun _ _ => .handled hf (.inl rfl), fun _ _ ht => .handled hf (.inr ⟨ht, rfl⟩)⟩

theorem Allows.adopt {s : Session} {a : Action} {id : PageId} {p : Page} (h : s.Allows a (.adopt id p)) :
    a = .adopt id p ∨ ∃ table txn t tbl, a = .insert table txn t ∧
      s.FindsFull table t tbl ∧ id = ⟨tbl.id, tbl.pageCount s.engine.disk⟩ ∧
      Page.ofBytes id tbl.schema tbl.pageSize (zeros tbl.pageSize) = .ok p := by
  cases h with
  | handled _ h => exact h.elim
  | adopted h => exact .inl h
  | added h hfull _ hof => exact .inr ⟨_, _, _, _, h, hfull, rfl, hof⟩

/-- The moves that an action is made of. What is in hand besides stays out all the while. -/
structure Traced (s : Session) (a : Action) (own own' : List Checkout) (ms : List Engine.Move) : Prop where
  before : s.held.Perm (own ++ s.kept a)
  after : (s.step a).2.held.Perm (own' ++ s.kept a)
  trace : Trace (s.kept a) own s.engine ms own' (s.step a).2.engine
  script : Script (s.Allows a) a.calls ms

variable {s : Session} {a : Action} {ms : List Engine.Move} {e : Engine}

/-- Only the engine has changed. -/
theorem Traced.engine (hkept : s.kept a = s.held) (hheld : (s.step a).2.held = s.held)
    (ht : Trace s.held [] s.engine ms [] (s.step a).2.engine) (hscript : Script (s.Allows a) a.calls ms) :
    s.Traced a [] [] ms :=
  ⟨by rw [hkept]; exact .refl _, by rw [hkept, hheld]; exact .refl _, by rw [hkept]; exact ht, hscript⟩

theorem change_trace (h : s.engine.pool.Sound s.held) {allowed : Engine.Move → Prop}
    {target : PageId → Prop} (i : Nat) (unmarked : Bool) {f : Page → Except Error Answer × Page}
    {calls : List Page.Call} (ha : Permits allowed target calls) (hf : ∀ p, (f p).2 = p.after calls)
    (hfail : ∀ p err, (f p).1 = .error err → (f p).2 = p)
    (ht : ∀ r, (s.change i unmarked f).1 = .ok r → ∀ g p, s.guards[i]? = some g →
      s.engine.pageAt? g.checkout = some p → target p.id) : ∃ ms,
      Trace s.held [] s.engine ms [] (s.change i unmarked f).2.engine ∧
      Script allowed calls ms ∧ (s.change i unmarked f).2.held = s.held := by
  cases hg : s.guards[i]? with
  | none =>
    have hstep : s.change i unmarked f = (.ok .absent, s) := by unfold change; rw [hg]
    rw [hstep]
    exact ⟨[], .nil, .nil, rfl⟩
  | some g =>
    have hmem : g.checkout ∈ s.held :=
      List.mem_append_left _ (List.mem_map_of_mem (List.mem_of_getElem? hg))
    obtain ⟨k, hk⟩ := h.exists_copy (.inr ⟨_, hmem, rfl⟩)
    have hp : s.engine.pool.copies.page? g.checkout.copy = some k.page := by
      rw [Copies.page?, hk]
      rfl
    cases hx : g.checkout.access with
    | shared =>
      rw [change_shared hg hx hp]
      exact ⟨[], .nil, .nil, rfl⟩
    | exclusive =>
      have hheld : ⟨g.checkout.copy, .exclusive⟩ ∈ [] ++ s.held := by
        rw [← hx]
        exact hmem
      have hchange : s.change i unmarked f = _ := change_exclusive hg hx hp
      cases hr : (f k.page).1 with
      | error err =>
        simp only [hr, hfail k.page err hr] at hchange
        rw [hchange]
        exact ⟨[.change k.page.id g.checkout.copy []], .one (.changed hheld hp),
          .quiet (by simpa using ha.touch _ _) fun d => by simp [Engine.callsOn, Engine.Move.callsOn], rfl⟩
      | ok r =>
        simp only [hr, hf] at hchange
        have htarget : target k.page.id := ht r (by rw [hchange]) g k.page hg hp
        rw [hchange]
        exact ⟨[.change k.page.id g.checkout.copy calls], .one (.changed hheld hp),
          .change ha htarget _, held_set hg _⟩

theorem step_insert {table : Nat} {tbl : Table} (ht : s.engine.table? table = some tbl) (txn : TxnId)
    (t : Tuple) : (s.step (.insert table txn t)).2.engine = (s.engine.insertTuple tbl txn t).2.2 := by
  simp only [step, Engine.insert, Engine.table_eq_ok.2 ht]
  rfl

/-- Nothing is stored in a table that is not registered. -/
theorem step_insert_none {table : Nat} (ht : s.engine.table? table = none) (txn : TxnId) (t : Tuple) :
    (s.step (.insert table txn t)).2 = s := by
  cases htbl : s.engine.pool.table table with
  | ok tbl =>
    rw [Engine.table_eq_ok.1 htbl] at ht
    cases ht
  | error err =>
    simp only [step, Engine.insert, htbl]
    rfl

theorem insert_traced (h : s.engine.pool.Sound s.held) (table : Nat) (txn : TxnId) (t : Tuple) :
    ∃ ms, s.Traced (.insert table txn t) [] [] ms := by
  cases ht : s.engine.table? table with
  | none =>
    have hstep := step_insert_none ht txn t
    exact ⟨[], .engine rfl (by rw [hstep]) (by rw [hstep]; exact .nil) .nil⟩
  | some tbl =>
    have h0 : s.engine.pool.Sound ([] ++ s.held) := h
    have haltered : ∀ rid, (s.engine.insertTuple tbl txn t).1 = .ok rid →
        s.altered (.insert table txn t) = some rid.page := by
      intro rid hok
      have hstep : (s.step (.insert table txn t)).1 = .ok (.record rid) := by
        simp only [step, Engine.insert, Engine.table_eq_ok.2 ht, onEngine, hok]
        rfl
      unfold altered
      rw [hstep]
    obtain ⟨ms, htrace, hscript⟩ := Engine.insertTuple_trace
      (s.permits_allows (a := .insert table txn t) rfl) h0 (fun hc hfull =>
        ⟨.grown rfl ⟨ht, hc, hfull⟩, fun p hof hok => .added rfl ⟨ht, hc, hfull⟩ (haltered _ hok) hof⟩)
      haltered
    exact ⟨ms, .engine rfl rfl (by rw [step_insert ht]; exact htrace) hscript⟩

theorem delete_traced (h : s.engine.pool.Sound s.held) (txn : TxnId) (t : Tuple) :
    ∃ ms, s.Traced (.delete txn t) [] [] ms := by
  have quiet (hstep : (s.step (.delete txn t)).2 = s) : ∃ ms, s.Traced (.delete txn t) [] [] ms :=
    ⟨[], .engine rfl (by rw [hstep]) (by rw [hstep]; exact .nil) .nil⟩
  cases hrid : t.rid with
  | none =>
    refine quiet ?_
    simp only [step, Engine.delete, hrid]
    rfl
  | some rid =>
    cases htbl : s.engine.pool.table rid.page.table with
    | error err =>
      refine quiet ?_
      simp only [step, Engine.delete, hrid, htbl]
      rfl
    | ok tbl =>
      have h0 : s.engine.pool.Sound ([] ++ s.held) := h
      have hstep : s.step (.delete txn t) = s.onEngine
          (((s.engine.deleteTuple tbl txn t).1.map fun _ => ()).map fun _ => .done,
            (s.engine.deleteTuple tbl txn t).2) := by
        simp only [step, Engine.delete, hrid, htbl]
      obtain ⟨ms, htrace, hscript⟩ := Engine.deleteTuple_trace
        (s.permits_allows (a := .delete txn t) rfl) h0 tbl fun id hok => by
          unfold altered
          rw [hstep, hok, ← s.engine.deleteTuple_ok hok hrid]
          exact congrArg (Option.map _) hrid
      exact ⟨ms, .engine rfl rfl (by rw [hstep]; exact htrace) hscript⟩

theorem deleteFrom_traced (h : s.engine.pool.Sound s.held) (table : Nat) (txn : TxnId) (t : Tuple) :
    ∃ ms, s.Traced (.deleteFrom table txn t) [] [] ms := by
  cases htbl : s.engine.pool.table table with
  | error err =>
    have hstep : (s.step (.deleteFrom table txn t)).2 = s := by simp only [step, htbl]
    exact ⟨[], .engine rfl (by rw [hstep]) (by rw [hstep]; exact .nil) .nil⟩
  | ok tbl =>
    have h0 : s.engine.pool.Sound ([] ++ s.held) := h
    have hstep : s.step (.deleteFrom table txn t) = s.onEngine
        ((s.engine.deleteTuple tbl txn t).1.map .page, (s.engine.deleteTuple tbl txn t).2) := by
      simp only [step, htbl]
    obtain ⟨ms, htrace, hscript⟩ := Engine.deleteTuple_trace
      (s.permits_allows (a := .deleteFrom table txn t) rfl) h0 tbl fun id hok => by
        unfold altered
        rw [hstep, hok]
        rfl
    exact ⟨ms, .engine rfl (by rw [hstep]; rfl) (by rw [hstep]; exact htrace) hscript⟩

theorem get_traced (h : s.engine.pool.Sound s.held) (id : PageId) (access : Access) :
    ∃ own' ms, s.Traced (.get id access) [] own' ms := by
  have ha := s.permits_allows (a := .get id access) rfl
  have h0 : s.engine.pool.Sound ([] ++ s.held) := h
  rcases Engine.getPage_trace h0 id access with ⟨err, e, heq, htrace⟩ |
    ⟨c, p, e, heq, htrace, -, -⟩
  · have hstep : (s.step (.get id access)).2 = { s with engine := e } := by simp only [step, heq]
    exact ⟨[], _, .engine rfl (by rw [hstep]; rfl) (by rw [hstep]; exact htrace) (.get ha id)⟩
  · have hstep : (s.step (.get id access)).2 =
        { s with engine := e, guards := ⟨⟨c, access⟩, false⟩ :: s.guards } := by simp only [step, heq]
    exact ⟨[⟨c, access⟩], _, .refl _, by rw [hstep]; exact .refl _, by rw [hstep]; exact htrace,
      .get ha id⟩

theorem release_traced (s : Session) (i : Nat) : ∃ own ms, s.Traced (.release i) own [] ms := by
  cases hg : s.guards[i]? with
  | none =>
    have hstep : (s.step (.release i)).2 = s := by simp only [step, hg]
    have hkept : s.kept (.release i) = s.held := by
      simp only [kept, held, List.eraseIdx_of_length_le (List.getElem?_eq_none_iff.1 hg)]
    exact ⟨[], [], .engine hkept (by rw [hstep]) (by rw [hstep]; exact .nil) .nil⟩
  | some g =>
    have hstep : (s.step (.release i)).2 =
        { s with engine := s.engine.release g.checkout, guards := s.guards.eraseIdx i } := by
      simp only [step, hg]
    exact ⟨[g.checkout], _, held_perm_guard hg, by rw [hstep]; exact .refl _,
      by rw [hstep]; exact .one .released, .release (s.permits_allows (a := .release i) rfl)⟩

theorem scan_traced (h : s.engine.pool.Sound s.held) (i : Nat) (call : ScanCall) :
    ∃ own own' ms, s.Traced (.scan i call) own own' ms := by
  cases hsc : s.scans[i]? with
  | none =>
    have hstep : (s.step (.scan i call)).2 = s := by simp only [step, hsc]
    have hkept : s.kept (.scan i call) = s.held := by
      simp only [kept, held, List.eraseIdx_of_length_le (List.getElem?_eq_none_iff.1 hsc)]
    exact ⟨[], [], [], .engine hkept (by rw [hstep]) (by rw [hstep]; exact .nil) .nil⟩
  | some sc =>
    have hbefore : s.held.Perm (sc.checkouts ++ s.kept (.scan i call)) := held_perm_scan hsc
    obtain ⟨ms, htrace, hscript⟩ := sc.call_trace (s.permits_allows (a := .scan i call) rfl) (h.perm hbefore) call
    have hstep : (s.step (.scan i call)).2 = { s with
        engine := (sc.call s.engine call).2.2, scans := s.scans.set i (sc.call s.engine call).2.1 } := by
      simp only [step, hsc]
    exact ⟨_, _, ms, hbefore, by rw [hstep]; exact held_perm_setScan hsc _ _, by rw [hstep]; exact htrace,
      hscript⟩

theorem flush_traced (h : s.engine.pool.Sound s.held) {only : Option TxnId} {rs : List Resident}
    (hrs : ∀ r ∈ rs, s.engine.pool.copyOf? r.page = some r.copy) (hkept : s.kept a = s.held)
    (hheld : (s.step a).2.held = s.held)
    (hstep : (s.step a).2.engine = (Engine.writeBackAll only 0 rs s.engine).2)
    (ha : ∀ id, s.Allows a (.writeBack id only)) : ∃ ms, s.Traced a [] [] ms := by
  have h0 : s.engine.pool.Sound ([] ++ s.held) := h
  obtain ⟨ms, htrace, hms⟩ := Engine.writeBackAll_trace h0 only 0 hrs
  have hwrites : ∀ m ∈ ms, ∃ id, m = .writeBack id only := fun m hm => by
    obtain ⟨r, -, rfl⟩ := hms m hm
    exact ⟨_, rfl⟩
  refine ⟨ms, .engine hkept hheld (by rw [hstep]; exact htrace) (.quiet (fun m hm => ?_) fun c => ?_)⟩
  · obtain ⟨id, rfl⟩ := hwrites m hm
    exact ha id
  · refine List.flatMap_eq_nil_iff.2 fun m hm => ?_
    obtain ⟨id, rfl⟩ := hwrites m hm
    rfl

theorem flushPage_traced (s : Session) (id : PageId) : ∃ ms, s.Traced (.flushPage id) [] [] ms := by
  cases hc : s.engine.pool.copyOf? id with
  | none =>
    have hstep : (s.step (.flushPage id)).2 = s := by
      simp only [step, Engine.flushPage, hc]
      rfl
    exact ⟨[], .engine rfl (by rw [hstep]) (by rw [hstep]; exact .nil) .nil⟩
  | some c =>
    have hstep : (s.step (.flushPage id)).2.engine = (s.engine.writeBack id c none).2 := by
      simp only [step, Engine.flushPage, hc]
      rfl
    exact ⟨[.writeBack id none], .engine rfl rfl (by rw [hstep]; exact .one (.wroteBack hc))
      (.quiet (by simpa using .flushed rfl fun _ _ => rfl) fun _ => rfl)⟩

theorem altered_of_change {i : Nat} {unmarked : Bool} {f : Page → Except Error Answer × Page}
    (hstep : s.step a = s.change i unmarked f)
    (ha : ∀ r, (s.step a).1 = .ok r →
      s.altered a = ((s.guards[i]?).bind fun g => s.engine.pageAt? g.checkout).map (·.id)) :
    ∀ r, (s.change i unmarked f).1 = .ok r → ∀ g p, s.guards[i]? = some g →
      s.engine.pageAt? g.checkout = some p → s.altered a = some p.id := by
  intro r hok g p hg hp
  rw [ha r (by rw [hstep, hok]), hg, Option.bind_some, hp]
  rfl

/-- Every action is made of moves that it allows. -/
theorem step_traced (h : s.engine.pool.Sound s.held) (a : Action) :
    ∃ own own' ms, s.Traced a own own' ms := by
  cases a with
  | get id access => exact ⟨[], get_traced h id access⟩
  | release i =>
    obtain ⟨own, ms, ht⟩ := release_traced s i
    exact ⟨own, [], ms, ht⟩
  | pageInsert i t =>
    have hf : ∀ p : Page, (p.insert t).2.2 = p.after [.insert t] := fun _ => rfl
    obtain ⟨ms, htrace, hscript, hheld⟩ := change_trace h i true
      (f := fun p => ((p.insert t).1.map .record, (p.insert t).2.2))
      (s.permits_allows (a := .pageInsert i t) rfl) hf (Page.Change.insert t).fails
      (altered_of_change rfl fun _ hok => by unfold altered; rw [hok])
    exact ⟨[], [], ms, .engine rfl hheld htrace hscript⟩
  | pageDelete i t =>
    have hf : ∀ p : Page, (p.delete t).2 = p.after [.delete t] := fun _ => rfl
    obtain ⟨ms, htrace, hscript, hheld⟩ := change_trace h i true
      (f := fun p => ((p.delete t).1.map fun _ => .done, (p.delete t).2))
      (s.permits_allows (a := .pageDelete i t) rfl) hf (Page.Change.delete t).fails
      (altered_of_change rfl fun _ hok => by unfold altered; rw [hok])
    exact ⟨[], [], ms, .engine rfl hheld htrace hscript⟩
  | mark i txn =>
    have hf : ∀ p : Page, p.markDirty true txn = p.after [.mark true txn] := fun _ => rfl
    obtain ⟨ms, htrace, hscript, hheld⟩ := change_trace h i false
      (f := fun p => (.ok .done, p.markDirty true txn)) (s.permits_allows (a := .mark i txn) rfl) hf
      (Page.Change.mark txn).fails (altered_of_change rfl fun _ hok => by unfold altered; rw [hok])
    exact ⟨[], [], ms, .engine rfl hheld htrace hscript⟩
  | insert table txn t => exact ⟨[], [], insert_traced h table txn t⟩
  | delete txn t => exact ⟨[], [], delete_traced h txn t⟩
  | deleteFrom table txn t => exact ⟨[], [], deleteFrom_traced h table txn t⟩
  | adopt id page =>
    have hstep : s.step (.adopt id page) = s.onEngine
        ((s.engine.adopt id page).1.map fun _ => .done, (s.engine.adopt id page).2) := rfl
    cases hadopt : s.engine.adopt id page with
    | mk r e =>
      rw [hadopt] at hstep
      cases r with
      | error err =>
        exact ⟨[], [], [.refuse], .engine rfl (by rw [hstep]; rfl)
          (by rw [hstep]; exact .one (.refused hadopt))
          (.quiet (by simpa using .handled rfl trivial) fun _ => rfl)⟩
      | ok =>
        have haltered : s.altered (.adopt id page) = some id := by
          unfold altered
          rw [hstep]
          rfl
        exact ⟨[], [], [.adopt id page], .engine rfl (by rw [hstep]; rfl)
          (by rw [hstep]; exact .one (.adopted hadopt))
          (.quiet (by simpa using .adopted rfl haltered) fun _ => rfl)⟩
  | flushPage id => exact ⟨[], [], flushPage_traced s id⟩
  | flushAll => exact ⟨[], [], flush_traced h (fun r hr => h.mem_residents.1 hr) rfl rfl rfl
      fun id => .flushed rfl fun _ _ => trivial⟩
  | flushTxn txn => exact ⟨[], [], flush_traced h (fun r hr => h.mem_residents.1 hr) rfl rfl rfl
      fun id => .flushed rfl fun _ => Page.isSelected_some_iff.1⟩
  | dirtiedBy id => exact ⟨[], [], [], .engine rfl rfl .nil .nil⟩
  | discard id =>
    exact ⟨[], [], [.discard id], .engine rfl rfl (.one .discarded)
      (.quiet (by simpa using .discarded rfl) fun _ => rfl)⟩
  | newScan table =>
    cases htbl : s.engine.pool.table table with
    | error err =>
      have hstep : (s.step (.newScan table)).2 = s := by simp only [step, htbl]
      exact ⟨[], [], [], .engine rfl (by rw [hstep]) (by rw [hstep]; exact .nil) .nil⟩
    | ok tbl =>
      have hstep : (s.step (.newScan table)).2 = { s with scans := s.scans ++ [Scan.ofTable tbl] } := by
        simp only [step, htbl]
      have hheld : (s.step (.newScan table)).2.held = s.held := by
        simp [hstep, held, Scan.checkouts, Scan.ofTable]
      exact ⟨[], [], [], .engine rfl hheld (by rw [hstep]; exact .nil) .nil⟩
  | scan i call => exact scan_traced h i call

theorem tables_step (h : s.engine.pool.Sound s.held) (a : Action) :
    (s.step a).2.engine.pool.tables = s.engine.pool.tables := by
  obtain ⟨own, own', ms, ht⟩ := step_traced h a
  exact (ht.trace.keeps (h.perm ht.before)).1

end Session

end HeapStore
