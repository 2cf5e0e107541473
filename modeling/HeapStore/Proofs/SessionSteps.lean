import Mathlib.Logic.Function.Basic
import HeapStore.Proofs.Session

/-! What one action does. A plain action leaves the session sound, keeps the pages under the checkouts
that stay in hand, and changes the rows of the tables by nothing but its own insert or delete. -/

namespace HeapStore

open Engine (Follows SameRows Unchanged)

theorem Scan.call_moved {s : Scan} {e : Engine} {held : List Checkout} {loose : Nat → Prop}
    (h : e.Coherent (s.checkouts ++ held) loose) (hs : s.Reads) (call : ScanCall) :
    Moved held loose s e (s.call e call).2.1 (s.call e call).2.2 := by
  cases call with
  | start => exact start_moved h hs
  | hasNext => exact hasNext_moved h hs
  | next => exact next_moved h hs
  | rewind => exact rewind_moved h hs
  | close => exact close_moved h hs

namespace Engine

variable {e e' : Engine} {held : List Checkout} {loose loose' : Nat → Prop}

theorem Coherent.congr_loose (h : e.Coherent held loose) (hl : ∀ c, loose c ↔ loose' c) :
    e.Coherent held loose' := by
  obtain rfl : loose = loose' := funext fun c => propext (hl c)
  exact h

theorem SlotSet.rows_update {txn : TxnId} {r : RecordId} {o : Option Tuple}
    (h : SlotSet held txn r o e e') : e'.rows = Function.update e.rows r (o.map (·.values)) := by
  funext s
  rw [h.rows_eq, Function.update_apply]

end Engine

/-- Is the action an insert or a delete on a table? -/
def Action.isUpdate : Action → Bool
  | .insert .. | .delete .. | .deleteFrom .. => true
  | _ => false

namespace Session

/-- The checkouts in hand that an action does not give back. -/
def kept (s : Session) : Action → List Checkout
  | .release i => (s.guards.eraseIdx i).map (·.checkout) ++ s.scans.flatMap Scan.checkouts
  | .scan i _ => s.guards.map (·.checkout) ++ (s.scans.eraseIdx i).flatMap Scan.checkouts
  | _ => s.held

/-- An insert that succeeds adds its tuple under a record id that was free, a delete that succeeds
removes the record id of its tuple, which was there, and nothing else changes any row. -/
@[irreducible]
def Refines (s : Session) (a : Action) : Prop :=
  match a, (s.step a).1 with
  | .insert _ _ t, .ok (.record rid) => s.engine.rows rid = none ∧
      (s.step a).2.engine.rows = Function.update s.engine.rows rid (some t.values)
  | .delete _ t, .ok _ => ∃ rid, t.rid = some rid ∧ (s.engine.rows rid).isSome = true ∧
      (s.step a).2.engine.rows = Function.update s.engine.rows rid none
  | .deleteFrom _ _ t, .ok _ => ∃ rid, t.rid = some rid ∧ (s.engine.rows rid).isSome = true ∧
      (s.step a).2.engine.rows = Function.update s.engine.rows rid none
  | _, _ => (s.step a).2.engine.rows = s.engine.rows

/-- A checkout is given back only when its page needs no mark. -/
def ReleasesMarked (s : Session) (a : Action) : Prop :=
  ∀ i, a = .release i → ∀ g, s.guards[i]? = some g → g.unmarked = false

structure PlainStep (s : Session) (a : Action) : Prop where
  sound : (s.step a).2.Sound
  follows : Follows (s.kept a) s.engine (s.step a).2.engine
  refines : s.Refines a

variable {s : Session} {a : Action} {e : Engine} {i : Nat} {g : Guard} {sc : Scan}

/-- Where no row changes, there is nothing to answer for but an update that succeeds. -/
theorem refines_of_rows (hrows : (s.step a).2.engine.rows = s.engine.rows)
    (hfail : a.isUpdate = true → ∃ err, (s.step a).1 = .error err) : s.Refines a := by
  unfold Refines
  cases a with
  | insert | delete | deleteFrom =>
    obtain ⟨err, herr⟩ := hfail rfl
    simp only [herr]
    exact hrows
  | _ => exact hrows

namespace Sound

theorem withEngine (h : s.Sound) {held : List Checkout} (hcoh : e.Coherent s.held s.Loose)
    (hf : Follows held s.engine e) : Sound { s with engine := e } :=
  ⟨hcoh, fun sc hsc => by rw [hf.table?_eq]; exact h.tables sc hsc, h.reads⟩

/-- An exclusive checkout in hand is the only one of its copy. -/
theorem alone (h : s.Sound) (hg : s.guards[i]? = some g) (hx : g.checkout.access = .exclusive) :
    ∀ x ∈ (s.guards.eraseIdx i).map (·.checkout) ++ s.scans.flatMap Scan.checkouts,
      x.copy ≠ g.checkout.copy := by
  have hcoh := h.coherent.perm (held_perm_guard hg)
  have hcheckout : g.checkout = ⟨g.checkout.copy, .exclusive⟩ := by rw [← hx]
  rw [hcheckout] at hcoh
  exact hcoh.alone

theorem not_loose (h : s.Sound) (hg : s.guards[i]? = some g) (hm : g.unmarked = false)
    (hx : g.checkout.access = .exclusive) : ¬ s.Loose g.checkout.copy := by
  rintro ⟨g', hg', hm', hc⟩
  -- the unmarked one is another, so it is among the rest
  rcases List.mem_cons.1 ((perm_eraseIdx hg).subset hg') with rfl | hrest
  · rw [hm] at hm'
    cases hm'
  · exact h.alone hg hx _ (List.mem_append_left _ (List.mem_map_of_mem hrest)) hc

theorem loose_eraseIdx (hg : s.guards[i]? = some g) (hm : g.unmarked = false) (c : Nat) :
    s.Loose c ↔ Loose { s with guards := s.guards.eraseIdx i } c := by
  constructor
  · rintro ⟨g', hg', hm', hc⟩
    rcases List.mem_cons.1 ((perm_eraseIdx hg).subset hg') with rfl | hrest
    · rw [hm] at hm'
      cases hm'
    · exact ⟨g', hrest, hm', hc⟩
  · rintro ⟨g', hg', hm', hc⟩
    exact ⟨g', List.mem_of_mem_eraseIdx hg', hm', hc⟩

/-- Only the engine has changed. -/
theorem plainStep (h : s.Sound) {r : Except Error Answer} (hkept : s.kept a = s.held)
    (hstep : s.step a = (r, { s with engine := e })) (hcoh : e.Coherent s.held s.Loose)
    (hf : Follows s.held s.engine e) (hrefines : s.Refines a) : s.PlainStep a := by
  refine ⟨?_, ?_, hrefines⟩
  · rw [hstep]
    exact h.withEngine hcoh hf
  · rw [hstep, hkept]
    exact hf

/-- Only the engine has changed, and no row of it. -/
theorem quietStep (h : s.Sound) {r : Except Error Answer} (hkept : s.kept a = s.held)
    (hstep : s.step a = (r, { s with engine := e })) (hcoh : e.Coherent s.held s.Loose)
    (hsame : SameRows s.held s.engine e) (hfail : a.isUpdate = true → ∃ err, r = .error err) :
    s.PlainStep a := by
  refine h.plainStep hkept hstep hcoh hsame.toFollows (refines_of_rows ?_ ?_)
  · rw [hstep]
    exact hsame.rows
  · rw [hstep]
    exact hfail

theorem get_step (h : s.Sound) (id : PageId) (access : Access) : s.PlainStep (.get id access) := by
  rcases h.coherent.getPage_or_fail id access with ⟨err, e', heq, -, hun, hcoh⟩ |
    ⟨c, p, e', heq, -, hun, hcoh, -⟩
  · have hstep : s.step (.get id access) = (.error err, { s with engine := e' }) := by
      simp only [step, heq]
    exact h.quietStep rfl hstep hcoh hun.sameRows fun _ => ⟨err, rfl⟩
  · have hstep : s.step (.get id access) =
        (.ok .done, { s with engine := e', guards := ⟨⟨c, access⟩, false⟩ :: s.guards }) := by
      simp only [step, heq]
    refine ⟨?_, ?_, refines_of_rows (by rw [hstep]; exact hun.rows_eq) fun ha => by cases ha⟩
    · rw [hstep]
      refine ⟨hcoh.congr_loose fun d => ?_, fun sc hsc => ?_, h.reads⟩
      · constructor
        · rintro ⟨g, hg, hm, hd⟩
          exact ⟨g, List.mem_cons_of_mem _ hg, hm, hd⟩
        · rintro ⟨g, hg, hm, hd⟩
          rcases List.mem_cons.1 hg with rfl | hg
          · cases hm
          · exact ⟨g, hg, hm, hd⟩
      · rw [hun.table?_eq]
        exact h.tables sc hsc
    · rw [hstep]
      exact hun.toFollows

theorem release_step (h : s.Sound) (i : Nat) (hr : s.ReleasesMarked (.release i)) :
    s.PlainStep (.release i) := by
  cases hg : s.guards[i]? with
  | none =>
    have hstep : s.step (.release i) = (.ok .absent, s) := by simp only [step, hg]
    refine ⟨by rw [hstep]; exact h, ?_, refines_of_rows (by rw [hstep]) fun ha => by cases ha⟩
    rw [hstep]
    exact .refl _ _
  | some g =>
    have hm := hr i rfl g hg
    obtain ⟨hcoh, hun⟩ := (h.coherent.perm (held_perm_guard hg)).release (h.not_loose hg hm)
    have hstep : s.step (.release i) = (.ok .done, { s with
        engine := s.engine.release g.checkout, guards := s.guards.eraseIdx i }) := by
      simp only [step, hg]
    refine ⟨?_, ?_, refines_of_rows (by rw [hstep]; exact hun.rows_eq) fun ha => by cases ha⟩
    · rw [hstep]
      refine ⟨hcoh.congr_loose fun c => loose_eraseIdx hg hm c, fun sc hsc => ?_, h.reads⟩
      rw [hun.table?_eq]
      exact h.tables sc hsc
    · rw [hstep]
      exact hun.toFollows

theorem insert_step (h : s.Sound) (table : Nat) (txn : TxnId) (t : Tuple)
    (hs : s.StaysSmall (.insert table txn t)) : s.PlainStep (.insert table txn t) := by
  obtain ⟨r, t', e', heq, hcoh, hstored⟩ := h.coherent.insert_cases table txn t hs
  have hstep : s.step (.insert table txn t) = (r.map .record, { s with engine := e' }) := by
    simp only [step, onEngine, heq]
  cases hstored with
  | failed hun => exact h.quietStep rfl hstep hcoh hun.sameRows fun _ => ⟨_, rfl⟩
  | done hfree hset =>
    refine h.plainStep rfl hstep hcoh hset.follows ?_
    unfold Refines
    simp only [hstep]
    exact ⟨hfree, hset.rows_update⟩

theorem delete_step (h : s.Sound) (txn : TxnId) (t : Tuple) : s.PlainStep (.delete txn t) := by
  obtain ⟨r, e', heq, -, hcoh, hcases⟩ := h.coherent.delete_cases txn t
  have hstep : s.step (.delete txn t) = (r.map fun _ => .done, { s with engine := e' }) := by
    simp only [step, onEngine, heq]
  rcases hcases with ⟨err, rfl, hun⟩ | ⟨rid, hrid, rfl, hlive, hset⟩
  · exact h.quietStep rfl hstep hcoh hun.sameRows fun _ => ⟨err, rfl⟩
  · refine h.plainStep rfl hstep hcoh hset.follows ?_
    unfold Refines
    simp only [hstep]
    exact ⟨rid, hrid, hlive, hset.rows_update⟩

theorem deleteFrom_step (h : s.Sound) (table : Nat) (txn : TxnId) (t : Tuple) :
    s.PlainStep (.deleteFrom table txn t) := by
  cases htbl : s.engine.pool.table table with
  | error err =>
    have hstep : s.step (.deleteFrom table txn t) = (.error err, s) := by simp only [step, htbl]
    exact h.quietStep rfl hstep h.coherent (.refl _ _) fun _ => ⟨err, rfl⟩
  | ok tbl =>
    obtain ⟨r, e', heq, -, hcoh, hcases⟩ := h.coherent.deleteTuple_cases tbl txn t
    have hstep : s.step (.deleteFrom table txn t) = (r.map .page, { s with engine := e' }) := by
      simp only [step, htbl, onEngine, heq]
    rcases hcases with ⟨err, rfl, hun⟩ | ⟨rid, hrid, rfl, hlive, hset⟩
    · exact h.quietStep rfl hstep hcoh hun.sameRows fun _ => ⟨err, rfl⟩
    · refine h.plainStep rfl hstep hcoh hset.follows ?_
      unfold Refines
      simp only [hstep]
      exact ⟨rid, hrid, hlive, hset.rows_update⟩

theorem scan_step (h : s.Sound) (i : Nat) (call : ScanCall) : s.PlainStep (.scan i call) := by
  cases hsc : s.scans[i]? with
  | none =>
    have hstep : s.step (.scan i call) = (.ok .absent, s) := by simp only [step, hsc]
    refine ⟨by rw [hstep]; exact h, ?_, refines_of_rows (by rw [hstep]) fun ha => by cases ha⟩
    rw [hstep]
    exact .refl _ _
  | some sc =>
    have hmem := List.mem_of_getElem? hsc
    have hmoved := Scan.call_moved (h.coherent.perm (held_perm_scan hsc)) (h.reads sc hmem) call
    cases heq : sc.call s.engine call with
    | mk r rest =>
      obtain ⟨sc', e'⟩ := rest
      rw [heq] at hmoved
      have hun := hmoved.unchanged
      have hstep : s.step (.scan i call) =
          (r, { s with engine := e', scans := s.scans.set i sc' }) := by
        simp only [step, hsc, heq]
      have hother {x : Scan} (hx : x ∈ s.scans.set i sc') : x ∈ s.scans ∨ x = sc' :=
        List.mem_or_eq_of_mem_set hx
      refine ⟨?_, ?_, refines_of_rows (by rw [hstep]; exact hun.rows_eq) fun ha => by cases ha⟩
      · rw [hstep]
        refine ⟨hmoved.coherent.perm (held_perm_setScan hsc e' sc').symm, fun x hx => ?_,
          fun x hx => ?_⟩
        · rw [hun.table?_eq]
          rcases hother hx with hx | rfl
          · exact h.tables x hx
          · rw [hmoved.table]
            exact h.tables sc hmem
        · rcases hother hx with hx | rfl
          · exact h.reads x hx
          · exact hmoved.reads
      · rw [hstep]
        exact hun.toFollows

theorem newScan_step (h : s.Sound) (table : Nat) : s.PlainStep (.newScan table) := by
  cases htbl : s.engine.pool.table table with
  | error err =>
    have hstep : s.step (.newScan table) = (.error err, s) := by simp only [step, htbl]
    exact h.quietStep rfl hstep h.coherent (.refl _ _) fun _ => ⟨err, rfl⟩
  | ok tbl =>
    have hstep : s.step (.newScan table) =
        (.ok .done, { s with scans := s.scans ++ [Scan.ofTable tbl] }) := by
      simp only [step, htbl]
    have ht := Engine.table_eq_ok.1 htbl
    refine ⟨?_, ?_, refines_of_rows (by rw [hstep]) fun ha => by cases ha⟩
    · rw [hstep]
      refine ⟨?_, fun x hx => ?_, fun x hx => ?_⟩
      · have hheld : held { s with scans := s.scans ++ [Scan.ofTable tbl] } = s.held := by
          simp [held, Scan.checkouts, Scan.ofTable]
        rw [hheld]
        exact h.coherent
      · rcases List.mem_append.1 hx with hx | hx
        · exact h.tables x hx
        · obtain rfl := List.mem_singleton.1 hx
          exact (h.coherent.own _ _ ht).symm ▸ ht
      · rcases List.mem_append.1 hx with hx | hx
        · exact h.reads x hx
        · obtain rfl := List.mem_singleton.1 hx
          rintro c ⟨⟩
    · rw [hstep]
      exact .refl _ _

/-- A call to the engine that changes no row. -/
theorem flush_step {α : Type} (h : s.Sound) {x : Except Error α × Engine} {k : α → Answer}
    (hstep : s.step a = s.onEngine (x.1.map k, x.2)) (hkept : s.kept a = s.held)
    (hquiet : a.isUpdate = false)
    (hx : ∃ r e', x = (r, e') ∧ e'.Coherent s.held s.Loose ∧ SameRows s.held s.engine e') :
    s.PlainStep a := by
  obtain ⟨r, e', rfl, hcoh, hsame⟩ := hx
  refine h.quietStep hkept hstep hcoh hsame fun ha => ?_
  rw [hquiet] at ha
  cases ha

theorem plain_step (h : s.Sound) (ha : a.isPlain = true) (hr : s.ReleasesMarked a)
    (hs : s.StaysSmall a) : s.PlainStep a := by
  cases a with
  | get id access => exact h.get_step id access
  | release i => exact h.release_step i hr
  | pageInsert | pageDelete | mark | adopt | discard => cases ha
  | insert table txn t => exact h.insert_step table txn t hs
  | delete txn t => exact h.delete_step txn t
  | deleteFrom table txn t => exact h.deleteFrom_step table txn t
  | flushPage id => exact h.flush_step rfl rfl rfl (h.coherent.flushPage_sameRows id)
  | flushAll => exact h.flush_step rfl rfl rfl (h.coherent.flushResidents_sameRows none)
  | flushTxn txn => exact h.flush_step rfl rfl rfl (h.coherent.flushResidents_sameRows (some txn))
  | dirtiedBy id => exact h.quietStep rfl rfl h.coherent (.refl _ _) fun ha => by cases ha
  | newScan table => exact h.newScan_step table
  | scan i call => exact h.scan_step i call

end Sound

/-! ### Sessions without changes under a checkout -/

/-- No page is left unmarked. -/
def Marked (s : Session) : Prop := ∀ g ∈ s.guards, g.unmarked = false

theorem Marked.releasesMarked (h : s.Marked) (a : Action) : s.ReleasesMarked a :=
  fun _ _ g hg => h g (List.mem_of_getElem? hg)

theorem Marked.not_loose (h : s.Marked) (c : Nat) : ¬ s.Loose c := by
  rintro ⟨g, hg, hm, -⟩
  rw [h g hg] at hm
  cases hm

theorem Marked.of_subset {s' : Session} (h : s.Marked)
    (hg : ∀ g ∈ s'.guards, g ∈ s.guards ∨ g.unmarked = false) : s'.Marked := by
  intro g hmem
  rcases hg g hmem with hold | hnew
  · exact h g hold
  · exact hnew

theorem isPlainOrDiscard_of_isPlain (h : a.isPlain = true) : a.isPlainOrDiscard = true := by
  cases a <;> first | exact h | rfl

theorem Marked.step (h : s.Marked) (ha : a.isPlainOrDiscard = true) : (s.step a).2.Marked := by
  refine h.of_subset fun g hg => ?_
  cases a with
  | get id access =>
    simp only [Session.step] at hg
    split at hg
    · exact .inl hg
    · rcases List.mem_cons.1 hg with rfl | hg
      · exact .inr rfl
      · exact .inl hg
  | release i =>
    simp only [Session.step] at hg
    split at hg
    · exact .inl hg
    · exact .inl (List.mem_of_mem_eraseIdx hg)
  | deleteFrom | newScan | scan =>
    simp only [Session.step] at hg
    split at hg <;> exact .inl hg
  | pageInsert | pageDelete | mark | adopt => cases ha
  | insert | delete | flushPage | flushAll | flushTxn | dirtiedBy | discard => exact .inl hg

/-- A plain action that leaves the tables small. -/
def PlainAndSmall (s : Session) (a : Action) : Prop := a.isPlain = true ∧ s.StaysSmall a

instance (s : Session) (a : Action) : Decidable (s.PlainAndSmall a) :=
  inferInstanceAs (Decidable (_ ∧ _))

theorem Along.plain_invariant {as : List Action} (h : s.Along PlainAndSmall as) (hs : s.Sound)
    (hm : s.Marked) : (s.after as).Sound ∧ (s.after as).Marked := by
  refine h.invariant (P := fun s => s.Sound ∧ s.Marked) ⟨hs, hm⟩ ?_
  intro s a ⟨hs, hm⟩ ⟨hplain, hsmall⟩
  refine ⟨(hs.plain_step hplain (hm.releasesMarked a) hsmall).sound, ?_⟩
  exact hm.step (isPlainOrDiscard_of_isPlain hplain)

theorem start_marked (d : Disk) (n : Nat) (ts : List Table) : (start d n ts).Marked := by
  rintro g ⟨⟩

end Session

end HeapStore
