import Mathlib.Data.List.Perm.Basic
import HeapStore.Proofs.PageFlush
import HeapStore.Proofs.ScanProgress

/-! Sessions. One user after the other calls the engine and keeps checkouts and scans in hand between
the calls; an action is one call, a session is the engine with all that is in hand. `Session.Sound` is
what the actions keep: the pages in memory agree with the files, every checkout in hand is booked, and
a page that was changed under a checkout and not yet marked dirty has its checkout still in hand. -/

namespace HeapStore

/-- A checkout in hand. `unmarked` tells whether its page was changed under it and not marked since. -/
structure Guard where
  checkout : Checkout
  unmarked : Bool
  deriving DecidableEq, Repr

structure Session where
  engine : Engine
  guards : List Guard
  scans : List Scan
  deriving DecidableEq, Repr

inductive ScanCall where
  | start
  | hasNext
  | next
  | rewind
  | close
  deriving DecidableEq, Repr

inductive Action where
  | get (id : PageId) (access : Access)
  | release (i : Nat)
  | pageInsert (i : Nat) (t : Tuple)
  | pageDelete (i : Nat) (t : Tuple)
  | mark (i : Nat) (txn : TxnId)
  | insert (table : Nat) (txn : TxnId) (t : Tuple)
  | delete (txn : TxnId) (t : Tuple)
  | deleteFrom (table : Nat) (txn : TxnId) (t : Tuple)
  | adopt (id : PageId) (page : Page)
  | flushPage (id : PageId)
  | flushAll
  | flushTxn (txn : TxnId)
  | dirtiedBy (id : PageId)
  | discard (id : PageId)
  | newScan (table : Nat)
  | scan (i : Nat) (call : ScanCall)
  deriving DecidableEq, Repr

inductive Answer where
  | done
  /-- There is no checkout or scan at this position. -/
  | absent
  | flag (b : Bool)
  | count (n : Nat)
  | page (id : PageId)
  | record (rid : RecordId)
  | writer (txn : Option TxnId)
  | tuple (t : Option Tuple)
  deriving DecidableEq, Repr

def Scan.call (s : Scan) (e : Engine) : ScanCall → Except Error Answer × Scan × Engine
  | .start => (s.start.1.map fun _ => .done, s.start.2, e)
  | .hasNext => ((s.hasNext e).1.map .flag, (s.hasNext e).2)
  | .next => ((s.next e).1.map .tuple, (s.next e).2)
  | .rewind => ((s.rewind e).1.map fun _ => .done, (s.rewind e).2)
  | .close => (.ok .done, s.close e)

/-- No page is changed but by inserts and deletes on tables, and none is dropped. -/
def Action.isPlain : Action → Bool
  | .pageInsert .. | .pageDelete .. | .mark .. | .adopt .. | .discard .. => false
  | _ => true

/-- As a plain action, but pages may be dropped. -/
def Action.isPlainOrDiscard : Action → Bool
  | .discard _ => true
  | a => a.isPlain

/-- The pool over these tables with no page resident. -/
def Pool.ofTables (n : Nat) (ts : List Table) : Pool := ts.foldl Pool.register (Pool.ofFrames n)

namespace Session

def start (d : Disk) (n : Nat) (ts : List Table) : Session := ⟨⟨d, Pool.ofTables n ts⟩, [], []⟩

def onEngine (s : Session) (r : Except Error Answer × Engine) : Except Error Answer × Session :=
  (r.1, { s with engine := r.2 })

/-- Changes the page under a checkout in hand. -/
def change (s : Session) (i : Nat) (unmarked : Bool) (f : Page → Except Error Answer × Page) :
    Except Error Answer × Session :=
  match s.guards[i]? with
  | none => (.ok .absent, s)
  | some g =>
    match s.engine.edit g.checkout f with
    | (.error err, e) => (.error err, { s with engine := e })
    | (.ok a, e) => (.ok a, { s with engine := e, guards := s.guards.set i ⟨g.checkout, unmarked⟩ })

def step (s : Session) : Action → Except Error Answer × Session
  | .get id access =>
    match s.engine.getPage id access with
    | (.error err, e) => (.error err, { s with engine := e })
    | (.ok g, e) => (.ok .done, { s with engine := e, guards := ⟨g, false⟩ :: s.guards })
  | .release i =>
    match s.guards[i]? with
    | none => (.ok .absent, s)
    | some g =>
      (.ok .done, { s with engine := s.engine.release g.checkout, guards := s.guards.eraseIdx i })
  | .pageInsert i t => s.change i true fun p => ((p.insert t).1.map .record, (p.insert t).2.2)
  | .pageDelete i t => s.change i true fun p => ((p.delete t).1.map fun _ => .done, (p.delete t).2)
  | .mark i txn => s.change i false fun p => (.ok .done, p.markDirty true txn)
  | .insert table txn t =>
    let r := s.engine.insert table txn t
    s.onEngine (r.1.map .record, r.2.2)
  | .delete txn t =>
    let r := s.engine.delete txn t
    s.onEngine (r.1.map fun _ => .done, r.2)
  | .deleteFrom table txn t =>
    match s.engine.pool.table table with
    | .error err => (.error err, s)
    | .ok tbl =>
      let r := s.engine.deleteTuple tbl txn t
      s.onEngine (r.1.map .page, r.2)
  | .adopt id page =>
    let r := s.engine.adopt id page
    s.onEngine (r.1.map fun _ => .done, r.2)
  | .flushPage id =>
    let r := s.engine.flushPage id
    s.onEngine (r.1.map .flag, r.2)
  | .flushAll =>
    let r := s.engine.flushAll
    s.onEngine (r.1.map .count, r.2)
  | .flushTxn txn =>
    let r := s.engine.flushTxn txn
    s.onEngine (r.1.map .count, r.2)
  | .dirtiedBy id => (.ok (.writer (s.engine.pool.dirtiedBy id)), s)
  | .discard id =>
    let r := s.engine.discard id
    s.onEngine (.ok (.flag r.1), r.2)
  | .newScan table =>
    match s.engine.pool.table table with
    | .error err => (.error err, s)
    | .ok tbl => (.ok .done, { s with scans := s.scans ++ [Scan.ofTable tbl] })
  | .scan i call =>
    match s.scans[i]? with
    | none => (.ok .absent, s)
    | some sc =>
      let (r, sc, e) := sc.call s.engine call
      (r, { s with engine := e, scans := s.scans.set i sc })

def after (s : Session) (as : List Action) : Session := as.foldl (fun s a => (s.step a).2) s

/-- The answers to actions, one after the other. -/
def answers (s : Session) : List Action → List (Except Error Answer)
  | [] => []
  | a :: as => (s.step a).1 :: (s.step a).2.answers as

/-- Each action meets this condition in the state in which it is taken. -/
def Along (ok : Session → Action → Prop) (s : Session) : List Action → Prop
  | [] => True
  | a :: as => ok s a ∧ (s.step a).2.Along ok as

/-- The tables have at most 2³² - 1 pages after this action. -/
def StaysSmall (s : Session) (a : Action) : Prop :=
  ∀ k t, s.engine.table? k = some t → t.Small (s.step a).2.engine.disk

/-- All checkouts in hand, those of the scans included. -/
def held (s : Session) : List Checkout := s.guards.map (·.checkout) ++ s.scans.flatMap Scan.checkouts

/-- The copies that were changed under a checkout and are still to be marked. -/
def Loose (s : Session) (c : Nat) : Prop := ∃ g ∈ s.guards, g.unmarked = true ∧ g.checkout.copy = c

structure Sound (s : Session) : Prop where
  coherent : s.engine.Coherent s.held s.Loose
  tables : ∀ sc ∈ s.scans, s.engine.table? sc.table.id = some sc.table
  reads : ∀ sc ∈ s.scans, sc.Reads

@[simp]
theorem after_nil (s : Session) : s.after [] = s := rfl

theorem after_cons (s : Session) (a : Action) (as : List Action) :
    s.after (a :: as) = (s.step a).2.after as := rfl

theorem after_append (s : Session) (as bs : List Action) :
    s.after (as ++ bs) = (s.after as).after bs := List.foldl_append ..

variable {s : Session} {ok : Session → Action → Prop}

theorem along_append {as bs : List Action} :
    s.Along ok (as ++ bs) ↔ s.Along ok as ∧ (s.after as).Along ok bs := by
  induction as generalizing s with
  | nil => simp [Along, after]
  | cons a as ih => rw [List.cons_append, Along, Along, ih, after_cons, and_assoc]

/-- What every action keeps holds after all of them. -/
theorem Along.invariant {P : Session → Prop} {as : List Action} (h : s.Along ok as) (hs : P s)
    (hstep : ∀ s a, P s → ok s a → P (s.step a).2) : P (s.after as) := by
  induction as generalizing s with
  | nil => exact hs
  | cons a as ih => exact ih h.2 (hstep s a hs h.1)

/-! ### The start -/

theorem lookup_register (p : Pool) (t : Table) (k : Nat) :
    (p.register t).tables.lookup k = if k = t.id then some t else p.tables.lookup k := by
  unfold Pool.register
  rw [List.lookup_cons]
  by_cases hk : k = t.id
  · simp [hk]
  · simp only [beq_eq_false_iff_ne.2 hk, if_neg hk]
    rw [Pool.lookup_filter_ne, if_neg hk]

/-- The tables of a new pool are those that were registered, each under its id. -/
theorem lookup_ofTables {n : Nat} {ts : List Table} {k : Nat} {t : Table}
    (h : (Pool.ofTables n ts).tables.lookup k = some t) : t ∈ ts ∧ t.id = k := by
  have general : ∀ (ts : List Table) (p : Pool), (ts.foldl Pool.register p).tables.lookup k = some t →
      (t ∈ ts ∧ t.id = k) ∨ p.tables.lookup k = some t := by
    intro ts
    induction ts with
    | nil => exact fun _ hp => .inr hp
    | cons u ts ih =>
      intro p hp
      rcases ih (p.register u) hp with ⟨hmem, hid⟩ | hlook
      · exact .inl ⟨List.mem_cons_of_mem _ hmem, hid⟩
      · rw [lookup_register] at hlook
        split at hlook
        · next hk =>
          cases hlook
          exact .inl ⟨List.mem_cons_self, hk.symm⟩
        · exact .inr hlook
  rcases general ts _ h with hts | hnone
  · exact hts
  · cases hnone

theorem sound_register {p : Pool} {held : List Checkout} (h : p.Sound held) (t : Table) :
    (p.register t).Sound held :=
  ⟨h.keys, h.index, h.single, h.free_nodup, h.mem_free, h.capacity, h.hand, h.idle, h.cells⟩

theorem sound_ofTables (n : Nat) (ts : List Table) : (Pool.ofTables n ts).Sound [] := by
  have general : ∀ (ts : List Table) (p : Pool), p.Sound [] → (ts.foldl Pool.register p).Sound [] := by
    intro ts
    induction ts with
    | nil => exact fun _ hp => hp
    | cons u ts ih => exact fun p hp => ih _ (sound_register hp u)
  exact general ts _ (.ofFrames n)

theorem copyOf?_ofTables (n : Nat) (ts : List Table) (id : PageId) :
    (Pool.ofTables n ts).copyOf? id = none := by
  have general : ∀ (ts : List Table) (p : Pool), p.index = [] →
      (ts.foldl Pool.register p).index = [] := by
    intro ts
    induction ts with
    | nil => exact fun _ hp => hp
    | cons u ts ih => exact fun p hp => ih _ hp
  unfold Pool.copyOf? Pool.frameOf?
  rw [Pool.ofTables, general ts (Pool.ofFrames n) rfl]
  rfl

theorem start_sound {d : Disk} (n : Nat) {ts : List Table}
    (h : ∀ t ∈ ts, t.Stands d ∧ t.Small d) : (start d n ts).Sound := by
  refine ⟨⟨sound_ofTables n ts, fun k t hk => (lookup_ofTables hk).2,
    fun k t hk => (h t (lookup_ofTables hk).1).1, fun k t hk => (h t (lookup_ofTables hk).1).2,
    fun id c p hc => ?_, ?_⟩, ?_, ?_⟩
  · have hc : (Pool.ofTables n ts).copyOf? id = some c := hc
    rw [copyOf?_ofTables] at hc
    cases hc
  · rintro c ⟨g, hg, -⟩
    cases hg
  · rintro sc hsc
    cases hsc
  · rintro sc hsc
    cases hsc

/-! ### What is in hand -/

variable {i : Nat} {g : Guard} {sc sc' : Scan}

theorem perm_eraseIdx {α : Type} {l : List α} {a : α} (h : l[i]? = some a) :
    l.Perm (a :: l.eraseIdx i) := by
  obtain ⟨hi, rfl⟩ := List.getElem?_eq_some_iff.1 h
  exact (List.getElem_cons_eraseIdx_perm hi).symm

theorem held_perm_guard (h : s.guards[i]? = some g) : s.held.Perm
    (g.checkout :: ((s.guards.eraseIdx i).map (·.checkout) ++ s.scans.flatMap Scan.checkouts)) :=
  ((perm_eraseIdx h).map _).append_right _

theorem held_perm_scan (h : s.scans[i]? = some sc) : s.held.Perm (sc.checkouts ++
    (s.guards.map (·.checkout) ++ (s.scans.eraseIdx i).flatMap Scan.checkouts)) := by
  have := ((perm_eraseIdx h).flatMap_right Scan.checkouts).append_left (s.guards.map (·.checkout))
  rw [List.flatMap_cons] at this
  exact this.trans (List.perm_append_comm_assoc ..)

theorem held_perm_setScan (h : s.scans[i]? = some sc) (e : Engine) (sc' : Scan) :
    (held { s with engine := e, scans := s.scans.set i sc' }).Perm (sc'.checkouts ++
      (s.guards.map (·.checkout) ++ (s.scans.eraseIdx i).flatMap Scan.checkouts)) := by
  obtain ⟨hi, -⟩ := List.getElem?_eq_some_iff.1 h
  have := ((List.set_perm_cons_eraseIdx hi sc').flatMap_right Scan.checkouts).append_left
    (s.guards.map (·.checkout))
  rw [List.flatMap_cons] at this
  exact this.trans (List.perm_append_comm_assoc ..)

/-! ### Deciding what a run needs -/

instance (t : Table) (d : Disk) : Decidable (t.Small d) := inferInstanceAs (Decidable (_ ≤ _))

theorem mem_of_lookup {κ β : Type} [DecidableEq κ] {l : List (κ × β)} {k : κ} {b : β}
    (h : l.lookup k = some b) : (k, b) ∈ l := by
  induction l with
  | nil => cases h
  | cons e l ih =>
    rw [List.lookup_cons] at h
    by_cases hk : k = e.1
    · simp only [hk, beq_self_eq_true] at h
      cases h
      rw [hk]
      exact List.mem_cons_self
    · simp only [beq_eq_false_iff_ne.2 hk] at h
      exact List.mem_cons_of_mem _ (ih h)

instance (s : Session) (a : Action) : Decidable (s.StaysSmall a) :=
  decidable_of_iff (∀ e ∈ s.engine.pool.tables, s.engine.table? e.1 = some e.2 →
      e.2.Small (s.step a).2.engine.disk)
    ⟨fun h k t ht => h (k, t) (mem_of_lookup ht) ht, fun h e _ he => h e.1 e.2 he⟩

instance decidableAlong (s : Session) {ok : Session → Action → Prop} [∀ s a, Decidable (ok s a)] :
    (as : List Action) → Decidable (s.Along ok as)
  | [] => isTrue trivial
  | a :: as =>
    have : Decidable ((s.step a).2.Along ok as) := decidableAlong _ as
    inferInstanceAs (Decidable (ok s a ∧ _))

end Session

/-! ### A tiny table -/

def tinySchema : Schema := ⟨[⟨.int, "n"⟩], by decide, by decide, by decide⟩

/-- A table with two tuples to a page of nine bytes. -/
def tinyTable : Table :=
  ⟨⟨"/t", "/t", false⟩, tinySchema, ⟨9, 4, by decide, by decide, by decide⟩, by decide⟩

theorem Contents.within_nil : ∀ x ∈ ([] : List Extent), x.stop ≤ 0 := by simp

def tinyDisk : Disk := ⟨[("/t", .file ⟨0, [], Contents.within_nil⟩)]⟩

def tinyTuple (n : Int32) (rid : Option RecordId) : Tuple := ⟨tinySchema, [.int n], rid, ⟨trivial, trivial⟩⟩

def tinyPage (n : Nat) : PageId := ⟨tinyTable.id, n⟩

def tinyEmpty (n : Nat) : Page :=
  ⟨tinyPage n, tinySchema, tinyTable.layout, [0], [none, none], none, zeros 9⟩

theorem tinyDisk_ready : ∀ t ∈ [tinyTable], t.Stands tinyDisk ∧ t.Small tinyDisk := by
  intro t ht
  obtain rfl := List.mem_singleton.1 ht
  exact ⟨⟨{}, rfl⟩, by decide⟩

end HeapStore
