import Mathlib.Data.List.Induction
import HeapStore.Proofs.PageFormat
import HeapStore.Proofs.Session

/-! The before-image through the life of a page. A page is saved when it is read from bytes, when it is
told to take a snapshot, and when a table writes it to its file. What else happens to it leaves the stored
bytes alone, so the before-image is at all times the page as it was when it was last saved. -/

namespace HeapStore

/-- A table writes a page and the page takes a snapshot, or it fails and leaves the page alone. -/
theorem Table.writePage_page (t : Table) (d : Disk) (p : Page) :
    (t.writePage d p).1 = .ok () ∧ (t.writePage d p).2.1 = p.snapshot ∨
      (t.writePage d p).1 ≠ .ok () ∧ (t.writePage d p).2.1 = p := by
  unfold writePage
  split
  · exact .inr ⟨nofun, rfl⟩
  · simp only
    split
    · exact .inr ⟨nofun, rfl⟩
    · exact .inl ⟨rfl, rfl⟩

namespace Page

/-! ### The life of a page -/

inductive Event where
  | insert (t : Tuple)
  | delete (t : Tuple)
  | mark (dirty : Bool) (txn : TxnId)
  | snapshot
  /-- A table is told to write the page, on a disk as it then is. -/
  | write (t : Table) (d : Disk)
  deriving DecidableEq, Repr

/-- The page after an event, successful or not. -/
def next (p : Page) : Event → Page
  | .insert t => (p.insert t).2.2
  | .delete t => (p.delete t).2
  | .mark dirty txn => p.markDirty dirty txn
  | .snapshot => p.snapshot
  | .write t d => (t.writePage d p).2.1

def run (p : Page) (events : List Event) : Page := events.foldl next p

/-- Is the page saved by the event? A write saves it if it succeeds. -/
def Event.Saves (p : Page) : Event → Prop
  | .snapshot => True
  | .write t d => (t.writePage d p).1 = .ok ()
  | .insert _ | .delete _ | .mark _ _ => False

instance (p : Page) (e : Event) : Decidable (e.Saves p) :=
  match e with
  | .snapshot => .isTrue trivial
  | .write t d => inferInstanceAs (Decidable ((t.writePage d p).1 = .ok ()))
  | .insert _ | .delete _ | .mark _ _ => .isFalse not_false

/-- None of the events saves the page. -/
def Unsaved (p : Page) : List Event → Prop
  | [] => True
  | e :: events => ¬ e.Saves p ∧ (p.next e).Unsaved events

/-- The last of the events saves the page, or there are none. -/
def SavedBy (p : Page) (events : List Event) : Prop :=
  events = [] ∨ ∃ earlier e, events = earlier ++ [e] ∧ e.Saves (p.run earlier)

/-- A clean page with the header, the used slots, the values and the record ids of another. -/
structure Pictures (q p : Page) : Prop where
  clean : q.dirtiedBy = none
  id : q.id = p.id
  schema : q.schema = p.schema
  header : q.header = p.header
  used : ∀ slot, q.isSlotUsed slot = p.isSlotUsed slot
  entry : ∀ slot, q.entry slot = p.entry slot

theorem run_append (p : Page) (events events' : List Event) :
    p.run (events ++ events') = (p.run events).run events' := List.foldl_append ..

theorem unsaved_append {p : Page} {events events' : List Event} :
    p.Unsaved (events ++ events') ↔ p.Unsaved events ∧ (p.run events).Unsaved events' := by
  induction events generalizing p with
  | nil => simp [Unsaved, run]
  | cons e events ih => exact (and_congr_right fun _ => ih).trans and_assoc.symm

/-- Each course of events is cut by the last one that saves the page. -/
theorem exists_saved_since (p : Page) (events : List Event) :
    ∃ saved since, events = saved ++ since ∧ p.SavedBy saved ∧ (p.run saved).Unsaved since := by
  induction events using List.reverseRecOn with
  | nil => exact ⟨[], [], rfl, .inl rfl, trivial⟩
  | append_singleton events e ih =>
    by_cases he : e.Saves (p.run events)
    · exact ⟨events ++ [e], [], (List.append_nil _).symm, .inr ⟨events, e, rfl, he⟩, trivial⟩
    · obtain ⟨saved, since, rfl, hsaved, hsince⟩ := ih
      rw [run_append] at he
      exact ⟨saved, since ++ [e], List.append_assoc .., hsaved, unsaved_append.2 ⟨hsince, he, trivial⟩⟩

/-! ### One event -/

theorem next_of_saves {p : Page} {e : Event} (h : e.Saves p) : p.next e = p.snapshot := by
  cases e with
  | snapshot => rfl
  | write t d =>
    rcases t.writePage_page d p with ⟨-, hpage⟩ | ⟨hfail, -⟩
    · exact hpage
    · exact absurd h hfail
  | insert t => exact h.elim
  | delete t => exact h.elim
  | mark dirty txn => exact h.elim

theorem beforeBytes_next {p : Page} {e : Event} (h : ¬ e.Saves p) :
    (p.next e).beforeBytes = p.beforeBytes := by
  cases e with
  | snapshot => exact absurd trivial h
  | write t d =>
    rcases t.writePage_page d p with ⟨hok, -⟩ | ⟨-, hpage⟩
    · exact absurd hok h
    · exact congrArg beforeBytes hpage
  | insert t =>
    rcases p.insert_cases t with ⟨err, hi⟩ | ⟨slot, -, -, -, hi⟩ <;> exact congrArg (·.2.2.beforeBytes) hi
  | delete t =>
    rcases p.delete_cases t with ⟨err, hd⟩ | ⟨slot, -, -, hd⟩ <;> exact congrArg (·.2.beforeBytes) hd
  | mark dirty txn => rfl

theorem beforeBytes_run {p : Page} {events : List Event} (h : p.Unsaved events) :
    (p.run events).beforeBytes = p.beforeBytes := by
  induction events generalizing p with
  | nil => rfl
  | cons e events ih => exact (ih h.2).trans (beforeBytes_next h.1)

section

variable {p : Page} {id : PageId} {s : Schema} {pageSize : Nat} {data : Bytes}

theorem Kind.next (h : p.Kind id s pageSize) (e : Event) : (p.next e).Kind id s pageSize := by
  by_cases he : e.Saves p
  · rw [next_of_saves he]
    exact h.call .snapshot
  · cases e with
    | insert t => exact h.insert t
    | delete t => exact h.delete t
    | mark dirty txn => exact h.call (.mark dirty txn)
    | snapshot => exact absurd trivial he
    | write t d =>
      rcases t.writePage_page d p with ⟨hok, -⟩ | ⟨-, hpage⟩
      · exact absurd hok he
      · rw [Page.next, hpage]
        exact h

theorem Kind.run (h : p.Kind id s pageSize) (events : List Event) :
    (p.run events).Kind id s pageSize := by
  induction events generalizing p with
  | nil => exact h
  | cons e events ih => exact ih (h.next e)

theorem Kind.before_eq (h : p.Kind id s pageSize) : p.before = ofBytes id s pageSize p.beforeBytes := by
  rw [before, h.id, h.schema, h.pageSize]

/-! ### The before-image -/

/-- A page that takes a snapshot is told by it. -/
theorem Kind.before_snapshot (h : p.Kind id s pageSize) :
    ∃ q, p.snapshot.before = .ok q ∧ q.Pictures p.snapshot := by
  obtain ⟨-, q, hq, hheader, hused, hentry, -⟩ := h.ofBytes_toBytes
  obtain ⟨-, hid, hschema, -, hclean, -⟩ := sound_of_ofBytes hq
  exact ⟨q, (h.call .snapshot).before_eq.trans hq,
    ⟨hclean, hid.trans h.id.symm, hschema.trans h.schema.symm, hheader, hused, hentry⟩⟩

theorem before_of_savedBy (h : ofBytes id s pageSize data = .ok p) {events : List Event}
    (hs : p.SavedBy events) : ∃ q, (p.run events).before = .ok q ∧ q.Pictures (p.run events) := by
  rcases hs with rfl | ⟨earlier, e, rfl, he⟩
  · obtain ⟨-, -, -, -, hclean, hbytes⟩ := sound_of_ofBytes h
    refine ⟨p, ?_, hclean, rfl, rfl, rfl, fun _ => rfl, fun _ => rfl⟩
    rw [run, List.foldl_nil, (kind_of_ofBytes h).before_eq, hbytes, h]
  · have hlast : p.run (earlier ++ [e]) = (p.run earlier).snapshot := by
      rw [run_append]
      exact next_of_saves he
    rw [hlast]
    exact ((kind_of_ofBytes h).run earlier).before_snapshot

/-- A page that was read from bytes, whatever happens to it then, was saved a last time, and its
before-image is what it was at that time. Nothing that happened since changes the stored bytes. -/
theorem before_is_last_snapshot (h : ofBytes id s pageSize data = .ok p) :
    (∀ events, ∃ saved since, events = saved ++ since ∧ p.SavedBy saved ∧ (p.run saved).Unsaved since) ∧
    ∀ saved since, p.SavedBy saved → (p.run saved).Unsaved since →
      (p.run (saved ++ since)).beforeBytes = (p.run saved).beforeBytes ∧
      ∃ q, (p.run (saved ++ since)).before = .ok q ∧ q.Pictures (p.run saved) := by
  refine ⟨p.exists_saved_since, fun saved since hsaved hsince => ?_⟩
  have hk := kind_of_ofBytes h
  have hbytes : (p.run (saved ++ since)).beforeBytes = (p.run saved).beforeBytes := by
    rw [run_append]
    exact beforeBytes_run hsince
  obtain ⟨q, hq, hpic⟩ := before_of_savedBy h hsaved
  refine ⟨hbytes, q, ?_, hpic⟩
  rw [(hk.run _).before_eq, hbytes, ← (hk.run saved).before_eq, hq]

end

/-! ### A page that is saved once -/

/-- A row and a free slot; the free slot and the bits that stand for no slot hold rubbish. -/
def strewn : Bytes := [0xFD, 0, 0, 0, 7, 1, 2, 3, 4]

def strewnPage : Page :=
  ⟨tinyPage 0, tinySchema, tinyTable.layout, [0xFD], [some (tinyTuple 7 (some ⟨tinyPage 0, 0⟩)), none],
    none, strewn⟩

/-- The free slot is filled and the page is written. -/
def savedEvents : List Event :=
  [.insert (tinyTuple 8 none), .mark true ⟨1⟩, .write tinyTable tinyDisk]

/-- No slot is free for another row; the first one is freed and filled again; then the page is offered to
a table of another file. -/
def laterEvents : List Event :=
  [.insert (tinyTuple 9 none), .delete (tinyTuple 7 (some ⟨tinyPage 0, 0⟩)), .insert (tinyTuple 9 none),
    .mark true ⟨2⟩, .write { tinyTable with file := ⟨"/u", "/u", false⟩ } tinyDisk]

theorem before_is_last_snapshot_strewn :
    ofBytes (tinyPage 0) tinySchema 9 strewn = .ok strewnPage ∧
    strewnPage.SavedBy savedEvents ∧ (strewnPage.run savedEvents).Unsaved laterEvents ∧
    (strewnPage.run (savedEvents ++ laterEvents)).beforeBytes = [0xFF, 0, 0, 0, 7, 0, 0, 0, 8] ∧
    ∃ q, (strewnPage.run (savedEvents ++ laterEvents)).before = .ok q ∧
      q.entry 0 = some ([.int 7], some ⟨tinyPage 0, 0⟩) ∧
      (strewnPage.run (savedEvents ++ laterEvents)).entry 0 = some ([.int 9], some ⟨tinyPage 0, 0⟩) := by
  have hp : ofBytes (tinyPage 0) tinySchema 9 strewn = .ok strewnPage := by rfl
  have hsaved : strewnPage.SavedBy savedEvents := .inr
    ⟨savedEvents.dropLast, .write tinyTable tinyDisk, rfl, by decide +kernel⟩
  have hlater : (strewnPage.run savedEvents).Unsaved laterEvents :=
    ⟨not_false, not_false, not_false, not_false, by decide +kernel, trivial⟩
  obtain ⟨hbytes, q, hq, hpic⟩ := (before_is_last_snapshot hp).2 savedEvents laterEvents hsaved hlater
  refine ⟨hp, hsaved, hlater, ?_, q, hq, ?_, ?_⟩
  · rw [hbytes]
    decide +kernel
  · rw [hpic.entry]
    decide +kernel
  · decide +kernel

end Page

end HeapStore
