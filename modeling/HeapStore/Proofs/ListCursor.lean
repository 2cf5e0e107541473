import HeapStore.Proofs.PageCaches

/-! A scan is a cursor over the list of a table's tuples. The cache may be any that does not fail and
shows the table's pages, and others may use it between the calls as long as they leave the table alone.
What the scan has checked out is told by a ledger that is kept beside the cache. -/

namespace HeapStore

/-! ### The list cursor -/

structure ListCursor where
  /-- How many tuples lie behind it; absent while it is closed. -/
  position : Option Nat
  /-- It is closed, was opened or rewound last, or has told its end. -/
  rests : Bool
  deriving DecidableEq, Repr

namespace ListCursor

def closed : ListCursor := ⟨none, true⟩

def first : ListCursor := ⟨some 0, true⟩

variable (items : List Tuple)

def call (c : ListCursor) : ScanCall → Except Error Answer × ListCursor
  | .start =>
    match c.position with
    | none => (.ok .done, first)
    | some _ => (.error (.scanState .alreadyOpen), c)
  | .hasNext =>
    match c.position with
    | none => (.error (.scanState .notOpen), c)
    | some k => (.ok (.flag (k < items.length)), ⟨some k, items.length ≤ k⟩)
  | .next =>
    match c.position with
    | none => (.error (.scanState .notOpen), c)
    | some k => (.ok (.tuple items[k]?), ⟨some (min (k + 1) items.length), items.length ≤ k⟩)
  | .rewind =>
    match c.position with
    | none => (.error (.scanState .notOpen), c)
    | some _ => (.ok .done, first)
  | .close => (.ok .done, closed)

/-- The answers to calls one after the other, and where they leave the cursor. -/
def run (c : ListCursor) : List ScanCall → List (Except Error Answer) × ListCursor
  | [] => ([], c)
  | call :: calls =>
    let next := c.call items call
    let rest := next.2.run calls
    (next.1 :: rest.1, rest.2)

end ListCursor

/-! ### Runs of a scan -/

namespace PageCache

/-- A call, and what others did to the cache before it. -/
structure Turn (σ : Type) where
  meanwhile : σ → σ
  call : ScanCall

variable {σ : Type}

/-- The answers to the calls of these turns, and where they leave the scan and the cache. -/
def run (C : PageCache σ) (sc : Scan) (s : σ) : List (Turn σ) → List (Except Error Answer) × Scan × σ
  | [] => ([], sc, s)
  | turn :: turns =>
    let next := C.call sc (turn.meanwhile s) turn.call
    let rest := C.run next.2.1 next.2.2 turns
    (next.1 :: rest.1, rest.2)

/-- The cache lends a table's pages out as they are in this list, and what others do to it is none of
the scan's concern. -/
structure Serves (C : PageCache σ) (t : Table) (pages : List Page) (Ready : σ → Prop)
    (Lent : σ → Checkout → Nat → Page → Prop) (Quiet : (σ → σ) → Prop) : Prop
    extends Lends C t pages.length Ready Lent where
  current : ∀ {s g n p}, Lent s g n p → pages[n]? = some p
  quiet_ready : ∀ {f s}, Quiet f → Ready s → Ready (f s)
  quiet_lent : ∀ {f s g n p}, Quiet f → Lent s g n p → Lent (f s) g n p

/-- Scan and list cursor stand at the same place. -/
inductive Matches (t : Table) (pages : List Page) (Ready : σ → Prop)
    (Lent : σ → Checkout → Nat → Page → Prop) : ListCursor → Scan → σ → Prop where
  | closed {s : σ} : Ready s → Matches t pages Ready Lent .closed ⟨t, none⟩ s
  | opened {k : Nat} {rests : Bool} {c : Cursor} {s : σ} : Stands pages.length Ready Lent c s →
      k ≤ (tuplesOf pages).length →
      (tuplesOf pages).drop k = c.peeked.toList ++ ahead pages c.page c.nextSlot →
      (rests = true → c.held = none) → Matches t pages Ready Lent ⟨some k, rests⟩ ⟨t, some c⟩ s

section

variable {C : PageCache σ} {t : Table} {pages : List Page} {Ready : σ → Prop}
  {Lent : σ → Checkout → Nat → Page → Prop} {Quiet : (σ → σ) → Prop} {s : σ} {f : σ → σ} {c : Cursor}
  {lc : ListCursor} {sc : Scan}

theorem matches_first (hs : Ready s) : Matches t pages Ready Lent .first ⟨t, some .start⟩ s :=
  .opened (.idle hs) (Nat.zero_le _) (ahead_zero pages 0).symm fun _ => rfl

theorem drop_eq_cons {items rest : List Tuple} {k : Nat} {u : Tuple} (h : items.drop k = u :: rest) :
    k < items.length ∧ items[k]? = some u ∧ items.drop (k + 1) = rest := by
  have hk : k < items.length := by
    by_contra hle
    rw [List.drop_eq_nil_of_le (by omega)] at h
    cases h
  rw [List.drop_eq_getElem_cons hk, List.cons.injEq] at h
  exact ⟨hk, by rw [List.getElem?_eq_getElem hk, h.1], h.2⟩

namespace Serves

variable (h : Serves C t pages Ready Lent Quiet)
include h

theorem shows : Shows Lent pages.length pages := ⟨rfl, fun _ _ _ _ hl => h.current hl⟩

theorem quiet (hm : Matches t pages Ready Lent lc sc s) (hf : Quiet f) :
    Matches t pages Ready Lent lc sc (f s) := by
  cases hm with
  | closed hs => exact .closed (h.quiet_ready hf hs)
  | opened hc hk hleft hrests =>
    refine .opened ?_ hk hleft hrests
    cases hc with
    | idle hs => exact .idle (h.quiet_ready hf hs)
    | on hn hl => exact .on hn (h.quiet_lent hf hl)

/-- After a call both give the same answer and stand at the same place again. -/
def Goes (C : PageCache σ) (t : Table) (pages : List Page) (Ready : σ → Prop)
    (Lent : σ → Checkout → Nat → Page → Prop) (lc : ListCursor) (sc : Scan) (s : σ) (call : ScanCall) : Prop :=
  (C.call sc s call).1 = (lc.call (tuplesOf pages) call).1 ∧
    Matches t pages Ready Lent (lc.call (tuplesOf pages) call).2 (C.call sc s call).2.1
      (C.call sc s call).2.2

theorem hasNext (hm : Matches t pages Ready Lent lc sc s) :
    Goes C t pages Ready Lent lc sc s .hasNext := by
  cases hm with
  | closed hs => exact ⟨rfl, .closed hs⟩
  | opened hc hk hleft hrests =>
    next k rests c =>
    simp only [Goes, PageCache.call, ListCursor.call, PageCache.hasNext]
    cases hpeek : c.peeked with
    | some u =>
      obtain ⟨hlt, -⟩ := drop_eq_cons (hleft.trans (by rw [hpeek]; rfl))
      refine ⟨by simp [Except.map, hlt], .opened hc hk hleft fun hend => ?_⟩
      exact absurd (of_decide_eq_true hend) (by omega)
    | none =>
      have hend := h.toLends.advance hc hpeek
      rw [hpeek] at hleft
      generalize C.advance t c s = r at hend
      cases hend with
      | spent hready hpage hahead =>
        have hnil := hleft.trans (hahead pages h.shows)
        have hlen := List.drop_eq_nil_iff.1 hnil
        refine ⟨by simp [Except.map, hlen], .opened (.idle hready) hk ?_ fun _ => rfl⟩
        rw [hnil, ahead_of_length_le hpage]
        rfl
      | found hn hl hu hpast hahead =>
        have hcons := hleft.trans (hahead pages h.shows)
        obtain ⟨hlt, -⟩ := drop_eq_cons hcons
        refine ⟨by simp [Except.map, hlt], .opened (.on hn hl) hk hcons fun hend => ?_⟩
        exact absurd (of_decide_eq_true hend) (by omega)

theorem next (hm : Matches t pages Ready Lent lc sc s) : Goes C t pages Ready Lent lc sc s .next := by
  cases hm with
  | closed hs => exact ⟨rfl, .closed hs⟩
  | opened hc hk hleft hrests =>
    next k rests c =>
    simp only [Goes, PageCache.call, ListCursor.call, PageCache.next]
    cases hpeek : c.peeked with
    | some u =>
      obtain ⟨hlt, hget, hrest⟩ := drop_eq_cons (hleft.trans (by rw [hpeek]; rfl))
      refine ⟨by simp [Except.map, hget], ?_⟩
      rw [Nat.min_eq_left hlt]
      cases hc with
      | idle hs => cases hpeek
      | on hn hl =>
        refine .opened (.on hn hl) hlt hrest fun hend => ?_
        exact absurd (of_decide_eq_true hend) (by omega)
    | none =>
      have hend := h.toLends.advance hc hpeek
      rw [hpeek] at hleft
      generalize C.advance t c s = r at hend
      cases hend with
      | spent hready hpage hahead =>
        have hnil := hleft.trans (hahead pages h.shows)
        have hlen := List.drop_eq_nil_iff.1 hnil
        refine ⟨by simp [Except.map, hlen], .opened (.idle hready) (Nat.min_le_right _ _) ?_ fun _ => rfl⟩
        rw [Nat.min_eq_right (by omega), List.drop_length, ahead_of_length_le hpage]
        rfl
      | found hn hl hu hpast hahead =>
        obtain ⟨hlt, hget, hrest⟩ := drop_eq_cons (hleft.trans (hahead pages h.shows))
        refine ⟨by simp [Except.map, hget], ?_⟩
        rw [Nat.min_eq_left hlt]
        refine .opened (.on hn hl) hlt hrest fun hend => ?_
        exact absurd (of_decide_eq_true hend) (by omega)

theorem call (hm : Matches t pages Ready Lent lc sc s) (call : ScanCall) :
    Goes C t pages Ready Lent lc sc s call := by
  cases call with
  | hasNext => exact h.hasNext hm
  | next => exact h.next hm
  | start =>
    cases hm with
    | closed hs => exact ⟨rfl, matches_first hs⟩
    | opened hc hk hleft hrests => exact ⟨rfl, .opened hc hk hleft hrests⟩
  | rewind =>
    cases hm with
    | closed hs => exact ⟨rfl, .closed hs⟩
    | opened hc hk hleft hrests => exact ⟨rfl, matches_first (hc.releaseHeld h.toLends)⟩
  | close =>
    cases hm with
    | closed hs => exact ⟨rfl, .closed hs⟩
    | opened hc hk hleft hrests => exact ⟨rfl, .closed (hc.releaseHeld h.toLends)⟩

theorem run (hm : Matches t pages Ready Lent lc sc s) (turns : List (Turn σ))
    (hq : ∀ turn ∈ turns, Quiet turn.meanwhile) :
    (C.run sc s turns).1 = (lc.run (tuplesOf pages) (turns.map (·.call))).1 ∧
      Matches t pages Ready Lent (lc.run (tuplesOf pages) (turns.map (·.call))).2
        (C.run sc s turns).2.1 (C.run sc s turns).2.2 := by
  induction turns generalizing lc sc s with
  | nil => exact ⟨rfl, hm⟩
  | cons turn turns ih =>
    obtain ⟨hanswer, hnext⟩ := h.call (h.quiet hm (hq turn List.mem_cons_self)) turn.call
    obtain ⟨hanswers, hlast⟩ := ih hnext fun turn' ht => hq turn' (List.mem_cons_of_mem _ ht)
    exact ⟨congrArg₂ List.cons hanswer hanswers, hlast⟩

end Serves

end

/-! ### The ledger -/

/-- What the scan asked for and has checked out. -/
structure Ledger where
  out : List Checkout
  /-- The most checkouts that were out at once. -/
  peak : Nat
  asked : List Access
  deriving DecidableEq, Repr

namespace Ledger

def new : Ledger := ⟨[], 0, []⟩

def get (l : Ledger) (access : Access) : Except Error Checkout → Ledger
  | .error _ => { l with asked := access :: l.asked }
  | .ok g => ⟨g :: l.out, max l.peak (l.out.length + 1), access :: l.asked⟩

def release (l : Ledger) (g : Checkout) : Ledger := { l with out := l.out.erase g }

/-- At most one page was out at a time, and none was asked for but to read it. -/
def Frugal (l : Ledger) : Prop := l.peak ≤ 1 ∧ ∀ access ∈ l.asked, access = .shared

theorem frugal_new : new.Frugal := ⟨Nat.zero_le 1, fun _ ha => absurd ha List.not_mem_nil⟩

theorem Frugal.get {l : Ledger} (h : l.Frugal) (hout : l.out = []) (g : Checkout) :
    (l.get .shared (.ok g)).Frugal := by
  refine ⟨Nat.max_le.2 ⟨h.1, by rw [hout]; exact Nat.le_refl 1⟩, fun access ha => ?_⟩
  rcases List.mem_cons.1 ha with rfl | ha
  · rfl
  · exact h.2 access ha

end Ledger

/-- The cache with a ledger beside it. -/
def recorded (C : PageCache σ) : PageCache (σ × Ledger) where
  disk s := C.disk s.1
  get s id access := ((C.get s.1 id access).1, (C.get s.1 id access).2, s.2.get access (C.get s.1 id access).1)
  page? s g := C.page? s.1 g
  release s g := (C.release s.1 g, s.2.release g)

/-- What others do to the cache is not in the ledger. -/
def Turn.unrecorded (turn : Turn σ) : Turn (σ × Ledger) := ⟨fun s => (turn.meanwhile s.1, s.2), turn.call⟩

section

variable {C : PageCache σ} {t : Table} {pages : List Page} {Ready : σ → Prop}
  {Lent : σ → Checkout → Nat → Page → Prop} {Quiet : (σ → σ) → Prop}

theorem Serves.recorded (h : Serves C t pages Ready Lent Quiet) :
    Serves C.recorded t pages (fun s => Ready s.1 ∧ s.2.out = [] ∧ s.2.Frugal)
      (fun s g n p => Lent s.1 g n p ∧ s.2.out = [g] ∧ s.2.Frugal)
      (fun f => ∃ f', Quiet f' ∧ f = fun s => (f' s.1, s.2)) where
  pageCount hs := h.pageCount hs.1
  get := by
    rintro s n ⟨hs, hout, hfrugal⟩ hn
    obtain ⟨g, p, s', hg, hl⟩ := h.get hs hn
    refine ⟨g, p, (s', s.2.get .shared (.ok g)), ?_, hl, ?_, hfrugal.get hout g⟩
    · simp only [PageCache.recorded, hg]
    · rw [Ledger.get, hout]
  page hl := h.page hl.1
  release := by
    rintro s g n p ⟨hl, hout, hfrugal⟩
    exact ⟨h.release hl, by simp [PageCache.recorded, Ledger.release, hout], hfrugal⟩
  current hl := h.current hl.1
  quiet_ready := by
    rintro f s ⟨f', hf, rfl⟩ ⟨hs, hrest⟩
    exact ⟨h.quiet_ready hf hs, hrest⟩
  quiet_lent := by
    rintro f s g n p ⟨f', hf, rfl⟩ ⟨hl, hrest⟩
    exact ⟨h.quiet_lent hf hl, hrest⟩

/-- What the ledger shows of a scan that stands where the list cursor does. -/
structure Ledger.Tells (l : Ledger) (sc : Scan) (lc : ListCursor) : Prop where
  frugal : l.Frugal
  out : l.out = sc.checkouts
  resting : lc.rests = true → l.out = []
  isOpen : sc.isOpen = lc.position.isSome

theorem Matches.tells {lc : ListCursor} {sc : Scan} {s : σ × Ledger}
    (h : Matches t pages (fun s => Ready s.1 ∧ s.2.out = [] ∧ s.2.Frugal)
      (fun s g n p => Lent s.1 g n p ∧ s.2.out = [g] ∧ s.2.Frugal) lc sc s) : s.2.Tells sc lc := by
  cases h with
  | closed hs => exact ⟨hs.2.2, hs.2.1, fun _ => hs.2.1, rfl⟩
  | opened hc hk hleft hrests =>
    cases hc with
    | idle hs => exact ⟨hs.2.2, hs.2.1, fun _ => hs.2.1, rfl⟩
    | on hn hl =>
      refine ⟨hl.2.2, hl.2.1, fun hr => ?_, rfl⟩
      cases hrests hr

/-- Through a cache that does not fail and shows the table's pages, a scan answers as a cursor over
the list of their tuples, whatever the calls. It has at most one page checked out at any time, for
reading, and none when it is closed, was opened or rewound last, or has told its end; while it is
closed it leaves the cache alone. The engine is a cache, and its scans are scans through it. -/
theorem scan_is_list_cursor (h : Serves C t pages Ready Lent Quiet) {s : σ} (hs : Ready s)
    (turns : List (Turn σ)) (hq : ∀ turn ∈ turns, Quiet turn.meanwhile) :
    (C.run (.ofTable t) s turns).1 =
        (ListCursor.closed.run (tuplesOf pages) (turns.map (·.call))).1 ∧
      (C.recorded.run (.ofTable t) (s, .new) (turns.map Turn.unrecorded)).1 =
        (C.run (.ofTable t) s turns).1 ∧
      (C.recorded.run (.ofTable t) (s, .new) (turns.map Turn.unrecorded)).2.2.2.Tells
        (C.recorded.run (.ofTable t) (s, .new) (turns.map Turn.unrecorded)).2.1
        (ListCursor.closed.run (tuplesOf pages) (turns.map (·.call))).2 ∧
      (∀ s call, (C.call (.ofTable t) s call).2.2 = s) ∧
      ∀ sc e call, engine.call sc e call = sc.call e call := by
  obtain ⟨hanswers, -⟩ := h.run (.closed hs) turns hq
  have hunrecorded : ∀ turn ∈ turns.map Turn.unrecorded,
      ∃ f', Quiet f' ∧ turn.meanwhile = fun s => (f' s.1, s.2) := by
    intro turn ht
    obtain ⟨turn', hmem, rfl⟩ := List.mem_map.1 ht
    exact ⟨turn'.meanwhile, hq turn' hmem, rfl⟩
  obtain ⟨hrecorded, hlast⟩ := h.recorded.run (s := (s, .new))
    (.closed ⟨hs, rfl, Ledger.frugal_new⟩) (turns.map Turn.unrecorded) hunrecorded
  have hcalls : (turns.map Turn.unrecorded).map (·.call) = turns.map (·.call) := by
    rw [List.map_map]
    rfl
  rw [hcalls] at hrecorded hlast
  have hclosed : ∀ s call, (C.call (.ofTable t) s call).2.2 = s := by
    intro s call
    cases call <;> rfl
  exact ⟨hanswers, hrecorded.trans hanswers.symm, hlast.tells, hclosed, engine_call⟩

end

/-! ### A scan of two pages -/

/-- Both pages of the tiny table are resident and still to be written back; the first slot is free. -/
@[irreducible]
def tinyShelf : Engine := ((Session.start tinyDisk 2 [tinyTable]).after
  [.insert tinyTable.id ⟨1⟩ (tinyTuple 7 none), .insert tinyTable.id ⟨1⟩ (tinyTuple 8 none),
    .insert tinyTable.id ⟨1⟩ (tinyTuple 9 none), .delete ⟨1⟩ (tinyTuple 7 (some ⟨tinyPage 0, 0⟩))]).engine

def tinyShelfPages : List Page := (List.range 2).filterMap fun n => tinyShelf.pool.page? (tinyPage n)

/-- Someone else looks at the second page. -/
def glance (e : Engine) : Engine :=
  match e.getPage (tinyPage 1) .shared with
  | (.ok g, e) => e.release g
  | (.error _, e) => e

def tinyLent (e : Engine) (g : Checkout) (n : Nat) (p : Page) : Prop :=
  n < 2 ∧ g = ⟨n, .shared⟩ ∧ e = (tinyShelf.getPage (tinyPage n) .shared).2 ∧ tinyShelfPages[n]? = some p

def tinyTurn (call : ScanCall) : Turn Engine := ⟨glance, call⟩

theorem getPage_tinyShelf {n : Nat} (hn : n < 2) :
    tinyShelf.getPage (tinyPage n) .shared = (.ok ⟨n, .shared⟩, (tinyShelf.getPage (tinyPage n) .shared).2) := by
  have each : ∀ n < 2, (tinyShelf.getPage (tinyPage n) .shared).1.toOption = some ⟨n, .shared⟩ := by
    decide +kernel
  exact Prod.ext (eq_ok_of_toOption (each n hn)) rfl

theorem serves_tinyShelf :
    Serves engine tinyTable tinyShelfPages (· = tinyShelf) tinyLent (· = glance) where
  pageCount {s} hs := by
    rw [show s = tinyShelf from hs]
    decide +kernel
  get {s n} hs hn := by
    have hlen : tinyShelfPages.length = 2 := by decide +kernel
    rw [show s = tinyShelf from hs]
    exact ⟨_, tinyShelfPages[n], _, getPage_tinyShelf (hlen ▸ hn), hlen ▸ hn, rfl, rfl,
      List.getElem?_eq_getElem hn⟩
  page {s g n p} hl := by
    have each : ∀ n < 2, engine.page? (tinyShelf.getPage (tinyPage n) .shared).2 ⟨n, .shared⟩ =
        tinyShelfPages[n]? := by decide +kernel
    obtain ⟨hn, hg, hs, hp⟩ := hl
    rw [hg, hs, each n hn, hp]
  release {s g n p} hl := by
    have each : ∀ n < 2, engine.release (tinyShelf.getPage (tinyPage n) .shared).2 ⟨n, .shared⟩ =
        tinyShelf := by decide +kernel
    obtain ⟨hn, hg, hs, -⟩ := hl
    rw [hg, hs, each n hn]
  current hl := hl.2.2.2
  quiet_ready {f s} hf hs := by
    have hglance : glance tinyShelf = tinyShelf := by decide +kernel
    rw [show f = glance from hf, show s = tinyShelf from hs, hglance]
  quiet_lent {f s g n p} hf hl := by
    have each : ∀ n < 2, glance (tinyShelf.getPage (tinyPage n) .shared).2 =
        (tinyShelf.getPage (tinyPage n) .shared).2 := by decide +kernel
    obtain ⟨hn, hg, hs, hp⟩ := hl
    rw [show f = glance from hf]
    exact ⟨hn, hg, by rw [hs, each n hn], hp⟩

def tinyCalls : List ScanCall :=
  [.next, .start, .start, .hasNext, .hasNext, .next, .next, .next, .next, .rewind, .hasNext, .rewind, .next,
    .close, .close]

theorem scan_is_list_cursor_tiny :
    (engine.run (.ofTable tinyTable) tinyShelf (tinyCalls.map tinyTurn)).1 =
        [.error (.scanState .notOpen), .ok .done, .error (.scanState .alreadyOpen), .ok (.flag true),
          .ok (.flag true), .ok (.tuple (some (tinyTuple 8 (some ⟨tinyPage 0, 1⟩)))),
          .ok (.tuple (some (tinyTuple 9 (some ⟨tinyPage 1, 0⟩)))), .ok (.tuple none), .ok (.tuple none),
          .ok .done, .ok (.flag true), .ok .done,
          .ok (.tuple (some (tinyTuple 8 (some ⟨tinyPage 0, 1⟩)))), .ok .done, .ok .done] ∧
      (engine.recorded.run (.ofTable tinyTable) (tinyShelf, .new)
        ((tinyCalls.map tinyTurn).map Turn.unrecorded)).2.2.2.peak ≤ 1 ∧
      (engine.recorded.run (.ofTable tinyTable) (tinyShelf, .new)
        ((tinyCalls.map tinyTurn).map Turn.unrecorded)).2.2.2.out = [] := by
  have hquiet : ∀ turn ∈ tinyCalls.map tinyTurn, turn.meanwhile = glance := by
    intro turn ht
    obtain ⟨call, -, rfl⟩ := List.mem_map.1 ht
    rfl
  obtain ⟨hanswers, -, htells, -⟩ := scan_is_list_cursor serves_tinyShelf rfl (tinyCalls.map tinyTurn) hquiet
  refine ⟨?_, htells.frugal.1, htells.resting (by decide +kernel)⟩
  rw [hanswers]
  decide +kernel

end PageCache

end HeapStore
