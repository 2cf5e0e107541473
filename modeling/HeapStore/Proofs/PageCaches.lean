import HeapStore.Proofs.PageLayout
import HeapStore.Proofs.Session

/-! Scans over any page cache. A scan asks little of the cache it reads through: pages, by request and
release, and the number of pages in the table's file. `PageCache` is just that, and the engine is one
such cache. `Lends` says that a cache never fails on a table; it is enough to tell how every search for
the next tuple ends. -/

namespace HeapStore

/-- What a scan needs of a page cache; `σ` is the state of cache and files together. -/
structure PageCache (σ : Type) where
  disk : σ → Disk
  get : σ → PageId → Access → Except Error Checkout × σ
  page? : σ → Checkout → Option Page
  release : σ → Checkout → σ

namespace PageCache

variable {σ : Type}

/-! ### Scans -/

section

variable (C : PageCache σ)

def seek (t : Table) : (count page : Nat) → σ → Except Error (Option Tuple) × Cursor × σ
  | 0, page, s => (.ok none, ⟨page, none, 0, none⟩, s)
  | count + 1, page, s =>
    match C.get s ⟨t.id, page⟩ .shared with
    | (.error err, s) => (.error err, ⟨page, none, 0, none⟩, s)
    | (.ok g, s) =>
      match (C.page? s g).bind fun p => (p.nextUsedSlot 0).map fun slot => (slot, p.tuple? slot) with
      | some (slot, tuple) => (.ok tuple, ⟨page, some g, slot + 1, none⟩, s)
      | none => seek t count (page + 1) (C.release s g)

def advance (t : Table) (c : Cursor) (s : σ) : Except Error (Option Tuple) × Cursor × σ :=
  match c.held with
  | none => C.seek t (t.pageCount (C.disk s) - c.page) c.page s
  | some g =>
    match (C.page? s g).bind fun p =>
        (p.nextUsedSlot c.nextSlot).map fun slot => (slot, p.tuple? slot) with
    | some (slot, tuple) => (.ok tuple, { c with nextSlot := slot + 1 }, s)
    | none =>
      let s := C.release s g
      C.seek t (t.pageCount (C.disk s) - (c.page + 1)) (c.page + 1) s

def releaseHeld (sc : Scan) (s : σ) : σ :=
  match sc.cursor.bind (·.held) with
  | none => s
  | some g => C.release s g

def hasNext (sc : Scan) (s : σ) : Except Error Bool × Scan × σ :=
  match sc.cursor with
  | none => (.error (.scanState .notOpen), sc, s)
  | some c =>
    if c.peeked.isSome then (.ok true, sc, s)
    else
      match C.advance sc.table c s with
      | (.error err, c, s) => (.error err, { sc with cursor := some c }, s)
      | (.ok t, c, s) => (.ok t.isSome, { sc with cursor := some { c with peeked := t } }, s)

def next (sc : Scan) (s : σ) : Except Error (Option Tuple) × Scan × σ :=
  match sc.cursor with
  | none => (.error (.scanState .notOpen), sc, s)
  | some c =>
    match c.peeked with
    | some t => (.ok (some t), { sc with cursor := some { c with peeked := none } }, s)
    | none =>
      let (r, c, s) := C.advance sc.table c s
      (r, { sc with cursor := some c }, s)

def rewind (sc : Scan) (s : σ) : Except Error Unit × Scan × σ :=
  match sc.cursor with
  | none => (.error (.scanState .notOpen), sc, s)
  | some _ => (.ok (), { sc with cursor := some .start }, C.releaseHeld sc s)

def close (sc : Scan) (s : σ) : Scan × σ := ({ sc with cursor := none }, C.releaseHeld sc s)

def call (sc : Scan) (s : σ) : ScanCall → Except Error Answer × Scan × σ
  | .start => (sc.start.1.map fun _ => .done, sc.start.2, s)
  | .hasNext => ((C.hasNext sc s).1.map .flag, (C.hasNext sc s).2)
  | .next => ((C.next sc s).1.map .tuple, (C.next sc s).2)
  | .rewind => ((C.rewind sc s).1.map fun _ => .done, (C.rewind sc s).2)
  | .close => (.ok .done, C.close sc s)

end

/-! ### The engine -/

/-- The engine as a page cache. -/
def engine : PageCache Engine := ⟨Engine.disk, Engine.getPage, Engine.pageAt?, Engine.release⟩

theorem engine_disk (e : Engine) : engine.disk e = e.disk := rfl

theorem engine_get (e : Engine) (id : PageId) (access : Access) :
    engine.get e id access = e.getPage id access := rfl

theorem engine_page? (e : Engine) (g : Checkout) : engine.page? e g = e.pageAt? g := rfl

theorem engine_release (e : Engine) (g : Checkout) : engine.release e g = e.release g := rfl

theorem engine_seek (t : Table) (count page : Nat) (e : Engine) :
    engine.seek t count page e = Scan.seek t count page e := by
  induction count generalizing page e with
  | zero => rfl
  | succ count ih =>
    rcases hget : e.getPage ⟨t.id, page⟩ .shared with ⟨err | g, e'⟩
    · simp only [seek, Scan.seek, engine_get, hget]
    · cases hslot : (e'.pageAt? g).bind fun p =>
          (p.nextUsedSlot 0).map fun slot => (slot, p.tuple? slot) with
      | none => simp only [seek, Scan.seek, engine_get, engine_page?, engine_release, hget, hslot, ih]
      | some x => simp only [seek, Scan.seek, engine_get, engine_page?, hget, hslot]

theorem engine_advance (t : Table) (c : Cursor) (e : Engine) :
    engine.advance t c e = Scan.advance t c e := by
  cases hheld : c.held with
  | none => simp only [advance, Scan.advance, hheld, engine_seek, engine_disk]
  | some g =>
    cases hslot : (e.pageAt? g).bind fun p =>
        (p.nextUsedSlot c.nextSlot).map fun slot => (slot, p.tuple? slot) with
    | none =>
      simp only [advance, Scan.advance, hheld, engine_page?, engine_release, engine_seek, engine_disk, hslot]
    | some x => simp only [advance, Scan.advance, hheld, engine_page?, hslot]

theorem engine_hasNext (sc : Scan) (e : Engine) : engine.hasNext sc e = sc.hasNext e := by
  cases hc : sc.cursor with
  | none => simp only [hasNext, Scan.hasNext, hc]
  | some c =>
    rcases hadv : Scan.advance sc.table c e with ⟨err | t, c', e'⟩ <;>
      simp only [hasNext, Scan.hasNext, hc, engine_advance, hadv]

theorem engine_next (sc : Scan) (e : Engine) : engine.next sc e = sc.next e := by
  cases hc : sc.cursor with
  | none => simp only [next, Scan.next, hc]
  | some c => cases hp : c.peeked <;> simp only [next, Scan.next, hc, hp, engine_advance]

theorem engine_releaseHeld (sc : Scan) (e : Engine) : engine.releaseHeld sc e = sc.releaseHeld e := by
  cases hg : sc.cursor.bind (·.held) <;> simp only [releaseHeld, Scan.releaseHeld, hg, engine_release]

theorem engine_rewind (sc : Scan) (e : Engine) : engine.rewind sc e = sc.rewind e := by
  cases hc : sc.cursor <;> simp only [rewind, Scan.rewind, hc, engine_releaseHeld]

/-- A scan through the engine is a scan through its cache. -/
theorem engine_call (sc : Scan) (e : Engine) (call : ScanCall) : engine.call sc e call = sc.call e call := by
  cases call with
  | start => rfl
  | hasNext => rw [PageCache.call, Scan.call, engine_hasNext]
  | next => rw [PageCache.call, Scan.call, engine_next]
  | rewind => rw [PageCache.call, Scan.call, engine_rewind]
  | close => rw [PageCache.call, Scan.call, close, Scan.close, engine_releaseHeld]

end PageCache

/-! ### The tuples ahead -/

/-- The tuples from a slot on. -/
def Page.tuplesFrom (p : Page) (start : Nat) : List Tuple := (p.slots.drop start).filterMap fun slot => slot

/-- All tuples of these pages, by page and slot. -/
def tuplesOf (pages : List Page) : List Tuple := pages.flatMap Page.tuples

/-- The tuples of these pages from a slot of the page numbered `page` on. -/
def ahead (pages : List Page) (page start : Nat) : List Tuple :=
  match pages.drop page with
  | [] => []
  | p :: rest => p.tuplesFrom start ++ tuplesOf rest

section

variable {pages : List Page} {p : Page} {n start slot : Nat}

theorem Page.exists_of_nextUsedSlot (h : p.nextUsedSlot start = some slot) :
    ∃ u, p.tuple? slot = some u ∧ p.tuplesFrom start = u :: p.tuplesFrom (slot + 1) := by
  -- the first used slot of a list of slots, counted from its front
  have general (slots : List (Option Tuple)) (k : Nat) (hk : slots.findIdx? Option.isSome = some k) :
      ∃ u, slots[k]? = some (some u) ∧
        (slots.filterMap fun slot => slot) = u :: (slots.drop (k + 1)).filterMap fun slot => slot := by
    induction slots generalizing k with
    | nil => cases hk
    | cons o slots ih =>
      rw [List.findIdx?_cons] at hk
      cases o with
      | some u =>
        cases hk
        exact ⟨u, rfl, by simp⟩
      | none =>
        obtain ⟨k', hk', rfl⟩ := Option.map_eq_some_iff.1 hk
        obtain ⟨u, hu, hrest⟩ := ih k' hk'
        exact ⟨u, by simpa using hu, by simpa using hrest⟩
  unfold nextUsedSlot at h
  obtain ⟨k, hk, rfl⟩ := Option.map_eq_some_iff.1 h
  obtain ⟨u, hu, hrest⟩ := general _ k hk
  refine ⟨u, ?_, ?_⟩
  · rw [List.getElem?_drop] at hu
    rw [tuple?, hu]
    rfl
  · rw [tuplesFrom, hrest, List.drop_drop, tuplesFrom, Nat.add_assoc]

theorem Page.tuplesFrom_of_nextUsedSlot (h : p.nextUsedSlot start = none) : p.tuplesFrom start = [] := by
  unfold nextUsedSlot at h
  rw [Option.map_eq_none_iff, List.findIdx?_eq_none_iff] at h
  rw [tuplesFrom, List.filterMap_eq_nil_iff]
  exact fun o ho => by simpa using h o ho

theorem ahead_of_length_le (h : pages.length ≤ n) (start : Nat) : ahead pages n start = [] := by
  rw [ahead, List.drop_eq_nil_of_le h]

theorem ahead_zero (pages : List Page) (n : Nat) : ahead pages n 0 = tuplesOf (pages.drop n) := by
  unfold ahead
  cases pages.drop n <;> rfl

theorem ahead_of_getElem? (h : pages[n]? = some p) (start : Nat) :
    ahead pages n start = p.tuplesFrom start ++ ahead pages (n + 1) 0 := by
  obtain ⟨hn, rfl⟩ := List.getElem?_eq_some_iff.1 h
  rw [ahead_zero, ahead, List.drop_eq_getElem_cons hn]

end

namespace PageCache

variable {σ : Type}

/-! ### Caches that do not fail -/

/-- On a table of `count` pages the cache never fails. `Ready` holds of a state in which a page may be
asked for, and `Lent` of one in which this checkout of page `n` is out and shows this page. -/
structure Lends (C : PageCache σ) (t : Table) (count : Nat) (Ready : σ → Prop)
    (Lent : σ → Checkout → Nat → Page → Prop) : Prop where
  pageCount : ∀ {s}, Ready s → t.pageCount (C.disk s) = count
  get : ∀ {s n}, Ready s → n < count →
    ∃ g p s', C.get s ⟨t.id, n⟩ .shared = (.ok g, s') ∧ Lent s' g n p
  page : ∀ {s g n p}, Lent s g n p → C.page? s g = some p
  release : ∀ {s g n p}, Lent s g n p → Ready (C.release s g)

/-- Every page that is lent is the one of its number in this list. -/
def Shows (Lent : σ → Checkout → Nat → Page → Prop) (count : Nat) (pages : List Page) : Prop :=
  pages.length = count ∧ ∀ s g n p, Lent s g n p → pages[n]? = some p

/-- Where a scan stands: it has nothing checked out, or the page under its cursor. -/
inductive Stands (count : Nat) (Ready : σ → Prop) (Lent : σ → Checkout → Nat → Page → Prop) :
    Cursor → σ → Prop where
  | idle {page : Nat} {s : σ} : Ready s → Stands count Ready Lent ⟨page, none, 0, none⟩ s
  | on {s : σ} {g : Checkout} {n slot : Nat} {p : Page} {peeked : Option Tuple} : n < count → Lent s g n p →
      Stands count Ready Lent ⟨n, some g, slot, peeked⟩ s

/-- How a search from a slot on ends: behind the last page with nothing checked out, or right behind
the tuple that is found. The tuples that lie ahead are told for every list that the cache shows. -/
inductive Ends (count : Nat) (Ready : σ → Prop) (Lent : σ → Checkout → Nat → Page → Prop) (page start : Nat) :
    Except Error (Option Tuple) × Cursor × σ → Prop where
  | spent {page' : Nat} {s : σ} : Ready s → count ≤ page' →
      (∀ pages, Shows Lent count pages → ahead pages page start = []) →
      Ends count Ready Lent page start (.ok none, ⟨page', none, 0, none⟩, s)
  | found {s : σ} {g : Checkout} {n slot : Nat} {p : Page} {u : Tuple} : n < count → Lent s g n p →
      p.tuple? slot = some u → page < n ∨ page = n ∧ start ≤ slot →
      (∀ pages, Shows Lent count pages → ahead pages page start = u :: ahead pages n (slot + 1)) →
      Ends count Ready Lent page start (.ok (some u), ⟨n, some g, slot + 1, none⟩, s)

section

variable {C : PageCache σ} {t : Table} {count : Nat} {Ready : σ → Prop}
  {Lent : σ → Checkout → Nat → Page → Prop} {s : σ} {c : Cursor} {g : Checkout} {n start slot : Nat}
  {p : Page} {r : Except Error (Option Tuple) × Cursor × σ}

/-- A search over the page that is lent ends there or goes on behind it. -/
theorem Ends.of_lent (hn : n < count) (hl : Lent s g n p) (hp : p.nextUsedSlot start = some slot) :
    Ends count Ready Lent n start (.ok (p.tuple? slot), ⟨n, some g, slot + 1, none⟩, s) := by
  obtain ⟨u, hu, hrest⟩ := Page.exists_of_nextUsedSlot hp
  rw [hu]
  refine .found hn hl hu (.inr ⟨rfl, (Page.nextUsedSlot_eq_some hp).1⟩) fun pages hshow => ?_
  have hpage := hshow.2 s g n p hl
  rw [ahead_of_getElem? hpage, hrest, ahead_of_getElem? hpage, List.cons_append]

theorem Ends.behind (hl : Lent s g n p) (hp : p.nextUsedSlot start = none)
    (h : Ends count Ready Lent (n + 1) 0 r) : Ends count Ready Lent n start r := by
  have hskip (pages : List Page) (hshow : Shows Lent count pages) :
      ahead pages n start = ahead pages (n + 1) 0 := by
    rw [ahead_of_getElem? (hshow.2 s g n p hl), Page.tuplesFrom_of_nextUsedSlot hp, List.nil_append]
  cases h with
  | spent hready hpage hahead => exact .spent hready hpage fun pages hs => (hskip pages hs).trans (hahead pages hs)
  | found hn hl' hu hpast hahead =>
    exact .found hn hl' hu (.inl (by omega)) fun pages hs => (hskip pages hs).trans (hahead pages hs)

namespace Lends

variable (h : Lends C t count Ready Lent)
include h

theorem seek (hs : Ready s) (k n : Nat) (hk : k = count - n) :
    Ends count Ready Lent n 0 (C.seek t k n s) := by
  induction k generalizing n s with
  | zero => exact .spent hs (by omega) fun pages hshow => ahead_of_length_le (by rw [hshow.1]; omega) 0
  | succ k ih =>
    have hn : n < count := by omega
    obtain ⟨g, p, s', hg, hl⟩ := h.get hs hn
    rw [PageCache.seek, hg]
    simp only [h.page hl, Option.bind_some]
    cases hp : p.nextUsedSlot 0 with
    | some slot => exact .of_lent hn hl hp
    | none => exact .behind hl hp (ih (h.release hl) (n + 1) (by omega))

theorem advance_on (hl : Lent s g n p) (start : Nat) :
    C.advance t ⟨n, some g, start, none⟩ s =
      match p.nextUsedSlot start with
      | some slot => (.ok (p.tuple? slot), ⟨n, some g, slot + 1, none⟩, s)
      | none => C.seek t (count - (n + 1)) (n + 1) (C.release s g) := by
  simp only [PageCache.advance, h.page hl, Option.bind_some, h.pageCount (h.release hl)]
  cases p.nextUsedSlot start <;> rfl

/-- A search never fails, and every way it ends the scan stands well. -/
theorem advance (hc : Stands count Ready Lent c s) (hpeek : c.peeked = none) :
    Ends count Ready Lent c.page c.nextSlot (C.advance t c s) := by
  cases hc with
  | idle hs =>
    simp only [PageCache.advance, h.pageCount hs]
    exact h.seek hs _ _ rfl
  | on hn hl =>
    next g n start p peeked =>
    cases hpeek
    rw [h.advance_on hl]
    cases hp : p.nextUsedSlot start with
    | some slot => exact .of_lent hn hl hp
    | none => exact .behind hl hp (h.seek (h.release hl) _ _ rfl)

end Lends

theorem Stands.releaseHeld (hc : Stands count Ready Lent c s) (h : Lends C t count Ready Lent) :
    Ready (C.releaseHeld ⟨t, some c⟩ s) := by
  cases hc with
  | idle hs => exact hs
  | on _ hl => exact h.release hl

/-! ### To the end of a table -/

/-- From here the scan hands out these tuples and then tells that it is at the end. -/
inductive Drains (C : PageCache σ) : Scan → σ → List Tuple → Scan → σ → Prop where
  | done {sc sc' : Scan} {s s' : σ} : C.next sc s = (.ok none, sc', s') → Drains C sc s [] sc' s'
  | more {sc sc' sc'' : Scan} {s s' s'' : σ} {u : Tuple} {us : List Tuple} :
      C.next sc s = (.ok (some u), sc', s') → Drains C sc' s' us sc'' s'' → Drains C sc s (u :: us) sc'' s''

namespace Lends

variable (h : Lends C t count Ready Lent)
include h

/-- On an open scan no call fails that is for an open scan. -/
theorem call_ok (hc : Stands count Ready Lent c s) {call : ScanCall}
    (hcall : call ∈ [.hasNext, .next, .rewind]) : ∃ a c' s',
      C.call ⟨t, some c⟩ s call = (.ok a, ⟨t, some c'⟩, s') ∧ Stands count Ready Lent c' s' := by
  simp only [List.mem_cons, List.not_mem_nil, or_false] at hcall
  rcases hcall with rfl | rfl | rfl
  · simp only [PageCache.call, hasNext]
    cases hpeek : c.peeked with
    | some u => exact ⟨_, _, _, rfl, hc⟩
    | none =>
      have hend := h.advance hc hpeek
      generalize C.advance t c s = r at hend
      cases hend with
      | spent hs => exact ⟨_, _, _, rfl, .idle hs⟩
      | found hn hl => exact ⟨_, _, _, rfl, .on hn hl⟩
  · simp only [PageCache.call, next]
    cases hpeek : c.peeked with
    | some u =>
      cases hc with
      | idle hs => cases hpeek
      | on hn hl => exact ⟨_, _, _, rfl, .on hn hl⟩
    | none =>
      have hend := h.advance hc hpeek
      generalize C.advance t c s = r at hend
      cases hend with
      | spent hs => exact ⟨_, _, _, rfl, .idle hs⟩
      | found hn hl => exact ⟨_, _, _, rfl, .on hn hl⟩
  · exact ⟨_, _, _, rfl, .idle (hc.releaseHeld h)⟩

omit h in
theorem next_eq (hpeek : c.peeked = none) : C.next ⟨t, some c⟩ s =
    ((C.advance t c s).1, ⟨t, some (C.advance t c s).2.1⟩, (C.advance t c s).2.2) := by
  simp only [next, hpeek]

/-- What is left of a page is handed out, and then what lies on the pages behind it. -/
theorem drains_on (hl : Lent s g n p)
    (hbehind : ∀ c s, Stands count Ready Lent c s → c.peeked = none → n < c.page →
      ∃ us c' s', Drains C ⟨t, some c⟩ s us ⟨t, some c'⟩ s' ∧ Stands count Ready Lent c' s') (start : Nat) :
    ∃ us c' s', Drains C ⟨t, some ⟨n, some g, start, none⟩⟩ s us ⟨t, some c'⟩ s' ∧
      Stands count Ready Lent c' s' := by
  induction hk : p.slots.length - start using Nat.strongRecOn generalizing start with
  | ind k ih =>
    have hnext := next_eq (C := C) (t := t) (c := ⟨n, some g, start, none⟩) (s := s) rfl
    rw [h.advance_on hl] at hnext
    cases hp : p.nextUsedSlot start with
    | some slot =>
      obtain ⟨u, hu, -⟩ := Page.exists_of_nextUsedSlot hp
      have hlt : slot < p.slots.length := by
        by_contra hge
        rw [Page.tuple?_eq_none_of_le (Nat.not_lt.1 hge)] at hu
        cases hu
      have hle := (Page.nextUsedSlot_eq_some hp).1
      obtain ⟨us, c', s', hd, hc'⟩ := ih (p.slots.length - (slot + 1)) (by omega) (slot + 1) rfl
      simp only [hp, hu] at hnext
      exact ⟨u :: us, c', s', .more hnext hd, hc'⟩
    | none =>
      have hend := h.seek (h.release hl) (count - (n + 1)) (n + 1) rfl
      simp only [hp] at hnext
      generalize C.seek t (count - (n + 1)) (n + 1) (C.release s g) = r at hend hnext
      cases hend with
      | spent hs => exact ⟨[], _, _, .done hnext, .idle hs⟩
      | found hn' hl' _ hpast =>
        obtain ⟨us, c', s', hd, hc'⟩ := hbehind _ _ (.on hn' hl') rfl (by simp only; omega)
        exact ⟨_, c', s', .more hnext hd, hc'⟩

/-- Every scan comes to the end of its table. -/
theorem drains (hc : Stands count Ready Lent c s) (hpeek : c.peeked = none) :
    ∃ us c' s', Drains C ⟨t, some c⟩ s us ⟨t, some c'⟩ s' ∧ Stands count Ready Lent c' s' := by
  induction hk : count - c.page using Nat.strongRecOn generalizing c s with
  | ind k ih =>
    cases hc with
    | @idle page s hs =>
      have hnext := next_eq (C := C) (t := t) (c := ⟨page, none, 0, none⟩) (s := s) rfl
      have hend := h.advance (.idle hs : Stands count Ready Lent ⟨page, none, 0, none⟩ s) rfl
      generalize C.advance t ⟨page, none, 0, none⟩ s = r at hend hnext
      cases hend with
      | spent hs => exact ⟨[], _, _, .done hnext, .idle hs⟩
      | found _ hl _ hpast =>
        obtain ⟨us, c', s', hd, hc'⟩ := h.drains_on hl
          (fun c s hc hpeek hlt => ih (count - c.page) (by simp only at hk hpast; omega) hc hpeek rfl) _
        exact ⟨_, c', s', .more hnext hd, hc'⟩
    | on _ hl =>
      cases hpeek
      exact h.drains_on hl
        (fun c s hc hpeek hlt => ih (count - c.page) (by simp only at hk; omega) hc hpeek rfl) _

end Lends

end

end PageCache

end HeapStore
