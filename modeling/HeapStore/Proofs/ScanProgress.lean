import HeapStore.Engine.Scan
import HeapStore.Proofs.TupleUpdates

/-! How a scan moves. A cursor stands at a place, by page and slot, and only moves on; between its old
place and its new one there is no tuple but the one that is answered. A search that fails leaves the
cursor where it can be taken up again. -/

namespace HeapStore

open Pool (Compatible)
open Engine (Unchanged rel_refl)

namespace Cursor

/-- Has the cursor left this slot behind? -/
def Past (c : Cursor) (n slot : Nat) : Prop := n < c.page ∨ n = c.page ∧ slot < c.nextSlot

/-- The page under the cursor is checked out for reading. -/
def Reads (c : Cursor) : Prop := ∀ g, c.held = some g → g.access = .shared

/-- The cursor stands right behind this tuple, on the page that it holds. -/
def Behind (e : Engine) (c : Cursor) (u : Tuple) : Prop :=
  ∃ g p, c.held = some g ∧ e.pool.copies.page? g.copy = some p ∧ 0 < c.nextSlot ∧
    p.tuple? (c.nextSlot - 1) = some u

/-- The checkout is of the page under the cursor, and a tuple that was fetched is the last one
passed. -/
structure Fits (e : Engine) (t : Table) (c : Cursor) : Prop where
  start : c.held = none → c.nextSlot = 0 ∧ c.peeked = none
  held : ∀ g, c.held = some g → e.pool.copyOf? ⟨t.id, c.page⟩ = some g.copy
  peeked : ∀ u, c.peeked = some u → c.Behind e u

/-- Where a search for the next tuple ends. -/
structure Landed (e : Engine) (t : Table) (r : Except Error (Option Tuple)) (c : Cursor) : Prop where
  fits : c.Fits e t
  unpeeked : c.peeked = none
  found : ∀ u, r = .ok (some u) → c.Behind e u

/-- What lies between two places of a cursor: the tuple that was found and nothing else. -/
structure Passed (e : Engine) (t : Table) (c : Cursor) (r : Except Error (Option Tuple)) (c' : Cursor) :
    Prop where
  onward : ∀ n slot, c.Past n slot → c'.Past n slot
  fresh : ∀ u, r = .ok (some u) → ¬ c.Past c'.page (c'.nextSlot - 1)
  only : ∀ n slot, ¬ c.Past n slot → c'.Past n slot → (e.rows ⟨⟨t.id, n⟩, slot⟩).isSome = true →
    (∃ u, r = .ok (some u)) ∧ n = c'.page ∧ slot + 1 = c'.nextSlot
  finished : r = .ok none → t.pageCount e.disk ≤ c'.page

variable {e e' : Engine} {held : List Checkout} {loose : Nat → Prop} {t : Table} {c c' : Cursor}
  {u : Tuple} {r : Except Error (Option Tuple)} {n slot : Nat}

theorem past_start (page : Nat) : Past ⟨page, none, 0, none⟩ n slot ↔ n < page := by
  simp [Past]

theorem reads_idle (page : Nat) : Reads ⟨page, none, 0, none⟩ := by
  rintro g ⟨⟩

/-- A cursor that holds nothing fits every engine. -/
theorem fits_idle (e : Engine) (t : Table) (page : Nat) : Fits e t ⟨page, none, 0, none⟩ := by
  refine ⟨fun _ => ⟨rfl, rfl⟩, ?_, ?_⟩
  · rintro g ⟨⟩
  · rintro u ⟨⟩

theorem landed_idle (e : Engine) (t : Table) (page : Nat) (hr : ∀ u, r ≠ .ok (some u)) :
    Landed e t r ⟨page, none, 0, none⟩ := ⟨fits_idle e t page, rfl, fun u hu => absurd hu (hr u)⟩

/-- What a cursor knows of the pool stays true as long as its checkout is out. -/
theorem Behind.of_follows (h : c.Behind e u) (hf : Engine.Follows c.held.toList e e') :
    c.Behind e' u := by
  obtain ⟨g, p, hg, hp, hslot, hu⟩ := h
  exact ⟨g, p, hg, by rw [hf.same g (by simp [hg]), hp], hslot, hu⟩

theorem Fits.of_follows (h : c.Fits e t) (hf : Engine.Follows c.held.toList e e') : c.Fits e' t where
  start := h.start
  held g hg := hf.kept g (by simp [hg]) _ (h.held g hg)
  peeked u hu := (h.peeked u hu).of_follows hf

/-- The tuple right before the cursor is in its table, under its own record id. -/
theorem Behind.row (h : c.Behind e u) (hc : e.Coherent held loose) (hf : c.Fits e t) :
    u.rid = some ⟨⟨t.id, c.page⟩, c.nextSlot - 1⟩ ∧
      e.rows ⟨⟨t.id, c.page⟩, c.nextSlot - 1⟩ = some u.values := by
  obtain ⟨g, p, hg, hp, hslot, hu⟩ := h
  have hl := Engine.logical_of_page? (hf.held g hg) hp
  obtain ⟨hsound, hid⟩ := hc.logical_sound hl
  refine ⟨by rw [hsound.placed _ u hu, hid], ?_⟩
  rw [Engine.rows, hl, Option.bind_some, Page.row, hu]
  rfl

end Cursor

namespace Scan

open Cursor

variable {e e' : Engine} {held : List Checkout} {loose : Nat → Prop} {t : Table} {c c' : Cursor}

/-- A search on the page under a checkout. -/
theorem findOn_eq {g : Checkout} {p : Page} (hp : e.pool.copies.page? g.copy = some p) (start : Nat) :
    ((e.pageAt? g).bind fun p =>
        (p.nextUsedSlot start).map fun slot => (slot, p.tuple? slot)) =
      (p.nextUsedSlot start).map fun slot => (slot, p.tuple? slot) := by
  have : e.pageAt? g = some p := hp
  rw [this, Option.bind_some]

/-- What comes of a search from the start of a page over at most `count` pages. -/
structure Sought (held : List Checkout) (loose : Nat → Prop) (t : Table) (count page : Nat)
    (e : Engine) (r : Except Error (Option Tuple)) (c : Cursor) (e' : Engine) : Prop where
  disk : e'.disk = e.disk
  coherent : e'.Coherent (c.held.toList ++ held) loose
  unchanged : Unchanged held e e'
  reads : c.Reads
  landed : Landed e' t r c
  onward : page ≤ c.page
  finished : r = .ok none → c.page = page + count
  only : ∀ n slot, page ≤ n → c.Past n slot → (e.rows ⟨⟨t.id, n⟩, slot⟩).isSome = true →
    (∃ u, r = .ok (some u)) ∧ n = c.page ∧ slot + 1 = c.nextSlot

section Search

variable {e0 : Engine} {r : Except Error (Option Tuple)} {count page n start slot : Nat}
  {id : PageId} {p : Page} {g : Checkout} {u : Tuple}

/-- Up to the next used slot there is a tuple in that slot only. -/
theorem eq_next_of_row (hl : e.logical id = some p) (hnext : p.nextUsedSlot start = some slot)
    (hge : start ≤ n) (hle : n < slot + 1) (hrow : (e.rows ⟨id, n⟩).isSome = true) : n = slot := by
  obtain ⟨-, -, hbefore⟩ := Page.nextUsedSlot_eq_some hnext
  apply Decidable.byContradiction
  intro hne
  rw [Engine.rows, hl, Option.bind_some, Page.isSome_row, hbefore n hge (by omega)] at hrow
  cases hrow

theorem not_row_of_no_next (hl : e.logical id = some p) (hnext : p.nextUsedSlot start = none)
    (hge : start ≤ n) : ¬ (e.rows ⟨id, n⟩).isSome = true := by
  rw [Engine.rows, hl, Option.bind_some, Page.isSome_row, Page.nextUsedSlot_eq_none hnext hge]
  exact Bool.false_ne_true

/-- The cursor stands behind the tuple that was found, on its page. -/
theorem landed_on (hc : e.pool.copyOf? ⟨t.id, page⟩ = some g.copy)
    (hp : e.pool.copies.page? g.copy = some p) (hu : p.tuple? slot = some u) :
    Landed e t (.ok (some u)) ⟨page, some g, slot + 1, none⟩ := by
  refine ⟨⟨?_, ?_, ?_⟩, rfl, ?_⟩
  · rintro ⟨⟩
  · rintro g' ⟨⟩
    exact hc
  · rintro v ⟨⟩
  · rintro v ⟨⟩
    exact ⟨g, p, rfl, hp, Nat.succ_pos _, hu⟩

/-- A cursor that holds nothing has passed nothing on its page. -/
theorem Sought.stopped (hd : e'.disk = e.disk) (hcoh : e'.Coherent held loose)
    (hun : Unchanged held e e') (hr : ∀ u, r ≠ .ok (some u)) (hfin : r = .ok none → count = 0) :
    Sought held loose t count page e r ⟨page, none, 0, none⟩ e' where
  disk := hd
  coherent := hcoh
  unchanged := hun
  reads := reads_idle page
  landed := landed_idle e' t page hr
  onward := Nat.le_refl _
  finished h := by rw [hfin h, Nat.add_zero]
  only n slot hn hpast _ := by
    rw [past_start] at hpast
    omega

theorem Sought.after (h : Sought held loose t count page e r c e') (hd : e.disk = e0.disk)
    (hun : Unchanged held e0 e) : Sought held loose t count page e0 r c e' where
  disk := h.disk.trans hd
  coherent := h.coherent
  unchanged := hun.trans h.unchanged
  reads := h.reads
  landed := h.landed
  onward := h.onward
  finished := h.finished
  only n slot hn hpast hrow := h.only n slot hn hpast (by rw [hun.rows_eq]; exact hrow)

/-- The search may begin a page earlier if that page is empty. -/
theorem Sought.earlier (h : Sought held loose t count (page + 1) e r c e')
    (hempty : ∀ slot, ¬ (e.rows ⟨⟨t.id, page⟩, slot⟩).isSome = true) :
    Sought held loose t (count + 1) page e r c e' where
  disk := h.disk
  coherent := h.coherent
  unchanged := h.unchanged
  reads := h.reads
  landed := h.landed
  onward := Nat.le_of_succ_le h.onward
  finished hr := by rw [h.finished hr, Nat.add_assoc, Nat.add_comm 1]
  only n slot hn hpast hrow := by
    refine h.only n slot (Nat.lt_of_le_of_ne hn ?_) hpast hrow
    rintro rfl
    exact hempty slot hrow

/-- A search over the rest of the file passes what the cursor had not, if nothing is there on the
pages before it. -/
theorem Sought.passed (h : Sought held loose t (t.pageCount e.disk - page) page e r c' e')
    (hpast : ∀ n slot, c.Past n slot → n < page)
    (hnone : ∀ n slot, ¬ c.Past n slot → n < page → ¬ (e.rows ⟨⟨t.id, n⟩, slot⟩).isSome = true) :
    Passed e t c r c' where
  onward n slot hn := .inl (Nat.lt_of_lt_of_le (hpast n slot hn) h.onward)
  fresh _ _ hn := Nat.not_lt.2 h.onward (hpast _ _ hn)
  only n slot hn hn' hrow := by
    refine h.only n slot (Nat.le_of_not_lt fun hlt => ?_) hn' hrow
    exact hnone n slot hn hlt hrow
  finished hr := by
    rw [h.finished hr]
    omega

end Search

theorem seek_sought (h : e.Coherent held loose) (t : Table) (count page : Nat) :
    ∃ r c e', seek t count page e = (r, c, e') ∧ Sought held loose t count page e r c e' := by
  induction count generalizing page e with
  | zero => exact ⟨_, _, _, rfl, .stopped rfl h (.refl held e) (by simp) fun _ => rfl⟩
  | succ count ih =>
    unfold seek
    rcases h.getPage_or_fail ⟨t.id, page⟩ .shared with ⟨err, e1, hget, hd, hun, hcoh⟩ |
      ⟨c, p, e1, hget, hd, hun, hcoh, hloose, hc, hp⟩
    · rw [hget]
      exact ⟨_, _, _, rfl, .stopped hd hcoh hun (by simp) (by rintro ⟨⟩)⟩
    · rw [hget]
      have hl := Engine.logical_of_page? hc hp
      simp only [findOn_eq (g := ⟨c, .shared⟩) hp]
      cases hnext : p.nextUsedSlot 0 with
      | some slot =>
        obtain ⟨-, hsome, -⟩ := Page.nextUsedSlot_eq_some hnext
        obtain ⟨u, hu⟩ := Option.isSome_iff_exists.1 hsome
        simp only [Option.map_some, hu]
        refine ⟨_, _, _, rfl, hd, hcoh, hun, ?_, landed_on hc hp hu, Nat.le_refl _, by rintro ⟨⟩, ?_⟩
        · rintro g ⟨⟩
          rfl
        · rintro n s hn (hlt | ⟨rfl, hs⟩) hrow
          · exact absurd hlt (Nat.not_lt.2 hn)
          · rw [← hun.rows_eq] at hrow
            rw [eq_next_of_row hl hnext (Nat.zero_le _) hs hrow]
            exact ⟨⟨u, rfl⟩, rfl, rfl⟩
      | none =>
        -- the page that is passed is empty
        obtain ⟨hrel, hun'⟩ := hcoh.release fun _ => hloose
        obtain ⟨r, c', e', heq, hsought⟩ := ih hrel (page + 1)
        refine ⟨r, c', e', heq, (hsought.after hd (hun.trans hun')).earlier fun slot => ?_⟩
        rw [← hun.rows_eq]
        exact not_row_of_no_next hl hnext (Nat.zero_le _)

theorem advance_cases (h : e.Coherent (c.held.toList ++ held) loose) (hr : c.Reads)
    (hpeek : c.peeked = none) (t : Table) :
    ∃ r c' e', advance t c e = (r, c', e') ∧ e'.disk = e.disk ∧
      e'.Coherent (c'.held.toList ++ held) loose ∧ Unchanged held e e' ∧ c'.Reads ∧
      (c.Fits e t → Landed e' t r c' ∧ Passed e t c r c') := by
  obtain ⟨page, cheld, start, peeked⟩ := c
  obtain rfl : peeked = none := hpeek
  unfold advance
  cases cheld with
  | none =>
    obtain ⟨r, c', e', heq, hs⟩ := seek_sought h t (t.pageCount e.disk - page) page
    refine ⟨r, c', e', heq, hs.disk, hs.coherent, hs.unchanged, hs.reads, fun hfits =>
      ⟨hs.landed, ?_⟩⟩
    obtain ⟨rfl, -⟩ := hfits.start rfl
    apply hs.passed
    · intro n slot hn
      exact (past_start page).1 hn
    · intro n slot hn hlt
      exact absurd ((past_start page).2 hlt) hn
  | some g =>
    obtain ⟨k, hk⟩ := h.pool.exists_copy (.inr ⟨g, List.mem_cons_self, rfl⟩)
    have hp : e.pool.copies.page? g.copy = some k.page := Copies.page?_of_get? hk
    simp only [findOn_eq hp]
    cases hnext : k.page.nextUsedSlot start with
    | some slot =>
      obtain ⟨hle, hsome, -⟩ := Page.nextUsedSlot_eq_some hnext
      obtain ⟨u, hu⟩ := Option.isSome_iff_exists.1 hsome
      simp only [Option.map_some, hu]
      refine ⟨_, _, _, rfl, rfl, h, .refl held e, hr, fun hfits => ?_⟩
      have hc := hfits.held g rfl
      refine ⟨landed_on hc hp hu, ?_, ?_, ?_, by rintro ⟨⟩⟩
      · rintro n s (hlt | ⟨rfl, hs⟩)
        · exact .inl hlt
        · exact .inr ⟨rfl, Nat.lt_succ_of_lt (Nat.lt_of_lt_of_le hs hle)⟩
      · rintro v - (hlt | ⟨-, hs⟩)
        · exact Nat.lt_irrefl _ hlt
        · exact absurd hs (Nat.not_lt.2 hle)
      · rintro n s hn (hlt | ⟨rfl, hs⟩) hrow
        · exact absurd (.inl hlt) hn
        · have hge : start ≤ s := Nat.le_of_not_lt fun hlt => hn (.inr ⟨rfl, hlt⟩)
          rw [eq_next_of_row (Engine.logical_of_page? hc hp) hnext hge hs hrow]
          exact ⟨⟨u, rfl⟩, rfl, rfl⟩
    | none =>
      -- nothing is left on the page that was held
      obtain ⟨hrel, hun⟩ := h.release fun hx => by rw [hr g rfl] at hx; cases hx
      obtain ⟨r, c', e', heq, hs⟩ :=
        seek_sought hrel t (t.pageCount (e.release g).disk - (page + 1)) (page + 1)
      have hs : Sought held loose t (t.pageCount e.disk - (page + 1)) (page + 1) e r c' e' :=
        hs.after rfl hun
      refine ⟨r, c', e', heq, hs.disk, hs.coherent, hs.unchanged, hs.reads, fun hfits =>
        ⟨hs.landed, ?_⟩⟩
      have hl := Engine.logical_of_page? (hfits.held g rfl) hp
      apply hs.passed
      · rintro n slot (hlt | ⟨rfl, -⟩)
        · exact Nat.lt_succ_of_lt hlt
        · exact Nat.lt_succ_self _
      · intro n slot hn hlt
        obtain rfl : n = page :=
          Nat.le_antisymm (Nat.le_of_lt_succ hlt) (Nat.le_of_not_lt fun hlt => hn (.inl hlt))
        exact not_row_of_no_next hl hnext (Nat.le_of_not_lt fun hlt => hn (.inr ⟨rfl, hlt⟩))

/-! ### The calls on a scan -/

/-- The checkout that a scan has out, if any. -/
def checkouts (s : Scan) : List Checkout := (s.cursor.bind (·.held)).toList

def Reads (s : Scan) : Prop := ∀ c, s.cursor = some c → c.Reads

def Fits (e : Engine) (s : Scan) : Prop := ∀ c, s.cursor = some c → c.Fits e s.table

/-- What every call on a scan keeps: no logical page changes, and the scan has at most its own page
checked out. -/
structure Moved (held : List Checkout) (loose : Nat → Prop) (s : Scan) (e : Engine) (s' : Scan)
    (e' : Engine) : Prop where
  disk : e'.disk = e.disk
  coherent : e'.Coherent (s'.checkouts ++ held) loose
  unchanged : Unchanged held e e'
  reads : s'.Reads
  table : s'.table = s.table
  fits : s.Fits e → s'.Fits e'

variable {s s' : Scan}

theorem reads_open {t : Table} {c : Cursor} : Reads ⟨t, some c⟩ ↔ c.Reads := by
  simp [Reads]

theorem fits_open {t : Table} {c : Cursor} : Fits e ⟨t, some c⟩ ↔ c.Fits e t := by
  simp [Fits]

theorem reads_closed (t : Table) : Reads ⟨t, none⟩ := by
  rintro c ⟨⟩

theorem fits_closed (e : Engine) (t : Table) : Fits e ⟨t, none⟩ := by
  rintro c ⟨⟩

theorem checkouts_open (t : Table) (c : Cursor) : checkouts ⟨t, some c⟩ = c.held.toList := rfl

/-- A fetched tuple may be handed out, or a tuple be fetched, without a step of the cursor. -/
theorem fits_withPeeked (h : c.Fits e t) (o : Option Tuple) (ho : ∀ u, o = some u → c.Behind e u) :
    Cursor.Fits e t { c with peeked := o } where
  start hn := by
    refine ⟨(h.start hn).1, ?_⟩
    cases o with
    | none => rfl
    | some u =>
      obtain ⟨g, p, hg, -⟩ := ho u rfl
      have hn : c.held = none := hn
      rw [hn] at hg
      cases hg
  held := h.held
  peeked := ho

theorem releaseHeld_cases (h : e.Coherent (s.checkouts ++ held) loose) (hs : s.Reads) :
    (s.releaseHeld e).Coherent held loose ∧ Unchanged held e (s.releaseHeld e) ∧
      (s.releaseHeld e).disk = e.disk := by
  unfold releaseHeld
  unfold checkouts at h
  cases hg : s.cursor.bind (·.held) with
  | none =>
    rw [hg] at h
    exact ⟨h, .refl held e, rfl⟩
  | some g =>
    rw [hg] at h
    obtain ⟨c, hc, hheld⟩ := Option.bind_eq_some_iff.1 hg
    obtain ⟨hcoh, hun⟩ := h.release fun hx => by rw [hs c hc g hheld] at hx; cases hx
    exact ⟨hcoh, hun, rfl⟩

/-- Where an advance of the cursor ends. -/
def Advances (e : Engine) (s : Scan) : Prop := ∀ c, s.cursor = some c → c.peeked = none →
  (advance s.table c e).2.1.Reads ∧ (c.Fits e s.table → Landed (advance s.table c e).2.2 s.table
    (advance s.table c e).1 (advance s.table c e).2.1)

theorem start_fits (hr : s.Reads) : s.start.2.Reads ∧ (s.Fits e → s.start.2.Fits e) := by
  obtain ⟨t, cursor⟩ := s
  cases cursor with
  | none => exact ⟨reads_open.2 (reads_idle 0), fun _ => fits_open.2 (fits_idle e t 0)⟩
  | some c => exact ⟨hr, id⟩

theorem rewind_fits (e : Engine) (s : Scan) :
    (s.rewind e).2.1.Reads ∧ (s.rewind e).2.1.Fits (s.rewind e).2.2 := by
  obtain ⟨t, cursor⟩ := s
  cases cursor with
  | none => exact ⟨reads_closed t, fits_closed e t⟩
  | some c => exact ⟨reads_open.2 (reads_idle 0), fits_open.2 (fits_idle _ t 0)⟩

theorem close_fits (e : Engine) (s : Scan) :
    (s.close e).1.Reads ∧ (s.close e).1.Fits (s.close e).2 :=
  ⟨reads_closed s.table, fits_closed _ s.table⟩

theorem next_fits (hr : s.Reads) (ha : s.Advances e) :
    (s.next e).2.1.Reads ∧ (s.Fits e → (s.next e).2.1.Fits (s.next e).2.2) := by
  obtain ⟨t, cursor⟩ := s
  unfold next
  cases cursor with
  | none => exact ⟨hr, id⟩
  | some c =>
    simp only
    cases hpeek : c.peeked with
    | some u =>
      refine ⟨reads_open.2 (hr c rfl), fun hf => fits_open.2 ?_⟩
      exact fits_withPeeked (hf c rfl) none (by rintro u ⟨⟩)
    | none =>
      obtain ⟨hreads, hland⟩ := ha c rfl hpeek
      exact ⟨reads_open.2 hreads, fun hf => fits_open.2 (hland (hf c rfl)).fits⟩

theorem hasNext_fits (hr : s.Reads) (ha : s.Advances e) :
    (s.hasNext e).2.1.Reads ∧ (s.Fits e → (s.hasNext e).2.1.Fits (s.hasNext e).2.2) := by
  obtain ⟨t, cursor⟩ := s
  unfold hasNext
  cases cursor with
  | none => exact ⟨hr, id⟩
  | some c =>
    simp only
    split
    · exact ⟨hr, id⟩
    · next hpeek =>
      obtain ⟨hreads, hland⟩ := ha c rfl (by simpa using hpeek)
      simp only at hreads hland
      cases hadv : advance t c e with
      | mk r rest =>
        rw [hadv] at hreads hland
        cases r with
        | error err => exact ⟨reads_open.2 hreads, fun hf => fits_open.2 (hland (hf c rfl)).fits⟩
        | ok o =>
          refine ⟨reads_open.2 hreads, fun hf => fits_open.2 ?_⟩
          have hland := hland (hf c rfl)
          exact fits_withPeeked hland.fits o fun u hu => hland.found u (by rw [hu])

theorem Moved.refl (h : e.Coherent (s.checkouts ++ held) loose) (hs : s.Reads) :
    Moved held loose s e s e :=
  ⟨rfl, h, .refl held e, hs, rfl, fun hf => hf⟩

theorem advances (h : e.Coherent (s.checkouts ++ held) loose) (hs : s.Reads) : s.Advances e := by
  obtain ⟨t, cursor⟩ := s
  rintro c rfl hpeek
  obtain ⟨r, c', e', heq, -, -, -, hreads, hfits⟩ := advance_cases h (hs c rfl) hpeek t
  simp only [heq]
  exact ⟨hreads, fun hf => (hfits hf).1⟩

theorem start_moved (h : e.Coherent (s.checkouts ++ held) loose) (hs : s.Reads) :
    Moved held loose s e s.start.2 e := by
  obtain ⟨hreads, hfits⟩ := start_fits (e := e) hs
  obtain ⟨t, cursor⟩ := s
  cases cursor with
  | none => exact ⟨rfl, h, .refl held e, hreads, rfl, hfits⟩
  | some c => exact .refl h hs

theorem rewind_moved (h : e.Coherent (s.checkouts ++ held) loose) (hs : s.Reads) :
    Moved held loose s e (s.rewind e).2.1 (s.rewind e).2.2 := by
  obtain ⟨t, cursor⟩ := s
  cases cursor with
  | none => exact .refl h hs
  | some c =>
    obtain ⟨hcoh, hun, hd⟩ := releaseHeld_cases h hs
    obtain ⟨hreads, hfits⟩ := rewind_fits e ⟨t, some c⟩
    exact ⟨hd, hcoh, hun, hreads, rfl, fun _ => hfits⟩

theorem close_moved (h : e.Coherent (s.checkouts ++ held) loose) (hs : s.Reads) :
    Moved held loose s e (s.close e).1 (s.close e).2 := by
  obtain ⟨hcoh, hun, hd⟩ := releaseHeld_cases h hs
  obtain ⟨hreads, hfits⟩ := close_fits e s
  exact ⟨hd, hcoh, hun, hreads, rfl, fun _ => hfits⟩

theorem next_moved (h : e.Coherent (s.checkouts ++ held) loose) (hs : s.Reads) :
    Moved held loose s e (s.next e).2.1 (s.next e).2.2 := by
  obtain ⟨hreads, hfits⟩ := next_fits hs (advances h hs)
  obtain ⟨t, cursor⟩ := s
  unfold next at hreads hfits ⊢
  cases cursor with
  | none => exact .refl h hs
  | some c =>
    simp only at hreads hfits ⊢
    cases hpeek : c.peeked with
    | some u =>
      simp only [hpeek] at hreads hfits
      exact ⟨rfl, h, .refl held e, hreads, rfl, hfits⟩
    | none =>
      simp only [hpeek] at hreads hfits
      obtain ⟨r, c', e', heq, hd, hcoh, hun, -, -⟩ := advance_cases h (hs c rfl) hpeek t
      rw [heq] at hreads hfits ⊢
      exact ⟨hd, hcoh, hun, hreads, rfl, hfits⟩

theorem hasNext_moved (h : e.Coherent (s.checkouts ++ held) loose) (hs : s.Reads) :
    Moved held loose s e (s.hasNext e).2.1 (s.hasNext e).2.2 := by
  obtain ⟨hreads, hfits⟩ := hasNext_fits hs (advances h hs)
  obtain ⟨t, cursor⟩ := s
  unfold hasNext at hreads hfits ⊢
  cases cursor with
  | none => exact .refl h hs
  | some c =>
    simp only at hreads hfits ⊢
    split
    · exact .refl h hs
    · next hpeek =>
      rw [if_neg hpeek] at hreads hfits
      have hpeek : c.peeked = none := by simpa using hpeek
      obtain ⟨r, c', e', heq, hd, hcoh, hun, -, -⟩ := advance_cases h (hs c rfl) hpeek t
      rw [heq] at hreads hfits ⊢
      cases r <;> exact ⟨hd, hcoh, hun, hreads, rfl, hfits⟩

end Scan

end HeapStore
