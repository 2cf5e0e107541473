import Mathlib.Data.List.Count
import HeapStore.Proofs.FiledPages

/-! Pages that somebody has checked out. While a page is in somebody's hands it keeps its copy, unless
it is dropped; a page that somebody reads is not changed by anyone, not even by a flush. -/

namespace HeapStore

open Pool (readers writers)

namespace Engine

variable {e e' : Engine} {held base own own' : List Checkout} {m : Move} {ms : List Move}
  {id : PageId} {c : Nat} {p : Page} {g : Checkout}

/-- A move does not take the copy of a page away from whoever has it. -/
theorem Moves.copyOf?_of_held (hm : Moves base own e m own' e') (hs : e.pool.Sound (own ++ base))
    (hg : g ∈ own ++ base) (hc : e.pool.copyOf? id = some g.copy) (hd : m ≠ .discard id) :
    e'.pool.copyOf? id = some g.copy := by
  obtain ⟨p, hp⟩ := exists_page_of_sound hs hc
  obtain ⟨-, ht⟩ := hm.turned hs
  rcases ht.stays id g.copy p hc hp (.inr (.inr (.inr ⟨g, hg, rfl⟩))) with
    (hl | ⟨-, hfree⟩) | ⟨p', hc', -⟩
  · exact absurd hl hd
  · exact absurd rfl (hfree g hg)
  · exact hc'

theorem Trace.copyOf?_of_held (h : Trace base own e ms own' e') (hs : e.pool.Sound (own ++ base))
    (hg : g ∈ base) (hc : e.pool.copyOf? id = some g.copy) (hd : .discard id ∉ ms) :
    e'.pool.copyOf? id = some g.copy := by
  induction h with
  | nil => exact hc
  | @cons own _ _ e e1 _ m ms hm _ ih =>
    have hm' : m ≠ .discard id := fun heq => hd (heq ▸ List.mem_cons_self)
    exact ih (hm.turned hs).1
      (hm.copyOf?_of_held hs (List.mem_append_right own hg) hc hm')
      fun hmem => hd (List.mem_cons_of_mem _ hmem)

/-- Nothing is written back from a copy that somebody has. -/
theorem writeBack_of_held (h : e.pool.Sound held) (hg : g ∈ held) (id : PageId)
    (only : Option TxnId) : (e.writeBack id g.copy only).2 = e := by
  obtain ⟨k, hk⟩ := h.exists_copy (.inr ⟨g, hg, rfl⟩)
  have hfits := h.cells g.copy
  rw [hk] at hfits
  have hlock : k.lock ≠ .free := by
    intro hfree
    obtain ⟨hr, hw⟩ := hfits.lock_free_iff.1 hfree
    have hpos := Pool.mem_held_iff.1 ⟨g, hg, rfl⟩
    omega
  unfold writeBack
  simp only [hk, if_pos hlock]

theorem writers_le_one (h : e.pool.Sound held) (c : Nat) : writers held c ≤ 1 := by
  have hfits := h.cells c
  cases hk : e.pool.copies.get? c with
  | none =>
    rw [hk] at hfits
    obtain ⟨-, -, hw⟩ := hfits
    omega
  | some k =>
    rw [hk] at hfits
    obtain ⟨-, -, ⟨-, hw⟩ | ⟨-, hw, -⟩⟩ := hfits <;> omega

/-- A copy that somebody reads has nobody who writes it. -/
theorem not_writer_of_reader (h : e.pool.Sound held) (hr : ⟨c, .shared⟩ ∈ held) :
    ⟨c, .exclusive⟩ ∉ held := by
  intro hw
  obtain ⟨k, hk⟩ := h.exists_copy (.inr ⟨_, hr, rfl⟩)
  have hfits := h.cells c
  rw [hk] at hfits
  have hr' : 0 < readers held c := List.count_pos_iff.2 hr
  have hw' : 0 < writers held c := List.count_pos_iff.2 hw
  obtain ⟨-, -, ⟨-, h0⟩ | ⟨-, -, h0⟩⟩ := hfits <;> omega

/-- A page that somebody reads stays as it is. -/
theorem Moves.page?_of_reader (hm : Moves base own e m own' e') (hs : e.pool.Sound (own ++ base))
    (hr : ⟨c, .shared⟩ ∈ own ++ base) (hc : e.pool.copyOf? id = some c) (hd : m ≠ .discard id) :
    e'.pool.page? id = e.pool.page? id := by
  obtain ⟨p, hp⟩ := exists_page_of_sound hs hc
  have hc' := hm.copyOf?_of_held hs hr hc hd
  rw [page?_of_copyOf? hc, page?_of_copyOf? hc', hp]
  rcases (hm.turned hs).2.stays id c p hc hp (.inr (.inr (.inr ⟨_, hr, rfl⟩))) with
    (hl | ⟨-, hfree⟩) | ⟨p', hc1, hp', hturn⟩
  · exact absurd hl hd
  · exact absurd rfl (hfree _ hr)
  rcases hturn with rfl | ⟨hw, rfl⟩
  · suffices hcalls : m.callsOn c = [] by rw [hp', hcalls]; rfl
    cases hm with
    | @changed _ _ d _ calls hd' =>
      have hne : d ≠ c := by
        rintro rfl
        exact not_writer_of_reader hs hr hd'
      rw [Move.callsOn, if_neg hne]
    | _ => rfl
  · obtain ⟨only, rfl, -⟩ := hw.selected
    cases hm with
    | @wroteBack _ _ _ d _ hd' =>
      obtain rfl : d = c := Option.some.inj (hd'.symm.trans hc)
      rw [writeBack_of_held hs hr id only, hp]

theorem Trace.page?_of_reader (h : Trace base own e ms own' e') (hs : e.pool.Sound (own ++ base))
    (hr : ⟨c, .shared⟩ ∈ base) (hc : e.pool.copyOf? id = some c) (hd : .discard id ∉ ms) :
    e'.pool.page? id = e.pool.page? id := by
  induction h with
  | nil => rfl
  | @cons own _ _ e e1 _ m ms hm _ ih =>
    have hm' : m ≠ .discard id := fun heq => hd (heq ▸ List.mem_cons_self)
    have hr' : ⟨c, .shared⟩ ∈ own ++ base := List.mem_append_right own hr
    exact (ih (hm.turned hs).1 (hm.copyOf?_of_held hs hr' hc hm')
      fun hmem => hd (List.mem_cons_of_mem _ hmem)).trans (hm.page?_of_reader hs hr' hc hm')

/-- A page that was asked for is resident in the copy that is handed out. -/
theorem copyOf?_getPage (hs : e.pool.Sound held) {access : Access}
    (h : e.getPage id access = (.ok g, e')) : e'.pool.copyOf? id = some g.copy := by
  obtain ⟨r, e1, heq, -, -, hcases⟩ := getPage_turned hs id access
  rw [h] at heq
  cases heq
  rcases hcases with ⟨err, herr, -⟩ | ⟨c, p, hok, -, hc, -⟩
  · cases herr
  · cases hok
    exact hc

end Engine

/-! ### The page under a scan -/

namespace Scan

variable {e : Engine} {base : List Checkout} {t : Table} {g : Checkout}

/-- The page that a scan has checked out, with its checkout. -/
def pin? (s : Scan) : Option (PageId × Checkout) :=
  s.cursor.bind fun c => c.held.map fun g => (⟨s.table.id, c.page⟩, g)

theorem map_snd_pin? (s : Scan) : s.pin?.toList.map (·.2) = s.checkouts := by
  unfold pin? checkouts
  cases s.cursor with
  | none => rfl
  | some c => cases hg : c.held <;> simp [hg]

theorem seek_pin {count page : Nat} (hs : e.pool.Sound base)
    (h : (seek t count page e).2.1.held = some g) : page ≤ (seek t count page e).2.1.page ∧
      (seek t count page e).2.2.pool.copyOf? ⟨t.id, (seek t count page e).2.1.page⟩ = some g.copy := by
  induction count generalizing page e with
  | zero => cases h
  | succ count ih =>
    have h0 : e.pool.Sound ([] ++ base) := hs
    unfold seek at h ⊢
    rcases Engine.getPage_trace h0 ⟨t.id, page⟩ .shared with ⟨err, e1, hget, -⟩ |
      ⟨c, p, e1, hget, -, hs1, hp⟩
    · rw [hget] at h
      cases h
    · simp only [hget] at h ⊢
      split at h
      · cases h
        exact ⟨Nat.le_refl page, Engine.copyOf?_getPage hs hget⟩
      · have hs2 : (e1.release ⟨c, .shared⟩).pool.Sound base := hs1.release
        obtain ⟨hle, hc⟩ := ih hs2 h
        exact ⟨Nat.le_of_succ_le hle, hc⟩

/-- A cursor stays on its page, and nothing happens, or it comes to a page further on. -/
theorem advance_pin {c : Cursor} (hs : e.pool.Sound (c.held.toList ++ base))
    (h : (advance t c e).2.1.held = some g) :
    (c.held = some g ∧ (advance t c e).2.1.page = c.page ∧ (advance t c e).2.2 = e) ∨
      ((c.held = none ∨ c.page < (advance t c e).2.1.page) ∧
        (advance t c e).2.2.pool.copyOf? ⟨t.id, (advance t c e).2.1.page⟩ = some g.copy) := by
  obtain ⟨page, held, nextSlot, peeked⟩ := c
  unfold advance at h ⊢
  cases held with
  | none =>
    obtain ⟨-, hc⟩ := seek_pin hs h
    exact .inr ⟨.inl rfl, hc⟩
  | some g0 =>
    simp only at h ⊢
    split at h
    · exact .inl ⟨h, rfl, rfl⟩
    · have hs1 : (e.release g0).pool.Sound base := hs.release
      obtain ⟨hle, hc⟩ := seek_pin hs1 h
      exact .inr ⟨.inr hle, hc⟩

/-- Where the cursor is put on what an advance came to, whatever is made of the tuple, the scan has the
page that it had, or another one. -/
theorem pin_of_advance {c c' : Cursor} (hs : e.pool.Sound (c.held.toList ++ base))
    (hheld : c'.held = (advance t c e).2.1.held) (hpage : c'.page = (advance t c e).2.1.page)
    (o : PageId × Checkout) (ho : pin? ⟨t, some c'⟩ = some o) :
    (pin? ⟨t, some c⟩ = some o ∧ (advance t c e).2.2 = e) ∨
      (pin? ⟨t, some c⟩ ≠ some o ∧ (advance t c e).2.2.pool.copyOf? o.1 = some o.2.copy) := by
  obtain ⟨g, hg, rfl⟩ := Option.map_eq_some_iff.1 ho
  rw [hheld] at hg
  rcases advance_pin hs hg with ⟨hg0, hsame, heng⟩ | ⟨hne, hc⟩
  · refine .inl ⟨?_, heng⟩
    rw [hpage, hsame]
    exact Option.map_eq_some_iff.2 ⟨g, hg0, rfl⟩
  · refine .inr ⟨fun hpin => ?_, by rw [hpage]; exact hc⟩
    obtain ⟨g0, hg0, heq⟩ := Option.map_eq_some_iff.1 hpin
    rcases hne with hnone | hlt
    · rw [hnone] at hg0
      cases hg0
    · have hpages : c.page = c'.page := congrArg (fun o : PageId × Checkout => o.1.page) heq
      omega

/-- After a call a scan has the page that it had, and nothing has happened, or another one that is
resident in the copy it has. -/
theorem call_pin {s : Scan} {o : PageId × Checkout} (hs : e.pool.Sound (s.checkouts ++ base))
    (call : ScanCall) (h : (s.call e call).2.1.pin? = some o) :
    (s.pin? = some o ∧ (s.call e call).2.2 = e) ∨
      (s.pin? ≠ some o ∧ (s.call e call).2.2.pool.copyOf? o.1 = some o.2.copy) := by
  obtain ⟨t, cursor⟩ := s
  cases cursor with
  | none => cases call <;> cases h
  | some c =>
    cases call with
    | start => exact .inl ⟨h, rfl⟩
    | rewind | close => cases h
    | next =>
      cases hpeek : c.peeked with
      | some u =>
        have heq : (Scan.call ⟨t, some c⟩ e .next).2 = (⟨t, some { c with peeked := none }⟩, e) := by
          simp only [Scan.call, next, hpeek]
        rw [heq] at h ⊢
        exact .inl ⟨h, rfl⟩
      | none =>
        simp only [Scan.call, next, hpeek] at h ⊢
        exact pin_of_advance hs rfl rfl o h
    | hasNext =>
      simp only [Scan.call, hasNext] at h ⊢
      by_cases hpeek : c.peeked.isSome = true
      · rw [if_pos hpeek] at h ⊢
        exact .inl ⟨h, rfl⟩
      · rw [if_neg hpeek] at h ⊢
        have hpin := fun c' => @pin_of_advance e base t c c' hs
        cases hadv : advance t c e with
        | mk r rest =>
          rw [hadv] at hpin
          simp only [hadv] at h
          cases r <;> exact hpin _ rfl rfl o h

end Scan

end HeapStore
