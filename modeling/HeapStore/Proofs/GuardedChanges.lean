import HeapStore.Proofs.SessionSteps

/-! Changes to a page under a checkout in hand. The page may be changed while it counts as clean, as
long as its checkout remembers that the mark is missing. -/

namespace HeapStore

/-- What an action may do to a page under a checkout. If it leaves no mark to be set later, the page is
dirty afterwards. -/
structure Page.Change (unmarked : Bool) (f : Page → Except Error Answer × Page) : Prop where
  sound : ∀ p, p.Sound → (f p).2.Sound
  keeps : ∀ p, (f p).2.id = p.id ∧ (f p).2.schema = p.schema ∧ (f p).2.layout = p.layout ∧
    (f p).2.beforeBytes = p.beforeBytes
  fails : ∀ p err, (f p).1 = .error err → (f p).2 = p
  marks : unmarked = false → ∀ p, (f p).2.dirtiedBy ≠ none
  alike : ∀ p q, p.Alike q → p.Sound → q.Sound → (f p).1 = (f q).1 ∧ (f p).2.Alike (f q).2

namespace Page.Change

theorem insert (t : Tuple) :
    Page.Change true fun p => ((p.insert t).1.map .record, (p.insert t).2.2) where
  sound p hp := hp.insert t
  keeps p := by
    rcases p.insert_cases t with ⟨err, hi⟩ | ⟨slot, -, -, -, hi⟩
    · rw [hi]
      exact ⟨rfl, rfl, rfl, rfl⟩
    · rw [hi]
      exact ⟨rfl, rfl, rfl, rfl⟩
  fails p err he := by
    rcases p.insert_cases t with ⟨err', hi⟩ | ⟨slot, -, -, -, hi⟩
    · rw [hi]
    · rw [hi] at he
      cases he
  marks hm := by cases hm
  alike p q ha hp hq := by
    obtain ⟨h1, -, h3⟩ := ha.insert hp hq t
    exact ⟨by rw [h1], h3⟩

theorem delete (t : Tuple) :
    Page.Change true fun p => ((p.delete t).1.map fun _ => .done, (p.delete t).2) where
  sound p hp := hp.delete t
  keeps p := by
    rcases p.delete_cases t with ⟨err, hi⟩ | ⟨slot, -, -, hi⟩
    · rw [hi]
      exact ⟨rfl, rfl, rfl, rfl⟩
    · rw [hi]
      exact ⟨rfl, rfl, rfl, rfl⟩
  fails p err he := by
    rcases p.delete_cases t with ⟨err', hi⟩ | ⟨slot, -, -, hi⟩
    · rw [hi]
    · rw [hi] at he
      cases he
  marks hm := by cases hm
  alike p q ha hp hq := by
    obtain ⟨h1, h2⟩ := ha.delete hp hq t
    exact ⟨by rw [h1], h2⟩

theorem mark (txn : TxnId) : Page.Change false fun p => (.ok .done, p.markDirty true txn) where
  sound p hp := hp.markDirty true txn
  keeps p := ⟨rfl, rfl, rfl, rfl⟩
  fails p err he := by cases he
  marks _ p hd := by cases hd
  alike p q ha _ _ := ⟨rfl, ha.markDirty true txn⟩

end Page.Change

namespace Session

variable {s : Session} {i : Nat} {g : Guard} {unmarked : Bool}
  {f : Page → Except Error Answer × Page} {p : Page}

/-- What is in hand stays in hand. -/
theorem checkouts_set (hg : s.guards[i]? = some g) :
    (s.guards.set i ⟨g.checkout, unmarked⟩).map (·.checkout) = s.guards.map (·.checkout) := by
  apply List.ext_getElem?
  intro j
  rw [List.getElem?_map, List.getElem?_map, List.getElem?_set]
  split
  · next hij =>
    obtain ⟨hi, -⟩ := List.getElem?_eq_some_iff.1 hg
    subst hij
    rw [if_pos hi, hg]
    rfl
  · rfl

theorem held_set (hg : s.guards[i]? = some g) (e : Engine) :
    held { s with engine := e, guards := s.guards.set i ⟨g.checkout, unmarked⟩ } = s.held := by
  unfold held
  rw [checkouts_set hg]

theorem loose_set (hg : s.guards[i]? = some g) (e : Engine) {d : Nat} (hd : d ≠ g.checkout.copy)
    (hl : s.Loose d) :
    Loose { s with engine := e, guards := s.guards.set i ⟨g.checkout, unmarked⟩ } d := by
  obtain ⟨g', hg', hm, hc⟩ := hl
  obtain ⟨j, hj⟩ := List.mem_iff_getElem?.1 hg'
  have hij : i ≠ j := by
    rintro rfl
    rw [hg] at hj
    cases hj
    exact hd hc.symm
  refine ⟨g', List.mem_of_getElem? (i := j) ?_, hm, hc⟩
  rw [List.getElem?_set_ne hij, hj]

/-- The engine with a changed page, and the checkout with the state of its mark. -/
def changed (s : Session) (i : Nat) (g : Guard) (unmarked : Bool) (p : Page) : Session :=
  { s with
    engine := s.engine.setPage g.checkout.copy p
    guards := s.guards.set i ⟨g.checkout, unmarked⟩ }

/-- A page that was changed and not marked is loose, and one that was marked is dirty. -/
theorem Sound.changed (h : s.Sound) (hg : s.guards[i]? = some g) (hx : g.checkout.access = .exclusive)
    (hp : s.engine.pool.copies.page? g.checkout.copy = some p) (hf : Page.Change unmarked f) :
    (s.changed i g unmarked (f p).2).Sound := by
  have hmem : g.checkout ∈ s.held :=
    List.mem_append_left _ (List.mem_map_of_mem (List.mem_of_getElem? hg))
  have hnew : (⟨g.checkout, unmarked⟩ : Guard) ∈ s.guards.set i ⟨g.checkout, unmarked⟩ := by
    obtain ⟨hi, -⟩ := List.getElem?_eq_some_iff.1 hg
    exact List.mem_set hi _
  refine ⟨?_, h.tables, h.reads⟩
  unfold Session.changed
  rw [held_set hg]
  refine h.coherent.setPage hp (fun t id _ hb => ?_) (fun d hd hl => loose_set hg _ hd hl) ?_
  · obtain ⟨hid, hschema, hlayout, hbefore⟩ := hf.keeps p
    refine hb.changed (hf.sound p hb.sound) hid hschema hlayout hbefore fun hclean hnl => ?_
    cases unmarked with
    | true => exact (hnl ⟨_, hnew, rfl, rfl⟩).elim
    | false => exact absurd hclean (hf.marks rfl p)
  · rintro d ⟨g', hg', hm, hc⟩
    rcases List.mem_or_eq_of_mem_set hg' with hold | rfl
    · exact h.coherent.loose d ⟨g', hold, hm, hc⟩
    · rw [← hc, ← hx]
      exact hmem

theorem Sound.exists_page (h : s.Sound) (hg : s.guards[i]? = some g) :
    ∃ p, s.engine.pool.copies.page? g.checkout.copy = some p := by
  have hmem : g.checkout ∈ s.held :=
    List.mem_append_left _ (List.mem_map_of_mem (List.mem_of_getElem? hg))
  obtain ⟨k, hk⟩ := h.coherent.pool.exists_copy (.inr ⟨_, hmem, rfl⟩)
  exact ⟨k.page, Copies.page?_of_get? hk⟩

theorem change_shared (hg : s.guards[i]? = some g) (hx : g.checkout.access = .shared)
    (hp : s.engine.pool.copies.page? g.checkout.copy = some p) :
    s.change i unmarked f = (.error (.permissionDenied (.sharedCheckout p.id)), s) := by
  obtain ⟨⟨c, access⟩, m⟩ := g
  subst hx
  unfold change
  rw [hg]
  simp only [Engine.Coherent.edit_shared hp]

theorem change_exclusive (hg : s.guards[i]? = some g) (hx : g.checkout.access = .exclusive)
    (hp : s.engine.pool.copies.page? g.checkout.copy = some p) :
    s.change i unmarked f = match (f p).1 with
      | .error err => (.error err, { s with engine := s.engine.setPage g.checkout.copy (f p).2 })
      | .ok a => (.ok a, s.changed i g unmarked (f p).2) := by
  obtain ⟨⟨c, access⟩, m⟩ := g
  subst hx
  unfold change
  rw [hg]
  simp only [Engine.Coherent.edit_exclusive hp]
  cases (f p).1 <;> rfl

end Session

end HeapStore
