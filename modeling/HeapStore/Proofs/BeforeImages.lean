import HeapStore.Proofs.SessionSteps

/-! The before-image of a resident page is what its file holds now, and a page that is not dirty has
the rows of its before-image. So a page that is dropped comes back as its before-image was, whoever
still has the dropped copy in hand. -/

namespace HeapStore.Session

/-- What the pages in memory have to do with the files. -/
structure MatchesFiles (s : Session) : Prop where
  window : ∀ id p, s.engine.pool.page? id = some p → ∃ t, s.engine.table? id.table = some t ∧
    p.beforeBytes = t.window s.engine.disk id.page
  before : ∀ id p, s.engine.pool.page? id = some p →
    ∃ q, p.before = .ok q ∧ (p.dirtiedBy = none → q.SameRows p)
  reload : ∀ id p access g e, s.engine.pool.page? id = some p →
    (s.engine.discard id).2.getPage id access = (.ok g, e) →
    ∃ q r, p.before = .ok q ∧ e.pageAt? g = some r ∧ r.dirtiedBy = none ∧ q.SameRows r

/-- A plain action, or one that drops a page, that leaves the tables small. -/
def DropsAtMost (s : Session) (a : Action) : Prop := a.isPlainOrDiscard = true ∧ s.StaysSmall a

instance (s : Session) (a : Action) : Decidable (s.DropsAtMost a) :=
  inferInstanceAs (Decidable (_ ∧ _))

variable {s : Session}

theorem Sound.discard_step (h : s.Sound) (id : PageId) : (s.step (.discard id)).2.Sound := by
  rcases h.coherent.discard_cases id with ⟨-, heq⟩ | ⟨c, e, -, heq, -, htables, hcoh, -⟩
  · have hstep : (s.step (.discard id)).2 = s := by simp only [step, onEngine, heq]
    rw [hstep]
    exact h
  · have hstep : (s.step (.discard id)).2 = { s with engine := e } := by
      simp only [step, onEngine, heq]
    rw [hstep]
    exact ⟨hcoh, fun sc hsc => by rw [Engine.table?_congr htables]; exact h.tables sc hsc, h.reads⟩

theorem Sound.dropping_step (h : s.Sound) (hm : s.Marked) {a : Action} (ha : s.DropsAtMost a) :
    (s.step a).2.Sound := by
  obtain ⟨hkind, hsmall⟩ := ha
  have hcases : a.isPlain = true ∨ ∃ id, a = .discard id := by
    cases a with
    | discard id => exact .inr ⟨id, rfl⟩
    | _ => exact .inl hkind
  rcases hcases with hplain | ⟨id, rfl⟩
  · exact (h.plain_step hplain (hm.releasesMarked a) hsmall).sound
  · exact h.discard_step id

theorem copyOf?_of_page? {e : Engine} {id : PageId} {p : Page} (h : e.pool.page? id = some p) :
    ∃ c, e.pool.copyOf? id = some c ∧ e.pool.copies.page? c = some p :=
  Option.bind_eq_some_iff.1 h

theorem Sound.backed (h : s.Sound) (hm : s.Marked) {id : PageId} {p : Page}
    (hp : s.engine.pool.page? id = some p) :
    ∃ t, s.engine.table? id.table = some t ∧ p.Backed t s.engine.disk id False := by
  obtain ⟨c, hc, hpage⟩ := copyOf?_of_page? hp
  obtain ⟨t, ht, hb⟩ := h.coherent.backed id c p hc hpage
  exact ⟨t, ht, hb.mono (hm.not_loose c)⟩

/-- The copy that is loaded after a page was dropped is the page as the file has it. -/
theorem Sound.reload (h : s.Sound) {id : PageId} {p : Page} (hp : s.engine.pool.page? id = some p)
    {access : Access} {g : Checkout} {e : Engine}
    (hget : (s.engine.discard id).2.getPage id access = (.ok g, e)) :
    ∃ q r, s.engine.stored id = some q ∧ e.pageAt? g = some r ∧ q.Alike r := by
  obtain ⟨c, hc, -⟩ := copyOf?_of_page? hp
  rcases h.coherent.discard_cases id with ⟨hnone, -⟩ | ⟨-, e1, -, hdis, hdisk, htables, hcoh, hcopy⟩
  · rw [hc] at hnone
    cases hnone
  · rw [hdis] at hget
    have hgone : e1.pool.copyOf? id = none := by rw [hcopy, if_pos rfl]
    rcases hcoh.getPage_or_fail id access with ⟨err, e', heq, -⟩ |
      ⟨c', r, e', heq, -, hun, -, -, hc', hr⟩
    · rw [hget] at heq
      cases heq
    · rw [hget] at heq
      cases heq
      have hrel := hun.pages id
      rw [Engine.logical_of_copyOf?_eq_none hgone, Engine.stored_congr htables hdisk,
        Engine.logical_of_page? hc' hr] at hrel
      cases hq : s.engine.stored id with
      | none =>
        rw [hq] at hrel
        cases hrel
      | some q =>
        rw [hq] at hrel
        cases hrel with
        | some halike => exact ⟨q, r, rfl, hr, halike⟩

theorem Sound.matchesFiles (h : s.Sound) (hm : s.Marked) : s.MatchesFiles where
  window id p hp := by
    obtain ⟨t, ht, hb⟩ := h.backed hm hp
    exact ⟨t, ht, hb.before⟩
  before id p hp := by
    obtain ⟨t, ht, hb⟩ := h.backed hm hp
    obtain ⟨q, hq, hrows⟩ := hb.image
    exact ⟨q, hq, fun hd => hrows hd not_false⟩
  reload id p access g e hp hget := by
    obtain ⟨t, ht, hb⟩ := h.backed hm hp
    obtain ⟨q, r, hq, hr, halike⟩ := h.reload hp hget
    have hq := (Engine.stored_eq_some ht).1 hq
    obtain ⟨-, -, -, -, hclean, -⟩ := Page.sound_of_ofBytes hq
    exact ⟨q, r, by rw [hb.before_eq, hq], hr, halike.dirtiedBy ▸ hclean, halike.toSameRows⟩

theorem dropping_run_matchesFiles {d : Disk} {n : Nat} {ts : List Table}
    (hts : ∀ t ∈ ts, t.Stands d ∧ t.Small d) {as : List Action}
    (h : (start d n ts).Along DropsAtMost as) : ((start d n ts).after as).MatchesFiles := by
  obtain ⟨hsound, hmarked⟩ := h.invariant (P := fun s => s.Sound ∧ s.Marked)
    ⟨start_sound n hts, start_marked d n ts⟩ fun s a hinv hok =>
      ⟨hinv.1.dropping_step hinv.2 hok, hinv.2.step hok.1⟩
  exact hsound.matchesFiles hmarked

/-- A file that ends in the middle of its second page, with bits and bytes set where no tuple is. -/
def partialDisk : Disk :=
  ⟨[("/t", .file (Contents.write ⟨0, [], Contents.within_nil⟩ 0
    [252, 1, 2, 3, 4, 5, 6, 7, 8, 0, 9, 9]))]⟩

/-- The partial page is filled and written back, changed again and dropped while it is in hand. -/
def dropRun : List Action :=
  [.insert tinyTable.id ⟨1⟩ (tinyTuple 7 none), .insert tinyTable.id ⟨1⟩ (tinyTuple 8 none),
    .insert tinyTable.id ⟨2⟩ (tinyTuple 9 none), .flushPage (tinyPage 1),
    .delete ⟨3⟩ (tinyTuple 9 (some ⟨tinyPage 1, 0⟩)), .get (tinyPage 1) .shared,
    .discard (tinyPage 1)]

theorem dropping_run_matchesFiles_partial :
    (∀ t ∈ [tinyTable], t.Stands partialDisk ∧ t.Small partialDisk) ∧
      (start partialDisk 2 [tinyTable]).Along DropsAtMost dropRun ∧
      ((start partialDisk 2 [tinyTable]).after dropRun).MatchesFiles := by
  have hts : ∀ t ∈ [tinyTable], t.Stands partialDisk ∧ t.Small partialDisk := by
    intro t ht
    obtain rfl := List.mem_singleton.1 ht
    exact ⟨⟨_, rfl⟩, by decide⟩
  have h : (start partialDisk 2 [tinyTable]).Along DropsAtMost dropRun := by decide +kernel
  exact ⟨hts, h, dropping_run_matchesFiles hts h⟩

end HeapStore.Session
