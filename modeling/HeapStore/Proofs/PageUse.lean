import HeapStore.Proofs.CheckoutOutcome

/-! Who uses which page. A page that is checked out, loaded on the way or made to give way is as clean
afterwards and as much in use by others as before; so the frames that a pool could empty are as many
as before, too. -/

namespace HeapStore

namespace Pool

variable {p : Pool} {held : List Checkout} {id : PageId}

/-- The number of frames that are free or could be emptied. -/
def spare (p : Pool) : Nat :=
  (List.range p.numFrames).countP fun i => (p.frame i).isEmpty || (p.frame i).isEvictable p.copies

/-- The pages that keep their frames. -/
def kept (p : Pool) : List PageId :=
  (List.range p.numFrames).filterMap fun i =>
    if (p.frame i).isEvictable p.copies then none else (p.seat i).map (·.page)

theorem spare_add_length_kept (p : Pool) : p.spare + p.kept.length = p.numFrames := by
  have hkept : p.kept.length = (List.range p.numFrames).countP fun i =>
      ¬ ((p.frame i).isEmpty || (p.frame i).isEvictable p.copies) = true := by
    rw [kept, List.length_filterMap_eq_countP]
    refine List.countP_congr fun i _ => ?_
    unfold seat Frame.isEmpty
    cases (p.frame i).isEvictable p.copies <;> cases (p.frame i).resident <;> simp
  rw [spare, hkept]
  exact (List.length_eq_countP_add_countP _).symm.trans List.length_range

theorem Sound.nodup_kept (h : p.Sound held) : p.kept.Nodup := by
  refine List.nodup_range.filterMap fun i j id hi hj => ?_
  have hframe {i : Nat} (hi : id ∈ (if (p.frame i).isEvictable p.copies then none
      else (p.seat i).map (·.page))) : p.frameOf? id = some i := by
    split at hi
    · cases hi
    · obtain ⟨r, hr, rfl⟩ := Option.map_eq_some_iff.1 hi
      exact (h.index r.page i).2 ⟨r.copy, hr⟩
  exact Option.some.inj ((hframe hi).symm.trans (hframe hj))

theorem not_full_of_spare_pos (h : 0 < p.spare) : ¬ p.Full := by
  obtain ⟨i, hi, hspare⟩ := List.countP_pos_iff.1 h
  intro hfull
  obtain ⟨r, hr, hbusy⟩ := hfull i (List.mem_range.1 hi)
  rcases Bool.or_eq_true_iff.1 hspare with hempty | hevict
  · unfold seat at hr
    simp [Frame.isEmpty, hr] at hempty
  · obtain ⟨r', hr', hshared, hdirty⟩ := isEvictable_iff.1 hevict
    rw [hr] at hr'
    cases hr'
    simp [hshared, hdirty] at hbusy

end Pool

namespace Engine

open Pool (Installed)

variable {e e' e'' : Engine} {held : List Checkout} {id : PageId} {access : Access} {page : Page}

/-- The pages that keep their frames are those that are dirty or checked out. -/
theorem mem_kept_iff (h : e.pool.Sound held) : id ∈ e.pool.kept ↔ ¬ e.Rests held id := by
  unfold Pool.kept
  simp only [List.mem_filterMap, List.mem_range]
  constructor
  · rintro ⟨i, -, hi⟩ hrests
    split at hi
    · cases hi
    · next hevict =>
      obtain ⟨r, hr, rfl⟩ := Option.map_eq_some_iff.1 hi
      have hidle := (rests_iff_idle h (h.copyOf?_eq_some.2 ⟨i, hr⟩)).1 hrests
      exact hevict (Pool.isEvictable_iff.2 ⟨r, hr, hidle.not_shared h ⟨i, r.page, hr⟩⟩)
  · intro hbusy
    cases hc : e.pool.copyOf? id with
    | none => exact absurd (rests_of_none hc) hbusy
    | some c =>
      obtain ⟨i, hi⟩ := h.copyOf?_eq_some.1 hc
      refine ⟨i, Pool.lt_numFrames_of_seat hi, ?_⟩
      rw [if_neg, hi]
      · rfl
      · intro hevict
        obtain ⟨r, hr, hshared, hdirty⟩ := Pool.isEvictable_iff.1 hevict
        rw [hi] at hr
        cases hr
        exact hbusy ((rests_iff_idle h hc).2 (h.idle_of_isEvictable hi hshared hdirty))

/-- Every page is as clean as it was and as much in use by these checkouts. -/
structure SameUse (held : List Checkout) (e e' : Engine) : Prop where
  dirtiedBy : ∀ id, e'.pool.dirtiedBy id = e.pool.dirtiedBy id
  holders : ∀ id access, e'.holders held id access = e.holders held id access

namespace SameUse

theorem refl (held : List Checkout) (e : Engine) : SameUse held e e := ⟨fun _ => rfl, fun _ _ => rfl⟩

theorem trans (h : SameUse held e e') (h' : SameUse held e' e'') : SameUse held e e'' :=
  ⟨fun id => (h'.dirtiedBy id).trans (h.dirtiedBy id),
    fun id access => (h'.holders id access).trans (h.holders id access)⟩

theorem admits_iff (h : SameUse held e e') : e'.Admits held id access ↔ e.Admits held id access := by
  cases access <;> simp only [Admits, h.holders]

theorem rests_iff (h : SameUse held e e') : e'.Rests held id ↔ e.Rests held id := by
  rw [Rests, Rests, h.dirtiedBy, h.admits_iff]

theorem spare_eq (h : SameUse held e e') (hs : e.pool.Sound held) (hs' : e'.pool.Sound held)
    (hframes : e'.pool.numFrames = e.pool.numFrames) : e'.pool.spare = e.pool.spare := by
  have hperm : e'.pool.kept.Perm e.pool.kept := by
    refine (List.perm_ext_iff_of_nodup hs'.nodup_kept hs.nodup_kept).2 fun id => ?_
    rw [mem_kept_iff hs', mem_kept_iff hs, h.rests_iff]
  have hsum := e.pool.spare_add_length_kept
  have hsum' := e'.pool.spare_add_length_kept
  have hlen := hperm.length_eq
  omega

/-- A page that rests and is gone, or has come in fresh, still rests. -/
theorem of_rests (h : ∀ id, (e'.pool.copyOf? id = e.pool.copyOf? id ∧ e'.pool.page? id = e.pool.page? id) ∨
    e.Rests held id ∧ e'.Rests held id) : SameUse held e e' := by
  constructor
  · intro id
    rcases h id with ⟨-, hpage⟩ | ⟨hrests, hrests'⟩
    · rw [Pool.dirtiedBy, Pool.dirtiedBy, hpage]
    · rw [hrests.1, hrests'.1]
  · intro id access
    rcases h id with ⟨hcopy, -⟩ | ⟨hrests, hrests'⟩
    · unfold Engine.holders
      rw [hcopy]
    · cases access
      · rw [hrests.2.1, hrests'.2.1]
      · rw [hrests.2.2, hrests'.2.2]

end SameUse

theorem SameResidents.sameUse (h : SameResidents e e') : SameUse held e e' :=
  .of_rests fun id => .inl ⟨h.copyOf? id, h.page?_pool id⟩

theorem sameUse_of_installed {q : Pool} {gone : Option Resident} (h : e.pool.Sound held)
    (hi : Installed held e.pool q id page gone) (hid : e.pool.copyOf? id = none)
    (hclean : page.dirtiedBy = none) : SameUse held e (e.withPool q) := by
  refine .of_rests fun id' => ?_
  by_cases he : id' = id
  · subst he
    refine .inr ⟨rests_of_none hid, ?_, ?_⟩
    · rw [Pool.dirtiedBy]
      change (q.page? id').bind _ = none
      rw [hi.page?_id]
      exact hclean
    · exact (admits_iff (e := e.withPool q) hi.copyOf?_self .exclusive).2 (h.compatible_size .exclusive)
  · by_cases hgone : gone.map (·.page) = some id'
    · obtain ⟨-, hnone, c, hc, hidle⟩ := hi.gives_way hid hgone
      exact .inr ⟨(rests_iff_idle h hc).2 hidle, rests_of_none hnone⟩
    · exact .inl (hi.stays h he hgone)

/-- A request changes for no page how clean it is and who else uses it. -/
theorem getPage_sameUse (h : e.pool.Sound held) (id : PageId) (access : Access) :
    SameUse held e (e.getPage id access).2 := by
  cases hc : e.pool.copyOf? id with
  | some c =>
    obtain ⟨i, hs, hfetch⟩ := Coherent.fetch_of_resident h hc
    have hsame : SameResidents e (e.withPool (e.pool.access i)) :=
      ⟨rfl, rfl, fun _ => rfl, fun _ _ _ => rfl⟩
    rcases getPage_of_fetch hfetch (h.access hs) hc access with ⟨-, heq⟩ | ⟨-, e', heq, -, -, hsame'⟩
    · rw [heq]
      exact hsame.sameUse
    · rw [heq]
      exact hsame.sameUse.trans hsame'.sameUse
  | none =>
    rcases getPage_of_absent h hc access with ⟨err, -, heq⟩ | ⟨page, -, -, heq⟩ |
      ⟨page, q, gone, e', hread, -, hinst, heq, -, hsame⟩
    · rw [heq]
      exact .refl held e
    · rw [heq]
      exact .refl held e
    · rw [heq]
      exact (sameUse_of_installed h hinst hc (dirtiedBy_of_read hread)).trans hsame.sameUse

end Engine

end HeapStore
