import Mathlib.Data.Fintype.EquivFin
import HeapStore.Proofs.TupleUpdates

/-! Two engines over the same files, one with at least as many frames as the other. `Twins` says that
they show the same logical pages and have the same pages checked out; which clean pages are resident
beside those may differ. A page that keeps its frame in one keeps it in the other, so the larger pool
is full only where the smaller one is. -/

namespace HeapStore

open Pool (Compatible)

namespace Engine

/-- The number of checkouts of a page. -/
def holders (e : Engine) (held : List Checkout) (id : PageId) (access : Access) : Nat :=
  held.countP fun g => g.access = access ∧ e.pool.copyOf? id = some g.copy

/-- May a page be checked out beside those who have it? -/
def Admits (e : Engine) (held : List Checkout) (id : PageId) : Access → Prop
  | .shared => e.holders held id .exclusive = 0
  | .exclusive => e.holders held id .shared = 0 ∧ e.holders held id .exclusive = 0

/-- The page is clean and nobody has it checked out. -/
def Rests (e : Engine) (held : List Checkout) (id : PageId) : Prop :=
  e.pool.dirtiedBy id = none ∧ e.Admits held id .exclusive

structure Paired (e f : Engine) (held held' : List Checkout) : Prop where
  tables : f.pool.tables = e.pool.tables
  disk : f.disk = e.disk
  room : e.pool.numFrames ≤ f.pool.numFrames
  seated : ∀ g ∈ held, ∃ id, e.pool.copyOf? id = some g.copy
  seated' : ∀ g ∈ held', ∃ id, f.pool.copyOf? id = some g.copy
  holders : ∀ id access, f.holders held' id access = e.holders held id access
  pages : SamePages e f

structure Twins (e f : Engine) (held held' : List Checkout) (loose loose' : Nat → Prop) : Prop
    extends Paired e f held held' where
  small : e.Coherent held loose
  large : f.Coherent held' loose'

/-- Both engines have moved on, and what was in hand still is. -/
structure Abreast (held held' : List Checkout) (loose loose' : Nat → Prop) (e f e' f' : Engine) :
    Prop where
  twins : Twins e' f' held held' loose loose'
  small : Follows held e e'
  large : Follows held' f f'

/-- The two copies of a page. -/
structure Opposite (e f : Engine) (id : PageId) (c c' : Nat) (p q : Page) : Prop where
  small : e.pool.copyOf? id = some c
  large : f.pool.copyOf? id = some c'
  page : e.pool.copies.page? c = some p
  page' : f.pool.copies.page? c' = some q

variable {e e' e'' f f' f'' : Engine} {held held' : List Checkout} {loose loose' : Nat → Prop}
  {id : PageId} {access : Access} {c c' : Nat} {p q : Page}

/-! ### Who has a page checked out -/

theorem holders_eq_count (hc : e.pool.copyOf? id = some c) (access : Access) :
    e.holders held id access = held.count ⟨c, access⟩ := by
  unfold holders
  rw [List.count, hc]
  apply List.countP_congr
  intro ⟨d, a⟩ _
  rw [decide_eq_true_eq, beq_iff_eq, Checkout.mk.injEq, Option.some.injEq, eq_comm (a := c), and_comm]

theorem holders_of_none (hc : e.pool.copyOf? id = none) (access : Access) :
    e.holders held id access = 0 := by
  unfold holders
  rw [List.countP_eq_zero]
  intro g _
  simp [hc]

theorem admits_iff (hc : e.pool.copyOf? id = some c) (access : Access) :
    e.Admits held id access ↔ Compatible held c access := by
  cases access with
  | shared =>
    unfold Admits
    rw [holders_eq_count hc]
    rfl
  | exclusive =>
    unfold Admits
    rw [holders_eq_count hc, holders_eq_count hc]
    rfl

theorem admits_of_none (hc : e.pool.copyOf? id = none) (access : Access) :
    e.Admits held id access := by
  cases access with
  | shared => exact holders_of_none hc _
  | exclusive => exact ⟨holders_of_none hc _, holders_of_none hc _⟩

/-- A checkout that was given fits beside those that were out before. -/
theorem admits_of_compatible (hsame : ∀ d, e.pool.copyOf? id = some d → d = c)
    (hc : Compatible held c access) : e.Admits held id access := by
  cases hold : e.pool.copyOf? id with
  | none => exact admits_of_none hold access
  | some d =>
    rw [admits_iff hold, hsame d hold]
    exact hc

theorem holders_cons (g : Checkout) : e.holders (g :: held) id access =
    e.holders held id access +
      if g.access = access ∧ e.pool.copyOf? id = some g.copy then 1 else 0 := by
  unfold holders
  rw [List.countP_cons]
  simp

/-- The checkouts that stay in hand stay on their pages. -/
theorem holders_follow (hseat : ∀ g ∈ held, ∃ id, e.pool.copyOf? id = some g.copy)
    (hf : Follows held e e') {all : List Checkout} (hs : e'.pool.Sound all) (id : PageId)
    (access : Access) : e'.holders held id access = e.holders held id access := by
  apply List.countP_congr
  intro g hg
  simp only [decide_eq_true_eq]
  refine and_congr_right fun _ => ⟨fun hc => ?_, hf.kept g hg id⟩
  obtain ⟨id', hid'⟩ := hseat g hg
  rw [hs.copyOf?_inj hc (hf.kept g hg id' hid')]
  exact hid'

/-! ### Pages at rest -/

theorem dirtiedBy_of_copyOf? (hc : e.pool.copyOf? id = some c)
    (hp : e.pool.copies.page? c = some p) : e.pool.dirtiedBy id = p.dirtiedBy := by
  rw [Pool.dirtiedBy, page?_of_copyOf? hc, hp, Option.bind_some]

/-- A page that is not resident is as its file has it, so it is clean. -/
theorem dirtiedBy_eq (e : Engine) (id : PageId) :
    e.pool.dirtiedBy id = (e.logical id).bind (·.dirtiedBy) := by
  unfold Pool.dirtiedBy logical
  cases e.pool.page? id with
  | some p => rfl
  | none =>
    rw [Option.none_or]
    cases hs : e.stored id with
    | none => rfl
    | some p =>
      obtain ⟨t, ht, -⟩ := Option.bind_eq_some_iff.1 hs
      obtain ⟨-, -, -, -, hclean, -⟩ := Page.sound_of_ofBytes ((stored_eq_some ht).1 hs)
      exact hclean.symm

theorem rests_of_none (hc : e.pool.copyOf? id = none) : e.Rests held id := by
  refine ⟨?_, admits_of_none hc _⟩
  rw [Pool.dirtiedBy, page?_eq_none_of_copyOf? hc, Option.bind_none]

theorem rests_iff_idle (h : e.pool.Sound held) (hc : e.pool.copyOf? id = some c) :
    e.Rests held id ↔ e.pool.Idle held c := by
  obtain ⟨k, hk⟩ := h.exists_resident hc
  have hp : e.pool.copies.page? c = some k.page := by
    rw [Copies.page?, hk]
    rfl
  unfold Rests
  rw [admits_iff hc, dirtiedBy_of_copyOf? hc hp]
  constructor
  · rintro ⟨hclean, hfree⟩
    exact ⟨k, hk, hclean, hfree⟩
  · rintro ⟨k', hk', hclean, hfree⟩
    rw [hk] at hk'
    cases hk'
    exact ⟨hclean, hfree⟩

/-- A pool is full just if every frame holds a page that is dirty or checked out. -/
theorem full_iff_rests (h : e.pool.Sound held) : e.pool.Full ↔
    ∀ i < e.pool.numFrames, ∃ r, e.pool.seat i = some r ∧ ¬ e.Rests held r.page := by
  refine forall_congr' fun i => imp_congr_right fun _ => exists_congr fun r =>
    and_congr_right fun hs => ?_
  rw [rests_iff_idle h (h.copyOf?_eq_some.2 ⟨i, hs⟩)]
  constructor
  · intro hbusy hidle
    obtain ⟨h1, h2⟩ := hidle.not_shared h ⟨i, r.page, hs⟩
    rw [h1, h2] at hbusy
    simp at hbusy
  · intro hidle
    apply Decidable.byContradiction
    intro hnot
    rw [not_or, Bool.not_eq_true, Bool.not_eq_true] at hnot
    exact hidle (h.idle_of_isEvictable hs hnot.1 hnot.2)

namespace Paired

theorem admits_iff (h : Paired e f held held') (id : PageId) (access : Access) :
    e.Admits held id access ↔ f.Admits held' id access := by
  cases access with
  | shared =>
    unfold Admits
    rw [h.holders]
  | exclusive =>
    unfold Admits
    rw [h.holders, h.holders]

theorem dirtiedBy_eq (h : Paired e f held held') (id : PageId) :
    f.pool.dirtiedBy id = e.pool.dirtiedBy id := by
  rw [Engine.dirtiedBy_eq, Engine.dirtiedBy_eq]
  have hrel := h.pages id
  generalize e.logical id = o, f.logical id = o' at hrel
  cases hrel with
  | none => rfl
  | some ha => exact ha.dirtiedBy.symm

theorem rests_iff (h : Paired e f held held') (id : PageId) :
    e.Rests held id ↔ f.Rests held' id := by
  unfold Rests
  rw [h.dirtiedBy_eq, h.admits_iff]

theorem table?_eq (h : Paired e f held held') (k : Nat) : f.table? k = e.table? k :=
  table?_congr h.tables k

theorem table_eq (h : Paired e f held held') (k : Nat) : f.pool.table k = e.pool.table k := by
  unfold Pool.table
  rw [h.tables]

theorem read_eq (h : Paired e f held held') (id : PageId) : f.read id = e.read id :=
  read_congr h.tables h.disk

theorem follow (h : Paired e f held held') (hf : Follows held e e') (hf' : Follows held' f f')
    (hd : f'.disk = e'.disk) (hp : SamePages e' f') {all all' : List Checkout}
    (hs : e'.pool.Sound all) (hs' : f'.pool.Sound all') : Paired e' f' held held' where
  tables := by rw [hf.tables, hf'.tables, h.tables]
  disk := hd
  room := by rw [hf.numFrames, hf'.numFrames]; exact h.room
  seated g hg := (h.seated g hg).imp fun id hid => hf.kept g hg id hid
  seated' g hg := (h.seated' g hg).imp fun id hid => hf'.kept g hg id hid
  holders id access := by
    rw [holders_follow h.seated hf hs, holders_follow h.seated' hf' hs', h.holders]
  pages := hp

/-- The same page is checked out in both. -/
theorem cons (h : Paired e f held held') {all all' : List Checkout} (hs : e.pool.Sound all)
    (hs' : f.pool.Sound all') (hc : e.pool.copyOf? id = some c)
    (hc' : f.pool.copyOf? id = some c') (access : Access) :
    Paired e f (⟨c, access⟩ :: held) (⟨c', access⟩ :: held') :=
  { h with
    seated := List.forall_mem_cons.2 ⟨⟨id, hc⟩, h.seated⟩
    seated' := List.forall_mem_cons.2 ⟨⟨id, hc'⟩, h.seated'⟩
    holders := by
      intro id' access'
      rw [holders_cons, holders_cons, h.holders]
      congr 2
      apply propext
      refine and_congr_right fun _ => ⟨fun hd => ?_, fun hd => ?_⟩
      · rw [hs'.copyOf?_inj hd hc', hc]
      · rw [hs.copyOf?_inj hd hc, hc'] }

/-- The same page is given back in both. -/
theorem tail (h : Paired e f (⟨c, access⟩ :: held) (⟨c', access⟩ :: held'))
    {all all' : List Checkout} (hs : e.pool.Sound all) (hs' : f.pool.Sound all')
    (hc : e.pool.copyOf? id = some c) (hc' : f.pool.copyOf? id = some c') :
    Paired e f held held' :=
  { h with
    seated := fun g hg => h.seated g (List.mem_cons_of_mem _ hg)
    seated' := fun g hg => h.seated' g (List.mem_cons_of_mem _ hg)
    holders := by
      intro id' access'
      have hsum := h.holders id' access'
      have hiff : f.pool.copyOf? id' = some c' ↔ e.pool.copyOf? id' = some c := by
        constructor
        · intro hd
          rw [hs'.copyOf?_inj hd hc', hc]
        · intro hd
          rw [hs.copyOf?_inj hd hc, hc']
      rw [holders_cons, holders_cons] at hsum
      simp only [hiff] at hsum
      exact Nat.add_right_cancel hsum }

end Paired

/-! ### Room -/

/-- Where the larger pool is full, every frame of the smaller one holds the same page as a frame of the
larger one. -/
theorem Twins.full (h : Twins e f held held' loose loose') (hfull : f.pool.Full) :
    e.pool.Full ∧ ∀ id, f.pool.copyOf? id = none → e.pool.copyOf? id = none := by
  rw [full_iff_rests h.large.pool] at hfull
  -- a page that keeps its frame in the larger pool has one in the smaller pool
  have hframe : ∀ i : Fin f.pool.numFrames, ∃ j : Fin e.pool.numFrames, ∃ r c,
      f.pool.seat i = some r ∧ e.pool.seat j = some ⟨r.page, c⟩ ∧ ¬ e.Rests held r.page := by
    intro i
    obtain ⟨r, hr, hbusy⟩ := hfull i i.isLt
    rw [← h.rests_iff] at hbusy
    cases hc : e.pool.copyOf? r.page with
    | none => exact absurd (rests_of_none hc) hbusy
    | some c =>
      obtain ⟨j, hj⟩ := h.small.pool.copyOf?_eq_some.1 hc
      exact ⟨⟨j, Pool.lt_numFrames_of_seat hj⟩, r, c, hr, hj, hbusy⟩
  choose j r c hr hj hbusy using hframe
  have hinj : Function.Injective j := by
    intro i i' hii
    have hpage := hj i
    rw [hii, hj i'] at hpage
    obtain ⟨hpage, -⟩ := Resident.mk.inj (Option.some.inj hpage)
    have hi : f.pool.seat i = some ⟨(r i).page, (r i).copy⟩ := hr i
    have hi' : f.pool.seat i' = some ⟨(r i).page, (r i').copy⟩ := by rw [hr i', ← hpage]
    exact Fin.ext (h.large.pool.seat_inj hi hi')
  have hcard : Fintype.card (Fin f.pool.numFrames) = Fintype.card (Fin e.pool.numFrames) := by
    apply Nat.le_antisymm (Fintype.card_le_of_injective j hinj)
    rw [Fintype.card_fin, Fintype.card_fin]
    exact h.room
  have hsurj := ((Fintype.bijective_iff_injective_and_card j).2 ⟨hinj, hcard⟩).surjective
  constructor
  · rw [full_iff_rests h.small.pool]
    intro k hk
    obtain ⟨i, hi⟩ := hsurj ⟨k, hk⟩
    have hseat := hj i
    rw [hi] at hseat
    exact ⟨⟨(r i).page, c i⟩, hseat, hbusy i⟩
  · intro id hid
    cases hc : e.pool.copyOf? id with
    | none => rfl
    | some d =>
      obtain ⟨k, hk⟩ := h.small.pool.copyOf?_eq_some.1 hc
      obtain ⟨i, hi⟩ := hsurj ⟨k, Pool.lt_numFrames_of_seat hk⟩
      have hseat := hj i
      rw [hi] at hseat
      rw [hk] at hseat
      obtain ⟨rfl, -⟩ := Resident.mk.inj (Option.some.inj hseat)
      rw [h.large.pool.copyOf?_eq_some.2 ⟨i, hr i⟩] at hid
      cases hid

/-! ### Moving on -/

/-- The same page has changed in the same way. -/
theorem SamePages.changed (h : SamePages e f) (hch : Changed held id p e e')
    (hch' : Changed held' id q f f') (ha : p.Alike q) : SamePages e' f' := by
  intro id'
  by_cases hne : id' = id
  · rw [hne, hch.now, hch'.now]
    exact .some ha
  · exact rel_trans (rel_symm (hch.others id' hne)) (rel_trans (h id') (hch'.others id' hne))

theorem Abreast.refl (h : Twins e f held held' loose loose') :
    Abreast held held' loose loose' e f e f :=
  ⟨h, .refl held e, .refl held' f⟩

theorem Abreast.trans (h : Abreast held held' loose loose' e f e' f')
    (h' : Abreast held held' loose loose' e' f' e'' f'') :
    Abreast held held' loose loose' e f e'' f'' :=
  ⟨h'.twins, h.small.trans h'.small, h.large.trans h'.large⟩

/-- What was in hand before the two engines were twins again still is. -/
theorem Abreast.after (h : Abreast held held' loose loose' e' f' e'' f'') (hf : Follows held e e')
    (hf' : Follows held' f f') : Abreast held held' loose loose' e f e'' f'' :=
  ⟨h.twins, hf.trans h.small, hf'.trans h.large⟩

namespace Paired

theorem abreast (h : Paired e f held held') (hc : e'.Coherent held loose)
    (hc' : f'.Coherent held' loose') (hf : Follows held e e') (hf' : Follows held' f f')
    (hp : SamePages e' f') (hd : f'.disk = e'.disk) :
    Abreast held held' loose loose' e f e' f' :=
  ⟨⟨h.follow hf hf' hd hp hc.pool hc'.pool, hc, hc'⟩, hf, hf'⟩

theorem unchanged (h : Paired e f held held') (hc : e'.Coherent held loose)
    (hc' : f'.Coherent held' loose') (hun : Unchanged held e e') (hun' : Unchanged held' f f')
    (hd : f'.disk = e'.disk) : Abreast held held' loose loose' e f e' f' :=
  h.abreast hc hc' hun.toFollows hun'.toFollows
    (hun.pages.symm.trans (h.pages.trans hun'.pages)) hd

/-- A page is changed in the same way in both, under a checkout that stays in hand. -/
theorem setPage (h : Paired e f held held') (hs : e.Coherent held loose)
    (hs' : f.Coherent held' loose') (ho : Opposite e f id c c' p q) {p' q' : Page}
    (ha : p'.Alike q') : Paired (e.setPage c p') (f.setPage c' q') held held' :=
  { h with
    pages := by
      have hch : Changed [] id p' e (e.setPage c p') :=
        hs.changed_setPage ho.small ho.page fun _ hg => by cases hg
      have hch' : Changed [] id q' f (f.setPage c' q') :=
        hs'.changed_setPage ho.large ho.page' fun _ hg => by cases hg
      exact h.pages.changed hch hch' ha }

end Paired

namespace Twins

theorem alike (h : Twins e f held held' loose loose') (ho : Opposite e f id c c' p q) :
    p.Alike q ∧ p.Sound ∧ q.Sound := by
  have hl := logical_of_page? ho.small ho.page
  have hl' := logical_of_page? ho.large ho.page'
  have hrel := h.pages id
  rw [hl, hl'] at hrel
  cases hrel with
  | some ha => exact ⟨ha, (h.small.logical_sound hl).1, (h.large.logical_sound hl').1⟩

/-- A request fails for want of room in the smaller pool, or it comes to the same in both. -/
theorem getPage (h : Twins e f held held' loose loose') (id : PageId) (access : Access) :
    (∃ e', e.getPage id access = (.error .poolFull, e')) ∨
    (∃ err e' f', e.getPage id access = (.error err, e') ∧ f.getPage id access = (.error err, f') ∧
      Abreast held held' loose loose' e f e' f') ∨
    (∃ c c' p q e' f', e.getPage id access = (.ok ⟨c, access⟩, e') ∧
      f.getPage id access = (.ok ⟨c', access⟩, f') ∧
      Twins e' f' (⟨c, access⟩ :: held) (⟨c', access⟩ :: held') loose loose' ∧
      Follows held e e' ∧ Follows held' f f' ∧ ¬ loose c ∧ ¬ loose' c' ∧
      Opposite e' f' id c c' p q) := by
  obtain ⟨r, e', heq, hd, hun, hgot⟩ := h.small.getPage_cases id access
  obtain ⟨r', f', heq', hd', hun', hgot'⟩ := h.large.getPage_cases id access
  rw [heq, heq']
  have hdisk : f'.disk = e'.disk := by rw [hd', hd, h.disk]
  have hread : e'.read id = e.read id := read_congr hun.tables hd
  have hread' : f'.read id = e.read id := by rw [read_congr hun'.tables hd', h.read_eq]
  cases hgot with
  | unread hc hr hcoh =>
    cases hgot' with
    | unread hc' hr' hcoh' =>
      rw [h.read_eq, hr] at hr'
      cases hr'
      exact .inr (.inl ⟨_, _, _, rfl, rfl, h.unchanged hcoh hcoh' hun hun' hdisk⟩)
    | full hc' hr' hfull' hcoh' =>
      rw [h.read_eq, hr] at hr'
      cases hr'
    | locked hc' hn' hcoh' =>
      obtain ⟨p, hp⟩ := h.large.read_of_copyOf? hc'
      rw [h.read_eq, hr] at hp
      cases hp
    | out hroom' hsame' hcompat' hcoh' hc' hp' =>
      obtain ⟨p, hp⟩ := hcoh'.read_of_copyOf? hc'
      rw [hread', hr] at hp
      cases hp
  | full hc hr hfull hcoh => exact .inl ⟨_, rfl⟩
  | locked hc hn hcoh =>
    rw [← Engine.admits_iff hc, h.toPaired.admits_iff] at hn
    cases hgot' with
    | unread hc' hr' hcoh' => exact absurd (admits_of_none hc' access) hn
    | full hc' hr' hfull' hcoh' => exact absurd (admits_of_none hc' access) hn
    | locked hc' hn' hcoh' =>
      exact .inr (.inl ⟨_, _, _, rfl, rfl, h.unchanged hcoh hcoh' hun hun' hdisk⟩)
    | @out c' _ _ hroom' hsame' hcompat' hcoh' hc' hp' =>
      exact absurd (admits_of_compatible hsame' hcompat') hn
  | @out c p _ hroom hsame hcompat hcoh hc hp =>
    have hadmits : f.Admits held' id access := by
      rw [← h.toPaired.admits_iff]
      exact admits_of_compatible hsame hcompat
    cases hgot' with
    | unread hc' hr' hcoh' =>
      obtain ⟨p, hp⟩ := hcoh.read_of_copyOf? hc
      rw [hread, ← h.read_eq, hr'] at hp
      cases hp
    | full hc' hr' hfull' hcoh' =>
      obtain ⟨hfull, hnone⟩ := h.full hfull'
      exact absurd hfull (hroom (hnone id hc'))
    | locked hc' hn' hcoh' => exact absurd ((Engine.admits_iff hc' access).1 hadmits) hn'
    | @out c' q _ hroom' hsame' hcompat' hcoh' hc' hp' =>
      have hpaired := h.follow hun.toFollows hun'.toFollows hdisk
        (hun.pages.symm.trans (h.pages.trans hun'.pages)) hcoh.pool hcoh'.pool
      refine .inr (.inr ⟨c, c', p, q, e', f', rfl, rfl, ⟨?_, hcoh, hcoh'⟩, hun.toFollows,
        hun'.toFollows, h.small.not_loose hcompat, h.large.not_loose hcompat', ⟨hc, hc', hp, hp'⟩⟩)
      exact hpaired.cons hcoh.pool hcoh'.pool hc hc' access

/-- The same page is given back. -/
theorem release (h : Twins e f (⟨c, access⟩ :: held) (⟨c', access⟩ :: held') loose loose')
    (hc : e.pool.copyOf? id = some c) (hc' : f.pool.copyOf? id = some c')
    (hl : access = .exclusive → ¬ loose c) (hl' : access = .exclusive → ¬ loose' c') :
    Abreast held held' loose loose' e f (e.release ⟨c, access⟩) (f.release ⟨c', access⟩) := by
  obtain ⟨hcoh, hun⟩ := h.small.release hl
  obtain ⟨hcoh', hun'⟩ := h.large.release hl'
  exact (h.tail h.small.pool h.large.pool hc hc').unchanged hcoh hcoh' hun hun' h.disk

end Twins

end Engine

end HeapStore
