import Mathlib.Data.List.Forall2
import HeapStore.Proofs.GuardedChanges
import HeapStore.Proofs.TwinFlush
import HeapStore.Proofs.TwinScan

/-! Two sessions over engines that are twins, with the same pages and scans in hand. An action fails
for want of room in the smaller pool, or it has the same answer in both and leaves them as alike as
they were. -/

namespace HeapStore

open Engine (Follows Abreast)
open List (Forall₂)

/-! ### Lists that correspond -/

section Lists

variable {α β : Type} {R : α → β → Prop} {l : List α} {l' : List β}

theorem forall₂_getElem? (h : Forall₂ R l l') (i : Nat) :
    (l[i]? = none ∧ l'[i]? = none) ∨ ∃ a b, l[i]? = some a ∧ l'[i]? = some b ∧ R a b := by
  induction h generalizing i with
  | nil => exact .inl ⟨rfl, rfl⟩
  | @cons a b _ _ hr _ ih =>
    cases i with
    | zero => exact .inr ⟨a, b, rfl, rfl, hr⟩
    | succ i => exact ih i

theorem forall₂_eraseIdx (h : Forall₂ R l l') (i : Nat) : Forall₂ R (l.eraseIdx i) (l'.eraseIdx i) := by
  induction h generalizing i with
  | nil => exact .nil
  | cons hr h ih =>
    cases i with
    | zero => exact h
    | succ i => exact .cons hr (ih i)

theorem forall₂_set (h : Forall₂ R l l') (i : Nat) {a : α} {b : β} (hab : R a b) :
    Forall₂ R (l.set i a) (l'.set i b) := by
  induction h generalizing i with
  | nil => exact .nil
  | cons hr h ih =>
    cases i with
    | zero => exact .cons hab h
    | succ i => exact .cons hr (ih i)

end Lists

/-! ### What is alike -/

/-- Answers that differ at most in the field names of a tuple. -/
inductive Answer.Alike : Answer → Answer → Prop
  | same (a : Answer) : Alike a a
  | tuple {t u : Option Tuple} : Option.Rel Tuple.Alike t u → Alike (.tuple t) (.tuple u)

/-- Two checkouts of the same page, of the same kind. -/
structure Guard.Alike (e f : Engine) (g g' : Guard) : Prop where
  unmarked : g'.unmarked = g.unmarked
  access : g'.checkout.access = g.checkout.access
  page : ∃ id, e.pool.copyOf? id = some g.checkout.copy ∧ f.pool.copyOf? id = some g'.checkout.copy

structure Session.Twins (s u : Session) : Prop where
  small : s.Sound
  large : u.Sound
  paired : Engine.Paired s.engine u.engine s.held u.held
  guards : Forall₂ (Guard.Alike s.engine u.engine) s.guards u.guards
  scans : Forall₂ Scan.Alike s.scans u.scans
  fits : ∀ sc ∈ s.scans, sc.Fits s.engine
  fits' : ∀ sc ∈ u.scans, sc.Fits u.engine

theorem Agree.refl {r : Except Error Answer} : Agree Answer.Alike r r := by
  cases r with
  | error err => exact .failed err
  | ok a => exact .ok (.same a)

theorem Engine.Paired.perm {e f : Engine} {held held' l l' : List Checkout}
    (h : Paired e f held held') (hp : held.Perm l) (hp' : held'.Perm l') : Paired e f l l' :=
  { h with
    seated := fun g hg => h.seated g (hp.symm.subset hg)
    seated' := fun g hg => h.seated' g (hp'.symm.subset hg)
    holders := by
      intro id access
      have hh := h.holders id access
      unfold Engine.holders at hh ⊢
      rw [← hp.countP_eq, ← hp'.countP_eq]
      exact hh }

/-- The checkouts in hand stay on their pages. -/
theorem Guard.Alike.follow {e e' f f' : Engine} {l l' : List Checkout} {gs gs' : List Guard}
    (h : Forall₂ (Guard.Alike e f) gs gs') (hf : Follows (gs.map (·.checkout) ++ l) e e')
    (hf' : Follows (gs'.map (·.checkout) ++ l') f f') : Forall₂ (Guard.Alike e' f') gs gs' := by
  induction h with
  | nil => exact .nil
  | @cons g g' gs gs' hg _ ih =>
    obtain ⟨id, hc, hc'⟩ := hg.page
    have hrest := ih (hf.mono fun _ => List.mem_cons_of_mem _) (hf'.mono fun _ => List.mem_cons_of_mem _)
    refine .cons ⟨hg.unmarked, hg.access, id, ?_, ?_⟩ hrest
    · exact hf.kept _ List.mem_cons_self id hc
    · exact hf'.kept _ List.mem_cons_self id hc'

/-- The checkouts of the scans stay on their pages. -/
theorem Scan.Fits.follow {e e' : Engine} {gs : List Checkout} {scs : List Scan}
    (h : ∀ sc ∈ scs, sc.Fits e) (hf : Follows (gs ++ scs.flatMap Scan.checkouts) e e') :
    ∀ sc ∈ scs, sc.Fits e' := by
  intro sc hsc c hc
  refine (h sc hsc c hc).of_follows (hf.mono fun g hg => ?_)
  have hg : g ∈ sc.checkouts := by
    unfold Scan.checkouts
    rw [hc]
    exact hg
  exact List.mem_append_right _ (List.mem_flatMap.2 ⟨sc, hsc, hg⟩)

theorem Engine.Twins.call {e f : Engine} {held held' : List Checkout} {loose loose' : Nat → Prop}
    {s s' : Scan} (h : Twins e f (s.checkouts ++ held) (s'.checkouts ++ held') loose loose')
    (ha : s.Alike s') (hr : s.Reads) (hr' : s'.Reads) (hf : s.Fits e) (hf' : s'.Fits f)
    (call : ScanCall) : (∃ s1 e', s.call e call = (.error .poolFull, s1, e')) ∨
    ∃ r s1 e' r' s1' f', s.call e call = (r, s1, e') ∧ s'.call f call = (r', s1', f') ∧
      Agree Answer.Alike r r' ∧ s1.Alike s1' ∧
      Twins e' f' (s1.checkouts ++ held) (s1'.checkouts ++ held') loose loose' := by
  cases call with
  | start =>
    right
    obtain ⟨t, cursor⟩ := s
    obtain ⟨t', cursor'⟩ := s'
    obtain ⟨rfl, hc⟩ := ha
    cases hc with
    | none => exact ⟨_, _, _, _, _, _, rfl, rfl, .refl, ⟨rfl, .some (.refl _)⟩, h⟩
    | some hc => exact ⟨_, _, _, _, _, _, rfl, rfl, .refl, ⟨rfl, .some hc⟩, h⟩
  | hasNext =>
    unfold Scan.call
    rcases h.hasNext ha hr hr' hf hf' with ⟨s1, e', he⟩ | ⟨r, s1, e', s1', f', he, he', ha1, h1⟩
    · rw [he]
      exact .inl ⟨_, _, rfl⟩
    · rw [he, he']
      exact .inr ⟨_, _, _, _, _, _, rfl, rfl, .refl, ha1, h1⟩
  | next =>
    unfold Scan.call
    rcases h.next ha hr hr' hf hf' with ⟨s1, e', he⟩ |
      ⟨r, s1, e', r', s1', f', he, he', hag, ha1, h1⟩
    · rw [he]
      exact .inl ⟨_, _, rfl⟩
    · rw [he, he']
      exact .inr ⟨_, _, _, _, _, _, rfl, rfl, hag.map fun _ _ => .tuple, ha1, h1⟩
  | rewind =>
    right
    have hreleased := h.releaseHeld ha hr hr' hf hf'
    obtain ⟨t, cursor⟩ := s
    obtain ⟨t', cursor'⟩ := s'
    obtain ⟨rfl, hc⟩ := ha
    cases hc with
    | none => exact ⟨_, _, _, _, _, _, rfl, rfl, .refl, ⟨rfl, .none⟩, h⟩
    | some hc => exact ⟨_, _, _, _, _, _, rfl, rfl, .refl, ⟨rfl, .some (.refl _)⟩, hreleased⟩
  | close =>
    exact .inr ⟨_, _, _, _, _, _, rfl, rfl, .refl, ⟨ha.table, .none⟩,
      h.releaseHeld ha hr hr' hf hf'⟩

namespace Session

variable {s u : Session} {e f : Engine}

/-- One scan has moved on, and the others stay where they were. -/
theorem fits_set {i : Nat} {gs : List Checkout} {sc sc' : Scan} {l : List Scan} (hi : l[i]? = some sc)
    (h : ∀ x ∈ l, x.Fits e) (hf : Follows (gs ++ (l.eraseIdx i).flatMap Scan.checkouts) e f)
    (hsc : sc'.Fits f) : ∀ x ∈ l.set i sc', x.Fits f := by
  obtain ⟨hlt, -⟩ := List.getElem?_eq_some_iff.1 hi
  have hrest := Scan.Fits.follow (fun x hx => h x (List.mem_of_mem_eraseIdx hx)) hf
  intro x hx
  rcases List.mem_cons.1 ((List.set_perm_cons_eraseIdx hlt sc').subset hx) with rfl | hx
  · exact hsc
  · exact hrest x hx

namespace Twins

theorem engines (h : s.Twins u) :
    Engine.Twins s.engine u.engine s.held u.held s.Loose u.Loose :=
  ⟨h.paired, h.small.coherent, h.large.coherent⟩

/-- Only the engines have moved on. -/
theorem withEngines (h : s.Twins u)
    (hab : Abreast s.held u.held s.Loose u.Loose s.engine u.engine e f) :
    Twins { s with engine := e } { u with engine := f } where
  small := h.small.withEngine hab.twins.small hab.small
  large := h.large.withEngine hab.twins.large hab.large
  paired := hab.twins.toPaired
  guards := Guard.Alike.follow h.guards hab.small hab.large
  scans := h.scans
  fits := Scan.Fits.follow h.fits hab.small
  fits' := Scan.Fits.follow h.fits' hab.large

/-- What an action comes to in both sessions, unless the smaller pool has no room for it. -/
def Goes (s u : Session) (a : Action) : Prop :=
  (s.step a).1 = .error .poolFull ∨
    Agree Answer.Alike (s.step a).1 (u.step a).1 ∧ (s.step a).2.Twins (u.step a).2

/-- An action that is a call to the engine and nothing more. -/
theorem goes {α : Type} (h : s.Twins u) {a : Action} {x y : Except Error α × Engine}
    {k : α → Answer} (hs : s.step a = s.onEngine (x.1.map k, x.2))
    (hu : u.step a = u.onEngine (y.1.map k, y.2))
    (hxy : (∃ e, x = (.error .poolFull, e)) ∨ ∃ r e f, x = (r, e) ∧ y = (r, f) ∧
      Abreast s.held u.held s.Loose u.Loose s.engine u.engine e f) : Goes s u a := by
  rcases hxy with ⟨e, rfl⟩ | ⟨r, e, f, rfl, rfl, hab⟩
  · left
    rw [hs]
    rfl
  · right
    rw [hs, hu]
    exact ⟨.refl, h.withEngines hab⟩

theorem get (h : s.Twins u) (id : PageId) (access : Access) : Goes s u (.get id access) := by
  rcases h.engines.getPage id access with ⟨e1, he⟩ | ⟨err, e1, f1, he, hf, hab⟩ |
    ⟨c, c', p, q, e1, f1, he, hf, h1, hfol, hfol', hl, hl', ho⟩
  · left
    simp only [step, he]
  · right
    simp only [step, he, hf]
    exact ⟨.refl, h.withEngines hab⟩
  · right
    have hsound := (h.small.get_step id access).sound
    have hsound' := (h.large.get_step id access).sound
    simp only [step, he, hf] at hsound hsound' ⊢
    refine ⟨.refl, hsound, hsound', h1.toPaired, ?_, h.scans, Scan.Fits.follow h.fits hfol,
      Scan.Fits.follow h.fits' hfol'⟩
    exact .cons ⟨rfl, rfl, id, ho.small, ho.large⟩ (Guard.Alike.follow h.guards hfol hfol')

theorem release (h : s.Twins u) (i : Nat) (hr : s.ReleasesMarked (.release i)) :
    Goes s u (.release i) := by
  rcases forall₂_getElem? h.guards i with ⟨hg, hg'⟩ | ⟨g, g', hg, hg', halike⟩
  · right
    simp only [step, hg, hg']
    exact ⟨.refl, h⟩
  · right
    have hm : g.unmarked = false := hr i rfl g hg
    have hm' : g'.unmarked = false := halike.unmarked.trans hm
    have hr' : u.ReleasesMarked (.release i) := by
      rintro j ⟨⟩ x hx
      rw [hg'] at hx
      cases hx
      exact hm'
    have hsound := (h.small.release_step i hr).sound
    have hsound' := (h.large.release_step i hr').sound
    obtain ⟨id, hc, hc'⟩ := halike.page
    have haccess : g'.checkout = ⟨g'.checkout.copy, g.checkout.access⟩ := by rw [← halike.access]
    have htwins : Engine.Twins s.engine u.engine _ _ s.Loose u.Loose :=
      ⟨h.paired.perm (held_perm_guard hg) (held_perm_guard hg'),
        h.small.coherent.perm (held_perm_guard hg), h.large.coherent.perm (held_perm_guard hg')⟩
    rw [haccess] at htwins
    have hab := htwins.release hc hc' (h.small.not_loose hg hm) fun hx =>
      h.large.not_loose hg' hm' (halike.access.trans hx)
    simp only [step, hg, hg'] at hsound hsound' ⊢
    rw [← haccess] at hab
    refine ⟨.refl, hsound, hsound', hab.twins.toPaired, ?_, h.scans, ?_, ?_⟩
    · exact Guard.Alike.follow (forall₂_eraseIdx h.guards i) hab.small hab.large
    · exact Scan.Fits.follow h.fits hab.small
    · exact Scan.Fits.follow h.fits' hab.large

theorem change (h : s.Twins u) (i : Nat) {unmarked : Bool} {F : Page → Except Error Answer × Page}
    (hF : Page.Change unmarked F) {a : Action} (hs : s.step a = s.change i unmarked F)
    (hu : u.step a = u.change i unmarked F) : Goes s u a := by
  right
  rw [hs, hu]
  rcases forall₂_getElem? h.guards i with ⟨hg, hg'⟩ | ⟨g, g', hg, hg', halike⟩
  · unfold Session.change
    rw [hg, hg']
    exact ⟨.refl, h⟩
  · obtain ⟨p, hp⟩ := h.small.exists_page hg
    obtain ⟨q, hq⟩ := h.large.exists_page hg'
    obtain ⟨id, hc, hc'⟩ := halike.page
    obtain ⟨ha, hps, hqs⟩ := h.engines.alike ⟨hc, hc', hp, hq⟩
    cases hx : g.checkout.access with
    | shared =>
      rw [change_shared hg hx hp, change_shared hg' (halike.access.trans hx) hq, ha.id]
      exact ⟨.refl, h⟩
    | exclusive =>
      have hx' := halike.access.trans hx
      obtain ⟨hans, ha'⟩ := hF.alike p q ha hps hqs
      rw [change_exclusive hg hx hp, change_exclusive hg' hx' hq, ← hans]
      cases hr : (F p).1 with
      | error err =>
        -- the pages are written over themselves
        rw [hF.fails p err hr, hF.fails q err (hans ▸ hr)]
        obtain ⟨hcoh, hun⟩ := h.small.coherent.setPage_self hc hp
        obtain ⟨hcoh', hun'⟩ := h.large.coherent.setPage_self hc' hq
        exact ⟨.refl, h.withEngines (h.paired.unchanged hcoh hcoh' hun hun' h.paired.disk)⟩
      | ok a =>
        have hfol : Follows _ s.engine (s.engine.setPage g.checkout.copy (F p).2) :=
          (h.small.coherent.changed_setPage hc hp (h.small.alone hg hx)).toFollows
        have hfol' : Follows _ u.engine (u.engine.setPage g'.checkout.copy (F q).2) :=
          (h.large.coherent.changed_setPage hc' hq (h.large.alone hg' hx')).toFollows
        refine ⟨.refl, h.small.changed hg hx hp hF, h.large.changed hg' hx' hq hF, ?_, ?_, h.scans,
          Scan.Fits.follow h.fits hfol, Scan.Fits.follow h.fits' hfol'⟩
        · unfold Session.changed
          rw [held_set hg, held_set hg']
          exact h.paired.setPage h.small.coherent h.large.coherent ⟨hc, hc', hp, hq⟩ ha'
        · -- the copies of the pages are where they were
          have hguards : Forall₂ (Guard.Alike (s.engine.setPage g.checkout.copy (F p).2)
              (u.engine.setPage g'.checkout.copy (F q).2)) s.guards u.guards :=
            h.guards.imp fun _ _ hx => ⟨hx.unmarked, hx.access, hx.page⟩
          have hnew : Guard.Alike (s.engine.setPage g.checkout.copy (F p).2)
              (u.engine.setPage g'.checkout.copy (F q).2) ⟨g.checkout, unmarked⟩
              ⟨g'.checkout, unmarked⟩ := ⟨rfl, halike.access, halike.page⟩
          exact forall₂_set hguards i hnew

theorem newScan (h : s.Twins u) (table : Nat) : Goes s u (.newScan table) := by
  right
  have hsound := (h.small.newScan_step table).sound
  have hsound' := (h.large.newScan_step table).sound
  simp only [step, h.paired.table_eq] at hsound hsound' ⊢
  cases htbl : s.engine.pool.table table with
  | error err => exact ⟨.refl, h⟩
  | ok tbl =>
    rw [htbl] at hsound hsound'
    have hheld (s : Session) : held { s with scans := s.scans ++ [Scan.ofTable tbl] } = s.held := by
      simp [held, Scan.checkouts, Scan.ofTable]
    refine ⟨.refl, hsound, hsound', ?_, h.guards, ?_, fun sc hsc => ?_, fun sc hsc => ?_⟩
    · rw [hheld, hheld]
      exact h.paired
    · exact List.rel_append h.scans (.cons ⟨rfl, .none⟩ .nil)
    · rcases List.mem_append.1 hsc with hsc | hsc
      · exact h.fits sc hsc
      · obtain rfl := List.mem_singleton.1 hsc
        rintro c ⟨⟩
    · rcases List.mem_append.1 hsc with hsc | hsc
      · exact h.fits' sc hsc
      · obtain rfl := List.mem_singleton.1 hsc
        rintro c ⟨⟩

theorem scan (h : s.Twins u) (i : Nat) (call : ScanCall) : Goes s u (.scan i call) := by
  rcases forall₂_getElem? h.scans i with ⟨hsc, hsc'⟩ | ⟨sc, sc', hsc, hsc', halike⟩
  · right
    simp only [step, hsc, hsc']
    exact ⟨.refl, h⟩
  · have hmem := List.mem_of_getElem? hsc
    have hmem' := List.mem_of_getElem? hsc'
    have hcoh := h.small.coherent.perm (held_perm_scan hsc)
    have hcoh' := h.large.coherent.perm (held_perm_scan hsc')
    have htwins : Engine.Twins s.engine u.engine _ _ s.Loose u.Loose :=
      ⟨h.paired.perm (held_perm_scan hsc) (held_perm_scan hsc'), hcoh, hcoh'⟩
    have hmoved := Scan.call_moved hcoh (h.small.reads sc hmem) call
    have hmoved' := Scan.call_moved hcoh' (h.large.reads sc' hmem') call
    have hsound := (h.small.scan_step i call).sound
    have hsound' := (h.large.scan_step i call).sound
    rcases htwins.call halike (h.small.reads sc hmem) (h.large.reads sc' hmem') (h.fits sc hmem)
      (h.fits' sc' hmem') call with ⟨s1, e1, he⟩ | ⟨r, s1, e1, r', s1', f1, he, hf, hag, ha1, h1⟩
    · left
      simp only [step, hsc, he]
    · right
      rw [he] at hmoved
      rw [hf] at hmoved'
      simp only [step, hsc, hsc', he, hf] at hsound hsound' ⊢
      have hfol := hmoved.unchanged.toFollows
      have hfol' := hmoved'.unchanged.toFollows
      refine ⟨hag, hsound, hsound', ?_, ?_, forall₂_set h.scans i ha1, ?_, ?_⟩
      · exact h1.perm (held_perm_setScan hsc e1 s1).symm (held_perm_setScan hsc' f1 s1').symm
      · exact Guard.Alike.follow h.guards hfol hfol'
      · exact fits_set hsc h.fits hfol (hmoved.fits (h.fits sc hmem))
      · exact fits_set hsc' h.fits' hfol' (hmoved'.fits (h.fits' sc' hmem'))

theorem insert (h : s.Twins u) (table : Nat) (txn : TxnId) (t : Tuple)
    (hs : s.StaysSmall (.insert table txn t)) : Goes s u (.insert table txn t) := by
  let x := ((s.engine.insert table txn t).1, (s.engine.insert table txn t).2.2)
  let y := ((u.engine.insert table txn t).1, (u.engine.insert table txn t).2.2)
  refine h.goes (x := x) (y := y) rfl rfl ?_
  rcases h.engines.insert table txn t hs with ⟨t', e1, he⟩ | ⟨r, t', e1, f1, he, hf, hab⟩
  · left
    exact ⟨e1, by simp only [x, he]⟩
  · right
    exact ⟨r, e1, f1, by simp only [x, he], by simp only [y, hf], hab⟩

theorem delete (h : s.Twins u) (txn : TxnId) (t : Tuple) : Goes s u (.delete txn t) :=
  h.goes rfl rfl (h.engines.delete txn t)

theorem deleteFrom (h : s.Twins u) (table : Nat) (txn : TxnId) (t : Tuple) :
    Goes s u (.deleteFrom table txn t) := by
  cases htbl : s.engine.pool.table table with
  | error err =>
    right
    simp only [step, h.paired.table_eq, htbl]
    exact ⟨.refl, h⟩
  | ok tbl =>
    have hs : s.step (.deleteFrom table txn t) =
        s.onEngine ((s.engine.deleteTuple tbl txn t).1.map .page,
          (s.engine.deleteTuple tbl txn t).2) := by
      simp only [step, htbl]
    have hu : u.step (.deleteFrom table txn t) =
        u.onEngine ((u.engine.deleteTuple tbl txn t).1.map .page,
          (u.engine.deleteTuple tbl txn t).2) := by
      simp only [step, h.paired.table_eq, htbl]
    exact h.goes hs hu (h.engines.deleteTuple tbl txn t)

theorem flushPage (h : s.Twins u) (id : PageId) : Goes s u (.flushPage id) :=
  h.goes rfl rfl (.inr (h.engines.flushAt id none))

theorem flushAll (h : s.Twins u) : Goes s u .flushAll :=
  h.goes rfl rfl (.inr (h.engines.flushResidents none))

theorem flushTxn (h : s.Twins u) (txn : TxnId) : Goes s u (.flushTxn txn) :=
  h.goes rfl rfl (.inr (h.engines.flushResidents (some txn)))

theorem dirtiedBy (h : s.Twins u) (id : PageId) : Goes s u (.dirtiedBy id) := by
  right
  simp only [step, h.paired.dirtiedBy_eq]
  exact ⟨.refl, h⟩

end Twins

end Session

end HeapStore
