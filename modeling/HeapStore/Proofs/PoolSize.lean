import HeapStore.Proofs.TwinSessions

/-! The size of a pool does not show. A run that a pool of some size has room for goes the same on every
larger pool, though other pages are resident and other pages give way: the answers are the same, the
checkouts show the same pages, and the files hold the same bytes after every action. -/

namespace HeapStore

open List (Forall₂)

/-- No page is put in or dropped from outside. -/
def Action.isOrdinary : Action → Bool
  | .adopt .. | .discard .. => false
  | _ => true

/-- What can be told of a page: its tuples but for the field names of their schemas, the transaction it
is dirty by, and its before-image. -/
structure Page.Shows (p q : Page) : Prop where
  tuple? : ∀ i, Option.Rel Tuple.Alike (p.tuple? i) (q.tuple? i)
  dirtiedBy : q.dirtiedBy = p.dirtiedBy
  before : q.beforeBytes = p.beforeBytes

namespace Pool

theorem tables_ofTables (n m : Nat) (ts : List Table) :
    (ofTables m ts).tables = (ofTables n ts).tables := by
  have general : ∀ (p q : Pool), q.tables = p.tables →
      (ts.foldl register q).tables = (ts.foldl register p).tables := by
    induction ts with
    | nil => exact fun _ _ h => h
    | cons t ts ih =>
      intro p q h
      apply ih
      unfold register
      rw [h]
  exact general _ _ rfl

theorem numFrames_ofTables (n : Nat) (ts : List Table) : (ofTables n ts).numFrames = n := by
  have general : ∀ p : Pool, (ts.foldl register p).numFrames = p.numFrames := by
    induction ts with
    | nil => exact fun _ => rfl
    | cons t ts ih => exact fun p => ih (p.register t)
  exact (general _).trans (by simp [numFrames, ofFrames])

end Pool

namespace Session

variable {s u : Session}

/-- An action that is ordinary, gives no unmarked page back, and leaves the tables small. -/
def Ordinary (s : Session) (a : Action) : Prop :=
  a.isOrdinary = true ∧ s.ReleasesMarked a ∧ s.StaysSmall a

/-- The files are the same, and so is what the checkouts in hand show. -/
structure LooksLike (s u : Session) : Prop where
  disk : u.engine.disk = s.engine.disk
  guards : Forall₂ (fun g g' => g'.checkout.access = g.checkout.access ∧
    ∃ p q, s.engine.pageAt? g.checkout = some p ∧ u.engine.pageAt? g'.checkout = some q ∧
      p.Shows q) s.guards u.guards

instance (s : Session) (a : Action) : Decidable (s.ReleasesMarked a) :=
  decidable_of_iff (∀ i ∈ (match a with | .release i => some i | _ => none : Option Nat),
      ∀ g ∈ s.guards[i]?, g.unmarked = false) <| by
    constructor
    · rintro h i rfl g hg
      exact h i rfl g hg
    · intro h i hi g hg
      cases a <;> cases hi
      exact h _ rfl g hg

instance (s : Session) (a : Action) : Decidable (s.Ordinary a) :=
  inferInstanceAs (Decidable (_ ∧ _ ∧ _))

theorem answers_append (s : Session) (as bs : List Action) :
    s.answers (as ++ bs) = s.answers as ++ (s.after as).answers bs := by
  induction as generalizing s with
  | nil => rfl
  | cons a as ih => rw [List.cons_append, answers, answers, ih, after_cons, List.cons_append]

namespace Twins

theorem step (h : s.Twins u) {a : Action} (ha : s.Ordinary a) : Goes s u a := by
  obtain ⟨hord, hrel, hsmall⟩ := ha
  cases a with
  | get id access => exact h.get id access
  | release i => exact h.release i hrel
  | pageInsert i t => exact h.change i (.insert t) rfl rfl
  | pageDelete i t => exact h.change i (.delete t) rfl rfl
  | mark i txn => exact h.change i (.mark txn) rfl rfl
  | insert table txn t => exact h.insert table txn t hsmall
  | delete txn t => exact h.delete txn t
  | deleteFrom table txn t => exact h.deleteFrom table txn t
  | adopt | discard => cases hord
  | flushPage id => exact h.flushPage id
  | flushAll => exact h.flushAll
  | flushTxn txn => exact h.flushTxn txn
  | dirtiedBy id => exact h.dirtiedBy id
  | newScan table => exact h.newScan table
  | scan i call => exact h.scan i call

theorem run (h : s.Twins u) {as : List Action} (hok : s.Along Ordinary as)
    (hroom : .error .poolFull ∉ s.answers as) :
    Forall₂ (Agree Answer.Alike) (s.answers as) (u.answers as) ∧ (s.after as).Twins (u.after as) := by
  induction as generalizing s u with
  | nil => exact ⟨.nil, h⟩
  | cons a as ih =>
    obtain ⟨ha, has⟩ := hok
    rw [answers, List.mem_cons, not_or] at hroom
    rcases h.step ha with hfull | ⟨hag, h1⟩
    · exact absurd hfull.symm hroom.1
    · obtain ⟨hans, h2⟩ := ih h1 has hroom.2
      exact ⟨.cons hag hans, h2⟩

theorem looksLike (h : s.Twins u) : s.LooksLike u := by
  refine ⟨h.paired.disk, h.guards.imp fun g g' hg => ⟨hg.access, ?_⟩⟩
  obtain ⟨id, hc, hc'⟩ := hg.page
  obtain ⟨p, hp⟩ := h.small.coherent.exists_page hc
  obtain ⟨q, hq⟩ := h.large.coherent.exists_page hc'
  obtain ⟨ha, hps, hqs⟩ := h.engines.alike ⟨hc, hc', hp, hq⟩
  exact ⟨p, q, hp, hq, ha.tuple? hps hqs, ha.dirtiedBy.symm, ha.before.symm⟩

end Twins

/-- With no page resident, two pools show what the files have. -/
theorem start_twins {d : Disk} {n m : Nat} (hnm : n ≤ m) {ts : List Table}
    (h : ∀ t ∈ ts, t.Stands d ∧ t.Small d) : (start d n ts).Twins (start d m ts) := by
  have htables := Pool.tables_ofTables n m ts
  refine ⟨start_sound n h, start_sound m h, ⟨htables, rfl, ?_, ?_, ?_, fun _ _ => rfl, fun id => ?_⟩,
    .nil, .nil, ?_, ?_⟩
  · change (Pool.ofTables n ts).numFrames ≤ (Pool.ofTables m ts).numFrames
    rw [Pool.numFrames_ofTables, Pool.numFrames_ofTables]
    exact hnm
  · rintro g ⟨⟩
  · rintro g ⟨⟩
  · apply Engine.rel_of_eq
    rw [Engine.logical_of_copyOf?_eq_none (copyOf?_ofTables n ts id),
      Engine.logical_of_copyOf?_eq_none (copyOf?_ofTables m ts id)]
    exact (Engine.stored_congr (e := (start d n ts).engine) (f := (start d m ts).engine)
      htables rfl).symm
  · rintro sc ⟨⟩
  · rintro sc ⟨⟩

theorem pool_size_unobservable {d : Disk} {n m : Nat} (hnm : n ≤ m) {ts : List Table}
    (hts : ∀ t ∈ ts, t.Stands d ∧ t.Small d) {as : List Action}
    (h : (start d n ts).Along Ordinary as) (hroom : .error .poolFull ∉ (start d n ts).answers as) :
    .error .poolFull ∉ (start d m ts).answers as ∧
      Forall₂ (Agree Answer.Alike) ((start d n ts).answers as) ((start d m ts).answers as) ∧
      ∀ bs, bs <+: as → ((start d n ts).after bs).LooksLike ((start d m ts).after bs) := by
  have htwins := start_twins hnm hts
  obtain ⟨hans, -⟩ := htwins.run h hroom
  refine ⟨?_, hans, ?_⟩
  · generalize (start d n ts).answers as = rs, (start d m ts).answers as = rs' at hans hroom
    induction hans with
    | nil => exact List.not_mem_nil
    | cons hag _ ih =>
      rw [List.mem_cons, not_or] at hroom ⊢
      refine ⟨?_, ih hroom.2⟩
      rintro rfl
      cases hag
      exact hroom.1 rfl
  · rintro bs ⟨cs, rfl⟩
    rw [answers_append, List.mem_append, not_or] at hroom
    exact (htwins.run (along_append.1 h).1 hroom.1).2.looksLike

/-- Two pages are filled in a single frame, one after the other; the first is loaded again and changed
under a checkout, and then a scan goes over both. -/
def singleFrameRun : List Action :=
  [.insert tinyTable.id ⟨1⟩ (tinyTuple 7 none), .insert tinyTable.id ⟨1⟩ (tinyTuple 8 none),
    .flushPage (tinyPage 0), .insert tinyTable.id ⟨2⟩ (tinyTuple 9 none), .flushTxn ⟨2⟩,
    .get (tinyPage 0) .exclusive, .pageDelete 0 (tinyTuple 7 (some ⟨tinyPage 0, 0⟩)), .mark 0 ⟨3⟩,
    .flushAll, .release 0, .dirtiedBy (tinyPage 0), .flushAll, .newScan tinyTable.id,
    .scan 0 .start, .scan 0 .next, .scan 0 .hasNext, .scan 0 .next, .scan 0 .next]

/-- A single frame is as good as three. -/
theorem pool_size_unobservable_single :
    (start tinyDisk 1 [tinyTable]).Along Ordinary singleFrameRun ∧
      .error .poolFull ∉ (start tinyDisk 1 [tinyTable]).answers singleFrameRun ∧
      Forall₂ (Agree Answer.Alike) ((start tinyDisk 1 [tinyTable]).answers singleFrameRun)
        ((start tinyDisk 3 [tinyTable]).answers singleFrameRun) := by
  have h : (start tinyDisk 1 [tinyTable]).Along Ordinary singleFrameRun := by
    decide +kernel
  have hroom : .error .poolFull ∉ (start tinyDisk 1 [tinyTable]).answers singleFrameRun := by
    decide +kernel
  exact ⟨h, hroom, (pool_size_unobservable (by decide) tinyDisk_ready h hroom).2.1⟩

end Session

end HeapStore
