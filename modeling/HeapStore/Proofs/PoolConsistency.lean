import Mathlib.Data.List.Nodup
import HeapStore.Proofs.CallTraces

/-! The index, the frames, the free list and the clock of a pool agree in every state that is reached
from a new pool, whatever is asked of it, whatever fails, whoever has pages checked out, and whatever
becomes of the files in the meantime. A page that is resident under an id has that id, unless it was
taken in under another. -/

namespace HeapStore

namespace Pool

structure Consistent (p : Pool) : Prop where
  /-- No page has two entries. -/
  keys : (p.index.map (·.1)).Nodup
  /-- The index leads to the frame of a page, and to no other frame. -/
  index : ∀ id i, p.frameOf? id = some i ↔ ∃ c, (p.frame i).resident = some ⟨id, c⟩
  bound : ∀ id i, p.frameOf? id = some i → i < p.numFrames
  /-- No page sits in two frames. -/
  single : ∀ id i j c d, (p.frame i).resident = some ⟨id, c⟩ →
    (p.frame j).resident = some ⟨id, d⟩ → i = j
  /-- The free frames are the empty ones, each once. -/
  free : p.free.Perm ((List.range p.numFrames).filter fun i => (p.frame i).isEmpty)
  counts : p.pageCount + p.freeCount = p.numFrames
  /-- The clock has a flag for every frame, and none is set for a free one. -/
  capacity : p.clock.capacity = p.numFrames
  idle : ∀ i ∈ p.free, p.clock.isReferenced i = false
  hand : 0 < p.numFrames → p.clock.hand < p.numFrames

variable {p : Pool} {held : List Checkout} {id : PageId} {i : Nat}

theorem lookup_of_mem {κ β : Type} [DecidableEq κ] {l : List (κ × β)} (h : (l.map (·.1)).Nodup)
    {k : κ} {b : β} (hm : (k, b) ∈ l) : l.lookup k = some b := by
  induction l with
  | nil => cases hm
  | cons e l ih =>
    rw [List.map_cons, List.nodup_cons] at h
    rw [List.lookup_cons]
    rcases List.mem_cons.1 hm with rfl | hm
    · simp only [beq_self_eq_true]
    · have hk : k ≠ e.1 := by
        rintro rfl
        exact h.1 (List.mem_map.2 ⟨_, hm, rfl⟩)
      simp only [beq_eq_false_iff_ne.2 hk]
      exact ih h.2 hm

namespace Sound

theorem mem_index_iff (h : p.Sound held) : (id, i) ∈ p.index ↔ ∃ c, p.seat i = some ⟨id, c⟩ :=
  ⟨fun hm => (h.index id i).1 (lookup_of_mem h.keys hm),
    fun hc => Session.mem_of_lookup ((h.index id i).2 hc)⟩

theorem free_perm (h : p.Sound held) :
    p.free.Perm ((List.range p.numFrames).filter fun i => (p.frame i).isEmpty) := by
  refine (List.perm_ext_iff_of_nodup h.free_nodup (List.nodup_range.filter _)).2 fun i => ?_
  rw [h.mem_free, List.mem_filter, List.mem_range]
  exact and_congr_right fun _ => Option.isNone_iff_eq_none.symm

/-- The frames that the index leads to are those that are not empty, each once. -/
theorem occupied_perm (h : p.Sound held) : (p.index.map (·.2)).Perm
    ((List.range p.numFrames).filter fun i => !(p.frame i).isEmpty) := by
  have hnodup : (p.index.map (·.2)).Nodup := by
    refine List.Nodup.map_on ?_ (.of_map _ h.keys)
    intro x hx y hy hxy
    obtain ⟨c, hc⟩ := h.mem_index_iff.1 hx
    obtain ⟨d, hd⟩ := h.mem_index_iff.1 hy
    rw [hxy, hd] at hc
    exact Prod.ext (Resident.mk.inj (Option.some.inj hc)).1.symm hxy
  refine (List.perm_ext_iff_of_nodup hnodup (List.nodup_range.filter _)).2 fun i => ?_
  rw [List.mem_filter, List.mem_range, List.mem_map]
  constructor
  · rintro ⟨⟨id, i⟩, hm, rfl⟩
    obtain ⟨c, hc⟩ := h.mem_index_iff.1 hm
    unfold seat at hc
    exact ⟨lt_numFrames_of_seat hc, by simp [Frame.isEmpty, hc]⟩
  · rintro ⟨-, hne⟩
    cases hs : (p.frame i).resident with
    | none => simp [Frame.isEmpty, hs] at hne
    | some r => exact ⟨(r.page, i), h.mem_index_iff.2 ⟨r.copy, hs⟩, rfl⟩

theorem pageCount_add_freeCount (h : p.Sound held) : p.pageCount + p.freeCount = p.numFrames := by
  have hpages := h.occupied_perm.length_eq
  have hfree := h.free_perm.length_eq
  have hsplit := List.length_eq_length_filter_add (l := List.range p.numFrames)
    fun i => (p.frame i).isEmpty
  rw [List.length_map] at hpages
  rw [List.length_range] at hsplit
  unfold pageCount freeCount
  omega

theorem consistent (h : p.Sound held) : p.Consistent where
  keys := h.keys
  index := h.index
  bound id i hi := by
    obtain ⟨c, hc⟩ := (h.index id i).1 hi
    exact lt_numFrames_of_seat hc
  single _ _ _ _ _ hi hj := h.seat_inj hi hj
  free := h.free_perm
  counts := h.pageCount_add_freeCount
  capacity := h.capacity
  idle := h.idle
  hand hn := h.hand.resolve_right (by omega)

end Sound

end Pool

/-! ### The states of a pool -/

/-- What may happen between two looks at a pool: a call, a table that is registered, and a change of
the files by others. -/
inductive Event where
  | call (a : Action)
  | register (t : Table)
  | files (d : Disk)
  deriving DecidableEq, Repr

namespace Session

def happen (s : Session) : Event → Session
  | .call a => (s.step a).2
  | .register t => { s with engine := s.engine.withPool (s.engine.pool.register t) }
  | .files d => { s with engine := { s.engine with disk := d } }

def afterEvents (s : Session) (es : List Event) : Session := es.foldl happen s

variable {s : Session} {id : PageId} {p : Page}

theorem happen_sound (h : s.engine.pool.Sound s.held) (e : Event) :
    (s.happen e).engine.pool.Sound (s.happen e).held ∧
      (s.happen e).engine.pool.numFrames = s.engine.pool.numFrames := by
  cases e with
  | call a =>
    obtain ⟨own, own', ms, ht⟩ := step_traced h a
    have hs := h.perm ht.before
    exact ⟨(ht.trace.sound hs).perm ht.after.symm, (ht.trace.keeps hs).2⟩
  | register t => exact ⟨sound_register h t, rfl⟩
  | files d => exact ⟨h, rfl⟩

/-- What holds of every page that is read from a file or taken in, and is kept by every call on a page,
holds of all resident pages. -/
theorem happen_residents {P : PageId → Page → Prop} (h : s.engine.pool.Sound s.held)
    (hkind : ∀ id p schema pageSize, p.Kind id schema pageSize → P id p)
    (hcall : ∀ id p call, P id p → P id (Page.call p call)) {e : Event}
    (he : ∀ id page, e = .call (.adopt id page) → P id page)
    (hall : ∀ id p, s.engine.pool.page? id = some p → P id p) :
    ∀ id p, (s.happen e).engine.pool.page? id = some p → P id p := by
  cases e with
  | register t => exact hall
  | files d => exact hall
  | call a =>
    obtain ⟨own, own', ms, ht⟩ := step_traced h a
    refine ht.trace.residents (h.perm ht.before) hcall (fun f _ id p hr => ?_) (fun id p hm => ?_) hall
    · obtain ⟨t, -, -, -, hk⟩ := Engine.kind_of_read hr
      exact hkind id p _ _ hk
    · rcases (ht.script.allowed _ hm).adopt with rfl | ⟨table, txn, t, tbl, -, -, -, hof⟩
      · exact he id p rfl
      · exact hkind id p _ _ (Page.kind_of_ofBytes hof)

theorem afterEvents_sound {s : Session} (h : s.engine.pool.Sound s.held) (es : List Event) :
    (s.afterEvents es).engine.pool.Sound (s.afterEvents es).held ∧
      (s.afterEvents es).engine.pool.numFrames = s.engine.pool.numFrames := by
  induction es generalizing s with
  | nil => exact ⟨h, rfl⟩
  | cons e es ih =>
    obtain ⟨hsound, hframes⟩ := happen_sound h e
    obtain ⟨hsound', hframes'⟩ := ih hsound
    exact ⟨hsound', hframes'.trans hframes⟩

theorem afterEvents_residents {P : PageId → Page → Prop} {s : Session}
    (h : s.engine.pool.Sound s.held)
    (hkind : ∀ id p schema pageSize, p.Kind id schema pageSize → P id p)
    (hcall : ∀ id p call, P id p → P id (Page.call p call)) {es : List Event}
    (hes : ∀ id page, .call (.adopt id page) ∈ es → P id page)
    (hall : ∀ id p, s.engine.pool.page? id = some p → P id p) :
    ∀ id p, (s.afterEvents es).engine.pool.page? id = some p → P id p := by
  induction es generalizing s with
  | nil => exact hall
  | cons e es ih =>
    refine ih (happen_sound h e).1 (fun id page hm => hes id page (List.mem_cons_of_mem _ hm)) ?_
    exact happen_residents h hkind hcall (fun id page he => hes id page (he ▸ List.mem_cons_self)) hall

/-- The pool is sound in every state that is reached from a new one. -/
theorem sound_of_new (d : Disk) (n : Nat) (es : List Event) :
    ((start d n []).afterEvents es).engine.pool.Sound ((start d n []).afterEvents es).held :=
  (afterEvents_sound (sound_ofTables n []) es).1

/-- No page is resident at first. -/
theorem residents_of_new {P : PageId → Page → Prop} (d : Disk) (n : Nat) {es : List Event}
    (hkind : ∀ id p schema pageSize, p.Kind id schema pageSize → P id p)
    (hcall : ∀ id p call, P id p → P id (Page.call p call))
    (hes : ∀ id page, .call (.adopt id page) ∈ es → P id page) :
    ∀ id p, ((start d n []).afterEvents es).engine.pool.page? id = some p → P id p := by
  refine afterEvents_residents (sound_ofTables n []) hkind hcall hes fun id p hp => ?_
  obtain ⟨c, hc, -⟩ := Option.bind_eq_some_iff.1 hp
  have hnone : (start d n []).engine.pool.copyOf? id = none := copyOf?_ofTables n [] id
  rw [hnone] at hc
  cases hc

/-- The index, the frames, the free list and the clock agree, however a pool got where it is. Where
pages are taken in under their own ids, every resident page has the id that it is found under. -/
theorem pool_consistent (d : Disk) (n : Nat) (es : List Event) :
    ((start d n []).afterEvents es).engine.pool.Consistent ∧
      ((start d n []).afterEvents es).engine.pool.numFrames = n ∧
      ((∀ id page, .call (.adopt id page) ∈ es → page.id = id) →
        ∀ id p, ((start d n []).afterEvents es).engine.pool.page? id = some p → p.id = id) := by
  have hstart : (start d n []).engine.pool.Sound (start d n []).held := sound_ofTables n []
  have hframes : (start d n []).engine.pool.numFrames = n := Array.size_replicate ..
  refine ⟨(sound_of_new d n es).consistent, (afterEvents_sound hstart es).2.trans hframes, fun hes => ?_⟩
  exact residents_of_new d n (fun _ _ _ _ hk => hk.id) (fun _ p call hp => (p.id_call call).trans hp) hes

/-- A page is taken in, a table grows, and the page that it grew by is dropped. -/
def tinyEvents : List Event :=
  [.register tinyTable, .call (.adopt (tinyPage 3) (tinyEmpty 3)),
    .call (.insert tinyTable.id ⟨1⟩ (tinyTuple 7 none)), .call (.discard (tinyPage 0))]

theorem pool_consistent_tiny :
    (∀ id page, .call (.adopt id page) ∈ tinyEvents → page.id = id) ∧
      ((start tinyDisk 2 []).afterEvents tinyEvents).engine.pool.page? (tinyPage 3) =
        some (tinyEmpty 3) ∧ (tinyEmpty 3).id = tinyPage 3 := by
  have hadopt : ∀ id page, .call (.adopt id page) ∈ tinyEvents → page.id = id := by
    intro id page h
    simp only [tinyEvents, List.mem_cons, List.not_mem_nil, reduceCtorEq, Event.call.injEq,
      Action.adopt.injEq, false_or, or_false] at h
    obtain ⟨rfl, rfl⟩ := h
    rfl
  have hp : ((start tinyDisk 2 []).afterEvents tinyEvents).engine.pool.page? (tinyPage 3) =
      some (tinyEmpty 3) := by decide +kernel
  exact ⟨hadopt, hp, (pool_consistent tinyDisk 2 tinyEvents).2.2 hadopt _ _ hp⟩

end Session

end HeapStore
