import HeapStore.Proofs.BeforeImages
import HeapStore.Proofs.DirtyPages
import HeapStore.Proofs.FileWrites
import HeapStore.Proofs.PoolSize

/-! Nothing reaches a file but by a flush, or by an insert that has found every page of its table full.
A flush writes pages that are dirty and selected, each to its own window; the insert writes one page of
zeros behind the last. So what was stored since the last flush is lost when the files are opened again,
and nothing else is: the old pages are there as they were, and the new ones are empty. -/

namespace HeapStore

open Table (storeAll Mounted)

namespace Table

/-- No window of the file has changed, but there may be more pages. -/
structure Extends (t : Table) (d d' : Disk) : Prop where
  count : t.pageCount d ≤ t.pageCount d'
  window : ∀ n, t.window d' n = t.window d n

/-- The pages of the file read as before, and those that were added are empty. -/
structure OnlyGrows (t : Table) (d d' : Disk) : Prop where
  count : t.pageCount d ≤ t.pageCount d'
  old : ∀ n, n < t.pageCount d → t.readPage d' ⟨t.id, n⟩ = t.readPage d ⟨t.id, n⟩
  new : ∀ n, t.pageCount d ≤ n → n < t.pageCount d' →
    ∃ p, t.readPage d' ⟨t.id, n⟩ = .ok p ∧ ∀ i, p.tuple? i = none

variable {t u : Table} {d d' d'' : Disk}

theorem Extends.refl (t : Table) (d : Disk) : t.Extends d d := ⟨Nat.le_refl _, fun _ => rfl⟩

theorem Extends.trans (h : t.Extends d d') (h' : t.Extends d' d'') : t.Extends d d'' :=
  ⟨Nat.le_trans h.count h'.count, fun n => (h'.window n).trans (h.window n)⟩

theorem Extends.onlyGrows (h : t.Extends d d') (hs : t.Small d) : t.OnlyGrows d d' where
  count := h.count
  old n hn := by
    have hn' : n < t.pageCount d' := Nat.lt_of_lt_of_le hn h.count
    rw [readPage_eq, readPage_eq, if_pos hn, if_pos hn', h.window]
  new n hn hn' := by
    obtain ⟨p, hof, -, -, -, hnone⟩ := Page.ofBytes_zeros ⟨t.id, n⟩ t
    refine ⟨p, ?_, hnone⟩
    rw [readPage_eq, if_pos hn', h.window, window_of_pageCount_le hs hn, hof]

theorem extends_grow (h : t.Stands d) (hs : t.Small d) (hs' : t.Small (t.grow d)) :
    t.Extends d (t.grow d) :=
  ⟨by rw [pageCount_grow h hs hs']; exact Nat.le_succ _, window_grow h hs⟩

theorem extends_grow_of_ne (h : u.id ≠ t.id) : u.Extends d (t.grow d) := by
  have hsize : u.file.size (t.grow d) = u.file.size d :=
    congrArg Contents.size (contents_store_of_ne h)
  refine ⟨Nat.le_of_eq ?_, window_store_of_ne h⟩
  unfold pageCount
  rw [hsize]

end Table

namespace Session

/-! ### What an action writes -/

/-- A resident page that an action is to write back, and the table that is registered for it. -/
def Selects (s : Session) (a : Action) (w : Table × Page) : Prop :=
  ∃ id, s.engine.pool.page? id = some w.2 ∧ w.2.dirtiedBy ≠ none ∧ a.Flushes id w.2 ∧
    s.engine.table? id.table = some w.1

/-- The action stores these pages, which it selects; where it does not fail, they are all that it
selects. No other window changes, and a page whose id no other one has is found in its window. -/
structure Stores (s : Session) (a : Action) (ws : List (Table × Page)) : Prop where
  disk : (s.step a).2.engine.disk = storeAll ws s.engine.disk
  selected : ∀ w ∈ ws, s.Selects a w
  complete : ∀ r, (s.step a).1 = .ok r → ∀ id p, s.engine.pool.page? id = some p →
    p.dirtiedBy ≠ none → a.Flushes id p → ∃ t, (t, p) ∈ ws
  elsewhere : ∀ k t, s.engine.table? k = some t → ∀ n, (∀ w ∈ ws, w.1 = t → w.2.id.page ≠ n) →
    t.window (s.step a).2.engine.disk n = t.window s.engine.disk n
  there : ∀ w ∈ ws, (∀ w' ∈ ws, w'.2.id = w.2.id → w'.2 = w.2) →
    w.1.window (s.step a).2.engine.disk w.2.id.page = w.2.toBytes

/-- All that an action does to the files. -/
def Writes (s : Session) (a : Action) : Prop :=
  match a with
  | .flushPage _ | .flushAll | .flushTxn _ => ∃ ws, s.Stores a ws
  | .insert table _ t =>
    (∀ tbl, s.FindsFull table t tbl → (s.step a).2.engine.disk = tbl.grow s.engine.disk) ∧
      ((∀ tbl, ¬ s.FindsFull table t tbl) → (s.step a).2.engine.disk = s.engine.disk)
  | _ => (s.step a).2.engine.disk = s.engine.disk

/-- The pool is sound, the tables are registered under their ids and have small files, and every
resident page of a registered table fits its file. -/
structure Fitting (s : Session) : Prop where
  pool : s.engine.pool.Sound s.held
  own : ∀ k t, s.engine.table? k = some t → t.id = k
  stands : ∀ k t, s.engine.table? k = some t → t.Stands s.engine.disk
  small : ∀ k t, s.engine.table? k = some t → t.Small s.engine.disk
  fits : ∀ id p, s.engine.pool.page? id = some p → ∀ t, s.engine.table? id.table = some t → p.Fits t

/-- A page that is taken in for a registered table fits its file. -/
def AdoptsFitting (s : Session) (a : Action) : Prop :=
  ∀ id page, a = .adopt id page → ∀ t, s.engine.table? id.table = some t → page.Fits t

variable {s : Session} {a : Action}

namespace Fitting

theorem own_id (h : s.Fitting) {k : Nat} {t : Table} (ht : s.engine.table? k = some t) :
    s.engine.table? t.id = some t := by
  rw [h.own k t ht, ht]

theorem mounted (h : s.Fitting) : Mounted (fun t => s.engine.table? t.id = some t) s.engine.disk := by
  refine ⟨fun t ht => h.stands t.id t ht, fun t u ht hu hid => ?_⟩
  rw [hid, hu] at ht
  exact (Option.some.inj ht).symm

/-! ### Flushes -/

theorem stores (h : s.Fitting) (only : Option TxnId) (rs : List Resident)
    (hrs : ∀ r ∈ rs, s.engine.pool.copyOf? r.page = some r.copy)
    (hdisk : (s.step a).2.engine.disk = (Engine.writeBackAll only 0 rs s.engine).2.disk)
    (hok : ∀ r, (s.step a).1 = .ok r → ∃ n, (Engine.writeBackAll only 0 rs s.engine).1 = .ok n)
    (hsel : ∀ id c p, s.engine.pool.copyOf? id = some c →
      (p.dirtiedBy ≠ none ∧ a.Flushes id p ↔ p.isSelected only = true ∧ ⟨id, c⟩ ∈ rs)) :
    ∃ ws, s.Stores a ws := by
  have hpage (r : Resident) (hr : r ∈ rs) (p : Page) (hp : s.engine.pool.copies.page? r.copy = some p) :
      s.engine.pool.page? r.page = some p := (Engine.page?_of_copyOf? (hrs r hr)).trans hp
  obtain ⟨ws, hw⟩ := Engine.writeBackAll_wroteAll h.pool only 0 hrs fun r hr p hp =>
    h.fits r.page p (hpage r hr p hp)
  rw [hw.disk] at hdisk
  have hfits : ∀ w ∈ ws, s.engine.table? w.1.id = some w.1 ∧ w.2.Fits w.1 := fun w hmem => by
    obtain ⟨r, hr, hp, -, ht⟩ := hw.selected w hmem
    exact ⟨h.own_id ht, h.fits r.page w.2 (hpage r hr w.2 hp) w.1 ht⟩
  refine ⟨ws, hdisk, fun w hmem => ?_, fun r hr id p hp hd hf => ?_, fun k t ht n hn => ?_,
    fun w hmem hlone => ?_⟩
  · obtain ⟨r, hr, hp, hselp, ht⟩ := hw.selected w hmem
    obtain ⟨hd, hf⟩ := (hsel r.page r.copy w.2 (hrs r hr)).2 ⟨hselp, hr⟩
    exact ⟨r.page, hpage r hr w.2 hp, hd, hf, ht⟩
  · obtain ⟨c, hc, hp⟩ := Option.bind_eq_some_iff.1 hp
    obtain ⟨hselp, hmem⟩ := (hsel id c p hc).1 ⟨hd, hf⟩
    obtain ⟨m, hm⟩ := hok r hr
    exact hw.complete m hm ⟨id, c⟩ hmem p hp hselp
  · rw [hdisk]
    exact h.mounted.window_storeAll_of_ne hfits (h.own_id ht) hn
  · rw [hdisk]
    exact h.mounted.window_storeAll hfits hmem hlone

theorem flushPage_stores (h : s.Fitting) (id : PageId) : ∃ ws, s.Stores (.flushPage id) ws := by
  cases hc : s.engine.pool.copyOf? id with
  | none =>
    have hstep : (s.step (.flushPage id)).2.engine = s.engine := by
      simp only [step, Engine.flushPage, hc]
      rfl
    refine ⟨[], by rw [hstep]; rfl, by simp, fun r _ id' p hp _ hf => ?_, fun k t _ n _ => by rw [hstep],
      by simp⟩
    obtain rfl : id = id' := hf
    rw [Pool.page?, hc] at hp
    cases hp
  | some c =>
    have hback : Engine.writeBackAll none 0 [⟨id, c⟩] s.engine =
        ((s.engine.writeBack id c none).1.map fun b => if b then 1 else 0,
          (s.engine.writeBack id c none).2) := by
      unfold Engine.writeBackAll
      cases s.engine.writeBack id c none with
      | mk r e => cases r <;> rfl
    have hstep : s.step (.flushPage id) = s.onEngine
        ((s.engine.writeBack id c none).1.map .flag, (s.engine.writeBack id c none).2) := by
      simp only [step, Engine.flushPage, hc]
    refine h.stores none [⟨id, c⟩] (by simpa using hc) ?_ (fun r hr => ?_) fun id' c' p hc' => ?_
    · rw [hback, hstep]
      rfl
    · rw [hstep] at hr
      rw [hback]
      change ((s.engine.writeBack id c none).1.map Answer.flag) = _ at hr
      cases hwb : (s.engine.writeBack id c none).1 with
      | error err =>
        rw [hwb] at hr
        cases hr
      | ok b => exact ⟨_, rfl⟩
    · rw [Page.isSelected_none_iff, List.mem_singleton]
      refine and_congr_right fun _ => ⟨fun hid => ?_, fun heq => (Resident.mk.inj heq).1.symm⟩
      obtain rfl : id = id' := hid
      obtain rfl : c = c' := Option.some.inj (hc.symm.trans hc')
      rfl

theorem flushResidents_stores (h : s.Fitting) (only : Option TxnId)
    (hstep : s.step a = s.onEngine
      ((Engine.writeBackAll only 0 s.engine.pool.residents s.engine).1.map .count,
        (Engine.writeBackAll only 0 s.engine.pool.residents s.engine).2))
    (hsel : ∀ id p, p.dirtiedBy ≠ none ∧ a.Flushes id p ↔ p.isSelected only = true) :
    ∃ ws, s.Stores a ws := by
  refine h.stores only _ (fun r hr => h.pool.mem_residents.1 hr) (by rw [hstep]; rfl) (fun r hr => ?_)
    fun id c p hc => ?_
  · rw [hstep] at hr
    change ((Engine.writeBackAll only 0 s.engine.pool.residents s.engine).1.map Answer.count) = _ at hr
    cases hwb : (Engine.writeBackAll only 0 s.engine.pool.residents s.engine).1 with
    | error err =>
      rw [hwb] at hr
      cases hr
    | ok n => exact ⟨n, rfl⟩
  · rw [hsel, and_iff_left (h.pool.mem_residents.2 hc)]

/-! ### Inserts -/

theorem insert_writes (s : Session) (table : Nat) (txn : TxnId) (t : Tuple) :
    s.Writes (.insert table txn t) :=
  ⟨fun _ hfull => disk_of_findsFull hfull txn, fun hnot => disk_of_not_findsFull hnot txn⟩

/-! ### All actions -/

theorem writes (h : s.Fitting) (a : Action) : s.Writes a := by
  cases a with
  | flushPage id => exact h.flushPage_stores id
  | flushAll =>
    exact h.flushResidents_stores none rfl fun id p => by simp [Page.isSelected_none_iff, Action.Flushes]
  | flushTxn txn =>
    refine h.flushResidents_stores (some txn) rfl fun id p => ?_
    rw [Page.isSelected_some_iff]
    exact ⟨fun hp => hp.2, fun hp => ⟨by rw [hp]; exact Option.some_ne_none _, hp⟩⟩
  | insert table txn t => exact insert_writes s table txn t
  | _ => exact disk_step_eq h.pool rfl fun _ _ _ h => by cases h

/-- The three ways to leave the files. -/
theorem writes_cases (h : s.Fitting) (a : Action) :
    (s.step a).2.engine.disk = s.engine.disk ∨
      (∃ k tbl, s.engine.table? k = some tbl ∧ (s.step a).2.engine.disk = tbl.grow s.engine.disk) ∨
      (a.isFlush = true ∧ ∃ ws, s.Stores a ws) := by
  have hw := h.writes a
  cases a with
  | flushPage | flushAll | flushTxn => exact .inr (.inr ⟨rfl, hw⟩)
  | insert table txn t =>
    by_cases hfull : ∃ tbl, s.FindsFull table t tbl
    · obtain ⟨tbl, hfull⟩ := hfull
      exact .inr (.inl ⟨table, tbl, hfull.1, hw.1 tbl hfull⟩)
    · exact .inl (hw.2 fun tbl htbl => hfull ⟨tbl, htbl⟩)
  | _ => exact .inl hw

/-! ### Runs -/

/-- The files stay where they are. -/
theorem stands_step (h : s.Fitting) (a : Action) {k : Nat} {t : Table}
    (ht : s.engine.table? k = some t) : t.Stands (s.step a).2.engine.disk := by
  have hst := h.stands k t ht
  rcases h.writes_cases a with hdisk | ⟨k', tbl, htbl, hdisk⟩ | ⟨-, ws, hws⟩
  · rwa [hdisk]
  · rw [hdisk]
    exact (h.stands k' tbl htbl).store hst
  · rw [hws.disk]
    refine (h.mounted.storeAll fun w hw => ?_).stands t (h.own_id ht)
    obtain ⟨id, -, -, -, htw⟩ := hws.selected w hw
    exact h.own_id htw

theorem step (h : s.Fitting) (hs : s.StaysSmall a) (ha : s.AdoptsFitting a) :
    (s.step a).2.Fitting ∧ (s.step a).2.engine.pool.tables = s.engine.pool.tables := by
  obtain ⟨own, own', ms, ht⟩ := step_traced h.pool a
  have hpool := h.pool.perm ht.before
  have htables := tables_step h.pool a
  have htable (k : Nat) : (s.step a).2.engine.table? k = s.engine.table? k :=
    Engine.table?_congr htables k
  have hfits := ht.trace.residents (P := fun id p => ∀ t, s.engine.table? id.table = some t → p.Fits t)
    hpool (fun id p c hp t hk => (hp t hk).call c) (fun f hf id p hr t hk => ?_)
    (fun id p hm t hk => ?_) h.fits
  · refine ⟨⟨(ht.trace.sound hpool).perm ht.after.symm, fun k t hk => h.own k t (htable k ▸ hk),
      fun k t hk => h.stands_step a (htable k ▸ hk), fun k t hk => hs k t (htable k ▸ hk),
      fun id p hp t hk => hfits id p hp t (htable _ ▸ hk)⟩, htables⟩
  · obtain ⟨u, hu, hid, hn, hkind⟩ := Engine.kind_of_read hr
    rw [Engine.table?_congr hf, hk] at hu
    cases hu
    exact .of_kind hkind hid.symm (Nat.lt_trans hn (t.pageCount_lt _))
  · rcases (ht.script.allowed _ hm).adopt with rfl | ⟨table, txn, tup, tbl, -, hfull, rfl, hof⟩
    · exact ha id p rfl t hk
    · obtain rfl : tbl = t := by
        have hk : s.engine.table? tbl.id = some t := hk
        rw [h.own_id hfull.1] at hk
        exact Option.some.inj hk
      exact .of_kind (Page.kind_of_ofBytes hof) rfl (tbl.pageCount_lt _)

/-- Where nothing is flushed, tables only grow. -/
theorem extends_step (h : s.Fitting) (hs : s.StaysSmall a) (hf : a.isFlush = false) {k : Nat}
    {t : Table} (ht : s.engine.table? k = some t) :
    t.Extends s.engine.disk (s.step a).2.engine.disk := by
  rcases h.writes_cases a with hdisk | ⟨k', tbl, htbl, hdisk⟩ | ⟨hflush, -⟩
  · rw [hdisk]
    exact .refl t _
  · rw [hdisk]
    by_cases hid : t.id = tbl.id
    · obtain rfl := h.mounted.apart t tbl (h.own_id ht) (h.own_id htbl) hid
      exact Table.extends_grow (h.stands k t ht) (h.small k t ht) (hdisk ▸ hs k t ht)
    · exact Table.extends_grow_of_ne hid
  · rw [hf] at hflush
    cases hflush

theorem run (h : s.Fitting) {as : List Action} (hs : s.Along StaysSmall as)
    (ha : ∀ a ∈ as, s.AdoptsFitting a) : s.Along Writes as ∧ (s.after as).Fitting ∧
      (s.after as).engine.pool.tables = s.engine.pool.tables := by
  induction as generalizing s with
  | nil => exact ⟨trivial, h, rfl⟩
  | cons a as ih =>
    obtain ⟨h', htables⟩ := h.step hs.1 (ha a List.mem_cons_self)
    obtain ⟨hw, hfit, htables'⟩ := ih h' hs.2 fun a' ha' id page hadopt t ht =>
      ha a' (List.mem_cons_of_mem _ ha') id page hadopt t (Engine.table?_congr htables _ ▸ ht)
    exact ⟨⟨h.writes a, hw⟩, hfit, htables'.trans htables⟩

theorem extends_run (h : s.Fitting) {as : List Action} (hs : s.Along StaysSmall as)
    (ha : ∀ a ∈ as, s.AdoptsFitting a) (hf : ∀ a ∈ as, a.isFlush = false) {k : Nat} {t : Table}
    (ht : s.engine.table? k = some t) : t.Extends s.engine.disk (s.after as).engine.disk := by
  induction as generalizing s with
  | nil => exact .refl t _
  | cons a as ih =>
    obtain ⟨h', htables⟩ := h.step hs.1 (ha a List.mem_cons_self)
    refine (h.extends_step hs.1 (hf a List.mem_cons_self) ht).trans (ih h' hs.2 ?_ ?_ ?_)
    · exact fun a' ha' id page hadopt t ht =>
        ha a' (List.mem_cons_of_mem _ ha') id page hadopt t (Engine.table?_congr htables _ ▸ ht)
    · exact fun a' ha' => hf a' (List.mem_cons_of_mem _ ha')
    · rw [Engine.table?_congr htables]
      exact ht

end Fitting

theorem start_fitting {d : Disk} (n : Nat) {ts : List Table}
    (hts : ∀ t ∈ ts, t.Stands d ∧ t.Small d) : (start d n ts).Fitting where
  pool := sound_ofTables n ts
  own _ _ hk := (lookup_ofTables hk).2
  stands _ _ hk := (hts _ (lookup_ofTables hk).1).1
  small _ _ hk := (hts _ (lookup_ofTables hk).1).2
  fits id p hp := by
    obtain ⟨c, hc, -⟩ := Option.bind_eq_some_iff.1 hp
    have hnone : (start d n ts).engine.pool.copyOf? id = none := copyOf?_ofTables n ts id
    rw [hnone] at hc
    cases hc

/-! ### Opening the files again -/

/-- The pages that are in the files are read as before by a new pool over the tables; those that were
added are empty, and the rows are the same. -/
structure Reopens (ts : List Table) (d d' : Disk) : Prop where
  pages : ∀ m k t, (start d' m ts).engine.table? k = some t → t.OnlyGrows d d'
  rows : ∀ m, (start d' m ts).engine.rows = (start d m ts).engine.rows

theorem table?_start (d d' : Disk) (m n : Nat) (ts : List Table) (k : Nat) :
    (start d' m ts).engine.table? k = (start d n ts).engine.table? k :=
  Engine.table?_congr (Pool.tables_ofTables n m ts) k

theorem rows_start {d d' : Disk} (m : Nat) {ts : List Table}
    (h : ∀ k t, (start d m ts).engine.table? k = some t → t.Extends d d') :
    (start d' m ts).engine.rows = (start d m ts).engine.rows := by
  funext r
  have hnone (d : Disk) : (start d m ts).engine.pool.copyOf? r.page = none :=
    copyOf?_ofTables m ts r.page
  unfold Engine.rows
  rw [Engine.logical_of_copyOf?_eq_none (hnone d), Engine.logical_of_copyOf?_eq_none (hnone d'),
    Engine.stored_of_window (e := (start d m ts).engine) (f := (start d' m ts).engine) rfl
      fun t ht => (h _ t ht).window _]

/-- Nothing is written but by a flush, which stores the dirty pages that it selects in their windows,
and by an insert that finds every page of its table full, which stores a page of zeros behind the last
one. After any actions without a flush among them, the files opened again show the tuples that they had
before these actions, and pages that are empty. -/
theorem no_steal {d : Disk} {n : Nat} {ts : List Table} (hts : ∀ t ∈ ts, t.Stands d ∧ t.Small d)
    {as bs : List Action} (h : (start d n ts).Along StaysSmall (as ++ bs))
    (hfits : ∀ a ∈ as ++ bs, (start d n ts).AdoptsFitting a) :
    (start d n ts).Along Writes (as ++ bs) ∧
      ((∀ b ∈ bs, b.isFlush = false) →
        Reopens ts ((start d n ts).after as).engine.disk
          ((start d n ts).after (as ++ bs)).engine.disk) := by
  have hstart := start_fitting n hts
  refine ⟨(hstart.run h hfits).1, fun hbs => ?_⟩
  obtain ⟨has, hrest⟩ := along_append.1 h
  obtain ⟨-, hfit, htables⟩ := hstart.run has fun a ha => hfits a (List.mem_append_left _ ha)
  have hfits' : ∀ b ∈ bs, ((start d n ts).after as).AdoptsFitting b := fun b hb id page hadopt t ht =>
    hfits b (List.mem_append_right _ hb) id page hadopt t (Engine.table?_congr htables _ ▸ ht)
  rw [after_append]
  have hextends (m : Nat) (d' : Disk) (k : Nat) (t : Table) (ht : (start d' m ts).engine.table? k = some t) :
      ((start d n ts).after as).engine.table? k = some t ∧
        t.Extends ((start d n ts).after as).engine.disk
          (((start d n ts).after as).after bs).engine.disk := by
    have ht : ((start d n ts).after as).engine.table? k = some t := by
      rw [Engine.table?_congr htables, ← ht]
      exact (table?_start d d' m n ts k).symm
    exact ⟨ht, hfit.extends_run hrest hfits' hbs ht⟩
  refine ⟨fun m k t ht => ?_, fun m => rows_start m fun k t ht => (hextends m _ k t ht).2⟩
  obtain ⟨hreg, hext⟩ := hextends m _ k t ht
  exact hext.onlyGrows (hfit.small k t hreg)

/-- A page is taken in, and the first page of the file is filled. -/
def fillRun : List Action :=
  [.adopt (tinyPage 5) (tinyEmpty 5), .insert tinyTable.id ⟨1⟩ (tinyTuple 7 none),
    .insert tinyTable.id ⟨1⟩ (tinyTuple 8 none)]

/-- The partial last page is filled, the file grows by another one, and changes are dropped. -/
def growRun : List Action :=
  [.insert tinyTable.id ⟨1⟩ (tinyTuple 9 none), .insert tinyTable.id ⟨2⟩ (tinyTuple 10 none),
    .insert tinyTable.id ⟨2⟩ (tinyTuple 11 none), .discard (tinyPage 1)]

theorem no_steal_partial :
    (∀ t ∈ [tinyTable], t.Stands partialDisk ∧ t.Small partialDisk) ∧
      (start partialDisk 4 [tinyTable]).Along StaysSmall (fillRun ++ growRun) ∧
      (∀ a ∈ fillRun ++ growRun, (start partialDisk 4 [tinyTable]).AdoptsFitting a) ∧
      (start partialDisk 4 [tinyTable]).Along Writes (fillRun ++ growRun) ∧
      Reopens [tinyTable] ((start partialDisk 4 [tinyTable]).after fillRun).engine.disk
        ((start partialDisk 4 [tinyTable]).after (fillRun ++ growRun)).engine.disk ∧
      tinyTable.pageCount ((start partialDisk 4 [tinyTable]).after (fillRun ++ growRun)).engine.disk = 3 := by
  have hts : ∀ t ∈ [tinyTable], t.Stands partialDisk ∧ t.Small partialDisk := by
    intro t ht
    obtain rfl := List.mem_singleton.1 ht
    exact ⟨⟨_, rfl⟩, by decide⟩
  have h : (start partialDisk 4 [tinyTable]).Along StaysSmall (fillRun ++ growRun) := by decide +kernel
  have hempty : Page.ofBytes (tinyPage 5) tinySchema 9 (zeros 9) = .ok (tinyEmpty 5) := rfl
  have hfits : ∀ a ∈ fillRun ++ growRun, (start partialDisk 4 [tinyTable]).AdoptsFitting a := by
    intro a ha id page hadopt t ht
    subst hadopt
    simp only [fillRun, growRun, List.cons_append, List.nil_append, List.mem_cons, List.not_mem_nil,
      reduceCtorEq, Action.adopt.injEq, or_false] at ha
    obtain ⟨rfl, rfl⟩ := ha
    obtain rfl := List.mem_singleton.1 (lookup_ofTables ht).1
    exact .of_kind (Page.kind_of_ofBytes hempty) rfl (by decide)
  have hflush : ∀ b ∈ growRun, b.isFlush = false := by decide
  obtain ⟨hwrites, hreopens⟩ := no_steal hts h hfits
  exact ⟨hts, h, hfits, hwrites, hreopens hflush, by decide +kernel⟩

end Session

end HeapStore
