import HeapStore.Proofs.FileWrites
import HeapStore.Proofs.PagePassage

/-! Pages and the files they come from. `Engine.Orderly` is kept by every move that is proper, however
large the files grow: the pages in memory belong to the files of their tables. What is on a page is
then seen under its id, in memory or in the file, until some move changes, replaces or drops the page. -/

namespace HeapStore

/-! ### The pages of a table -/

/-- The page fits the file of the table, and its tuples have the types of the table. -/
structure Page.Belongs (p : Page) (t : Table) : Prop extends p.Fits t where
  types : p.schema.types = t.schema.types

namespace Page.Belongs

variable {p : Page} {t : Table}

theorem of_kind {id : PageId} (h : p.Kind id t.schema t.pageSize) (ht : id.table = t.id)
    (hn : id.page < 0x100000000) : p.Belongs t :=
  ⟨.of_kind h ht hn, by rw [h.schema]⟩

theorem call (h : p.Belongs t) (c : Page.Call) : (p.call c).Belongs t := by
  have hk : p.Kind p.id p.schema t.pageSize := ⟨h.sound, rfl, rfl, h.pageSize⟩
  exact ⟨h.toFits.call c, by rw [(hk.call c).schema, h.types]⟩

/-- What is stored of the page is read again with the schema of the table. -/
theorem ofBytes_toBytes (h : p.Belongs t) :
    ∃ q, Page.ofBytes p.id t.schema t.pageSize p.toBytes = .ok q ∧ q.SameRows p := by
  rw [← h.pageSize]
  exact h.sound.ofBytes_toBytes_of_types h.types

end Page.Belongs

/-! ### Files of any size -/

namespace Table

variable {t : Table} {d : Disk} {n k : Nat} {data : Bytes}

/-- The file has all bytes of this page. -/
def Covers (t : Table) (d : Disk) (n : Nat) : Prop := (n + 1) * t.pageSize ≤ (d.contents t.path).size

theorem Covers.store (h : t.Stands d) (hl : data.length = t.pageSize) (hk : t.Covers d k) :
    t.Covers (t.store d n data) k := Nat.le_trans hk (h.size_le_store hl)

/-- The number of pages, however large. -/
def span (t : Table) (d : Disk) : Nat :=
  ((d.contents t.path).size + (t.pageSize - 1)) / t.pageSize

theorem pageCount_eq (t : Table) (d : Disk) : t.pageCount d = t.span d % 0x100000000 := rfl

theorem roundUp_eq (t : Table) {n size : Nat} (h : n * t.pageSize < size)
    (h' : size ≤ (n + 1) * t.pageSize) : (size + (t.pageSize - 1)) / t.pageSize = n + 1 := by
  have hp := t.pageSize_pos
  rw [Nat.div_eq_iff hp]
  rw [Nat.add_one_mul] at h' ⊢
  omega

/-- Behind the last page there is nothing, unless the file has a whole page there, and too many to
count. -/
theorem window_of_not_covers (h : ¬ t.Covers d (t.pageCount d)) :
    t.window d (t.pageCount d) = zeros t.pageSize := by
  refine window_of_size_le (Nat.le_of_not_lt fun hlt => ?_)
  have hcount := t.pageCount_eq d
  rw [span, t.roundUp_eq hlt (Nat.le_of_not_le h)] at hcount
  omega

/-- A page that the file has, and that is not counted, is not counted later either: the number of
pages is too large to be told, and stays so. -/
theorem pageCount_store_le (h : t.Stands d) (hl : data.length = t.pageSize) (hn : n < 0x100000000)
    (hk : t.Covers d k) (hc : t.pageCount d ≤ k) : t.pageCount (t.store d n data) ≤ k := by
  have hp := t.pageSize_pos
  have hdiv (m : Nat) : (m * t.pageSize + (t.pageSize - 1)) / t.pageSize = m := by
    rw [Nat.mul_comm, Nat.mul_add_div hp, Nat.div_eq_of_lt (by omega), Nat.add_zero]
  rw [pageCount_eq, span] at hc ⊢
  rw [size_store h hl]
  unfold Covers at hk
  generalize (d.contents t.path).size = size at hk hc
  have hsize : k + 1 ≤ (size + (t.pageSize - 1)) / t.pageSize := by
    rw [← hdiv (k + 1)]
    exact Nat.div_le_div_right (Nat.add_le_add_right hk _)
  have hlarge : 0x100000000 ≤ (size + (t.pageSize - 1)) / t.pageSize := by
    by_contra hlt
    rw [Nat.mod_eq_of_lt (by omega)] at hc
    omega
  rcases Nat.le_total (n * t.pageSize + t.pageSize) size with hle | hle
  · rwa [Nat.max_eq_left hle]
  · -- the page that is stored is not behind the last one
    rw [Nat.max_eq_right hle, ← Nat.add_one_mul, hdiv]
    have hle' : (size + (t.pageSize - 1)) / t.pageSize ≤ n + 1 := by
      rw [← hdiv (n + 1), Nat.add_one_mul]
      exact Nat.div_le_div_right (Nat.add_le_add_right hle _)
    have heq : n + 1 = (size + (t.pageSize - 1)) / t.pageSize := by omega
    rwa [heq]

end Table

namespace Engine

variable {e e' : Engine} {held base own own' : List Checkout} {m : Move} {ms : List Move}
  {id : PageId} {p : Page} {t : Table}

/-! ### What is kept -/

/-- The page has this id, and belongs to the table that is registered for it. -/
def Housed (e : Engine) (id : PageId) (p : Page) : Prop :=
  p.id = id ∧ ∀ t, e.table? id.table = some t → p.Belongs t

/-- The pool is sound, every table is registered under its id and has a file, and every resident page
belongs where it is. -/
structure Orderly (e : Engine) (held : List Checkout) : Prop where
  pool : e.pool.Sound held
  own : ∀ k t, e.table? k = some t → t.id = k
  stands : ∀ k t, e.table? k = some t → t.Stands e.disk
  housed : ∀ id p, e.pool.page? id = some p → e.Housed id p

/-- A page that is taken in belongs where it comes, and a table that grows is a registered one. -/
def Move.Proper (e : Engine) : Move → Prop
  | .adopt id page => e.Housed id page
  | .grow t => e.table? t.id = some t
  | _ => True

theorem housed_congr (h : e'.pool.tables = e.pool.tables) : e'.Housed id p ↔ e.Housed id p := by
  unfold Housed
  rw [table?_congr h]

theorem Move.Proper.congr (h : e'.pool.tables = e.pool.tables) (hm : m.Proper e) : m.Proper e' := by
  cases m with
  | adopt id page => exact (housed_congr h).2 hm
  | grow t => exact (table?_congr h _).trans hm
  | _ => trivial

theorem housed_of_read (h : e.read id = .ok p) : e.Housed id p := by
  obtain ⟨t, ht, hid, hn, hk⟩ := kind_of_read h
  refine ⟨hk.id, fun u hu => ?_⟩
  obtain rfl : t = u := Option.some.inj (ht.symm.trans hu)
  exact .of_kind hk hid.symm (Nat.lt_trans hn (t.pageCount_lt _))

namespace Orderly

theorem own_id (h : e.Orderly held) {k : Nat} (ht : e.table? k = some t) : e.table? t.id = some t := by
  rw [h.own k t ht, ht]

theorem mounted (h : e.Orderly held) : Table.Mounted (fun t => e.table? t.id = some t) e.disk := by
  refine ⟨fun t ht => h.stands t.id t ht, fun t u ht hu hid => ?_⟩
  rw [hid, hu] at ht
  exact (Option.some.inj ht).symm

/-- A page is written back and found in its window, or nothing happens at all. -/
theorem writeBack_cases (h : e.Orderly (own ++ base)) {only : Option TxnId}
    (hm : Moves base own e (.writeBack id only) own' e') : e' = e ∨
      ∃ c p t, e.pool.copyOf? id = some c ∧ e.pool.copies.page? c = some p ∧
        e.table? id.table = some t ∧ p.Belongs t ∧ p.id = id ∧
        e' = { e.setPage c p.cleaned with disk := t.store e.disk id.page p.toBytes } := by
  cases hm with
  | @wroteBack _ _ _ c _ hc =>
    obtain ⟨p, hp⟩ := exists_page_of_sound h.pool hc
    obtain ⟨hid, hb⟩ := h.housed id p ((page?_of_copyOf? hc).trans hp)
    rcases writeBack_wrote hp id only with ⟨r, heq, -⟩ | ⟨t, d, ht, -, hwrite, heq⟩
    · exact .inl (by rw [heq])
    · have hbt := hb t ht
      rw [hbt.writePage_eq, hid] at hwrite
      obtain rfl : t.store e.disk id.page p.toBytes = d := congrArg (·.2.2) hwrite
      exact .inr ⟨c, p, t, hc, hp, ht, hbt, hid, by rw [heq]⟩

theorem moves (h : e.Orderly (own ++ base)) (hm : Moves base own e m own' e') (hp : m.Proper e) :
    e'.Orderly (own' ++ base) := by
  obtain ⟨hs, ht⟩ := hm.turned h.pool
  have htable (k : Nat) : e'.table? k = e.table? k := table?_congr ht.tables k
  refine ⟨hs, fun k t hk => h.own k t (htable k ▸ hk), fun k t hk => ?_, fun id p hres => ?_⟩
  · rw [htable] at hk
    have hst := h.stands k t hk
    cases hw : m.writes with
    | false => rwa [hm.disk_eq hw]
    | true =>
      cases m with
      | grow u =>
        cases hm
        exact (h.stands _ u hp).store hst
      | writeBack id' only =>
        rcases h.writeBack_cases hm with rfl | ⟨c, p, u, -, -, hu, -, -, rfl⟩
        · exact hst
        · exact (h.stands _ u hu).store hst
      | _ => cases hw
  · refine (housed_congr ht.tables).2 ((Trace.one hm).residents (P := e.Housed) h.pool
      (fun id p c hh => ⟨(p.id_call c).trans hh.1, fun t hk => (hh.2 t hk).call c⟩)
      (fun f hf id p hr => (housed_congr hf).1 (housed_of_read hr)) (fun id p hmem => ?_) h.housed
      id p hres)
    obtain rfl := List.mem_singleton.1 hmem
    exact hp

theorem trace (h : e.Orderly (own ++ base)) (ht : Trace base own e ms own' e')
    (hp : ∀ m ∈ ms, m.Proper e) : e'.Orderly (own' ++ base) := by
  induction ht with
  | nil => exact h
  | @cons own _ _ e e1 _ m ms hm _ ih =>
    refine ih (h.moves hm (hp m List.mem_cons_self)) fun m' hm' => ?_
    exact (hp m' (List.mem_cons_of_mem _ hm')).congr (hm.turned h.pool).2.tables

end Orderly

/-! ### What is seen under an id -/

/-- The file has the rows of the page, or a number of pages that is too large for the page to be asked
for. -/
def Filed (e : Engine) (id : PageId) (p : Page) : Prop :=
  ∃ t, e.table? id.table = some t ∧
    ((∃ q, Page.ofBytes id t.schema t.pageSize (t.window e.disk id.page) = .ok q ∧ q.SameRows p) ∨
      t.Covers e.disk id.page ∧ t.pageCount e.disk ≤ id.page)

/-- The rows of the page are resident under its id, or they would be read from the file. -/
def Shows (e : Engine) (id : PageId) (p : Page) : Prop :=
  (∃ q, e.pool.page? id = some q ∧ q.SameRows p ∧ (q.dirtiedBy ≠ none ∨ e.Filed id p)) ∨
    e.pool.page? id = none ∧ e.Filed id p

theorem Filed.congr (h : e.Filed id p) (ht : e'.pool.tables = e.pool.tables)
    (hd : e'.disk = e.disk) : e'.Filed id p := by
  obtain ⟨t, htable, hrest⟩ := h
  exact ⟨t, (table?_congr ht _).trans htable, by rwa [hd]⟩

/-- What a page that is read was decoded from. -/
theorem window_of_read (h : e.read id = .ok p) : ∃ t, e.table? id.table = some t ∧
    id.page < t.pageCount e.disk ∧
      Page.ofBytes id t.schema t.pageSize (t.window e.disk id.page) = .ok p := by
  obtain ⟨t, ht, hid, hn, -⟩ := kind_of_read h
  have hread : t.readPage e.disk id = .ok p := by
    unfold read at h
    rwa [table_eq_ok.2 ht] at h
  refine ⟨t, ht, hn, ?_⟩
  obtain ⟨table, page⟩ := id
  obtain rfl : t.id = table := hid
  rwa [t.readPage_eq, if_pos hn] at hread

theorem filed_of_read (h : e.read id = .ok p) : e.Filed id p := by
  obtain ⟨t, ht, -, hof⟩ := window_of_read h
  exact ⟨t, ht, .inl ⟨p, hof, .refl p⟩⟩

/-- A page that is read from the file has the rows. -/
theorem Filed.sameRows_of_read (h : e.Filed id p) {q : Page} (hr : e.read id = .ok q) :
    q.SameRows p := by
  obtain ⟨t, ht, hcase⟩ := h
  obtain ⟨u, hu, hn, hof⟩ := window_of_read hr
  obtain rfl : t = u := Option.some.inj (ht.symm.trans hu)
  rcases hcase with ⟨q', hof', hrows⟩ | ⟨-, hle⟩
  · obtain rfl : q = q' := Except.ok.inj (hof.symm.trans hof')
    exact hrows
  · exact absurd hn (Nat.not_lt.2 hle)

/-- Another window of the file is written. -/
theorem Filed.store (h : e.Filed id p) (ho : e.Orderly held) (htables : e'.pool.tables = e.pool.tables)
    {u : Table} {n : Nat} {data : Bytes} (hu : e.table? u.id = some u) (hl : data.length = u.pageSize)
    (hn : n < 0x100000000) (hne : id ≠ ⟨u.id, n⟩) (hdisk : e'.disk = u.store e.disk n data) :
    e'.Filed id p := by
  obtain ⟨t, ht, hcase⟩ := h
  refine ⟨t, (table?_congr htables _).trans ht, ?_⟩
  rw [hdisk]
  by_cases hid : t.id = u.id
  · have ht' := ho.own_id ht
    rw [hid, hu] at ht'
    obtain rfl : u = t := Option.some.inj ht'
    have hst := ho.stands _ u hu
    refine hcase.imp ?_ fun ⟨hcovers, hle⟩ =>
      ⟨hcovers.store hst hl, Table.pageCount_store_le hst hl hn hcovers hle⟩
    rw [Table.window_store hst hl, if_neg]
    · exact fun h => h
    · intro hpage
      apply hne
      rw [ho.own _ _ ht, ← hpage]
  · have hcontents : (u.store e.disk n data).contents t.path = e.disk.contents t.path :=
      Table.contents_store_of_ne hid
    rw [Table.window_store_of_ne hid, t.pageCount_eq, Table.span, hcontents]
    unfold Table.Covers
    rw [hcontents]
    exact hcase

/-- A table grows, possibly over a page that it has too many pages to ask for. -/
theorem Filed.grow (h : e.Filed id p) (ho : e.Orderly held) {u : Table}
    (hu : e.table? u.id = some u) : Filed { e with disk := u.grow e.disk } id p := by
  have hl : (zeros u.pageSize).length = u.pageSize := Table.length_zeros _
  by_cases heq : id = ⟨u.id, u.pageCount e.disk⟩
  · obtain ⟨t, ht, hcase⟩ := h
    rw [heq] at ht hcase ⊢
    obtain rfl : u = t := Option.some.inj (hu.symm.trans ht)
    have hst := ho.stands _ u hu
    refine ⟨u, hu, ?_⟩
    by_cases hcovers : u.Covers e.disk (u.pageCount e.disk)
    · exact .inr ⟨hcovers.store hst hl,
        Table.pageCount_store_le hst hl (u.pageCount_lt _) hcovers (Nat.le_refl _)⟩
    · have hwindow : u.window (u.grow e.disk) (u.pageCount e.disk) =
          u.window e.disk (u.pageCount e.disk) := by
        unfold Table.grow
        rw [Table.window_store hst hl, if_pos rfl, Table.window_of_not_covers hcovers]
      left
      rw [hwindow]
      exact hcase.resolve_right fun h => hcovers h.1
  · exact h.store ho rfl hu hl (u.pageCount_lt _) heq rfl

theorem Shows.sameRows (h : e.Shows id p) {q : Page} (hq : e.pool.page? id = some q) : q.SameRows p := by
  rcases h with ⟨q', hq', hrows, -⟩ | ⟨hnone, -⟩
  · rw [← Option.some.inj (hq'.symm.trans hq)]
    exact hrows
  · rw [hnone] at hq
    cases hq

namespace Orderly

theorem filed_moves (h : e.Orderly (own ++ base)) (hm : Moves base own e m own' e')
    (hp : m.Proper e) (hw : ∀ id only, m ≠ .writeBack id only) (hf : e.Filed id p) :
    e'.Filed id p := by
  cases hwrites : m.writes with
  | false => exact hf.congr (hm.turned h.pool).2.tables (hm.disk_eq hwrites)
  | true =>
    cases m with
    | grow u =>
      cases hm
      exact hf.grow h hp
    | writeBack id' only => exact absurd rfl (hw id' only)
    | _ => cases hwrites

/-- A page that is written back is seen in its window. -/
theorem shows_writeBack (h : e.Orderly (own ++ base)) {id' : PageId} {only : Option TxnId}
    (hm : Moves base own e (.writeBack id' only) own' e') (hs : e.Shows id p) : e'.Shows id p := by
  rcases h.writeBack_cases hm with rfl | ⟨c, q, t, hc, hq, ht, hb, hqid, rfl⟩
  · exact hs
  have hlen := hb.length_toBytes
  have hst := h.stands _ t ht
  by_cases hid : id' = id
  · subst hid
    have hrows := hs.sameRows ((page?_of_copyOf? hc).trans hq)
    obtain ⟨q', hof, hq'⟩ := hb.ofBytes_toBytes
    have hres : (e.setPage c q.cleaned).pool.page? id' = some q.cleaned := by
      rw [page?_of_copyOf? (e := e.setPage c q.cleaned) hc, Coherent.page?_setPage hq, if_pos rfl]
    refine .inl ⟨q.cleaned, hres, ⟨hrows.header, hrows.row⟩, .inr ⟨t, ht,
      .inl ⟨q', ?_, hq'.trans hrows⟩⟩⟩
    rw [← hof, hqid]
    exact congrArg _ ((Table.window_store hst hlen _).trans (if_pos rfl))
  · have hfiled : e.Filed id p →
        Filed { e.setPage c q.cleaned with disk := t.store e.disk id'.page q.toBytes } id p := by
      intro hf
      refine hf.store h rfl (h.own_id ht) hlen (by rw [← hqid]; exact hb.number) (fun heq => hid ?_) rfl
      rw [heq, ← hb.table, hqid]
    have hres : (e.setPage c q.cleaned).pool.page? id = e.pool.page? id := by
      unfold Pool.page?
      cases hd : e.pool.copyOf? id with
      | none => exact congrArg (Option.bind · _) hd
      | some d =>
        refine (congrArg (Option.bind · _) hd).trans ?_
        rw [Option.bind_some, Option.bind_some, Coherent.page?_setPage hq, if_neg]
        rintro rfl
        exact hid (h.pool.copyOf?_inj hc hd)
    rcases hs with ⟨q', hq', hrows, hcase⟩ | ⟨hnone, hf⟩
    · exact .inl ⟨q', hres.trans hq', hrows, hcase.imp_right hfiled⟩
    · exact .inr ⟨hres.trans hnone, hfiled hf⟩

/-- The rows are seen as before unless the page is changed, replaced or dropped. -/
theorem shows_moves (h : e.Orderly (own ++ base)) (hm : Moves base own e m own' e') (hp : m.Proper e)
    (hl : m.Leaves id) (hs : e.Shows id p) : e'.Shows id p := by
  by_cases hw : ∃ id' only, m = .writeBack id' only
  · obtain ⟨id', only, rfl⟩ := hw
    exact h.shows_writeBack hm hs
  · have hw : ∀ id' only, m ≠ .writeBack id' only := fun id' only heq => hw ⟨id', only, heq⟩
    have hfiled : e.Filed id p → e'.Filed id p := h.filed_moves hm hp hw
    have hpass := hm.passes h.pool (fun q hq => (h.housed id q hq).1) hl
    generalize ho : e.pool.page? id = o at hpass
    generalize ho' : e'.pool.page? id = o' at hpass
    unfold Shows at hs ⊢
    rw [ho] at hs
    rw [ho']
    cases hpass with
    | same =>
      rcases hs with ⟨q, hq, hrows, hcase⟩ | ⟨hnone, hf⟩
      · exact .inl ⟨q, hq, hrows, hcase.imp_right hfiled⟩
      · exact .inr ⟨hnone, hfiled hf⟩
    | written hwrote =>
      obtain ⟨only, rfl, -⟩ := hwrote.selected
      exact absurd rfl (hw id only)
    | evicted hclean =>
      rcases hs with ⟨q, hq, -, hcase⟩ | ⟨hnone, -⟩
      · cases hq
        exact .inr ⟨rfl, hfiled (hcase.resolve_left fun hd => hd hclean)⟩
      · cases hnone
    | loaded hread =>
      rcases hs with ⟨q, hq, -⟩ | ⟨-, hf⟩
      · cases hq
      · exact .inl ⟨_, rfl, hf.sameRows_of_read hread, .inr (hfiled hf)⟩

theorem shows_trace (h : e.Orderly (own ++ base)) (ht : Trace base own e ms own' e')
    (hp : ∀ m ∈ ms, m.Proper e) (hl : ∀ m ∈ ms, m.Leaves id) (hs : e.Shows id p) : e'.Shows id p := by
  induction ht with
  | nil => exact hs
  | @cons own _ _ e e1 _ m ms hm _ ih =>
    have hm' := hp m List.mem_cons_self
    refine ih (h.moves hm hm') (fun m' hmem => ?_) (fun m' hmem => hl m' (List.mem_cons_of_mem _ hmem))
      (h.shows_moves hm hm' (hl m List.mem_cons_self) hs)
    exact (hp m' (List.mem_cons_of_mem _ hmem)).congr (hm.turned h.pool).2.tables

theorem perm {held' : List Checkout} (h : e.Orderly held) (hperm : held.Perm held') :
    e.Orderly held' := ⟨h.pool.perm hperm, h.own, h.stands, h.housed⟩

end Orderly

end Engine

/-! ### Sessions -/

namespace Session

variable {s : Session} {a : Action} {id : PageId} {p : Page} {m : Engine.Move}

/-- A page that is taken in belongs where it comes. -/
def AdoptsHoused (s : Session) (a : Action) : Prop :=
  ∀ id page, a = .adopt id page → s.engine.Housed id page

theorem AdoptsHoused.of_plain (h : a.isPlainOrDiscard = true) : s.AdoptsHoused a := by
  rintro id page rfl
  cases h

theorem start_orderly {d : Disk} (n : Nat) {ts : List Table} (hts : ∀ t ∈ ts, t.Stands d) :
    (start d n ts).engine.Orderly (start d n ts).held where
  pool := sound_ofTables n ts
  own _ _ hk := (lookup_ofTables hk).2
  stands _ t hk := hts t (lookup_ofTables hk).1
  housed id p hp := by
    have hnone : (start d n ts).engine.pool.copyOf? id = none := copyOf?_ofTables n ts id
    rw [Engine.page?_eq_none_of_copyOf? hnone] at hp
    cases hp

theorem Allows.proper (hm : s.Allows a m) (h : s.engine.Orderly s.held) (ha : s.AdoptsHoused a) :
    m.Proper s.engine := by
  cases hm with
  | handled _ hh =>
    cases m with
    | adopt | grow => exact hh.elim
    | _ => trivial
  | flushed | discarded => trivial
  | adopted hadopt => exact ha _ _ hadopt
  | grown _ hfull => exact h.own_id hfull.1
  | @added _ _ _ tbl _ _ hfull _ hof =>
    have hk := Page.kind_of_ofBytes hof
    refine ⟨hk.id, fun t ht => ?_⟩
    obtain rfl : tbl = t := Option.some.inj ((h.own_id hfull.1).symm.trans ht)
    exact .of_kind hk rfl (tbl.pageCount_lt _)

theorem orderly_step (h : s.engine.Orderly s.held) (ha : s.AdoptsHoused a) :
    (s.step a).2.engine.Orderly (s.step a).2.held ∧
      (s.step a).2.engine.pool.tables = s.engine.pool.tables := by
  obtain ⟨own, own', ms, ht⟩ := step_traced h.pool a
  refine ⟨((h.perm ht.before).trace ht.trace fun m hm => ?_).perm ht.after.symm, tables_step h.pool a⟩
  exact (ht.script.allowed m hm).proper h ha

theorem orderly_run (h : s.engine.Orderly s.held) {as : List Action}
    (ha : ∀ a ∈ as, s.AdoptsHoused a) : (s.after as).engine.Orderly (s.after as).held ∧
      (s.after as).engine.pool.tables = s.engine.pool.tables := by
  induction as generalizing s with
  | nil => exact ⟨h, rfl⟩
  | cons a as ih =>
    obtain ⟨h', htables⟩ := orderly_step h (ha a List.mem_cons_self)
    obtain ⟨hrun, htables'⟩ := ih h' fun a' ha' id page hadopt =>
      (Engine.housed_congr htables).2 (ha a' (List.mem_cons_of_mem _ ha') id page hadopt)
    exact ⟨hrun, htables'.trans htables⟩

/-- The rows are seen as before unless the action changes, replaces or drops the page. -/
theorem shows_step (h : s.engine.Orderly s.held) (ha : s.AdoptsHoused a) (hid : s.altered a ≠ some id)
    (hs : s.engine.Shows id p) : (s.step a).2.engine.Shows id p := by
  obtain ⟨own, own', ms, ht⟩ := step_traced h.pool a
  exact (h.perm ht.before).shows_trace ht.trace
    (fun m hm => (ht.script.allowed m hm).proper h ha)
    (fun m hm => (ht.script.allowed m hm).leaves hid) hs

theorem shows_run (h : s.engine.Orderly s.held) {as : List Action} (ha : ∀ a ∈ as, s.AdoptsHoused a)
    (halong : s.Along (fun s a => s.altered a ≠ some id) as) (hs : s.engine.Shows id p) :
    (s.after as).engine.Orderly (s.after as).held ∧ (s.after as).engine.Shows id p := by
  induction as generalizing s with
  | nil => exact ⟨h, hs⟩
  | cons a as ih =>
    have ha' := ha a List.mem_cons_self
    obtain ⟨h', htables⟩ := orderly_step h ha'
    refine ih h' (fun b hb id page hadopt => ?_) halong.2 (shows_step h ha' halong.1 hs)
    exact (Engine.housed_congr htables).2 (ha b (List.mem_cons_of_mem _ hb) id page hadopt)

end Session

end HeapStore
