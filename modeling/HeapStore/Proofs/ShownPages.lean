import HeapStore.Proofs.UnsavedChanges

/-! Pages come and go, and who reads the tables sees no difference. While pages are changed by inserts
and deletes on tables only, the rows of a clean page are in its file, and the file reaches every page in
memory. So a page that gives way is read again as it was, and one that is written back makes no file
longer. -/

namespace HeapStore

namespace Table

variable {t : Table} {d : Disk} {n k : Nat} {data : Bytes}

/-- The file has bytes of this page. -/
def Reaches (t : Table) (d : Disk) (k : Nat) : Prop := k * t.pageSize < (d.contents t.path).size

theorem reaches_of_lt_pageCount (h : k < t.pageCount d) : t.Reaches d k := by
  have hp := t.pageSize_pos
  rw [pageCount_eq, span] at h
  have hle : k + 1 ≤ ((d.contents t.path).size + (t.pageSize - 1)) / t.pageSize :=
    Nat.le_trans h (Nat.mod_le ..)
  rw [Nat.le_div_iff_mul_le hp, Nat.add_one_mul] at hle
  unfold Reaches
  omega

theorem reaches_store (h : t.Stands d) (hl : data.length = t.pageSize) :
    t.Reaches (t.store d n data) n := by
  have hp := t.pageSize_pos
  unfold Reaches
  rw [size_store h hl]
  omega

/-- A page that the file reaches is no new one. -/
theorem span_store (h : t.Stands d) (hl : data.length = t.pageSize) (hn : t.Reaches d n) :
    t.span (t.store d n data) = t.span d := by
  have hp := t.pageSize_pos
  unfold Reaches at hn
  rw [span, span, size_store h hl, ← Nat.add_one_mul]
  rcases Nat.le_total ((n + 1) * t.pageSize) (d.contents t.path).size with hle | hle
  · rw [Nat.max_eq_left hle]
  · rw [Nat.max_eq_right hle, t.roundUp_eq hn hle, t.roundUp_eq _ (Nat.le_refl _)]
    rw [Nat.add_one_mul]
    omega

theorem span_store_of_ne {u : Table} (h : u.id ≠ t.id) : u.span (t.store d n data) = u.span d := by
  rw [span, span, contents_store_of_ne h]

theorem small_iff_span : t.Small d ↔ t.span d < 0x100000000 := by
  have hp := t.pageSize_pos
  rw [span, Nat.div_lt_iff_lt_mul hp]
  unfold Small
  omega

theorem small_grow (h : t.Stands d) (hs : t.Small d) (hn : t.pageCount d < 0xFFFFFFFF) :
    t.Small (t.grow d) := by
  have hlast : (t.pageCount d + 1) * t.pageSize ≤ 0xFFFFFFFF * t.pageSize := Nat.mul_le_mul_right _ hn
  rw [Nat.add_one_mul] at hlast
  unfold Small at hs ⊢
  rw [grow, size_store h (length_zeros _)]
  omega

end Table

namespace Engine

variable {e e' e'' : Engine} {held base own own' : List Checkout} {m : Move} {ms : List Move}
  {id : PageId} {p : Page} {t : Table} {c : Nat}

/-! ### A page that gives way -/

/-- If the page that is resident under the id gives way, its rows are not lost. -/
def Recovers (e : Engine) (id : PageId) : Prop :=
  ∀ p, e.pool.page? id = some p → p.dirtiedBy ≠ none ∨ e.Filed id p

/-- The number of the page is one that its table can be asked for. -/
def Readable (e : Engine) (id : PageId) : Prop :=
  ∃ t, e.table? id.table = some t ∧ id.page < t.pageCount e.disk

theorem recovers_of_absent (h : e.pool.page? id = none) : e.Recovers id := by
  intro p hp
  rw [h] at hp
  cases hp

theorem recovers_of_dirty (h : e.pool.dirtiedBy id ≠ none) : e.Recovers id := by
  intro p hp
  rw [Pool.dirtiedBy, hp] at h
  exact .inl h

theorem Filed.of_sameRows (h : e.Filed id p) {q : Page} (hq : p.SameRows q) : e.Filed id q := by
  obtain ⟨t, ht, hcase⟩ := h
  exact ⟨t, ht, hcase.imp_left fun ⟨r, hof, hr⟩ => ⟨r, hof, hr.trans hq⟩⟩

theorem Filed.stored (h : e.Filed id p) (hr : e.Readable id) :
    ∃ q, e.stored id = some q ∧ q.SameRows p := by
  obtain ⟨t, ht, hcase⟩ := h
  obtain ⟨u, hu, hn⟩ := hr
  obtain rfl : t = u := Option.some.inj (ht.symm.trans hu)
  rcases hcase with ⟨q, hof, hrows⟩ | ⟨-, hle⟩
  · exact ⟨q, (stored_eq_some ht).2 hof, hrows⟩
  · exact absurd hn (Nat.not_lt.2 hle)

theorem filed_of_stored (h : e.stored id = some p) : e.Filed id p := by
  obtain ⟨t, ht, -⟩ := Option.bind_eq_some_iff.1 h
  exact ⟨t, ht, .inl ⟨p, (stored_eq_some ht).1 h, .refl p⟩⟩

theorem Shows.recovers (h : e.Shows id p) : e.Recovers id := by
  intro q hq
  rcases h with ⟨q', hq', hrows, hcase⟩ | ⟨hnone, -⟩
  · obtain rfl : q = q' := Option.some.inj (hq.symm.trans hq')
    exact hcase.imp_right fun hf => hf.of_sameRows hrows.symm
  · rw [hnone] at hq
    cases hq

theorem Shows.logical (h : e.Shows id p) (hr : e.Readable id) :
    ∃ q, e.logical id = some q ∧ q.SameRows p := by
  unfold Engine.logical
  rcases h with ⟨q, hq, hrows, -⟩ | ⟨hnone, hf⟩
  · exact ⟨q, by rw [hq, Option.some_or], hrows⟩
  · rw [hnone, Option.none_or]
    exact hf.stored hr

theorem Recovers.shows (h : e.Recovers id) (hp : e.pool.page? id = some p) : e.Shows id p :=
  .inl ⟨p, hp, .refl p, h p hp⟩

theorem Recovers.shows_of_logical (h : e.Recovers id) (hp : e.logical id = some p) :
    e.Shows id p := by
  unfold Engine.logical at hp
  cases hres : e.pool.page? id with
  | some q =>
    rw [hres, Option.some_or] at hp
    obtain rfl : q = p := Option.some.inj hp
    exact h.shows hres
  | none =>
    rw [hres, Option.none_or] at hp
    exact .inr ⟨hres, filed_of_stored hp⟩

namespace Orderly

theorem recovers_moves (h : e.Orderly (own ++ base)) (hm : Moves base own e m own' e')
    (hp : m.Proper e) (hl : m.Leaves id) (hr : e.Recovers id) : e'.Recovers id := by
  cases hres : e.pool.page? id with
  | some p => exact (h.shows_moves hm hp hl (hr.shows hres)).recovers
  | none =>
    have hpass := hm.passes h.pool (fun q hq => (h.housed id q hq).1) hl
    cases hres' : e'.pool.page? id with
    | none => exact recovers_of_absent hres'
    | some p' =>
      rw [hres, hres'] at hpass
      cases hpass with
      | loaded hread => exact (h.shows_moves hm hp hl (.inr ⟨hres, filed_of_read hread⟩)).recovers

theorem recovers_trace (h : e.Orderly (own ++ base)) (ht : Trace base own e ms own' e')
    (hp : ∀ m ∈ ms, m.Proper e) (hl : ∀ m ∈ ms, m.Leaves id) (hr : e.Recovers id) :
    e'.Recovers id := by
  induction ht with
  | nil => exact hr
  | @cons own _ _ e e1 _ m ms hm _ ih =>
    have hm' := hp m List.mem_cons_self
    refine ih (h.moves hm hm') (fun m' hmem => ?_) (fun m' hmem => hl m' (List.mem_cons_of_mem _ hmem))
      (h.recovers_moves hm hm' (hl m List.mem_cons_self) hr)
    exact (hp m' (List.mem_cons_of_mem _ hmem)).congr (hm.turned h.pool).2.tables

end Orderly

/-! ### What readers see -/

/-- The page that is read under the id has the same rows before and after, or cannot be read. -/
def Agree (e e' : Engine) (id : PageId) : Prop :=
  Option.Rel Page.SameRows (e.logical id) (e'.logical id)

theorem Agree.trans (h : Agree e e' id) (h' : Agree e' e'' id) : Agree e e'' id := by
  unfold Agree at h h' ⊢
  generalize e.logical id = o at h ⊢
  generalize e'.logical id = o' at h h'
  generalize e''.logical id = o'' at h' ⊢
  cases h with
  | none => exact h'
  | some hrows =>
    cases h' with
    | some hrows' => exact .some (hrows.trans hrows')

theorem Agree.rows_eq {r : RecordId} (h : Agree e e' r.page) : e'.rows r = e.rows r := by
  unfold Agree at h
  unfold rows
  generalize e.logical r.page = o at h ⊢
  generalize e'.logical r.page = o' at h ⊢
  cases h with
  | none => rfl
  | some hrows => exact (hrows.row r.slot).symm

/-- Nobody sees a difference where the rows are seen as before, no page has become dirty and no window
has changed. -/
theorem agree_of_shows (hr : e.Recovers id) (hr' : e'.Recovers id) (hread : e'.Readable id)
    (hshows : ∀ p, e.Shows id p → e'.Shows id p) (hstored : e'.stored id = e.stored id)
    (hdirty : e'.pool.dirtiedBy id = e.pool.dirtiedBy id) : Agree e e' id := by
  unfold Agree
  cases hp : e.logical id with
  | some p =>
    obtain ⟨q, hq, hrows⟩ := (hshows p (hr.shows_of_logical hp)).logical hread
    rw [hq]
    exact .some hrows.symm
  | none =>
    -- a page that cannot be read before is not resident, and cannot be read after
    obtain ⟨hres, hnone⟩ := Option.or_eq_none_iff.1 hp
    cases hp' : e'.logical id with
    | none => exact .none
    | some p' =>
      exfalso
      have hclean : e'.pool.dirtiedBy id = none := by
        rw [hdirty, Pool.dirtiedBy, hres]
        rfl
      have hfiled : e'.Filed id p' := by
        rcases hr'.shows_of_logical hp' with ⟨q, hq, hrows, hd | hf⟩ | ⟨-, hf⟩
        · rw [Pool.dirtiedBy, hq] at hclean
          exact absurd hclean hd
        · exact hf
        · exact hf
      obtain ⟨q, hq, -⟩ := hfiled.stored hread
      rw [hstored, hnone] at hq
      cases hq

/-- The rows that are seen are those that are read. -/
theorem Shows.row_eq {r : RecordId} (h : e.Shows r.page p) (hr : e.Readable r.page) :
    e.rows r = p.row r.slot := by
  obtain ⟨q, hq, hrows⟩ := h.logical hr
  rw [rows, hq, Option.bind_some, hrows.row]

/-! ### Quiet moves -/

/-- Pages have been loaded and have given way, but the files are the same, and whatever can be read. -/
structure LooksAlike (e e' : Engine) : Prop where
  tables : e'.pool.tables = e.pool.tables
  disk : e'.disk = e.disk
  agree : ∀ id, e.Readable id → Agree e e' id

theorem readable_congr (ht : e'.pool.tables = e.pool.tables) (hd : e'.disk = e.disk) :
    e'.Readable id ↔ e.Readable id := by
  unfold Readable
  rw [table?_congr ht, hd]

theorem LooksAlike.trans (h : LooksAlike e e') (h' : LooksAlike e' e'') : LooksAlike e e'' where
  tables := h'.tables.trans h.tables
  disk := h'.disk.trans h.disk
  agree id hr := (h.agree id hr).trans (h'.agree id ((readable_congr h.tables h.disk).2 hr))

/-- Every page that gives way can be read again as it was, and the files reach all pages in memory. -/
structure Faithful (e : Engine) (held : List Checkout) : Prop extends e.Orderly held where
  recovers : ∀ id, e.Recovers id
  within : ∀ id p t, e.pool.page? id = some p → e.table? id.table = some t → t.Reaches e.disk id.page

theorem Orderly.size_le_moves (h : e.Orderly (own ++ base)) (hm : Moves base own e m own' e')
    (hp : m.Proper e) {k : Nat} (ht : e.table? k = some t) :
    (e.disk.contents t.path).size ≤ (e'.disk.contents t.path).size := by
  have hstore : ∀ u n data, e.table? u.id = some u → data.length = u.pageSize →
      (e.disk.contents t.path).size ≤ ((u.store e.disk n data).contents t.path).size := by
    intro u n data hu hl
    by_cases hid : t.id = u.id
    · obtain rfl := h.mounted.apart t u (h.own_id ht) hu hid
      exact (h.stands k t ht).size_le_store hl
    · exact Table.size_le_store_of_ne hid
  cases hw : m.writes with
  | false => exact Nat.le_of_eq (by rw [hm.disk_eq hw])
  | true =>
    cases m with
    | grow u =>
      cases hm
      exact hstore u _ _ hp (Table.length_zeros _)
    | writeBack id only =>
      rcases h.writeBack_cases hm with rfl | ⟨c, p, u, -, -, hu, hb, -, rfl⟩
      · exact Nat.le_refl _
      · exact hstore u _ _ (h.own_id hu) hb.length_toBytes
    | _ => cases hw

theorem Orderly.size_le_trace (h : e.Orderly (own ++ base)) (ht : Trace base own e ms own' e')
    (hp : ∀ m ∈ ms, m.Proper e) {k : Nat} (hk : e.table? k = some t) :
    (e.disk.contents t.path).size ≤ (e'.disk.contents t.path).size := by
  induction ht with
  | nil => exact Nat.le_refl _
  | @cons own _ _ e e1 _ m ms hm _ ih =>
    have hm' := hp m List.mem_cons_self
    have htables := (hm.turned h.pool).2.tables
    refine Nat.le_trans (h.size_le_moves hm hm' hk) (ih (h.moves hm hm') (fun m' hmem => ?_) ?_)
    · exact (hp m' (List.mem_cons_of_mem _ hmem)).congr htables
    · exact (table?_congr htables k).trans hk

/-- The files reach what is loaded, and have grown for what is taken in. -/
theorem Orderly.within_trace (h : e.Orderly (own ++ base)) (ht : Trace base own e ms own' e')
    (hp : ∀ m ∈ ms, m.Proper e)
    (hadopt : ∀ id page, .adopt id page ∈ ms → ∀ t, e.table? id.table = some t → t.Reaches e'.disk id.page)
    (hin : ∀ id p t, e.pool.page? id = some p → e.table? id.table = some t → t.Reaches e'.disk id.page) :
    ∀ id p t, e'.pool.page? id = some p → e'.table? id.table = some t → t.Reaches e'.disk id.page := by
  induction ht with
  | nil => exact hin
  | @cons own _ _ e e1 e2 m ms hm hrest ih =>
    have hm' := hp m List.mem_cons_self
    have hsize := fun {k} {t} => h.size_le_trace (.cons hm hrest) hp (k := k) (t := t)
    obtain ⟨-, hturned⟩ := hm.turned h.pool
    have htable (k : Nat) : e1.table? k = e.table? k := table?_congr hturned.tables k
    refine ih (h.moves hm hm')
      (fun m' hmem => (hp m' (List.mem_cons_of_mem _ hmem)).congr hturned.tables)
      (fun id page hmem t ht => hadopt id page (List.mem_cons_of_mem _ hmem) t (htable _ ▸ ht))
      fun id p t hres ht => ?_
    rw [htable] at ht
    obtain ⟨c, hc, hpage⟩ := exists_copy_of_page? hres
    rcases hturned.origin id c p hc hpage with (⟨-, hread⟩ | rfl) | ⟨q, hc0, hq, -⟩
    · obtain ⟨u, hu, hn, -⟩ := window_of_read hread
      obtain rfl : t = u := Option.some.inj (ht.symm.trans hu)
      exact Nat.lt_of_lt_of_le (Table.reaches_of_lt_pageCount hn) (hsize ht)
    · exact hadopt id p List.mem_cons_self t ht
    · exact hin id q t ((page?_of_copyOf? hc0).trans hq) ht

namespace Faithful

theorem perm {held' : List Checkout} (h : e.Faithful held) (hperm : held.Perm held') :
    e.Faithful held' := ⟨h.toOrderly.perm hperm, h.recovers, h.within⟩

/-- A move that leaves all pages and writes nothing is not seen. -/
theorem quiet (h : e.Faithful (own ++ base)) (hm : Moves base own e m own' e')
    (hl : ∀ id, m.Leaves id) (hw : m.writes = false) :
    e'.Faithful (own' ++ base) ∧ LooksAlike e e' := by
  have hproper : m.Proper e := by
    cases m with
    | adopt id page => exact absurd rfl (hl id)
    | grow => cases hw
    | _ => trivial
  have htables := (hm.turned h.pool).2.tables
  have hdisk := hm.disk_eq hw
  have hrec : ∀ id, e'.Recovers id := fun id =>
    h.recovers_moves hm hproper (hl id) (h.recovers id)
  refine ⟨⟨h.moves hm hproper, hrec, ?_⟩, htables, hdisk, fun id hread => ?_⟩
  · have hone : ∀ m' ∈ [m], m'.Proper e := fun m' hmem => by
      rwa [List.mem_singleton.1 hmem]
    refine h.within_trace (.one hm) hone (fun id page hmem => ?_) fun id p t hp ht => ?_
    · exact absurd rfl (List.mem_singleton.1 hmem ▸ hl id)
    · rw [hdisk]
      exact h.within id p t hp ht
  · have hpass := hm.passes h.pool (fun q hq => (h.housed id q hq).1) (hl id)
    refine agree_of_shows (h.recovers id) (hrec id) ((readable_congr htables hdisk).2 hread)
      (fun p => h.shows_moves hm hproper (hl id)) (stored_congr htables hdisk) ?_
    rcases hpass.dirtiedBy with hsame | ⟨⟨only, rfl⟩, -⟩
    · exact hsame
    · cases hw

/-- A page that is written back lies within its file already. -/
theorem writeBack (h : e.Faithful (own ++ base)) {only : Option TxnId}
    (hm : Moves base own e (.writeBack id only) own' e') : e'.Faithful (own' ++ base) ∧
      ∀ k t, e.table? k = some t → t.span e'.disk = t.span e.disk := by
  refine ⟨⟨h.moves hm trivial, fun id => h.recovers_moves hm trivial trivial (h.recovers id), ?_⟩, ?_⟩
  · refine h.within_trace (.one hm) (fun m hmem => ?_) (fun id page hmem => ?_) fun id p t hp ht => ?_
    · rw [List.mem_singleton.1 hmem]
      trivial
    · cases List.mem_singleton.1 hmem
    · exact Nat.lt_of_lt_of_le (h.within id p t hp ht) (h.size_le_moves hm trivial ht)
  · intro k t ht
    rcases h.writeBack_cases hm with rfl | ⟨c, p, u, hc, hp, hu, hb, -, rfl⟩
    · rfl
    · by_cases hid : t.id = u.id
      · obtain rfl := h.mounted.apart t u (h.own_id ht) (h.own_id hu) hid
        exact Table.span_store (h.stands k t ht) hb.length_toBytes
          (h.within id p t ((page?_of_copyOf? hc).trans hp) hu)
      · exact Table.span_store_of_ne hid

theorem writeBacks (h : e.Faithful (own ++ base)) (ht : Trace base own e ms own' e')
    (hms : ∀ m ∈ ms, ∃ id only, m = .writeBack id only) {k : Nat} (hk : e.table? k = some t) :
    t.span e'.disk = t.span e.disk := by
  induction ht with
  | nil => rfl
  | cons hm _ ih =>
    obtain ⟨id, only, rfl⟩ := hms _ List.mem_cons_self
    obtain ⟨h1, hspan⟩ := h.writeBack hm
    have hk1 := (table?_congr (hm.turned h.pool).2.tables k).trans hk
    exact (ih h1 (fun m hm => hms m (List.mem_cons_of_mem _ hm)) hk1).trans (hspan k t hk)

/-- The request fails, or the page is checked out and is the one that is read under its id. -/
theorem getPage (h : e.Faithful held) (id : PageId) (access : Access) :
    (∃ err e', e.getPage id access = (.error err, e')) ∨
    ∃ c p e', e.getPage id access = (.ok ⟨c, access⟩, e') ∧ e'.Faithful (⟨c, access⟩ :: held) ∧
      LooksAlike e e' ∧ e'.pool.copyOf? id = some c ∧ e'.pool.copies.page? c = some p := by
  have h0 : e.Faithful ([] ++ held) := h
  rcases h.toOrderly.getPage id access with ⟨err, e', hget, -⟩ | ⟨c, p, e', hget, -, hc, hp, -⟩
  · exact .inl ⟨err, e', hget⟩
  · obtain ⟨h', hlook⟩ := h0.quiet (.got hget) (fun _ => trivial) rfl
    exact .inr ⟨c, p, e', hget, h', hlook, hc, hp⟩

theorem release {g : Checkout} (h : e.Faithful (g :: held)) :
    (e.release g).Faithful held ∧ LooksAlike e (e.release g) := by
  have h0 : e.Faithful ([g] ++ held) := h
  exact h0.quiet .released (fun _ => trivial) rfl

end Faithful

end Engine

end HeapStore
