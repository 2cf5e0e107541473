import HeapStore.Proofs.CallTraces

/-! What calls write to the files. A flush stores pages one after the other, each in the window of its
own number. An insert that has found every page of its table full stores zeros behind the last one. No
other move writes anything. -/

namespace HeapStore

/-! ### Storing pages -/

/-- The page belongs to this table's file and fills one of its windows. -/
structure Page.Fits (p : Page) (t : Table) : Prop where
  sound : p.Sound
  table : p.id.table = t.id
  pageSize : p.layout.pageSize = t.pageSize
  number : p.id.page < 0x100000000

namespace Page.Fits

variable {p : Page} {t : Table}

theorem length_toBytes (h : p.Fits t) : p.toBytes.length = t.pageSize :=
  h.sound.length_toBytes.trans h.pageSize

theorem writePage_eq (h : p.Fits t) (d : Disk) :
    t.writePage d p = (.ok (), p.withBefore p.toBytes, t.store d p.id.page p.toBytes) :=
  t.writePage_eq d h.sound h.table h.number

theorem of_kind {id : PageId} {s : Schema} (h : p.Kind id s t.pageSize) (ht : id.table = t.id)
    (hn : id.page < 0x100000000) : p.Fits t :=
  ⟨h.sound, by rw [h.id, ht], h.pageSize, by rw [h.id]; exact hn⟩

theorem cleaned (h : p.Fits t) : p.cleaned.Fits t :=
  ⟨(h.sound.withBefore p.toBytes).markDirty false ⟨0⟩, h.table, h.pageSize, h.number⟩

theorem call (h : p.Fits t) (c : Page.Call) : (p.call c).Fits t := by
  have hk : p.Kind p.id p.schema t.pageSize := ⟨h.sound, rfl, rfl, h.pageSize⟩
  exact of_kind (hk.call c) h.table h.number

end Page.Fits

namespace Table

/-- The disk after pages were stored, one after the other, in the files of these tables. -/
def storeAll (ws : List (Table × Page)) (d : Disk) : Disk :=
  ws.foldl (fun d w => w.1.store d w.2.id.page w.2.toBytes) d

/-- Tables with files that are there, of which no two share an id. -/
structure Mounted (T : Table → Prop) (d : Disk) : Prop where
  stands : ∀ t, T t → t.Stands d
  apart : ∀ t u, T t → T u → t.id = u.id → t = u

variable {T : Table → Prop} {d : Disk} {t u : Table} {n : Nat} {data : Bytes}
  {ws : List (Table × Page)} {w : Table × Page}

namespace Mounted

theorem store (h : Mounted T d) (ht : T t) : Mounted T (t.store d n data) :=
  ⟨fun u hu => (h.stands t ht).store (h.stands u hu), h.apart⟩

theorem storeAll (h : Mounted T d) (hws : ∀ w ∈ ws, T w.1) : Mounted T (storeAll ws d) := by
  induction ws generalizing d with
  | nil => exact h
  | cons w ws ih =>
    exact ih (h.store (hws w List.mem_cons_self)) fun w hw => hws w (List.mem_cons_of_mem _ hw)

theorem window_store (h : Mounted T d) (ht : T t) (hl : data.length = t.pageSize) (hu : T u)
    (m : Nat) : u.window (t.store d n data) m = if u = t ∧ m = n then data else u.window d m := by
  by_cases hid : u.id = t.id
  · obtain rfl := h.apart u t hu ht hid
    rw [Table.window_store (h.stands u ht) hl]
    simp
  · rw [window_store_of_ne hid, if_neg]
    rintro ⟨rfl, -⟩
    exact hid rfl

/-- A window that none of the pages belongs to is left as it is. -/
theorem window_storeAll_of_ne (h : Mounted T d) (hws : ∀ w ∈ ws, T w.1 ∧ w.2.Fits w.1) (hu : T u)
    (hn : ∀ w ∈ ws, w.1 = u → w.2.id.page ≠ n) :
    u.window (Table.storeAll ws d) n = u.window d n := by
  induction ws generalizing d with
  | nil => rfl
  | cons w ws ih =>
    obtain ⟨ht, hfit⟩ := hws w List.mem_cons_self
    have h' : Mounted T (w.1.store d w.2.id.page w.2.toBytes) := h.store ht
    have hrest := ih h' (fun w hw => hws w (List.mem_cons_of_mem _ hw))
      fun w hw => hn w (List.mem_cons_of_mem _ hw)
    refine hrest.trans ?_
    rw [h.window_store ht hfit.length_toBytes hu, if_neg]
    rintro ⟨rfl, rfl⟩
    exact hn w List.mem_cons_self rfl rfl

/-- A page is found in its window, unless another page with its id was stored too. -/
theorem window_storeAll (h : Mounted T d) (hws : ∀ w ∈ ws, T w.1 ∧ w.2.Fits w.1) (hw : w ∈ ws)
    (hlone : ∀ w' ∈ ws, w'.2.id = w.2.id → w'.2 = w.2) :
    w.1.window (Table.storeAll ws d) w.2.id.page = w.2.toBytes := by
  induction ws generalizing d with
  | nil => cases hw
  | cons v ws ih =>
    have hrest : ∀ w ∈ ws, T w.1 ∧ w.2.Fits w.1 := fun w hw => hws w (List.mem_cons_of_mem _ hw)
    obtain ⟨ht, hfit⟩ := hws v List.mem_cons_self
    obtain ⟨htw, hfitw⟩ := hws w hw
    by_cases hlater : w ∈ ws
    · exact ih (h.store ht) hrest hlater fun w' hw' => hlone w' (List.mem_cons_of_mem _ hw')
    · obtain rfl : w = v := (List.mem_cons.1 hw).resolve_right hlater
      -- the pages after this one belong to other windows
      have hn : ∀ w' ∈ ws, w'.1 = w.1 → w'.2.id.page ≠ w.2.id.page := by
        intro w' hw' htable hpage
        have hid : w'.2.id = w.2.id := by
          have htables : w'.2.id.table = w.2.id.table := by
            rw [(hrest w' hw').2.table, htable, hfit.table]
          revert htables hpage
          cases w'.2.id
          cases w.2.id
          rintro rfl rfl
          rfl
        obtain rfl : w' = w := Prod.ext htable (hlone w' (List.mem_cons_of_mem _ hw') hid)
        exact hlater hw'
      refine ((h.store ht).window_storeAll_of_ne hrest htw hn).trans ?_
      rw [h.window_store ht hfit.length_toBytes ht, if_pos ⟨rfl, rfl⟩]

end Mounted

end Table

namespace Engine

open Table (storeAll)

variable {e e' : Engine} {held base own own' : List Checkout} {ms : List Move} {id : PageId}
  {p : Page} {c : Nat}

/-! ### Write-back -/

/-- What writing back pages comes to: these were stored, each dirty and selected, and where nothing
failed, all that are so. -/
structure WroteAll (e : Engine) (only : Option TxnId) (rs : List Resident)
    (res : Except Error Nat × Engine) (ws : List (Table × Page)) : Prop where
  disk : res.2.disk = storeAll ws e.disk
  selected : ∀ w ∈ ws, ∃ r ∈ rs, e.pool.copies.page? r.copy = some w.2 ∧
    w.2.isSelected only = true ∧ e.table? r.page.table = some w.1
  complete : ∀ n, res.1 = .ok n → ∀ r ∈ rs, ∀ p, e.pool.copies.page? r.copy = some p →
    p.isSelected only = true → ∃ t, (t, p) ∈ ws

section

variable {only : Option TxnId} {r : Resident} {rs : List Resident} {res : Except Error Nat × Engine}
  {ws : List (Table × Page)} {t : Table}

theorem WroteAll.skip (h : WroteAll e only rs res ws) (hp : e.pool.copies.page? r.copy = some p)
    (hsel : p.isSelected only = false) : WroteAll e only (r :: rs) res ws where
  disk := h.disk
  selected w hw := by
    obtain ⟨r', hr', hrest⟩ := h.selected w hw
    exact ⟨r', List.mem_cons_of_mem _ hr', hrest⟩
  complete n hn r' hr' q hq hselq := by
    rcases List.mem_cons.1 hr' with rfl | hr'
    · obtain rfl : p = q := Option.some.inj (hp.symm.trans hq)
      rw [hsel] at hselq
      cases hselq
    · exact h.complete n hn r' hr' q hq hselq

theorem WroteAll.store (hp : e.pool.copies.page? r.copy = some p) (hsel : p.isSelected only = true)
    (ht : e.table? r.page.table = some t)
    (h : WroteAll { e.setPage r.copy p.cleaned with disk := t.store e.disk p.id.page p.toBytes }
      only rs res ws) : WroteAll e only (r :: rs) res ((t, p) :: ws) where
  disk := h.disk
  selected w hw := by
    rcases List.mem_cons.1 hw with rfl | hw
    · exact ⟨r, List.mem_cons_self, hp, hsel, ht⟩
    · obtain ⟨r', hr', hpage, hsel', ht'⟩ := h.selected w hw
      refine ⟨r', List.mem_cons_of_mem _ hr', ?_, hsel', ht'⟩
      have hpage : (e.setPage r.copy p.cleaned).pool.copies.page? r'.copy = some w.2 := hpage
      rw [Coherent.page?_setPage hp] at hpage
      -- a page that was written is clean, and so it is not selected again
      split at hpage
      · rw [← Option.some.inj hpage] at hsel'
        cases hsel'
      · exact hpage
  complete n hn r' hr' q hq hselq := by
    by_cases hcopy : r'.copy = r.copy
    · rw [hcopy, hp] at hq
      cases hq
      exact ⟨t, List.mem_cons_self⟩
    · have hr' : r' ∈ rs := (List.mem_cons.1 hr').resolve_left fun h => hcopy (congrArg _ h)
      have hpage : (e.setPage r.copy p.cleaned).pool.copies.page? r'.copy = some q := by
        rw [Coherent.page?_setPage hp, if_neg hcopy, hq]
      obtain ⟨t', ht'⟩ := h.complete n hn r' hr' q hpage hselq
      exact ⟨t', List.mem_cons_of_mem _ ht'⟩

end

/-- Pages are written back in turn, up to the first failure. -/
theorem writeBackAll_wroteAll (hs : e.pool.Sound held) (only : Option TxnId) (count : Nat)
    {rs : List Resident} (hrs : ∀ r ∈ rs, e.pool.copyOf? r.page = some r.copy)
    (hfit : ∀ r ∈ rs, ∀ p, e.pool.copies.page? r.copy = some p →
      ∀ t, e.table? r.page.table = some t → p.Fits t) :
    ∃ ws, WroteAll e only rs (writeBackAll only count rs e) ws := by
  induction rs generalizing e count with
  | nil => exact ⟨[], rfl, by simp, by simp⟩
  | cons r rs ih =>
    have hrs' : ∀ r ∈ rs, e.pool.copyOf? r.page = some r.copy :=
      fun r hr => hrs r (List.mem_cons_of_mem _ hr)
    obtain ⟨p, hp⟩ := exists_page_of_sound hs (hrs r List.mem_cons_self)
    unfold writeBackAll
    rcases writeBack_wrote hp r.page only with ⟨b, heq, hskip⟩ | ⟨t, d, ht, hsel, hwrite, heq⟩
    · cases b with
      | error err =>
        simp only [heq]
        exact ⟨[], rfl, by simp, fun n hn => by cases hn⟩
      | ok written =>
        simp only [heq]
        obtain ⟨ws, h⟩ := ih hs (if written then count + 1 else count) hrs'
          fun r hr => hfit r (List.mem_cons_of_mem _ hr)
        exact ⟨ws, h.skip hp (hskip written rfl)⟩
    · rw [(hfit r List.mem_cons_self p hp t ht).writePage_eq] at hwrite
      obtain rfl : t.store e.disk p.id.page p.toBytes = d := congrArg (·.2.2) hwrite
      have hs1 : (e.setPage r.copy p.cleaned).pool.Sound held := sound_setPage hs hp p.cleaned
      have hfit1 : ∀ r' ∈ rs, ∀ q, (e.setPage r.copy p.cleaned).pool.copies.page? r'.copy = some q →
          ∀ t, e.table? r'.page.table = some t → q.Fits t := by
        intro r' hr' q hq t' ht'
        rw [Coherent.page?_setPage hp] at hq
        split at hq
        · next hcopy =>
          rw [← Option.some.inj hq]
          exact (hfit r' (List.mem_cons_of_mem _ hr') p (hcopy ▸ hp) t' ht').cleaned
        · exact hfit r' (List.mem_cons_of_mem _ hr') q hq t' ht'
      simp only [heq]
      obtain ⟨ws, h⟩ := ih
        (e := { e.setPage r.copy p.cleaned with disk := t.store e.disk p.id.page p.toBytes })
        hs1 (count + 1) hrs' hfit1
      exact ⟨(t, p) :: ws, h.store hp hsel ht⟩

/-! ### Growth -/

variable {txn : TxnId} {t : Tuple}

/-- The insert writes a page of zeros behind the last one if all pages are full, and nothing else. -/
theorem disk_insertTuple (e : Engine) (table : Table) (txn : TxnId) (t : Tuple) :
    (t.checkSchema table.schema = .ok () ∧ FindsFull table.id (table.pageCount e.disk) 0 e →
      (e.insertTuple table txn t).2.2.disk = table.grow e.disk) ∧
    (¬ (t.checkSchema table.schema = .ok () ∧ FindsFull table.id (table.pageCount e.disk) 0 e) →
      (e.insertTuple table txn t).2.2.disk = e.disk) := by
  rw [insertTuple_eq, ← insertInto_eq_none_iff txn t]
  cases hc : t.checkSchema table.schema with
  | error err => simp
  | ok =>
    have hdisk := disk_insertInto table.id txn t (table.pageCount e.disk) 0 e
    cases hinto : insertInto table.id txn t (table.pageCount e.disk) 0 e with
    | mk r rest =>
      obtain ⟨t', e1⟩ := rest
      rw [hinto] at hdisk
      cases r with
      | error err => simpa using hdisk
      | ok o =>
        cases o with
        | some rid => simpa using hdisk
        | none =>
          have hdisk : e1.disk = e.disk := hdisk
          simp only [not_true_eq_false, false_implies, and_true, forall_const]
          rw [← hdisk]
          exact disk_insertNew e1 table txn t'

/-! ### All other moves -/

/-- May the move write to a file? -/
def Move.writes : Move → Bool
  | .writeBack .. | .grow _ => true
  | _ => false

theorem Moves.disk_eq {m : Move} (h : Moves base own e m own' e') (hm : m.writes = false) :
    e'.disk = e.disk := by
  cases h with
  | @got _ _ _ id access g heq =>
    have hget := disk_getPage e id access
    rwa [heq] at hget
  | @missed _ _ _ id access err heq =>
    have hget := disk_getPage e id access
    rwa [heq] at hget
  | adopted heq | refused heq => exact (congrArg (·.2.disk) heq).symm
  | wroteBack => cases hm
  | grown => cases hm
  | _ => rfl

theorem Trace.disk_eq (h : Trace base own e ms own' e') (hms : ∀ m ∈ ms, m.writes = false) :
    e'.disk = e.disk := by
  induction h with
  | nil => rfl
  | cons hm _ ih =>
    exact (ih fun m hm => hms m (List.mem_cons_of_mem _ hm)).trans (hm.disk_eq (hms _ List.mem_cons_self))

end Engine

namespace Session

/-- An action writes nothing if it is neither a flush nor an insert. -/
theorem disk_step_eq {s : Session} {a : Action} (h : s.engine.pool.Sound s.held) (hf : a.isFlush = false)
    (hi : ∀ table txn t, a ≠ .insert table txn t) : (s.step a).2.engine.disk = s.engine.disk := by
  obtain ⟨own, own', ms, ht⟩ := step_traced h a
  refine ht.trace.disk_eq fun m hm => ?_
  cases ht.script.allowed m hm with
  | flushed hflush => rw [hf] at hflush; cases hflush
  | grown h | added h => exact absurd h (hi _ _ _)
  | adopted | discarded => rfl
  | handled _ hh =>
    cases m with
    | writeBack | grow => exact hh.elim
    | _ => rfl

/-- An insert that finds all pages full makes its table grow. -/
theorem disk_of_findsFull {s : Session} {table : Table} {k : Nat} {t : Tuple}
    (hfull : s.FindsFull k t table) (txn : TxnId) :
    (s.step (.insert k txn t)).2.engine.disk = table.grow s.engine.disk := by
  rw [step_insert hfull.1]
  exact (s.engine.disk_insertTuple table txn t).1 hfull.2

/-- Any other insert writes nothing. -/
theorem disk_of_not_findsFull {s : Session} {k : Nat} {t : Tuple}
    (hnot : ∀ table, ¬ s.FindsFull k t table) (txn : TxnId) :
    (s.step (.insert k txn t)).2.engine.disk = s.engine.disk := by
  cases ht : s.engine.table? k with
  | none => rw [step_insert_none ht]
  | some table =>
    rw [step_insert ht]
    exact (s.engine.disk_insertTuple table txn t).2 fun hfull => hnot table ⟨ht, hfull⟩

end Session

end HeapStore
