import HeapStore.Proofs.FileWindow

/-! Opening a file again. Directories stay where they were made, and so does a file, whatever is written to
it; so a path that was opened once leads to the same file from then on, and opening it changes nothing. -/

namespace HeapStore

namespace Disk

/-- Directories stay. -/
def KeepsDirs (d d' : Disk) : Prop := ∀ path, d.node? path = some .directory → d'.node? path = some .directory

/-- The directory at the path is there, and so are those on the way to it. -/
structure HasDir (d : Disk) (p : Path) : Prop where
  reach : d.reach p = .ok ()
  node : d.node? p.canonical = some .directory

/-- A file stands at the path, and the directories above it are there. -/
structure HasFile (d : Disk) (p : Path) : Prop where
  above : ∀ dir rest, p.above = dir :: rest → d.HasDir dir
  reach : d.reach p = .ok ()
  ending : p.ending = .name
  node : ∃ c, d.node? p.canonical = some (.file c)

variable {d d' d'' : Disk} {p : Path} {path : String} {n : Node} {c : Contents}

theorem KeepsDirs.refl (d : Disk) : KeepsDirs d d := fun _ h => h

theorem KeepsDirs.trans (h : KeepsDirs d d') (h' : KeepsDirs d' d'') : KeepsDirs d d'' :=
  fun path hp => h' path (h path hp)

theorem node?_put_self (d : Disk) (h : path ≠ "") (n : Node) : (d.put path n).node? path = some n := by
  simp [node?, put, h]

theorem keepsDirs_put (h : d.node? path ≠ some .directory) (n : Node) : KeepsDirs d (d.put path n) := by
  intro other hother
  have hne : other ≠ path := by
    rintro rfl
    exact h hother
  rwa [d.node?_put_of_ne hne]

/-! ### Following a path -/

theorem KeepsDirs.enter (h : KeepsDirs d d') {dir : String} {names : List String}
    (he : d.enter dir names = .ok ()) : d'.enter dir names = .ok () := by
  induction names generalizing dir with
  | nil => rfl
  | cons name rest ih =>
    unfold Disk.enter at he ⊢
    split at he
    · cases he
    · next hname =>
      rw [if_neg hname]
      split at he
      · next hnode =>
        rw [h _ hnode]
        exact ih he
      · cases he
      · cases he

theorem KeepsDirs.reach (h : KeepsDirs d d') (hr : d.reach p = .ok ()) : d'.reach p = .ok () := by
  unfold Disk.reach at hr ⊢
  split at hr
  · cases hr
  · unfold reachNames at hr ⊢
    split at hr
    · next hnode => rw [h _ hnode]
    · split
      · rfl
      · exact h.enter hr

/-- Where nothing can be reached, it is not for a directory. -/
theorem enter_ne_isDirectory (d : Disk) (dir : String) (names : List String) :
    d.enter dir names ≠ .error .isDirectory := by
  induction names generalizing dir with
  | nil => exact fun h => by cases h
  | cons name rest ih =>
    unfold enter
    split
    · exact fun h => by cases h
    · split
      · exact ih _
      · exact fun h => by cases h
      · exact fun h => by cases h

theorem reach_ne_isDirectory (d : Disk) (p : Path) : d.reach p ≠ .error .isDirectory := by
  unfold reach
  split
  · next e he =>
    unfold checkPath at he
    split at he
    · cases he; exact fun h => by cases h
    · split at he
      · cases he; exact fun h => by cases h
      · cases he
  · unfold reachNames
    split
    · exact fun h => by cases h
    · exact d.enter_ne_isDirectory _ _

/-- What a path leads to, in a directory that can be reached. -/
theorem locate_of_reach (hr : d.reach p = .ok ()) : d.locate p =
    match d.node? p.canonical with
    | some .directory => .error .isDirectory
    | some (.file _) => if p.ending = .name then .ok p.canonical else .error .notDirectory
    | none => .error (missing p.names) := by
  unfold locate
  cases d.node? p.canonical with
  | none => simp only [hr]
  | some node => cases node <;> simp only [hr]

theorem missing_cases (names : List String) : missing names = .nameTooLong ∨ missing names = .notFound := by
  unfold missing
  split
  · exact .inl rfl
  · exact .inr rfl

/-! ### Directories -/

theorem HasDir.mono (h : d.HasDir p) (hk : KeepsDirs d d') : d'.HasDir p := ⟨hk.reach h.reach, hk _ h.node⟩

theorem HasDir.hasDirectory (h : d.HasDir p) : d.hasDirectory p = true := by
  unfold Disk.hasDirectory
  rw [locate_of_reach h.reach, h.node]
  rfl

theorem hasDir_of_hasDirectory (h : d.hasDirectory p = true) : d.HasDir p := by
  unfold Disk.hasDirectory at h
  cases hr : d.reach p with
  | error e =>
    have he : d.locate p = .error e := by
      unfold locate
      rw [hr]
    simp only [he, decide_eq_true_eq] at h
    exact absurd (h ▸ hr) (d.reach_ne_isDirectory p)
  | ok u =>
    refine ⟨hr, ?_⟩
    rw [locate_of_reach hr] at h
    cases hn : d.node? p.canonical with
    | none =>
      rw [hn] at h
      rcases missing_cases p.names with hm | hm <;> simp [hm] at h
    | some node =>
      cases node with
      | directory => rfl
      | file c =>
        rw [hn] at h
        by_cases hending : p.ending = .name <;> simp [hending] at h

/-- Nothing stands there yet. -/
theorem path_ne_of_node? (h : d.node? path = none) : path ≠ "" := by
  rintro rfl
  cases h

theorem makeDir_cases (d : Disk) (p : Path) : (∃ e, d.makeDir p = (.error e, d)) ∨
    d.reach p = .ok () ∧ d.node? p.canonical = none ∧
      d.makeDir p = (.ok (), d.put p.canonical .directory) := by
  unfold makeDir
  cases hr : d.reach p with
  | error e => exact .inl ⟨e, rfl⟩
  | ok u =>
    cases hn : d.node? p.canonical with
    | some node => exact .inl ⟨_, rfl⟩
    | none =>
      rcases missing_cases p.names with hm | hm
      · exact .inl ⟨.nameTooLong, by simp only [hm]⟩
      · exact .inr ⟨rfl, rfl, by simp only [hm]⟩

/-- A directory that is there is not made again. -/
theorem HasDir.ensureDir (h : d.HasDir p) : d.ensureDir p = (.ok (), d) := by
  unfold Disk.ensureDir makeDir
  rw [h.reach]
  simp only [h.node, h.hasDirectory, if_true]

theorem hasDir_of_ensureDir (h : d.ensureDir p = (.ok (), d')) : d'.HasDir p := by
  unfold Disk.ensureDir at h
  rcases d.makeDir_cases p with ⟨e, he⟩ | ⟨hr, hn, he⟩
  · -- the directory was there
    rw [he] at h
    split at h
    · next heq =>
      cases heq
      split at h
      · next hdir =>
        cases h
        exact hasDir_of_hasDirectory hdir
      · cases h
    · cases h
  · rw [he] at h
    cases h
    have hkeeps : KeepsDirs d (d.put p.canonical .directory) := keepsDirs_put (by simp [hn]) _
    exact ⟨hkeeps.reach hr, d.node?_put_self (path_ne_of_node? hn) _⟩

theorem HasDir.makeDirsUpTo (h : d.HasDir p) (above : List Path) :
    d.makeDirsUpTo p above = (.ok (), d) := by
  cases above with
  | nil => exact h.ensureDir
  | cons next rest =>
    unfold Disk.makeDirsUpTo
    rw [h.ensureDir]

theorem hasDir_of_makeDirsUpTo {above : List Path} (h : d.makeDirsUpTo p above = (.ok (), d')) :
    d'.HasDir p := by
  cases above with
  | nil => exact hasDir_of_ensureDir h
  | cons next rest =>
    unfold Disk.makeDirsUpTo at h
    split at h
    · split at h
      · cases h
      · exact hasDir_of_ensureDir h
    · exact hasDir_of_ensureDir h

/-! ### The file -/

theorem HasFile.makeDirsAbove (h : d.HasFile p) : d.makeDirsAbove p = (.ok (), d) := by
  unfold Disk.makeDirsAbove
  split
  · rfl
  · next dir rest habove => exact (h.above dir rest habove).makeDirsUpTo rest

theorem hasDir_of_makeDirsAbove (h : d.makeDirsAbove p = (.ok (), d')) :
    ∀ dir rest, p.above = dir :: rest → d'.HasDir dir := by
  intro dir rest habove
  unfold Disk.makeDirsAbove at h
  rw [habove] at h
  exact hasDir_of_makeDirsUpTo h

theorem HasFile.locateOrMake (h : d.HasFile p) : d.locateOrMake p = (.ok p.canonical, d) := by
  obtain ⟨c, hc⟩ := h.node
  have hlocate : d.locate p = .ok p.canonical := by
    rw [locate_of_reach h.reach, hc]
    exact if_pos h.ending
  unfold Disk.locateOrMake
  rw [h.reach]
  simp only [h.ending, if_true, hlocate]

theorem HasFile.mono (h : d.HasFile p) (hk : KeepsDirs d d') (hn : d'.node? p.canonical = some (.file c)) :
    d'.HasFile p :=
  ⟨fun dir rest habove => (h.above dir rest habove).mono hk, hk.reach h.reach, h.ending, c, hn⟩

/-- The file was there, or is made where nothing stood. -/
theorem hasFile_of_locateOrMake {location : String} (habove : ∀ dir rest, p.above = dir :: rest → d.HasDir dir)
    (h : d.locateOrMake p = (.ok location, d')) : location = p.canonical ∧ d'.HasFile p := by
  unfold Disk.locateOrMake at h
  cases hr : d.reach p with
  | error e => rw [hr] at h; cases h
  | ok u =>
    rw [hr] at h
    simp only at h
    split at h
    · next hending =>
      rw [locate_of_reach hr] at h
      cases hn : d.node? p.canonical with
      | none =>
        have hkeeps : KeepsDirs d (d.put p.canonical (.file {})) := keepsDirs_put (by simp [hn]) _
        rcases missing_cases p.names with hm | hm
        · simp [hn, hm] at h
        · simp only [hn, hm] at h
          cases h
          exact ⟨rfl, fun dir rest hdir => (habove dir rest hdir).mono hkeeps, hkeeps.reach hr, hending,
            {}, d.node?_put_self (path_ne_of_node? hn) _⟩
      | some node =>
        cases node with
        | directory => simp [hn] at h
        | file c =>
          simp only [hn, hending, if_true] at h
          cases h
          exact ⟨rfl, habove, hr, hending, c, hn⟩
    · cases h

/-- Writing to the file leaves it where it is. -/
theorem HasFile.setContents (h : d.HasFile p) (c : Contents) :
    (d.setContents p.canonical c).HasFile p := by
  obtain ⟨c₀, hc⟩ := h.node
  exact h.mono (keepsDirs_put (by simp [hc]) _) (d.node?_put_self (path_ne_of_file hc) (.file c))

end Disk

/-! ### Opening -/

variable {d d' : Disk} {path : String}

namespace DataFile

theorem openAt_of_hasFile (h : d.HasFile (Path.parse path)) (fsync : Bool) :
    openAt d path fsync = (.ok ⟨path, (Path.parse path).canonical, fsync⟩, d) := by
  unfold openAt
  rw [h.makeDirsAbove]
  simp only [h.locateOrMake]

theorem hasFile_of_openAt {f : DataFile} {fsync : Bool} (h : openAt d path fsync = (.ok f, d')) :
    f = ⟨path, (Path.parse path).canonical, fsync⟩ ∧ d'.HasFile (Path.parse path) := by
  unfold openAt at h
  split at h
  · cases h
  · next d₁ habove =>
    split at h
    · cases h
    · next location d₂ hmake =>
      cases h
      obtain ⟨rfl, hfile⟩ := Disk.hasFile_of_locateOrMake (Disk.hasDir_of_makeDirsAbove habove) hmake
      exact ⟨rfl, hfile⟩

end DataFile

namespace Table

/-- The path that the table was opened by leads to its file. -/
structure IsOpen (t : Table) (d : Disk) : Prop where
  location : t.path = (Path.parse t.file.path).canonical
  file : d.HasFile (Path.parse t.file.path)

variable {t : Table} {s : Schema} {config : TableConfig}

theorem isOpen_of_openAt (h : openAt d path s config = (.ok t, d')) : t.IsOpen d' ∧
    t.file.path = path ∧ t.schema = s ∧ t.pageSize = config.pageSize := by
  unfold openAt at h
  split at h
  · cases h
  · next layout hmake =>
    split at h
    · cases h
    · next f d₁ hopen =>
      cases h
      obtain ⟨rfl, hfile⟩ := DataFile.hasFile_of_openAt hopen
      exact ⟨⟨rfl, hfile⟩, rfl, rfl, (Layout.make_eq_ok hmake).1⟩

theorem IsOpen.stands (h : t.IsOpen d) : t.Stands d := by
  unfold Stands
  rw [h.location]
  exact h.file.node

theorem IsOpen.store (h : t.IsOpen d) (n : Nat) (data : Bytes) : t.IsOpen (t.store d n data) := by
  refine ⟨h.location, ?_⟩
  unfold Table.store
  rw [h.location]
  exact h.file.setContents _

/-- A table that is open is found again as it is, whatever was written to it. -/
theorem IsOpen.openAt (h : t.IsOpen d) (fsync : Bool) :
    Table.openAt d t.file.path t.schema ⟨t.pageSize, fsync⟩ =
      (.ok { t with file := ⟨t.file.path, t.file.location, fsync⟩ }, d) := by
  have hmake : Layout.make t.pageSize t.schema.tupleSize = .ok t.layout := by
    rw [← t.sized]
    exact t.layout.make_sizes
  have hopen := DataFile.openAt_of_hasFile h.file fsync
  rw [← h.location] at hopen
  unfold Table.openAt
  split
  · next e he => cases hmake.symm.trans he
  · next layout hl =>
    obtain rfl : t.layout = layout := Except.ok.inj (hmake.symm.trans hl)
    rw [hopen]
    rfl

end Table

end HeapStore
