import HeapStore.Proofs.SessionSteps

/-! The engine refines a map from record ids to values. Over every run of plain actions, on a pool of
any size, an insert adds the row it answers, a delete removes the row of its tuple, and no load, no
eviction, no flush, no scan and no failure shows in the map. -/

namespace HeapStore.Session

theorem plain_run_refines {d : Disk} {n : Nat} {ts : List Table}
    (hts : ∀ t ∈ ts, t.Stands d ∧ t.Small d) {as : List Action} {a : Action}
    (h : (start d n ts).Along PlainAndSmall (as ++ [a])) : ((start d n ts).after as).Refines a := by
  obtain ⟨has, ⟨hplain, hsmall⟩, -⟩ := along_append.1 h
  obtain ⟨hsound, hmarked⟩ := has.plain_invariant (start_sound n hts) (start_marked d n ts)
  exact (hsound.plain_step hplain (hmarked.releasesMarked a) hsmall).refines

/-- A page is filled and written back, and a second one takes its place in the only frame. -/
def reloadRun : List Action :=
  [.insert tinyTable.id ⟨1⟩ (tinyTuple 7 none), .insert tinyTable.id ⟨1⟩ (tinyTuple 8 none),
    .flushPage (tinyPage 0), .insert tinyTable.id ⟨2⟩ (tinyTuple 9 none), .flushPage (tinyPage 1)]

/-- The first page has to be loaded again to remove a tuple from it. -/
theorem plain_run_refines_reload :
    (start tinyDisk 1 [tinyTable]).Along PlainAndSmall
        (reloadRun ++ [.delete ⟨3⟩ (tinyTuple 8 (some ⟨tinyPage 0, 1⟩))]) ∧
      ((start tinyDisk 1 [tinyTable]).after reloadRun).Refines
        (.delete ⟨3⟩ (tinyTuple 8 (some ⟨tinyPage 0, 1⟩))) := by
  have h : (start tinyDisk 1 [tinyTable]).Along PlainAndSmall
      (reloadRun ++ [.delete ⟨3⟩ (tinyTuple 8 (some ⟨tinyPage 0, 1⟩))]) := by
    decide +kernel
  exact ⟨h, plain_run_refines tinyDisk_ready h⟩

end HeapStore.Session
