import HeapStore.Proofs.DirtyPages

/-! What becomes of a page that an action does not reach. While a move leaves a page alone, the page
stays as it is, or is written back if it was dirty, or gives way if it was clean; where no page is
resident, the file's may be loaded. So a page stays dirty by the same transaction until it is written
back. -/

namespace HeapStore

namespace Engine

variable {e e' e'' : Engine} {held base own own' : List Checkout} {m : Move} {ms : List Move}
  {id : PageId} {c : Nat} {p : Page} {txn : TxnId} {t : Tuple}

/-- The page with this id is not changed, replaced or dropped. -/
def Move.Leaves (id : PageId) : Move → Prop
  | .change id' _ calls => calls = [] ∨ id' ≠ id
  | .adopt id' _ | .discard id' => id' ≠ id
  | _ => True

/-- What is resident under an id before a move that leaves it, and after it. -/
inductive Passes (e : Engine) (m : Move) (id : PageId) : Option Page → Option Page → Prop
  | same (o : Option Page) : Passes e m id o o
  | written {p : Page} : Wrote e m id p → Passes e m id (some p) (some p.cleaned)
  | evicted {p : Page} : p.dirtiedBy = none → Passes e m id (some p) none
  | loaded {p : Page} : e.read id = .ok p → Passes e m id none (some p)

theorem Move.Leaves.not_loses (h : m.Leaves id) : ¬ Loses held m id c := by
  rintro (rfl | ⟨⟨page, rfl⟩, -⟩)
  · exact h rfl
  · exact h rfl

/-- A page that is left keeps its tuples and its mark, but where it is written back. -/
theorem Moves.turns_of_leaves (hm : Moves base own e m own' e') (hl : m.Leaves id) (hid : p.id = id)
    (hp : e.pool.copies.page? c = some p) {p' : Page} (ht : Turns e m id c p p') :
    p' = p ∨ Wrote e m id p ∧ p' = p.cleaned := by
  refine ht.imp_left fun heq => ?_
  rw [heq]
  cases hm with
  | @changed _ _ d q calls _ hq =>
    by_cases hd : d = c
    · subst hd
      obtain rfl : q = p := Option.some.inj (hq.symm.trans hp)
      obtain rfl : calls = [] := hl.resolve_right fun hne => hne hid
      rw [Move.callsOn, if_pos rfl]
      rfl
    · rw [Move.callsOn, if_neg hd]
      rfl
  | _ => rfl

theorem exists_copy_of_page? (hp : e.pool.page? id = some p) :
    ∃ c, e.pool.copyOf? id = some c ∧ e.pool.copies.page? c = some p := Option.bind_eq_some_iff.1 hp

/-- What is resident after the step was loaded, or comes from the page that was resident before. -/
theorem Moves.origin_of_leaves (hm : Moves base own e m own' e') (hs : e.pool.Sound (own ++ base))
    (hn : ∀ p, e.pool.page? id = some p → p.id = id) (hl : m.Leaves id) {p' : Page}
    (hp' : e'.pool.page? id = some p') : (m = .get id ∧ e.read id = .ok p') ∨
      ∃ p, e.pool.page? id = some p ∧ (p' = p ∨ Wrote e m id p ∧ p' = p.cleaned) := by
  obtain ⟨-, ht⟩ := hm.turned hs
  obtain ⟨c, hc, hpage⟩ := exists_copy_of_page? hp'
  rcases ht.origin id c p' hc hpage with (hget | rfl) | ⟨p, hc0, hp0, hturn⟩
  · exact .inl hget
  · exact absurd rfl hl
  · have hres := (page?_of_copyOf? hc0).trans hp0
    exact .inr ⟨p, hres, hm.turns_of_leaves hl (hn p hres) hp0 hturn⟩

theorem Moves.passes (hm : Moves base own e m own' e') (hs : e.pool.Sound (own ++ base))
    (hn : ∀ p, e.pool.page? id = some p → p.id = id) (hl : m.Leaves id) :
    Passes e m id (e.pool.page? id) (e'.pool.page? id) := by
  obtain ⟨-, ht⟩ := hm.turned hs
  cases hp : e.pool.page? id with
  | none =>
    cases hp' : e'.pool.page? id with
    | none => exact .same none
    | some p' =>
      rcases hm.origin_of_leaves hs hn hl hp' with ⟨-, hread⟩ | ⟨p, hres, -⟩
      · exact .loaded hread
      · rw [hp] at hres
        cases hres
  | some p =>
    obtain ⟨c, hc, hpage⟩ := exists_copy_of_page? hp
    by_cases hspare : Spares (own ++ base) m id c p
    · rcases ht.stays id c p hc hpage hspare with hlose | ⟨p', hc', hp', hturn⟩
      · exact absurd hlose hl.not_loses
      · rw [page?_of_copyOf? hc', hp']
        rcases hm.turns_of_leaves hl (hn p hp) hpage hturn with rfl | ⟨hw, rfl⟩
        · exact .same _
        · exact .written hw
    · -- only a clean page gives way
      obtain ⟨hd, hnot⟩ := not_or.1 hspare
      have hclean : p.dirtiedBy = none := not_not.1 hd
      cases hp' : e'.pool.page? id with
      | none => exact .evicted hclean
      | some p' =>
        rcases hm.origin_of_leaves hs hn hl hp' with ⟨rfl, -⟩ | ⟨q, hres, hturn⟩
        · exact absurd (.inr (.inl rfl)) hnot
        · obtain rfl : p = q := Option.some.inj (hp.symm.trans hres)
          rcases hturn with rfl | ⟨hw, rfl⟩
          · exact .same _
          · exact .written hw

theorem Passes.named {o o' : Option Page} (h : Passes e m id o o') (ho : ∀ p ∈ o, p.id = id) :
    ∀ p ∈ o', p.id = id := by
  cases h with
  | same => exact ho
  | @written p _ =>
    rintro _ ⟨⟩
    exact ho p rfl
  | evicted => simp
  | loaded hread =>
    rintro _ ⟨⟩
    obtain ⟨t, -, -, -, hk⟩ := kind_of_read hread
    exact hk.id

theorem Passes.dirtiedBy {o o' : Option Page} (h : Passes e m id o o') :
    o'.bind (·.dirtiedBy) = o.bind (·.dirtiedBy) ∨
      (∃ only, m = .writeBack id only) ∧ o'.bind (·.dirtiedBy) = none := by
  cases h with
  | same => exact .inl rfl
  | written hw =>
    obtain ⟨only, hm, -⟩ := hw.selected
    exact .inr ⟨⟨only, hm⟩, rfl⟩
  | evicted hclean => exact .inl hclean.symm
  | loaded hread => exact .inl (dirtiedBy_of_read hread)

/-- Moves that leave a page leave its mark, unless they write it back. -/
theorem Trace.dirtiedBy_cases (h : Trace base own e ms own' e') (hs : e.pool.Sound (own ++ base))
    (hn : ∀ p, e.pool.page? id = some p → p.id = id) (hl : ∀ m ∈ ms, m.Leaves id) :
    e'.pool.dirtiedBy id = e.pool.dirtiedBy id ∨
      (∃ only, .writeBack id only ∈ ms) ∧ e'.pool.dirtiedBy id = none := by
  induction h with
  | nil => exact .inl rfl
  | @cons own _ _ e e1 e2 m ms hm _ ih =>
    have hpass := hm.passes hs hn (hl m List.mem_cons_self)
    rcases ih (hm.turned hs).1 (hpass.named hn) fun m hm => hl m (List.mem_cons_of_mem _ hm) with
      heq | ⟨⟨only, hmem⟩, hnone⟩
    · rcases hpass.dirtiedBy with hsame | ⟨⟨only, rfl⟩, hclean⟩
      · exact .inl (heq.trans hsame)
      · exact .inr ⟨⟨only, List.mem_cons_self⟩, heq.trans hclean⟩
    · exact .inr ⟨⟨only, List.mem_cons_of_mem _ hmem⟩, hnone⟩

end Engine

namespace Session

variable {s : Session} {a : Action} {id : PageId} {m : Engine.Move}

theorem Allows.leaves (h : s.Allows a m) (ha : s.altered a ≠ some id) : m.Leaves id := by
  cases h with
  | handled _ hh =>
    cases m with
    | get | release | refuse => trivial
    | change id' c calls => exact hh.imp_right fun ⟨ht, _⟩ hid => ha (hid ▸ ht)
    | _ => exact hh.elim
  | flushed | grown => trivial
  | adopted _ halt | added _ _ halt => exact fun hid => ha (hid ▸ halt)
  | discarded h =>
    subst h
    exact fun hid => ha (congrArg some hid)

theorem Allows.not_writeBack {only : Option TxnId} (h : s.Allows a (.writeBack id only))
    (hf : a.isFlush = false) : False := by
  cases h with
  | handled _ hh => exact hh
  | flushed hflush => rw [hf] at hflush; cases hflush

end Session

end HeapStore
