import HeapStore.Proofs.Session

/-! What becomes of the tuple that an insert is given. A tuple that was stored comes back with its new
record id; one that was not comes back as it was, with the record id of an earlier placement if it had
one. This holds in every state of the pool and the files, at whatever point the insert fails. -/

namespace HeapStore.Engine

/-- The tuple that comes back with an answer. -/
def answered (t : Tuple) : Except Error RecordId → Tuple
  | .ok rid => t.withRid (some rid)
  | .error _ => t

/-- The tuple that comes back from pages that may all be full. -/
def answeredOf (t : Tuple) : Except Error (Option RecordId) → Tuple
  | .ok (some rid) => t.withRid (some rid)
  | _ => t

variable {e : Engine} {txn : TxnId} {t : Tuple}

theorem tuple_insertAt (e : Engine) (g : Checkout) (page : Page) (txn : TxnId) (t : Tuple) :
    (e.insertAt g page txn t).2.1 = answered t (e.insertAt g page txn t).1 := by
  unfold insertAt
  rcases page.insert_cases t with ⟨err, heq⟩ | ⟨slot, -, -, -, heq⟩
  · simp only [heq]
    rfl
  · simp only [heq]
    rfl

/-- A page that refuses the tuple hands it on to the next page as it was. -/
theorem tuple_insertInto (table : Nat) (txn : TxnId) (t : Tuple) (count n : Nat) (e : Engine) :
    (insertInto table txn t count n e).2.1 = answeredOf t (insertInto table txn t count n e).1 := by
  induction count generalizing n e with
  | zero => rfl
  | succ count ih =>
    unfold insertInto
    cases e.getPage ⟨table, n⟩ .exclusive with
    | mk r e1 =>
      cases r with
      | error err => rfl
      | ok g =>
        simp only
        cases e1.pageAt? g with
        | none => rfl
        | some page =>
          simp only
          split
          · exact ih (n + 1) (e1.release g)
          · have hat := tuple_insertAt e1 g page txn t
            cases hins : e1.insertAt g page txn t with
            | mk r rest =>
              obtain ⟨t', e2⟩ := rest
              rw [hins] at hat
              cases r with
              | ok rid => exact hat
              | error err =>
                obtain rfl : t' = t := hat
                simp only
                split
                · exact ih (n + 1) e2
                · rfl

/-- A table that has grown in vain has its tuple back, too. -/
theorem tuple_insertNew (e : Engine) (table : Table) (n : Nat) (txn : TxnId) (t : Tuple) :
    (e.insertNew table n txn t).2.1 = answered t (e.insertNew table n txn t).1 := by
  unfold insertNew
  split
  · rfl
  · split
    · rfl
    · split
      · rfl
      · apply tuple_insertAt

theorem tuple_insertTuple (e : Engine) (table : Table) (txn : TxnId) (t : Tuple) :
    (e.insertTuple table txn t).2.1 = answered t (e.insertTuple table txn t).1 := by
  have hinto := tuple_insertInto table.id txn t (table.pageCount e.disk) 0 e
  rw [insertTuple_eq]
  cases t.checkSchema table.schema with
  | error err => rfl
  | ok =>
    simp only
    cases heq : insertInto table.id txn t (table.pageCount e.disk) 0 e with
    | mk r rest =>
      obtain ⟨t', e1⟩ := rest
      rw [heq] at hinto
      cases r with
      | error err => exact hinto
      | ok o =>
        cases o with
        | some rid => exact hinto
        | none =>
          obtain rfl : t' = t := hinto
          apply tuple_insertNew

theorem tuple_insert (e : Engine) (table : Nat) (txn : TxnId) (t : Tuple) :
    (e.insert table txn t).2.1 = answered t (e.insert table txn t).1 := by
  unfold insert
  cases e.pool.table table with
  | error err => rfl
  | ok tbl => exact e.tuple_insertTuple tbl txn t

/-- A tuple that could not be stored comes back as it was: with its values, and with the record id that
it came with, if any. -/
theorem failed_insert_keeps_tuple (e : Engine) (txn : TxnId) (t t' : Tuple) (err : Error) :
    (∀ (table : Table) (e' : Engine), e.insertTuple table txn t = (.error err, t', e') → t' = t) ∧
      ∀ (table : Nat) (e' : Engine), e.insert table txn t = (.error err, t', e') → t' = t := by
  constructor
  · intro table e' h
    have ht := e.tuple_insertTuple table txn t
    rw [h] at ht
    exact ht
  · intro table e' h
    have ht := e.tuple_insert table txn t
    rw [h] at ht
    exact ht

/-- One frame, with the page of a full table in it that is dirty. -/
def fullEngine : Engine :=
  ((Session.start tinyDisk 1 [tinyTable]).after
    [.insert tinyTable.id ⟨1⟩ (tinyTuple 7 none), .insert tinyTable.id ⟨1⟩ (tinyTuple 8 none)]).engine

/-- Neither a new tuple nor one that is stored already finds room. -/
theorem failed_insert_keeps_tuple_full :
    (∃ e', fullEngine.insertTuple tinyTable ⟨2⟩ (tinyTuple 9 none) =
      (.error .poolFull, tinyTuple 9 none, e')) ∧
    (∃ t' e', fullEngine.insert tinyTable.id ⟨2⟩ (tinyTuple 7 (some ⟨tinyPage 0, 0⟩)) =
      (.error .poolFull, t', e') ∧ t' = tinyTuple 7 (some ⟨tinyPage 0, 0⟩)) := by
  have hnew : (fullEngine.insertTuple tinyTable ⟨2⟩ (tinyTuple 9 none)).1 = .error .poolFull := by
    decide +kernel
  have hold : (fullEngine.insert tinyTable.id ⟨2⟩ (tinyTuple 7 (some ⟨tinyPage 0, 0⟩))).1 =
      .error .poolFull := by decide +kernel
  constructor
  · cases h : fullEngine.insertTuple tinyTable ⟨2⟩ (tinyTuple 9 none) with
    | mk r rest =>
      obtain ⟨t', e'⟩ := rest
      rw [h] at hnew
      obtain rfl : r = .error .poolFull := hnew
      obtain rfl := (failed_insert_keeps_tuple fullEngine ⟨2⟩ _ t' _).1 tinyTable e' h
      exact ⟨e', rfl⟩
  · cases h : fullEngine.insert tinyTable.id ⟨2⟩ (tinyTuple 7 (some ⟨tinyPage 0, 0⟩)) with
    | mk r rest =>
      obtain ⟨t', e'⟩ := rest
      rw [h] at hold
      obtain rfl : r = .error .poolFull := hold
      exact ⟨t', e', rfl, (failed_insert_keeps_tuple fullEngine ⟨2⟩ _ t' _).2 tinyTable.id e' h⟩

/-- A tuple that was stored gets a record id, and has it still after a second insert that fails. -/
theorem failed_insert_leaves_rid : ∃ t err,
    ((Session.start tinyDisk 1 [tinyTable]).engine.insert tinyTable.id ⟨1⟩ (tinyTuple 7 none)).2.1 = t ∧
      (fullEngine.insert tinyTable.id ⟨2⟩ t).1 = .error err ∧
      (fullEngine.insert tinyTable.id ⟨2⟩ t).2.1.rid = some ⟨tinyPage 0, 0⟩ :=
  ⟨tinyTuple 7 (some ⟨tinyPage 0, 0⟩), .poolFull, by decide +kernel⟩

end HeapStore.Engine
