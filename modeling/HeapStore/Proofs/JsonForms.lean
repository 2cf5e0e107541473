import Mathlib.Algebra.Group.Nat.Defs
import HeapStore.Proofs.JsonReading
import HeapStore.Proofs.SchemaMerge

/-! The JSON forms of the store's types lose nothing: what is written for a value is read back as the
value, whatever characters its texts have and up to the largest numbers. And they let no schema pass
that `Schema.ofFields` refuses: every text that has the form of a schema stands for a list of fields,
and is answered with the schema of that list, or with the reason why there is none. -/

namespace HeapStore

namespace Json

variable {α : Type} {form : Json → Except FormError α} {w : List Char} {a : α}

/-- What is written is one document, and its form is that of the value. -/
def Forms (form : Json → Except FormError α) (w : List Char) (a : α) : Prop :=
  ∃ j, Reads w j ∧ form j = .ok a

theorem Forms.ofText_eq (h : Forms form w a) : ofText form (String.ofList w) = .ok a := by
  obtain ⟨j, hreads, hform⟩ := h
  rw [ofText_of_reads form hreads, hform]

theorem forms_text (s : String) : Forms toText (Writer.text s) s := ⟨_, reads_text s, rfl⟩

theorem forms_bool (b : Bool) : Forms toBool (Writer.bool b) b := ⟨_, reads_bool b, rfl⟩

theorem forms_nat {limit n : Nat} (h : n < limit) : Forms (toNatBelow limit) (Writer.nat n) n :=
  ⟨_, reads_nat n, if_pos h⟩

theorem forms_int32 (n : Int32) : Forms toInt32 (Writer.int n.toInt) n := by
  refine ⟨_, reads_int n.toInt, ?_⟩
  have hge := n.le_toInt
  have hlt := n.toInt_lt
  rw [toInt32, if_pos ⟨by simpa using hge, by simpa using hlt⟩, Int32.ofInt_toInt]

theorem mapM_eq_ok {β : Type} {f : α → Except FormError β} {as : List α} {bs : List β}
    (h : List.Forall₂ (fun a b => f a = .ok b) as bs) : as.mapM f = .ok bs := by
  induction h with
  | nil => rfl
  | cons hab _ ih =>
    rw [List.mapM_cons, hab, ih]
    rfl

theorem forms_list {ws : List (List Char)} {as : List α} (h : List.Forall₂ (Forms form) ws as) :
    Forms (toList form) (Writer.list ws) as := by
  obtain ⟨js, hreads, hform⟩ : ∃ js, List.Forall₂ Reads ws js ∧
      List.Forall₂ (fun j a => form j = .ok a) js as := by
    induction h with
    | nil => exact ⟨[], .nil, .nil⟩
    | cons ha _ ih =>
      obtain ⟨j, hj, hform⟩ := ha
      obtain ⟨js, hjs, hforms⟩ := ih
      exact ⟨j :: js, .cons hj hjs, .cons hform hforms⟩
  exact ⟨_, reads_list hreads, mapM_eq_ok hform⟩

/-! ### Records -/

section Records

variable {name : String} {j : Json} {ns : List (String × Json)}

theorem filter_named_of_not_mem (h : name ∉ ns.map (·.1)) :
    (named ns).filter (·.1 == some name) = [] := by
  rw [named, List.filter_map, List.filter_eq_nil_iff.2, List.map_nil]
  intro n hn
  have hne : n.1 ≠ name := fun heq => h (List.mem_map.2 ⟨n, hn, heq⟩)
  simpa using hne

theorem member?_of_mem (hnodup : (ns.map (·.1)).Nodup) (h : (name, j) ∈ ns) :
    member? (named ns) name = .ok (some j) := by
  have hfilter : (named ns).filter (·.1 == some name) = [(some name, j)] := by
    induction ns with
    | nil => cases h
    | cons n ns ih =>
      rw [List.map_cons, List.nodup_cons] at hnodup
      rw [named, List.map_cons, List.filter_cons, ← named]
      rcases List.mem_cons.1 h with rfl | hn
      · rw [if_pos (by simp), filter_named_of_not_mem hnodup.1]
      · have hne : n.1 ≠ name := fun heq => hnodup.1 (List.mem_map.2 ⟨_, hn, heq.symm⟩)
        rw [if_neg (by simpa using hne), ih hnodup.2 hn]
  rw [member?, hfilter]

/-- A record of members of these names, each once, gives each of them under its name. -/
theorem fields_named (ns : List (String × Json)) (hnodup : (ns.map (·.1)).Nodup) :
    fields (ns.map (·.1)) (.record (named ns)) = .ok (ns.map fun n => some n.2) := by
  have hany : (named ns).any (·.1.isNone) = false := by simp [named]
  rw [fields, hany]
  apply mapM_eq_ok
  rw [List.forall₂_map_left_iff, List.forall₂_map_right_iff, List.forall₂_same]
  intro n hn
  exact member?_of_mem hnodup hn

end Records

theorem forms_record {ms : List (String × List Char)} (ns : List (String × Json))
    (h : List.Forall₂ ReadsMember ms ns) (hform : form (.record (named ns)) = .ok a) :
    Forms form (Writer.record ms) a :=
  ⟨_, reads_record h, hform⟩

/-! ### The forms of the store's types -/

theorem forms_value (v : Value) : Forms toValue v.toJson v := by
  cases v with
  | int n =>
    obtain ⟨j, hreads, hform⟩ := forms_int32 n
    apply forms_record [("Int", j)] (.cons (hreads.member _) .nil)
    simp only [named, List.map_cons, List.map_nil, toValue, hform]
    rfl
  | text s =>
    obtain ⟨j, hreads, hform⟩ := forms_text s
    apply forms_record [("Str", j)] (.cons (hreads.member _) .nil)
    simp only [named, List.map_cons, List.map_nil, toValue, hform]
    rfl

theorem forms_fieldType {t : FieldType} (h : t.size < 0x10000000000000000) :
    Forms toFieldType t.toJson t := by
  cases t with
  | int => exact ⟨_, reads_text "Int", rfl⟩
  | text width =>
    obtain ⟨j, hreads, hform⟩ := forms_nat h
    apply forms_record [("FixedString", j)] (.cons (hreads.member _) .nil)
    simp only [FieldType.size] at hform
    simp only [named, List.map_cons, List.map_nil, toFieldType, toNat64, hform]
    rfl

theorem forms_field {f : Field} (h : f.type.size < 0x10000000000000000) :
    Forms toField f.toJson f := by
  obtain ⟨type, htype, htypeForm⟩ := forms_fieldType h
  obtain ⟨name, hname, hnameForm⟩ := forms_text f.name
  apply forms_record [("field_type", type), ("name", name)]
    (.cons (htype.member _) (.cons (hname.member _) .nil))
  have hfields := fields_named [("field_type", type), ("name", name)] (by simp)
  simp only [List.map_cons, List.map_nil] at hfields
  simp only [toField, hfields, htypeForm, hnameForm]
  rfl

theorem forms_pageId {p : PageId} (htable : p.table < 0x100000000) (hpage : p.page < 0x100000000) :
    Forms toPageId p.toJson p := by
  obtain ⟨table, htable, htableForm⟩ := forms_nat htable
  obtain ⟨page, hpage, hpageForm⟩ := forms_nat hpage
  apply forms_record [("table_id", table), ("page_num", page)]
    (.cons (htable.member _) (.cons (hpage.member _) .nil))
  have hfields := fields_named [("table_id", table), ("page_num", page)] (by simp)
  simp only [List.map_cons, List.map_nil] at hfields
  simp only [toPageId, hfields, toNat32, htableForm, hpageForm]
  rfl

theorem forms_txnId {t : TxnId} (h : t.num < 0x10000000000000000) : Forms toTxnId t.toJson t := by
  obtain ⟨j, hreads, hform⟩ := forms_nat h
  refine ⟨j, hreads, ?_⟩
  rw [toTxnId, toNat64, hform]
  rfl

theorem forms_config {c : Config} (hsize : c.pageSize < 0x10000000000000000)
    (hpool : c.poolPages < 0x10000000000000000) (htimeout : c.lockTimeoutMs < 0x10000000000000000) :
    Forms toConfig c.toJson c := by
  obtain ⟨dir, hdir, hdirForm⟩ := forms_text c.dataDir
  obtain ⟨size, hsize, hsizeForm⟩ := forms_nat hsize
  obtain ⟨pool, hpool, hpoolForm⟩ := forms_nat hpool
  obtain ⟨fsync, hfsync, hfsyncForm⟩ := forms_bool c.fsync
  obtain ⟨timeout, htimeout, htimeoutForm⟩ := forms_nat htimeout
  apply forms_record [("data_dir", dir), ("page_size", size), ("buffer_pool_pages", pool),
      ("fsync_enabled", fsync), ("lock_timeout_ms", timeout)]
    (.cons (hdir.member _) (.cons (hsize.member _) (.cons (hpool.member _)
      (.cons (hfsync.member _) (.cons (htimeout.member _) .nil)))))
  have hfields := fields_named [("data_dir", dir), ("page_size", size), ("buffer_pool_pages", pool),
    ("fsync_enabled", fsync), ("lock_timeout_ms", timeout)] (by simp)
  simp only [List.map_cons, List.map_nil] at hfields
  simp only [toConfig, hfields, orDefault, toNat64, hdirForm, hsizeForm, hpoolForm, hfsyncForm,
    htimeoutForm]
  rfl

/-! ### Schemas -/

/-- The fields that a document gives for a schema, before any check. -/
def toFieldList (j : Json) : Except FormError (List Field) :=
  match j.fields ["fields"] with
  | .ok [some fields] => fields.toList toField
  | _ => .error .shape

/-- The document of a schema of these fields. -/
def ofFieldList (fs : List Field) : List Char :=
  Writer.record [("fields", Writer.list (fs.map Field.toJson))]

theorem toSchema_eq (j : Json) :
    toSchema j = (toFieldList j).bind fun fs => (Schema.ofFields fs).mapError .schema := by
  unfold toSchema toFieldList
  rcases j.fields ["fields"] with e | _ | ⟨_ | items, _ | ⟨_, _⟩⟩
  · rfl
  · rfl
  · rfl
  · rfl
  · cases hlist : items.toList toField with
    | error e => simp only [hlist, Except.bind]
    | ok fs => simp only [hlist, Except.bind]
  · rfl

/-- The text of a list of fields is the text of a schema just as its fields make one. -/
theorem ofText_toSchema {s : String} {fs : List Field} (h : ofText toFieldList s = .ok fs) :
    ofText toSchema s = (Schema.ofFields fs).mapError .schema := by
  obtain ⟨j, rest, hparse, hrest, hform⟩ := exists_parse_of_ofText h
  rw [ofText_of_parse toSchema hparse hrest, toSchema_eq, hform]
  rfl

theorem forms_fieldList {fs : List Field} (h : ∀ f ∈ fs, f.type.size < 0x10000000000000000) :
    Forms toFieldList (ofFieldList fs) fs := by
  have hitems : List.Forall₂ (Forms toField) (fs.map Field.toJson) fs := by
    rw [List.forall₂_map_left_iff, List.forall₂_same]
    intro f hf
    exact forms_field (h f hf)
  obtain ⟨items, hreads, hform⟩ := forms_list hitems
  apply forms_record [("fields", items)] (.cons (hreads.member _) .nil)
  have hfields := fields_named [("fields", items)] (by simp)
  simp only [List.map_cons, List.map_nil] at hfields
  simp only [toFieldList, hfields, hform]

/-- The text of a schema is the text of its fields, and they are a schema's. -/
theorem fieldList_of_schema {s : String} {sch : Schema} (h : ofText toSchema s = .ok sch) :
    ofText toFieldList s = .ok sch.fields ∧ Schema.ofFields sch.fields = .ok sch := by
  obtain ⟨j, rest, hparse, hrest, hform⟩ := exists_parse_of_ofText h
  rw [ofText_of_parse toFieldList hparse hrest]
  rw [toSchema_eq] at hform
  cases hlist : toFieldList j with
  | error e =>
    rw [hlist] at hform
    cases hform
  | ok fs =>
    cases hmake : Schema.ofFields fs with
    | error e =>
      rw [hlist, Except.bind, hmake] at hform
      cases hform
    | ok made =>
      rw [hlist, Except.bind, hmake] at hform
      cases hform
      rw [Schema.eq_of_ofFields hmake]
      exact ⟨rfl, hmake⟩

theorem forms_schema (sch : Schema) : Forms toSchema sch.toJson sch := by
  have hsize : ∀ f ∈ sch.fields, f.type.size < 0x10000000000000000 := fun f hf =>
    Nat.lt_of_le_of_lt (size_le_totalWidth hf) sch.valid.bounded
  obtain ⟨j, hreads, hform⟩ := forms_fieldList hsize
  refine ⟨j, hreads, ?_⟩
  rw [toSchema_eq, hform, Except.bind, Schema.ofFields_of_valid sch.valid]
  rfl

/-- What is written for a value of the store's types is read back as the value, numbers as far as
their types go and texts of any characters; every schema is among them. And a text has the form of a
schema only if its fields are those of a schema: it is answered with the schema of its fields, or
with the fault that `Schema.ofFields` finds in them, and any fields can stand in such a text. -/
theorem forms_faithful :
    (∀ v : Value, ofText toValue (String.ofList v.toJson) = .ok v) ∧
    (∀ t : FieldType, t.size < 2 ^ 64 → ofText toFieldType (String.ofList t.toJson) = .ok t) ∧
    (∀ f : Field, f.type.size < 2 ^ 64 → ofText toField (String.ofList f.toJson) = .ok f) ∧
    (∀ sch : Schema, ofText toSchema (String.ofList sch.toJson) = .ok sch) ∧
    (∀ p : PageId, p.table < 2 ^ 32 → p.page < 2 ^ 32 →
      ofText toPageId (String.ofList p.toJson) = .ok p) ∧
    (∀ t : TxnId, t.num < 2 ^ 64 → ofText toTxnId (String.ofList t.toJson) = .ok t) ∧
    (∀ c : Config, c.pageSize < 2 ^ 64 → c.poolPages < 2 ^ 64 → c.lockTimeoutMs < 2 ^ 64 →
      ofText toConfig (String.ofList c.toJson) = .ok c) ∧
    (∀ (s : String) (sch : Schema), ofText toSchema s = .ok sch →
      ofText toFieldList s = .ok sch.fields ∧ Schema.ofFields sch.fields = .ok sch) ∧
    (∀ (s : String) (fs : List Field), ofText toFieldList s = .ok fs →
      ofText toSchema s = (Schema.ofFields fs).mapError .schema) ∧
    (∀ fs : List Field, (∀ f ∈ fs, f.type.size < 2 ^ 64) →
      ofText toFieldList (String.ofList (ofFieldList fs)) = .ok fs) ∧
    ∀ fs : List Field, (∃ sch, Schema.ofFields fs = .ok sch) ↔
      fs ≠ [] ∧ (∀ f ∈ fs, 0 < f.type.size) ∧ totalWidth fs < 2 ^ 64 := by
  refine ⟨?_, ?_, ?_, ?_, ?_, ?_, ?_, ?_, ?_, ?_, ?_⟩
  · intro v
    exact (forms_value v).ofText_eq
  · intro t hsize
    exact (forms_fieldType hsize).ofText_eq
  · intro f hsize
    exact (forms_field hsize).ofText_eq
  · intro sch
    exact (forms_schema sch).ofText_eq
  · intro p htable hpage
    exact (forms_pageId htable hpage).ofText_eq
  · intro t hnum
    exact (forms_txnId hnum).ofText_eq
  · intro c hsize hpool htimeout
    exact (forms_config hsize hpool htimeout).ofText_eq
  · intro s sch h
    exact fieldList_of_schema h
  · intro s fs h
    exact ofText_toSchema h
  · intro fs hsize
    exact (forms_fieldList hsize).ofText_eq
  · intro fs
    rw [Schema.exists_ofFields_iff]
    exact ⟨fun h => ⟨h.nonempty, h.positive, h.bounded⟩, fun ⟨hne, hpos, hlt⟩ => ⟨hne, hpos, hlt⟩⟩

/-- The largest numbers, a name with a quote, a backslash and a NUL in it, and texts with blanks and
foreign members that give a schema, or only its fields. -/
theorem forms_faithful_largest :
    ofText toFieldType (String.ofList (FieldType.text (2 ^ 64 - 1)).toJson) =
      .ok (.text (2 ^ 64 - 1)) ∧
    ofText toField (String.ofList (Field.toJson ⟨.text 8, "\x22\\\x00\u00e9"⟩)) =
      .ok ⟨.text 8, "\x22\\\x00\u00e9"⟩ ∧
    ofText toPageId (String.ofList (PageId.toJson ⟨2 ^ 32 - 1, 0⟩)) = .ok ⟨2 ^ 32 - 1, 0⟩ ∧
    ofText toTxnId (String.ofList (TxnId.toJson ⟨2 ^ 64 - 1⟩)) = .ok ⟨2 ^ 64 - 1⟩ ∧
    ofText toConfig (String.ofList (Config.toJson {})) = .ok {} ∧
    Schema.ofFields [⟨.int, "a"⟩] = .ok ⟨[⟨.int, "a"⟩], by decide, by decide, by decide⟩ ∧
    ofText toSchema "\x7b\"x\":[1.5], \"fields\":[]\x7d " =
      .error (.schema (.invalidSchema .noFields)) ∧
    ofText toFieldList (String.ofList (ofFieldList [⟨.text 0, "a"⟩])) = .ok [⟨.text 0, "a"⟩] := by
  obtain ⟨-, htype, hfield, -, hpage, htxn, hconfig, hsound, hfault, hfields, -⟩ := forms_faithful
  refine ⟨?_, ?_, ?_, ?_, ?_, ?_, ?_, ?_⟩
  · exact htype _ (by decide)
  · exact hfield _ (by decide)
  · exact hpage _ (by decide) (by decide)
  · exact htxn _ (by decide)
  · exact hconfig _ (by decide) (by decide) (by decide)
  · exact (hsound "[[[\"Int\", \"a\"]]]" ⟨[⟨.int, "a"⟩], by decide, by decide, by decide⟩
      (by decide +kernel)).2
  · exact hfault _ [] (by decide +kernel)
  · exact hfields _ (by decide)

end Json

end HeapStore
