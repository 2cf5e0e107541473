import HeapStore.Engine.Basic
import HeapStore.Proofs.FileWindow
import HeapStore.Proofs.PageChange
import HeapStore.Proofs.PoolMoves

/-! The pages in memory and the pages in the files. A table has one logical page for every number:
the resident copy, or else what the file's bytes decode to. `Engine.Coherent` ties the two: the
before-image of a resident page is its window of the file, and a page that is not dirty has the rows
of its before-image. So a clean page may come and go without any logical page changing. A copy may be
`loose` for a while: it was changed under an exclusive checkout and is still to be marked dirty. -/

namespace HeapStore

/-- A resident page and the file it came from agree. -/
structure Page.Backed (t : Table) (d : Disk) (id : PageId) (loose : Prop) (p : Page) : Prop where
  sound : p.Sound
  named : p.id = id
  schema : p.schema = t.schema
  layout : p.layout = t.layout
  number : id.page < t.pageCount d
  before : p.beforeBytes = t.window d id.page
  image : ∃ q, p.before = .ok q ∧ (p.dirtiedBy = none → ¬ loose → q.SameRows p)

namespace Page.Backed

variable {t : Table} {d d' : Disk} {id : PageId} {loose loose' : Prop} {p : Page}

theorem before_eq (h : p.Backed t d id loose) :
    p.before = ofBytes id t.schema t.pageSize (t.window d id.page) := by
  rw [Page.before, h.named, h.schema, h.layout, h.before]
  rfl

theorem of_ofBytes (h : ofBytes id t.schema t.pageSize (t.window d id.page) = .ok p)
    (hn : id.page < t.pageCount d) : p.Backed t d id loose := by
  obtain ⟨hs, hid, hschema, hps, -, hb⟩ := sound_of_ofBytes h
  have hl : p.layout = t.layout := by
    have h1 := p.layout.make_sizes
    rw [hps, hs.sized, hschema, ← t.sized] at h1
    have h2 := t.layout.make_sizes
    exact Except.ok.inj (h1.symm.trans h2)
  refine ⟨hs, hid, hschema, hl, hn, hb, p, ?_, fun _ _ => .refl p⟩
  rw [Page.before, hid, hschema, hps, hb, h]

theorem decodes (h : p.Backed t d id loose) :
    ∃ q, ofBytes id t.schema t.pageSize (t.window d id.page) = .ok q := by
  obtain ⟨q, hq, -⟩ := h.image
  exact ⟨q, by rw [← h.before_eq, hq]⟩

/-- A page that is clean is found in the file as it is. -/
theorem alike (h : p.Backed t d id loose) (hd : p.dirtiedBy = none) (hl : ¬ loose) :
    ∃ q, ofBytes id t.schema t.pageSize (t.window d id.page) = .ok q ∧ p.Alike q := by
  obtain ⟨q, hq, hrows⟩ := h.image
  rw [h.before_eq] at hq
  have hqb : q.Backed t d id loose := of_ofBytes hq h.number
  obtain ⟨-, -, -, -, hqd, -⟩ := sound_of_ofBytes hq
  exact ⟨q, hq, (hrows hd hl).symm, h.named.trans hqb.named.symm, h.schema.trans hqb.schema.symm,
    h.layout.trans hqb.layout.symm, hd.trans hqd.symm, h.before.trans hqb.before.symm⟩

/-- The rows may change if the page is dirty or loose afterwards. -/
theorem changed (h : p.Backed t d id loose) {p' : Page} (hs : p'.Sound) (hid : p'.id = p.id)
    (hschema : p'.schema = p.schema) (hl : p'.layout = p.layout) (hb : p'.beforeBytes = p.beforeBytes)
    (hd : p'.dirtiedBy = none → ¬ loose' → p.dirtiedBy = none ∧ ¬ loose ∧ p.SameRows p') :
    p'.Backed t d id loose' := by
  obtain ⟨q, hq, hrows⟩ := h.image
  refine ⟨hs, hid.trans h.named, hschema.trans h.schema, hl.trans h.layout, h.number, hb.trans h.before,
    q, ?_, fun hd' hl' => ?_⟩
  · rw [Page.before, hid, hschema, hl, hb]
    exact hq
  · obtain ⟨h1, h2, h3⟩ := hd hd' hl'
    exact (hrows h1 h2).trans h3

theorem mono (h : p.Backed t d id loose) (hl : loose → loose') : p.Backed t d id loose' := by
  obtain ⟨q, hq, hrows⟩ := h.image
  exact { h with image := ⟨q, hq, fun hd hl' => hrows hd fun hl'' => hl' (hl hl'')⟩ }

/-- The file may change elsewhere and grow. -/
theorem elsewhere (h : p.Backed t d id loose) (hw : t.window d' id.page = t.window d id.page)
    (hn : t.pageCount d ≤ t.pageCount d') : p.Backed t d' id loose :=
  { h with
    number := Nat.lt_of_lt_of_le h.number hn
    before := h.before.trans hw.symm }

theorem length_toBytes (h : p.Backed t d id loose) : p.toBytes.length = t.pageSize := by
  rw [h.sound.length_toBytes, h.layout]
  rfl

/-- The page as it is once its bytes were written. -/
theorem written (h : p.Backed t d id loose) (txn : TxnId) (hw : t.window d' id.page = p.toBytes)
    (hn : t.pageCount d ≤ t.pageCount d') :
    ((p.withBefore p.toBytes).markDirty false txn).Backed t d' id loose := by
  obtain ⟨q, hq, hrows⟩ := h.sound.ofBytes_toBytes
  exact ⟨(h.sound.withBefore _).markDirty _ _, h.named, h.schema, h.layout,
    Nat.lt_of_lt_of_le h.number hn, hw.symm, q, hq, fun _ _ => ⟨hrows.header, hrows.row⟩⟩

end Page.Backed

namespace Engine

def table? (e : Engine) (k : Nat) : Option Table := e.pool.tables.lookup k

/-- The page as the file has it. -/
def stored (e : Engine) (id : PageId) : Option Page :=
  (e.table? id.table).bind fun t =>
    (Page.ofBytes id t.schema t.pageSize (t.window e.disk id.page)).toOption

/-- The page as a reader of the table sees it: the resident copy, or else as the file has it. -/
def logical (e : Engine) (id : PageId) : Option Page := (e.pool.page? id).or (e.stored id)

structure Coherent (e : Engine) (held : List Checkout) (loose : Nat → Prop) : Prop where
  pool : e.pool.Sound held
  own : ∀ k t, e.table? k = some t → t.id = k
  stands : ∀ k t, e.table? k = some t → t.Stands e.disk
  small : ∀ k t, e.table? k = some t → t.Small e.disk
  backed : ∀ id c p, e.pool.copyOf? id = some c → e.pool.copies.page? c = some p →
    ∃ t, e.table? id.table = some t ∧ p.Backed t e.disk id (loose c)
  loose : ∀ c, loose c → ⟨c, .exclusive⟩ ∈ held

/-- What no step takes away: the tables, the size of the pool and of the files, and the pages that
are checked out. -/
structure Follows (held : List Checkout) (e e' : Engine) : Prop where
  tables : e'.pool.tables = e.pool.tables
  numFrames : e'.pool.numFrames = e.pool.numFrames
  kept : ∀ g ∈ held, ∀ id, e.pool.copyOf? id = some g.copy → e'.pool.copyOf? id = some g.copy
  same : ∀ g ∈ held, e'.pool.copies.page? g.copy = e.pool.copies.page? g.copy
  grows : ∀ k t, e.table? k = some t →
    (e.disk.contents t.path).size ≤ (e'.disk.contents t.path).size

/-- All logical pages are the same, but perhaps for field names of tuples. -/
def SamePages (e e' : Engine) : Prop := ∀ id, Option.Rel Page.Alike (e.logical id) (e'.logical id)

variable {e e' e'' : Engine} {held : List Checkout} {loose : Nat → Prop} {id : PageId}

theorem rel_refl (o : Option Page) : Option.Rel Page.Alike o o := by
  cases o with
  | none => exact .none
  | some p => exact .some (.refl p)

theorem rel_of_eq {o o' : Option Page} (h : o = o') : Option.Rel Page.Alike o o' := h ▸ rel_refl o

theorem rel_symm {o o' : Option Page} (h : Option.Rel Page.Alike o o') : Option.Rel Page.Alike o' o := by
  cases h with
  | none => exact .none
  | some h => exact .some h.symm

theorem rel_trans {o o' o'' : Option Page} (h : Option.Rel Page.Alike o o')
    (h' : Option.Rel Page.Alike o' o'') : Option.Rel Page.Alike o o'' := by
  cases h with
  | none => exact h'
  | some h =>
    cases h' with
    | some h' => exact .some (h.trans h')

theorem SamePages.refl (e : Engine) : SamePages e e := fun _ => rel_refl _

theorem SamePages.symm (h : SamePages e e') : SamePages e' e := fun id => rel_symm (h id)

theorem SamePages.trans (h : SamePages e e') (h' : SamePages e' e'') : SamePages e e'' :=
  fun id => rel_trans (h id) (h' id)

theorem Follows.refl (held : List Checkout) (e : Engine) : Follows held e e :=
  ⟨rfl, rfl, fun _ _ _ h => h, fun _ _ => rfl, fun _ _ _ => Nat.le_refl _⟩

theorem Follows.table?_eq (h : Follows held e e') (k : Nat) : e'.table? k = e.table? k := by
  rw [table?, h.tables]
  rfl

theorem Follows.trans (h : Follows held e e') (h' : Follows held e' e'') : Follows held e e'' where
  tables := h'.tables.trans h.tables
  numFrames := h'.numFrames.trans h.numFrames
  kept g hg id hc := h'.kept g hg id (h.kept g hg id hc)
  same g hg := (h'.same g hg).trans (h.same g hg)
  grows k t ht := Nat.le_trans (h.grows k t ht) (h'.grows k t (by rw [h.table?_eq, ht]))

theorem Follows.mono {held' : List Checkout} (h : Follows held e e') (hs : ∀ g ∈ held', g ∈ held) :
    Follows held' e e' :=
  { h with
    kept := fun g hg => h.kept g (hs g hg)
    same := fun g hg => h.same g (hs g hg) }

theorem table_eq_ok {t : Table} {k : Nat} : e.pool.table k = .ok t ↔ e.table? k = some t := by
  unfold Pool.table table?
  cases e.pool.tables.lookup k <;> simp

theorem page?_of_copyOf? {c : Nat} (h : e.pool.copyOf? id = some c) :
    e.pool.page? id = e.pool.copies.page? c := by
  rw [Pool.page?, h, Option.bind_some]

theorem page?_eq_none_of_copyOf? (h : e.pool.copyOf? id = none) : e.pool.page? id = none := by
  rw [Pool.page?, h, Option.bind_none]

theorem logical_of_copyOf?_eq_none (h : e.pool.copyOf? id = none) : e.logical id = e.stored id := by
  rw [logical, page?_eq_none_of_copyOf? h, Option.none_or]

theorem logical_of_page? {c : Nat} {p : Page} (h : e.pool.copyOf? id = some c)
    (hp : e.pool.copies.page? c = some p) : e.logical id = some p := by
  rw [logical, page?_of_copyOf? h, hp, Option.some_or]

theorem stored_congr {f : Engine} (ht : f.pool.tables = e.pool.tables) (hd : f.disk = e.disk) :
    f.stored id = e.stored id := by
  unfold stored table?
  rw [ht, hd]

/-- The resident copy and the stored page decide the logical page. -/
theorem logical_congr {f : Engine} (hc : f.pool.copyOf? id = e.pool.copyOf? id)
    (hp : ∀ c, e.pool.copyOf? id = some c → f.pool.copies.page? c = e.pool.copies.page? c)
    (hs : f.stored id = e.stored id) : f.logical id = e.logical id := by
  unfold logical Pool.page?
  rw [hc, hs]
  cases hcopy : e.pool.copyOf? id with
  | none => rfl
  | some c => rw [Option.bind_some, Option.bind_some, hp c hcopy]

theorem stored_eq_some {t : Table} {p : Page} (ht : e.table? id.table = some t) :
    e.stored id = some p ↔ Page.ofBytes id t.schema t.pageSize (t.window e.disk id.page) = .ok p := by
  rw [stored, ht, Option.bind_some]
  cases Page.ofBytes id t.schema t.pageSize (t.window e.disk id.page) <;> simp [Except.toOption]

namespace Coherent

theorem exists_page (h : e.Coherent held loose) {c : Nat} (hc : e.pool.copyOf? id = some c) :
    ∃ p, e.pool.copies.page? c = some p := by
  obtain ⟨k, hk⟩ := h.pool.exists_resident hc
  exact ⟨k.page, Copies.page?_of_get? hk⟩

theorem perm {held' : List Checkout} (h : e.Coherent held loose) (hp : held.Perm held') :
    e.Coherent held' loose :=
  { h with
    pool := h.pool.perm hp
    loose := fun c hc => hp.subset (h.loose c hc) }

/-- An idle page is found in the file as it is. -/
theorem stored_of_idle (h : e.Coherent held loose) {c : Nat} (hc : e.pool.copyOf? id = some c)
    (hi : e.pool.Idle held c) : ∃ p q,
      e.pool.copies.page? c = some p ∧ e.stored id = some q ∧ p.Alike q := by
  obtain ⟨k, hk, hd, -, hw⟩ := hi
  have hp : e.pool.copies.page? c = some k.page := Copies.page?_of_get? hk
  obtain ⟨t, ht, hb⟩ := h.backed id c _ hc hp
  have hl : ¬ loose c := by
    intro hl
    have := List.count_pos_iff.2 (h.loose c hl)
    unfold Pool.writers at hw
    omega
  obtain ⟨q, hq, ha⟩ := hb.alike hd hl
  exact ⟨k.page, q, hp, (stored_eq_some ht).2 hq, ha⟩

/-- Every logical page is sound and carries its own id. -/
theorem logical_sound (h : e.Coherent held loose) {p : Page} (hp : e.logical id = some p) :
    p.Sound ∧ p.id = id := by
  cases hc : e.pool.copyOf? id with
  | some c =>
    obtain ⟨q, hq⟩ := h.exists_page hc
    rw [logical_of_page? hc hq] at hp
    cases hp
    obtain ⟨t, -, hb⟩ := h.backed id c _ hc hq
    exact ⟨hb.sound, hb.named⟩
  | none =>
    rw [logical_of_copyOf?_eq_none hc] at hp
    obtain ⟨t, ht, -⟩ := Option.bind_eq_some_iff.1 hp
    obtain ⟨hs, hid, -⟩ := Page.sound_of_ofBytes ((stored_eq_some ht).1 hp)
    exact ⟨hs, hid⟩

end Coherent

end Engine

end HeapStore
