import Mathlib.Data.List.Forall2
import HeapStore.Json.Form

/-! What is written is read back. `Json.Reads` says that the reader takes a written document from the
front of a text, whatever follows it, and is shown part by part as the writer puts documents together:
numbers, texts with their escapes, lists and records. No more fuel is needed than there are
characters. -/

namespace HeapStore.Json

variable {c : Char} {cs rest w : List Char} {j : Json} {fuel n : Nat}

theorem skipBlank_cons (h : isBlank c = false) : skipBlank (c :: cs) = c :: cs := by
  rw [skipBlank, List.dropWhile_cons_of_neg (by simp [h])]

/-- What may come after a document: nothing, or the mark that ends an item or a member. -/
inductive Ends : List Char → Prop
  | nothing : Ends []
  | comma {rest : List Char} : Ends (',' :: rest)
  | bracket {rest : List Char} : Ends (']' :: rest)
  | brace {rest : List Char} : Ends ('\x7d' :: rest)

/-! ### Numbers -/

theorem head?_toDigits (n : Nat) (h : (Nat.toDigits 10 n).head? = some '0') : n = 0 := by
  have hdigit : ∀ n < 10, [n.digitChar].head? = some '0' → n = 0 := by decide
  induction n using Nat.strongRecOn with
  | _ n ih =>
    by_cases hn : n < 10
    · rw [Nat.toDigits_of_lt_base hn] at h
      exact hdigit n hn h
    · rw [Nat.toDigits_of_base_le (by decide) (Nat.le_of_not_lt hn),
        List.head?_append_of_ne_nil _ Nat.toDigits_ne_nil] at h
      have := ih (n / 10) (Nat.div_lt_self (by omega) (by decide)) h
      omega

theorem natOfDigits_toDigits (n : Nat) : natOfDigits (Nat.toDigits 10 n) = n := by
  have h := Nat.ofDigitChars_ten_toDigits (n := n)
  rw [Nat.ofDigitChars_eq_foldl] at h
  rw [natOfDigits]
  simpa only [Nat.mul_comm] using h

theorem isDigit_of_ends (h : Ends rest) : rest.takeWhile Char.isDigit = [] ∧
    rest.dropWhile Char.isDigit = rest := by
  cases h <;> exact ⟨rfl, rfl⟩

theorem readUnsigned_nat (negative : Bool) (hn : negative = true → n ≠ 0) (h : Ends rest) :
    readUnsigned negative (Writer.nat n ++ rest) =
      some (int (if negative then -(n : Int) else n), rest) := by
  have hdigits : ∀ c ∈ Nat.toDigits 10 n, c.isDigit = true := fun c hc =>
    Nat.isDigit_of_mem_toDigits (by decide) (Nat.le_refl 10) hc
  obtain ⟨htake, hdrop⟩ := isDigit_of_ends h
  have hsome : (Nat.toDigits 10 n).isEmpty = false := by simp
  have hzero : ((Nat.toDigits 10 n).head? == some '0' && decide (1 < (Nat.toDigits 10 n).length)) =
      false := by
    by_cases hhead : (Nat.toDigits 10 n).head? = some '0'
    · rw [head?_toDigits n hhead]
      rfl
    · simp [hhead]
  have hminus : (negative && n == 0) = false := by
    cases negative with
    | false => rfl
    | true => simpa using hn rfl
  have hfraction : readFraction rest = some (false, rest) := by cases h <;> rfl
  have hexponent : readExponent rest = some (false, rest) := by cases h <;> rfl
  unfold readUnsigned Writer.nat
  rw [List.takeWhile_append_of_pos hdigits, List.dropWhile_append_of_pos hdigits, htake, hdrop,
    List.append_nil]
  simp only [hsome, hzero, hfraction, hexponent, natOfDigits_toDigits, hminus, Bool.or_false,
    Bool.false_eq_true, if_false]

theorem exists_digit (n : Nat) : ∃ c cs, Writer.nat n = c :: cs ∧ c.isDigit = true := by
  obtain ⟨c, cs, hw⟩ := List.exists_cons_of_ne_nil (Nat.toDigits_ne_nil (n := n) (b := 10))
  exact ⟨c, cs, hw, Nat.isDigit_of_mem_toDigits (by decide) (Nat.le_refl 10) (hw ▸ List.mem_cons_self)⟩

theorem readNumber_int (i : Int) (h : Ends rest) :
    readNumber (Writer.int i ++ rest) = some (int i, rest) := by
  cases i with
  | ofNat n =>
    obtain ⟨c, cs, hw, hdigit⟩ := exists_digit n
    have hread := readUnsigned_nat false (n := n) (fun hneg => by cases hneg) h
    unfold readNumber Writer.int
    simp only
    rw [hw] at hread ⊢
    split
    · next heq =>
      cases heq
      cases hdigit
    · exact hread
  | negSucc n => exact readUnsigned_nat true (fun _ => Nat.succ_ne_zero n) h

/-! ### Texts -/

theorem joinParts_unit {u : Nat} (hhigh : isHighSurrogate u = false) (hlow : isLowSurrogate u = false)
    (ps : List TextPart) : joinParts (.unit u :: ps) = (joinParts ps).map (Char.ofNat u :: ·) := by
  cases ps with
  | nil => simp [joinParts, hhigh, hlow]
  | cons p ps => cases p <;> simp [joinParts, hhigh, hlow]

/-- A character that needs no escape stands for itself. -/
theorem readParts_plain (hquote : c ≠ '\x22') (hslash : c ≠ '\\') (hge : ¬ c.toNat < 0x20)
    (rest : List Char) :
    readParts (c :: rest) = (readParts rest).map fun (ps, rest) => (.char c :: ps, rest) := by
  rw [readParts.eq_def]
  split
  · next heq => cases heq
  · next heq => exact absurd (List.cons.inj heq).1 hquote
  · next heq => exact absurd (List.cons.inj heq).1 hslash
  · next heq => exact absurd (List.cons.inj heq).1 hslash
  · next heq =>
    obtain ⟨rfl, rfl⟩ := List.cons.inj heq
    simp [hge, hslash]

/-- A character is read as one part, which stands for the character again. -/
theorem readParts_char (c : Char) (rest : List Char) : ∃ part,
    (∀ ps, joinParts (part :: ps) = (joinParts ps).map (c :: ·)) ∧
      readParts (Writer.char c ++ rest) = (readParts rest).map fun (ps, rest) => (part :: ps, rest) := by
  unfold Writer.char
  split
  iterate 7 exact ⟨.char _, fun _ => rfl, by simp [readParts, escaped?]⟩
  split
  · next hlt =>
    have hhex : ∀ n < 0x20, unitOfHex? '0' '0' (Writer.hexDigit (n / 16)) (Writer.hexDigit (n % 16)) =
        some n := by decide
    have hlow : ∀ n < 0x20, isHighSurrogate n = false ∧ isLowSurrogate n = false := by decide
    obtain ⟨hhigh, hlow⟩ := hlow c.toNat hlt
    refine ⟨.unit c.toNat, fun ps => ?_, ?_⟩
    · rw [joinParts_unit hhigh hlow, Char.ofNat_toNat]
    · simp [readParts, hhex c.toNat hlt]
  · next hquote hslash _ _ _ _ _ hge =>
    exact ⟨.char c, fun _ => rfl, readParts_plain hquote hslash hge rest⟩

/-- The parts of a text make its characters again. -/
theorem readParts_text (cs rest : List Char) : ∃ ps, joinParts ps = some cs ∧
    readParts (cs.flatMap Writer.char ++ '\x22' :: rest) = some (ps, rest) := by
  induction cs with
  | nil => exact ⟨[], rfl, by simp [readParts]⟩
  | cons c cs ih =>
    obtain ⟨ps, hjoin, hread⟩ := ih
    obtain ⟨part, hpart, hchar⟩ := readParts_char c (cs.flatMap Writer.char ++ '\x22' :: rest)
    refine ⟨part :: ps, by rw [hpart, hjoin, Option.map_some], ?_⟩
    rw [List.flatMap_cons, List.append_assoc, hchar, hread, Option.map_some]

theorem readText_text (s : String) (rest : List Char) :
    readText (s.toList.flatMap Writer.char ++ '\x22' :: rest) = some (some s, rest) := by
  obtain ⟨ps, hjoin, hread⟩ := readParts_text s.toList rest
  rw [readText, hread, Option.map_some]
  simp only [hjoin, Option.map_some, String.ofList_toList]

theorem text_append (s : String) (rest : List Char) :
    Writer.text s ++ rest = '\x22' :: (s.toList.flatMap Writer.char ++ '\x22' :: rest) := by
  simp [Writer.text]

/-! ### Documents -/

/-- Written like this, the document is read back from the front of a text. -/
structure Reads (w : List Char) (j : Json) : Prop where
  head : ∃ c cs, w = c :: cs ∧ isBlank c = false ∧ c ≠ ']'
  read : ∀ fuel rest, w.length ≤ fuel → Ends rest → Json.read fuel (w ++ rest) = some (j, rest)

/-- There is fuel for one step, and for a shorter text after it. -/
theorem exists_fuel (h : (c :: w).length ≤ fuel) : ∃ k, fuel = k + 1 ∧ w.length ≤ k := by
  obtain ⟨k, rfl⟩ := Nat.exists_eq_add_of_le' h
  exact ⟨k + w.length, by simp; omega, by omega⟩

/-- A number begins with no other mark than a digit or a minus sign. -/
theorem ne_of_number (hc : c.isDigit = true ∨ c = '-') (d : Char) (hd : d.isDigit = false)
    (hminus : d ≠ '-') : c ≠ d := by
  intro heq
  subst heq
  rcases hc with hc | hc
  · rw [hd] at hc
    cases hc
  · exact hminus hc

theorem isBlank_of_number (hc : c.isDigit = true ∨ c = '-') : isBlank c = false := by
  have hother := ne_of_number hc
  simp [isBlank, hother ' ' rfl (by decide), hother '\n' rfl (by decide),
    hother '\t' rfl (by decide), hother '\r' rfl (by decide)]

theorem read_number (hc : c.isDigit = true ∨ c = '-') :
    read (fuel + 1) (c :: cs) = readNumber (c :: cs) := by
  have hother := ne_of_number hc
  rw [read, skipBlank_cons (isBlank_of_number hc)]
  split
  · next heq => exact absurd (List.cons.inj heq).1 (hother 'n' rfl (by decide))
  · next heq => exact absurd (List.cons.inj heq).1 (hother 't' rfl (by decide))
  · next heq => exact absurd (List.cons.inj heq).1 (hother 'f' rfl (by decide))
  · next heq => exact absurd (List.cons.inj heq).1 (hother '\x22' rfl (by decide))
  · next heq => exact absurd (List.cons.inj heq).1 (hother '[' rfl (by decide))
  · next heq => exact absurd (List.cons.inj heq).1 (hother '\x7b' rfl (by decide))
  · rfl

theorem reads_int (i : Int) : Reads (Writer.int i) (int i) := by
  obtain ⟨c, cs, hw, hc⟩ : ∃ c cs, Writer.int i = c :: cs ∧ (c.isDigit = true ∨ c = '-') := by
    cases i with
    | ofNat n =>
      obtain ⟨c, cs, hw, hc⟩ := exists_digit n
      exact ⟨c, cs, hw, .inl hc⟩
    | negSucc n => exact ⟨'-', _, rfl, .inr rfl⟩
  refine ⟨⟨c, cs, hw, isBlank_of_number hc, ne_of_number hc ']' rfl (by decide)⟩,
    fun fuel rest hf hrest => ?_⟩
  have hnumber := readNumber_int i hrest
  rw [hw] at hf hnumber ⊢
  obtain ⟨k, rfl, -⟩ := exists_fuel hf
  rw [List.cons_append, read_number hc]
  exact hnumber

theorem reads_nat (n : Nat) : Reads (Writer.nat n) (int n) := reads_int n

theorem reads_bool (b : Bool) : Reads (Writer.bool b) (.bool b) := by
  cases b with
  | false =>
    refine ⟨⟨'f', "alse".toList, rfl, rfl, by decide⟩, fun fuel rest hf _ => ?_⟩
    obtain ⟨k, rfl, -⟩ := exists_fuel (c := 'f') (w := "alse".toList) hf
    rfl
  | true =>
    refine ⟨⟨'t', "rue".toList, rfl, rfl, by decide⟩, fun fuel rest hf _ => ?_⟩
    obtain ⟨k, rfl, -⟩ := exists_fuel (c := 't') (w := "rue".toList) hf
    rfl

theorem reads_text (s : String) : Reads (Writer.text s) (.text s) := by
  refine ⟨⟨'\x22', _, rfl, rfl, by decide⟩, fun fuel rest hf _ => ?_⟩
  obtain ⟨k, rfl, -⟩ := exists_fuel hf
  rw [text_append, read, skipBlank_cons rfl]
  simp only [readText_text, Option.map_some]

/-! ### Lists and records -/

theorem length_separated (w : List Char) {ws : List (List Char)} (hne : ws ≠ []) :
    (Writer.separated (w :: ws)).length = w.length + (Writer.separated ws).length + 1 := by
  obtain ⟨v, ws, rfl⟩ := List.exists_cons_of_ne_nil hne
  simp [Writer.separated]
  omega

theorem separated_append (w : List Char) {ws : List (List Char)} (hne : ws ≠ []) (rest : List Char) :
    Writer.separated (w :: ws) ++ rest = w ++ ',' :: (Writer.separated ws ++ rest) := by
  obtain ⟨v, ws, rfl⟩ := List.exists_cons_of_ne_nil hne
  simp [Writer.separated]

theorem readItems_last {rest : List Char} (h : read fuel cs = some (j, ']' :: rest)) :
    readItems (fuel + 1) cs = some ([j], rest) := by
  rw [readItems, h]
  rfl

theorem readItems_comma {js : List Json} {more rest : List Char}
    (h : read fuel cs = some (j, ',' :: more)) (hmore : readItems fuel more = some (js, rest)) :
    readItems (fuel + 1) cs = some (j :: js, rest) := by
  have hcomma : skipBlank (',' :: more) = ',' :: more := skipBlank_cons rfl
  rw [readItems, h]
  simp only [hcomma, hmore, Option.map_some]

/-- One document after the other, with commas between them, and the bracket that ends the list. -/
theorem readItems_separated {ws : List (List Char)} {js : List Json} (h : List.Forall₂ Reads ws js)
    (hne : ws ≠ []) (rest : List Char) (hf : (Writer.separated ws).length < fuel) :
    readItems fuel (Writer.separated ws ++ ']' :: rest) = some (js, rest) := by
  induction h generalizing fuel with
  | nil => exact absurd rfl hne
  | @cons w j ws js hw hws ih =>
    obtain ⟨k, rfl⟩ : ∃ k, fuel = k + 1 := Nat.exists_eq_succ_of_ne_zero (Nat.ne_zero_of_lt hf)
    by_cases hnil : ws = []
    · subst hnil
      cases hws
      exact readItems_last (hw.read k _ (Nat.le_of_lt_succ hf) .bracket)
    · rw [length_separated w hnil] at hf
      rw [separated_append w hnil]
      exact readItems_comma (hw.read k _ (by omega) .comma) (ih hnil (by omega))

theorem read_list {js : List Json} {rest : List Char} (hblank : isBlank c = false) (hc : c ≠ ']')
    (h : readItems fuel (c :: cs) = some (js, rest)) :
    read (fuel + 1) ('[' :: c :: cs) = some (.list js, rest) := by
  rw [read, skipBlank_cons rfl]
  simp only [skipBlank_cons hblank]
  split
  · next heq => exact absurd (List.cons.inj heq).1 hc
  · rw [h, Option.map_some]

theorem head_separated {ws : List (List Char)} {js : List Json} (h : List.Forall₂ Reads ws js)
    (hne : ws ≠ []) : ∃ c cs, Writer.separated ws = c :: cs ∧ isBlank c = false ∧ c ≠ ']' := by
  cases h with
  | nil => exact absurd rfl hne
  | @cons w j ws js hw hws =>
    obtain ⟨c, cs, rfl, hc⟩ := hw.head
    cases ws with
    | nil => exact ⟨c, cs, rfl, hc⟩
    | cons v ws => exact ⟨c, _, rfl, hc⟩

theorem reads_list {ws : List (List Char)} {js : List Json} (h : List.Forall₂ Reads ws js) :
    Reads (Writer.list ws) (.list js) := by
  refine ⟨⟨'[', _, rfl, rfl, by decide⟩, fun fuel rest hf _ => ?_⟩
  have happ : Writer.list ws ++ rest = '[' :: (Writer.separated ws ++ ']' :: rest) := by
    simp [Writer.list]
  have hlen : (Writer.list ws).length = (Writer.separated ws).length + 2 := by simp [Writer.list]
  obtain ⟨k, rfl, -⟩ := exists_fuel hf
  rw [happ]
  by_cases hnil : ws = []
  · subst hnil
    cases h
    rw [read, skipBlank_cons rfl]
    rfl
  · have hread := readItems_separated h hnil rest (Nat.lt_of_succ_lt_succ (hlen ▸ hf))
    obtain ⟨c, cs, hw, hblank, hc⟩ := head_separated h hnil
    rw [hw, List.cons_append] at hread ⊢
    exact read_list hblank hc hread

theorem member_append (name : String) (w rest : List Char) :
    Writer.member name w ++ rest = Writer.member name (w ++ rest) := by
  simp [Writer.member]

theorem readMembers_last {name : String} {rest : List Char}
    (h : read fuel cs = some (j, '\x7d' :: rest)) :
    readMembers (fuel + 1) (Writer.member name cs) = some ([(some name, j)], rest) := by
  have hcolon : skipBlank (':' :: cs) = ':' :: cs := skipBlank_cons rfl
  have hbrace : skipBlank ('\x7d' :: rest) = '\x7d' :: rest := skipBlank_cons rfl
  rw [Writer.member, text_append, readMembers, skipBlank_cons rfl]
  simp only [readText_text, hcolon, h, hbrace]

theorem readMembers_comma {name : String} {ms : List (Option String × Json)} {more rest : List Char}
    (h : read fuel cs = some (j, ',' :: more)) (hmore : readMembers fuel more = some (ms, rest)) :
    readMembers (fuel + 1) (Writer.member name cs) = some ((some name, j) :: ms, rest) := by
  have hcolon : skipBlank (':' :: cs) = ':' :: cs := skipBlank_cons rfl
  have hcomma : skipBlank (',' :: more) = ',' :: more := skipBlank_cons rfl
  rw [Writer.member, text_append, readMembers, skipBlank_cons rfl]
  simp only [readText_text, hcolon, h, hcomma, hmore, Option.map_some]

/-- The members of a record under names that are not broken. -/
def named (ns : List (String × Json)) : List (Option String × Json) := ns.map fun n => (some n.1, n.2)

/-- The member of a record is read back under its name. -/
def ReadsMember (m : String × List Char) (n : String × Json) : Prop := m.1 = n.1 ∧ Reads m.2 n.2

theorem Reads.member (h : Reads w j) (name : String) : ReadsMember (name, w) (name, j) := ⟨rfl, h⟩

/-- One member after the other, with commas between them, and the brace that ends the record. -/
theorem readMembers_separated {ms : List (String × List Char)} {ns : List (String × Json)}
    (h : List.Forall₂ ReadsMember ms ns) (hne : ms ≠ [])
    (rest : List Char)
    (hf : (Writer.separated (ms.map fun m => Writer.member m.1 m.2)).length < fuel) :
    readMembers fuel
        (Writer.separated (ms.map fun m => Writer.member m.1 m.2) ++ '\x7d' :: rest) =
      some (named ns, rest) := by
  induction h generalizing fuel with
  | nil => exact absurd rfl hne
  | @cons m n ms ns hm hms ih =>
    obtain ⟨name, w⟩ := m
    obtain ⟨name', j⟩ := n
    obtain ⟨heq, hw⟩ := hm
    simp only at heq hw
    subst heq
    obtain ⟨k, rfl⟩ : ∃ k, fuel = k + 1 := Nat.exists_eq_succ_of_ne_zero (Nat.ne_zero_of_lt hf)
    have hlen : w.length ≤ (Writer.member name w).length := by simp [Writer.member]; omega
    by_cases hnil : ms = []
    · subst hnil
      cases hms
      simp only [List.map_cons, List.map_nil, Writer.separated] at hf ⊢
      rw [member_append]
      exact readMembers_last (hw.read k _ (by omega) .brace)
    · have hnil' : ms.map (fun m => Writer.member m.1 m.2) ≠ [] := by simpa using hnil
      simp only [List.map_cons, length_separated _ hnil'] at hf
      rw [List.map_cons, separated_append _ hnil', member_append]
      exact readMembers_comma (hw.read k _ (by omega) .comma) (ih hnil (by omega))

theorem head_members {ms : List (String × List Char)} (hne : ms ≠ []) :
    ∃ cs, Writer.separated (ms.map fun m => Writer.member m.1 m.2) = '\x22' :: cs := by
  obtain ⟨⟨name, w⟩, ms, rfl⟩ := List.exists_cons_of_ne_nil hne
  cases ms with
  | nil => exact ⟨_, rfl⟩
  | cons m ms => exact ⟨_, rfl⟩

theorem read_record {ns : List (Option String × Json)} {rest : List Char}
    (h : readMembers fuel ('\x22' :: cs) = some (ns, rest)) :
    read (fuel + 1) ('\x7b' :: '\x22' :: cs) = some (.record ns, rest) := by
  have hquote : skipBlank ('\x22' :: cs) = '\x22' :: cs := skipBlank_cons rfl
  rw [read, skipBlank_cons rfl]
  simp only [hquote, h]
  rfl

theorem reads_record {ms : List (String × List Char)} {ns : List (String × Json)}
    (h : List.Forall₂ ReadsMember ms ns) :
    Reads (Writer.record ms) (.record (named ns)) := by
  refine ⟨⟨'\x7b', _, rfl, rfl, by decide⟩, fun fuel rest hf _ => ?_⟩
  have happ : Writer.record ms ++ rest = '\x7b' ::
      (Writer.separated (ms.map fun m => Writer.member m.1 m.2) ++ '\x7d' :: rest) := by
    simp [Writer.record]
  have hlen : (Writer.record ms).length =
      (Writer.separated (ms.map fun m => Writer.member m.1 m.2)).length + 2 := by
    simp [Writer.record]
  obtain ⟨k, rfl, -⟩ := exists_fuel hf
  rw [happ]
  by_cases hnil : ms = []
  · subst hnil
    cases h
    rw [read, skipBlank_cons rfl]
    rfl
  · have hread := readMembers_separated h hnil rest (Nat.lt_of_succ_lt_succ (hlen ▸ hf))
    obtain ⟨cs, hw⟩ := head_members hnil
    rw [hw, List.cons_append] at hread ⊢
    exact read_record hread

/-- A text in which a document stands alone. -/
theorem parse?_of_reads (h : Reads w j) : parse? w = some (j, []) := by
  have := h.read (2 * w.length + 2) [] (by omega) .nothing
  rwa [List.append_nil] at this

/-- A document with nothing after it is answered by its form alone. -/
theorem ofText_of_parse {α : Type} (form : Json → Except FormError α) {s : String}
    {rest : List Char} (h : parse? s.toList = some (j, rest)) (hrest : (skipBlank rest).isEmpty) :
    ofText form s = form j := by
  unfold ofText
  cases hform : form j with
  | error e => simp only [h, hform]
  | ok a => simp only [h, hform, hrest, if_true]

theorem exists_parse_of_ofText {α : Type} {form : Json → Except FormError α} {s : String} {a : α}
    (h : ofText form s = .ok a) : ∃ j rest, parse? s.toList = some (j, rest) ∧
      (skipBlank rest).isEmpty ∧ form j = .ok a := by
  unfold ofText at h
  split at h
  · cases h
  · next j rest hparse =>
    split at h
    · cases h
    · next b hform =>
      split at h
      · next hrest =>
        cases h
        exact ⟨j, rest, hparse, hrest, hform⟩
      · cases h

theorem ofText_of_reads {α : Type} (form : Json → Except FormError α) (h : Reads w j) :
    ofText form (String.ofList w) = form j :=
  ofText_of_parse form (by rw [String.toList_ofList, parse?_of_reads h]) rfl

end HeapStore.Json
