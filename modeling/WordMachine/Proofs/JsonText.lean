import WordMachine.Json.Decode
import WordMachine.Json.Writer
import WordMachine.Proofs.SourceText

/-!
# What is written in JSON is read back

A text *says* a value (`Says`) if it is read as the tree of that value, whatever stands after it.
The facts about it follow the writer, from the inside out:

* strings (`says_string`): each character is read back from the way it is written, which is one of
  three (`Written`);
* numbers (`says_number`): their digits start with a zero only where they are a single one, and end
  where no part of a number follows (`Ends`);
* arrays and objects (`says_array`, `says_object`): items that say something, with commas between
  them and any blanks, say all of it. The layout of the text does not matter here;
* whole texts (`says_pretty`, `says_compact`, `decode_of_says`).

The reader has a bound on its calls. The length of the text that is left is enough for it.
-/

namespace WordMachine.Json

/-! ## 1. Strings -/

/-- **How a character is written inside a string**: as itself, after a backslash as a letter that
stands for it, or by its number. -/
inductive Written (c : Char) : List Char → Prop where
  | plain (hquote : c ≠ '"') (hslash : c ≠ '\\') (hcontrol : 0x20 ≤ c.toNat) : Written c [c]
  | letter {l : Char} (hl : l ≠ 'u') (h : escaped? l = some c) : Written c ['\\', l]
  | number {a b : Char} (h : quad? '0' '0' a b = some c.toNat) (hcontrol : c.toNat < 0x20) :
      Written c ['\\', 'u', '0', '0', a, b]

theorem written_writtenChar (c : Char) : Written c (writtenChar c) := by
  unfold writtenChar
  -- first the seven characters that have a letter of their own
  iterate 7
    split
    · rename_i h
      exact .letter (by decide) (by rw [h]; rfl)
  split
  · rename_i h
    refine .number ?_ h
    have hhigh := (Text.hexDigit_read (c.toNat / 16) (by omega)).1
    have hlow := (Text.hexDigit_read (c.toNat % 16) (by omega)).1
    have hzero : Text.hexValue? '0'.toNat = some 0 := rfl
    simp only [quad?, Text.hexNumber?, hhigh, hlow, hzero]
    congr 1
    omega
  · rename_i hquote hslash _ _ _ _ _ h
    exact .plain hquote hslash (by omega)

theorem skipString_written {c : Char} {text : List Char} (h : Written c text) (rest : List Char) :
    skipString (text ++ rest) = skipString rest := by
  cases h with
  | plain hquote hslash hcontrol => simp [skipString, hquote, hslash, Nat.not_lt.2 hcontrol]
  | letter hl h => simp [skipString, hl, h]
  | number h => simp [skipString, h]

theorem readString_written {c : Char} {text : List Char} (h : Written c text)
    (read rest : List Char) :
    readString read none (text ++ rest) = readString (c :: read) none rest := by
  cases h with
  | plain hquote hslash hcontrol => simp [readString, hquote, hslash, Nat.not_lt.2 hcontrol]
  | letter hl h => simp [readString, hl, h]
  | number h hcontrol =>
      have hlow : ¬ (0xDC00 ≤ c.toNat ∧ c.toNat ≤ 0xDFFF) := by omega
      have hhigh : ¬ (0xD800 ≤ c.toNat ∧ c.toNat ≤ 0xDBFF) := by omega
      simp only [List.cons_append, List.nil_append]
      rw [readString.eq_4 _ _ _ _ _ _ _ h, if_neg hlow, if_neg hhigh, Char.ofNat_toNat]

/-- Skipping stops after the closing quote. -/
theorem skipString_quoted (cs rest : List Char) :
    skipString (cs.flatMap writtenChar ++ '"' :: rest) = .ok rest := by
  induction cs with
  | nil => simp [skipString]
  | cons c cs ih =>
      rw [List.flatMap_cons, List.append_assoc, skipString_written (written_writtenChar c), ih]

theorem readString_quoted (cs read rest : List Char) :
    readString read none (cs.flatMap writtenChar ++ '"' :: rest) =
      .ok (String.ofList (read.reverse ++ cs)) := by
  induction cs generalizing read with
  | nil => simp [readString]
  | cons c cs ih =>
      rw [List.flatMap_cons, List.append_assoc, readString_written (written_writtenChar c), ih,
        List.reverse_cons, List.append_assoc, List.singleton_append]

theorem stringValue_quoted (s : String) (rest : List Char) :
    stringValue (s.toList.flatMap writtenChar ++ '"' :: rest) = some s := by
  unfold stringValue
  rw [readString_quoted]
  simp

/-- **A written string is read back.** -/
theorem stringTree_quoted (s : String) (rest : List Char) :
    stringTree (s.toList.flatMap writtenChar ++ '"' :: rest) = (.string (some s), some rest) := by
  unfold stringTree
  rw [skipString_quoted, stringValue_quoted]

/-! ## 2. Numbers -/

/-- No number but zero starts with a zero. -/
theorem toDigits_eq_zero_cons {n : Nat} {rest : List Char} (h : Nat.toDigits 10 n = '0' :: rest) :
    rest = [] := by
  induction n using Nat.strongRecOn generalizing rest with
  | ind n ih =>
      by_cases hsmall : n < 10
      · rw [Nat.toDigits_of_lt_base hsmall] at h
        exact (List.cons.inj h).2.symm
      · rw [Nat.toDigits_of_base_le (by decide) (by omega)] at h
        cases hdigits : Nat.toDigits 10 (n / 10) with
        | nil => exact absurd hdigits Nat.toDigits_ne_nil
        | cons c digits =>
            rw [hdigits, List.cons_append] at h
            obtain ⟨rfl, hrest⟩ := List.cons.inj h
            have hnil : digits = [] := ih (n / 10) (by omega) hdigits
            have hvalue : Nat.ofDigitChars 10 (Nat.toDigits 10 (n / 10)) 0 = 0 := by
              rw [hdigits, hnil]
              rfl
            rw [Nat.ofDigitChars_ten_toDigits] at hvalue
            omega

/-- What may follow a number: none of its parts. -/
def Ends (rest : List Char) : Prop :=
  ∀ c ∈ rest.head?, Text.isDigit c = false ∧ c ≠ '.' ∧ c ≠ 'e' ∧ c ≠ 'E'

theorem spanDigits_append {digits rest : List Char} (hdigits : ∀ c ∈ digits, Text.isDigit c = true)
    (hrest : Ends rest) : spanDigits (digits ++ rest) = (digits, rest) := by
  unfold spanDigits
  rw [List.takeWhile_append_of_pos hdigits, List.dropWhile_append_of_pos hdigits]
  cases rest with
  | nil => simp
  | cons c rest => simp [(hrest c rfl).1]

/-- The parts of a natural number as it is written. -/
def wholeNumber (n : Nat) : NumberText := { whole := (toString n).toList }

/-- **A written number is read back.** -/
theorem numberTree_toString (n : Nat) {rest : List Char} (hrest : Ends rest) :
    numberTree false ((toString n).toList ++ rest) = (.number (wholeNumber n), some rest) := by
  have hexponent : readExponent (wholeNumber n) rest = .ok (wholeNumber n, rest) := by
    unfold readExponent
    cases rest with
    | nil => rfl
    | cons c rest => simp [hrest c rfl]
  have hfraction : readFraction (wholeNumber n) rest = .ok (wholeNumber n, rest) := by
    unfold readFraction
    split
    · exact absurd rfl (hrest '.' rfl).2.1
    · exact hexponent
  have hnumber : readNumber false ((toString n).toList ++ rest) = .ok (wholeNumber n, rest) := by
    unfold readNumber
    rw [spanDigits_append (fun c => Text.isDigit_of_mem_toString) hrest]
    split
    · rename_i heq
      have hnil := (Prod.mk.inj heq).1
      rw [Text.toList_toString] at hnil
      exact absurd hnil Nat.toDigits_ne_nil
    · rename_i digits rest' _ heq
      obtain ⟨rfl, rfl⟩ := Prod.mk.inj heq
      split
      · rename_i c more heq'
        rw [Text.toList_toString] at heq'
        cases toDigits_eq_zero_cons heq'
      · exact hfraction
  unfold numberTree
  rw [hnumber]

/-! ## 3. Values -/

mutual

/-- The tree of a value. -/
def Value.tree : Value → Tree
  | .string s => .string (some s)
  | .number n => .number (wholeNumber n)
  | .array items => .array (itemsTree items)
  | .object members => .object (membersTree members)

/-- The trees of the items of an array. -/
def itemsTree : List Value → Items
  | [] => .closed
  | v :: rest => .cons v.tree (itemsTree rest)

/-- The trees of the members of an object. -/
def membersTree : List (String × Value) → Members
  | [] => .closed
  | (key, v) :: rest => .cons (some key) v.tree (membersTree rest)

end

/-- Blanks and nothing else. -/
def Blanks (text : List Char) : Prop := ∀ c ∈ text, isBlank c = true

theorem skipBlanks_append {blanks : List Char} (h : Blanks blanks) (rest : List Char) :
    skipBlanks (blanks ++ rest) = skipBlanks rest := List.dropWhile_append_of_pos h

theorem skipBlanks_cons {c : Char} (h : isBlank c = false) (rest : List Char) :
    skipBlanks (c :: rest) = c :: rest := List.dropWhile_cons_of_neg (by simp [h])

theorem readTree_blanks {blanks : List Char} (h : Blanks blanks) (bound : Nat) (rest : List Char) :
    readTree bound (blanks ++ rest) = readTree bound rest := by
  cases bound with
  | zero => rfl
  | succ bound => rw [readTree, readTree, skipBlanks_append h]

/-- **A text says a value**: it is read as the tree of the value, whatever follows, unless that
could be a part of a number. -/
structure Says (v : Value) (text : List Char) : Prop where
  starts : ∃ c rest, text = c :: rest ∧ isBlank c = false ∧ c ≠ ']'
  read : ∀ {bound : Nat} {rest : List Char}, text.length ≤ bound → Ends rest →
    readTree bound (text ++ rest) = (v.tree, some rest)

theorem says_string (s : String) : Says (.string s) (writtenString s) where
  starts := ⟨'"', _, rfl, rfl, by decide⟩
  read := by
    intro bound rest hbound _
    cases bound with
    | zero => exact absurd hbound (by simp [writtenString])
    | succ bound =>
        have htext : writtenString s ++ rest =
            '"' :: (s.toList.flatMap writtenChar ++ '"' :: rest) := by
          simp [writtenString]
        rw [htext, readTree, skipBlanks_cons rfl]
        exact stringTree_quoted s rest

theorem isBlank_digit {c : Char} (hc : Text.isDigit c = true) : isBlank c = false := by
  cases hblank : isBlank c with
  | false => rfl
  | true =>
      simp only [isBlank, Bool.or_eq_true, beq_iff_eq] at hblank
      rcases hblank with ((rfl | rfl) | rfl) | rfl <;> exact absurd hc (by decide)

theorem readTree_digit {c : Char} (hc : Text.isDigit c = true) (bound : Nat) (rest : List Char) :
    readTree (bound + 1) (c :: rest) = numberTree false (c :: rest) := by
  have hne : ∀ d, Text.isDigit d = false → c ≠ d := by
    intro d hd heq
    rw [heq, hd] at hc
    cases hc
  simp [readTree, skipBlanks_cons (isBlank_digit hc), hc, hne '[' rfl, hne '{' rfl, hne '"' rfl, hne 'n' rfl,
    hne 't' rfl, hne 'f' rfl, hne '-' rfl]

theorem says_number (n : Nat) : Says (.number n) (toString n).toList := by
  obtain ⟨c, digits, hdigits⟩ : ∃ c digits, (toString n).toList = c :: digits := by
    rw [Text.toList_toString]
    exact List.exists_cons_of_ne_nil Nat.toDigits_ne_nil
  have hc : Text.isDigit c = true :=
    Text.isDigit_of_mem_toString (by rw [hdigits]; exact List.mem_cons_self)
  refine ⟨⟨c, digits, hdigits, isBlank_digit hc, ?_⟩, ?_⟩
  · rintro rfl
    exact absurd hc (by decide)
  · intro bound rest hbound hrest
    cases bound with
    | zero => exact absurd hbound (by simp)
    | succ bound =>
        have hread := numberTree_toString n hrest
        rw [hdigits] at hread ⊢
        rw [List.cons_append, readTree_digit hc]
        exact hread

/-! ## 4. Brackets -/

/-- What stands before an item: nothing before the first one, a comma before every other one. -/
def separator (first : Bool) : List Char := if first then [] else [',']

/-- Texts with commas between them and blanks before each of them. -/
def listed (lead : List Char) : (first : Bool) → List (List Char) → List Char
  | _, [] => []
  | first, text :: rest => separator first ++ (lead ++ (text ++ listed lead false rest))

theorem commas_map (lead : List Char) (texts : List (List Char)) :
    commas (texts.map (lead ++ ·)) = listed lead true texts := by
  have hrest : ∀ text rest, commas ((text :: rest).map (lead ++ ·)) =
      lead ++ (text ++ listed lead false rest) := by
    intro text rest
    induction rest generalizing text with
    | nil => simp [commas, listed]
    | cons text' rest ih =>
        rw [List.map_cons, List.map_cons, commas, ← List.map_cons, ih]
        · simp [listed, separator]
        · simp
  cases texts with
  | nil => rfl
  | cons text rest =>
      rw [hrest]
      rfl

theorem ends_blanks {blanks rest : List Char} (h : Blanks blanks) (hrest : Ends rest) :
    Ends (blanks ++ rest) := by
  cases blanks with
  | nil => exact hrest
  | cons c blanks =>
      intro d hd
      cases hd
      have hblank := h c List.mem_cons_self
      simp only [isBlank, Bool.or_eq_true, beq_iff_eq] at hblank
      rcases hblank with ((rfl | rfl) | rfl) | rfl <;> decide

theorem ends_listed {lead last : List Char} (hlast : Blanks last) {c : Char} (hc : c = ']' ∨ c = '}')
    (texts : List (List Char)) (rest : List Char) :
    Ends (listed lead false texts ++ (last ++ c :: rest)) := by
  cases texts with
  | nil =>
      have hclosing : Ends (c :: rest) := by
        intro d hd
        cases hd
        rcases hc with rfl | rfl <;> decide
      show Ends (last ++ c :: rest)
      exact ends_blanks hlast hclosing
  | cons text texts =>
      intro d hd
      cases hd
      decide

theorem readItems_closed {last : List Char} (h : Blanks last) (bound : Nat) (first : Bool)
    (rest : List Char) :
    readItems (bound + 1) first (last ++ ']' :: rest) = (.closed, some rest) := by
  rw [readItems, skipBlanks_append h, skipBlanks_cons rfl]
  rfl

/-- One more item of an array. -/
theorem readItems_item {v : Value} {text : List Char} (h : Says v text) {lead : List Char}
    (hlead : Blanks lead) {bound : Nat} (hbound : text.length ≤ bound) {after rest : List Char}
    (hafter : Ends after) {items : Items} (hitems : readItems bound false after = (items, some rest))
    (first : Bool) :
    readItems (bound + 1) first (separator first ++ (lead ++ (text ++ after))) =
      (.cons v.tree items, some rest) := by
  obtain ⟨c, more, htext, hblank, hc⟩ := h.starts
  have hread : readTree bound (lead ++ (text ++ after)) = (v.tree, some after) := by
    rw [readTree_blanks hlead, h.read hbound hafter]
  cases first with
  | false =>
      show readItems (bound + 1) false (',' :: (lead ++ (text ++ after))) = _
      rw [readItems, skipBlanks_cons rfl]
      simp [hread, hitems]
  | true =>
      have hskip : skipBlanks (lead ++ (text ++ after)) = c :: (more ++ after) := by
        rw [skipBlanks_append hlead, htext, List.cons_append, skipBlanks_cons hblank]
      rw [readTree_blanks hlead, htext, List.cons_append] at hread
      show readItems (bound + 1) true (lead ++ (text ++ after)) = _
      rw [readItems, hskip]
      simp [hread, hitems]

theorem readItems_listed {items : List Value} {texts : List (List Char)}
    (h : List.Forall₂ Says items texts) {lead last : List Char} (hlead : Blanks lead)
    (hlast : Blanks last) (rest : List Char) :
    ∀ (bound : Nat) (first : Bool), (listed lead first texts).length < bound →
      readItems bound first (listed lead first texts ++ (last ++ ']' :: rest)) =
        (itemsTree items, some rest) := by
  induction h with
  | nil =>
      intro bound first hbound
      cases bound with
      | zero => exact absurd hbound (Nat.not_lt_zero _)
      | succ bound => exact readItems_closed hlast bound first rest
  | @cons v text items texts hsays _ ih =>
      intro bound first hbound
      cases bound with
      | zero => exact absurd hbound (Nat.not_lt_zero _)
      | succ bound =>
          obtain ⟨c, more, htext, -⟩ := hsays.starts
          have hlength : 0 < text.length := by simp [htext]
          simp only [listed, List.length_append] at hbound
          have hrest := ih bound false (by omega)
          have hafter : Ends (listed lead false texts ++ (last ++ ']' :: rest)) :=
            ends_listed hlast (.inl rfl) texts rest
          simp only [listed, List.append_assoc]
          exact readItems_item hsays hlead (by omega) hafter hrest first

/-- A text says a member of an object: its key, a colon and its value. -/
def SaysMember (m : String × Value) (text : List Char) : Prop :=
  ∃ gap value, Blanks gap ∧ Says m.2 value ∧ text = writtenString m.1 ++ ':' :: (gap ++ value)

theorem readMembers_closed {last : List Char} (h : Blanks last) (bound : Nat) (first : Bool)
    (rest : List Char) :
    readMembers (bound + 1) first (last ++ '}' :: rest) = (.closed, some rest) := by
  rw [readMembers, skipBlanks_append h, skipBlanks_cons rfl]
  rfl

/-- One more member of an object, from what its parts are read as. -/
theorem readMembers_parts {text body value after rest : List Char} {key : String} {t : Tree}
    {members : Members} {bound : Nat} (htext : skipBlanks text = '"' :: body)
    (hskip : skipString body = .ok (':' :: value)) (hkey : stringValue body = some key)
    (hvalue : readTree bound value = (t, some after))
    (hmembers : readMembers bound false after = (members, some rest)) (first : Bool) :
    readMembers (bound + 1) first (separator first ++ text) =
      (.cons (some key) t members, some rest) := by
  have hcolon : skipBlanks (':' :: value) = ':' :: value := skipBlanks_cons rfl value
  have hquote : skipBlanks ('"' :: body) = '"' :: body := skipBlanks_cons rfl body
  cases first with
  | false =>
      show readMembers (bound + 1) false (',' :: text) = _
      rw [readMembers, skipBlanks_cons rfl]
      simp [htext, hskip, hkey, hcolon, hvalue, hmembers]
  | true =>
      show readMembers (bound + 1) true text = _
      rw [readMembers, htext]
      simp [hquote, hskip, hkey, hcolon, hvalue, hmembers]

theorem readMembers_member {m : String × Value} {text : List Char} (h : SaysMember m text)
    {lead : List Char} (hlead : Blanks lead) {bound : Nat} (hbound : text.length ≤ bound)
    {after rest : List Char} (hafter : Ends after) {members : Members}
    (hmembers : readMembers bound false after = (members, some rest)) (first : Bool) :
    readMembers (bound + 1) first (separator first ++ (lead ++ (text ++ after))) =
      (.cons (some m.1) m.2.tree members, some rest) := by
  obtain ⟨gap, value, hgap, hsays, rfl⟩ := h
  simp only [List.length_append, List.length_cons] at hbound
  have hread : readTree bound (gap ++ (value ++ after)) = (m.2.tree, some after) := by
    rw [readTree_blanks hgap, hsays.read (by omega) hafter]
  have htext : skipBlanks (lead ++ (writtenString m.1 ++ ':' :: (gap ++ value) ++ after)) =
      '"' :: (m.1.toList.flatMap writtenChar ++ '"' :: ':' :: (gap ++ (value ++ after))) := by
    rw [skipBlanks_append hlead]
    simp only [writtenString, List.cons_append, List.append_assoc, List.nil_append]
    exact skipBlanks_cons rfl _
  exact readMembers_parts htext (skipString_quoted _ _) (stringValue_quoted _ _) hread hmembers first

theorem readMembers_listed {members : List (String × Value)} {texts : List (List Char)}
    (h : List.Forall₂ SaysMember members texts) {lead last : List Char} (hlead : Blanks lead)
    (hlast : Blanks last) (rest : List Char) :
    ∀ (bound : Nat) (first : Bool), (listed lead first texts).length < bound →
      readMembers bound first (listed lead first texts ++ (last ++ '}' :: rest)) =
        (membersTree members, some rest) := by
  induction h with
  | nil =>
      intro bound first hbound
      cases bound with
      | zero => exact absurd hbound (Nat.not_lt_zero _)
      | succ bound => exact readMembers_closed hlast bound first rest
  | @cons m text members texts hsays _ ih =>
      intro bound first hbound
      cases bound with
      | zero => exact absurd hbound (Nat.not_lt_zero _)
      | succ bound =>
          have hlength : 0 < text.length := by
            obtain ⟨gap, value, -, -, rfl⟩ := hsays
            simp [writtenString]
          simp only [listed, List.length_append] at hbound
          have hrest := ih bound false (by omega)
          have hafter : Ends (listed lead false texts ++ (last ++ '}' :: rest)) :=
            ends_listed hlast (.inr rfl) texts rest
          simp only [listed, List.append_assoc]
          exact readMembers_member hsays hlead (by omega) hafter hrest first

theorem says_array {items : List Value} {texts : List (List Char)}
    (h : List.Forall₂ Says items texts) {lead last : List Char} (hlead : Blanks lead)
    (hlast : Blanks last) :
    Says (.array items) ('[' :: (listed lead true texts ++ (last ++ [']']))) where
  starts := ⟨'[', _, rfl, rfl, by decide⟩
  read := by
    intro bound rest hbound _
    cases bound with
    | zero => exact absurd hbound (by simp)
    | succ bound =>
        simp only [List.length_cons, List.length_append] at hbound
        have hread := readItems_listed h hlead hlast rest bound true (by omega)
        simp only [List.cons_append, List.append_assoc, List.nil_append]
        rw [readTree, skipBlanks_cons rfl]
        simp [hread, Value.tree]

theorem says_object {members : List (String × Value)} {texts : List (List Char)}
    (h : List.Forall₂ SaysMember members texts) {lead last : List Char} (hlead : Blanks lead)
    (hlast : Blanks last) :
    Says (.object members) ('{' :: (listed lead true texts ++ (last ++ ['}']))) where
  starts := ⟨'{', _, rfl, rfl, by decide⟩
  read := by
    intro bound rest hbound _
    cases bound with
    | zero => exact absurd hbound (by simp)
    | succ bound =>
        simp only [List.length_cons, List.length_append] at hbound
        have hread := readMembers_listed h hlead hlast rest bound true (by omega)
        simp only [List.cons_append, List.append_assoc, List.nil_append]
        rw [readTree, skipBlanks_cons rfl]
        simp [hread, Value.tree]

/-! ## 5. Whole texts -/

theorem blanks_newLine (depth : Nat) : Blanks (newLine depth) := by
  intro c hc
  unfold newLine at hc
  rcases List.mem_cons.1 hc with rfl | hc
  · rfl
  · rw [(List.mem_replicate.1 hc).2]
    rfl

/-- Over several lines, texts between brackets have a new line before each of them, and one before
the closing bracket unless there are none. -/
theorem bracketed_eq (opening closing : Char) (depth : Nat) (texts : List (List Char)) :
    ∃ last, Blanks last ∧ bracketed opening closing depth texts =
      opening :: (listed (newLine (depth + 1)) true texts ++ (last ++ [closing])) := by
  cases texts with
  | nil => exact ⟨[], by simp [Blanks], rfl⟩
  | cons text texts =>
      refine ⟨newLine depth, blanks_newLine depth, ?_⟩
      rw [← commas_map]
      simp [bracketed]

mutual

/-- **A value over several lines says that value.** -/
theorem says_pretty (depth : Nat) : ∀ v : Value, Says v (v.pretty depth)
  | .string s => by
      rw [Value.pretty]
      exact says_string s
  | .number n => by
      rw [Value.pretty]
      exact says_number n
  | .array items => by
      obtain ⟨last, hlast, heq⟩ := bracketed_eq '[' ']' depth (prettyItems (depth + 1) items)
      rw [Value.pretty, heq]
      exact says_array (says_prettyItems (depth + 1) items) (blanks_newLine _) hlast
  | .object members => by
      obtain ⟨last, hlast, heq⟩ := bracketed_eq '{' '}' depth (prettyMembers (depth + 1) members)
      rw [Value.pretty, heq]
      exact says_object (says_prettyMembers (depth + 1) members) (blanks_newLine _) hlast

theorem says_prettyItems (depth : Nat) :
    ∀ items : List Value, List.Forall₂ Says items (prettyItems depth items)
  | [] => .nil
  | v :: rest => .cons (says_pretty depth v) (says_prettyItems depth rest)

theorem says_prettyMembers (depth : Nat) :
    ∀ members : List (String × Value), List.Forall₂ SaysMember members (prettyMembers depth members)
  | [] => .nil
  | (key, v) :: rest =>
      .cons ⟨[' '], v.pretty depth, by simp [Blanks, isBlank], says_pretty depth v, rfl⟩
        (says_prettyMembers depth rest)

end

/-- On one line, there are just commas between the texts. -/
theorem commas_eq (texts : List (List Char)) : commas texts = listed [] true texts := by
  have hsame : texts.map ([] ++ ·) = texts := by simp
  rw [← commas_map, hsame]

theorem blanks_nil : Blanks [] := fun _ hc => absurd hc List.not_mem_nil

mutual

/-- **A value on one line says that value.** -/
theorem says_compact : ∀ v : Value, Says v v.compact
  | .string s => by
      rw [Value.compact]
      exact says_string s
  | .number n => by
      rw [Value.compact]
      exact says_number n
  | .array items => by
      rw [Value.compact, commas_eq]
      exact says_array (says_compactItems items) blanks_nil blanks_nil
  | .object members => by
      rw [Value.compact, commas_eq]
      exact says_object (says_compactMembers members) blanks_nil blanks_nil

theorem says_compactItems :
    ∀ items : List Value, List.Forall₂ Says items (compactItems items)
  | [] => .nil
  | v :: rest => .cons (says_compact v) (says_compactItems rest)

theorem says_compactMembers :
    ∀ members : List (String × Value), List.Forall₂ SaysMember members (compactMembers members)
  | [] => .nil
  | (_, v) :: rest =>
      .cons ⟨[], v.compact, blanks_nil, says_compact v, rfl⟩ (says_compactMembers rest)

end

/-- **A whole text is read as the value it says**, also with blanks after it. -/
theorem decode_of_says {α : Type} (read : Tree → Reading α) {v : Value} {text blanks : List Char}
    (h : Says v text) (hblanks : Blanks blanks) :
    decode read (String.ofList (text ++ blanks)) = read v.tree := by
  have hends : Ends blanks := by
    rw [← List.append_nil blanks]
    exact ends_blanks hblanks fun c hc => by cases hc
  have hskip : skipBlanks blanks = [] := by
    unfold skipBlanks
    rw [List.dropWhile_eq_nil_iff]
    exact hblanks
  have hroot : readTree (2 * (text ++ blanks).length + 2) (text ++ blanks) =
      (v.tree, some blanks) := by
    refine h.read ?_ hends
    rw [List.length_append]
    omega
  have hdocument : Document.ofText (String.ofList (text ++ blanks)) = ⟨v.tree, false⟩ := by
    unfold Document.ofText
    rw [String.toList_ofList]
    dsimp only
    rw [hroot]
    dsimp only
    rw [hskip]
    rfl
  unfold decode
  rw [hdocument]
  dsimp only
  cases read v.tree <;> rfl

end WordMachine.Json
