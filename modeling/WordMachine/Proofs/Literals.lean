import Mathlib.Data.Nat.Digits.Lemmas
import WordMachine.Proofs.ConfigFile
import WordMachine.Proofs.Spellings

/-!
# Word literals and their values

Which texts are read as words, and as which word.

* `positional` is the value that digits have by their places;
* `Spells` lists the literals of a number: decimal digits, or up to sixty-four base-16 digits after
  a mark. `DoublyMarked` are the texts that have two marks;
* `parse_eq_ok_iff` says that these are all the texts that are read;
* `Literal` lists the literals of a word as they are made from its digits, and `Dressed` what may be
  put into them and around them. `literals_read` says that it does no harm.
-/

namespace WordMachine

namespace Text

/-! ## 1. Digits -/

/-- Whether a character is a base-16 digit, of either case. -/
def isHexChar (c : Char) : Bool :=
  isDigit c || ('a' ≤ c && c ≤ 'f') || ('A' ≤ c && c ≤ 'F')

/-- The value of a digit. -/
def digitOf (c : Char) : Nat :=
  if isDigit c then c.toNat - '0'.toNat
  else if 'a' ≤ c then c.toNat - 'a'.toNat + 10
  else c.toNat - 'A'.toNat + 10

/-- **The value of digits to a base**: a digit counts for the power of the base that belongs to its
place, and the last one for itself. -/
def positional (base : Nat) (digits : List Char) : Nat :=
  Nat.ofDigits base (digits.map digitOf).reverse

theorem isDigit_iff {c : Char} : isDigit c = true ↔ 48 ≤ c.toNat ∧ c.toNat ≤ 57 := by
  simp [isDigit, Char.le_def, UInt32.le_iff_toNat_le]

theorem isHexChar_iff {c : Char} : isHexChar c = true ↔
    (48 ≤ c.toNat ∧ c.toNat ≤ 57) ∨ (97 ≤ c.toNat ∧ c.toNat ≤ 102) ∨
      (65 ≤ c.toNat ∧ c.toNat ≤ 70) := by
  rw [isHexChar, Bool.or_eq_true, Bool.or_eq_true, isDigit_iff, or_assoc]
  simp [Char.le_def, UInt32.le_iff_toNat_le]

theorem isHexChar_of_isDigit {c : Char} (h : isDigit c = true) : isHexChar c = true := by
  simp [isHexChar, h]

/-- The three ranges of base-16 digits, and what a digit of each is worth. -/
theorem digitOf_cases {c : Char} (h : isHexChar c = true) :
    (48 ≤ c.toNat ∧ c.toNat ≤ 57 ∧ digitOf c = c.toNat - 48) ∨
      (97 ≤ c.toNat ∧ c.toNat ≤ 102 ∧ digitOf c = c.toNat - 87) ∨
      (65 ≤ c.toNat ∧ c.toNat ≤ 70 ∧ digitOf c = c.toNat - 55) := by
  have hletter : 'a' ≤ c ↔ 97 ≤ c.toNat := by simp [Char.le_def, UInt32.le_iff_toNat_le]
  have ha : 'a'.toNat = 97 := rfl
  have hA : 'A'.toNat = 65 := rfl
  unfold digitOf
  simp only [isDigit_iff, hletter]
  rcases isHexChar_iff.1 h with hc | hc | hc
  · rw [if_pos hc]
    exact .inl ⟨hc.1, hc.2, rfl⟩
  · rw [if_neg (by omega), if_pos hc.1]
    exact .inr (.inl ⟨hc.1, hc.2, by omega⟩)
  · rw [if_neg (by omega), if_neg (by omega)]
    exact .inr (.inr ⟨hc.1, hc.2, by omega⟩)

/-- **A base-16 digit is read as its value**, and no other character is. -/
theorem hexValue?_eq_some_iff {c : Char} {d : Nat} :
    hexValue? c.toNat = some d ↔ isHexChar c = true ∧ digitOf c = d := by
  by_cases h : isHexChar c = true
  · have hvalue : hexValue? c.toNat = some (digitOf c) := by
      unfold hexValue?
      rcases digitOf_cases h with ⟨hlow, hhigh, hd⟩ | ⟨hlow, hhigh, hd⟩ | ⟨hlow, hhigh, hd⟩
      · rw [if_pos ⟨hlow, hhigh⟩, hd]
      · rw [if_neg (by omega), if_pos ⟨hlow, hhigh⟩, hd]
      · rw [if_neg (by omega), if_neg (by omega), if_pos ⟨hlow, hhigh⟩, hd]
    simp [hvalue, h]
  · have hvalue : hexValue? c.toNat = none := by
      rw [isHexChar_iff] at h
      unfold hexValue?
      rw [if_neg (by omega), if_neg (by omega), if_neg (by omega)]
    simp [hvalue, h]

/-! ## 2. Values by place -/

theorem positional_cons (base : Nat) (c : Char) (digits : List Char) :
    positional base (c :: digits) = digitOf c * base ^ digits.length + positional base digits := by
  unfold positional
  rw [List.map_cons, List.reverse_cons, Nat.ofDigits_append, Nat.ofDigits_singleton,
    List.length_reverse, List.length_map]
  ring

theorem positional_concat (base : Nat) (digits : List Char) (c : Char) :
    positional base (digits ++ [c]) = positional base digits * base + digitOf c := by
  unfold positional
  rw [List.map_append, List.map_singleton, List.reverse_append, List.reverse_singleton,
    List.singleton_append, Nat.ofDigits_cons]
  ring

/-- Zeros in front do not count. -/
theorem positional_zeros (base zeros : Nat) (digits : List Char) :
    positional base (List.replicate zeros '0' ++ digits) = positional base digits := by
  induction zeros with
  | zero => rfl
  | succ zeros ih =>
      have hzero : digitOf '0' = 0 := rfl
      rw [List.replicate_succ, List.cons_append, positional_cons, ih, hzero, Nat.zero_mul,
        Nat.zero_add]

/-- Base-16 digits are read from the left, and the value so far moves up one place each time. -/
theorem hexNumber?_eq_some_iff {value n : Nat} {digits : List Char} :
    hexNumber? value digits = some n ↔
      (∀ c ∈ digits, isHexChar c = true) ∧
        value * 16 ^ digits.length + positional 16 digits = n := by
  induction digits generalizing value with
  | nil => simp [hexNumber?, positional]
  | cons c digits ih =>
      unfold hexNumber?
      rw [List.forall_mem_cons, positional_cons, List.length_cons]
      cases hc : hexValue? c.toNat with
      | none =>
          have hother : ¬ isHexChar c = true := by
            intro h
            rw [hexValue?_eq_some_iff.2 ⟨h, rfl⟩] at hc
            cases hc
          simp [hother]
      | some d =>
          obtain ⟨hdigit, rfl⟩ := hexValue?_eq_some_iff.1 hc
          dsimp only
          rw [ih]
          have hvalue : (value * 16 + digitOf c) * 16 ^ digits.length + positional 16 digits =
              value * 16 ^ (digits.length + 1) +
                (digitOf c * 16 ^ digits.length + positional 16 digits) := by ring
          simp [hdigit, hvalue]

theorem ofDigitChars_eq {digits : List Char} (h : ∀ c ∈ digits, isDigit c = true) (value : Nat) :
    Nat.ofDigitChars 10 digits value = value * 10 ^ digits.length + positional 10 digits := by
  induction digits generalizing value with
  | nil => simp [positional]
  | cons c digits ih =>
      have hc : digitOf c = c.toNat - '0'.toNat := by
        rw [digitOf, if_pos (h c List.mem_cons_self)]
      rw [Nat.ofDigitChars_cons, ih fun d hd => h d (List.mem_cons_of_mem _ hd), positional_cons, hc,
        List.length_cons]
      ring

/-! ## 3. The digits of a number -/

theorem mem_toDigits {base : Nat} (hbase : 1 < base) {n : Nat} {c : Char}
    (h : c ∈ Nat.toDigits base n) : ∃ d < base, c = Nat.digitChar d := by
  induction n using Nat.strongRecOn with
  | ind n ih =>
      by_cases hsmall : n < base
      · rw [Nat.toDigits_of_lt_base hsmall] at h
        exact ⟨n, hsmall, List.mem_singleton.1 h⟩
      · rw [Nat.toDigits_of_base_le hbase (by omega), List.mem_append] at h
        rcases h with h | h
        · exact ih (n / base) (Nat.div_lt_self (by omega) hbase) h
        · exact ⟨n % base, Nat.mod_lt _ (by omega), List.mem_singleton.1 h⟩

/-- The digits that numbers are written with. -/
theorem digitChar_table : ∀ d < 16, digitOf (Nat.digitChar d) = d ∧
    isHexChar (Nat.digitChar d) = true ∧ (Nat.digitChar d).toLower = Nat.digitChar d := by
  decide

theorem positional_toDigits {base : Nat} (hbase : 1 < base) (hle : base ≤ 16) (n : Nat) :
    positional base (Nat.toDigits base n) = n := by
  induction n using Nat.strongRecOn with
  | ind n ih =>
      by_cases hsmall : n < base
      · rw [Nat.toDigits_of_lt_base hsmall]
        simp [positional, (digitChar_table n (by omega)).1]
      · have hdigit : n % base < 16 := Nat.lt_of_lt_of_le (Nat.mod_lt _ (by omega)) hle
        rw [Nat.toDigits_of_base_le hbase (by omega), positional_concat,
          ih (n / base) (Nat.div_lt_self (by omega) hbase), (digitChar_table _ hdigit).1,
          Nat.mul_comm]
        exact Nat.div_add_mod n base

theorem map_toLower_toDigits (n : Nat) :
    (Nat.toDigits 16 n).map Char.toLower = Nat.toDigits 16 n := by
  have hlower : (Nat.toDigits 16 n).map Char.toLower = (Nat.toDigits 16 n).map id := by
    apply List.map_congr_left
    intro c hc
    obtain ⟨d, hd, rfl⟩ := mem_toDigits (by decide) hc
    exact (digitChar_table d hd).2.2
  rw [hlower, List.map_id]

theorem toNat_toLower (c : Char) :
    c.toLower.toNat = if 65 ≤ c.toNat ∧ c.toNat ≤ 90 then c.toNat + 32 else c.toNat := by
  have hA : 'A'.val.toNat = 65 := rfl
  have hZ : 'Z'.val.toNat = 90 := rfl
  have hiff : (c.val ≥ 'A'.val ∧ c.val ≤ 'Z'.val) ↔ 65 ≤ c.toNat ∧ c.toNat ≤ 90 := by
    rw [ge_iff_le, UInt32.le_iff_toNat_le, UInt32.le_iff_toNat_le, hA, hZ]
    rfl
  unfold Char.toLower
  split
  · rename_i h
    rw [if_pos (hiff.1 h)]
    have hrange := hiff.1 h
    have hadd : (c.val + ('a'.val - 'A'.val)).toNat = (c.val.toNat + 32) % 2 ^ 32 := rfl
    have hval : c.val.toNat = c.toNat := rfl
    show (c.val + ('a'.val - 'A'.val)).toNat = _
    omega
  · rename_i h
    rw [if_neg (fun hrange => h (hiff.2 hrange))]

/-- The case of a letter does not count. -/
theorem isHexChar_of_toLower {c : Char} (h : isHexChar c.toLower = true) :
    isHexChar c = true ∧ digitOf c.toLower = digitOf c := by
  have hlower := digitOf_cases h
  rw [toNat_toLower] at hlower
  have hc : isHexChar c = true := by
    rw [isHexChar_iff]
    split at hlower <;> omega
  have hcases := digitOf_cases hc
  refine ⟨hc, ?_⟩
  split at hlower <;> omega

/-- Digits keep their value in lower case. -/
theorem positional_toLower {digits : List Char}
    (h : ∀ c ∈ digits.map Char.toLower, isHexChar c = true) (base : Nat) :
    (∀ c ∈ digits, isHexChar c = true) ∧
      positional base (digits.map Char.toLower) = positional base digits := by
  have hcase : ∀ c ∈ digits, isHexChar c = true ∧ digitOf c.toLower = digitOf c :=
    fun c hc => isHexChar_of_toLower (h c.toLower (List.mem_map_of_mem hc))
  have hmap : (digits.map Char.toLower).map digitOf = digits.map digitOf := by
    rw [List.map_map]
    exact List.map_congr_left fun c hc => (hcase c hc).2
  refine ⟨fun c hc => (hcase c hc).1, ?_⟩
  rw [positional, positional, hmap]

theorem isHexChar_of_mem_padded {zeros n : Nat} {c : Char}
    (h : c ∈ List.replicate zeros '0' ++ Nat.toDigits 16 n) : isHexChar c = true := by
  rcases List.mem_append.1 h with h | h
  · rw [List.eq_of_mem_replicate h]
    rfl
  · obtain ⟨d, hd, rfl⟩ := mem_toDigits (by decide) h
    exact (digitChar_table d hd).2.1

theorem isDigit_of_mem_padded {zeros n : Nat} {c : Char}
    (h : c ∈ List.replicate zeros '0' ++ Nat.toDigits 10 n) : isDigit c = true := by
  rcases List.mem_append.1 h with h | h
  · rw [List.eq_of_mem_replicate h]
    rfl
  · rw [← toList_toString] at h
    exact isDigit_of_mem_toString h

/-- **A number is the value of its digits**, with zeros in front. -/
theorem positional_padded {base : Nat} (hbase : 1 < base) (hle : base ≤ 16) (zeros n : Nat) :
    positional base (List.replicate zeros '0' ++ Nat.toDigits base n) = n := by
  rw [positional_zeros, positional_toDigits hbase hle]

theorem toNat_lt_of_isHexChar {c : Char} (h : isHexChar c = true) : c.toNat < 128 := by
  have hcases := digitOf_cases h
  omega

theorem isBlank_of_isHexChar {c : Char} (h : isHexChar c = true) : isBlank c = false := by
  have hcases := digitOf_cases h
  simp only [isBlank, blankRanges, List.any_cons, List.any_nil, Bool.or_false,
    Bool.or_eq_false_iff, Bool.and_eq_false_imp, decide_eq_true_eq, decide_eq_false_iff_not, not_le]
  omega

/-! ## 4. Underscores and blanks -/

/-- A text with underscores put in, at any places. -/
inductive Underscored : (literal text : List Char) → Prop where
  | nil : Underscored [] []
  | keep {c : Char} {literal text : List Char} (h : Underscored literal text) :
      Underscored (c :: literal) (c :: text)
  | insert {literal text : List Char} (h : Underscored literal text) :
      Underscored literal ('_' :: text)

/-- **A text as it may stand for a literal**: underscores are put in, then blanks around it. -/
inductive Dressed (literal : List Char) : (text : List Char) → Prop where
  | intro {before inner after : List Char} (hbefore : Blank before) (hafter : Blank after)
      (h : Underscored literal inner) : Dressed literal (before ++ (inner ++ after))

theorem Underscored.filter {literal text : List Char} (h : Underscored literal text)
    (hplain : ∀ c ∈ literal, c ≠ '_') : text.filter (· ≠ '_') = literal := by
  induction h with
  | nil => rfl
  | @keep c literal text _ ih =>
      rw [List.filter_cons_of_pos (by simpa using hplain c List.mem_cons_self),
        ih fun d hd => hplain d (List.mem_cons_of_mem _ hd)]
  | insert _ ih =>
      rw [List.filter_cons_of_neg (by simp), ih hplain]

theorem Underscored.forall_mem {p : Char → Prop} (hp : p '_') {literal text : List Char}
    (h : Underscored literal text) (hliteral : ∀ c ∈ literal, p c) : ∀ c ∈ text, p c := by
  induction h with
  | nil => exact hliteral
  | keep _ ih =>
      rw [List.forall_mem_cons] at hliteral ⊢
      exact ⟨hliteral.1, ih hliteral.2⟩
  | insert _ ih =>
      rw [List.forall_mem_cons]
      exact ⟨hp, ih hliteral⟩

theorem Underscored.refl : ∀ literal : List Char, Underscored literal literal
  | [] => .nil
  | _ :: literal => .keep (refl literal)

theorem Dressed.refl (literal : List Char) : Dressed literal literal := by
  have h := Dressed.intro Blank.nil Blank.nil (Underscored.refl literal)
  rw [List.nil_append, List.append_nil] at h
  exact h

theorem dropWhile_blanks {blanks rest : List Char} (hblanks : Blank blanks)
    (hrest : ∀ c ∈ rest.head?, isBlank c = false) :
    (blanks ++ rest).dropWhile isBlank = rest := by
  rw [List.dropWhile_append_of_pos hblanks]
  cases rest with
  | nil => rfl
  | cons c rest => rw [List.dropWhile_cons_of_neg (by simp [hrest c rfl])]

theorem trim_surrounded {before inner after : List Char} (hbefore : Blank before)
    (hafter : Blank after) (hne : inner ≠ []) (hinner : ∀ c ∈ inner, isBlank c = false) :
    trim (before ++ (inner ++ after)) = inner := by
  have hreverse : Blank after.reverse := fun c hc => hafter c (List.mem_reverse.1 hc)
  have hfront : (before ++ (inner ++ after)).dropWhile isBlank = inner ++ after := by
    apply dropWhile_blanks hbefore
    rw [List.head?_append_of_ne_nil _ hne]
    exact fun c hc => hinner c (List.mem_of_mem_head? hc)
  have hback : (after.reverse ++ inner.reverse).dropWhile isBlank = inner.reverse := by
    apply dropWhile_blanks hreverse
    exact fun c hc => hinner c (List.mem_reverse.1 (List.mem_of_mem_head? hc))
  rw [trim, hfront, List.reverse_append, hback, List.reverse_reverse]

end Text

namespace Word

open Text (Dressed digitOf isDigit isHexChar positional)

theorem literalBody_dressed {literal text : List Char} (h : Dressed literal text)
    (hne : literal ≠ []) (hplain : ∀ c ∈ literal, Text.isBlank c = false ∧ c ≠ '_') :
    literalBody text = literal := by
  obtain ⟨hbefore, hafter, hinner⟩ := h
  rename_i before inner after
  have hblank := hinner.forall_mem (p := fun c => Text.isBlank c = false) (by decide)
    fun c hc => (hplain c hc).1
  have hfilter : inner.filter (· ≠ '_') = literal := hinner.filter fun c hc => (hplain c hc).2
  have hsome : inner ≠ [] := by
    rintro rfl
    exact hne hfilter.symm
  rw [literalBody, Text.trim_surrounded hbefore hafter hsome hblank, hfilter]

/-! ## 5. What is read -/

/-- The marks of base 16. -/
def IsMark (c : Char) : Prop := c = 'x' ∨ c = 'X'

/-- **The literals of a number**: digits, or one to sixty-four base-16 digits after a mark. -/
inductive Spells : List Char → Nat → Prop where
  | decimal {digits : List Char} (hne : digits ≠ []) (h : ∀ c ∈ digits, isDigit c = true) :
      Spells digits (positional 10 digits)
  | hex {mark : Char} (hmark : IsMark mark) {digits : List Char} (hne : digits ≠ [])
      (hlength : digits.length ≤ 64) (h : ∀ c ∈ digits, isHexChar c = true) :
      Spells ('0' :: mark :: digits) (positional 16 digits)

/-- A second mark after the first, and up to sixty-two base-16 digits, or none. -/
inductive DoublyMarked : List Char → Nat → Prop where
  | intro {mark : Char} (hmark : IsMark mark) {digits : List Char} (hlength : digits.length ≤ 62)
      (h : ∀ c ∈ digits, isHexChar c = true) :
      DoublyMarked ('0' :: mark :: '0' :: 'x' :: digits) (positional 16 digits)

theorem not_isHexChar_mark {c : Char} (h : IsMark c) : ¬ isHexChar c = true := by
  rcases h with rfl | rfl <;> decide

theorem byteLength_of_ascii {text : List Char} (h : ∀ c ∈ text, c.toNat < 128) :
    byteLength text = text.length := by
  have hfold : ∀ (text : List Char) (n : Nat), (∀ c ∈ text, c.toNat < 128) →
      text.foldl (fun n c => n + c.utf8Size) n = n + text.length := by
    intro text
    induction text with
    | nil => simp
    | cons c text ih =>
        intro n h
        have hsize : c.utf8Size = 1 :=
          Char.utf8Size_eq_one_iff.2
            (UInt32.le_iff_toNat_le.2 (Nat.le_of_lt_succ (h c List.mem_cons_self)))
        rw [List.foldl_cons, hsize, ih _ fun d hd => h d (List.mem_cons_of_mem _ hd),
          List.length_cons]
        omega
  rw [byteLength, hfold text 0 h, Nat.zero_add]

theorem byteLength_of_isHexChar {digits : List Char} (h : ∀ c ∈ digits, isHexChar c = true) :
    byteLength digits = digits.length :=
  byteLength_of_ascii fun c hc => Text.toNat_lt_of_isHexChar (h c hc)

theorem byteLength_secondMark {digits : List Char} (h : ∀ c ∈ digits, isHexChar c = true) :
    byteLength ('0' :: 'x' :: digits) = digits.length + 2 := by
  rw [byteLength_of_ascii]
  · rfl
  · rw [List.forall_mem_cons, List.forall_mem_cons]
    exact ⟨by decide, by decide, fun c hc => Text.toNat_lt_of_isHexChar (h c hc)⟩

theorem dropHexMark_eq_self {digits : List Char} (h : ∀ rest, digits ≠ '0' :: 'x' :: rest) :
    dropHexMark digits = digits := by
  unfold dropHexMark
  split
  · exact absurd rfl (h _)
  · rfl

/-- What follows a mark is read if it has one to sixty-four bytes and, but for a second mark, only
digits. -/
theorem parseHexDigits_eq_ok_iff {text : String} {digits : List Char} {w : Word} :
    parseHexDigits text digits = .ok w ↔
      digits ≠ [] ∧ byteLength digits ≤ 64 ∧ (∀ c ∈ dropHexMark digits, isHexChar c = true) ∧
        positional 16 (dropHexMark digits) = w.toNat := by
  have hread : ∀ n, Text.hexNumber? 0 (dropHexMark digits) = some n ↔
      (∀ c ∈ dropHexMark digits, isHexChar c = true) ∧ positional 16 (dropHexMark digits) = n := by
    intro n
    rw [Text.hexNumber?_eq_some_iff, Nat.zero_mul, Nat.zero_add]
  unfold parseHexDigits
  by_cases hlength : digits ≠ [] ∧ byteLength digits ≤ 64
  · have hcond : ¬ (digits.isEmpty || decide (64 < byteLength digits)) = true := by
      simp [hlength.1, hlength.2]
    rw [if_neg hcond, ← and_assoc, and_iff_right hlength, ← hread]
    cases hnumber : Text.hexNumber? 0 (dropHexMark digits) with
    | none => simp
    | some n =>
        dsimp only
        cases hword : ofNat? n with
        | none =>
            simp only [reduceCtorEq, Option.some.injEq, false_iff]
            rintro rfl
            simp at hword
        | some w' =>
            have hvalue := ofNat?_eq_some_iff.1 hword
            simp only [Except.ok.injEq, Option.some.injEq]
            rw [← hvalue]
            exact ⟨fun h => h ▸ rfl, ext⟩
  · have hcond : (digits.isEmpty || decide (64 < byteLength digits)) = true := by
      simp only [Bool.or_eq_true, List.isEmpty_iff, decide_eq_true_eq]
      by_contra hnot
      exact hlength ⟨fun h => hnot (.inl h), by omega⟩
    rw [if_pos hcond]
    simp only [reduceCtorEq, false_iff]
    exact fun h => hlength ⟨h.1, h.2.1⟩

/-- A text with a mark is read in base 16. -/
theorem parse_of_mark {text : String} {mark : Char} (hmark : IsMark mark) {digits : List Char}
    (hbody : literalBody text.toList = '0' :: mark :: digits) :
    parse text = parseHexDigits text digits := by
  unfold parse
  rw [hbody]
  rcases hmark with rfl | rfl <;> rfl

/-- A text without a mark is read as decimal digits. -/
theorem parse_of_unmarked {text : String} (hne : literalBody text.toList ≠ [])
    (hmark : ∀ mark digits, IsMark mark → literalBody text.toList ≠ '0' :: mark :: digits) :
    parse text = readDecimal text zero (literalBody text.toList) := by
  unfold parse
  generalize readDecimal text zero = readRest
  generalize literalBody text.toList = body at hne hmark
  split
  · exact absurd rfl hne
  · exact absurd rfl (hmark 'x' _ (.inl rfl))
  · exact absurd rfl (hmark 'X' _ (.inr rfl))
  · rfl

theorem ne_mark_of_isDigit {body : List Char} (h : ∀ c ∈ body, isDigit c = true) (mark : Char)
    (digits : List Char) (hmark : IsMark mark) : body ≠ '0' :: mark :: digits := by
  rintro rfl
  exact not_isHexChar_mark hmark (Text.isHexChar_of_isDigit (h mark (by simp)))

theorem readDecimal_zero_eq_ok_iff {text : String} {digits : List Char} {w : Word} :
    readDecimal text zero digits = .ok w ↔
      (∀ c ∈ digits, isDigit c = true) ∧ positional 10 digits = w.toNat := by
  have hzero : zero.toNat = 0 := rfl
  rw [readDecimal_eq_ok_iff, hzero, Text.readDigits_eq_ok_iff (by decide)]
  constructor
  · rintro ⟨hdigits, hvalue, -⟩
    rw [Text.ofDigitChars_eq hdigits, Nat.zero_mul, Nat.zero_add] at hvalue
    exact ⟨hdigits, hvalue⟩
  · rintro ⟨hdigits, hvalue⟩
    rw [Text.ofDigitChars_eq hdigits, Nat.zero_mul, Nat.zero_add]
    exact ⟨hdigits, hvalue, w.isLt⟩

/-- **A literal of a word is read as that word.** -/
theorem parse_of_spells {text : String} {w : Word}
    (h : Spells (literalBody text.toList) w.toNat) : parse text = .ok w := by
  generalize hbody : literalBody text.toList = body at h
  generalize hvalue : w.toNat = n at h
  cases h with
  | decimal hne hdigits =>
      rw [parse_of_unmarked (by rw [hbody]; exact hne)
        (by rw [hbody]; exact ne_mark_of_isDigit hdigits), hbody, readDecimal_zero_eq_ok_iff]
      exact ⟨hdigits, hvalue.symm⟩
  | @hex mark hmark digits hne hlength hdigits =>
      have hsame : dropHexMark digits = digits := by
        apply dropHexMark_eq_self
        rintro rest rfl
        exact not_isHexChar_mark (.inl rfl) (hdigits 'x' (by simp))
      rw [parse_of_mark hmark hbody, parseHexDigits_eq_ok_iff, hsame,
        byteLength_of_isHexChar hdigits]
      exact ⟨hne, hlength, hdigits, hvalue.symm⟩

theorem parse_of_doublyMarked {text : String} {w : Word}
    (h : DoublyMarked (literalBody text.toList) w.toNat) : parse text = .ok w := by
  generalize hbody : literalBody text.toList = body at h
  generalize hvalue : w.toNat = n at h
  obtain ⟨hmark, hlength, hdigits⟩ := h
  rename_i mark digits
  rw [parse_of_mark hmark hbody, parseHexDigits_eq_ok_iff, byteLength_secondMark hdigits]
  exact ⟨by simp, by omega, hdigits, hvalue.symm⟩

/-- What follows a mark is read as the digits of a literal, or there is a second mark. -/
theorem spells_of_parseHexDigits {text : String} {mark : Char} (hmark : IsMark mark)
    {digits : List Char} {w : Word} (h : parseHexDigits text digits = .ok w) :
    Spells ('0' :: mark :: digits) w.toNat ∨ DoublyMarked ('0' :: mark :: digits) w.toNat := by
  obtain ⟨hne, hlength, hdigits, hvalue⟩ := parseHexDigits_eq_ok_iff.1 h
  rw [← hvalue]
  by_cases hsecond : ∃ rest, digits = '0' :: 'x' :: rest
  · obtain ⟨rest, rfl⟩ := hsecond
    have hrest : ∀ c ∈ rest, isHexChar c = true := hdigits
    rw [byteLength_secondMark hrest] at hlength
    exact .inr (.intro hmark (by omega) hrest)
  · have hsame : dropHexMark digits = digits :=
      dropHexMark_eq_self fun rest heq => hsecond ⟨rest, heq⟩
    rw [hsame] at hdigits ⊢
    rw [byteLength_of_isHexChar hdigits] at hlength
    exact .inl (.hex hmark hne hlength hdigits)

/-- **Which texts are words**: what is left of a text without the blanks around it and the
underscores is a literal of the word, or has a second mark. -/
theorem parse_eq_ok_iff (text : String) (w : Word) :
    parse text = .ok w ↔
      Spells (literalBody text.toList) w.toNat ∨ DoublyMarked (literalBody text.toList) w.toNat := by
  constructor
  · intro h
    by_cases hmarked : ∃ mark digits, IsMark mark ∧ literalBody text.toList = '0' :: mark :: digits
    · obtain ⟨mark, digits, hmark, hbody⟩ := hmarked
      rw [parse_of_mark hmark hbody] at h
      rw [hbody]
      exact spells_of_parseHexDigits hmark h
    · have hne : literalBody text.toList ≠ [] := by
        intro hempty
        unfold parse at h
        rw [hempty] at h
        cases h
      rw [parse_of_unmarked hne fun mark digits hmark hbody => hmarked ⟨mark, digits, hmark, hbody⟩,
        readDecimal_zero_eq_ok_iff] at h
      rw [← h.2]
      exact .inl (.decimal hne h.1)
  · rintro (h | h)
    · exact parse_of_spells h
    · exact parse_of_doublyMarked h

theorem parse_eq_ok_iff_secondMark :
    parse "0x0x1" = .ok one ∧ ∀ n, ¬ Spells (literalBody "0x0x1".toList) n := by
  have hbody : literalBody "0x0x1".toList = ['0', 'x', '0', 'x', '1'] := by decide
  have hmarked : DoublyMarked ['0', 'x', '0', 'x', '1'] (positional 16 ['1']) :=
    .intro (.inl rfl) (by decide) (List.forall_mem_singleton.2 rfl)
  constructor
  · apply (parse_eq_ok_iff _ _).2
    rw [hbody]
    exact .inr hmarked
  · intro n h
    rw [hbody] at h
    cases h with
    | decimal _ h => exact absurd (h 'x' (by decide)) (by decide)
    | hex _ _ _ h => exact absurd (h 'x' (by decide)) (by decide)

/-! ## 6. The literals of a word -/

/-- **The literals of a word**: its decimal digits after any number of zeros, or a mark and its
base-16 digits, some of the letters in upper case, after as many zeros as sixty-four places allow. -/
inductive Literal (w : Word) : List Char → Prop where
  | decimal (zeros : Nat) : Literal w (List.replicate zeros '0' ++ Nat.toDigits 10 w.toNat)
  | hex {mark : Char} (hmark : IsMark mark) {digits : List Char} (zeros : Nat)
      (hdigits : digits.map Char.toLower = List.replicate zeros '0' ++ Nat.toDigits 16 w.toNat)
      (hlength : digits.length ≤ 64) : Literal w ('0' :: mark :: digits)

theorem Literal.spells {w : Word} {literal : List Char} (h : Literal w literal) :
    Spells literal w.toNat := by
  cases h with
  | decimal zeros =>
      have hspells := Spells.decimal (by simp)
        fun c => @Text.isDigit_of_mem_padded zeros w.toNat c
      rw [Text.positional_padded (by decide) (by decide)] at hspells
      exact hspells
  | @hex mark hmark digits zeros hdigits hlength =>
      have hlower : ∀ c ∈ digits.map Char.toLower, isHexChar c = true := by
        rw [hdigits]
        exact fun c => Text.isHexChar_of_mem_padded
      obtain ⟨hhex, hsame⟩ := Text.positional_toLower hlower 16
      have hvalue : positional 16 digits = w.toNat := by
        rw [← hsame, hdigits, Text.positional_padded (by decide) (by decide)]
      have hne : digits ≠ [] := by
        rintro rfl
        simp at hdigits
      rw [← hvalue]
      exact .hex hmark hne hlength hhex

/-- The form in base 16 that a word is written in is one of its literals. -/
theorem literal_hex (w : Word) : Literal w w.hex.toList := by
  have htext : w.hex.toList = '0' :: 'x' :: Nat.toDigits 16 w.toNat := by simp [hex]
  rw [htext]
  exact .hex (.inl rfl) 0 (Text.map_toLower_toDigits w.toNat)
    (Nat.toDigits_length 16 w.toNat 64 (by decide) w.isLt)

theorem plain_of_isHexChar {c : Char} (h : isHexChar c = true) :
    Text.isBlank c = false ∧ c ≠ '_' := by
  refine ⟨Text.isBlank_of_isHexChar h, ?_⟩
  rintro rfl
  exact absurd h (by decide)

theorem plain_of_marked {mark : Char} (hmark : IsMark mark) {digits : List Char}
    (h : ∀ c ∈ digits, isHexChar c = true) :
    ∀ c ∈ '0' :: mark :: digits, Text.isBlank c = false ∧ c ≠ '_' := by
  rw [List.forall_mem_cons, List.forall_mem_cons]
  refine ⟨by decide, ?_, fun c hc => plain_of_isHexChar (h c hc)⟩
  rcases hmark with rfl | rfl <;> decide

theorem Spells.ne_nil {literal : List Char} {n : Nat} (h : Spells literal n) : literal ≠ [] := by
  cases h with
  | decimal hne _ => exact hne
  | hex => exact List.cons_ne_nil _ _

theorem Spells.plain {literal : List Char} {n : Nat} (h : Spells literal n) :
    ∀ c ∈ literal, Text.isBlank c = false ∧ c ≠ '_' := by
  cases h with
  | decimal _ h => exact fun c hc => plain_of_isHexChar (Text.isHexChar_of_isDigit (h c hc))
  | hex hmark _ _ h => exact plain_of_marked hmark h

/-- Digits that take the value out of the words are refused for it, and for nothing else. -/
theorem readDecimal_tooLarge (text : String) {value : Word} {digits : List Char}
    (hdigits : ∀ c ∈ digits, isDigit c = true)
    (hlarge : size ≤ Nat.ofDigitChars 10 digits value.toNat) :
    readDecimal text value digits = .error (.tooLarge text) := by
  induction digits generalizing value with
  | nil => exact absurd value.isLt (Nat.not_lt.2 hlarge)
  | cons c digits ih =>
      have hc : Text.digitValue? c = some (c.toNat - '0'.toNat) := by
        rw [Text.digitValue?, if_pos (hdigits c List.mem_cons_self)]
      rw [Nat.ofDigitChars_cons, Nat.mul_comm] at hlarge
      unfold readDecimal
      rw [hc]
      dsimp only
      cases hword : ofNat? (value.toNat * 10 + (c.toNat - '0'.toNat)) with
      | none => rfl
      | some w =>
          refine ih (fun d hd => hdigits d (List.mem_cons_of_mem _ hd)) ?_
          rw [ofNat?_eq_some_iff.1 hword]
          exact hlarge

theorem parse_of_large {digits : List Char} {text : String}
    (hdigits : ∀ c ∈ digits, isDigit c = true) (hlarge : size ≤ positional 10 digits)
    (hdressed : Dressed digits text.toList) : parse text = .error (.tooLarge text) := by
  have hne : digits ≠ [] := by
    rintro rfl
    exact absurd hlarge (by decide)
  have hbody : literalBody text.toList = digits :=
    literalBody_dressed hdressed hne (Spells.decimal hne hdigits).plain
  rw [parse_of_unmarked (by rw [hbody]; exact hne)
    (by rw [hbody]; exact ne_mark_of_isDigit hdigits), hbody]
  apply readDecimal_tooLarge text hdigits
  rw [Text.ofDigitChars_eq hdigits]
  exact Nat.le_trans hlarge (Nat.le_add_left _ _)

theorem parse_of_long {mark : Char} (hmark : IsMark mark) {digits : List Char} {text : String}
    (hdigits : ∀ c ∈ digits, isHexChar c = true) (hlength : 64 < digits.length)
    (hdressed : Dressed ('0' :: mark :: digits) text.toList) :
    parse text = .error (.hexLength text) := by
  have hbody : literalBody text.toList = '0' :: mark :: digits :=
    literalBody_dressed hdressed (List.cons_ne_nil _ _) (plain_of_marked hmark hdigits)
  rw [parse_of_mark hmark hbody, parseHexDigits, byteLength_of_isHexChar hdigits,
    if_pos (by simp [hlength])]

/-- **Every literal of a word is read as that word**, with underscores anywhere in it and blanks
around it; so are its two written forms. Decimal digits that write no word are refused, and so are
more than sixty-four base-16 digits. -/
theorem literals_read :
    (∀ (w : Word) (literal : List Char) (text : String), Literal w literal →
      Dressed literal text.toList → parse text = .ok w) ∧
    (∀ (digits : List Char) (text : String), (∀ c ∈ digits, isDigit c = true) →
      size ≤ positional 10 digits → Dressed digits text.toList →
      parse text = .error (.tooLarge text)) ∧
    (∀ (mark : Char) (digits : List Char) (text : String), IsMark mark →
      (∀ c ∈ digits, isHexChar c = true) → 64 < digits.length →
      Dressed ('0' :: mark :: digits) text.toList → parse text = .error (.hexLength text)) ∧
    ∀ w : Word, parse w.decimal = .ok w ∧ parse w.hex = .ok w := by
  have hread : ∀ (w : Word) (literal : List Char) (text : String), Literal w literal →
      Dressed literal text.toList → parse text = .ok w := by
    intro w literal text hliteral hdressed
    apply parse_of_spells
    rw [literalBody_dressed hdressed hliteral.spells.ne_nil hliteral.spells.plain]
    exact hliteral.spells
  exact ⟨hread, fun _ _ => parse_of_large, fun _ _ _ hmark => parse_of_long hmark,
    fun w => ⟨w.parse_decimal, hread w _ w.hex w.literal_hex (.refl _)⟩⟩

/-- A literal of 255 between blanks that are not ASCII, the least number that is no word, and
sixty-five zeros. -/
theorem literals_read_dressed :
    Literal ⟨255, by decide⟩ ['0', 'X', '0', 'f', 'F'] ∧
      Dressed ['0', 'X', '0', 'f', 'F'] "\u3000_0_X0f__F_\u0085\n".toList ∧
      parse "\u3000_0_X0f__F_\u0085\n" = .ok ⟨255, by decide⟩ ∧
      parse (toString size) = .error (.tooLarge (toString size)) ∧
      parse (String.ofList ('0' :: 'x' :: List.replicate 65 '0')) =
        .error (.hexLength (String.ofList ('0' :: 'x' :: List.replicate 65 '0'))) := by
  have hliteral : Literal ⟨255, by decide⟩ ['0', 'X', '0', 'f', 'F'] :=
    .hex (.inr rfl) 1 (by decide) (by decide)
  have hdressed : Dressed ['0', 'X', '0', 'f', 'F'] "\u3000_0_X0f__F_\u0085\n".toList := by
    have hbefore : Text.Blank ['\u3000'] := .cons (by decide) .nil
    have hafter : Text.Blank ['\u0085', '\n'] := .cons (by decide) (.cons (by decide) .nil)
    exact .intro hbefore hafter (.insert (.keep (.insert (.keep (.keep (.keep (.insert (.insert (.keep
      (.insert .nil))))))))))
  refine ⟨hliteral, hdressed, literals_read.1 _ _ _ hliteral hdressed, ?_, ?_⟩
  · apply literals_read.2.1 (Nat.toDigits 10 size) (toString size)
    · intro c hc
      rw [← Text.toList_toString] at hc
      exact Text.isDigit_of_mem_toString hc
    · rw [Text.positional_toDigits (by decide) (by decide)]
    · rw [Text.toList_toString]
      exact .refl _
  · apply literals_read.2.2.1 'x' (List.replicate 65 '0') _ (.inl rfl)
    · intro c hc
      rw [List.eq_of_mem_replicate hc]
      rfl
    · decide
    · rw [String.toList_ofList]
      exact .refl _

end Word

end WordMachine
