import Mathlib.Data.List.Basic
import WordMachine.Assembly.Source

/-!
# Reading texts that were put together

How the parts of the assembler act on a text that is known by its pieces. Each section has one law
for a boundary between two pieces and one for a piece of a simple kind:

* lines: a line feed cuts a text for good (`lines_append_feed`), so that lines that were put together
  are found again (`lines_unlines`, `lines_intercalate`);
* tokens: a text of tokens, one a line, has these tokens (`tokensOf_unlines`);
* fields: words with a space between are the fields (`fields_intercalate`);
* numerals: the decimal digits of a number below the limit write that number (`numeral_toString`).
-/

namespace WordMachine

/-! ## 1. Lines -/

namespace Text

theorem not_isEmpty_reverse {text : List Char} (hne : text ≠ []) : ¬ text.reverse.isEmpty = true := by
  rw [List.isEmpty_iff, List.reverse_eq_nil_iff]
  exact hne

/-- No character ends a line. -/
def OneLine (text : List Char) : Prop := ∀ c ∈ text, c ≠ '\n' ∧ c ≠ '\r'

theorem oneLine_of_all {text : List Char} (h : text.all (fun c => c ≠ '\n' ∧ c ≠ '\r') = true) :
    OneLine text := by
  intro c hc
  exact of_decide_eq_true (List.all_eq_true.1 h c hc)

/-- What comes after the first line of the rest stays as it is, and the first line never gets lost. -/
theorem foldr_cons_lines (text line : List Char) (more : List (List Char)) (atFeed : Bool) :
    ∃ first others feed, text.foldr LinesFrom.cons ⟨[line], atFeed⟩ = ⟨first :: others, feed⟩ ∧
      text.foldr LinesFrom.cons ⟨line :: more, atFeed⟩ = ⟨first :: (others ++ more), feed⟩ := by
  induction text with
  | nil => exact ⟨line, [], atFeed, rfl, rfl⟩
  | cons c text ih =>
      obtain ⟨first, others, feed, h, h'⟩ := ih
      rw [List.foldr_cons, List.foldr_cons, h, h']
      unfold LinesFrom.cons
      by_cases hfeed : c = '\n'
      · rw [if_pos hfeed, if_pos hfeed]
        exact ⟨[], first :: others, true, rfl, rfl⟩
      · rw [if_neg hfeed, if_neg hfeed]
        by_cases hreturn : c = '\r' ∧ feed = true
        · rw [if_pos hreturn, if_pos hreturn]
          exact ⟨first, others, false, rfl, rfl⟩
        · rw [if_neg hreturn, if_neg hreturn]
          exact ⟨c :: first, others, false, rfl, rfl⟩

/-- **A line feed ends the lines before it.** -/
theorem lines_append_feed (a b : List Char) :
    lines (a ++ '\n' :: b) = lines (a ++ ['\n']) ++ lines b := by
  obtain ⟨first, others, feed, h, h'⟩ :=
    foldr_cons_lines a [] (b.foldr LinesFrom.cons {}).lines true
  unfold lines
  rw [List.foldr_append, List.foldr_append]
  show (a.foldr LinesFrom.cons ⟨[] :: (b.foldr LinesFrom.cons {}).lines, true⟩).lines =
    (a.foldr LinesFrom.cons ⟨[[]], true⟩).lines ++ (b.foldr LinesFrom.cons {}).lines
  rw [h, h']
  rfl

/-- A character that ends no line goes to the front of the line that follows. -/
theorem LinesFrom.lines_cons {c : Char} (h : c ≠ '\n' ∧ c ≠ '\r') {rest : LinesFrom}
    {line : List Char} {more : List (List Char)} (hrest : rest.lines = line :: more) :
    (LinesFrom.cons c rest).lines = (c :: line) :: more := by
  unfold LinesFrom.cons
  rw [if_neg h.1, if_neg fun hreturn => h.2 hreturn.1, hrest]

theorem lines_oneLine_feed {text : List Char} (h : OneLine text) :
    lines (text ++ ['\n']) = [text] := by
  induction text with
  | nil => rfl
  | cons c text ih =>
      exact LinesFrom.lines_cons (h c List.mem_cons_self)
        (ih fun c' h' => h c' (List.mem_cons_of_mem _ h'))

/-- A last line needs no line feed. -/
theorem lines_oneLine {text : List Char} (h : OneLine text) (hne : text ≠ []) :
    lines text = [text] := by
  induction text with
  | nil => exact absurd rfl hne
  | cons c text ih =>
      have hc := h c List.mem_cons_self
      by_cases htext : text = []
      · subst htext
        show (LinesFrom.cons c {}).lines = [[c]]
        unfold LinesFrom.cons
        rw [if_neg hc.1, if_neg fun hreturn => hc.2 hreturn.1]
      · exact LinesFrom.lines_cons hc (ih (fun c' h' => h c' (List.mem_cons_of_mem _ h')) htext)

theorem LinesFrom.cons_cases (c : Char) (rest : LinesFrom) :
    (c = '\n' ∧ (cons c rest).lines = [] :: rest.lines) ∨
    (c = '\r' ∧ rest.atFeed = true ∧ (cons c rest).lines = rest.lines) ∨
    (c ≠ '\n' ∧ rest.lines = [] ∧ (cons c rest).lines = [[c]]) ∨
    c ≠ '\n' ∧ ∃ line more, rest.lines = line :: more ∧
      (cons c rest).lines = (c :: line) :: more := by
  unfold cons
  by_cases hfeed : c = '\n'
  · rw [if_pos hfeed]
    exact .inl ⟨hfeed, rfl⟩
  rw [if_neg hfeed]
  by_cases hreturn : c = '\r' ∧ rest.atFeed = true
  · rw [if_pos hreturn]
    exact .inr (.inl ⟨hreturn.1, hreturn.2, rfl⟩)
  rw [if_neg hreturn]
  cases hlines : rest.lines with
  | nil => exact .inr (.inr (.inl ⟨hfeed, rfl, rfl⟩))
  | cons line more => exact .inr (.inr (.inr ⟨hfeed, line, more, rfl, rfl⟩))

theorem exists_of_atFeed {text : List Char} (h : (text.foldr LinesFrom.cons {}).atFeed = true) :
    ∃ rest, text = '\n' :: rest := by
  cases text with
  | nil => cases h
  | cons c text =>
      rw [List.foldr_cons, LinesFrom.cons] at h
      by_cases hfeed : c = '\n'
      · exact ⟨text, by rw [hfeed]⟩
      · rw [if_neg hfeed] at h
        split at h
        · cases h
        · split at h <;> cases h

/-- Only the empty text has no lines. -/
theorem eq_nil_of_lines {text : List Char} (h : lines text = []) : text = [] := by
  induction text with
  | nil => rfl
  | cons c text ih =>
      have hlines : (LinesFrom.cons c (text.foldr LinesFrom.cons {})).lines = [] := h
      rcases LinesFrom.cons_cases c (text.foldr LinesFrom.cons {}) with
        ⟨-, hcons⟩ | ⟨-, hfeed, hcons⟩ | ⟨-, -, hcons⟩ | ⟨-, line, more, -, hcons⟩
      · cases hcons.symm.trans hlines
      · obtain ⟨rest, rfl⟩ := exists_of_atFeed hfeed
        cases ih (hcons.symm.trans hlines)
      · cases hcons.symm.trans hlines
      · cases hcons.symm.trans hlines

/-- **One more character in front of a text**: it is the end of a line, the first half of one, a line
of its own, or it goes to the front of the first line. -/
theorem lines_cons_cases (c : Char) (text : List Char) :
    (c = '\n' ∧ lines (c :: text) = [] :: lines text) ∨
    (c = '\r' ∧ (∃ rest, text = '\n' :: rest) ∧ lines (c :: text) = lines text) ∨
    (c ≠ '\n' ∧ text = [] ∧ lines (c :: text) = [[c]]) ∨
    c ≠ '\n' ∧ ∃ line more, lines text = line :: more ∧
      lines (c :: text) = (c :: line) :: more := by
  rcases LinesFrom.cons_cases c (text.foldr LinesFrom.cons {}) with
    hcons | ⟨hc, hfeed, hcons⟩ | ⟨hc, hnil, hcons⟩ | hcons
  · exact .inl hcons
  · exact .inr (.inl ⟨hc, exists_of_atFeed hfeed, hcons⟩)
  · exact .inr (.inr (.inl ⟨hc, eq_nil_of_lines hnil, hcons⟩))
  · exact .inr (.inr (.inr hcons))

/-- A text with these lines, each ended by a line feed. -/
def unlines (ls : List (List Char)) : List Char := ls.flatMap (· ++ ['\n'])

theorem unlines_cons (l : List Char) (ls : List (List Char)) :
    unlines (l :: ls) = l ++ '\n' :: unlines ls := by
  unfold unlines
  rw [List.flatMap_cons, List.append_assoc, List.singleton_append]

theorem unlines_append (ls ls' : List (List Char)) :
    unlines (ls ++ ls') = unlines ls ++ unlines ls' := List.flatMap_append

theorem intercalate_feed {ls : List (List Char)} (hne : ls ≠ []) :
    ['\n'].intercalate ls ++ ['\n'] = unlines ls := by
  induction ls with
  | nil => exact absurd rfl hne
  | cons l ls ih =>
      cases ls with
      | nil => rw [List.intercalate_singleton, unlines_cons]; rfl
      | cons l' ls =>
          rw [List.intercalate_cons_cons, List.append_assoc, ih (List.cons_ne_nil _ _),
            List.append_assoc, List.singleton_append, ← unlines_cons]

theorem lines_unlines {ls : List (List Char)} (h : ∀ l ∈ ls, OneLine l) : lines (unlines ls) = ls := by
  induction ls with
  | nil => rfl
  | cons l ls ih =>
      rw [unlines_cons, lines_append_feed, lines_oneLine_feed (h l List.mem_cons_self),
        ih fun l' h' => h l' (List.mem_cons_of_mem _ h'), List.singleton_append]

/-- The last line needs no line feed, unless it is empty. -/
theorem lines_intercalate {ls : List (List Char)} (h : ∀ l ∈ ls, OneLine l ∧ l ≠ []) :
    lines (['\n'].intercalate ls) = ls := by
  induction ls with
  | nil => rfl
  | cons l ls ih =>
      obtain ⟨hline, hne⟩ := h l List.mem_cons_self
      have hrest := ih fun l' h' => h l' (List.mem_cons_of_mem _ h')
      cases ls with
      | nil => rw [List.intercalate_singleton, lines_oneLine hline hne]
      | cons l' ls =>
          rw [List.intercalate_cons_cons, List.append_assoc, List.singleton_append,
            lines_append_feed, lines_oneLine_feed hline, hrest, List.singleton_append]

end Text

/-! ## 2. Comments -/

namespace Assembly

theorem cutCommentFrom_eq (kept text : List Char) :
    cutCommentFrom kept text = kept.reverse ++ cutComment text := by
  unfold cutComment
  induction text generalizing kept with
  | nil => simp [cutCommentFrom]
  | cons c text ih =>
      unfold cutCommentFrom
      split
      · simp
      · rw [ih (c :: kept), ih [c]]
        simp

/-- A character is kept unless it starts a comment. -/
theorem cutComment_cons (c : Char) (text : List Char) :
    cutComment (c :: text) =
      if c = '#' ∧ startsWithDigit text = false then [] else c :: cutComment text := by
  show cutCommentFrom [] (c :: text) = _
  unfold cutCommentFrom
  split
  · rfl
  · rw [cutCommentFrom_eq]
    rfl

theorem cutComment_eq_self {text : List Char} (h : '#' ∉ text) : cutComment text = text := by
  induction text with
  | nil => rfl
  | cons c text ih =>
      have hc : c ≠ '#' := fun e => h (e ▸ List.mem_cons_self)
      rw [cutComment_cons, if_neg fun hstart => hc hstart.1,
        ih fun hmem => h (List.mem_cons_of_mem _ hmem)]

theorem stripComments_of_lines {text : List Char} {ls : List (List Char)}
    (h : Text.lines text = ls) : stripComments text = Text.unlines (ls.map cutComment) := by
  unfold stripComments Text.unlines
  rw [h, List.flatMap_map]

/-! ## 3. Tokens -/

namespace Lexer

theorem readAll_append (s : Lexer) (a b : List Char) :
    readAll s (a ++ b) = (readAll s a).bind fun s' => readAll s' b := by
  induction a generalizing s with
  | nil => rfl
  | cons c a ih =>
      rw [List.cons_append, readAll, readAll]
      cases s.read c with
      | ok s' => exact ih s'
      | error f => rfl

/-- The character stands for itself in a token, inside the fields and outside. -/
def Plain (c : Char) : Prop := c ≠ '<' ∧ c ≠ '>' ∧ Text.isBlank c = false ∧ c ≠ ';'

instance : DecidablePred Plain := fun c =>
  inferInstanceAs (Decidable (c ≠ '<' ∧ c ≠ '>' ∧ Text.isBlank c = false ∧ c ≠ ';'))

theorem read_plain (s : Lexer) {c : Char} (h : Plain c) : s.read c = .ok (s.push c) := by
  obtain ⟨hopen, hclose, hblank, hseparator⟩ := h
  unfold read
  rw [if_neg hopen, if_neg hclose, if_neg (by rw [hblank]; exact Bool.false_ne_true),
    if_neg hseparator]

theorem readAll_plain (s : Lexer) {text : List Char} (h : ∀ c ∈ text, Plain c) :
    readAll s text = .ok { s with current := text.reverse ++ s.current } := by
  induction text generalizing s with
  | nil => rfl
  | cons c text ih =>
      unfold readAll
      rw [read_plain s (h c List.mem_cons_self)]
      show readAll (s.push c) text = _
      rw [ih (s.push c) fun c' h' => h c' (List.mem_cons_of_mem _ h')]
      simp [push]

/-- Inside the fields a space stands for itself, too. -/
theorem readAll_fields (finished : List (List Char)) {text : List Char}
    (h : ∀ c ∈ text, Plain c ∨ c = ' ') (current : List Char) :
    readAll ⟨finished, current, true⟩ text = .ok ⟨finished, text.reverse ++ current, true⟩ := by
  induction text generalizing current with
  | nil => rfl
  | cons c text ih =>
      have hread : read ⟨finished, current, true⟩ c = .ok ⟨finished, c :: current, true⟩ := by
        rcases h c List.mem_cons_self with hplain | rfl
        · exact read_plain _ hplain
        · rfl
      unfold readAll
      rw [hread]
      show readAll ⟨finished, c :: current, true⟩ text = _
      rw [ih (fun c' h' => h c' (List.mem_cons_of_mem _ h')) (c :: current)]
      simp

end Lexer

/-- Read on a line of its own, the text is a token. -/
def IsToken (token : List Char) : Prop :=
  ∀ finished, Lexer.readAll ⟨finished, [], false⟩ (token ++ ['\n']) =
    .ok ⟨token :: finished, [], false⟩

theorem isToken_name {name : List Char} (h : ∀ c ∈ name, Lexer.Plain c) (hne : name ≠ []) :
    IsToken name := by
  intro finished
  have hclose : Lexer.close ⟨finished, name.reverse, false⟩ = ⟨name :: finished, [], false⟩ := by
    unfold Lexer.close
    rw [if_neg (Text.not_isEmpty_reverse hne)]
    simp
  rw [Lexer.readAll_append, Lexer.readAll_plain _ h, List.append_nil]
  show Except.ok (Lexer.close ⟨finished, name.reverse, false⟩) = _
  rw [hclose]

theorem isToken_fields {name inner : List Char} (h : ∀ c ∈ name, Lexer.Plain c) (hne : name ≠ [])
    (hinner : ∀ c ∈ inner, Lexer.Plain c ∨ c = ' ') : IsToken (name ++ '<' :: (inner ++ ['>'])) := by
  intro finished
  have hopen : Lexer.read ⟨finished, name.reverse, false⟩ '<' =
      .ok ⟨finished, '<' :: name.reverse, true⟩ := by
    unfold Lexer.read
    rw [if_pos rfl, if_neg Bool.false_ne_true, if_neg (Text.not_isEmpty_reverse hne)]
    rfl
  rw [List.append_assoc, Lexer.readAll_append, Lexer.readAll_plain _ h, List.append_nil]
  show Lexer.readAll ⟨finished, name.reverse, false⟩ ('<' :: (inner ++ ['>'] ++ ['\n'])) = _
  unfold Lexer.readAll
  rw [hopen]
  show Lexer.readAll ⟨finished, '<' :: name.reverse, true⟩ (inner ++ ['>'] ++ ['\n']) = _
  rw [List.append_assoc, Lexer.readAll_append, Lexer.readAll_fields _ hinner]
  show Except.ok (⟨('>' :: (inner.reverse ++ '<' :: name.reverse)).reverse :: finished, [], false⟩ :
    Lexer) = _
  simp

theorem readAll_unlines {tokens : List (List Char)} (h : ∀ t ∈ tokens, IsToken t)
    (finished : List (List Char)) :
    Lexer.readAll ⟨finished, [], false⟩ (Text.unlines tokens) =
      .ok ⟨tokens.reverse ++ finished, [], false⟩ := by
  induction tokens generalizing finished with
  | nil => rfl
  | cons t tokens ih =>
      show Lexer.readAll _ ((t ++ ['\n']) ++ Text.unlines tokens) = _
      rw [Lexer.readAll_append, h t List.mem_cons_self finished]
      show Lexer.readAll ⟨t :: finished, [], false⟩ _ = _
      rw [ih (fun t' h' => h t' (List.mem_cons_of_mem _ h')) (t :: finished)]
      simp

/-- **Tokens on lines of their own are the tokens of the text.** -/
theorem tokensOf_unlines {tokens : List (List Char)} (h : ∀ t ∈ tokens, IsToken t) :
    tokensOf (Text.unlines tokens) = .ok tokens := by
  unfold tokensOf
  rw [readAll_unlines h []]
  show Except.ok (tokens.reverse ++ []).reverse = _
  simp

end Assembly

/-! ## 4. Fields -/

namespace Text

theorem foldl_read_word {word : List Char} (h : ∀ c ∈ word, isBlank c = false)
    (finished : List (List Char)) (current : List Char) :
    word.foldl Fields.read ⟨finished, current⟩ = ⟨finished, word.reverse ++ current⟩ := by
  induction word generalizing current with
  | nil => rfl
  | cons c word ih =>
      have hread : Fields.read ⟨finished, current⟩ c = ⟨finished, c :: current⟩ := by
        unfold Fields.read
        rw [if_neg (by rw [h c List.mem_cons_self]; exact Bool.false_ne_true)]
      rw [List.foldl_cons, hread, ih fun c' h' => h c' (List.mem_cons_of_mem _ h')]
      simp

theorem Fields.close_word {word : List Char} (hne : word ≠ []) (finished : List (List Char)) :
    Fields.close ⟨finished, word.reverse⟩ = ⟨word :: finished, []⟩ := by
  unfold Fields.close
  rw [if_neg (not_isEmpty_reverse hne), List.reverse_reverse]

theorem close_foldl_intercalate {words : List (List Char)}
    (h : ∀ w ∈ words, w ≠ [] ∧ ∀ c ∈ w, isBlank c = false) (finished : List (List Char)) :
    (([' '].intercalate words).foldl Fields.read ⟨finished, []⟩).close =
      ⟨words.reverse ++ finished, []⟩ := by
  induction words generalizing finished with
  | nil => rfl
  | cons word words ih =>
      obtain ⟨hne, hword⟩ := h word List.mem_cons_self
      have hrest := ih fun w h' => h w (List.mem_cons_of_mem _ h')
      cases words with
      | nil =>
          rw [List.intercalate_singleton, foldl_read_word hword, List.append_nil,
            Fields.close_word hne]
          rfl
      | cons word' words =>
          have hspace : Fields.read ⟨finished, word.reverse⟩ ' ' = ⟨word :: finished, []⟩ :=
            Fields.close_word hne finished
          rw [List.intercalate_cons_cons, List.append_assoc, List.foldl_append,
            foldl_read_word hword, List.append_nil, List.singleton_append, List.foldl_cons, hspace,
            hrest]
          simp

/-- **Words with a space between them are the fields of the text.** -/
theorem fields_intercalate {words : List (List Char)}
    (h : ∀ w ∈ words, w ≠ [] ∧ ∀ c ∈ w, isBlank c = false) :
    fields ([' '].intercalate words) = words := by
  unfold fields
  rw [close_foldl_intercalate h []]
  simp

/-! ## 5. Numerals -/

theorem le_ofDigitChars (digits : List Char) (value : Nat) :
    value ≤ Nat.ofDigitChars 10 digits value := by
  induction digits generalizing value with
  | nil => simp
  | cons c digits ih =>
      rw [Nat.ofDigitChars_cons]
      have hle := ih (10 * value + (c.toNat - '0'.toNat))
      omega

/-- Digits are read to their value as long as that stays below the limit. -/
theorem readDigits_eq_ok {limit : Nat} {digits : List Char} (hdigits : ∀ c ∈ digits, isDigit c = true)
    {value : Nat} (h : Nat.ofDigitChars 10 digits value < limit) :
    readDigits limit value digits = .ok (Nat.ofDigitChars 10 digits value) := by
  induction digits generalizing value with
  | nil => simp [readDigits]
  | cons c digits ih =>
      have hvalue : digitValue? c = some (c.toNat - '0'.toNat) := by
        unfold digitValue?
        rw [if_pos (hdigits c List.mem_cons_self)]
      rw [Nat.ofDigitChars_cons, Nat.mul_comm] at h
      have hlt : value * 10 + (c.toNat - '0'.toNat) < limit :=
        Nat.lt_of_le_of_lt (le_ofDigitChars digits _) h
      unfold readDigits
      rw [hvalue]
      dsimp only
      rw [if_pos hlt, ih (fun c' h' => hdigits c' (List.mem_cons_of_mem _ h')) h,
        Nat.ofDigitChars_cons, Nat.mul_comm]

theorem toList_toString (n : Nat) : (toString n).toList = Nat.toDigits 10 n := by
  rw [Nat.toString_eq_repr, Nat.toList_repr]

theorem isDigit_of_mem_toString {n : Nat} {c : Char} (h : c ∈ (toString n).toList) :
    isDigit c = true := by
  rw [toList_toString] at h
  exact Nat.isDigit_of_mem_toDigits (by decide) (by decide) h

/-- **A number below the limit is read from its decimal digits.** -/
theorem numeral_toString {limit n : Nat} (h : n < limit) :
    numeral limit (toString n).toList = .ok n := by
  have hdigits : ∀ c ∈ (toString n).toList, isDigit c = true := fun _ => isDigit_of_mem_toString
  have hvalue : Nat.ofDigitChars 10 (toString n).toList 0 = n := by
    rw [toList_toString, Nat.ofDigitChars_ten_toDigits]
  have hne : (toString n).toList ≠ [] := by
    rw [toList_toString]
    exact Nat.toDigits_ne_nil
  have hread : readDigits limit 0 (toString n).toList = .ok n := by
    rw [readDigits_eq_ok hdigits (by rw [hvalue]; exact h), hvalue]
  generalize (toString n).toList = digits at hdigits hne hread
  cases digits with
  | nil => exact absurd rfl hne
  | cons c digits =>
      have hplus : c ≠ '+' := by
        rintro rfl
        exact absurd (hdigits '+' List.mem_cons_self) (by decide)
      unfold numeral
      split
      · contradiction
      · rename_i heq
        exact absurd (List.cons.inj heq).1 hplus
      · rename_i heq
        exact absurd (List.cons.inj heq).1 hplus
      · exact hread

end Text

end WordMachine
