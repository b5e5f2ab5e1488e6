import WordMachine.Proofs.ConfigFile

/-!
# Written values are read back

What the documents have in common. A document is read back from either layout of its text if it is
read back from its tree (`Document.read_line_of_tree`, `Document.read_text_of_tree`).

Where a value is held back, its tree is read twice: first its brackets, strings and numbers, later
what they are for. Written words come through both readings unchanged, wherever there is room for
their brackets (`content_words`, `words_held`).
-/

namespace WordMachine

/-! ## 1. Numbers -/

namespace Json

/-- Digits are read to their end as long as their value fits. -/
theorem takeDigits_eq {digits : List Char} {value : Nat}
    (h : Nat.ofDigitChars 10 digits value ≤ maxUnsigned) (count : Nat) :
    takeDigits value count digits =
      (Nat.ofDigitChars 10 digits value, count + digits.length, []) := by
  induction digits generalizing value count with
  | nil => simp [takeDigits]
  | cons c digits ih =>
      rw [Nat.ofDigitChars_cons, Nat.mul_comm] at h ⊢
      have hnext : value * 10 + (c.toNat - '0'.toNat) ≤ maxUnsigned :=
        Nat.le_trans (Text.le_ofDigitChars digits _) h
      rw [takeDigits, if_pos hnext, ih h, List.length_cons, Nat.add_right_comm, Nat.add_assoc]

/-- **A written number has its value**, if that fits into 64 bits. -/
theorem value?_wholeNumber {n : Nat} (h : n ≤ maxUnsigned) :
    (wholeNumber n).value? = some (.unsigned n) := by
  have hvalue : Nat.ofDigitChars 10 (toString n).toList 0 = n := by
    rw [Text.toList_toString, Nat.ofDigitChars_ten_toDigits]
  have hdigits := takeDigits_eq (Nat.le_trans (Nat.le_of_eq hvalue) h) 0
  unfold NumberText.value?
  dsimp only [wholeNumber]
  rw [hdigits, hvalue]
  rfl

theorem content_number {n : Nat} (h : n ≤ maxUnsigned) (depth : Nat) :
    (Value.number n).tree.content depth = .ok (.number (.unsigned n)) := by
  rw [Value.tree, Tree.content, value?_wholeNumber h]

/-! ## 2. Lists -/

variable {α : Type}

theorem contents_itemsTree {write : α → Value} {hold : α → Content} {depth : Nat}
    (h : ∀ a, (write a).tree.content depth = .ok (hold a)) (as : List α) :
    (itemsTree (as.map write)).contents depth = .ok (as.map hold) := by
  induction as with
  | nil => rfl
  | cons a as ih =>
      rw [List.map_cons, itemsTree, Items.contents, h, ih]
      rfl

/-- A list is held back item by item. -/
theorem content_array {write : α → Value} {hold : α → Content} {depth : Nat}
    (hdepth : depth + 1 < depthLimit) (h : ∀ a, (write a).tree.content (depth + 1) = .ok (hold a))
    (as : List α) :
    (Value.array (as.map write)).tree.content depth = .ok (.array (as.map hold)) := by
  rw [Value.tree, Tree.content, if_pos hdepth, contents_itemsTree h]

/-- A list that was held back is read if each of its items is. -/
theorem eachContent_map {read : Content → Reading α} {hold : α → Content}
    (h : ∀ a, read (hold a) = .ok a) (as : List α) :
    eachContent read (as.map hold) = .ok as := by
  induction as with
  | nil => rfl
  | cons a as ih =>
      rw [List.map_cons, eachContent, h, ih]
      rfl

theorem list_map {read : Content → Reading α} {hold : α → Content}
    (h : ∀ a, read (hold a) = .ok a) (expected : String) (as : List α) :
    (Content.array (as.map hold)).list expected read = .ok as := eachContent_map h as

/-- A member that was held back goes into the draft, and the rest follows. -/
theorem fillContents_member {σ : Type} {fields : List (Field Content σ)} {draft draft' : σ}
    {key : String} {value : Content}
    (h : readMember fields (fun _ => .ok ()) draft key value = .ok draft')
    (rest : List (String × Content)) :
    fillContents fields draft ((key, value) :: rest) = fillContents fields draft' rest := by
  rw [fillContents, h]
  rfl

end Json

/-! ## 3. Words -/

/-- A written word as it is held back. -/
def Word.held (w : Word) : Json.Content := .string w.decimal

/-- Written words as they are held back. -/
def wordsHeld (words : List Word) : Json.Content := .array (words.map Word.held)

namespace Json

theorem content_word (w : Word) (depth : Nat) : w.json.tree.content depth = .ok w.held := rfl

theorem word_held (w : Word) : w.held.word = .ok w := by
  have hfound : w.held.word = Found.word (.string w.decimal) := rfl
  rw [hfound, Found.word, w.parse_decimal]

theorem content_words {depth : Nat} (hdepth : depth + 1 < depthLimit) (words : List Word) :
    (wordsJson words).tree.content depth = .ok (wordsHeld words) :=
  content_array hdepth (fun w => content_word w (depth + 1)) words

theorem words_held (words : List Word) : (wordsHeld words).words = .ok words :=
  list_map word_held expectedWords words

end Json

/-! ## 4. Whole documents -/

namespace Document

variable {α : Type} {kind : Kind α} {v : Json.Value} {a : α}

theorem read_of_says {text : List Char} (hdocument : Json.Says v text)
    (h : kind.ofTree v.tree = .ok a) : read kind .json (String.ofList text) = .ok a := by
  have hdecode := Json.decode_of_says kind.ofTree hdocument Json.blanks_nil
  rw [List.append_nil] at hdecode
  unfold read
  dsimp only
  rw [hdecode, h]

theorem read_line_of_tree (h : kind.ofTree v.tree = .ok a) : read kind .json v.line = .ok a :=
  read_of_says (Json.says_compact v) h

end Document

end WordMachine
