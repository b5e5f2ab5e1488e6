import WordMachine.Document.Read
import WordMachine.Document.Written
import WordMachine.Proofs.JsonText

/-!
# The file of an expression

An expression is stored as the JSON file of its configuration, with every source in base 16. Here
it is shown what such a file looks like, and that nothing is lost in it:

* `Config.fileText_eq_lines`: the lines of the file;
* `Config.read_fileText`: every configuration is read back from its file, as it was;
* `Config.build_ofExpression`: the configuration of an expression builds that expression.
-/

namespace WordMachine

/-! ## 1. Words and lists -/

namespace Word

/-- A decimal literal is read as a numeral below the number of words. -/
theorem readDecimal_eq_ok_iff (text : String) {value w : Word} {digits : List Char} :
    readDecimal text value digits = .ok w ↔
      Text.readDigits size value.toNat digits = .ok w.toNat := by
  induction digits generalizing value with
  | nil =>
      rw [readDecimal, Text.readDigits, Except.ok.injEq, Except.ok.injEq]
      exact ⟨congrArg toNat, ext⟩
  | cons c digits ih =>
      rw [readDecimal, Text.readDigits]
      cases Text.digitValue? c with
      | none => simp
      | some d =>
          dsimp only
          by_cases hfits : value.toNat * 10 + d < size
          · rw [if_pos hfits, ofNat?, dif_pos hfits]
            exact ih
          · rw [if_neg hfits, ofNat?, dif_neg hfits]
            simp

/-- Digits are a decimal literal. -/
theorem parse_digits {text : String} (hdigits : ∀ c ∈ text.toList, Text.isDigit c = true)
    (hne : text.toList ≠ []) : parse text = readDecimal text zero text.toList := by
  have htrim : Text.trim text.toList = text.toList :=
    Text.trim_eq_self
      (fun c hc => (Text.plain_of_isDigit (hdigits c (List.mem_of_mem_head? hc))).2.2.1)
      fun c hc => (Text.plain_of_isDigit (hdigits c (List.mem_of_mem_getLast? hc))).2.2.1
  have hbody : literalBody text.toList = text.toList := by
    rw [literalBody, htrim, List.filter_eq_self]
    intro c hc
    have hc' : c ≠ '_' := by
      rintro rfl
      exact absurd (hdigits '_' hc) (by decide)
    simpa using hc'
  unfold parse
  rw [hbody]
  generalize readDecimal text zero = readRest
  generalize text.toList = digits at hdigits hne
  split
  · exact absurd rfl hne
  · exact absurd (hdigits 'x' (by simp)) (by decide)
  · exact absurd (hdigits 'X' (by simp)) (by decide)
  · rfl

/-- **A word is read back from its decimal digits.** -/
theorem parse_decimal (w : Word) : parse w.decimal = .ok w := by
  have hdigits : ∀ c ∈ w.decimal.toList, Text.isDigit c = true := fun c hc =>
    Text.isDigit_of_mem_toString hc
  have hvalue : Nat.ofDigitChars 10 w.decimal.toList 0 = w.toNat := by
    rw [decimal, Text.toList_toString, Nat.ofDigitChars_ten_toDigits]
  have hne : w.decimal.toList ≠ [] := by
    rw [decimal, Text.toList_toString]
    exact Nat.toDigits_ne_nil
  have hlt : Nat.ofDigitChars 10 w.decimal.toList 0 < size := by
    rw [hvalue]
    exact w.isLt
  have hzero : zero.toNat = 0 := rfl
  rw [parse_digits hdigits hne, readDecimal_eq_ok_iff, hzero, Text.readDigits_eq_ok hdigits hlt,
    hvalue]

end Word

namespace Json

/-- A list is read back if each of its items is. -/
theorem each_itemsTree {α : Type} {read : Tree → Reading α} {write : α → Value}
    (h : ∀ a, read (write a).tree = .ok a) (as : List α) :
    (itemsTree (as.map write)).each read = .ok as := by
  induction as with
  | nil => rfl
  | cons a as ih =>
      rw [List.map_cons, itemsTree, Items.each, h, ih]
      rfl

theorem word_string {s : String} {w : Word} (h : Word.parse s = .ok w) :
    (Tree.string (some s)).word = .ok w := by
  have hfound : (Tree.string (some s)).word = Found.word (.string s) := rfl
  rw [hfound, Found.word, h]

theorem words_tree (words : List Word) : (wordsJson words).tree.words = .ok words := by
  have hword : ∀ w : Word, w.json.tree.word = .ok w := fun w => word_string w.parse_decimal
  rw [wordsJson, Value.tree, Tree.words, Tree.list]
  exact each_itemsTree hword words

/-- A member that is read goes into the draft, and the rest follows. -/
theorem fill_member {σ : Type} {fields : List (Field Tree σ)} {draft draft' : σ} {key : String}
    {value : Tree} (h : ∀ skip, readMember fields skip draft key value = .ok draft')
    (rest : Members) :
    (Members.cons (some key) value rest).fill fields draft = rest.fill fields draft' := by
  rw [Members.fill, h]
  rfl

/-! ## 2. Configurations -/

theorem configOf_tree (c : Config) : configOf c.json.tree = .ok c := by
  have hsources : (Value.array (c.sources.map .string)).tree.list "a sequence" (Tree.text "a string") =
      .ok c.sources := by
    rw [Value.tree, Tree.list]
    exact each_itemsTree (fun _ => rfl) c.sources
  have hfirst : ∀ skip, readMember configFields skip {} "constants" (wordsJson c.constants).tree =
      .ok { constants := some c.constants } := by
    intro skip
    simp [readMember, configFields, words_tree]
  have hsecond : ∀ skip, readMember configFields skip { constants := some c.constants } "sources"
      (Value.array (c.sources.map .string)).tree = .ok ⟨some c.constants, some c.sources⟩ := by
    intro skip
    simp [readMember, configFields, hsources]
  have hfill : c.json.tree.fill "struct ExpressionConfig" configFields {} =
      .ok ⟨some c.constants, some c.sources⟩ := by
    rw [Config.json, Value.tree, Tree.fill, membersTree, membersTree, membersTree,
      fill_member hfirst, fill_member hsecond, Members.fill]
  rw [configOf, hfill]
  rfl

end Json

namespace Config

theorem fileText_eq (c : Config) : c.fileText = String.ofList (c.json.pretty 0 ++ ['\n']) := by
  rw [fileText, Json.Value.text, String.ofList_append]

/-- **A configuration is read back from its file.** -/
theorem read_fileText (c : Config) : Document.read Document.config .json c.fileText = .ok c := by
  have hblanks : Json.Blanks ['\n'] := by simp [Json.Blanks, Json.isBlank]
  have hdecode : Json.decode Json.configOf c.fileText = .ok c := by
    rw [fileText_eq, Json.decode_of_says _ (Json.says_pretty 0 c.json) hblanks, Json.configOf_tree]
  unfold Document.read
  dsimp only [Document.config]
  rw [hdecode]

/-- **The configuration of an expression builds that expression.** -/
theorem build_ofExpression {e : Expression} (h : Loaded e) : (ofExpression e).build = .ok e := by
  have hwrites : List.Forall₂ Writes (ofExpression e).sources (e.sources.map Source.encode) := by
    rw [ofExpression, List.forall₂_map_left_iff, List.forall₂_map_right_iff]
    exact List.forall₂_same.2 fun s _ => writes_hexText s
  have hload : Expression.loadBytes (ofExpression e).constants (e.sources.map Source.encode) =
      .ok e := Expression.loadBytes_eq_ok_iff.2 ⟨rfl, rfl, h.wellFormed⟩
  rw [build_of_writes hwrites, hload]
  rfl

/-! ## 3. The lines of a file -/

/-- The lines of a list of strings: one for each of them, with a comma after all but the last. -/
def itemLines : List String → List String
  | [] => []
  | [s] => ["    \"" ++ s ++ "\""]
  | s :: rest => ("    \"" ++ s ++ "\",") :: itemLines rest

/-- The lines of a field that holds a list of strings. -/
def fieldLines (name : String) (items : List String) (ending : String) : List String :=
  if items = [] then ["  \"" ++ name ++ "\": []" ++ ending]
  else ("  \"" ++ name ++ "\": [") :: (itemLines items ++ ["  ]" ++ ending])

/-- The lines of the file of an expression. -/
def fileLines (e : Expression) : List String :=
  "\x7b" :: (fieldLines "constants" (e.constants.map Word.decimal) "," ++
    (fieldLines "sources" (e.sources.map hexText) "" ++ ["\x7d"]))

/-- A text that JSON writes as it is. -/
def Unescaped (s : String) : Prop := ∀ c ∈ s.toList, Json.writtenChar c = [c]

theorem Unescaped.of_all {s : String}
    (h : s.toList.all (fun c => Json.writtenChar c = [c]) = true) : Unescaped s := by
  intro c hc
  simpa using List.all_eq_true.1 h c hc

theorem Unescaped.writtenString {s : String} (h : Unescaped s) :
    Json.writtenString s = '"' :: (s.toList ++ ['"']) := by
  have hflat : s.toList.flatMap Json.writtenChar = s.toList := by
    unfold Unescaped at h
    generalize s.toList = cs at h
    induction cs with
    | nil => rfl
    | cons c cs ih =>
        rw [List.flatMap_cons, h c List.mem_cons_self,
          ih fun c' h' => h c' (List.mem_cons_of_mem _ h'), List.singleton_append]
  rw [Json.writtenString, hflat]

theorem writtenChar_eq_self {c : Char} (hquote : c ≠ '"') (hslash : c ≠ '\\')
    (hcontrol : 0x20 ≤ c.toNat) : Json.writtenChar c = [c] := by
  have hne : ∀ d : Char, d.toNat < 0x20 → c ≠ d := by
    intro d hd heq
    rw [heq] at hcontrol
    omega
  simp [Json.writtenChar, hquote, hslash, hne '\x08' (by decide), hne '\x0c' (by decide),
    hne '\n' (by decide), hne '\r' (by decide), hne '\t' (by decide), Nat.not_lt.2 hcontrol]

theorem unescaped_decimal (w : Word) : Unescaped w.decimal := by
  intro c hc
  have hdigit : Text.isDigit c = true := Text.isDigit_of_mem_toString hc
  have hrange := Text.toNat_of_isDigit hdigit
  refine writtenChar_eq_self ?_ ?_ (by omega)
  all_goals
    rintro rfl
    exact absurd hdigit (by decide)

theorem unescaped_hexText (s : Source) : Unescaped (hexText s) := by
  intro c hc
  have hdigit : ∀ value < 16, Json.writtenChar (Text.hexDigit value) = [Text.hexDigit value] := by
    decide
  rw [toList_hexText] at hc
  simp only [List.mem_cons] at hc
  rcases hc with rfl | rfl | hc
  · decide
  · decide
  · obtain ⟨value, hvalue, rfl⟩ := Text.mem_encodeHex hc
    exact hdigit value hvalue

/-- The text of lines, each with its end. -/
def textOf (lines : List String) : List Char := Text.unlines (lines.map String.toList)

theorem textOf_cons (line : String) (lines : List String) :
    textOf (line :: lines) = line.toList ++ '\n' :: textOf lines := by
  simp [textOf, Text.unlines]

theorem textOf_append (lines lines' : List String) :
    textOf (lines ++ lines') = textOf lines ++ textOf lines' := by
  simp [textOf, Text.unlines]

theorem commas_items {items : List String} (h : ∀ s ∈ items, Unescaped s) (hne : items ≠ []) :
    Json.commas ((items.map Json.writtenString).map (Json.newLine 2 ++ ·)) ++ ['\n'] =
      '\n' :: textOf (itemLines items) := by
  induction items with
  | nil => exact absurd rfl hne
  | cons s items ih =>
      have hs := (h s List.mem_cons_self).writtenString
      cases items with
      | nil =>
          simp [Json.commas, itemLines, hs, Json.newLine, textOf, Text.unlines]
      | cons s' items =>
          have hrest := ih (fun t ht => h t (List.mem_cons_of_mem _ ht)) (by simp)
          simp only [List.map_cons] at hrest ⊢
          rw [Json.commas, List.append_assoc, List.cons_append, hrest, hs]
          · simp [itemLines, textOf_cons, Json.newLine]
          · simp

theorem prettyItems_strings (depth : Nat) (items : List String) :
    Json.prettyItems depth (items.map .string) = items.map Json.writtenString := by
  induction items with
  | nil => rfl
  | cons s items ih => rw [List.map_cons, Json.prettyItems, Json.Value.pretty, ih, List.map_cons]

/-- A member of the configuration takes up the lines of its field. -/
theorem pretty_field {name : String} {items : List String} (hname : Unescaped name)
    (h : ∀ s ∈ items, Unescaped s) (ending : String) :
    ' ' :: ' ' :: (Json.writtenString name ++ ':' :: ' ' ::
      (Json.Value.array (items.map .string)).pretty 1) ++ (ending.toList ++ ['\n']) =
      textOf (fieldLines name items ending) := by
  rw [Json.Value.pretty, prettyItems_strings, hname.writtenString]
  unfold fieldLines
  by_cases hitems : items = []
  · subst hitems
    simp [Json.bracketed, textOf, Text.unlines]
  · have hbracket : Json.bracketed '[' ']' 1 (items.map Json.writtenString) =
        '[' :: ('\n' :: textOf (itemLines items) ++ [' ', ' ', ']']) := by
      rw [← commas_items h hitems]
      obtain ⟨s, items', rfl⟩ := List.exists_cons_of_ne_nil hitems
      simp [Json.bracketed, Json.newLine]
    rw [if_neg hitems, hbracket, textOf_cons, textOf_append]
    simp [textOf, Text.unlines]

/-- **The lines of the file of an expression**: an opening brace, the constants in decimal, the
sources in base 16, a closing brace, with two spaces for each bracket that is open. -/
theorem fileText_eq_lines (e : Expression) :
    (ofExpression e).fileText = String.ofList (textOf (fileLines e)) := by
  have hconstants := pretty_field (Unescaped.of_all (s := "constants") (by decide))
    (fun s hs => by
      obtain ⟨w, -, rfl⟩ := List.mem_map.1 hs
      exact unescaped_decimal w : ∀ s ∈ e.constants.map Word.decimal, Unescaped s) ","
  have hsources := pretty_field (Unescaped.of_all (s := "sources") (by decide))
    (fun s hs => by
      obtain ⟨source, -, rfl⟩ := List.mem_map.1 hs
      exact unescaped_hexText source : ∀ s ∈ e.sources.map hexText, Unescaped s) ""
  have hwords : (e.constants.map Word.decimal).map .string = e.constants.map Word.json :=
    List.map_map
  have htext : (ofExpression e).json.pretty 0 ++ ['\n'] =
      '{' :: '\n' :: (textOf (fieldLines "constants" (e.constants.map Word.decimal) ",") ++
        (textOf (fieldLines "sources" (e.sources.map hexText) "") ++ ['}', '\n'])) := by
    rw [← hconstants, ← hsources, hwords]
    simp [json, ofExpression, wordsJson, Json.Value.pretty, Json.prettyMembers, Json.bracketed,
      Json.commas, Json.newLine]
  rw [fileText_eq, htext, fileLines, textOf_cons, textOf_append, textOf_append]
  rfl

/-- **An expression is read back from its file**: the file has the lines it should have, the
configuration read from it is the one that was written, and that one builds the same constants and
the same resolved code. -/
theorem fileText_reloads {e : Expression} (h : Loaded e) :
    (ofExpression e).fileText = String.ofList (textOf (fileLines e)) ∧
      Document.read Document.config .json (ofExpression e).fileText = .ok (ofExpression e) ∧
      (ofExpression e).build = .ok e :=
  ⟨fileText_eq_lines e, read_fileText (ofExpression e), build_ofExpression h⟩

/-- The largest word as a constant, a source that reads it, and an empty source. -/
def largest : Expression where
  constants := [Word.zero, Word.max]
  code := [[⟨.readMemory, 3⟩], []]

theorem fileText_reloads_largest :
    Loaded largest ∧
      fileLines largest =
        ["\x7b", "  \"constants\": [", "    \"0\",",
         "    \"115792089237316195423570985008687907853269984665640564039457584007913129639935\"",
         "  ],", "  \"sources\": [", "    \"0x00000003\",", "    \"0x\"", "  ]", "\x7d"] ∧
      (ofExpression largest).fileText = String.ofList (textOf (fileLines largest)) ∧
      Document.read Document.config .json (ofExpression largest).fileText =
        .ok (ofExpression largest) ∧
      (ofExpression largest).build = .ok largest := by
  have h : Loaded largest := @Loaded.ofSources _ largest.constants largest.sources rfl
  exact ⟨h, by decide +kernel, fileText_reloads h⟩

end Config

end WordMachine
