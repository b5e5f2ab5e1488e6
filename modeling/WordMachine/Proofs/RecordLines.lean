import WordMachine.Document.Read
import WordMachine.Machine.Watched
import WordMachine.Proofs.WrittenValues
import WordMachine.Proofs.Listing

/-!
# Debug records come back from their lines

A sink that writes lines puts a line feed after the JSON text of each record. Two things make the
records come back from such a text:

* a value on one line is on one line (`oneLine_compact`), whatever strings it holds, so the line
  feeds of the text are just those after the records;
* a record is read back from its own line (`Record.read_line`), though all of it but its kind is
  held back at first.
-/

namespace WordMachine

/-! ## 1. Values on one line -/

namespace Text

theorem oneLine_nil : OneLine [] := fun _ hc => absurd hc List.not_mem_nil

theorem OneLine.cons {c : Char} (hc : c ≠ '\n' ∧ c ≠ '\r') {text : List Char} (h : OneLine text) :
    OneLine (c :: text) := List.forall_mem_cons.2 ⟨hc, h⟩

theorem OneLine.append {text text' : List Char} (h : OneLine text) (h' : OneLine text') :
    OneLine (text ++ text') := List.forall_mem_append.2 ⟨h, h'⟩

/-- Pieces with a separator after each of them are found again, and nothing after the last one. -/
theorem split_ended {separator : Char} {pieces : List (List Char)}
    (h : ∀ p ∈ pieces, separator ∉ p) :
    split separator (pieces.flatMap (· ++ [separator])) = pieces ++ [[]] := by
  unfold split
  induction pieces with
  | nil => rfl
  | cons p pieces ih =>
      rw [List.flatMap_cons, List.append_assoc, List.singleton_append, List.foldr_append,
        List.foldr_cons, ih fun p' h' => h p' (List.mem_cons_of_mem _ h')]
      unfold splitStep
      rw [if_pos rfl]
      exact (foldr_splitStep (h p List.mem_cons_self) [] _).trans (by rw [List.append_nil]; rfl)

end Text

namespace Json

open Text (OneLine oneLine_nil)

theorem oneLine_writtenChar (c : Char) : OneLine (writtenChar c) := by
  have hdigit : ∀ value < 16, Text.hexDigit value ≠ '\n' ∧ Text.hexDigit value ≠ '\r' := by decide
  unfold writtenChar
  -- the characters that have a letter of their own, the line breaks among them
  iterate 7
    split
    · exact .cons (by decide) (.cons (by decide) oneLine_nil)
  split
  · exact .cons (by decide) (.cons (by decide) (.cons (by decide) (.cons (by decide)
      (.cons (hdigit _ (by omega)) (.cons (hdigit _ (by omega)) oneLine_nil)))))
  · rename_i hfeed hreturn _ _
    exact .cons ⟨hfeed, hreturn⟩ oneLine_nil

theorem oneLine_writtenString (s : String) : OneLine (writtenString s) := by
  have hchars : OneLine (s.toList.flatMap writtenChar) := by
    intro c hc
    obtain ⟨d, -, hd⟩ := List.mem_flatMap.1 hc
    exact oneLine_writtenChar d c hd
  exact .cons (by decide) (hchars.append (.cons (by decide) oneLine_nil))

theorem oneLine_toString (n : Nat) : OneLine (toString n).toList := by
  intro c hc
  have hrange := Text.toNat_of_isDigit (Text.isDigit_of_mem_toString hc)
  constructor
  all_goals
    rintro rfl
    exact absurd hrange (by decide)

theorem oneLine_commas : ∀ {texts : List (List Char)}, (∀ text ∈ texts, OneLine text) →
    OneLine (commas texts)
  | [], _ => oneLine_nil
  | [text], h => h text List.mem_cons_self
  | text :: text' :: texts, h => by
      obtain ⟨htext, hrest⟩ := List.forall_mem_cons.1 h
      rw [commas]
      · exact htext.append (.cons (by decide) (oneLine_commas hrest))
      · simp

mutual

/-- **A value on one line has no line breaks.** -/
theorem oneLine_compact : ∀ v : Value, OneLine v.compact
  | .string s => by
      rw [Value.compact]
      exact oneLine_writtenString s
  | .number n => by
      rw [Value.compact]
      exact oneLine_toString n
  | .array items => by
      rw [Value.compact]
      exact .cons (by decide)
        ((oneLine_commas (oneLine_compactItems items)).append (.cons (by decide) oneLine_nil))
  | .object members => by
      rw [Value.compact]
      exact .cons (by decide)
        ((oneLine_commas (oneLine_compactMembers members)).append (.cons (by decide) oneLine_nil))

theorem oneLine_compactItems : ∀ (items : List Value), ∀ text ∈ compactItems items, OneLine text
  | [] => fun _ h => absurd h List.not_mem_nil
  | v :: rest => List.forall_mem_cons.2 ⟨oneLine_compact v, oneLine_compactItems rest⟩

theorem oneLine_compactMembers :
    ∀ (members : List (String × Value)), ∀ text ∈ compactMembers members, OneLine text
  | [] => fun _ h => absurd h List.not_mem_nil
  | (key, v) :: rest =>
      List.forall_mem_cons.2
        ⟨(oneLine_writtenString key).append (.cons (by decide) (oneLine_compact v)),
          oneLine_compactMembers rest⟩

end

/-! ## 2. Records -/

/-- A member of a record that is not its kind is held back. -/
theorem recordMembers_held {key : String} (hkey : key ≠ "kind") {value : Tree} {c : Content}
    (h : value.content 1 = .ok c) (kind : Option RecordKind) (held : List (String × Content))
    (rest : Members) :
    recordMembers kind held (.cons (some key) value rest) =
      recordMembers kind ((key, c) :: held) rest := by
  rw [recordMembers, if_neg hkey, h]
  rfl

end Json

/-- The index of a source in a record has at most 64 bits. -/
def Record.IndexFits : Record → Prop
  | .stack _ => True
  | .state source _ _ => source < Nat.pow 2 64

namespace Json

theorem recordOf_stack (words : List Word) :
    recordOf (Record.stack words).json.tree = .ok (.stack words) := by
  have hmembers : recordMembers none []
      (membersTree [("kind", .string "stack"), ("stack", wordsJson words)]) =
        .ok (some .stack, [("stack", wordsHeld words)]) := by
    rw [membersTree, membersTree, membersTree]
    show recordMembers (some .stack) [] _ = _
    rw [recordMembers_held (by decide) (content_words (by decide) words)]
    rfl
  have hread : readMember (recordFields .stack) (fun _ => .ok ()) {} "stack" (wordsHeld words) =
      .ok { stack := some words } := by
    simp [readMember, recordFields, stackField, words_held]
  rw [Record.json, Value.tree, recordOf, hmembers]
  show recordOfKind .stack (.object [("stack", wordsHeld words)]) = _
  rw [recordOfKind, Content.fill, fillContents_member hread]
  rfl

theorem recordOf_state {source : Nat} (h : source ≤ maxUnsigned) (constants words : List Word) :
    recordOf (Record.state source constants words).json.tree =
      .ok (.state source constants words) := by
  have hmembers : recordMembers none []
      (membersTree [("kind", .string "state"), ("source_index", .number source),
        ("constants", wordsJson constants), ("stack", wordsJson words)]) =
        .ok (some .state, [("source_index", .number (.unsigned source)),
          ("constants", wordsHeld constants), ("stack", wordsHeld words)]) := by
    rw [membersTree, membersTree, membersTree, membersTree, membersTree]
    show recordMembers (some .state) [] _ = _
    rw [recordMembers_held (by decide) (content_number h 1),
      recordMembers_held (by decide) (content_words (by decide) constants),
      recordMembers_held (by decide) (content_words (by decide) words)]
    rfl
  have hsource : readMember (recordFields .state) (fun _ => .ok ()) {} "source_index"
      (.number (.unsigned source)) = .ok { source := some source } := by
    simp [readMember, recordFields, Content.index, Content.found]
  have hconstants : readMember (recordFields .state) (fun _ => .ok ()) { source := some source }
      "constants" (wordsHeld constants) =
        .ok { source := some source, constants := some constants } := by
    simp [readMember, recordFields, words_held]
  have hstack : readMember (recordFields .state) (fun _ => .ok ())
      { source := some source, constants := some constants } "stack" (wordsHeld words) =
        .ok ⟨some source, some constants, some words⟩ := by
    simp [readMember, recordFields, stackField, words_held]
  rw [Record.json, Value.tree, recordOf, hmembers]
  show recordOfKind .state (.object [("source_index", .number (.unsigned source)),
    ("constants", wordsHeld constants), ("stack", wordsHeld words)]) = _
  rw [recordOfKind, Content.fill, fillContents_member hsource, fillContents_member hconstants,
    fillContents_member hstack]
  rfl

theorem recordOf_tree {r : Record} (h : r.IndexFits) : recordOf r.json.tree = .ok r := by
  cases r with
  | stack words => exact recordOf_stack words
  | state source constants words => exact recordOf_state (Nat.le_sub_one_of_lt h) constants words

end Json

/-- **A record is read back from its line.** -/
theorem Record.read_line {r : Record} (h : r.IndexFits) :
    Document.read Document.record .json r.json.line = .ok r :=
  Document.read_line_of_tree (Json.recordOf_tree h)

/-! ## 3. What a sink has written -/

namespace Machine.Watched

/-- The sink never fails, and puts the lines of the records behind what it has. -/
theorem run_lines (records : List Record) (told : Told String) :
    (records.forM Sink.lines).run told =
      .ok () { told with sink := told.sink ++ String.join (records.map Record.line) } := by
  induction records generalizing told with
  | nil =>
      rw [List.map_nil, String.join_nil, String.append_empty]
      rfl
  | cons r records ih =>
      calc (List.forM (r :: records) Sink.lines).run told
          = (records.forM Sink.lines).run { told with sink := told.sink ++ r.json.line ++ "\n" } := rfl
        _ = .ok () { told with
              sink := told.sink ++ r.json.line ++ "\n" ++ String.join (records.map Record.line) } :=
            ih _
        _ = _ := by
            rw [List.map_cons, String.join_cons, Record.line]
            simp only [String.append_assoc]

/-- The text of the lines of records. -/
theorem toList_join_lines (records : List Record) :
    (String.join (records.map Record.line)).toList =
      (records.map fun r => r.json.compact).flatMap (· ++ ['\n']) := by
  rw [String.toList_join, List.flatMap_map, List.flatMap_map]
  apply List.flatMap_congr
  intro r _
  simp [Record.line, Json.Value.line]

/-- **Records come back from the lines that a sink has written.** After records were handed to it in
order, none of which it fails to take, its text has one line for each of them, with nothing behind
the last line feed, and each line is read as its record. -/
theorem lines_read_back {records : List Record} (h : ∀ r ∈ records, r.IndexFits) :
    ∃ (told : Told String) (lines : List (List Char)),
      (records.forM Sink.lines).run { sink := "" } = .ok () told ∧
      Text.split '\n' told.sink.toList = lines ++ [[]] ∧
      Text.lines told.sink.toList = lines ∧
      List.Forall₂
        (fun line r => Document.read Document.record .json (String.ofList line) = .ok r)
        lines records := by
  have honeLine : ∀ line ∈ records.map (fun r => r.json.compact), Text.OneLine line := by
    intro line hline
    obtain ⟨r, -, rfl⟩ := List.mem_map.1 hline
    exact Json.oneLine_compact r.json
  refine ⟨_, records.map fun r => r.json.compact, run_lines records { sink := "" }, ?_, ?_, ?_⟩
  · dsimp only
    rw [String.empty_append, toList_join_lines]
    exact Text.split_ended fun line hline hfeed => (honeLine line hline '\n' hfeed).1 rfl
  · dsimp only
    rw [String.empty_append, toList_join_lines]
    exact Text.lines_unlines honeLine
  · rw [List.forall₂_map_left_iff, List.forall₂_same]
    exact fun r hr => Record.read_line (h r hr)

/-- A record with the largest index and the largest word, a stack, and an empty one. -/
def largestRecords : List Record :=
  [.state Json.maxUnsigned [Word.max] [], .stack [Word.max, Word.zero], .stack []]

theorem lines_read_back_largest :
    (∀ r ∈ largestRecords, r.IndexFits) ∧
      ∃ (told : Told String) (lines : List (List Char)),
        (largestRecords.forM Sink.lines).run { sink := "" } = .ok () told ∧
        Text.split '\n' told.sink.toList = lines ++ [[]] ∧
        Text.lines told.sink.toList = lines ∧
        List.Forall₂
          (fun line r => Document.read Document.record .json (String.ofList line) = .ok r)
          lines largestRecords := by
  have h : ∀ r ∈ largestRecords, r.IndexFits := by
    simp [largestRecords, Record.IndexFits, Json.maxUnsigned]
  exact ⟨h, lines_read_back h⟩

end Machine.Watched

end WordMachine
