import WordMachine.Command.Run
import WordMachine.Proofs.Disassembly

/-!
# Listings are read back, but for a last source that is empty

A listing has a line `# source k` above each source and a line `;` between two of them. The
assembler takes the comments away, cuts at each `;` and drops a blank last piece, since a `;` at the
end opens no further source. What is left of a source that is empty is a blank piece, too:

* `sourceTexts_listing` gives the pieces of a listing before the last one is looked at;
* `assembleAll_listingFrom` says what comes back from a list of sources, by cases on how it ends;
* `listing_reads_back_iff` draws from it which loaded expressions come back whole.
-/

namespace WordMachine

/-! ## 1. Pieces between separators -/

namespace Text

theorem foldr_splitStep {separator : Char} {piece : List Char} (h : separator ∉ piece)
    (first : List Char) (rest : List (List Char)) :
    piece.foldr (splitStep separator) (first :: rest) = (piece ++ first) :: rest := by
  induction piece with
  | nil => rfl
  | cons c piece ih =>
      have hc : c ≠ separator := fun e => h (e ▸ List.mem_cons_self)
      rw [List.foldr_cons, ih fun hmem => h (List.mem_cons_of_mem _ hmem)]
      unfold splitStep
      rw [if_neg hc]
      rfl

/-- **Pieces that were put together with separators between them are found again.** -/
theorem split_flatMap {separator : Char} {pieces : List (List Char)}
    (h : ∀ p ∈ pieces, separator ∉ p) :
    ∀ {first : List Char}, separator ∉ first →
      split separator (first ++ pieces.flatMap (separator :: ·)) = first :: pieces := by
  unfold split
  induction pieces with
  | nil =>
      intro first hfirst
      rw [List.flatMap_nil, List.append_nil, foldr_splitStep hfirst, List.append_nil]
  | cons p pieces ih =>
      intro first hfirst
      have hrest := ih (fun p' h' => h p' (List.mem_cons_of_mem _ h')) (h p List.mem_cons_self)
      rw [List.foldr_append, List.flatMap_cons, List.cons_append, List.foldr_cons, hrest]
      unfold splitStep
      rw [if_pos rfl]
      exact (foldr_splitStep hfirst [] (p :: pieces)).trans (by rw [List.append_nil])

end Text

namespace Assembly

theorem dropBlankLast_concat {before : List (List Char)} (hne : before ≠ []) (last : List Char) :
    dropBlankLast (before ++ [last]) =
      if last.all Text.isBlank then before else before ++ [last] := by
  unfold dropBlankLast
  rw [List.reverse_append, List.reverse_singleton, List.singleton_append]
  cases hreverse : before.reverse with
  | nil => exact absurd (List.reverse_eq_nil_iff.1 hreverse) hne
  | cons p rest =>
      dsimp only
      rw [← hreverse, List.reverse_reverse]

theorem assembleTexts_walks : Walks (fun text s => assembleChars text = .ok s)
    (fun k text e => ∃ f, assembleChars text = .error f ∧ e = ⟨k, f⟩) assembleTexts where
  nil _ _ := rfl
  ok h read k rest := by
    rw [assembleTexts, h]
  error := by
    rintro k text e ⟨f, h, rfl⟩ read rest
    rw [assembleTexts, h]
  total k text := by
    cases h : assembleChars text with
    | ok s => exact .inl ⟨s, rfl⟩
    | error f => exact .inr ⟨_, f, rfl, rfl⟩

end Assembly

/-! ## 2. Sources below empty lines -/

namespace Instruction

theorem separator_not_mem_text (i : Instruction) : ';' ∉ i.text.toList := by
  rw [text_eq_spell]
  intro h
  rcases mem_spell h with h | ⟨f, hf, h⟩ | h | h | h
  · exact (i.isWord_name.plain _ h).2.2.2 rfl
  · exact ((i.isWord_fields f hf).1.plain _ h).2.2.2 rfl
  · exact absurd h (by decide)
  · exact absurd h (by decide)
  · exact absurd h (by decide)

/-- A printed instruction is not blank, for its name is not. -/
theorem exists_not_isBlank_text (i : Instruction) : ∃ c ∈ i.text.toList, Text.isBlank c = false := by
  obtain ⟨c, hc⟩ := List.exists_mem_of_ne_nil _ i.isWord_name.ne_nil
  refine ⟨c, ?_, (i.isWord_name.plain c hc).2.2.1⟩
  rw [text_eq_spell]
  cases i.fields with
  | nil => exact hc
  | cons field fields =>
      rw [toList_spell_cons]
      exact List.mem_append_left _ hc

end Instruction

namespace Source

/-- The source without the operands that have no meaning. -/
def cleared (s : Source) : Source := s.map Instruction.cleared

/-- The lines of a source below so many empty ones. -/
def below (n : Nat) (s : Source) : List Char := Text.unlines (List.replicate n [] ++ s.lines)

theorem tokensOf_below (n : Nat) (s : Source) : Assembly.tokensOf (s.below n) = .ok s.lines := by
  induction n with
  | zero => exact Assembly.tokensOf_unlines fun l hl => isToken_lines hl
  | succ n ih => exact ih

theorem stripComments_below (n : Nat) (s : Source) :
    Assembly.stripComments (s.below n) = s.below n := by
  have hlines : Text.lines (s.below n) = List.replicate n [] ++ s.lines := by
    refine Text.lines_unlines fun l hl => ?_
    rcases List.mem_append.1 hl with hl | hl
    · rw [(List.mem_replicate.1 hl).2]
      exact fun c hc => absurd hc List.not_mem_nil
    · exact oneLine_lines hl
  rw [Assembly.stripComments_of_lines hlines, List.map_append, List.map_replicate,
    map_cutComment_lines]
  rfl

theorem assembleChars_below (n : Nat) {s : Source} (h : ∀ i ∈ s, ¬ i.Unreadable) :
    Assembly.assembleChars (s.below n) = .ok s.cleared := by
  unfold Assembly.assembleChars Assembly.tokenize
  rw [stripComments_below, tokensOf_below]
  exact assembleTokens_lines h

theorem mem_below {n : Nat} {s : Source} {c : Char} (h : c ∈ s.below n) :
    c = '\n' ∨ ∃ i ∈ s, c ∈ i.text.toList := by
  obtain ⟨l, hl, hc⟩ := List.mem_flatMap.1 h
  rcases List.mem_append.1 hc with hc | hc
  · rcases List.mem_append.1 hl with hl | hl
    · rw [(List.mem_replicate.1 hl).2] at hc
      exact absurd hc List.not_mem_nil
    · obtain ⟨i, hi, rfl⟩ := List.mem_map.1 hl
      exact .inr ⟨i, hi, hc⟩
  · exact .inl (List.mem_singleton.1 hc)

theorem separator_not_mem_below (n : Nat) (s : Source) : ';' ∉ s.below n := by
  intro h
  rcases mem_below h with h | ⟨i, -, h⟩
  · exact absurd h (by decide)
  · exact i.separator_not_mem_text h

/-- **Only an empty source is blank.** -/
theorem all_isBlank_below (n : Nat) (s : Source) : (s.below n).all Text.isBlank = true ↔ s = [] := by
  rw [List.all_eq_true]
  constructor
  · intro hblank
    cases s with
    | nil => rfl
    | cons i s =>
        obtain ⟨c, hc, hsolid⟩ := i.exists_not_isBlank_text
        have hline : i.text.toList ∈ List.replicate n [] ++ lines (i :: s) :=
          List.mem_append_right _ List.mem_cons_self
        have hmem : c ∈ below n (i :: s) :=
          List.mem_flatMap.2 ⟨_, hline, List.mem_append_left _ hc⟩
        rw [hblank c hmem] at hsolid
        cases hsolid
  · rintro rfl c hc
    rcases mem_below hc with rfl | ⟨i, hi, -⟩
    · decide
    · exact absurd hi List.not_mem_nil

end Source

/-! ## 3. Listings -/

namespace Command

/-- The comment above a source. -/
def heading (k : Nat) : List Char := ("# source " ++ toString k).toList

theorem oneLine_heading (k : Nat) : Text.OneLine (heading k) := by
  have hword : Text.OneLine "# source ".toList := Text.oneLine_of_all (by decide)
  intro c hc
  unfold heading at hc
  rw [String.toList_append] at hc
  rcases List.mem_append.1 hc with hc | hc
  · exact hword c hc
  · exact Instruction.oneLine_of_plain ((Text.isWord_toString k).plain c hc)

theorem cutComment_heading (k : Nat) : Assembly.cutComment (heading k) = [] := by
  unfold heading
  rw [String.toList_append]
  exact (Assembly.cutComment_cons _ _).trans (if_pos ⟨rfl, rfl⟩)

/-- The lines of a listing. -/
def listingLines : (index : Nat) → List Source → List (List Char)
  | _, [] => []
  | k, s :: rest =>
    (if k = 0 then [] else [[';']]) ++ heading k :: (s.lines ++ listingLines (k + 1) rest)

theorem toList_listingFrom (k : Nat) (sources : List Source) :
    (listingFrom k sources).toList = Text.unlines (listingLines k sources) := by
  induction sources generalizing k with
  | nil => rfl
  | cons s rest ih =>
      have hsource : (if s.isEmpty then "" else s.text ++ "\n").toList = Text.unlines s.lines := by
        cases s with
        | nil => rfl
        | cons i s =>
            show (Source.text (i :: s) ++ "\n").toList = _
            rw [String.toList_append, Source.toList_text]
            exact Text.intercalate_feed (List.cons_ne_nil _ _)
      have hseparator : (if k = 0 then "" else ";\n").toList =
          Text.unlines (if k = 0 then [] else [[';']]) := by
        split <;> rfl
      unfold listingFrom listingLines heading
      rw [Text.unlines_append, Text.unlines_cons, Text.unlines_append, String.toList_append,
        String.toList_append, String.toList_append, String.toList_append, String.toList_append, ih,
        hsource, hseparator, String.toList_append]
      simp

theorem oneLine_listingLines {k : Nat} {sources : List Source} :
    ∀ {l : List Char}, l ∈ listingLines k sources → Text.OneLine l := by
  induction sources generalizing k with
  | nil => exact fun h => absurd h List.not_mem_nil
  | cons s rest ih =>
      intro l h
      unfold listingLines at h
      rw [List.mem_append, List.mem_cons, List.mem_append] at h
      rcases h with h | rfl | h | h
      · split at h
        · exact absurd h List.not_mem_nil
        · rw [List.mem_singleton.1 h]
          exact Text.oneLine_of_all (by decide)
      · exact oneLine_heading k
      · exact Source.oneLine_lines h
      · exact ih h

/-- What is left of the sources after the first one: the separator and the source, below what was the
rest of the line of the separator and the line of the comment. -/
theorem stripped_listingLines (k : Nat) (sources : List Source) :
    Text.unlines ((listingLines (k + 1) sources).map Assembly.cutComment) =
      (sources.map (Source.below 2)).flatMap (';' :: ·) := by
  induction sources generalizing k with
  | nil => rfl
  | cons s rest ih =>
      unfold listingLines
      rw [if_neg (Nat.succ_ne_zero k), List.singleton_append, List.map_cons, List.map_cons,
        List.map_append, cutComment_heading, Source.map_cutComment_lines, Text.unlines_cons,
        Text.unlines_cons, Text.unlines_append, ih, List.map_cons, List.flatMap_cons]
      rfl

theorem sourceTexts_listing (s : Source) (rest : List Source) :
    Assembly.sourceTexts (listingFrom 0 (s :: rest)).toList =
      Assembly.dropBlankLast (s.below 1 :: rest.map (Source.below 2)) := by
  have hlines : Text.lines (listingFrom 0 (s :: rest)).toList = listingLines 0 (s :: rest) := by
    rw [toList_listingFrom]
    exact Text.lines_unlines fun l hl => oneLine_listingLines hl
  have hstripped : Text.unlines ((listingLines 0 (s :: rest)).map Assembly.cutComment) =
      s.below 1 ++ (rest.map (Source.below 2)).flatMap (';' :: ·) := by
    unfold listingLines
    rw [if_pos rfl, List.nil_append, List.map_cons, List.map_append, cutComment_heading,
      Source.map_cutComment_lines, Text.unlines_cons, Text.unlines_append, stripped_listingLines]
    rfl
  unfold Assembly.sourceTexts
  rw [Assembly.stripComments_of_lines hlines, hstripped, Text.split_flatMap]
  · exact List.forall_mem_map.2 fun s' _ => s'.separator_not_mem_below 2
  · exact s.separator_not_mem_below 1

theorem assembleTexts_below {s : Source} {rest : List Source}
    (h : ∀ s' ∈ s :: rest, ∀ i ∈ s', ¬ i.Unreadable) :
    Assembly.assembleTexts [] 0 (s.below 1 :: rest.map (Source.below 2)) =
      .ok ((s :: rest).map Source.cleared) := by
  have hrest : List.Forall₂ (fun text s' => Assembly.assembleChars text = .ok s')
      (rest.map (Source.below 2)) (rest.map Source.cleared) := by
    rw [List.forall₂_map_left_iff, List.forall₂_map_right_iff, List.forall₂_same]
    exact fun s' hs' => Source.assembleChars_below 2 (h s' (List.mem_cons_of_mem _ hs'))
  have hfirst := Source.assembleChars_below 1 (h s List.mem_cons_self)
  exact Assembly.assembleTexts_walks.eq_ok_iff.2 (.cons hfirst hrest)

/-- The last piece is dropped if the last source is empty. -/
theorem dropBlankLast_below (s last : Source) (kept : List Source) :
    Assembly.dropBlankLast (s.below 1 :: (kept ++ [last]).map (Source.below 2)) =
      s.below 1 :: (if last = [] then kept else kept ++ [last]).map (Source.below 2) := by
  rw [List.map_append, List.map_singleton, ← List.cons_append,
    Assembly.dropBlankLast_concat (List.cons_ne_nil _ _)]
  by_cases hlast : last = []
  · rw [if_pos ((last.all_isBlank_below 2).2 hlast), if_pos hlast]
  · rw [if_neg fun hblank => hlast ((last.all_isBlank_below 2).1 hblank), if_neg hlast,
      List.map_append, List.map_singleton]
    rfl

/-- **What comes back from a listing of sources that are accepted one by one.** -/
theorem assembleAll_listingFrom {sources : List Source}
    (h : ∀ s ∈ sources, ∀ i ∈ s, ¬ i.Unreadable) :
    (sources = [] ∧ Assembly.assembleAll (listingFrom 0 sources) = .ok [[]]) ∨
    (∃ s kept, sources = s :: kept ++ [[]] ∧
      Assembly.assembleAll (listingFrom 0 sources) = .ok ((s :: kept).map Source.cleared)) ∨
    (sources ≠ [] ∧ (sources.length = 1 ∨ sources.getLast? ≠ some []) ∧
      Assembly.assembleAll (listingFrom 0 sources) = .ok (sources.map Source.cleared)) := by
  cases sources with
  | nil => exact .inl ⟨rfl, rfl⟩
  | cons s rest =>
      right
      unfold Assembly.assembleAll
      rw [sourceTexts_listing]
      rcases List.eq_nil_or_concat rest with rfl | ⟨kept, last, rfl⟩
      · -- the only piece is kept, blank or not
        exact .inr ⟨List.cons_ne_nil _ _, .inl rfl, assembleTexts_below h⟩
      rw [List.concat_eq_append] at h ⊢
      rw [dropBlankLast_below]
      by_cases hlast : last = []
      · rw [if_pos hlast, hlast]
        have hkept : ∀ s' ∈ s :: kept, ∀ i ∈ s', ¬ i.Unreadable :=
          fun s' hs' => h s' (List.mem_append_left [last] hs')
        exact .inl ⟨s, kept, rfl, assembleTexts_below hkept⟩
      · rw [if_neg hlast]
        refine .inr ⟨List.cons_ne_nil _ _, .inr ?_, assembleTexts_below h⟩
        rw [← List.cons_append, List.getLast?_append_of_ne_nil _ (List.cons_ne_nil _ _)]
        exact fun heq => hlast (Option.some.inj heq)

end Command

/-! ## 4. Loaded expressions -/

theorem Operation.opcode?_instruction (op : Operation) : op.instruction.opcode? = some op.opcode :=
  Instruction.opcode?_eq_some_iff.2 rfl

/-- **No operand that suits its opcode is refused.** -/
theorem Operation.WellFormed.readable {constants sources : Nat} {op : Operation}
    (h : op.WellFormed constants sources) : ¬ op.instruction.Unreadable := by
  have hopcode := op.opcode?_instruction
  unfold Instruction.Unreadable
  rw [hopcode]
  show ¬ op.opcode.Refuses op.operand
  obtain ⟨opcode, operand⟩ := op
  cases opcode with
  | debug => exact Nat.not_lt.2 h
  | apply f => exact fun hrefused => Nat.not_lt.2 (h hrefused.1) hrefused.2
  | ensure => exact Nat.not_lt.2 h
  | _ => exact id

theorem Loaded.readable {e : Expression} (h : Loaded e) :
    ∀ s ∈ e.sources, ∀ i ∈ s, ¬ i.Unreadable := by
  intro s hs i hi
  obtain ⟨ops, hops, rfl⟩ := List.mem_map.1 hs
  obtain ⟨op, hop, rfl⟩ := List.mem_map.1 hi
  exact (h.wellFormed ops hops op hop).readable

namespace Command

/-- **Which listings are read back.** The listing of a loaded expression is always accepted. Its
sources come back, but for operands without a meaning, if and only if there are sources and the last
one is not empty or is the only one. Without sources one empty source comes back, and an empty
source after others is lost. -/
theorem listing_reads_back_iff {e : Expression} (h : Loaded e) :
    (Assembly.assembleAll (listing e) = .ok (e.sources.map Source.cleared) ↔
      e.sources ≠ [] ∧ (e.sources.length = 1 ∨ e.sources.getLast? ≠ some [])) ∧
    (e.sources = [] → Assembly.assembleAll (listing e) = .ok [[]]) ∧
    (1 < e.sources.length → e.sources.getLast? = some [] →
      Assembly.assembleAll (listing e) = .ok (e.sources.dropLast.map Source.cleared)) := by
  unfold listing
  rcases assembleAll_listingFrom h.readable with ⟨hnil, hback⟩ | ⟨s, kept, hlast, hback⟩ |
    ⟨hne, hlast, hback⟩
  · rw [hback, hnil]
    refine ⟨⟨fun heq => ?_, fun hne => absurd rfl hne.1⟩, fun _ => rfl, fun hlt => ?_⟩
    · cases heq
    · cases hlt
  · rw [hback, hlast]
    refine ⟨⟨fun heq => ?_, fun ⟨_, hkept⟩ => ?_⟩, fun hnil => ?_, fun _ _ => ?_⟩
    · -- one source is missing, so these cannot be all
      have hlength := congrArg List.length (Except.ok.inj heq)
      rw [List.length_map, List.length_map, List.length_append] at hlength
      exact absurd hlength (Nat.ne_of_lt (Nat.lt_succ_self _))
    · rw [List.getLast?_append_of_ne_nil _ (List.cons_ne_nil _ _), List.length_append] at hkept
      rcases hkept with hone | hlast
      · exact absurd (Nat.succ.inj hone) (Nat.succ_ne_zero _)
      · exact absurd rfl hlast
    · cases hnil
    · rw [List.dropLast_append_of_ne_nil (List.cons_ne_nil _ _)]
      simp
  · rw [hback]
    refine ⟨⟨fun _ => ⟨hne, hlast⟩, fun _ => rfl⟩, fun hnil => absurd hnil hne, fun hlt hempty => ?_⟩
    rcases hlast with hone | hlast
    · omega
    · exact absurd hempty hlast

/-- Two sources, the last one empty. -/
def emptyLast : Expression := ⟨[], [[⟨.apply .add, 2⟩], []]⟩

theorem listing_reads_back_iff_emptyLast :
    Loaded emptyLast ∧ emptyLast.sources = [[⟨12, 2⟩], []] ∧
      listing emptyLast = "# source 0\nadd<2>\n;\n# source 1\n" ∧
      Assembly.assembleAll (listing emptyLast) = .ok [[⟨12, 2⟩]] := by
  have hbuild : Config.build ⟨[], ["add<2>", ""]⟩ = .ok emptyLast := rfl
  have hlost := (listing_reads_back_iff (.ofConfig hbuild)).2.2 (by decide) rfl
  exact ⟨.ofConfig hbuild, rfl, by decide, hlost⟩

end Command

end WordMachine
