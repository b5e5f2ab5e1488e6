import WordMachine.Proofs.Grammar
import WordMachine.Proofs.Listing

/-!
# Texts joined by separators

Sources that are assembled one by one can be put into one text, with a line `;` between each two of
them. The comments of the whole text are cut out before it is cut at each `;`, and those of each
piece once more, so three things have to be seen:

* comments: nothing is left of them to cut out (`uncommented_stripComments`), and the ends of lines
  that change on the second time do not matter (`assembleChars_stripComments`);
* ends: a line feed may be put behind a text (`assembleChars_append_feed`) and before it
  (`assembleChars_feed`);
* separators: a text that is accepted has none outside its comments
  (`separator_not_mem_stripComments`), so that the text is cut just where it was joined
  (`stripComments_joined`).

`assembleAll_joined` puts them together.
-/

namespace WordMachine.Assembly

/-! ## 1. Texts that are assembled alike -/

namespace Lexer

theorem Agree.symm {x y : Except LexicalFault (List (List Char))} (h : Agree x y) : Agree y x := by
  cases h with
  | ok h => exact .ok h.symm
  | error => exact .error

theorem Agree.trans {x y z : Except LexicalFault (List (List Char))} (h : Agree x y)
    (h' : Agree y z) : Agree x z := by
  cases h with
  | ok h =>
      cases h' with
      | ok h' => exact .ok (h.trans h')
  | error =>
      cases h' with
      | error => exact .error

end Lexer

theorem Returned.tokensOf_agree {text text' : List Char} (h : Returned text text') :
    Lexer.Agree (tokensOf text) (tokensOf text') := by
  rw [tokensOf_eq, tokensOf_eq]
  exact h.agree (.naming rfl (by simp))

theorem agree_uncommented (text : List Char) :
    Lexer.Agree (tokensOf (stripComments text)) (tokensOf (uncommented false text)) :=
  (returned_uncommented text).1.tokensOf_agree

/-- A source hangs on what the tokens spell, and on nothing else of the text. -/
theorem assembleChars_of_agree {text text' : List Char} {s : Source}
    (h : Lexer.Agree (tokensOf (stripComments text)) (tokensOf (stripComments text')))
    (hs : assembleChars text = .ok s) : assembleChars text' = .ok s := by
  obtain ⟨tokens, htokens, hspelled⟩ := assembleChars_eq_ok_iff.1 hs
  rw [htokens] at h
  generalize hright : tokensOf (stripComments text') = right at h
  cases h with
  | ok hsame => exact assembleChars_eq_ok_iff.2 ⟨_, hright, hsame.symm.trans hspelled⟩

/-! ## 2. Comments that are cut out twice -/

/-- What starts with a digit is no comment. -/
theorem startsWithDigit_cutComment {line : List Char} (h : startsWithDigit line = true)
    (rest : List Char) : startsWithDigit (cutComment line ++ rest) = true := by
  cases line with
  | nil => cases h
  | cons c line =>
      have hc : c ≠ '#' := by
        intro hc
        rw [hc] at h
        have hhash : Text.isDigit '#' = true := h
        exact absurd hhash (by decide)
      rw [cutComment_cons, if_neg fun hstart => hc hstart.1]
      exact h

theorem uncommented_cutComment (line rest : List Char) :
    uncommented false (cutComment line ++ rest) = cutComment line ++ uncommented false rest := by
  induction line with
  | nil => rfl
  | cons c line ih =>
      rw [cutComment_cons]
      split
      · rfl
      · rename_i hkept
        have hkept' : ¬ (c = '#' ∧ startsWithDigit (cutComment line ++ rest) = false) := by
          intro hstart
          have hdigit : startsWithDigit line = true := by
            cases hline : startsWithDigit line with
            | true => rfl
            | false => exact absurd ⟨hstart.1, hline⟩ hkept
          rw [startsWithDigit_cutComment hdigit rest] at hstart
          exact absurd hstart.2 (by decide)
        rw [List.cons_append, uncommented_cons, if_neg hkept', ih, List.cons_append]

/-- **No comment is left once they are cut out.** -/
theorem uncommented_stripComments (text : List Char) :
    uncommented false (stripComments text) = stripComments text := by
  rw [stripComments_of_lines rfl]
  generalize Text.lines text = ls
  induction ls with
  | nil => rfl
  | cons l ls ih =>
      have hfeed : ∀ rest, uncommented false ('\n' :: rest) = '\n' :: uncommented false rest :=
        fun _ => rfl
      rw [List.map_cons, Text.unlines_cons, uncommented_cutComment, hfeed, ih]

theorem assembleChars_stripComments {text : List Char} {s : Source}
    (h : assembleChars text = .ok s) : assembleChars (stripComments text) = .ok s := by
  have hagree := agree_uncommented (stripComments text)
  rw [uncommented_stripComments] at hagree
  exact assembleChars_of_agree hagree.symm h

/-! ## 3. Line feeds at both ends -/

theorem assembleChars_feed (text : List Char) :
    assembleChars ('\n' :: text) = assembleChars text := by
  have hblank : Text.isBlank '\n' = true := by decide
  have htokens : tokensOf ('\n' :: stripComments text) = tokensOf (stripComments text) := by
    rw [tokensOf_eq, tokensOf_eq, Lexer.tokensFrom_of_ok (Lexer.between_blank hblank)]
  unfold assembleChars tokenize
  rw [stripComments_feed, htokens]

theorem startsWithDigit_append_feed (text : List Char) :
    startsWithDigit (text ++ ['\n']) = startsWithDigit text := by
  cases text <;> rfl

/-- A line feed at the end is in no comment. -/
theorem uncommented_append_feed (inComment : Bool) (text : List Char) :
    uncommented inComment (text ++ ['\n']) = uncommented inComment text ++ ['\n'] := by
  induction text generalizing inComment with
  | nil => cases inComment <;> rfl
  | cons c text ih =>
      cases inComment with
      | true =>
          rw [List.cons_append, uncommented, uncommented, ih, ih]
          split <;> rfl
      | false =>
          rw [List.cons_append, uncommented_cons, uncommented_cons, ih, ih,
            startsWithDigit_append_feed]
          split <;> rfl

theorem returned_append_feed (text : List Char) : Returned (text ++ ['\n']) text := by
  induction text with
  | nil => exact .feed
  | cons c text ih => exact .cons ih

theorem assembleChars_append_feed {text : List Char} {s : Source} (h : assembleChars text = .ok s) :
    assembleChars (text ++ ['\n']) = .ok s := by
  have hended := agree_uncommented (text ++ ['\n'])
  rw [uncommented_append_feed] at hended
  have hfeed := (returned_append_feed (uncommented false text)).tokensOf_agree
  exact assembleChars_of_agree ((agree_uncommented text).trans (hended.trans hfeed).symm) h

/-! ## 4. Separators -/

theorem Lexed.separator_not_mem {text : List Char} {tokens : List (List Char)}
    (h : Lexed text tokens) : ';' ∉ text := by
  have hblank : ∀ {lead : List Char}, Text.Blank lead → ';' ∉ lead :=
    fun hlead hmem => absurd (hlead ';' hmem) (by decide)
  have hword : ∀ {name : List Char}, IsWord name → ';' ∉ name :=
    fun hname hmem => (hname.plain ';' hmem).2.2.2 rfl
  induction h with
  | blanks h => exact hblank h
  | name hlead hname _ _ ih => simp [hblank hlead, hword hname, ih]
  | @fields lead name inner rest tokens hlead hname hinner _ ih =>
      have hfields : ';' ∉ inner := by
        intro hmem
        rcases hinner ';' hmem with hplain | hspace
        · exact hplain.2.2.2 rfl
        · exact absurd hspace (by decide)
      simp [hblank hlead, hword hname, hfields, ih]

/-- **A text that is accepted has no separator outside its comments.** -/
theorem separator_not_mem_stripComments {text : List Char} {s : Source}
    (h : assembleChars text = .ok s) : ';' ∉ stripComments text := by
  obtain ⟨tokens, htokens, -⟩ := assembleChars_eq_ok_iff.1 h
  exact (tokensOf_eq_ok_iff.1 htokens).separator_not_mem

/-! ## 5. Joined texts -/

/-- Texts with a line `;` between each two of them. -/
def joined (texts : List (List Char)) : List Char := ['\n', ';', '\n'].intercalate texts

/-- The pieces of some texts that were joined. Each text but the last one got a line feed at its
end; before the first piece stands `lead`, and before each other one the rest of the line of its
`;`. -/
def piecesFrom (lead : List Char) : List (List Char) → List (List Char)
  | [] => []
  | [text] => [lead ++ stripComments text]
  | text :: next :: rest =>
    (lead ++ stripComments (text ++ ['\n'])) :: piecesFrom ['\n'] (next :: rest)

theorem stripComments_joined_cons (text next : List Char) (rest : List (List Char)) :
    stripComments (joined (text :: next :: rest)) =
      stripComments (text ++ ['\n']) ++ ';' :: '\n' :: stripComments (joined (next :: rest)) := by
  have hjoined : joined (text :: next :: rest) =
      text ++ '\n' :: ([';'] ++ '\n' :: joined (next :: rest)) := by
    unfold joined
    rw [List.intercalate_cons_cons, List.append_assoc]
    rfl
  have hlines : Text.lines (joined (text :: next :: rest)) =
      Text.lines (text ++ ['\n']) ++ [';'] :: Text.lines (joined (next :: rest)) := by
    have hseparator : Text.lines ([';'] ++ ['\n']) = [[';']] := by decide
    rw [hjoined, Text.lines_append_feed text, Text.lines_append_feed [';'], hseparator,
      List.singleton_append]
  have hcut : cutComment [';'] = [';'] := by decide
  rw [stripComments_of_lines hlines, stripComments_of_lines rfl, stripComments_of_lines rfl,
    List.map_append, List.map_cons, Text.unlines_append, Text.unlines_cons, hcut]
  rfl

/-- **Once the comments are cut out, the joined text has the pieces between its separators.** -/
theorem stripComments_joined (lead text : List Char) (rest : List (List Char)) :
    ∃ first more, piecesFrom lead (text :: rest) = first :: more ∧
      lead ++ stripComments (joined (text :: rest)) = first ++ more.flatMap (';' :: ·) := by
  induction rest generalizing lead text with
  | nil =>
      refine ⟨lead ++ stripComments text, [], rfl, ?_⟩
      simp [joined]
  | cons next rest ih =>
      obtain ⟨first, more, hpieces, hstripped⟩ := ih ['\n'] next
      refine ⟨lead ++ stripComments (text ++ ['\n']), first :: more, ?_, ?_⟩
      · rw [piecesFrom, hpieces]
      · rw [stripComments_joined_cons, List.flatMap_cons, List.cons_append, ← hstripped]
        simp

/-- A line feed may also stand before a text whose comments are cut out. -/
theorem assembleChars_lead {lead text : List Char} {s : Source} (hlead : lead = [] ∨ lead = ['\n'])
    (h : assembleChars text = .ok s) :
    assembleChars (lead ++ stripComments text) = .ok s ∧ ';' ∉ lead ++ stripComments text := by
  have hstripped := assembleChars_stripComments h
  have hseparator := separator_not_mem_stripComments h
  rcases hlead with rfl | rfl
  · exact ⟨hstripped, hseparator⟩
  · exact ⟨(assembleChars_feed _).trans hstripped, by simpa using hseparator⟩

/-- Each piece is assembled as its text is, and has no separator. -/
theorem forall₂_piecesFrom {texts : List (List Char)} {sources : List Source}
    (h : List.Forall₂ (fun text s => assembleChars text = .ok s) texts sources)
    {lead : List Char} (hlead : lead = [] ∨ lead = ['\n']) :
    List.Forall₂ (fun piece s => assembleChars piece = .ok s ∧ ';' ∉ piece)
      (piecesFrom lead texts) sources := by
  induction h generalizing lead with
  | nil => exact .nil
  | @cons text s texts sources hs htexts ih =>
      cases texts with
      | nil =>
          cases htexts
          exact .cons (assembleChars_lead hlead hs) .nil
      | cons next rest =>
          have hfirst := assembleChars_lead hlead (assembleChars_append_feed hs)
          exact .cons hfirst (ih (.inr rfl))

/-- The last piece is the last text without its comments. -/
theorem getLast?_piecesFrom {lead : List Char} {texts : List (List Char)} {piece : List Char}
    (h : piece ∈ (piecesFrom lead texts).getLast?) :
    ∃ text ∈ texts.getLast?, stripComments text <:+ piece := by
  induction texts generalizing lead with
  | nil => cases h
  | cons text rest ih =>
      cases rest with
      | nil =>
          cases h
          exact ⟨text, rfl, List.suffix_append _ _⟩
      | cons next rest =>
          obtain ⟨first, more, hpieces, -⟩ := stripComments_joined ['\n'] next rest
          rw [piecesFrom, hpieces, List.getLast?_cons_cons, ← hpieces] at h
          rw [List.getLast?_cons_cons]
          exact ih h

theorem split_joined {texts : List (List Char)} (hne : texts ≠ [])
    (h : ∀ piece ∈ piecesFrom [] texts, ';' ∉ piece) :
    Text.split ';' (stripComments (joined texts)) = piecesFrom [] texts := by
  obtain ⟨text, rest, rfl⟩ := List.exists_cons_of_ne_nil hne
  obtain ⟨first, more, hpieces, hstripped⟩ := stripComments_joined [] text rest
  rw [List.nil_append] at hstripped
  rw [hpieces] at h ⊢
  rw [hstripped]
  exact Text.split_flatMap (fun p hp => h p (List.mem_cons_of_mem _ hp))
    (h first List.mem_cons_self)

theorem Returned.blank {text text' : List Char} (h : Returned text text')
    (hblank : Text.Blank text) : Text.Blank text' := by
  induction h with
  | nil => exact .nil
  | feed => exact .nil
  | cons _ ih =>
      have hrest := ih fun d hd => hblank d (List.mem_cons_of_mem _ hd)
      exact .cons (hblank _ List.mem_cons_self) hrest
  | carriage _ ih =>
      have hrest := ih fun d hd => hblank d (List.mem_cons_of_mem _ hd)
      exact .cons (by decide) (.cons (by decide) hrest)

/-- Only a last text that is blank without its comments would be dropped, and only behind others. -/
theorem dropBlankLast_piecesFrom {texts : List (List Char)}
    (h : texts.length = 1 ∨ ∀ text ∈ texts.getLast?, ¬ Text.Blank (uncommented false text)) :
    dropBlankLast (piecesFrom [] texts) = piecesFrom [] texts := by
  rcases h with hone | hsolid
  · obtain ⟨text, rfl⟩ := List.length_eq_one_iff.1 hone
    rfl
  rcases List.eq_nil_or_concat (piecesFrom [] texts) with hnil | ⟨before, last, hpieces⟩
  · rw [hnil]
    rfl
  rw [List.concat_eq_append] at hpieces
  have hlast : last ∈ (piecesFrom [] texts).getLast? := by
    rw [hpieces]
    simp
  obtain ⟨text, htext, hsuffix⟩ := getLast?_piecesFrom hlast
  have hkept : ¬ last.all Text.isBlank = true := by
    intro hblank
    have hstripped : Text.Blank (stripComments text) :=
      fun c hc => List.all_eq_true.1 hblank c (hsuffix.subset hc)
    exact hsolid text htext ((returned_uncommented text).1.blank hstripped)
  rw [hpieces]
  by_cases hbefore : before = []
  · subst hbefore
    rfl
  · rw [dropBlankLast_concat hbefore, if_neg hkept]

/-- **Joining accepted texts joins their sources.** Of texts that are assembled one by one, one text
is made with a line `;` between each two. It is assembled to the same sources in the same order,
whatever the comments hold and however the lines end. The only condition is that the last text is
not blank without its comments, unless there is no other. -/
theorem assembleAll_joined {texts : List String} {sources : List Source} (hne : texts ≠ [])
    (h : List.Forall₂ (fun text s => assemble text = .ok s) texts sources)
    (hlast : texts.length = 1 ∨
      ∀ text ∈ texts.getLast?, ¬ Text.Blank (uncommented false text.toList)) :
    assembleAll ("\n;\n".intercalate texts) = .ok sources := by
  have hchars : List.Forall₂ (fun text s => assembleChars text = .ok s)
      (texts.map String.toList) sources := List.forall₂_map_left_iff.2 h
  have hpieces := forall₂_piecesFrom hchars (.inl rfl)
  have hseparator : ∀ piece ∈ piecesFrom [] (texts.map String.toList), ';' ∉ piece := by
    intro piece hpiece
    obtain ⟨s, hs⟩ := Walks.exists_made_iff.1 ⟨sources, hpieces⟩ piece hpiece
    exact hs.2
  have hkept : dropBlankLast (piecesFrom [] (texts.map String.toList)) =
      piecesFrom [] (texts.map String.toList) := by
    refine dropBlankLast_piecesFrom (hlast.imp (fun hone => ?_) fun hsolid chars hchars => ?_)
    · rw [List.length_map, hone]
    · rw [List.getLast?_map] at hchars
      obtain ⟨text, htext, rfl⟩ := Option.map_eq_some_iff.1 hchars
      exact hsolid text htext
  have htoList : ("\n;\n".intercalate texts).toList = joined (texts.map String.toList) := by
    rw [String.toList_intercalate]
    rfl
  unfold assembleAll sourceTexts
  rw [htoList, split_joined (by simpa using hne) hseparator, hkept, assembleTexts_walks.eq_ok_iff]
  exact hpieces.imp fun _ _ hpiece => hpiece.1

/-- Separators in comments, a comment that ends with the text, carriage returns of both kinds, and a
source with nothing but a comment. -/
theorem assembleAll_joined_comments :
    assemble "add<2> # a; b" = .ok [⟨12, 2⟩] ∧ assemble "# none;\r" = .ok [] ∧
      assemble "#7<\r\n3>#;" = .ok [⟨7, 3⟩] ∧
      assembleAll ("\n;\n".intercalate ["add<2> # a; b", "# none;\r", "#7<\r\n3>#;"]) =
        .ok [[⟨12, 2⟩], [], [⟨7, 3⟩]] := by
  have hfirst : assemble "add<2> # a; b" = .ok [⟨12, 2⟩] := by decide +kernel
  have hsecond : assemble "# none;\r" = .ok [] := by decide +kernel
  have hthird : assemble "#7<\r\n3>#;" = .ok [⟨7, 3⟩] := by decide +kernel
  have hsolid : ∀ text ∈ ["add<2> # a; b", "# none;\r", "#7<\r\n3>#;"].getLast?,
      ¬ Text.Blank (uncommented false text.toList) := by
    intro text htext hblank
    cases htext
    exact absurd (hblank '7' (by decide)) (by decide)
  refine ⟨hfirst, hsecond, hthird, ?_⟩
  exact assembleAll_joined (List.cons_ne_nil _ _) (.cons hfirst (.cons hsecond (.cons hthird .nil)))
    (.inr hsolid)

end WordMachine.Assembly
