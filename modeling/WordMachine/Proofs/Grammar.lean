import WordMachine.Proofs.Spellings

/-!
# The grammar of the assembler

What texts spell a source, and the proof that the assembler accepts just these and reads them as
what they spell (`assemble_eq_ok_iff_spells`). It is put together from the stages of the assembler:

* tokens: `Lexed` is the relation between a text and its tokens, and the lexer computes it
  (`tokensOf_eq_ok_iff`);
* spellings: a token spells an instruction if its name and its fields write it (`Spelling`), and a
  text spells a source (`Spells`) if its tokens spell the instructions (`spells_iff`);
* comments: `uncommented` cuts them out of the text as it stands. The assembler does it line by
  line, and drops a carriage return or adds a line feed on the way; that changes the blanks of a
  text, but nothing of what it spells (`Returned.agree`).
-/

namespace WordMachine.Assembly

/-! ## 1. Tokens -/

/-- Inside the fields of a token every blank counts as a space. -/
def spaced (c : Char) : Char := if Text.isBlank c then ' ' else c

/-- A character that may stand between `<` and `>`. -/
def InFields (c : Char) : Prop := Lexer.Plain c ∨ Text.isBlank c = true

/-- **The tokens of a text**: words and words with fields. Blanks have to stand after a word without
fields, unless the text ends there. -/
inductive Lexed : List Char → List (List Char) → Prop where
  | blanks {text : List Char} (h : Text.Blank text) : Lexed text []
  | name {lead name rest : List Char} {tokens : List (List Char)} (hlead : Text.Blank lead)
      (hname : IsWord name) (hrest : Text.Parted rest) (h : Lexed rest tokens) :
      Lexed (lead ++ (name ++ rest)) (name :: tokens)
  | fields {lead name inner rest : List Char} {tokens : List (List Char)} (hlead : Text.Blank lead)
      (hname : IsWord name) (hinner : ∀ c ∈ inner, InFields c) (h : Lexed rest tokens) :
      Lexed (lead ++ (name ++ '<' :: (inner ++ '>' :: rest)))
        ((name ++ '<' :: (inner.map spaced ++ ['>'])) :: tokens)

theorem Lexed.blank_cons {c : Char} (hc : Text.isBlank c = true) {text : List Char}
    {tokens : List (List Char)} (h : Lexed text tokens) : Lexed (c :: text) tokens := by
  cases h with
  | blanks h => exact .blanks (h.cons hc)
  | name hlead hname hrest h => exact .name (hlead.cons hc) hname hrest h
  | fields hlead hname hinner h => exact .fields (hlead.cons hc) hname hinner h

theorem Lexed.name_first {name rest : List Char} {tokens : List (List Char)} (hname : IsWord name)
    (hrest : Text.Parted rest) (h : Lexed rest tokens) : Lexed (name ++ rest) (name :: tokens) :=
  @Lexed.name [] _ _ _ .nil hname hrest h

theorem Lexed.fields_first {name inner rest : List Char} {tokens : List (List Char)}
    (hname : IsWord name) (hinner : ∀ c ∈ inner, InFields c) (h : Lexed rest tokens) :
    Lexed (name ++ '<' :: (inner ++ '>' :: rest))
      ((name ++ '<' :: (inner.map spaced ++ ['>'])) :: tokens) :=
  @Lexed.fields [] _ _ _ _ .nil hname hinner h

theorem char_cases (c : Char) :
    c = '<' ∨ c = '>' ∨ c = ';' ∨ Text.isBlank c = true ∨ Lexer.Plain c := by
  by_cases hopen : c = '<'
  · exact .inl hopen
  by_cases hclose : c = '>'
  · exact .inr (.inl hclose)
  by_cases hseparator : c = ';'
  · exact .inr (.inr (.inl hseparator))
  cases hblank : Text.isBlank c with
  | true => exact .inr (.inr (.inr (.inl rfl)))
  | false => exact .inr (.inr (.inr (.inr ⟨hopen, hclose, hblank, hseparator⟩)))

namespace Lexer

/-- Between two tokens, or inside a name. -/
def naming (finished : List (List Char)) (name : List Char) : Lexer := ⟨finished, name.reverse, false⟩

/-- Inside the fields of a token. -/
def inside (finished : List (List Char)) (name inner : List Char) : Lexer :=
  ⟨finished, (name ++ '<' :: inner).reverse, true⟩

section Read

variable {finished : List (List Char)} {name inner : List Char} {c : Char}

theorem naming_plain (h : Plain c) :
    (naming finished name).read c = .ok (naming finished (name ++ [c])) := by
  rw [read_plain _ h]
  simp [naming, push]

theorem read_blank_outside (h : Text.isBlank c = true) :
    (naming finished name).read c = .ok (naming finished name).close := by
  have hopen : c ≠ '<' := by rintro rfl; exact absurd h (by decide)
  have hclose : c ≠ '>' := by rintro rfl; exact absurd h (by decide)
  unfold read
  rw [if_neg hopen, if_neg hclose, if_pos h]
  rfl

theorem between_blank (h : Text.isBlank c = true) :
    (naming finished []).read c = .ok (naming finished []) := read_blank_outside h

theorem naming_blank (h : Text.isBlank c = true) (hname : name ≠ []) :
    (naming finished name).read c = .ok (naming (name :: finished) []) := by
  rw [read_blank_outside h]
  simp [naming, close, hname]

theorem naming_open (hname : name ≠ []) :
    (naming finished name).read '<' = .ok (inside finished name []) := by
  simp [read, naming, inside, push, hname]

theorem naming_refuses (h : (c = '<' ∧ name = []) ∨ c = '>' ∨ c = ';') :
    ∃ f, (naming finished name).read c = .error f := by
  rcases h with ⟨rfl, rfl⟩ | rfl | rfl
  · exact ⟨_, rfl⟩
  · exact ⟨_, rfl⟩
  · exact ⟨_, rfl⟩

theorem inside_keeps (h : InFields c) :
    (inside finished name inner).read c = .ok (inside finished name (inner ++ [spaced c])) := by
  rcases h with h | h
  · rw [read_plain _ h]
    simp [inside, push, spaced, h.2.2.1]
  · have hopen : c ≠ '<' := by rintro rfl; exact absurd h (by decide)
    have hclose : c ≠ '>' := by rintro rfl; exact absurd h (by decide)
    simp [read, inside, push, spaced, h, hopen, hclose]

theorem inside_close : (inside finished name inner).read '>' =
    .ok (naming ((name ++ '<' :: (inner ++ ['>'])) :: finished) []) := by
  simp [read, inside, naming, push, close]

theorem inside_refuses (h : c = '<' ∨ c = ';') :
    ∃ f, (inside finished name inner).read c = .error f := by
  rcases h with rfl | rfl
  · exact ⟨_, rfl⟩
  · exact ⟨_, rfl⟩

end Read

/-- The tokens when the text ends here. -/
def tokens (s : Lexer) : Except LexicalFault (List (List Char)) :=
  if s.inFields then .error (.unterminated s.shown) else .ok s.close.finished.reverse

/-- The tokens of the text that is read from here on, and the ones before it. -/
def tokensFrom (s : Lexer) (text : List Char) : Except LexicalFault (List (List Char)) :=
  (s.readAll text).bind tokens

theorem tokensFrom_nil (s : Lexer) : s.tokensFrom [] = s.tokens := rfl

theorem tokensFrom_of_ok {s s' : Lexer} {c : Char} (h : s.read c = .ok s') (text : List Char) :
    s.tokensFrom (c :: text) = s'.tokensFrom text := by
  unfold tokensFrom
  rw [readAll, h]

theorem tokensFrom_of_error {s : Lexer} {c : Char} (h : ∃ f, s.read c = .error f)
    (text : List Char) : ∃ f, s.tokensFrom (c :: text) = .error f := by
  obtain ⟨f, h⟩ := h
  refine ⟨f, ?_⟩
  unfold tokensFrom
  rw [readAll, h]
  rfl

theorem tokens_naming (finished : List (List Char)) (name : List Char) :
    (naming finished name).tokens =
      .ok (finished.reverse ++ if name = [] then [] else [name]) := by
  by_cases hname : name = []
  · simp [tokens, naming, close, hname]
  · simp [tokens, naming, close, hname]

theorem tokens_inside (finished : List (List Char)) (name inner : List Char) :
    ∃ f, (inside finished name inner).tokens = .error f := ⟨_, rfl⟩

end Lexer

theorem tokensOf_eq (text : List Char) : tokensOf text = (Lexer.naming [] []).tokensFrom text := by
  unfold tokensOf Lexer.tokensFrom
  show _ = ((Lexer.readAll {} text).bind Lexer.tokens)
  cases Lexer.readAll {} text <;> rfl

/-- **What the lexer makes of a text is related to it.** There is one part for each kind of state, in
which some of the token at hand is read already. -/
structure Lexes (text : List Char) : Prop where
  naming : ∀ {finished name tokens}, (∀ c ∈ name, Lexer.Plain c) →
    (Lexer.naming finished name).tokensFrom text = .ok tokens →
    ∃ more, tokens = finished.reverse ++ more ∧ Lexed (name ++ text) more
  inside : ∀ {finished name inner tokens}, IsWord name → (∀ c ∈ inner, InFields c) →
    (Lexer.inside finished name (inner.map spaced)).tokensFrom text = .ok tokens →
    ∃ more, tokens = finished.reverse ++ more ∧ Lexed (name ++ '<' :: (inner ++ text)) more

theorem Lexes.nil : Lexes [] where
  naming := by
    intro finished name tokens hname h
    rw [Lexer.tokensFrom_nil, Lexer.tokens_naming] at h
    cases h
    refine ⟨_, rfl, ?_⟩
    by_cases hne : name = []
    · rw [if_pos hne, hne]
      exact .blanks .nil
    · rw [if_neg hne]
      exact .name_first ⟨hne, hname⟩ (by simp [Text.Parted]) (.blanks .nil)
  inside := by
    intro finished name inner tokens _ _ h
    obtain ⟨f, hf⟩ := Lexer.tokens_inside finished name (inner.map spaced)
    rw [Lexer.tokensFrom_nil, hf] at h
    cases h

theorem forall_mem_concat {p : Char → Prop} {text : List Char} (h : ∀ c ∈ text, p c) {c : Char}
    (hc : p c) : ∀ d ∈ text ++ [c], p d := by
  intro d hd
  rcases List.mem_append.1 hd with hd | hd
  · exact h d hd
  · rw [List.mem_singleton.1 hd]
    exact hc

section Cons

variable {text : List Char} (ih : Lexes text) {c : Char} {finished : List (List Char)}
  {name inner : List Char} {tokens : List (List Char)}

include ih

/-- A blank ends the name at hand, if there is one. -/
theorem Lexes.cons_blank (hc : Text.isBlank c = true) (hname : ∀ c ∈ name, Lexer.Plain c)
    (h : (Lexer.naming finished name).tokensFrom (c :: text) = .ok tokens) :
    ∃ more, tokens = finished.reverse ++ more ∧ Lexed (name ++ c :: text) more := by
  by_cases hne : name = []
  · subst hne
    rw [Lexer.tokensFrom_of_ok (Lexer.between_blank hc)] at h
    obtain ⟨more, htokens, hlexed⟩ := ih.naming (by simp) h
    exact ⟨more, htokens, hlexed.blank_cons hc⟩
  · rw [Lexer.tokensFrom_of_ok (Lexer.naming_blank hc hne)] at h
    obtain ⟨more, htokens, hlexed⟩ := ih.naming (by simp) h
    have hparted : Text.Parted (c :: text) := by
      intro d hd
      cases hd
      exact hc
    exact ⟨name :: more, by simpa using htokens,
      .name_first ⟨hne, hname⟩ hparted (hlexed.blank_cons hc)⟩

theorem Lexes.cons_naming (hname : ∀ c ∈ name, Lexer.Plain c)
    (h : (Lexer.naming finished name).tokensFrom (c :: text) = .ok tokens) :
    ∃ more, tokens = finished.reverse ++ more ∧ Lexed (name ++ c :: text) more := by
  have hrefused : ¬ ((c = '<' ∧ name = []) ∨ c = '>' ∨ c = ';') := by
    intro hc
    obtain ⟨f, hf⟩ := Lexer.tokensFrom_of_error (Lexer.naming_refuses hc) text
    rw [hf] at h
    cases h
  rcases char_cases c with rfl | rfl | rfl | hblank | hplain
  · have hne : name ≠ [] := fun hne => hrefused (.inl ⟨rfl, hne⟩)
    rw [Lexer.tokensFrom_of_ok (Lexer.naming_open hne)] at h
    exact @Lexes.inside _ ih finished name [] tokens ⟨hne, hname⟩ (by simp) h
  · exact absurd (.inr (.inl rfl)) hrefused
  · exact absurd (.inr (.inr rfl)) hrefused
  · exact ih.cons_blank hblank hname h
  · rw [Lexer.tokensFrom_of_ok (Lexer.naming_plain hplain)] at h
    have hmore := ih.naming (forall_mem_concat hname hplain) h
    rw [List.append_assoc] at hmore
    exact hmore

theorem Lexes.cons_inside (hname : IsWord name) (hinner : ∀ c ∈ inner, InFields c)
    (h : (Lexer.inside finished name (inner.map spaced)).tokensFrom (c :: text) = .ok tokens) :
    ∃ more, tokens = finished.reverse ++ more ∧
      Lexed (name ++ '<' :: (inner ++ c :: text)) more := by
  have hrefused : ¬ (c = '<' ∨ c = ';') := by
    intro hc
    obtain ⟨f, hf⟩ := Lexer.tokensFrom_of_error (Lexer.inside_refuses hc) text
    rw [hf] at h
    cases h
  have hkeeps : InFields c → ∃ more, tokens = finished.reverse ++ more ∧
      Lexed (name ++ '<' :: (inner ++ c :: text)) more := by
    intro hc
    rw [Lexer.tokensFrom_of_ok (Lexer.inside_keeps hc)] at h
    have hmore := ih.inside hname (forall_mem_concat hinner hc) (by rw [List.map_append]; exact h)
    rw [List.append_assoc] at hmore
    exact hmore
  rcases char_cases c with rfl | rfl | rfl | hblank | hplain
  · exact absurd (.inl rfl) hrefused
  · rw [Lexer.tokensFrom_of_ok Lexer.inside_close] at h
    obtain ⟨more, htokens, hlexed⟩ := ih.naming (by simp) h
    exact ⟨_ :: more, by simpa using htokens, .fields_first hname hinner hlexed⟩
  · exact absurd (.inr rfl) hrefused
  · exact hkeeps (.inr hblank)
  · exact hkeeps (.inl hplain)

end Cons

theorem lexes (text : List Char) : Lexes text := by
  induction text with
  | nil => exact .nil
  | cons c text ih => exact ⟨ih.cons_naming, ih.cons_inside⟩

/-! Conversely, the lexer finds the tokens that a text is put together from. -/

section Lexed

variable {finished : List (List Char)} {name inner rest : List Char}

theorem tokensFrom_blanks {lead : List Char} (h : Text.Blank lead) :
    (Lexer.naming finished []).tokensFrom (lead ++ rest) =
      (Lexer.naming finished []).tokensFrom rest := by
  induction lead with
  | nil => rfl
  | cons c lead ih =>
      rw [List.cons_append, Lexer.tokensFrom_of_ok (Lexer.between_blank (h c List.mem_cons_self)),
        ih fun d hd => h d (List.mem_cons_of_mem _ hd)]

theorem tokensFrom_plain {more : List Char} (h : ∀ c ∈ more, Lexer.Plain c) :
    (Lexer.naming finished name).tokensFrom (more ++ rest) =
      (Lexer.naming finished (name ++ more)).tokensFrom rest := by
  induction more generalizing name with
  | nil => rw [List.append_nil, List.nil_append]
  | cons c more ih =>
      rw [List.cons_append, Lexer.tokensFrom_of_ok (Lexer.naming_plain (h c List.mem_cons_self)),
        ih fun d hd => h d (List.mem_cons_of_mem _ hd), List.append_assoc, List.singleton_append]

theorem tokensFrom_inside {more : List Char} (h : ∀ c ∈ more, InFields c) :
    (Lexer.inside finished name inner).tokensFrom (more ++ rest) =
      (Lexer.inside finished name (inner ++ more.map spaced)).tokensFrom rest := by
  induction more generalizing inner with
  | nil => rw [List.map_nil, List.append_nil, List.nil_append]
  | cons c more ih =>
      rw [List.cons_append, Lexer.tokensFrom_of_ok (Lexer.inside_keeps (h c List.mem_cons_self)),
        ih fun d hd => h d (List.mem_cons_of_mem _ hd), List.append_assoc, List.singleton_append,
        List.map_cons]

/-- A name that can end does end. -/
theorem tokensFrom_parted (hne : name ≠ []) (h : Text.Parted rest) :
    (Lexer.naming finished name).tokensFrom rest =
      (Lexer.naming (name :: finished) []).tokensFrom rest := by
  cases rest with
  | nil => simp [Lexer.tokensFrom_nil, Lexer.tokens_naming, hne]
  | cons c rest =>
      rw [Lexer.tokensFrom_of_ok (Lexer.naming_blank (h c rfl) hne),
        Lexer.tokensFrom_of_ok (Lexer.between_blank (h c rfl))]

end Lexed

theorem Lexed.tokensFrom {text : List Char} {tokens : List (List Char)} (h : Lexed text tokens)
    (finished : List (List Char)) :
    (Lexer.naming finished []).tokensFrom text = .ok (finished.reverse ++ tokens) := by
  induction h generalizing finished with
  | @blanks text h =>
      rw [← List.append_nil text, tokensFrom_blanks h, Lexer.tokensFrom_nil, Lexer.tokens_naming,
        if_pos rfl]
  | @name lead name rest tokens hlead hname hrest _ ih =>
      rw [tokensFrom_blanks hlead, tokensFrom_plain hname.plain, List.nil_append,
        tokensFrom_parted hname.ne_nil hrest, ih]
      simp
  | @fields lead name inner rest tokens hlead hname hinner _ ih =>
      rw [tokensFrom_blanks hlead, tokensFrom_plain hname.plain, List.nil_append,
        Lexer.tokensFrom_of_ok (Lexer.naming_open hname.ne_nil), tokensFrom_inside hinner,
        Lexer.tokensFrom_of_ok Lexer.inside_close, ih]
      simp

/-- **The lexer finds the tokens of a text.** -/
theorem tokensOf_eq_ok_iff {text : List Char} {tokens : List (List Char)} :
    tokensOf text = .ok tokens ↔ Lexed text tokens := by
  rw [tokensOf_eq]
  constructor
  · intro h
    obtain ⟨more, rfl, hlexed⟩ := (lexes text).naming (by simp) h
    exact hlexed
  · exact fun h => h.tokensFrom []

/-! ## 2. Spellings -/

/-- **A token spells an instruction**: its name and its fields write it. Brackets without a field in
them are like no brackets. -/
inductive Spelling : List Char → Instruction → Prop where
  | name {name : List Char} {i : Instruction} (h : Means name [] i) : Spelling name i
  | fields {name inner : List Char} {fields : List (List Char)} {i : Instruction}
      (hinner : Text.HasFields inner fields) (h : Means name fields i) :
      Spelling (name ++ '<' :: (inner ++ ['>'])) i

/-- **A text spells a source**: one token after the other, with blanks between them. After a token
that ends with `>` there need not be a blank. -/
inductive Spells : List Char → Source → Prop where
  | blanks {text : List Char} (h : Text.Blank text) : Spells text []
  | token {lead token rest : List Char} {i : Instruction} {s : Source} (hlead : Text.Blank lead)
      (htoken : Spelling token i) (hrest : token.getLast? = some '>' ∨ Text.Parted rest)
      (h : Spells rest s) : Spells (lead ++ (token ++ rest)) (i :: s)

theorem read_spaced (f : Text.Fields) (c : Char) : f.read (spaced c) = f.read c := by
  unfold spaced
  cases hc : Text.isBlank c with
  | true =>
      rw [if_pos rfl, Text.Fields.read_blank hc]
      rfl
  | false => rfl

theorem foldl_read_spaced (text : List Char) (f : Text.Fields) :
    (text.map spaced).foldl Text.Fields.read f = text.foldl Text.Fields.read f := by
  induction text generalizing f with
  | nil => rfl
  | cons c text ih => rw [List.map_cons, List.foldl_cons, List.foldl_cons, read_spaced, ih]

theorem fields_map_spaced (text : List Char) : Text.fields (text.map spaced) = Text.fields text := by
  unfold Text.fields
  rw [foldl_read_spaced]

theorem spelled_name_iff {name : List Char} {i : Instruction} (h : ∀ c ∈ name, Lexer.Plain c) :
    spelled name = .ok i ↔ Means name [] i := by
  rw [spelled_name fun c hc => (h c hc).1, instructionOf_eq_ok_iff]

theorem spelled_fields_iff {name inner : List Char} {i : Instruction}
    (h : ∀ c ∈ name, Lexer.Plain c) :
    spelled (name ++ '<' :: (inner.map spaced ++ ['>'])) = .ok i ↔
      Means name (Text.fields inner) i := by
  rw [spelled_fields fun c hc => (h c hc).1, fields_map_spaced, instructionOf_eq_ok_iff]

/-- What stands between the words of some fields. -/
theorem inFields_of_hasFields {inner : List Char} {fields : List (List Char)}
    (h : Text.HasFields inner fields) (hwords : ∀ field ∈ fields, IsWord field) :
    ∀ c ∈ inner, InFields c := by
  induction h with
  | blanks h => exact fun c hc => .inr (h c hc)
  | @word lead word rest fields hlead _ _ _ _ ih =>
      intro c hc
      rcases List.mem_append.1 hc with hc | hc
      · exact .inr (hlead c hc)
      · rcases List.mem_append.1 hc with hc | hc
        · exact .inl ((hwords word List.mem_cons_self).plain c hc)
        · exact ih (fun field hfield => hwords field (List.mem_cons_of_mem _ hfield)) c hc

theorem Lexed.spells {text : List Char} {tokens : List (List Char)} (h : Lexed text tokens) :
    ∀ {s : Source}, List.Forall₂ (fun token i => spelled token = .ok i) tokens s → Spells text s := by
  induction h with
  | blanks h =>
      intro s hs
      cases hs
      exact .blanks h
  | @name lead name rest tokens hlead hname hrest _ ih =>
      intro s hs
      cases hs with
      | cons hi hs =>
          exact .token hlead (.name ((spelled_name_iff hname.plain).1 hi)) (.inr hrest) (ih hs)
  | @fields lead name inner rest tokens hlead hname hinner _ ih =>
      intro s hs
      cases hs with
      | cons hi hs =>
          have htoken : Spelling (name ++ '<' :: (inner ++ ['>'])) _ :=
            .fields (Text.fields_eq_iff.1 rfl) ((spelled_fields_iff hname.plain).1 hi)
          have hlast : (name ++ '<' :: (inner ++ ['>'])).getLast? = some '>' := by
            rw [← List.cons_append, ← List.append_assoc, List.getLast?_concat]
          have hspells := Spells.token hlead htoken (.inl hlast) (ih hs)
          simpa using hspells

theorem Spells.exists_lexed {text : List Char} {s : Source} (h : Spells text s) :
    ∃ tokens, Lexed text tokens ∧
      List.Forall₂ (fun token i => spelled token = .ok i) tokens s := by
  induction h with
  | blanks h => exact ⟨[], .blanks h, .nil⟩
  | @token lead token rest i s hlead htoken hrest _ ih =>
      obtain ⟨tokens, hlexed, hs⟩ := ih
      cases htoken with
      | name h =>
          have hword := h.isWord.1
          -- no name ends with `>`
          have hparted : Text.Parted rest := by
            refine hrest.resolve_left fun hlast => ?_
            exact (hword.plain '>' (List.mem_of_getLast? hlast)).2.1 rfl
          exact ⟨token :: tokens, .name hlead hword hparted hlexed,
            .cons ((spelled_name_iff hword.plain).2 h) hs⟩
      | @fields name inner fields _ hinner h =>
          obtain ⟨hword, hwords⟩ := h.isWord
          have hi : spelled (name ++ '<' :: (inner.map spaced ++ ['>'])) = .ok i := by
            rw [spelled_fields_iff hword.plain, Text.fields_eq_iff.2 hinner]
            exact h
          have hlexed' := Lexed.fields hlead hword (inFields_of_hasFields hinner hwords) hlexed
          refine ⟨_ :: tokens, ?_, .cons hi hs⟩
          simpa using hlexed'

/-- **A text spells a source if and only if its tokens spell the instructions.** -/
theorem spells_iff {text : List Char} {s : Source} :
    Spells text s ↔ ∃ tokens, tokensOf text = .ok tokens ∧
      List.Forall₂ (fun token i => spelled token = .ok i) tokens s := by
  constructor
  · intro h
    obtain ⟨tokens, hlexed, hs⟩ := h.exists_lexed
    exact ⟨tokens, tokensOf_eq_ok_iff.2 hlexed, hs⟩
  · rintro ⟨tokens, htokens, hs⟩
    exact (tokensOf_eq_ok_iff.1 htokens).spells hs

/-! ## 3. Comments -/

/-- A text without its comments: without each `#` that none of `0` to `9` follows, and all up to the
end of its line. -/
def uncommented : (inComment : Bool) → List Char → List Char
  | _, [] => []
  | true, c :: rest => if c = '\n' then c :: uncommented false rest else uncommented true rest
  | false, c :: rest =>
    if c = '#' ∧ rest.head?.all (fun d => !('0' ≤ d && d ≤ '9')) = true then uncommented true rest
    else c :: uncommented false rest

theorem all_head?_eq (text : List Char) :
    text.head?.all (fun d => !('0' ≤ d && d ≤ '9')) = !startsWithDigit text := by
  cases text <;> rfl

/-- The assembler looks for a digit in the same place. -/
theorem uncommented_cons (c : Char) (text : List Char) :
    uncommented false (c :: text) =
      if c = '#' ∧ startsWithDigit text = false then uncommented true text
      else c :: uncommented false text := by
  rw [uncommented, all_head?_eq]
  simp only [Bool.not_eq_true']

/-- **The second text has the characters of the first one**, but there may be a carriage return before
a line feed, and a line feed at the very end may be missing. -/
inductive Returned : List Char → List Char → Prop where
  | nil : Returned [] []
  | feed : Returned ['\n'] []
  | cons {c : Char} {text text' : List Char} (h : Returned text text') :
      Returned (c :: text) (c :: text')
  | carriage {text text' : List Char} (h : Returned text text') :
      Returned ('\n' :: text) ('\r' :: '\n' :: text')

/-- **The lexer is at the same place**: the tokens that are finished spell the same, the name at hand
is the same, and so are the fields that are read. -/
inductive Lexer.Alike : Lexer → Lexer → Prop where
  | naming {finished finished' : List (List Char)} {name : List Char}
      (hfinished : finished.map spelled = finished'.map spelled) (hname : ∀ c ∈ name, c ≠ '<') :
      Alike (naming finished name) (naming finished' name)
  | inside {finished finished' : List (List Char)} {name inner inner' : List Char}
      (hfinished : finished.map spelled = finished'.map spelled) (hname : ∀ c ∈ name, c ≠ '<')
      (hinner : inner.foldl Text.Fields.read {} = inner'.foldl Text.Fields.read {}) :
      Alike (inside finished name inner) (inside finished' name inner')

namespace Lexer

/-- A blank ends a name; inside the fields it goes to the fields. -/
theorem Alike.read_blank {s s' : Lexer} (h : Alike s s') {c c' : Char}
    (hc : Text.isBlank c = true) (hc' : Text.isBlank c' = true) :
    ∃ r r', s.read c = .ok r ∧ s'.read c' = .ok r' ∧ Alike r r' := by
  have hspaced : spaced c = ' ' := by rw [spaced, if_pos hc]
  have hspaced' : spaced c' = ' ' := by rw [spaced, if_pos hc']
  cases h with
  | @naming finished finished' name hfinished hname =>
      by_cases hne : name = []
      · subst hne
        exact ⟨_, _, between_blank hc, between_blank hc', .naming hfinished hname⟩
      · refine ⟨_, _, naming_blank hc hne, naming_blank hc' hne, .naming ?_ (by simp)⟩
        rw [List.map_cons, List.map_cons, hfinished]
  | inside hfinished hname hinner =>
      refine ⟨_, _, inside_keeps (.inr hc), inside_keeps (.inr hc'), .inside hfinished hname ?_⟩
      rw [hspaced, hspaced', List.foldl_append, List.foldl_append, hinner]

theorem Alike.read_plain {s s' : Lexer} (h : Alike s s') {c : Char} (hc : Plain c) :
    ∃ r r', s.read c = .ok r ∧ s'.read c = .ok r' ∧ Alike r r' := by
  cases h with
  | naming hfinished hname =>
      exact ⟨_, _, naming_plain hc, naming_plain hc,
        .naming hfinished (forall_mem_concat hname hc.1)⟩
  | inside hfinished hname hinner =>
      refine ⟨_, _, inside_keeps (.inl hc), inside_keeps (.inl hc), .inside hfinished hname ?_⟩
      rw [List.foldl_append, List.foldl_append, hinner]

/-- **Both read a character, or both refuse it.** -/
theorem Alike.read {s s' : Lexer} (h : Alike s s') (c : Char) :
    (∃ r r', s.read c = .ok r ∧ s'.read c = .ok r' ∧ Alike r r') ∨
      ((∃ f, s.read c = .error f) ∧ ∃ f, s'.read c = .error f) := by
  rcases char_cases c with rfl | rfl | rfl | hblank | hplain
  · cases h with
    | @naming finished finished' name hfinished hname =>
        by_cases hne : name = []
        · exact .inr ⟨naming_refuses (.inl ⟨rfl, hne⟩), naming_refuses (.inl ⟨rfl, hne⟩)⟩
        · exact .inl ⟨_, _, naming_open hne, naming_open hne, .inside hfinished hname rfl⟩
    | inside => exact .inr ⟨inside_refuses (.inl rfl), inside_refuses (.inl rfl)⟩
  · cases h with
    | naming => exact .inr ⟨naming_refuses (.inr (.inl rfl)), naming_refuses (.inr (.inl rfl))⟩
    | inside hfinished hname hinner =>
        refine .inl ⟨_, _, inside_close, inside_close, .naming ?_ (by simp)⟩
        rw [List.map_cons, List.map_cons, hfinished, spelled_fields hname, spelled_fields hname,
          Text.fields, Text.fields, hinner]
  · cases h with
    | naming => exact .inr ⟨naming_refuses (.inr (.inr rfl)), naming_refuses (.inr (.inr rfl))⟩
    | inside => exact .inr ⟨inside_refuses (.inr rfl), inside_refuses (.inr rfl)⟩
  · exact .inl (h.read_blank hblank hblank)
  · exact .inl (h.read_plain hplain)

/-- A second blank does nothing more. -/
theorem Alike.read_blank_twice {s s' : Lexer} (h : Alike s s') {c c' d : Char}
    (hc : Text.isBlank c = true) (hc' : Text.isBlank c' = true) (hd : Text.isBlank d = true) :
    ∃ r m r', s.read c = .ok r ∧ s'.read c' = .ok m ∧ m.read d = .ok r' ∧ Alike r r' := by
  have hspaced : ∀ {c : Char}, Text.isBlank c = true → spaced c = ' ' := fun h => if_pos h
  cases h with
  | @naming finished finished' name hfinished hname =>
      by_cases hne : name = []
      · subst hne
        exact ⟨_, _, _, between_blank hc, between_blank hc', between_blank hd,
          .naming hfinished hname⟩
      · refine ⟨_, _, _, naming_blank hc hne, naming_blank hc' hne, between_blank hd,
          .naming ?_ (by simp)⟩
        rw [List.map_cons, List.map_cons, hfinished]
  | @inside finished finished' name inner inner' hfinished hname hinner =>
      refine ⟨_, _, _, inside_keeps (.inr hc), inside_keeps (.inr hc'), inside_keeps (.inr hd),
        .inside hfinished hname ?_⟩
      have hclose : ∀ f : Text.Fields, (f.read ' ').read ' ' = f.read ' ' := by
        intro f
        have hblank : Text.isBlank ' ' = true := by decide
        rw [Text.Fields.read_blank hblank, Text.Fields.read_blank hblank, Text.Fields.close_close]
      simp only [hspaced hc, hspaced hc', hspaced hd, List.foldl_append, List.foldl_cons,
        List.foldl_nil, hclose, hinner]

/-- **What comes out in the end spells the same**, or is refused. -/
inductive Agree : Except LexicalFault (List (List Char)) → Except LexicalFault (List (List Char)) →
    Prop where
  | ok {tokens tokens' : List (List Char)} (h : tokens.map spelled = tokens'.map spelled) :
      Agree (.ok tokens) (.ok tokens')
  | error {f f' : LexicalFault} : Agree (.error f) (.error f')

theorem Alike.tokens {s s' : Lexer} (h : Alike s s') : Agree s.tokens s'.tokens := by
  cases h with
  | naming hfinished =>
      rw [tokens_naming, tokens_naming]
      exact .ok (by rw [List.map_append, List.map_append, List.map_reverse, List.map_reverse, hfinished])
  | inside => exact .error

/-- A line feed at the end makes no difference. -/
theorem Alike.tokens_feed {s s' : Lexer} (h : Alike s s') :
    Agree (s.tokensFrom ['\n']) s'.tokens := by
  have hblank : Text.isBlank '\n' = true := by decide
  cases h with
  | @naming finished finished' name hfinished hname =>
      by_cases hne : name = []
      · subst hne
        rw [tokensFrom_of_ok (between_blank hblank)]
        exact (Alike.naming hfinished hname).tokens
      · rw [tokensFrom_of_ok (naming_blank hblank hne), tokensFrom_nil, tokens_naming,
          tokens_naming]
        exact .ok (by simp [hfinished, hne])
  | inside =>
      rw [tokensFrom_of_ok (inside_keeps (.inr hblank))]
      exact .error

end Lexer

/-- **A carriage return before a line feed, or a line feed at the end, changes nothing.** -/
theorem Returned.agree {text text' : List Char} (h : Returned text text') :
    ∀ {s s' : Lexer}, s.Alike s' → Lexer.Agree (s.tokensFrom text) (s'.tokensFrom text') := by
  induction h with
  | nil => exact fun hs => hs.tokens
  | feed => exact fun hs => hs.tokens_feed
  | @cons c text text' _ ih =>
      intro s s' hs
      rcases hs.read c with ⟨r, r', hr, hr', hrr⟩ | ⟨hr, hr'⟩
      · rw [Lexer.tokensFrom_of_ok hr, Lexer.tokensFrom_of_ok hr']
        exact ih hrr
      · obtain ⟨f, hf⟩ := Lexer.tokensFrom_of_error hr text
        obtain ⟨f', hf'⟩ := Lexer.tokensFrom_of_error hr' text'
        rw [hf, hf']
        exact .error
  | carriage _ ih =>
      intro s s' hs
      have hfeed : Text.isBlank '\n' = true := by decide
      have hreturn : Text.isBlank '\r' = true := by decide
      obtain ⟨r, m, r', hr, hm, hr', hrr⟩ := hs.read_blank_twice hfeed hreturn hfeed
      rw [Lexer.tokensFrom_of_ok hr, Lexer.tokensFrom_of_ok hm, Lexer.tokensFrom_of_ok hr']
      exact ih hrr

/-! The assembler cuts the comments out line by line. -/

/-- The first line starts as the text does, as far as digits go. -/
theorem startsWithDigit_line {text line : List Char} {more : List (List Char)}
    (h : Text.lines text = line :: more) : startsWithDigit line = startsWithDigit text := by
  cases text with
  | nil => cases h
  | cons c text =>
      rcases Text.lines_cons_cases c text with
        ⟨rfl, hlines⟩ | ⟨rfl, ⟨rest, rfl⟩, hlines⟩ | ⟨-, rfl, hlines⟩ | ⟨-, line', more', -, hlines⟩
      · rw [hlines] at h
        cases h
        rfl
      · rw [hlines] at h
        cases h
        rfl
      · rw [hlines] at h
        cases h
        rfl
      · rw [hlines] at h
        cases h
        rfl

theorem Returned.of_feed {text text' : List Char} (h : Returned ('\n' :: text) ('\n' :: text')) :
    Returned text text' := by
  generalize hleft : '\n' :: text = left at h
  generalize hright : '\n' :: text' = right at h
  cases h with
  | nil => cases hleft
  | feed => cases hright
  | cons h =>
      cases hleft
      cases hright
      exact h
  | carriage h => exact absurd (List.cons.inj hright).1 (by decide)

theorem stripComments_feed (text : List Char) :
    stripComments ('\n' :: text) = '\n' :: stripComments text := by
  rw [stripComments_of_lines rfl, stripComments_of_lines rfl]
  rfl

/-- **What the assembler makes of a text is the text without its comments**, but for the ends of the
lines. The second part is about a text that starts inside a comment. -/
theorem returned_uncommented (text : List Char) :
    Returned (stripComments text) (uncommented false text) ∧
      ∀ {line more}, Text.lines text = line :: more →
        Returned ('\n' :: Text.unlines (more.map cutComment)) (uncommented true text) := by
  induction text with
  | nil => exact ⟨.nil, fun h => by cases h⟩
  | cons c text ih =>
      obtain ⟨ihtext, ihcomment⟩ := ih
      rcases Text.lines_cons_cases c text with
        ⟨rfl, hlines⟩ | ⟨rfl, ⟨rest, rfl⟩, hlines⟩ | ⟨hfeed, rfl, hlines⟩ |
          ⟨hfeed, line, more, htext, hlines⟩
      -- an end of line, also one of two characters
      · rw [stripComments_feed]
        refine ⟨.cons ihtext, fun h => ?_⟩
        rw [hlines] at h
        cases h
        rw [← stripComments_of_lines rfl]
        exact .cons ihtext
      · rw [stripComments_of_lines hlines, ← stripComments_of_lines rfl, stripComments_feed]
        rw [stripComments_feed] at ihtext
        refine ⟨.carriage ihtext.of_feed, fun h => ?_⟩
        rw [hlines] at h
        exact ihcomment h
      -- the last character, and one with others after it on its line
      · refine ⟨?_, fun h => ?_⟩
        · rw [stripComments_of_lines hlines, List.map_singleton, Text.unlines_cons, cutComment_cons,
            uncommented_cons]
          split
          · exact .feed
          · exact .cons .feed
        · rw [hlines] at h
          cases h
          rw [uncommented, if_neg hfeed]
          exact .feed
      · refine ⟨?_, fun h => ?_⟩
        · have hstrip : stripComments text =
              cutComment line ++ '\n' :: Text.unlines (more.map cutComment) := by
            rw [stripComments_of_lines htext, List.map_cons, Text.unlines_cons]
          rw [stripComments_of_lines hlines, List.map_cons, Text.unlines_cons, cutComment_cons,
            startsWithDigit_line htext, uncommented_cons]
          split
          · exact ihcomment htext
          · rw [List.cons_append, ← hstrip]
            exact .cons ihtext
        · rw [hlines] at h
          cases h
          rw [uncommented, if_neg hfeed]
          exact ihcomment htext

/-! ## 4. The whole assembler -/

theorem forall₂_spelled_iff {tokens : List (List Char)} {s : Source} :
    List.Forall₂ (fun token i => spelled token = .ok i) tokens s ↔
      tokens.map spelled = s.map Except.ok := by
  rw [← List.forall₂_eq_eq_eq, List.forall₂_map_left_iff, List.forall₂_map_right_iff]

theorem assembleChars_eq_ok_iff {text : List Char} {s : Source} :
    assembleChars text = .ok s ↔ ∃ tokens, tokensOf (stripComments text) = .ok tokens ∧
      tokens.map spelled = s.map Except.ok := by
  unfold assembleChars tokenize
  cases tokensOf (stripComments text) with
  | error f => simp
  | ok tokens =>
      simp only [Except.ok.injEq, exists_eq_left']
      rw [assembleTokens_walks.eq_ok_iff, forall₂_spelled_iff]

/-- **The assembler accepts just the texts that spell a source once their comments are cut out**, and
it gives that source. -/
theorem assemble_eq_ok_iff_spells (text : String) (s : Source) :
    assemble text = .ok s ↔ Spells (uncommented false text.toList) s := by
  have hagree : Lexer.Agree (tokensOf (stripComments text.toList))
      (tokensOf (uncommented false text.toList)) := by
    rw [tokensOf_eq, tokensOf_eq]
    exact (returned_uncommented text.toList).1.agree (.naming rfl (by simp))
  unfold assemble
  rw [assembleChars_eq_ok_iff, spells_iff]
  simp only [forall₂_spelled_iff]
  generalize tokensOf (stripComments text.toList) = stripped at hagree
  generalize tokensOf (uncommented false text.toList) = whole at hagree
  cases hagree with
  | ok h => simp [h]
  | error => simp

/-- No blank is needed after `>`, a `+` may stand before a number, and inside a comment `#8` is just a
part of it. -/
example : assemble "add<+02>#7<>call<1 2 3> # and #8\nis-zero" =
    .ok [⟨12, 2⟩, ⟨7, 0⟩, ⟨1, 0x0321⟩, ⟨23, 0⟩] := by decide +kernel

end WordMachine.Assembly
