import WordMachine.Assembly.Spelling
import WordMachine.Text.Split

/-!
# Assembling

A text is assembled into one source, or cut at each `;` and assembled into several. Tokens come
before spellings: a text that has no tokens is refused before any instruction is looked at.
-/

namespace WordMachine.Assembly

/-- Why a text is no source. -/
inductive SourceFault where
  | lexical (fault : LexicalFault)
  | instruction (position : Nat) (token : String) (fault : SpellingFault)
deriving DecidableEq, Repr

/-- The fault in words, the outermost text first. -/
def SourceFault.chain : SourceFault → List String
  | .lexical f => [f.message]
  | .instruction p t f => ("instruction " ++ toString p ++ " ('" ++ t ++ "')") :: f.chain

/-- Assembles the tokens from a position on; `read` holds the instructions before it, newest
first. -/
def assembleTokens (read : Source) : (position : Nat) → List (List Char) →
    Except SourceFault Source
  | _, [] => .ok read.reverse
  | p, token :: rest =>
    match spelled token with
    | .ok i => assembleTokens (i :: read) (p + 1) rest
    | .error f => .error (.instruction p (String.ofList token) f)

/-- Assembles one source. -/
def assembleChars (text : List Char) : Except SourceFault Source :=
  match tokenize text with
  | .error f => .error (.lexical f)
  | .ok tokens => assembleTokens [] 0 tokens

/-- Assembles one source. -/
def assemble (text : String) : Except SourceFault Source := assembleChars text.toList

/-! ## Several sources -/

/-- A fault and the source it is in. -/
structure ExpressionFault where
  source : Nat
  fault : SourceFault
deriving DecidableEq, Repr

/-- The fault in words, the outermost text first. -/
def ExpressionFault.chain (e : ExpressionFault) : List String :=
  ("source " ++ toString e.source) :: e.fault.chain

/-- Drops the last piece if it is blank and not the only one. -/
def dropBlankLast (pieces : List (List Char)) : List (List Char) :=
  match pieces.reverse with
  | last :: before :: rest =>
    if last.all Text.isBlank then (before :: rest).reverse else pieces
  | _ => pieces

/-- The texts of the sources: a separator at the end opens no further one. -/
def sourceTexts (text : List Char) : List (List Char) :=
  dropBlankLast (Text.split ';' (stripComments text))

/-- Assembles the texts from a source on; `read` holds the sources before it, newest first. -/
def assembleTexts (read : List Source) : (index : Nat) → List (List Char) →
    Except ExpressionFault (List Source)
  | _, [] => .ok read.reverse
  | k, text :: rest =>
    match assembleChars text with
    | .ok s => assembleTexts (s :: read) (k + 1) rest
    | .error f => .error ⟨k, f⟩

/-- Assembles the sources of an expression. -/
def assembleAll (text : String) : Except ExpressionFault (List Source) :=
  assembleTexts [] 0 (sourceTexts text.toList)

end WordMachine.Assembly
