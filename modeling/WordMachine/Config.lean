import WordMachine.Assembly.Source
import WordMachine.Expression
import WordMachine.Text.Hex

/-!
# Configurations

A configuration is an expression in writing: its constants, and each source as text. A source text
that starts with `0x` once trimmed holds stored code in base 16; every other one is assembled.
-/

namespace WordMachine

/-- The written form of an expression. -/
structure Config where
  constants : List Word := []
  sources : List String := []
deriving DecidableEq

/-- Why the text of a source has no code. -/
inductive SourceTextFault where
  | hex (fault : Text.HexFault)
  | assembly (fault : Assembly.SourceFault)
deriving DecidableEq

/-- Why a configuration has no expression. -/
inductive ConfigFault where
  | source (index : Nat) (fault : SourceTextFault)
  | load (fault : LoadFault)
deriving DecidableEq

/-- The fault in words, the outermost text first. -/
def ConfigFault.chain : ConfigFault → List String
  | .source k (.hex f) => ["source " ++ toString k ++ ": invalid hex bytecode", f.message]
  | .source k (.assembly f) => ("source " ++ toString k ++ ": assembly failed") :: f.chain
  | .load f => [f.message]

namespace Config

/-- The stored code that the text of a source writes. -/
def codeOf (text : String) : Except SourceTextFault (List UInt8) :=
  match Text.trim text.toList with
  | '0' :: 'x' :: digits =>
    match Text.decodeHex (String.ofList digits) with
    | .ok bytes => .ok bytes
    | .error f => .error (.hex f)
  | text =>
    match Assembly.assembleChars text with
    | .ok s => .ok s.encode
    | .error f => .error (.assembly f)

/-- The stored code of the sources from an index on; `read` holds the ones before it, newest
first. -/
def codesFrom (read : List (List UInt8)) : (index : Nat) → List String →
    Except ConfigFault (List (List UInt8))
  | _, [] => .ok read.reverse
  | k, text :: rest =>
    match codeOf text with
    | .ok bytes => codesFrom (bytes :: read) (k + 1) rest
    | .error f => .error (.source k f)

/-- The stored code of all sources. -/
def codes (c : Config) : Except ConfigFault (List (List UInt8)) := codesFrom [] 0 c.sources

/-- The expression that a configuration writes. -/
def build (c : Config) : Except ConfigFault Expression :=
  match c.codes with
  | .error f => .error f
  | .ok codes =>
    match Expression.loadBytes c.constants codes with
    | .ok e => .ok e
    | .error f => .error (.load f)

/-- The text of a source as stored code. -/
def hexText (s : Source) : String := "0x" ++ String.ofList (Text.encodeHex s.encode)

/-- The configuration of an expression, every source as stored code. -/
def ofExpression (e : Expression) : Config := ⟨e.constants, e.sources.map hexText⟩

end Config

end WordMachine
