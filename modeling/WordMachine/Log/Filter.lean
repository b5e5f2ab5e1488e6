import WordMachine.Log.Event
import WordMachine.Text.Blank
import WordMachine.Text.Split

/-!
# Log filters

A filter is a list of directives between commas: a level for every target, or `TARGET=LEVEL` for
the targets that start with `TARGET`. The directive with the longest target that fits an event
decides; of two with the same target, the later one. An event shows if its level is no more verbose
than the directive's.

The filter itself may come from a switch that is also merely turned on or off.
-/

namespace WordMachine.Log

/-! ## 1. Directives -/

/-- What is shown of the targets that start with `target`. -/
structure Directive where
  target : List Char
  /-- The verbosity that is shown; zero shows nothing. -/
  verbosity : Nat
deriving DecidableEq, Repr

/-- A filter. -/
abbrev Filter := List Directive

/-- The lower-case form of an ASCII letter. -/
def lower (c : Char) : Char := if 'A' ≤ c ∧ c ≤ 'Z' then Char.ofNat (c.toNat + 32) else c

/-- Whether two texts are equal but for the case of ASCII letters. -/
def sameLetters (a b : List Char) : Bool := a.map lower == b.map lower

/-- The verbosity that a level's name or number stands for. -/
def verbosity? (name : List Char) : Option Nat :=
  let names := ["off", "error", "warn", "info", "debug", "trace"]
  match names.findIdx? (fun n => sameLetters n.toList name) with
  | some i => some i
  | none =>
    match name with
    | [c] => if '0' ≤ c ∧ c ≤ '5' then some (c.toNat - '0'.toNat) else none
    | _ => none

/-- Whether a character may stand in a target. -/
def isTargetChar (c : Char) : Bool :=
  c.isAlphanum || c == '_' || c == ':' || c == '-' || 0x80 ≤ c.toNat

/-- The verbosity of a target without a level. -/
def fullVerbosity : Nat := 5

/-- The directive that a text writes. -/
def directive? (text : List Char) : Option Directive :=
  match verbosity? text with
  | some v => some ⟨[], v⟩
  | none =>
    let target := text.takeWhile (· ≠ '=')
    if target.isEmpty || !target.all isTargetChar then none
    else
      match text.dropWhile (· ≠ '=') with
      | [] | [_] => some ⟨target, fullVerbosity⟩
      | _ :: level => (verbosity? level).map (⟨target, ·⟩)

/-- The filter that a text writes. Without any directive, errors are shown. -/
def filter? (text : List Char) : Option Filter :=
  match ((Text.split ',' text).filter (!·.isEmpty)).mapM directive? with
  | some [] => some [⟨[], 1⟩]
  | other => other

namespace Filter

/-- The directive that decides about a target: the longest that fits, the latest of equals. -/
def deciding? (filter : Filter) (target : List Char) : Option Directive :=
  filter.foldl
    (fun best d =>
      if d.target.isPrefixOf target then
        match best with
        | some b => if b.target.length ≤ d.target.length then some d else best
        | none => some d
      else best)
    none

/-- Whether an event is shown. -/
def shows (filter : Filter) (e : Event) : Bool :=
  match filter.deciding? e.target.toList with
  | some d => e.level.verbosity ≤ d.verbosity
  | none => false

end Filter

/-! ## 2. Switches -/

/-- Whether a switch is on: it is off when it is blank, or says so. -/
def switchedOn (raw : String) : Bool :=
  let text := Text.trim raw.toList
  !text.isEmpty && !(sameLetters text ['0'] || sameLetters text "false".toList
    || sameLetters text "off".toList)

/-- The filter text of a switch, unless it is blank or merely says that it is on. -/
def switchFilter? (raw : String) : Option String :=
  let text := Text.trim raw.toList
  if text.isEmpty || sameLetters text ['1'] || sameLetters text "true".toList
      || sameLetters text "on".toList then none
  else some (String.ofList text)

/-- What is shown when tracing is merely turned on. -/
def traceFilter : Filter :=
  [⟨loadTarget.toList, 4⟩, ⟨evalTarget.toList, 4⟩, ⟨debugTarget.toList, 3⟩]

/-- What is shown when debug records go to the log. -/
def debugFilter : Filter := [⟨debugTarget.toList, 3⟩]

/-- The filter of an optional text; one that is not there or writes no filter gives the default. -/
def filterOr (default : Filter) (text : Option String) : Filter :=
  (text.bind fun t => filter? t.toList).getD default

end WordMachine.Log
