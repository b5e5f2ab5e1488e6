import WordMachine.Command.Path
import WordMachine.Text.Numeral
import WordMachine.Word.Literal

/-!
# Arguments of commands

The first argument names a command, the others are its file and its options in any order. A value
of an option is a separate argument, or follows an equals sign; right after a short name the sign
may be left out. A separate argument that starts with a dash is no value, unless it is a dash and
nothing else. After two dashes every argument is a file. Anything that does not fit is refused
without a reason.
-/

namespace WordMachine

/-- Where debug records go when that is said. -/
inductive DebugOutput where
  | log
  | json
deriving DecidableEq, Repr

/-- How a source is evaluated. -/
structure EvalOptions where
  entry : Nat := 0
  host : Option String := none
  inputs : List Word := []
  debug : Option DebugOutput := none
deriving DecidableEq

/-- What can be done with an expression in a file. -/
inductive Command where
  /-- Load it. -/
  | check (file : String)
  /-- Write out its sources. -/
  | disasm (file : String)
  /-- Write it as a configuration with stored code. -/
  | asm (file : String) (output : Option String)
  /-- Evaluate one of its sources. -/
  | eval (file : String) (options : EvalOptions)
deriving DecidableEq

namespace Command

/-! ## 1. Options -/

/-- An option of a command whose arguments are collected in `σ`; `take` refuses a value that does
not fit, and a second value where only one is taken. -/
structure Flag (σ : Type) where
  name : String
  short : Option Char := none
  take : σ → String → Option σ

/-- What an argument is. -/
inductive Argument (σ : Type) where
  /-- The mark after which every argument is a file. -/
  | rest
  /-- An option, with its value if that is part of the argument. -/
  | flag (flag : Flag σ) (value : Option String)
  /-- Neither a mark nor an option. -/
  | free
  /-- Nothing that is known. -/
  | unknown

variable {σ : Type}

/-- An option by its long name, and the value after an equals sign. -/
def longFlag (flags : List (Flag σ)) (text : List Char) : Argument σ :=
  let name := String.ofList (text.takeWhile (· ≠ '='))
  match flags.find? (·.name = name) with
  | none => .unknown
  | some flag =>
    match text.dropWhile (· ≠ '=') with
    | [] => .flag flag none
    | _ :: value => .flag flag (some (String.ofList value))

/-- An option by its short name, and the value right after it. -/
def shortFlag (flags : List (Flag σ)) (name : Char) (rest : List Char) : Argument σ :=
  match flags.find? (·.short = some name) with
  | none => .unknown
  | some flag =>
    match rest with
    | [] => .flag flag none
    | '=' :: value => .flag flag (some (String.ofList value))
    | value => .flag flag (some (String.ofList value))

/-- What an argument is. -/
def classify (flags : List (Flag σ)) (argument : String) : Argument σ :=
  match argument.toList with
  | ['-', '-'] => .rest
  | '-' :: '-' :: text => longFlag flags text
  | '-' :: name :: rest => shortFlag flags name rest
  | _ => .free

/-- Whether an argument can be the value of the option before it. -/
def isValue (argument : String) : Bool :=
  match argument.toList with
  | '-' :: _ :: _ => false
  | _ => true

/-- Reads all arguments; `file` takes those that are no options. -/
def collect (flags : List (Flag σ)) (file : σ → String → Option σ) (draft : σ) :
    List String → Option σ
  | [] => some draft
  | argument :: rest =>
    match classify flags argument with
    | .rest => rest.foldlM file draft
    | .free => do collect flags file (← file draft argument) rest
    | .flag flag (some value) => do collect flags file (← flag.take draft value) rest
    | .flag flag none =>
      match rest with
      | [] => none
      | value :: rest =>
        if isValue value then do collect flags file (← flag.take draft value) rest else none
    | .unknown => none

/-! ## 2. Values -/

/-- Sets a value that was not set before. -/
def once {α : Type} (old : Option α) (new : Option α) : Option (Option α) :=
  match old, new with
  | none, some a => some (some a)
  | _, _ => none

/-- A path that does not climb. -/
def path? (text : String) : Option String :=
  match checkPath text with
  | .ok path => some path
  | .error _ => none

/-- An index of 64 bits. -/
def index? (text : String) : Option Nat :=
  match Text.numeral (Nat.pow 2 64) text.toList with
  | .ok n => some n
  | .error _ => none

/-- A word literal. -/
def word? (text : String) : Option Word :=
  match Word.parse text with
  | .ok w => some w
  | .error _ => none

/-- Where debug records go. -/
def debugOutput? (text : String) : Option DebugOutput :=
  match text with
  | "log" => some .log
  | "json" => some .json
  | _ => none

/-! ## 3. Commands -/

/-- The arguments of a command that were read so far. -/
structure Draft where
  file : Option String := none
  output : Option String := none
  entry : Option Nat := none
  host : Option String := none
  /-- Last one first. -/
  inputs : List Word := []
  debug : Option DebugOutput := none

/-- Takes the file. -/
def Draft.takeFile (d : Draft) (text : String) : Option Draft := do
  return { d with file := ← once d.file (path? text) }

/-- The options of writing stored code. -/
def asmFlags : List (Flag Draft) :=
  [{ name := "output", short := some 'o',
     take := fun d text => do return { d with output := ← once d.output (path? text) } }]

/-- The options of evaluating; an input may be given again and again. -/
def evalFlags : List (Flag Draft) :=
  [{ name := "entry",
     take := fun d text => do return { d with entry := ← once d.entry (index? text) } },
   { name := "host",
     take := fun d text => do return { d with host := ← once d.host (path? text) } },
   { name := "input",
     take := fun d text => do return { d with inputs := (← word? text) :: d.inputs } },
   { name := "debug",
     take := fun d text => do return { d with debug := ← once d.debug (debugOutput? text) } }]

/-- Reads the arguments of a command with the given options; the file has to be there. -/
def draft? (flags : List (Flag Draft)) (arguments : List String) : Option (String × Draft) := do
  let d ← collect flags Draft.takeFile {} arguments
  return (← d.file, d)

/-- The command that arguments stand for. -/
def parse? : List String → Option Command
  | [] => none
  | name :: arguments =>
    match name with
    | "check" => (draft? [] arguments).map fun (file, _) => .check file
    | "disasm" => (draft? [] arguments).map fun (file, _) => .disasm file
    | "asm" => (draft? asmFlags arguments).map fun (file, d) => .asm file d.output
    | "eval" =>
      (draft? evalFlags arguments).map fun (file, d) =>
        .eval file
          { entry := d.entry.getD 0, host := d.host, inputs := d.inputs.reverse, debug := d.debug }
    | _ => none

end Command

end WordMachine
