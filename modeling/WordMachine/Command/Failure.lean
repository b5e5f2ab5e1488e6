import WordMachine.Command.Disk
import WordMachine.Config
import WordMachine.Document.Read
import WordMachine.Machine.Fault

/-!
# Failures of commands

Why a command fails: a chain of reasons, the outermost first, each the reason for the one before.
-/

namespace WordMachine.Command

/-- Why a command fails. -/
inductive Failure where
  /-- The name of a file tells no format. -/
  | format (fault : Document.FormatFault)
  /-- A file cannot be read. -/
  | unreadable (path : String) (fault : FileFault)
  /-- A file holds no document of the right kind. -/
  | refused (path : String) (fault : Document.Fault)
  /-- A configuration has no expression. -/
  | unloadable (path : String) (fault : ConfigFault)
  /-- The directory of a file cannot be made. -/
  | parentless (path : String) (fault : FileFault)
  /-- A file cannot be written. -/
  | unwritable (path : String) (fault : FileFault)
  /-- The evaluation of a source ends early. -/
  | halted (entry : Nat) (halt : Machine.Halt)

/-- One reason in a chain. -/
inductive Reason where
  | text (text : String)
  | document (fault : Document.Fault)
  | file (fault : FileFault)

/-- A fault of a document in words. -/
def documentMessage : Document.Fault → String
  | .json (.data f) => f.message
  | .json (.text .malformed) => "the text is not JSON"
  | .json (.text .incomplete) => "the JSON text ends too early"
  | .toml => "the text is not a TOML document of this kind"
  | .yaml => "the text is not a YAML document of this kind"

/-- A reason in words. -/
def Reason.message : Reason → String
  | .text t => t
  | .document f => documentMessage f
  | .file f => f.message

namespace Failure

/-- The reasons of a failure, the outermost first. -/
def chain : Failure → List Reason
  | .format f => [.text f.message]
  | .unreadable path f => [.text ("failed to read '" ++ path ++ "'"), .file f]
  | .refused path f => [.text ("failed to parse '" ++ path ++ "'"), .document f]
  | .unloadable path f =>
    .text ("Failed to load expression from " ++ path) :: f.chain.map .text
  | .parentless path f =>
    [.text ("Failed to create parent directory for " ++ path), .file f]
  | .unwritable path f => [.text ("Failed to write " ++ path), .file f]
  | .halted entry halt =>
    [.text ("Evaluation of source " ++ toString entry ++ " failed"), .text halt.message]

/-- The lines of a text. -/
def textLines (text : String) : List String := (Text.split '\n' text.toList).map String.ofList

/-- The lines of a text, the first after `first` and all others after `later`. -/
def indented (first later text : String) : List String :=
  match textLines text with
  | [] => []
  | line :: lines => (first ++ line) :: lines.map (later ++ ·)

/-- A number at the end of five columns. -/
def column (n : Nat) : String :=
  let digits := toString n
  String.ofList (List.replicate (5 - digits.length) ' ') ++ digits

/-- The lines of numbered reasons. -/
def numbered (n : Nat) : List String → List String
  | [] => []
  | text :: rest => indented (column n ++ ": ") "       " text ++ numbered (n + 1) rest

/-- The lines that report a failure: its outermost reason, then its causes, which are numbered if
there are several. -/
def report (f : Failure) : List String :=
  match f.chain.map Reason.message with
  | [] => []
  | outermost :: causes =>
    textLines ("Error: " ++ outermost) ++
      match causes with
      | [] => []
      | [cause] => ["", "Caused by:"] ++ indented "    " "    " cause
      | causes => ["", "Caused by:"] ++ numbered 0 causes

end Failure

end WordMachine.Command
