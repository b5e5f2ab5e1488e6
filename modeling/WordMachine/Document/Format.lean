import WordMachine.Text.Split

/-!
# Formats of documents

The format of a document is told by the extension of its file's name: what follows the last dot of
the last part of its path, in lower case. A name has no extension if its only dot stands at its
start. Parts that are empty or a single dot say nothing, and two dots are no name.
-/

namespace WordMachine.Document

/-- How a document is written. -/
inductive Format where
  | json
  | toml
  | yaml
deriving DecidableEq, Repr

/-- An extension that stands for no format, and the path that has it. -/
structure FormatFault where
  extension : String
  path : String
deriving DecidableEq, Repr

/-- The fault in words. -/
def FormatFault.message (f : FormatFault) : String :=
  "unsupported config extension '" ++ f.extension ++ "' for '" ++ f.path ++
    "' (expected json, toml, yaml)"

/-- The parts of a path that say something. -/
def parts (path : List Char) : List (List Char) :=
  (Text.split '/' path).filter fun part => !part.isEmpty && part ≠ ['.']

/-- The last part of a path, unless it is two dots. -/
def fileName? (path : List Char) : Option (List Char) :=
  match (parts path).getLast? with
  | some name => if name = ['.', '.'] then none else some name
  | none => none

/-- What follows the last dot of a name; empty if there is no dot behind the first character. -/
def extension (name : List Char) : List Char :=
  let tail := (name.reverse.takeWhile (· ≠ '.')).reverse
  if tail.length + 1 < name.length then tail else []

/-- The format of the document at a path. -/
def Format.ofPath (path : String) : Except FormatFault Format :=
  let written := ((fileName? path.toList).map extension).getD []
  let lower := String.ofList (written.map Char.toLower)
  match lower with
  | "json" => .ok .json
  | "toml" => .ok .toml
  | "yaml" => .ok .yaml
  | "yml" => .ok .yaml
  | _ => .error ⟨lower, path⟩

end WordMachine.Document
