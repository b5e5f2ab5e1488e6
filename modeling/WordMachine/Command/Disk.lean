import WordMachine.Document.Format

/-!
# Files

What a command asks of the place where files are kept, and why that may fail.
-/

namespace WordMachine

/-- Why a file cannot be used. -/
inductive FileFault where
  | notFound
  | isADirectory
  | notADirectory
  | alreadyExists
  /-- The file holds no text. -/
  | invalidData
  | other (reason : String)
deriving DecidableEq, Repr

/-- The fault in words. -/
def FileFault.message : FileFault → String
  | .notFound => "No such file or directory (os error 2)"
  | .isADirectory => "Is a directory (os error 21)"
  | .notADirectory => "Not a directory (os error 20)"
  | .alreadyExists => "File exists (os error 17)"
  | .invalidData => "stream did not contain valid UTF-8"
  | .other reason => reason

/-- A place where files are kept. -/
structure Disk (m : Type → Type) where
  /-- The text of a file. -/
  read : (path : String) → m (Except FileFault String)
  /-- Makes the directory that a file is to lie in. -/
  makeParent : (path : String) → m (Except FileFault Unit)
  /-- Makes a text the whole content of a file. -/
  write : (path text : String) → m (Except FileFault Unit)

/-- The path without its last name and what follows it; `none` if there is no other name. -/
def parentPath? (path : String) : Option String :=
  let isName (part : List Char) : Bool := !part.isEmpty && part ≠ ['.']
  let upToName (parts : List (List Char)) : List (List Char) := parts.dropWhile (!isName ·)
  match upToName ((upToName (Text.split '/' path.toList).reverse).drop 1) with
  | [] => none
  | parents => some ("/".intercalate (parents.reverse.map String.ofList))

/-- The directories that a path leads through, nearest first. Each is shorter than the one before,
so the length of the path bounds their number. -/
def ancestors : (bound : Nat) → (path : String) → List String
  | 0, _ => []
  | bound + 1, path =>
    match parentPath? path with
    | none => []
    | some parent => parent :: ancestors bound parent

end WordMachine
