import WordMachine.Document.Format

/-!
# Paths of commands

The files that a command works on lie below the place it is called at: a path that climbs is
refused, even where it would come back.
-/

namespace WordMachine.Command

/-- Why a path is refused. -/
inductive PathFault where
  /-- A part of the path leads to the directory above. -/
  | climbs
deriving DecidableEq, Repr

/-- The fault in words. -/
def PathFault.message : PathFault → String
  | .climbs => "Parent directory components ('..') are not allowed in file paths."

/-- Whether some part of a path leads to the directory above. -/
def climbs (path : String) : Bool := (Document.parts path.toList).any (· = ['.', '.'])

/-- Lets a path through unless it climbs. -/
def checkPath (path : String) : Except PathFault String :=
  if climbs path then .error .climbs else .ok path

end WordMachine.Command
