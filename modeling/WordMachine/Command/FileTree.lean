import WordMachine.Command.Disk

/-!
# Directories in memory

A tree of directories and files that can stand for a disk. A path is followed from the root of the
tree; an absolute path leads out of it, where there is nothing.
-/

namespace WordMachine

/-- A file or a directory. -/
inductive FileTree where
  | file (bytes : ByteArray)
  | folder (members : List (String × FileTree))
deriving Inhabited

namespace FileTree

/-- The directory without anything in it. -/
def empty : FileTree := .folder []

/-- How a path ends. -/
inductive Ending where
  /-- In a name. -/
  | name
  /-- In a name and slashes, which ask for a directory. -/
  | slash
  /-- In a single dot, which stands for the directory that the names before it lead to. -/
  | dot
deriving DecidableEq

/-- How a path ends; one without a name ends in a dot. -/
def Ending.ofPath (path : List Char) : Ending :=
  let parts := Text.split '/' path
  match (parts.filter (!List.isEmpty ·)).getLast? with
  | none => .dot
  | some part =>
    if part = ['.'] then .dot
    else if parts.getLast? = some [] then .slash
    else .name

/-- A path as it is followed. -/
structure Route where
  /-- The names of the directories and of the file, in order. -/
  names : List String
  ending : Ending
  /-- Whether the path stays in the tree. -/
  inside : Bool

/-- How a path is followed. -/
def Route.ofPath (path : String) : Route :=
  let text := path.toList
  { names := (Document.parts text).map String.ofList
    ending := .ofPath text
    inside := !text.isEmpty && text.head? ≠ some '/' }

/-! ## 1. Looking -/

/-- The member of a directory with a name. -/
def member? (name : String) (members : List (String × FileTree)) : Option FileTree :=
  (members.find? (·.1 = name)).map (·.2)

/-- What lies at the end of a path. -/
def find : List String → FileTree → Except FileFault FileTree
  | [], t => .ok t
  | _ :: _, .file _ => .error .notADirectory
  | name :: rest, .folder members =>
    match member? name members with
    | none => .error .notFound
    | some t => t.find rest

/-- The text of a file. -/
def textAt (t : FileTree) (path : String) : Except FileFault String :=
  let route := Route.ofPath path
  if !route.inside then
    if !path.isEmpty && route.names.isEmpty then .error .isADirectory else .error .notFound
  else
    match t.find route.names with
    | .error f => .error f
    | .ok (.folder _) => .error .isADirectory
    | .ok (.file bytes) =>
      if route.ending ≠ .name then .error .notADirectory
      else
        match String.fromUTF8? bytes with
        | some text => .ok text
        | none => .error .invalidData

/-! ## 2. Changing -/

/-- Puts a member into a directory, in place of one with its name. -/
def put (name : String) (t : FileTree) : List (String × FileTree) → List (String × FileTree)
  | [] => [(name, t)]
  | entry :: rest => if entry.1 = name then (name, t) :: rest else entry :: put name t rest

/-- The tree with all directories on a path. -/
def withFolders : List String → FileTree → Except FileFault FileTree
  | [], .folder members => .ok (.folder members)
  | [], .file _ => .error .alreadyExists
  | _ :: _, .file _ => .error .notADirectory
  | name :: rest, .folder members =>
    match withFolders rest ((member? name members).getD empty) with
    | .ok t => .ok (.folder (put name t members))
    | .error f => .error f

/-- The tree with a file at the end of a path whose directories are there. -/
def withFile (bytes : ByteArray) : List String → FileTree → Except FileFault FileTree
  | [], _ => .error .isADirectory
  | _ :: _, .file _ => .error .notADirectory
  | [name], .folder members =>
    match member? name members with
    | some (.folder _) => .error .isADirectory
    | _ => .ok (.folder (put name (.file bytes) members))
  | name :: rest, .folder members =>
    match member? name members with
    | none => .error .notFound
    | some t =>
      match t.withFile bytes rest with
      | .ok t => .ok (.folder (put name t members))
      | .error f => .error f

/-- Why no file can be written at a directory, or where the names do not lead to one. -/
def folderFault (t : FileTree) (names : List String) : FileFault :=
  match t.find names with
  | .error f => f
  | .ok (.file _) => .notADirectory
  | .ok (.folder _) => .isADirectory

/-- The tree with the directory that a path names. -/
def makeFolder (t : FileTree) (path : String) : Except FileFault FileTree :=
  let route := Route.ofPath path
  if route.inside then t.withFolders route.names
  else if route.names.isEmpty then .ok t
  else .error .notFound

/-- The tree with the directory that a file is to lie in. -/
def makeParent (t : FileTree) (path : String) : Except FileFault FileTree :=
  match parentPath? path with
  | some parent => t.makeFolder parent
  | none => .ok t

/-- The tree with the given bytes as the content of a file. Slashes at the end of a path are refused
before it is looked whether anything has the name before them. -/
def write (t : FileTree) (path : String) (bytes : ByteArray) : Except FileFault FileTree :=
  let route := Route.ofPath path
  if route.inside then
    match route.ending with
    | .name => t.withFile bytes route.names
    | .slash => .error (t.folderFault route.names.dropLast)
    | .dot => .error (t.folderFault route.names)
  else if !path.isEmpty && route.names.isEmpty then .error .isADirectory
  else .error .notFound

/-- Takes over a changed tree. -/
def commit (change : FileTree → Except FileFault FileTree) :
    StateM FileTree (Except FileFault Unit) := do
  match change (← get) with
  | .ok t =>
    set t
    return .ok ()
  | .error f => return .error f

/-- A tree as a disk. -/
def disk : Disk (StateM FileTree) where
  read path := do return (← get).textAt path
  makeParent path := commit (·.makeParent path)
  write path text := commit (·.write path text.toUTF8)

end FileTree

end WordMachine
