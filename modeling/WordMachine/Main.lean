import WordMachine.Command.Run

/-!
# The command line

Runs the command that the arguments stand for on the files of the machine.
-/

namespace WordMachine.Command

/-- Why the machine could not use a file. -/
def ofFileError : IO.Error → FileFault
  | .noFileOrDirectory .. => .notFound
  | .alreadyExists .. => .alreadyExists
  | .inappropriateType _ 20 _ => .notADirectory
  | .inappropriateType _ 21 _ => .isADirectory
  | e => .other (toString e)

/-- Does something with a file. -/
def attempt {α : Type} (action : IO α) : IO (Except FileFault α) := do
  try
    return .ok (← action)
  catch e =>
    return .error (ofFileError e)

/-- Makes the first of some directories, each of which lies in the next one. Those further on are
made only where they are missing, and one that is there already is no fault. -/
def makeFolders : List String → IO (Except FileFault Unit)
  | [] => return .ok ()
  | path :: above => do
    match ← attempt (IO.FS.createDir path) with
    | .ok () => return .ok ()
    | .error .notFound =>
      match ← makeFolders above with
      | .ok () => attempt (IO.FS.createDir path)
      | .error f => return .error f
    | .error f =>
      match ← attempt (IO.FS.createDirAll path) with
      | .ok () => return .ok ()
      | .error _ => return .error f

/-- The files of the machine. -/
def machineDisk : Disk IO where
  read path := do
    match ← attempt (IO.FS.readBinFile path) with
    | .error f => return .error f
    | .ok bytes =>
      match String.fromUTF8? bytes with
      | some text => return .ok text
      | none => return .error .invalidData
  makeParent path := makeFolders (ancestors path.length path)
  write path text := attempt (IO.FS.writeFile path text)

/-- What is said when the arguments stand for no command. -/
def usage : String :=
  "usage: wordvm check FILE\n" ++
  "       wordvm disasm FILE\n" ++
  "       wordvm asm FILE [-o FILE]\n" ++
  "       wordvm eval FILE [--entry INDEX] [--host FILE] [--input WORD]... [--debug log|json]"

/-- Runs the command that the arguments stand for, and gives the code to end with. -/
def program (arguments : List String) : IO UInt32 := do
  match parse? arguments with
  | none =>
    IO.eprintln usage
    return usageCode.toUInt32
  | some command =>
    let env : Environment :=
      { trace := ← IO.getEnv "WORDVM_TRACE", filter := ← IO.getEnv "RUST_LOG" }
    let report ← run machineDisk env command
    for line in report.lines do
      IO.eprintln line
    IO.print report.output
    return report.code.toUInt32

end WordMachine.Command

/-- The program. -/
def main (arguments : List String) : IO UInt32 := WordMachine.Command.program arguments
