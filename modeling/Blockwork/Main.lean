import Blockwork.Command.Run

set_option autoImplicit false

namespace Blockwork

abbrev Shell := StateT (List Char) IO

namespace Shell

def reasonOf (e : IO.Error) : FileReason :=
  match e with
  | .noFileOrDirectory .. => .missing
  | .alreadyExists .. => .present
  | .inappropriateType _ 20 _ => .notFolder
  | .inappropriateType _ 21 _ => .isFolder
  | .permissionDenied .. => .other "permission denied"
  | e => .other (toString e)

def attempt {α : Type} (action path : String) (x : IO α) : Shell (Except FileFault α) := do
  match ← x.toBaseIO with
  | .ok a => return .ok a
  | .error e => return .error ⟨action, path, reasonOf e⟩

def nextLine : Shell (Option String) := do
  if (← get).isEmpty then set (← (← IO.getStdin).getLine).toList
  match LineInput.take? (← get) with
  | none => return none
  | some (line, rest) =>
    set rest
    return some (String.ofList line)

def write (stream : IO.FS.Stream) (text : String) : Shell Unit := do
  stream.putStr text
  stream.flush

instance : Host Shell where
  readFile path := attempt "open" path (IO.FS.readFile path)
  writeFile path text := attempt "open" path (IO.FS.writeFile path text)
  appendFile path text :=
    attempt "open" path (IO.FS.withFile path .append fun handle => handle.putStr text)
  makeFolders path := attempt "mkdir" path (IO.FS.createDirAll path)
  readLine := nextLine
  print text := do write (← IO.getStdout) text
  printError text := do write (← IO.getStderr) text
  home := return (← IO.getEnv "HOME").getD ""
  clock := return toString (← IO.monoMsNow)

def sessionLimit : Nat := 0x4000000000000000

end Shell

end Blockwork

def main (args : List String) : IO UInt32 := do
  let (code, _) ← (Blockwork.Command.run Blockwork.Shell.sessionLimit args : Blockwork.Shell UInt32).run []
  return code
