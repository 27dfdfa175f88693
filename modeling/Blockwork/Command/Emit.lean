import Blockwork.Command.Host
import Blockwork.Files.Path
import Blockwork.Program.Compile
import Blockwork.Program.Library

set_option autoImplicit false

namespace Blockwork

def Program.files (p : Program) : List (String × String) :=
  ("main.cpp", p.main) :: (if p.needsHeader then [(devicesHeader, p.header)] else []) ++
    p.libraries.filterMap fun name =>
      (Library.source? name).map fun text => (Path.join "lib" (name ++ ".h"), text)

inductive EmitFault where
  | notCompiled (diagnostics : Diagnostics)
  | noOutput (fault : FileFault)
  | noFolder (folder : String) (fault : FileFault)
  | notWritten (path : String) (fault : FileFault)

def Diagnostics.unnamed (ds : Diagnostics) : String := "compilation errors:\n" ++ ds.format "input"

def EmitFault.message : EmitFault → String
  | .notCompiled diagnostics => diagnostics.unnamed
  | .noOutput fault => s!"failed to create output dir: {fault.message}"
  | .noFolder folder fault => s!"failed to create {folder}: {fault.message}"
  | .notWritten path fault => s!"failed to write {path}: {fault.message}"

section

variable {m : Type → Type} [Monad m] [Host m]

def attempt (action : m (Except FileFault Unit)) (fault : FileFault → EmitFault) : ExceptT EmitFault m Unit :=
  ExceptT.mk do return (← action).mapError fault

def emitFile (folder : String) (file : String × String) : ExceptT EmitFault m String := do
  let path := Path.join folder file.1
  attempt (Host.makeFolders (Path.folder path)) (.noFolder (Path.folder path))
  attempt (Host.writeFile path file.2) (.notWritten path)
  return path

def Compilation.emit (c : Compilation) (folder : String) : ExceptT EmitFault m (List String) :=
  match c.failed, c.program with
  | false, some p => do
    attempt (Host.makeFolders folder) .noOutput
    p.files.mapM (emitFile folder)
  | _, _ => throw (.notCompiled c.diagnostics)

end

inductive NativeFault where
  | notCompiled (diagnostics : Diagnostics)
  | needsBoard (devices : Nat)
  | noCompiler

def NativeFault.message : NativeFault → String
  | .notCompiled diagnostics => diagnostics.unnamed
  | .needsBoard devices => s!"program declares {devices} device(s) and must be linked against a board runtime"
  | .noCompiler => "c++ not found on PATH: exec: \"c++\": executable file not found in $PATH"

def Compilation.nativeFault (c : Compilation) : NativeFault :=
  match c.failed, c.program with
  | false, some p => if p.devices.isEmpty then .noCompiler else .needsBoard p.devices.length
  | _, _ => .notCompiled c.diagnostics

end Blockwork
