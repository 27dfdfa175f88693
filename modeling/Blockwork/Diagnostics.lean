import Blockwork.Failure

set_option autoImplicit false

namespace Blockwork

inductive Severity where
  | error
  | warning
  | info
  | unknown
deriving DecidableEq, Repr, Inhabited

namespace Severity

def name : Severity → String
  | .error => "error"
  | .warning => "warning"
  | .info => "info"
  | .unknown => "unknown"

def ofCode : Int → Severity
  | 0 => .error
  | 1 => .warning
  | 2 => .info
  | _ => .unknown

end Severity

structure Diagnostic where
  severity : Severity
  kind : FailureKind := .none
  message : String
  line : Int := 0
  column : Int := 0
  block : Nat := 0
  file : String := ""
  hint : String := ""
deriving DecidableEq, Repr, Inhabited

namespace Diagnostic

def warning (message : String) (block : Nat) (line column : Int) (hint : String) : Diagnostic :=
  { severity := .warning, message, block, line, column, hint }

def ofFailure (f : Failure) : Diagnostic :=
  { severity := .error, kind := f.kind, message := f.message, line := f.line, column := f.column,
    block := f.block, hint := f.hint }

def unclassified (message : String) : Diagnostic := { severity := .error, message }

def within (d : Diagnostic) (context : String) : Diagnostic :=
  { d with message := context ++ ": " ++ d.message }

def location (d : Diagnostic) (file : String) : String :=
  let file := if d.file.isEmpty then file else d.file
  if 0 < d.line then s!"{file}:{d.line}:{d.column}"
  else if d.block ≠ 0 then s!"{file}#{d.block}"
  else file

def format (d : Diagnostic) (file : String) : String :=
  let head := s!"{d.severity.name}[{d.location file}]: {d.message}"
  if d.hint.isEmpty then head else s!"{head}\n  hint: {d.hint}"

end Diagnostic

abbrev Diagnostics := List Diagnostic

namespace Diagnostics

def errors (ds : Diagnostics) : Diagnostics := ds.filter (·.severity = .error)

def warnings (ds : Diagnostics) : Diagnostics := ds.filter (·.severity = .warning)

def hasErrors (ds : Diagnostics) : Bool := ds.any (·.severity = .error)

def format (ds : Diagnostics) (file : String) : String :=
  "\n".intercalate (ds.map (·.format file))

end Diagnostics

end Blockwork
