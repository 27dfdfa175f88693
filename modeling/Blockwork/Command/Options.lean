import Blockwork.Files.Path
import Blockwork.Program.Compile
import Blockwork.Text.Numeral

set_option autoImplicit false

namespace Blockwork

structure CommandOptions where
  file : String := ""
  out : String := ""
  native : Bool := false
  prove : Bool := false
  rounds : Nat := 0
  report : Bool := false
  write : Bool := false
  logLevel : String := "warn"
  logFormat : String := "text"
  logFile : String := ""
deriving DecidableEq, Repr, Inhabited

inductive OptionFault where
  | noValue (option : String)
  | badRounds (value : String)
  | unknown (option : String)
  | secondFile (first second : String)
  | noFile
deriving DecidableEq, Repr

def OptionFault.message : OptionFault → String
  | .noValue option => s!"{option} requires a value"
  | .badRounds value => s!"--max-iterations must be a positive integer, got {Text.quoted value}"
  | .unknown option => s!"unknown option: {option}"
  | .secondFile first second => s!"more than one input file: {first} and {second}"
  | .noFile => "no input file specified"

namespace CommandOptions

def rounds? (value : String) : Option Nat :=
  (Text.integer? value.toList).bind fun n => if 1 ≤ n then some n.toNat else none

def switch? (o : CommandOptions) : String → Option CommandOptions
  | "--native" => some { o with native := true }
  | "--prove" => some { o with prove := true }
  | "--report" => some { o with report := true }
  | "-w" => some { o with write := true }
  | _ => none

def setting? (o : CommandOptions) : String → Option (String → Except OptionFault CommandOptions)
  | "-o" => some fun value => .ok { o with out := value }
  | "--log-level" => some fun value => .ok { o with logLevel := value }
  | "--log-format" => some fun value => .ok { o with logFormat := value }
  | "--log-file" => some fun value => .ok { o with logFile := value }
  | "--max-iterations" => some fun value =>
    match rounds? value with
    | some rounds => .ok { o with rounds }
    | none => .error (.badRounds value)
  | _ => none

def argument (o : CommandOptions) (word : String) : Except OptionFault CommandOptions :=
  if word.startsWith "-" then .error (.unknown word)
  else if o.file.isEmpty then .ok { o with file := word }
  else .error (.secondFile o.file word)

def read (o : CommandOptions) : List String → Except OptionFault CommandOptions
  | [] => if o.file.isEmpty then .error .noFile else .ok o
  | word :: rest =>
    match o.switch? word, o.setting? word with
    | some o, _ => o.read rest
    | none, some set =>
      match rest with
      | [] => .error (.noValue word)
      | value :: rest =>
        match set value with
        | .ok o => o.read rest
        | .error fault => .error fault
    | none, none =>
      match o.argument word with
      | .ok o => o.read rest
      | .error fault => .error fault

def parse (words : List String) : Except OptionFault CommandOptions := read {} words

def compile (o : CommandOptions) : CompileOptions :=
  { prove := o.prove, rounds := if o.rounds = 0 then Solver.defaultLimit else o.rounds }

end CommandOptions

end Blockwork
