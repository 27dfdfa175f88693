import Blockwork.Number.Basic
import Blockwork.Text.Case
import Blockwork.Text.Quoted

set_option autoImplicit false

namespace Blockwork

inductive LogLevel where
  | debug
  | info
  | warn
  | error
deriving DecidableEq, Repr, Inhabited

namespace LogLevel

def code : LogLevel → Nat
  | .debug => 0
  | .info => 1
  | .warn => 2
  | .error => 3

def ofCode : Int → LogLevel
  | 0 => .debug
  | 2 => .warn
  | 3 => .error
  | _ => .info

def name : LogLevel → String
  | .debug => "DEBUG"
  | .info => "INFO"
  | .warn => "WARN"
  | .error => "ERROR"

def named? (word : String) : Option LogLevel :=
  match Text.lower word with
  | "debug" => some .debug
  | "info" => some .info
  | "warn" | "warning" => some .warn
  | "error" => some .error
  | _ => none

def unknownMessage (word : String) : String := s!"unknown log level {Text.quoted word}"

end LogLevel

inductive LogValue where
  | text (s : String)
  | number (v : Number)
  | count (n : Int)
  | flag (b : Bool)
  | names (xs : List String)
  | nothing
deriving DecidableEq, Repr, Inhabited

inductive LogField where
  | attr (key : String) (value : LogValue)
  | group (name : String) (fields : List LogField)

structure LogRecord where
  level : LogLevel
  message : String
  fields : List LogField

namespace LogField

def missingKey : String := "!BADKEY"

def ofArguments : List LogValue → List LogField
  | [] => []
  | [.text s] => [.attr missingKey (.text s)]
  | .text key :: value :: rest => .attr key value :: ofArguments rest
  | value :: rest => .attr missingKey value :: ofArguments rest

end LogField

inductive Event where
  | phaseStarted (phase : String)
  | phaseCompleted (phase : String) (fields : List LogField)
  | guardDecided (block : Nat) (kind operand status : String)
  | solverRound (number : Nat) (narrowed : List String)
  | pointAnalyzed (point via constrained : Nat)
  | handlersGrouped (handlers isrs : Nat)
  | generationFailed (message : String)
  | programWritten (directory : String) (files : Nat)

namespace Event

def record : Event → LogRecord
  | .phaseStarted phase => ⟨.info, "Starting compilation phase", [.attr "phase" (.text phase)]⟩
  | .phaseCompleted phase fields =>
    ⟨.info, "Completed compilation phase", .attr "phase" (.text phase) :: fields⟩
  | .guardDecided block kind operand status =>
    ⟨.debug, "Guard decision",
      [.attr "node" (.count block), .attr "guard" (.text kind), .attr "variable" (.text operand),
        .attr "status" (.text status)]⟩
  | .solverRound number narrowed =>
    ⟨.debug, "Solver round", [.attr "round" (.count number), .attr "narrowed" (.names narrowed)]⟩
  | .pointAnalyzed point via constrained =>
    ⟨.debug, "analyzed program point",
      [.attr "point" (.count point), .attr "from" (.count via), .attr "constrained" (.count constrained)]⟩
  | .handlersGrouped handlers isrs =>
    ⟨.debug, "grouped handlers", [.attr "handlers" (.count handlers), .attr "isrs" (.count isrs)]⟩
  | .generationFailed message => ⟨.error, "code generation failed", [.attr "error" (.text message)]⟩
  | .programWritten directory files =>
    ⟨.info, "Wrote program", [.attr "dir" (.text directory), .attr "files" (.count files)]⟩

def ofRounds (rounds : List (List String)) : List Event :=
  rounds.zipIdx.map fun (narrowed, i) => .solverRound (i + 1) narrowed

end Event

end Blockwork
