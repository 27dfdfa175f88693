import Blockwork.Block.Dump
import Blockwork.Command.Host
import Blockwork.Document.Format
import Blockwork.Document.Load
import Blockwork.Lint
import Blockwork.Program.Compile
import Blockwork.Text.Numeral

set_option autoImplicit false

namespace Blockwork

inductive LoadFault where
  | unreadable (path : String) (fault : FileFault)
  | invalid (fault : DocumentFault)

def unreadableMessage (path : String) (fault : FileFault) : String := s!"failed to read {path}: {fault.message}"

def LoadFault.message : LoadFault → String
  | .unreadable path fault => unreadableMessage path fault
  | .invalid fault => fault.failure.message

def loadFile {m : Type → Type} [Monad m] [Host m] (path : String) : m (Except LoadFault Graph) := do
  match ← Host.readFile path with
  | .error fault => return .error (.unreadable path fault)
  | .ok text => return (Document.load text).mapError .invalid

structure Session where
  path : String
  graph : Graph
  rounds : Int := Solver.defaultLimit

structure Reply where
  text : String
  quit : Bool := false
  events : List Event := []

namespace Session

def help : String :=
  Graph.lines
    ["Commands:",
      "  :dump            Print the block tree",
      "  :node <id>       Print one block and everything below it",
      "  :ranges <id>     Solve the value ranges known on entry to a statement",
      "  :guards          Show the guard verification report (with proving)",
      "  :scopes          Show the lexical scopes and what each declares",
      "  :cpp             Show the generated main.cpp",
      "  :header          Show the generated devices.h",
      "  :fmt             Show the canonical document",
      "  :lint            Run lint checks",
      "  :reload          Reload the document from disk",
      "  :help            Show this help",
      "  :quit            Leave the shell"]

def blockNumber? (word : String) : Option Nat :=
  let digits := match word.toList with | '#' :: rest => rest | cs => cs
  (Text.natural? digits).filter (· < 0x100000000)

def blockArgument (s : Session) (command : String) (arguments : List String) : Except String Block :=
  match arguments with
  | [word] =>
    match blockNumber? word with
    | none => .error s!"invalid block id {Text.quoted word}\n"
    | some id =>
      match s.graph.block? id with
      | none => .error s!"no block #{id}\n"
      | some b => .ok b
  | _ => .error s!"usage: {command} <id>\n"

def rangeLines (constraints : Constraints) (sets : Estimates) : List String :=
  constraints.names.filterMap fun name =>
    match sets.get? name, constraints.get? name with
    | some set, some c => some s!"{name}: {typeShown c.type} ∈ {set.show}"
    | _, _ => none

def ranges (s : Session) (b : Block) : Reply :=
  if b.kind.category ≠ .statement then ⟨s!"#{b.id} is a {b.kind.name}, not a statement\n", false, []⟩
  else
    match s.graph.analyzeEntry b.id with
    | .error fault => ⟨s!"error: {fault.failure.message}\n", false, []⟩
    | .ok constraints =>
      let solution := Solver.solve [] constraints s.rounds
      let text :=
        match Solver.outcome s.rounds solution with
        | .error failure => s!"error: {failure.message}\n"
        | .ok sets =>
          match rangeLines constraints sets with
          | [] => "nothing is known here\n"
          | shown => Graph.lines shown
      ⟨text, false, s.graph.analyzeEntryEvents b.id ++ Event.ofRounds solution.rounds⟩

def compiled (s : Session) (o : CompileOptions) (shown : Program → String) : Reply :=
  let c := s.graph.compile o
  let text :=
    match c.failed, c.program with
    | false, some p => shown p
    | _, _ => c.diagnostics.format s.path ++ "\n"
  ⟨text, false, s.graph.compileEvents o⟩

def guards (p : Program) : String := if p.guards.isEmpty then "no guards\n" else GuardReport.format p.guards

def header (p : Program) : String := if p.needsHeader then p.header else "program has no devices or handlers\n"

def lint (s : Session) : String :=
  if s.graph.lint.isEmpty then "No lint warnings.\n" else Diagnostics.format s.graph.lint s.path ++ "\n"

def reply (s : Session) (command : String) (arguments : List String) : Reply :=
  match command with
  | ":quit" | ":q" => ⟨"", true, []⟩
  | ":help" => ⟨help, false, []⟩
  | ":dump" => ⟨s.graph.dump, false, []⟩
  | ":node" =>
    match s.blockArgument command arguments with
    | .error text => ⟨text, false, []⟩
    | .ok b => ⟨s.graph.dumpOne b.id, false, []⟩
  | ":ranges" =>
    match s.blockArgument command arguments with
    | .error text => ⟨text, false, []⟩
    | .ok b => s.ranges b
  | ":guards" => s.compiled { prove := true, rounds := s.rounds } guards
  | ":scopes" => s.compiled {} fun p => p.scopes.describe s.graph 0
  | ":cpp" => s.compiled {} Program.main
  | ":header" => s.compiled {} header
  | ":fmt" => ⟨s.graph.format, false, []⟩
  | ":lint" => ⟨s.lint, false, []⟩
  | command => ⟨s!"unknown command {Text.quoted command}. Type :help for commands.\n", false, []⟩

section

variable {m : Type → Type} [Monad m] [Host m]

def reload (s : Session) : m (Session × Reply) := do
  match ← loadFile s.path with
  | .error fault => return (s, ⟨s!"error: {fault.message}\n", false, []⟩)
  | .ok graph => return ({ s with graph }, ⟨s!"reloaded {graph.size} blocks\n", false, []⟩)

def exec (s : Session) (line : String) : m (Session × Reply) :=
  match Text.fields line with
  | [] => return (s, ⟨"", false, []⟩)
  | ":reload" :: _ => s.reload
  | command :: arguments => return (s, s.reply command arguments)

end

end Session

namespace History

def limit : Nat := 1000

def push (history : List String) (line : String) : List String :=
  let longer := history ++ [line]
  if limit < longer.length then longer.drop 1 else longer

def remember (history : List String) (line : String) : List String :=
  if history.getLast? = some line then history else push history line

def ofText (text : String) : List String := (LineInput.lines text).foldl push []

def text (history : List String) : String := Graph.lines history

end History

end Blockwork
