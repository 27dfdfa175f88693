import Blockwork.Command.Emit
import Blockwork.Command.Inspect
import Blockwork.Command.Options
import Blockwork.Program.Source

set_option autoImplicit false

namespace Blockwork

def usage : String :=
  Graph.lines
    ["blockc - block graph to C++ compiler",
      "",
      "Usage:",
      "  blockc build [options] <file.yaml>    Generate main.cpp, devices.h and runtime headers",
      "  blockc check <file.yaml>              Load and generate without writing output",
      "  blockc lint <file.yaml>               Run lint checks for style/best practices",
      "  blockc fmt [-w] <file.yaml>           Print (or rewrite) the canonical document",
      "  blockc inspect <file.yaml>            Open an interactive shell on the graph",
      "",
      "Options:",
      "  -o <path>              Output directory (or binary with --native); defaults to the file's base name",
      "  --native               Compile the generated program with the system c++",
      "  --prove                Elide guards the range analyzer proves redundant",
      "  --max-iterations <n>   Solver round limit for --prove (default 64)",
      "  --report               Print the guard verification report",
      "  -w                     fmt: write the result back to the file",
      "  --log-level <level>    debug, info, warn or error (default warn)",
      "  --log-format <format>  text or json (default text)",
      "  --log-file <path>      Append log records to a file instead of stderr",
      "",
      "Examples:",
      "  blockc build counter.yaml                 Write counter/main.cpp",
      "  blockc build --prove --report counter.yaml",
      "  blockc build --native -o counter counter.yaml",
      "  blockc fmt -w counter.yaml"]

structure LogSink where
  style : LogStyle
  file : Option String

namespace Command

variable {m : Type → Type} [Monad m] [Host m]

def success : UInt32 := 0

def failWith (text : String) : m UInt32 := do
  Host.printError text
  return 1

def report (log : LogSink) (events : List Event) : m Unit :=
  events.forM fun event => do
    let text := log.style.write (← Host.clock) [event.record]
    match log.file with
    | none => Host.printError text
    | some path => discard (Host.appendFile path text)

def openLog (o : CommandOptions) : m (Except String LogSink) := do
  match LogLevel.named? o.logLevel with
  | none => return .error (LogLevel.unknownMessage o.logLevel)
  | some level =>
    let file := if o.logFile.isEmpty then none else some o.logFile
    let opened ← match file with
      | none => pure (.ok ())
      | some path => Host.appendFile path ""
    match opened, LogFormat.named? o.logFormat with
    | .error fault, _ => return .error fault.message
    | .ok _, none => return .error (LogFormat.unknownMessage o.logFormat)
    | .ok _, some format => return .ok ⟨⟨level, format⟩, file⟩

def warningLines (file : String) (ds : Diagnostics) : List String :=
  (Diagnostics.warnings ds).flatMap fun d =>
    s!"{file}:{d.line}:{d.column}: warning: {d.message}" ::
      if d.hint.isEmpty then [] else [s!"  hint: {d.hint}"]

def withProgram (log : LogSink) (o : CommandOptions) (next : Compilation → Program → m UInt32) : m UInt32 := do
  match ← Host.readFile o.file with
  | .error fault => failWith s!"Error reading file: {unreadableMessage o.file fault}\n"
  | .ok text =>
    report log (compileTextEvents text o.compile)
    let c := compileText text o.compile
    match c.failed, c.program with
    | false, some p => do
      Host.print (Graph.lines (warningLines o.file c.diagnostics))
      if o.report then Host.print (GuardReport.format p.guards)
      next c p
    | _, _ => failWith (c.diagnostics.format o.file ++ "\n")

def emitTo (log : LogSink) (c : Compilation) (folder : String) : m UInt32 := do
  match ← (c.emit folder).run with
  | .error fault => failWith s!"Error: {fault.message}\n"
  | .ok paths =>
    report log [.programWritten folder paths.length]
    Host.print (Graph.lines (paths.map fun path => s!"Wrote {path}"))
    return success

def build (log : LogSink) (o : CommandOptions) : m UInt32 :=
  withProgram log o fun c _ =>
    if o.native then do
      Host.print s!"Compiling {o.file}...\n"
      failWith s!"Error: {c.nativeFault.message}\n"
    else emitTo log c (if o.out.isEmpty then Path.stem o.file else o.out)

def check (log : LogSink) (o : CommandOptions) : m UInt32 :=
  withProgram log o fun _ _ => do
    Host.print "No errors found.\n"
    return success

def withGraph (o : CommandOptions) (next : Graph → m UInt32) : m UInt32 := do
  match ← loadFile o.file with
  | .error fault => failWith s!"Error: {fault.message}\n"
  | .ok g => next g

def lint (o : CommandOptions) : m UInt32 :=
  withGraph o fun g => do
    let found := g.lint
    if found.isEmpty then Host.print "No lint warnings.\n"
    else Host.print s!"{Diagnostics.format found o.file}\n{found.length} warning(s) found.\n"
    return success

def format (o : CommandOptions) : m UInt32 :=
  withGraph o fun g => do
    if o.write then
      match ← Host.writeFile o.file g.format with
      | .error fault => failWith s!"Error writing file: {fault.message}\n"
      | .ok () =>
        Host.print s!"Formatted {o.file}\n"
        return success
    else
      Host.print g.format
      return success

def prompt : String := "blockc> "

def converse (log : LogSink) : Nat → Session → List String → m (List String)
  | 0, _, history => pure history
  | fuel + 1, s, history => do
    Host.print prompt
    match ← Host.readLine with
    | none =>
      Host.print "\n"
      return history
    | some line =>
      if (Text.trim line).isEmpty then converse log fuel s history
      else
        let (s, reply) ← s.exec line
        report log reply.events
        Host.print reply.text
        if reply.quit then return History.remember history line
        else converse log fuel s (History.remember history line)

def inspect (log : LogSink) (lines : Nat) (o : CommandOptions) : m UInt32 :=
  withGraph o fun g => do
    Host.print s!"Inspecting {o.file} ({g.size} blocks). Type :help for commands.\n"
    let path := Path.join (← Host.home) ".blockc_history"
    let history := ((← Host.readFile path).toOption.map History.ofText).getD []
    let history ← converse log lines { path := o.file, graph := g, rounds := o.compile.rounds } history
    discard (Host.writeFile path (History.text history))
    return success

def perform (log : LogSink) (lines : Nat) (command : String) (o : CommandOptions) : m UInt32 :=
  match command with
  | "build" => build log o
  | "check" => check log o
  | "lint" => lint o
  | "fmt" => format o
  | "inspect" => inspect log lines o
  | command => failWith s!"Unknown command: {command}\n\n{usage}"

def run (lines : Nat) : List String → m UInt32
  | [] => failWith usage
  | command :: words =>
    if ["help", "--help", "-h"].contains command then do
      Host.print usage
      return success
    else
      match CommandOptions.parse words with
      | .error fault => failWith s!"Error: {fault.message}\n"
      | .ok o => do
        match ← openLog o with
        | .error message => failWith s!"Error: {message}\n"
        | .ok log => perform log lines command o

end Command

-- Runs a command line on a machine. Every line of a session takes at least one character of the input, so its
-- length bounds their number.
def Machine.run (machine : Machine) (words : List String) : UInt32 × Machine :=
  (Command.run (machine.input.length + 1) words : StateM Machine UInt32).run machine

end Blockwork
