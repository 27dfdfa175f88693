import Blockwork.Block.Graph
import Blockwork.Diagnostics

set_option autoImplicit false

namespace Blockwork

structure Usage where
  targets : List BlockId := []
  read : List BlockId := []
  written : List BlockId := []
  guarded : List BlockId := []
  devices : List String := []
deriving Inhabited

namespace Usage

def guards (g : Graph) (u : Usage) (operand : BlockId) : Usage :=
  match g.block? operand with
  | some b => if b.kind = .varRef then { u with guarded := b.decl :: u.guarded } else u
  | none => u

def visit (g : Graph) (u : Usage) (b : Block) : Usage :=
  match b.kind with
  | .assign | .input =>
    match g.slotBlock? b .var with
    | some t =>
      { u with targets := t.id :: u.targets,
               written := if t.kind = .varRef then t.decl :: u.written else u.written }
    | none => u
  | .varRef | .indexRef => if u.targets.contains b.id then u else { u with read := b.decl :: u.read }
  | .deviceRef => { u with devices := b.name :: u.devices }
  | .add | .sub => (u.guards g (b.slot .left)).guards g (b.slot .right)
  | .div | .mod => u.guards g (b.slot .right)
  | _ => u

end Usage

namespace Graph

def reachable (g : Graph) : List Block := g.roots.flatMap g.walk

def usage (g : Graph) : Usage := g.reachable.foldl (Usage.visit g) {}

end Graph

namespace Lint

def isIdentifierStart (c : Char) : Bool := c.isAlpha || c = '_'

def isIdentifier (name : String) : Bool :=
  match name.toList with
  | [] => false
  | c :: cs => isIdentifierStart c && cs.all fun c => isIdentifierStart c || c.isDigit

def warn (b : Block) (message : String) (hint : String := "") : Diagnostic :=
  .warning message b.id b.line b.column hint

def naming (b : Block) : Diagnostics :=
  if !isIdentifier b.name then [warn b s!"'{b.name}' is not a valid C++ identifier"]
  else if b.name.startsWith "__" then
    [warn b s!"'{b.name}' uses the reserved '__' prefix" "generated interrupt handlers are named __isr_<name>"]
  else []

def unused (u : Usage) (b : Block) : Diagnostics :=
  match u.read.contains b.id, u.written.contains b.id with
  | false, false => [warn b s!"variable '{b.name}' is declared but never used" "remove the declaration"]
  | false, true => [warn b s!"variable '{b.name}' is assigned but never read"]
  | true, false =>
    [warn b s!"variable '{b.name}' is read but never assigned" "set it or read it with an input block first"]
  | true, true => []

def unguarded (u : Usage) (b : Block) : Diagnostics :=
  if b.checked && !u.guarded.contains b.id then
    [warn b s!"checked variable '{b.name}' is never an operand of a guarded operation"
      "drop 'checked' or use it in add, sub, div or mod"]
  else []

def emptyBody (b : Block) : Diagnostics :=
  (if b.body = 0 then [warn b s!"'{b.kind.name}' block has an empty body"] else []) ++
    (if b.kind = .ifElse ∧ b.otherwise = 0 then [warn b s!"'{b.kind.name}' block has an empty else branch"] else [])

def neverRuns (b : Block) : Diagnostics :=
  if b.times = 0 then [warn b "handler is limited to 0 runs and never executes"] else []

def block (u : Usage) (b : Block) : Diagnostics :=
  match b.kind with
  | .variableDecl => naming b ++ unused u b ++ unguarded u b
  | .forLoop => naming b ++ emptyBody b
  | .ifThen | .ifElse | .whileLoop => emptyBody b
  | .when => emptyBody b ++ neverRuns b
  | _ => []

def device (u : Usage) (d : Device) : Diagnostics :=
  if u.devices.contains d.name then []
  else [.warning s!"device '{d.name}' is declared but never used" 0 0 0 ""]

end Lint

def Graph.lint (g : Graph) : Diagnostics :=
  let u := g.usage
  g.reachable.flatMap (Lint.block u) ++ g.devices.flatMap (Lint.device u)

end Blockwork
