import Blockwork.Diagnostics
import Blockwork.Program.Fragment

set_option autoImplicit false

namespace Blockwork

inductive Piece where
  | line (depth : Nat) (text : String)
  | guard (depth : Nat) (check : Check)
deriving DecidableEq, Repr

def Piece.indented : Piece → Piece
  | .line depth text => .line (depth + 1) text
  | .guard depth check => .guard (depth + 1) check

structure Draft where
  pieces : List Piece := []
  headers : List Header := []
deriving Inhabited

def Draft.append (a b : Draft) : Draft := ⟨a.pieces ++ b.pieces, a.headers ++ b.headers⟩

structure DraftState where
  scopes : Scopes := #[]
  sites : List GuardSite := []
  guards : List GuardDecision := []
  warnings : Diagnostics := []
deriving Inhabited

abbrev Drafting (α : Type) := ExceptT ProgramFault (StateM DraftState) α

namespace Drafting

def fail {α : Type} (fault : ProgramFault) : Drafting α := ExceptT.mk (pure (.error fault))

def openScope (parent : Option Nat) : Drafting Nat := do
  let (scope, scopes) := (← get).scopes.openScope parent
  modify fun s => { s with scopes }
  return scope

def declare (scope : Nat) (b : Block) : Drafting Unit :=
  modify fun s => { s with scopes := s.scopes.declare scope b.id }

def compile (g : Graph) (inHandler : Bool) (scope : Nat) (b : Block) (slot : Slot) (absent : BlockFault) :
    Drafting Fragment := do
  let setting : Setting := { graph := g, scopes := (← get).scopes, scope, inHandler }
  ExceptT.mk (pure (setting.compile (b.fault absent) (g.slotTerm b slot)))

def hoist (g : Graph) (policy : GuardPolicy) (statement : BlockId) (repeated : Bool) :
    List Check → Drafting (List Piece)
  | [] => return []
  | check :: rest => do
    let site := { check.site with statement, repeated }
    let decision := policy g site
    modify fun s => { s with sites := s.sites ++ [site], guards := s.guards ++ [decision] }
    let later ← hoist g policy statement repeated rest
    return if decision.emit then .guard 0 { check with site } :: later else later

def declaration (scope : Nat) (b : Block) : Drafting Draft := do
  match b.type with
  | none => fail (b.fault (.untyped b.name))
  | some type =>
    declare scope b
    return ⟨[.line 0 (type.code ++ " " ++ b.name ++ ";")], type.headers.map .system⟩

def assignment (g : Graph) (policy : GuardPolicy) (inHandler : Bool) (scope : Nat) (b : Block) :
    Drafting Draft := do
  if (g.slotBlock? b .var).isNone then fail (b.fault .missingTarget)
  let value ← compile g inHandler scope b .value .missingValue
  let target ← compile g inHandler scope b .var .missingTarget
  if !target.assignable then fail (b.fault (.notAssignable target.code))
  if target.type ≠ value.type then fail (b.fault .valueType)
  let guards ← hoist g policy b.id false (value.checks ++ target.checks)
  return ⟨guards ++ [Piece.line 0 (target.code ++ " = " ++ value.within .assignment true ++ ";")], []⟩

def output (g : Graph) (policy : GuardPolicy) (inHandler : Bool) (scope : Nat) (b : Block) :
    Drafting Draft := do
  let value ← compile g inHandler scope b .value .missingPrinted
  let guards ← hoist g policy b.id false value.checks
  return ⟨guards ++ [Piece.line 0 ("std::cout << " ++ value.within .shift true ++ " << std::endl;")],
    [.system "iostream"]⟩

def inputLines (target : Fragment) : List Piece :=
  if target.type = some .byte then
    [.line 0 "\x7b", .line 1 "int __tmp;", .line 1 "std::cin >> __tmp;",
      .line 1 (target.code ++ " = (char)__tmp;"), .line 0 "\x7d"]
  else [.line 0 ("std::cin >> " ++ target.within .shift true ++ ";")]

def input (g : Graph) (policy : GuardPolicy) (inHandler : Bool) (scope : Nat) (b : Block) :
    Drafting Draft := do
  let target ← compile g inHandler scope b .var .missingRead
  if !target.assignable then fail (b.fault (.notReadable target.code))
  let guards ← hoist g policy b.id false target.checks
  return ⟨guards ++ inputLines target, [.system "iostream"]⟩

def condition (g : Graph) (inHandler : Bool) (scope : Nat) (b : Block) : Drafting Fragment := do
  let cond ← compile g inHandler scope b .cond (.missingCondition b.kind)
  if cond.type ≠ some .bool then fail (b.fault (.conditionType b.kind))
  return cond

def warnEndless (b : Block) : Drafting Unit :=
  modify fun s =>
    { s with
      warnings :=
        s.warnings ++
          [.warning s!"for loop over '{b.name}' has its bounds ignored and never terminates on its own" b.id
            b.line b.column ""] }

def chain (g : Graph) (policy : GuardPolicy) (inHandler : Bool) (scope : Nat) : Chain → Drafting Draft
  | .nil => return {}
  | .cons b body otherwise rest => do
    let first : Draft ←
      match b.kind with
      | .variableDecl => declaration scope b
      | .assign => assignment g policy inHandler scope b
      | .print => output g policy inHandler scope b
      | .input => input g policy inHandler scope b
      | .ifThen => do
        let cond ← condition g inHandler scope b
        let inner ← openScope (some scope)
        let affirmed ← chain g policy inHandler inner body
        let guards ← hoist g policy b.id false cond.checks
        pure ⟨guards ++ [Piece.line 0 ("if (" ++ cond.code ++ ") \x7b")] ++ affirmed.pieces.map (·.indented) ++
          [.line 0 "\x7d"], affirmed.headers⟩
      | .ifElse => do
        let cond ← condition g inHandler scope b
        let inner ← openScope (some scope)
        let affirmed ← chain g policy inHandler inner body
        let guards ← hoist g policy b.id false cond.checks
        let other ← openScope (some scope)
        let denied ← chain g policy inHandler other otherwise
        pure ⟨guards ++ [Piece.line 0 ("if (" ++ cond.code ++ ") \x7b")] ++ affirmed.pieces.map (·.indented) ++
          [.line 0 "\x7d else \x7b"] ++ denied.pieces.map (·.indented) ++ [Piece.line 0 "\x7d"],
          affirmed.headers ++ denied.headers⟩
      | .whileLoop => do
        let cond ← condition g inHandler scope b
        let inner ← openScope (some scope)
        let repeated ← chain g policy inHandler inner body
        let guards ← hoist g policy b.id true cond.checks
        pure ⟨guards ++ [Piece.line 0 ("while (" ++ cond.code ++ ") \x7b")] ++
          (repeated.pieces ++ guards).map (·.indented) ++ [Piece.line 0 "\x7d"], repeated.headers⟩
      | .forLoop => do
        let inner ← openScope (some scope)
        declare inner b
        let repeated ← chain g policy inHandler inner body
        warnEndless b
        pure ⟨[Piece.line 0 "for (;true;) \x7b"] ++ repeated.pieces.map (·.indented) ++ [Piece.line 0 "\x7d"],
          repeated.headers⟩
      | kind => fail (b.fault (.notStatement kind))
    let later ← chain g policy inHandler scope rest
    return first.append later

end Drafting

structure HandlerDraft where
  interrupt : String
  draft : Draft
deriving Inhabited

def tickName : String := "tick"

def counterLines (times : Int) : List Piece :=
  if times = unbounded then []
  else
    [.line 0 "static int __isr_exec_ct = 0;", .line 0 s!"if (__isr_exec_ct >= {times}) return;",
      .line 0 "__isr_exec_ct++;"]

namespace Drafting

def handler (g : Graph) (policy : GuardPolicy) (root : Nat) (id : BlockId) : Drafting HandlerDraft := do
  match g.block? id with
  | none => fail .notHandler
  | some b =>
    if b.kind ≠ .when then fail .notHandler
    else
      match g.slotBlock? b .cond with
      | none => fail (b.fault .missingTrigger)
      | some trigger =>
        let scope ← openScope (some root)
        if trigger.kind = .interrupt then
          let body ← chain g policy true scope (g.chainTree b.body)
          return ⟨trigger.name, ⟨counterLines b.times ++ body.pieces, body.headers⟩⟩
        else
          let cond ← condition g true scope b
          let body ← chain g policy true scope (g.chainTree b.body)
          let guards ← hoist g policy b.id true cond.checks
          return ⟨tickName,
            ⟨guards ++ [Piece.line 0 ("if (" ++ cond.code ++ ") \x7b")] ++
              (counterLines b.times ++ body.pieces).map (·.indented) ++ [Piece.line 0 "\x7d"], body.headers⟩⟩

def handlers (g : Graph) (policy : GuardPolicy) (root : Nat) : List BlockId → Drafting (List HandlerDraft)
  | [] => return []
  | id :: rest => do
    let first ← handler g policy root id
    let later ← handlers g policy root rest
    return first :: later

end Drafting

structure ProgramDraft where
  main : Draft
  handlers : List HandlerDraft
deriving Inhabited

def Drafting.program (g : Graph) (policy : GuardPolicy) : Drafting ProgramDraft := do
  match g.block? g.main with
  | none => fail .noStart
  | some start =>
    if start.kind ≠ .start then fail .noStart
    else
      let root ← openScope none
      let scope ← openScope (some root)
      let main ← chain g policy false scope (g.chainTree start.next)
      let handlers ← handlers g policy root g.handlers
      return { main, handlers }

end Blockwork
