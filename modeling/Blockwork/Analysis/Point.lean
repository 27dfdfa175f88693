import Blockwork.Analysis.Compose
import Blockwork.Constraint.Solve
import Blockwork.Log.Record

set_option autoImplicit false

namespace Blockwork

inductive PointFault where
  | noPoint (point : BlockId)
  | notStatement (block : BlockId) (kind : Kind)
  | unanchored (block : BlockId)
  | unreachable (block : BlockId) (kind : Kind) (next : BlockId)
  | noStatement (block : BlockId) (kind : Kind)
  | condition (fault : ComposeFault)
deriving DecidableEq, Repr

def PointFault.failure : PointFault → Failure
  | .noPoint point =>
    { kind := .unrecognizedNode, message := s!"Program point #{point} does not exist" }
  | .notStatement block kind =>
    { kind := .unrecognizedNode, message := s!"Block '{kind.name}' is not a statement", block }
  | .unanchored block =>
    { kind := .unanchoredChain,
      message := "Block chain has no starting point, and so will never be executed!", block }
  | .unreachable block kind next =>
    { kind := .unreachableEdge,
      message := s!"Block #{next} is not reachable from '{kind.name}' block", block }
  | .noStatement block kind =>
    { kind := .unrecognizedNode, message := s!"Unrecognized block '{kind.name}'", block }
  | .condition fault => fault.failure

namespace Constraints

def seed (c : Constraints) (name : String) (type : Option ValueType) : Constraints :=
  c.set name ⟨.truth true, type⟩

def conjoin (known cond : Expr) : Expr :=
  match known with
  | .truth true => cond
  | known => .and known cond

def without (name : String) (e : Expr) : Expr :=
  if e.mentions name then ((e.collate .and).filter (!·.mentions name)).foldl conjoin (.truth true) else e

def assign (c : Constraints) (name : String) (type : Option ValueType) : Constraints :=
  seed (c.map fun (other, k) => if other = name then (other, k) else (other, { k with expr := without name k.expr }))
    name type

def restrict (c : Constraints) (cond : Expr) : Constraints :=
  cond.refs.foldl
    (fun c r =>
      let known := (c.get? r.name).getD ⟨.truth true, r.type⟩
      c.set r.name { known with expr := conjoin known.expr cond })
    c

end Constraints

namespace Graph

def seedDevices (g : Graph) (c : Constraints) : Constraints :=
  g.devices.foldl (fun c d => c.seed d.name d.type) c

def target? (g : Graph) (b : Block) : Option (String × Option ValueType) :=
  (g.slotBlock? b .var).bind fun t => if t.isReference then some (t.name, g.refType t) else none

def assignedIn (g : Graph) (loop : Block) : List (String × Option ValueType) :=
  (g.walk loop.body).filterMap fun b =>
    if b.kind = .assign ∨ b.kind = .input then g.target? b else none

def resetAssigned (g : Graph) (c : Constraints) (loop : Block) : Constraints :=
  (g.assignedIn loop).foldl (fun c (name, type) => c.assign name type) c

def branchOn (g : Graph) (c : Constraints) (b : Block) (holds : Bool) : Except PointFault Constraints :=
  match g.compose (b.slot .cond) with
  | .error fault => .error (.condition (fault.under b.id))
  | .ok cond => .ok (c.restrict (if holds then cond else .neg cond))

def assigned (g : Graph) (c : Constraints) (b : Block) : Constraints :=
  match g.target? b with
  | none => c
  | some (name, type) =>
    let c := c.assign name type
    match g.slotBlock? b .value with
    | some value =>
      match value.kind, value.number? with
      | .literal, some v => c.set name ⟨.eq (.ref ⟨name, type⟩) (.num v), type⟩
      | _, _ => c
    | none => c

def passed (g : Graph) (c : Constraints) (b : Block) (next : BlockId) : Except PointFault Constraints :=
  let unreachable : Except PointFault Constraints := .error (.unreachable b.id b.kind next)
  let onNext (c : Constraints) : Except PointFault Constraints := if next = b.next then .ok c else unreachable
  match b.kind with
  | .start => onNext (g.seedDevices c)
  | .when =>
    if next ≠ b.body then unreachable
    else
      match g.slotBlock? b .cond with
      | none => .ok (g.seedDevices c)
      | some cond => if cond.kind = .interrupt then .ok (g.seedDevices c) else g.branchOn (g.seedDevices c) b true
  | .variableDecl => onNext (c.assign b.name b.type)
  | .assign => onNext (g.assigned c b)
  | .input => onNext ((g.target? b).elim c fun (name, type) => c.assign name type)
  | .print => onNext c
  | .ifThen | .ifElse =>
    if next ≠ 0 ∧ next = b.body then g.branchOn c b true
    else if next ≠ 0 ∧ next = b.otherwise then g.branchOn c b false
    else unreachable
  | .whileLoop =>
    if next = b.body then g.branchOn (g.resetAssigned c b) b true
    else if next = b.next then g.branchOn (g.resetAssigned c b) b false
    else unreachable
  | .forLoop =>
    if next = b.body then .ok (g.resetAssigned (c.assign b.name b.type) b)
    else if next = b.next then .ok (g.resetAssigned c b)
    else unreachable
  | kind => .error (.noStatement b.id kind)

structure Step where
  block : Block
  next : BlockId

-- The way to a point, from the start of the program on. It is found from the point backwards; `way` is what
-- has been found so far.
def wayFrom (g : Graph) (point : BlockId) : Nat → BlockId → BlockId → List Step → Except PointFault (List Step)
  | 0, _, _, _ => .error (.noPoint point)
  | fuel + 1, id, next, way =>
    match g.block? id with
    | none => .error (.noPoint point)
    | some b =>
      if b.kind.category ≠ .statement then .error (.notStatement b.id b.kind)
      else if b.kind.isTop then .ok (⟨b, next⟩ :: way)
      else if b.parent = 0 then .error (.unanchored b.id)
      else g.wayFrom point fuel b.parent b.id (⟨b, next⟩ :: way)

def wayTo (g : Graph) (point next : BlockId) : Except PointFault (List Step) :=
  g.wayFrom point (g.size + 1) point next []

def along (g : Graph) : List Step → Constraints → Except PointFault Constraints
  | [], c => .ok c
  | s :: rest, c =>
    match g.passed c s.block s.next with
    | .error fault => .error fault
    | .ok c => g.along rest c

def analyze (g : Graph) (point next : BlockId) : Except PointFault Constraints :=
  match g.wayTo point next with
  | .error fault => .error fault
  | .ok way => g.along way []

def entryEdge? (g : Graph) (id : BlockId) : Except PointFault (Option (BlockId × BlockId)) :=
  match g.block? id with
  | none => .error (.noPoint id)
  | some b =>
    if b.kind.isTop then .ok none
    else if b.parent = 0 then .error (.unanchored id)
    else .ok (some (b.parent, id))

def analyzeEntry (g : Graph) (id : BlockId) : Except PointFault Constraints :=
  match g.entryEdge? id with
  | .error fault => .error fault
  | .ok none => .ok (g.seedDevices [])
  | .ok (some (point, next)) => g.analyze point next

def analyzeEvents (g : Graph) (point next : BlockId) : List Event :=
  match g.analyze point next with
  | .error _ => []
  | .ok c => [.pointAnalyzed point next c.length]

def analyzeEntryEvents (g : Graph) (id : BlockId) : List Event :=
  match g.entryEdge? id with
  | .ok (some (point, next)) => g.analyzeEvents point next
  | _ => []

end Graph

end Blockwork
