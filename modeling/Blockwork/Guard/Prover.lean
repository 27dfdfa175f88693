import Blockwork.Analysis.Point
import Blockwork.Guard.Site

set_option autoImplicit false

namespace Blockwork.Prover

def valuesOf (sets : Estimates) (name : String) (type : Option ValueType) : ValueSet :=
  (sets.get? name).getD (.universal type)

def operandSet? (g : Graph) (sets : Estimates) (id : BlockId) (domain : Option ValueType) : Option ValueSet :=
  (g.block? id).bind fun b =>
    match b.kind with
    | .literal => b.number?.map fun v => .ofValues [v]
    | .varRef | .indexRef | .deviceRef =>
      some (valuesOf sets b.name ((g.refType b).orElse fun _ => domain))
    | _ => none

def nonZero (sets : Estimates) (site : GuardSite) : Bool × String :=
  let s := valuesOf sets site.operand site.type
  let zero := s.member .zero
  if !zero.known then (false, s!"cannot decide whether {s.show} ∋ 0")
  else if zero.holds then (false, s!"{site.operand} may be 0: {s.show}")
  else (true, s!"{site.operand} ∈ {s.show}")

def boundsOf? : Option ValueType → Option (Number × Number)
  | some (.primitive p) => p.bounds?
  | _ => none

def inRange (g : Graph) (sets : Estimates) (site : GuardSite) : Bool × String :=
  let type := typeShown site.type
  match boundsOf? site.type with
  | none => (false, s!"{type} has no numeric bounds")
  | some (lo, hi) =>
    match operandSet? g sets site.left site.type, operandSet? g sets site.right site.type with
    | some a, some b =>
      let op : BinaryOp := if site.op = .sub then .sub else .add
      let result := ValueSet.crossAddSub site.type op a b
      let shown := s!"{a.show} {op.symbol} {b.show}"
      if result.isEmpty then (true, "statement is never reached")
      else
        let e := result.extent
        if !e.bounded then (false, s!"{shown} is unbounded")
        else if e.lo.lt lo || hi.lt e.hi then (false, s!"{shown} may leave {type}")
        else (true, s!"{shown} ⊆ {type}")
    | _, _ => (false, "operand is not a variable or literal")

def valuesAt (limit : Int) (g : Graph) (site : GuardSite) : Except Failure Estimates :=
  match g.analyzeEntry site.statement with
  | .error fault => .error fault.failure
  | .ok constraints => Solver.satisfy [] constraints limit

def decide (limit : Int) : GuardPolicy := fun g site =>
  let guarded (status : GuardStatus) (reason : String) : GuardDecision := { site, emit := true, status, reason }
  if site.repeated then guarded .guarded "condition is re-evaluated on every iteration"
  else
    match valuesAt limit g site with
    | .error failure => guarded .error failure.message
    | .ok sets =>
      match (match site.kind with
        | .zeroDivisor => nonZero sets site
        | .overflow => inRange g sets site) with
      | (true, reason) => { site, emit := false, status := .proven, reason }
      | (false, reason) => guarded .guarded reason

def events (limit : Int) (g : Graph) (site : GuardSite) : List Event :=
  if site.repeated then []
  else
    g.analyzeEntryEvents site.statement ++
      match g.analyzeEntry site.statement with
      | .error _ => []
      | .ok constraints => Event.ofRounds (Solver.solve [] constraints limit).rounds

end Blockwork.Prover
