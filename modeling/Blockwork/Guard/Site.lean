import Blockwork.Block.Graph
import Blockwork.Log.Record

set_option autoImplicit false

namespace Blockwork

inductive GuardKind where
  | overflow
  | zeroDivisor
deriving DecidableEq, Repr, Inhabited

namespace GuardKind

def name : GuardKind → String
  | .overflow => "overflow"
  | .zeroDivisor => "zero-divisor"

def ofCode (code : Int) : GuardKind := if code = 1 then .zeroDivisor else .overflow

end GuardKind

structure GuardSite where
  kind : GuardKind
  op : Kind
  block : BlockId
  statement : BlockId
  operand : String
  other : String
  type : Option ValueType
  left : BlockId
  right : BlockId
  repeated : Bool
deriving DecidableEq, Repr, Inhabited

inductive GuardStatus where
  | proven
  | guarded
  | error
  | other (name : String)
deriving DecidableEq, Repr, Inhabited

namespace GuardStatus

def name : GuardStatus → String
  | .proven => "proven"
  | .guarded => "guarded"
  | .error => "error"
  | .other name => name

def named (name : String) : GuardStatus :=
  match name with
  | "proven" => .proven
  | "guarded" => .guarded
  | "error" => .error
  | name => .other name

def rank : GuardStatus → Nat
  | .proven => 0
  | .guarded => 1
  | .error => 2
  | .other _ => 3

end GuardStatus

structure GuardDecision where
  site : GuardSite
  emit : Bool
  status : GuardStatus
  reason : String
deriving DecidableEq, Repr, Inhabited

abbrev GuardPolicy := Graph → GuardSite → GuardDecision

def GuardPolicy.always : GuardPolicy := fun _ site =>
  { site, emit := true, status := .guarded, reason := "not analyzed" }

def GuardDecision.event (d : GuardDecision) : Event :=
  .guardDecided d.site.block d.site.kind.name d.site.operand d.status.name

end Blockwork
