import Blockwork.Number.Basic
import Blockwork.ValueType.Basic

set_option autoImplicit false

namespace Blockwork

inductive BinaryOp where
  | and
  | or
  | eq
  | lt
  | gt
  | add
  | sub
  | mult
  | div
  | rem
deriving DecidableEq, Repr, Inhabited

namespace BinaryOp

def symbol : BinaryOp → String
  | .and => "∧"
  | .or => "∨"
  | .eq => "="
  | .lt => "<"
  | .gt => ">"
  | .add => "+"
  | .sub => "-"
  | .mult => "×"
  | .div => "÷"
  | .rem => "%"

def isComparison : BinaryOp → Bool
  | .eq | .lt | .gt => true
  | _ => false

end BinaryOp

inductive Operator where
  | value
  | truth (b : Bool)
  | neg
  | binary (op : BinaryOp)
deriving DecidableEq, Repr, Inhabited

namespace Operator

def symbol : Operator → String
  | .value => "val"
  | .truth b => if b then "true" else "false"
  | .neg => "~"
  | .binary op => op.symbol

def isBinary : Operator → Bool
  | .binary _ => true
  | _ => false

def isComparison : Operator → Bool
  | .binary op => op.isComparison
  | _ => false

def coded : List Operator :=
  [.value, .truth true, .truth false, .neg, .binary .and, .binary .or, .binary .eq, .binary .lt,
    .binary .gt, .binary .add, .binary .sub, .binary .mult, .binary .div, .binary .rem]

def describe (code : Int) : String × Bool × Bool :=
  match (if code < 0 then none else coded[code.toNat]?) with
  | some op => (op.symbol, op.isBinary, op.isComparison)
  | none => ("?", 0 < code, false)

end Operator

structure Reference where
  name : String
  type : Option ValueType
deriving DecidableEq, Repr, Inhabited

structure Interval where
  lo : Number
  hi : Number
  loExclusive : Bool := false
  hiExclusive : Bool := false
deriving DecidableEq, Repr, Inhabited

mutual

inductive Expr where
  | num (v : Number)
  | text (s : String)
  | ref (r : Reference)
  | among (s : ValueSet)
  | truth (b : Bool)
  | neg (e : Expr)
  | binary (op : BinaryOp) (l r : Expr)

inductive ValueSet where
  | universal (t : Option ValueType)
  | empty
  | values (vs : List Number)
  | interval (i : Interval)
  | union (members : List ValueSet)
  | inter (members : List ValueSet)
  | solutions (e : Expr)

end

instance : Inhabited Expr := ⟨.truth true⟩

instance : Inhabited ValueSet := ⟨.empty⟩

namespace Expr

def operator : Expr → Operator
  | .num _ | .text _ | .ref _ | .among _ => .value
  | .truth b => .truth b
  | .neg _ => .neg
  | .binary op _ _ => .binary op

def isRef : Expr → Bool
  | .ref _ => true
  | _ => false

abbrev and (l r : Expr) : Expr := .binary .and l r
abbrev or (l r : Expr) : Expr := .binary .or l r
abbrev eq (l r : Expr) : Expr := .binary .eq l r
abbrev lt (l r : Expr) : Expr := .binary .lt l r
abbrev gt (l r : Expr) : Expr := .binary .gt l r

def replace (f : Expr → Expr) : Expr → Expr
  | .truth b => .truth b
  | .neg e => .neg (e.replace f)
  | .binary op l r => .binary op (l.replace f) (r.replace f)
  | leaf => f leaf

def transform (f : Expr → Expr) : Expr → Expr
  | .neg e => f (.neg (e.transform f))
  | .binary op l r => f (.binary op (l.transform f) (r.transform f))
  | leaf => f leaf

def visits (f : Expr → Expr) : Expr → List Expr
  | .neg e => e.visits f ++ [.neg (e.transform f)]
  | .binary op l r => l.visits f ++ r.visits f ++ [.binary op (l.transform f) (r.transform f)]
  | leaf => [leaf]

def occurrences : Expr → List Reference
  | .ref r => [r]
  | .neg e => e.occurrences
  | .binary _ l r => l.occurrences ++ r.occurrences
  | _ => []

def firstRef? (e : Expr) : Option Reference := e.occurrences.head?

def isGround (e : Expr) : Bool := e.occurrences.isEmpty

def firstOfEachName : List Reference → List Reference
  | [] => []
  | r :: rest => r :: (firstOfEachName rest).filter (·.name ≠ r.name)

def refs (e : Expr) : List Reference := firstOfEachName e.occurrences

def mentions (e : Expr) (name : String) : Bool := e.occurrences.any (·.name = name)

def collate (op : BinaryOp) : Expr → List Expr
  | .binary op' l r => if op' = op then l.collate op ++ r.collate op else [.binary op' l r]
  | e => [e]

end Expr

namespace Number

def memberOf (vs : List Number) (v : Number) : Bool := vs.any (·.eq v)

def distinctFrom (seen : List Number) : List Number → List Number
  | [] => []
  | v :: rest =>
    if memberOf seen v then distinctFrom seen rest else v :: distinctFrom (v :: seen) rest

def ascending : List Number → Bool
  | v :: w :: rest => v.lt w && ascending (w :: rest)
  | _ => true

def distinct (vs : List Number) : List Number := if ascending vs then vs else distinctFrom [] vs

end Number

end Blockwork
