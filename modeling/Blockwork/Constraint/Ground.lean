import Blockwork.Constraint.Reduce

set_option autoImplicit false

namespace Blockwork

inductive ExprFault where
  | unsupportedOperator (op : Operator)
  | notGround (name : String)
  | notComparison (e : Expr)

def ExprFault.failure : ExprFault → Failure
  | .unsupportedOperator op =>
    { kind := .unsupportedGroundOp, message := s!"Unsupported ground operator '{op.symbol}'" }
  | .notGround name =>
    { kind := .unrecognizedExpression, message := s!"Cannot simplify expression referencing '{name}'" }
  | .notComparison e =>
    { kind := .unrecognizedExpression, message := s!"Cannot reduce '{e.show}' to a set" }

namespace ValueSet

def combine : BinaryOp → Number → Number → Number
  | .add, x, y => x.add y
  | _, x, y => x.sub y

def crossValues? (domain : Option ValueType) (op : BinaryOp) (a b : ValueSet) : Option (List Number) :=
  if a.isFinite domain && b.isFinite domain then
    match a.enumerate domain, b.enumerate domain with
    | .ok av, .ok bv =>
      if av.length * bv.length ≤ maxEnumeration then
        some (av.flatMap fun x => bv.map fun y => combine op x y)
      else none
    | _, _ => none
  else none

def crossExtents (domain : Option ValueType) (op : BinaryOp) (a b : Extent) : ValueSet :=
  if !a.bounded || !b.bounded then .universal domain
  else
    let (lo, hi) :=
      if op = .add then (a.lo.add b.lo, a.hi.add b.hi) else (a.lo.sub b.hi, a.hi.sub b.lo)
    if lo.isNaN || hi.isNaN then .universal domain else .interval ⟨lo, hi, false, false⟩

def crossAddSub (domain : Option ValueType) (op : BinaryOp) (a b : ValueSet) : ValueSet :=
  if a.isEmpty || b.isEmpty then .empty
  else
    match crossValues? domain op a b with
    | some vs => .ofValues vs
    | none => crossExtents domain op a.extent b.extent

def cross (domain : Option ValueType) (op : Operator) (a b : ValueSet) : Except ExprFault ValueSet :=
  match op with
  | .binary .add => .ok (crossAddSub domain .add a b)
  | .binary .sub => .ok (crossAddSub domain .sub a b)
  | op => .error (.unsupportedOperator op)

end ValueSet

namespace Expr

def groundValues (domain : Option ValueType) : Expr → Except ExprFault ValueSet
  | .num v => .ok (.ofValues [v])
  | .among s => .ok s
  | .text _ => .ok (.universal (some .string))
  | .ref r => .error (.notGround r.name)
  | .binary .add l r =>
    match l.groundValues domain, r.groundValues domain with
    | .ok a, .ok b => .ok (ValueSet.crossAddSub domain .add a b)
    | .error e, _ => .error e
    | _, .error e => .error e
  | .binary .sub l r =>
    match l.groundValues domain, r.groundValues domain with
    | .ok a, .ok b => .ok (ValueSet.crossAddSub domain .sub a b)
    | .error e, _ => .error e
    | _, .error e => .error e
  | e => .error (.unsupportedOperator e.operator)

def evaluate (domain : Option ValueType) (e : Expr) : Except ExprFault ValueSet :=
  match e.firstRef? with
  | some r => .error (.notGround r.name)
  | none => e.groundValues domain

-- The values a variable may take so that it compares with some value of a ground side as stated. `above` says
-- that the variable is on the greater side.
def rangeAgainst (domain : Option ValueType) (op : BinaryOp) (above : Bool) (other : Expr) : ValueSet :=
  match other.evaluate domain with
  | .error _ => .universal domain
  | .ok bound =>
    if bound.isEmpty then .empty
    else if op = .eq then bound
    else
      let e := bound.extent
      if !e.bounded then .universal domain
      else if above then .interval ⟨e.lo, .posInf, true, false⟩
      else .interval ⟨.negInf, e.hi, false, true⟩

def comparisonRange (domain : Option ValueType) : Expr → Except ExprFault ValueSet
  | .binary op l r =>
    if !op.isComparison then .error (.notComparison (.binary op l r))
    else if l.isRef then .ok (rangeAgainst domain op (op = .gt) r)
    else if r.isRef then .ok (rangeAgainst domain op (op ≠ .gt) l)
    else .ok (.universal domain)
  | e => .error (.notComparison e)

def comparisonSet (domain : Option ValueType) (e : Expr) : ValueSet :=
  if e.isGround then .universal domain
  else
    match e.comparisonRange domain with
    | .ok s => s
    | .error _ => .solutions e

def atomSet (domain : Option ValueType) : Expr → ValueSet
  | .truth b => if b then .universal domain else .empty
  | .num v => .ofValues [v]
  | .among s => s
  | .text _ => .universal (some .string)
  | .binary op l r =>
    if op.isComparison then comparisonSet domain (.binary op l r) else .solutions (.binary op l r)
  | e => .solutions e

def partSets (domain : Option ValueType) (op : BinaryOp) : Expr → List ValueSet
  | .binary .and l r =>
    let parts := l.partSets domain .and ++ r.partSets domain .and
    if op = .and then parts else [.inter parts]
  | .binary .or l r =>
    let parts := l.partSets domain .or ++ r.partSets domain .or
    if op = .or then parts else [.union parts]
  | e => [e.atomSet domain]

def describedSet (domain : Option ValueType) : Expr → ValueSet
  | .binary .and l r => .inter (l.partSets domain .and ++ r.partSets domain .and)
  | .binary .or l r => .union (l.partSets domain .or ++ r.partSets domain .or)
  | e => e.atomSet domain

def toSet (domain : Option ValueType) (e : Expr) : ValueSet := (e.describedSet domain).reduce domain

end Expr

end Blockwork
