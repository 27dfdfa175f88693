import Blockwork.Constraint.Ground

set_option autoImplicit false

namespace Blockwork.Expr

mutual

def normalize : Expr → Expr
  | .binary .and l r => .binary .and l.normalize r.normalize
  | .binary .or l r => .binary .or l.normalize r.normalize
  | .neg e => e.negate
  | e => e

def negate : Expr → Expr
  | .truth b => .truth (!b)
  | .neg e => e.normalize
  | .binary .and l r => .binary .or l.negate r.negate
  | .binary .or l r => .binary .and l.negate r.negate
  | .binary .gt l r => .or (.lt l r) (.eq l r)
  | .binary .lt l r => .or (.gt l r) (.eq l r)
  | .binary .eq l r => .or (.lt l r) (.gt l r)
  | e => .neg e

end

def decideBounds? (op : BinaryOp) (a b : Extent) : Option Bool :=
  match op with
  | .gt => if b.hi.lt a.lo then some true else if a.hi.le b.lo then some false else none
  | .lt => if a.hi.lt b.lo then some true else if b.hi.le a.lo then some false else none
  | .eq =>
    if a.lo.eq a.hi && b.lo.eq b.hi && a.lo.eq b.lo then some true
    else if a.hi.lt b.lo || b.hi.lt a.lo then some false
    else none
  | _ => none

def decideGround? (domain : Option ValueType) (op : BinaryOp) (l r : Expr) : Option Bool :=
  match l.evaluate domain, r.evaluate domain with
  | .ok a, .ok b =>
    if a.isEmpty || b.isEmpty then some false
    else if a.extent.bounded && b.extent.bounded then decideBounds? op a.extent b.extent
    else none
  | _, _ => none

def foldAnd : Expr → Expr → Expr
  | .truth false, _ => .truth false
  | _, .truth false => .truth false
  | .truth true, r => r
  | l, .truth true => l
  | l, r => .and l r

def foldOr : Expr → Expr → Expr
  | .truth true, _ => .truth true
  | _, .truth true => .truth true
  | .truth false, r => r
  | l, .truth false => l
  | l, r => .or l r

def foldNeg : Expr → Expr
  | .truth b => .truth (!b)
  | e => .neg e

def foldSum (domain : Option ValueType) (e : Expr) : Expr :=
  match e.evaluate domain with
  | .ok s => .among s
  | .error _ => e

def foldHead (domain : Option ValueType) : Expr → Expr
  | .binary .and l r => foldAnd l r
  | .binary .or l r => foldOr l r
  | .neg e => foldNeg e
  | .binary .add l r => foldSum domain (.binary .add l r)
  | .binary .sub l r => foldSum domain (.binary .sub l r)
  | .binary op l r =>
    if op.isComparison then
      match decideGround? domain op l r with
      | some b => .truth b
      | none => .binary op l r
    else .binary op l r
  | e => e

def foldUpTo (domain : Option ValueType) : Nat → Expr → Expr
  | 0, e => e
  | n + 1, e =>
    let next := e.transform (foldHead domain)
    if next.equal e then next else foldUpTo domain n next

def maxPasses : Nat := 32

def fold (domain : Option ValueType) (e : Expr) : Expr := foldUpTo domain maxPasses e

end Blockwork.Expr
