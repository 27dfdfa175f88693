import Blockwork.Constraint.Expr

set_option autoImplicit false

namespace Blockwork

namespace Interval

def equalBy (same : Number → Number → Bool) (a b : Interval) : Bool :=
  same a.lo b.lo && same a.hi b.hi && a.loExclusive == b.loExclusive && a.hiExclusive == b.hiExclusive

end Interval

namespace Number

def agreeInOrder (same : Number → Number → Bool) : List Number → List Number → Bool
  | [], [] => true
  | v :: vs, w :: ws => same w v && agreeInOrder same vs ws
  | _, _ => false

def matching (same : Number → Number → Bool) (vs ws : List Number) : Bool :=
  vs.length == ws.length && (agreeInOrder same vs ws || vs.all fun v => ws.any (same · v))

end Number

mutual

def Expr.equalBy (same : Number → Number → Bool) : Expr → Expr → Bool
  | .num v, .num w => same v w
  | .text s, .text t => s == t
  | .ref r, .ref q => r == q
  | .among s, .among t => s.equalBy same t
  | .truth b, .truth c => b == c
  | .neg e, .neg f => e.equalBy same f
  | .binary op l r, .binary op' l' r' => op == op' && l.equalBy same l' && r.equalBy same r'
  | _, _ => false

def ValueSet.equalBy (same : Number → Number → Bool) : ValueSet → ValueSet → Bool
  | .universal t, .universal u => t == u
  | .empty, .empty => true
  | .values vs, .values ws => Number.matching same vs ws
  | .interval i, .interval j => i.equalBy same j
  | .union ms, .union ns => ValueSet.allEqualBy same ms ns
  | .inter ms, .inter ns => ValueSet.allEqualBy same ms ns
  | .solutions e, .solutions f => e.equalBy same f
  | _, _ => false

def ValueSet.allEqualBy (same : Number → Number → Bool) : List ValueSet → List ValueSet → Bool
  | [], [] => true
  | m :: ms, n :: ns => m.equalBy same n && ValueSet.allEqualBy same ms ns
  | _, _ => false

end

namespace Expr

def equal (a b : Expr) : Bool := a.equalBy Number.eq b

end Expr

namespace ValueSet

def equal (a b : ValueSet) : Bool := a.equalBy Number.eq b

end ValueSet

end Blockwork
