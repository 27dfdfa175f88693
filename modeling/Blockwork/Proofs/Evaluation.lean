import Blockwork.Constraint.Fold
import Blockwork.Proofs.SetMeaning
import Mathlib

set_option autoImplicit false

namespace Blockwork

abbrev Arithmetic := BinaryOp → Quantity → Quantity → Option Quantity

namespace BinaryOp

def isArithmetic : BinaryOp → Bool
  | .add | .sub | .mult | .div | .rem => true
  | _ => false

def ordering? : BinaryOp → Option Ordering
  | .eq => some .eq
  | .lt => some .lt
  | .gt => some .gt
  | _ => none

end BinaryOp

namespace Value

def order? : Value → Value → Option Ordering
  | .number p, .number q => some (cmp p q)
  | .text s, .text t => some (cmp s t)
  | .truth a, .truth b => some (cmp a b)
  | _, _ => none

theorem eq_of_order {v w : Value} (same : v.order? w = some .eq) : v = w := by
  cases v <;> cases w <;> simp_all [order?]

theorem order_number {v : Value} {q : Quantity} {o : Ordering} (order : v.order? (.number q) = some o) :
    ∃ p, v = .number p ∧ cmp p q = o := by
  cases v <;> simp_all [order?]

theorem order_swap (v w : Value) : w.order? v = (v.order? w).map Ordering.swap := by
  cases v <;> cases w <;> simp [order?, cmp_swap]

-- A text literal of one character stands for its code where its neighbour is a number.
def beside (literal : Bool) (v w : Value) : Value :=
  match literal, v, w with
  | true, .text s, .number _ =>
    match s.toList with
    | [c] => .number (.finite c.toNat)
    | _ => .text s
  | _, v, _ => v

def combine? (A : Arithmetic) (op : BinaryOp) : Value → Value → Option Value
  | .number p, .number q => (A op p q).map .number
  | _, _ => none

end Value

namespace Expr

def isText : Expr → Bool
  | .text _ => true
  | _ => false

def value? (A : Arithmetic) (env : String → Value) : Expr → Option Value
  | .num x => x.quantity?.map .number
  | .text s => some (.text s)
  | .ref r => some (env r.name)
  | .truth b => some (.truth b)
  | .binary op l r =>
    if op.isArithmetic then
      match l.value? A env, r.value? A env with
      | some v, some w => Value.combine? A op (v.beside l.isText w) (w.beside r.isText v)
      | _, _ => none
    else none
  | .among _ | .neg _ => none

def order? (A : Arithmetic) (env : String → Value) (l r : Expr) : Option Ordering :=
  match l.value? A env, r.value? A env with
  | some v, some w => (v.beside l.isText w).order? (w.beside r.isText v)
  | _, _ => none

-- The truth of a condition. A connective looks at its second side only if the first leaves it open.
def truth? (A : Arithmetic) (env : String → Value) : Expr → Option Bool
  | .truth b => some b
  | .neg e => (e.truth? A env).map (!·)
  | .binary .and l r =>
    match l.truth? A env with
    | some true => r.truth? A env
    | decided => decided
  | .binary .or l r =>
    match l.truth? A env with
    | some false => r.truth? A env
    | decided => decided
  | .binary op l r => op.ordering?.bind fun wanted => (l.order? A env r).map (· == wanted)
  | _ => none

theorem truth_comparison (A : Arithmetic) (env : String → Value) {op : BinaryOp} {wanted : Ordering} (l r : Expr)
    (comparison : op.ordering? = some wanted) :
    (Expr.binary op l r).truth? A env = (l.order? A env r).map (· == wanted) := by
  cases op <;> simp_all [BinaryOp.ordering?, truth?]

end Expr

end Blockwork
