import Blockwork.Constraint.Fold

set_option autoImplicit false

namespace Blockwork

abbrev Named (α : Type) := List (String × α)

namespace Named

variable {α : Type}

def get? (entries : Named α) (name : String) : Option α := (entries.find? (·.1 = name)).map (·.2)

def set (entries : Named α) (name : String) (value : α) : Named α :=
  match entries with
  | [] => [(name, value)]
  | (key, old) :: rest =>
    if key = name then (name, value) :: rest else (key, old) :: set rest name value

def insertName (name : String) : List String → List String
  | [] => [name]
  | other :: rest => if name ≤ other then name :: other :: rest else other :: insertName name rest

def names (entries : Named α) : List String := (entries.map (·.1)).foldr insertName []

end Named

structure Constraint where
  expr : Expr
  type : Option ValueType

abbrev Constraints := Named Constraint

abbrev Estimates := Named ValueSet

structure Solution where
  rounds : List (List String)
  estimates : Option Estimates

mutual

-- Is an expression the one that was kept before? Its numbers are those of the constraint, which are the same
-- also where they are undefined. The sets in it are made anew.
def Expr.kept : Expr → Expr → Bool
  | .num v, .num w => v = w || v.eq w
  | .among s, .among t => s.unchanged t
  | .neg e, .neg f => e.kept f
  | .binary op l r, .binary op' l' r' => op == op' && l.kept l' && r.kept r'
  | e, f => e.equal f

def ValueSet.unchanged : ValueSet → ValueSet → Bool
  | .solutions e, .solutions f => e.kept f
  | .union ms, .union ns => ValueSet.allUnchanged ms ns
  | .inter ms, .inter ns => ValueSet.allUnchanged ms ns
  | s, t => s.equal t

def ValueSet.allUnchanged : List ValueSet → List ValueSet → Bool
  | [], [] => true
  | m :: ms, n :: ns => m.unchanged n && ValueSet.allUnchanged ms ns
  | _, _ => false

end

namespace Solver

def defaultLimit : Nat := 64

def effectiveLimit (limit : Int) : Nat := if limit ≤ 0 then defaultLimit else limit.toNat

def domainOf (type : Option ValueType) : Option ValueType := some (type.getD .double)

def fixKnown (known : Named Number) : Expr → Expr :=
  Expr.replace fun leaf =>
    match leaf with
    | .ref r => (known.get? r.name).elim leaf Expr.num
    | leaf => leaf

def fixOthers (self : String) (estimates : Estimates) : Expr → Expr :=
  Expr.replace fun leaf =>
    match leaf with
    | .ref r =>
      if r.name = self then leaf
      else .among ((estimates.get? r.name).getD (.universal r.type))
    | leaf => leaf

structure Goal where
  name : String
  domain : Option ValueType
  expr : Expr

def goals (known : Named Number) (constraints : Constraints) : List Goal :=
  constraints.names.filterMap fun name =>
    match known.get? name, constraints.get? name with
    | none, some c => some ⟨name, domainOf c.type, fixKnown known c.expr.normalize⟩
    | _, _ => none

def estimate (goal : Goal) (estimates : Estimates) : ValueSet :=
  ((fixOthers goal.name estimates goal.expr).fold goal.domain).toSet goal.domain

def round : List Goal → Estimates → List String × Estimates
  | [], estimates => ([], estimates)
  | goal :: rest, estimates =>
    let s := estimate goal estimates
    if (estimates.get? goal.name).any (·.unchanged s) then round rest estimates
    else
      let (changed, estimates) := round rest (estimates.set goal.name s)
      (goal.name :: changed, estimates)

def rounds (goals : List Goal) : Nat → Estimates → Solution
  | 0, _ => ⟨[], none⟩
  | n + 1, estimates =>
    let (changed, estimates) := round goals estimates
    if changed.isEmpty then ⟨[[]], some estimates⟩
    else
      let rest := rounds goals n estimates
      ⟨changed :: rest.rounds, rest.estimates⟩

def solve (known : Named Number) (constraints : Constraints) (limit : Int) : Solution :=
  rounds (goals known constraints) (effectiveLimit limit)
    (known.map fun (name, v) => (name, .ofValues [v]))

def notConverged (limit : Int) : Failure :=
  { kind := .didNotConverge,
    message := s!"Constraint solver did not converge after {effectiveLimit limit} iterations" }

def outcome (limit : Int) (solution : Solution) : Except Failure Estimates :=
  match solution.estimates with
  | some estimates => .ok estimates
  | none => .error (notConverged limit)

def satisfy (known : Named Number) (constraints : Constraints) (limit : Int) : Except Failure Estimates :=
  outcome limit (solve known constraints limit)

end Solver

end Blockwork
