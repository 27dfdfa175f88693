import Blockwork.Constraint.Set

set_option autoImplicit false

-- Bringing sets to their simplest form. Unions and intersections are flattened, ranges over integers are
-- listed if they are small, and the ranges of an intersection become one bound that is pushed into its unions.
-- Pushing makes sets that are not parts of the given one, but their unions are nested less deeply, so the
-- nesting of unions bounds the work.

namespace Blockwork

namespace Interval

def reduce (domain : Option ValueType) (i : Interval) : ValueSet :=
  if i.isVoid then .empty
  else if i.isFinite domain && i.count.le (.ofInt maxEnumeration) then
    match i.enumerate domain with
    | .ok [] => .empty
    | .ok vs => .ofValues vs
    | .error _ => .interval i
  else .interval i

end Interval

namespace ValueSet

mutual

def unionDepth : ValueSet → Nat
  | .union ms => maxUnionDepth ms + 1
  | .inter ms => maxUnionDepth ms
  | _ => 0

def maxUnionDepth : List ValueSet → Nat
  | [] => 0
  | m :: ms => max m.unionDepth (maxUnionDepth ms)

end

def isUniversal : ValueSet → Bool
  | .universal _ => true
  | _ => false

def asUnionMembers : ValueSet → List ValueSet
  | .empty => []
  | .union ms => ms
  | m => [m]

def unionOf (domain : Option ValueType) (parts : List ValueSet) : ValueSet :=
  match parts.find? isUniversal with
  | some u => u
  | none =>
    match parts.flatMap asUnionMembers with
    | [] => .empty
    | [m] => m
    | ms =>
      if allFinite domain ms then
        match (ValueSet.union ms).enumerate domain with
        | .ok vs => .ofValues vs
        | .error _ => .union ms
      else .union ms

def asInterMembers : ValueSet → List ValueSet
  | .universal _ => []
  | .inter ms => ms
  | .interval _ => []
  | m => [m]

def tighten (bound : Option Interval) (m : ValueSet) : Option Interval :=
  match m, bound with
  | .interval i, none => some i
  | .interval i, some b => some (b.meet i)
  | _, _ => bound

def boundOf (parts : List ValueSet) : Option Interval := parts.foldl tighten none

def pushBound (deeper : ValueSet → ValueSet) (domain : Option ValueType) (bound : Interval) :
    ValueSet → ValueSet
  | .union ms => unionOf domain (ms.map fun m => deeper (.inter [.interval bound, m]))
  | m => m

def interOfMembers (domain : Option ValueType) : List ValueSet → ValueSet
  | [] => .universal domain
  | [m] => m
  | ms =>
    if anyFinite domain ms then
      match (ValueSet.inter ms).enumerate domain with
      | .ok [] => .empty
      | .ok vs => .ofValues vs
      | .error _ => .inter ms
    else .inter ms

def interOf (deeper : ValueSet → ValueSet) (domain : Option ValueType) (parts : List ValueSet) : ValueSet :=
  if parts.any isEmpty then .empty
  else
    let members := parts.flatMap asInterMembers
    match boundOf parts with
    | none => interOfMembers domain members
    | some bound =>
      let members := members.map (pushBound deeper domain bound)
      let reduced := bound.reduce domain
      if members.any isEmpty || reduced.isEmpty then .empty
      else interOfMembers domain (members ++ [reduced])

mutual

def reduceWith (deeper : ValueSet → ValueSet) (domain : Option ValueType) : ValueSet → ValueSet
  | .interval i => i.reduce domain
  | .union ms => unionOf domain (reduceAll deeper domain ms)
  | .inter ms => interOf deeper domain (reduceAll deeper domain ms)
  | s => s

def reduceAll (deeper : ValueSet → ValueSet) (domain : Option ValueType) : List ValueSet → List ValueSet
  | [] => []
  | m :: ms => m.reduceWith deeper domain :: reduceAll deeper domain ms

end

def reduceWithin (domain : Option ValueType) : Nat → ValueSet → ValueSet
  | 0, s => s.reduceWith id domain
  | depth + 1, s => s.reduceWith (reduceWithin domain depth) domain

def reduce (domain : Option ValueType) (s : ValueSet) : ValueSet := reduceWithin domain s.unionDepth s

end ValueSet

end Blockwork
