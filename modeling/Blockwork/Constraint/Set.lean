import Blockwork.Constraint.Equality
import Blockwork.Constraint.Text
import Blockwork.Failure

set_option autoImplicit false

namespace Blockwork

def maxEnumeration : Nat := 4096

inductive SetFault where
  | infinite
  | infiniteInterval
  | tooMany (interval : Interval)
  | infiniteUnion
  | infiniteInter
deriving DecidableEq, Repr

def SetFault.failure : SetFault → Failure
  | .infinite => { kind := .infiniteSet, message := "Enumerating infinite set" }
  | .infiniteInterval => { kind := .infiniteSet, message := "Enumerating infinite interval" }
  | .tooMany i =>
    { kind := .infiniteSet, message := s!"interval {i.text} has more than {maxEnumeration} members" }
  | .infiniteUnion => { kind := .infiniteSet, message := "Enumerating infinite union" }
  | .infiniteInter => { kind := .infiniteSet, message := "Enumerating infinite intersection" }

def isIntegralDomain (domain : Option ValueType) : Bool := domain.any (·.isIntegral)

namespace Interval

def first (i : Interval) : Number :=
  let first := i.lo.ceil
  if i.loExclusive && first.eq i.lo then first.add .one else first

def last (i : Interval) : Number :=
  let last := i.hi.floor
  if i.hiExclusive && last.eq i.hi then last.sub .one else last

def count (i : Interval) : Number :=
  if i.last.lt i.first then .zero else (i.last.sub i.first).add .one

def isFinite (domain : Option ValueType) (i : Interval) : Bool :=
  isIntegralDomain domain && !i.lo.isInfinite && !i.hi.isInfinite

def contains (i : Interval) (v : Number) : Bool :=
  !(v.lt i.lo || (i.loExclusive && v.eq i.lo)) && !(i.hi.lt v || (i.hiExclusive && v.eq i.hi))

-- The numbers from one up to another, each one more than that before it, at most so many. From 2^53 on one more may
-- be the same number.
def steps (last : Number) : Nat → Number → List Number
  | 0, _ => []
  | n + 1, v => if v.le last then v :: steps last n (v.add .one) else []

def countNat (i : Interval) : Nat := (i.count.toRat?.map (·.floor.toNat)).getD 0

def enumerate (domain : Option ValueType) (i : Interval) : Except SetFault (List Number) :=
  if !i.isFinite domain then .error .infiniteInterval
  else if i.count.le (.ofInt maxEnumeration) then .ok (steps i.last i.countNat i.first)
  else .error (.tooMany i)

def isVoid (i : Interval) : Bool := i.hi.lt i.lo || (i.lo.eq i.hi && (i.loExclusive || i.hiExclusive))

def meet (a b : Interval) : Interval :=
  let (lo, loExclusive) :=
    if a.lo.lt b.lo then (b.lo, b.loExclusive)
    else if b.lo.eq a.lo then (a.lo, a.loExclusive || b.loExclusive)
    else (a.lo, a.loExclusive)
  let (hi, hiExclusive) :=
    if b.hi.lt a.hi then (b.hi, b.hiExclusive)
    else if b.hi.eq a.hi then (a.hi, a.hiExclusive || b.hiExclusive)
    else (a.hi, a.hiExclusive)
  ⟨lo, hi, loExclusive, hiExclusive⟩

end Interval

structure Membership where
  holds : Bool
  known : Bool
deriving DecidableEq, Repr

structure Extent where
  lo : Number
  hi : Number
  bounded : Bool
deriving DecidableEq, Repr

def Extent.unbounded : Extent := ⟨.zero, .zero, false⟩

namespace ValueSet

def ofValues (vs : List Number) : ValueSet := .values (Number.distinct vs)

def isEmpty : ValueSet → Bool
  | .empty => true
  | _ => false

def formCode : ValueSet → Nat
  | .universal _ => 0
  | .empty => 1
  | .values _ => 2
  | .interval _ => 3
  | .union _ => 4
  | .inter _ => 5
  | .solutions _ => 6

mutual

def isFinite (domain : Option ValueType) : ValueSet → Bool
  | .universal _ => false
  | .empty => true
  | .values _ => true
  | .interval i => i.isFinite domain
  | .union ms => allFinite domain ms
  | .inter ms => anyFinite domain ms
  | .solutions _ => false

def allFinite (domain : Option ValueType) : List ValueSet → Bool
  | [] => true
  | m :: ms => m.isFinite domain && allFinite domain ms

def anyFinite (domain : Option ValueType) : List ValueSet → Bool
  | [] => false
  | m :: ms => m.isFinite domain || anyFinite domain ms

end

mutual

def member (v : Number) : ValueSet → Membership
  | .universal _ => ⟨true, true⟩
  | .empty => ⟨false, true⟩
  | .values vs => ⟨Number.memberOf vs v, true⟩
  | .interval i => ⟨i.contains v, true⟩
  | .union ms => memberOfAny v true ms
  | .inter ms => memberOfAll v true ms
  | .solutions _ => ⟨false, false⟩

def memberOfAny (v : Number) (known : Bool) : List ValueSet → Membership
  | [] => ⟨false, known⟩
  | m :: ms =>
    let answer := m.member v
    if answer.known && answer.holds then ⟨true, true⟩ else memberOfAny v (known && answer.known) ms

def memberOfAll (v : Number) (known : Bool) : List ValueSet → Membership
  | [] => ⟨true, known⟩
  | m :: ms =>
    let answer := m.member v
    if answer.known && !answer.holds then ⟨false, true⟩ else memberOfAll v (known && answer.known) ms

end

def excludes (s : ValueSet) (v : Number) : Bool :=
  let answer := s.member v
  answer.known && !answer.holds

mutual

def extent : ValueSet → Extent
  | .values [] => .unbounded
  | .values (v :: vs) => ⟨vs.foldl Number.min v, vs.foldl Number.max v, true⟩
  | .interval i => ⟨i.lo, i.hi, true⟩
  | .union ms => hull .posInf .negInf ms
  | .inter ms => commonExtent ⟨.negInf, .posInf, false⟩ ms
  | _ => .unbounded

def hull (lo hi : Number) : List ValueSet → Extent
  | [] => ⟨lo, hi, lo.le hi⟩
  | m :: ms =>
    let e := m.extent
    if e.bounded then hull (lo.min e.lo) (hi.max e.hi) ms
    else if m.isEmpty then hull lo hi ms
    else .unbounded

def commonExtent (acc : Extent) : List ValueSet → Extent
  | [] => { acc with bounded := acc.bounded && acc.lo.le acc.hi }
  | m :: ms =>
    let e := m.extent
    commonExtent (if e.bounded then ⟨acc.lo.max e.lo, acc.hi.min e.hi, true⟩ else acc) ms

end

mutual

-- The members in a fixed order. An intersection lists its first part that can be listed and keeps what no
-- other part is known to exclude.
def enumerate (domain : Option ValueType) : ValueSet → Except SetFault (List Number)
  | .universal _ => .error .infinite
  | .empty => .ok []
  | .values vs => .ok vs
  | .interval i => i.enumerate domain
  | .union ms =>
    if allFinite domain ms then (enumerateAll domain ms).map Number.distinct else .error .infiniteUnion
  | .inter ms =>
    if anyFinite domain ms then enumerateFirst domain .infinite [] ms else .error .infiniteInter
  | .solutions _ => .error .infinite

def enumerateAll (domain : Option ValueType) : List ValueSet → Except SetFault (List Number)
  | [] => .ok []
  | m :: ms =>
    match m.enumerate domain with
    | .error e => .error e
    | .ok vs => (enumerateAll domain ms).map (vs ++ ·)

def enumerateFirst (domain : Option ValueType) (fault : SetFault) (before : List ValueSet) :
    List ValueSet → Except SetFault (List Number)
  | [] => .error fault
  | m :: ms =>
    if m.isFinite domain then
      match m.enumerate domain with
      | .error e => enumerateFirst domain e (before ++ [m]) ms
      | .ok vs => .ok (vs.filter fun v => (before ++ ms).all fun other => !other.excludes v)
    else enumerateFirst domain fault (before ++ [m]) ms

end

end ValueSet

end Blockwork
