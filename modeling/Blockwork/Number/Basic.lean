set_option autoImplicit false

-- Binary floating-point numbers as exact rationals. A finite number is the rational it stands for, so
-- comparisons are comparisons of rationals and an arithmetic operation is the exact one followed by a single
-- rounding. Negative zero, the infinities and the undefined result are constructors of their own.

namespace Blockwork

inductive Number where
  | nan
  | negInf
  | posInf
  | negZero
  | finite (value : Rat)
deriving DecidableEq, Repr

structure Precision where
  digits : Nat
  minExponent : Int
  limit : Nat
deriving DecidableEq, Repr

def Precision.double : Precision := ⟨53, -1074, 1024⟩

def Precision.single : Precision := ⟨24, -149, 128⟩

def twoPow (exponent : Int) : Rat :=
  if 0 ≤ exponent then (Nat.pow 2 exponent.toNat : Rat) else mkRat 1 (Nat.pow 2 (-exponent).toNat)

def floorLog2 (numerator denominator : Nat) : Int :=
  let estimate : Int := (numerator.log2 : Int) - denominator.log2
  if denominator * Nat.pow 2 estimate.toNat ≤ numerator * Nat.pow 2 (-estimate).toNat then estimate else estimate - 1

def roundHalfEven (q : Rat) : Int :=
  let below := q.floor
  let rest := q - below
  if rest < 1 / 2 then below
  else if 1 / 2 < rest then below + 1
  else if below % 2 = 0 then below else below + 1

namespace Precision

def stepExponent (p : Precision) (q : Rat) : Int :=
  max p.minExponent (floorLog2 q.num.natAbs q.den + 1 - p.digits)

-- Rounds to the nearest number of the format, a tie to the even mantissa. A negative value too small for the
-- format keeps its sign.
def round (p : Precision) (q : Rat) : Number :=
  if q = 0 then .finite 0
  else
    let step := twoPow (p.stepExponent q)
    let value := step * roundHalfEven (q / step)
    if value = 0 then (if q < 0 then .negZero else .finite 0)
    else if twoPow p.limit ≤ value then .posInf
    else if value ≤ -twoPow p.limit then .negInf
    else .finite value

end Precision

namespace Number

instance : Inhabited Number := ⟨.finite 0⟩

def ofRat (q : Rat) : Number := Precision.double.round q

def ofInt (n : Int) : Number := ofRat n

def isNaN : Number → Bool
  | .nan => true
  | _ => false

def isInfinite : Number → Bool
  | .negInf | .posInf => true
  | _ => false

def toRat? : Number → Option Rat
  | .negZero => some 0
  | .finite q => some q
  | _ => none

def isNegative : Number → Bool
  | .negInf | .negZero => true
  | .finite q => q < 0
  | _ => false

def eq : Number → Number → Bool
  | .finite p, .finite q => p == q
  | .finite q, .negZero | .negZero, .finite q => q == 0
  | .negZero, .negZero | .negInf, .negInf | .posInf, .posInf => true
  | _, _ => false

def lt : Number → Number → Bool
  | .finite p, .finite q => p < q
  | .finite p, .negZero => p < 0
  | .negZero, .finite q => 0 < q
  | .negZero, .negZero => false
  | .nan, _ | _, .nan => false
  | _, .negInf => false
  | .negInf, _ => true
  | .posInf, _ => false
  | _, .posInf => true

def le (a b : Number) : Bool := a.lt b || a.eq b

def neg : Number → Number
  | .nan => .nan
  | .negInf => .posInf
  | .posInf => .negInf
  | .negZero => .finite 0
  | .finite q => if q = 0 then .negZero else .finite (-q)

def add : Number → Number → Number
  | .nan, _ | _, .nan => .nan
  | .posInf, .negInf | .negInf, .posInf => .nan
  | .posInf, _ | _, .posInf => .posInf
  | .negInf, _ | _, .negInf => .negInf
  | .negZero, .negZero => .negZero
  | .negZero, .finite q | .finite q, .negZero => .finite q
  | .finite p, .finite q => ofRat (p + q)

def sub (a b : Number) : Number := a.add b.neg

def one : Number := .finite 1

def zero : Number := .finite 0

def floor : Number → Number
  | .finite q => .finite q.floor
  | x => x

def ceil : Number → Number
  | .finite q => if q.ceil = 0 ∧ q < 0 then .negZero else .finite q.ceil
  | x => x

def isWhole : Number → Bool
  | .nan => false
  | .finite q => q.den == 1
  | _ => true

-- The smaller of two numbers. Minus infinity wins over the undefined number, which wins over all else;
-- negative zero is smaller than zero.
def min (a b : Number) : Number :=
  if a = .negInf ∨ b = .negInf then .negInf
  else if a.isNaN || b.isNaN then .nan
  else if a.eq zero && b.eq zero then (if a.isNegative then a else b)
  else if a.lt b then a else b

def max (a b : Number) : Number :=
  if a = .posInf ∨ b = .posInf then .posInf
  else if a.isNaN || b.isNaN then .nan
  else if a.eq zero && b.eq zero then (if a.isNegative then b else a)
  else if b.lt a then a else b

end Number

end Blockwork
