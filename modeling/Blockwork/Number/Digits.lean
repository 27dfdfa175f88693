import Blockwork.Number.Basic

set_option autoImplicit false

namespace Blockwork

structure Decimal where
  digits : Nat
  exponent : Int
deriving DecidableEq, Repr

namespace Decimal

def tenPow (exponent : Int) : Rat :=
  if 0 ≤ exponent then (Nat.pow 10 exponent.toNat : Rat) else mkRat 1 (Nat.pow 10 (-exponent).toNat)

def value (d : Decimal) : Rat := d.digits * tenPow d.exponent

def digitsOf (n : Nat) : List Nat :=
  if n = 0 then [] else digitsOf (n / 10) ++ [n % 10]

def stripZeros (d : Decimal) : Decimal :=
  if d.digits ≠ 0 ∧ d.digits % 10 = 0 then stripZeros ⟨d.digits / 10, d.exponent + 1⟩ else d
termination_by d.digits
decreasing_by omega

def scale (q : Rat) : Int :=
  if 1 ≤ q then (digitsOf q.floor.toNat).length
  else 1 - ((digitsOf ((1 / q).ceil.toNat - 1)).length : Int)

end Decimal

structure RoundingInterval where
  low : Rat
  high : Rat
  closed : Bool

namespace RoundingInterval

-- The interval of a positive number of the format. The gap below a power of two is half as wide as the gap
-- above, and ties go to the number whose mantissa is even.
def around (p : Precision) (q : Rat) : RoundingInterval :=
  let e := p.stepExponent q
  let step := twoPow e
  let mantissa := (q / step).floor
  let narrow := mantissa = Nat.pow 2 (p.digits - 1) ∧ p.minExponent < e
  { low := q - (if narrow then step / 4 else step / 2)
    high := q + step / 2
    closed := mantissa % 2 = 0 }

def contains (i : RoundingInterval) (q : Rat) : Bool :=
  (i.low < q && q < i.high) || (i.closed && (q == i.low || q == i.high))

end RoundingInterval

namespace Decimal

def onGrid? (interval : RoundingInterval) (q : Rat) (exponent : Int) : Option Decimal :=
  let grid := tenPow exponent
  let below := (q / grid).floor.toNat
  let lower : Decimal := ⟨below, exponent⟩
  let upper : Decimal := ⟨below + 1, exponent⟩
  match interval.contains lower.value, interval.contains upper.value with
  | false, false => none
  | true, false => some lower
  | false, true => some upper
  | true, true =>
    let twice := lower.value + upper.value
    if 2 * q < twice then some lower
    else if twice < 2 * q then some upper
    else some (if below % 2 = 0 then lower else upper)

-- The shortest decimal that rounds to a positive number of the format. Seventeen digits are always enough;
-- beyond them the exact value would be written out.
def shortest (p : Precision) (q : Rat) : Decimal :=
  let interval := RoundingInterval.around p q
  let k := scale q
  match (List.range 17).findSome? fun n => onGrid? interval q (k - (n + 1 : Nat)) with
  | some d => d.stripZeros
  | none => stripZeros ⟨(q * tenPow 1100).floor.toNat, -1100⟩

end Decimal

end Blockwork
