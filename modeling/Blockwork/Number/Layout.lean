import Blockwork.Number.Digits

set_option autoImplicit false

namespace Blockwork

structure Layout where
  plain : Int → Bool
  exponentWidth : Nat

namespace Layout

def general : Layout := ⟨fun e => -4 ≤ e && e < 6, 2⟩

def positional : Layout := ⟨fun _ => true, 2⟩

def json : Layout := ⟨fun e => -6 ≤ e && e < 21, 1⟩

end Layout

namespace Decimal

def digitChar (d : Nat) : Char := Char.ofNat (48 + d)

def digitChars (d : Decimal) : List Char :=
  if d.digits = 0 then ['0'] else (digitsOf d.digits).map digitChar

def leading (d : Decimal) : Int := d.digitChars.length + d.exponent - 1

def padLeft (width : Nat) (cs : List Char) : List Char :=
  List.replicate (width - cs.length) '0' ++ cs

def layPlain (d : Decimal) : List Char :=
  let ds := d.digitChars
  if 0 ≤ d.exponent then ds ++ List.replicate d.exponent.toNat '0'
  else
    let places := (-d.exponent).toNat
    let padded := padLeft (places + 1) ds
    let whole := padded.length - places
    padded.take whole ++ '.' :: padded.drop whole

def layExponent (width : Nat) (d : Decimal) : List Char :=
  let mantissa :=
    match d.digitChars with
    | c :: r :: rs => c :: '.' :: r :: rs
    | cs => cs
  let e := d.leading
  mantissa ++ ['e', if e < 0 then '-' else '+'] ++ padLeft width (Nat.toDigits 10 e.natAbs)

def lay (l : Layout) (d : Decimal) : List Char :=
  if l.plain d.leading then d.layPlain else d.layExponent l.exponentWidth

end Decimal

namespace Number

def write (l : Layout) : Number → String
  | .nan => "NaN"
  | .negInf => "-Inf"
  | .posInf => "+Inf"
  | .negZero => "-0"
  | .finite q =>
    if q = 0 then "0"
    else
      let magnitude : Rat := if q < 0 then -q else q
      let text := (Decimal.shortest Precision.double magnitude).lay l
      String.ofList (if q < 0 then '-' :: text else text)

def text (x : Number) : String := x.write Layout.general

def plainText (x : Number) : String := x.write Layout.positional

end Number

end Blockwork
