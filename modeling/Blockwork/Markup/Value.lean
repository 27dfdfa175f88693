import Blockwork.Markup.Node
import Blockwork.Number.Basic
import Blockwork.Text.Base64

set_option autoImplicit false

namespace Blockwork.Markup

inductive ScalarValue where
  | null
  | truth (b : Bool)
  | integer (n : Int)
  | number (v : Number)
  | timestamp
  | text (s : String)
deriving DecidableEq, Repr, Inhabited

def ScalarValue.tag : ScalarValue → Tag
  | .null => .null
  | .truth _ => .truth
  | .integer _ => .integer
  | .number _ => .number
  | .timestamp => .timestamp
  | .text _ => .text

def wordValue? : String → Option ScalarValue
  | "true" | "True" | "TRUE" => some (.truth true)
  | "false" | "False" | "FALSE" => some (.truth false)
  | "" | "~" | "null" | "Null" | "NULL" => some .null
  | ".nan" | ".NaN" | ".NAN" => some (.number .nan)
  | ".inf" | ".Inf" | ".INF" | "+.inf" | "+.Inf" | "+.INF" => some (.number .posInf)
  | "-.inf" | "-.Inf" | "-.INF" => some (.number .negInf)
  | _ => none

def digitOf? (base : Nat) (c : Char) : Option Nat :=
  let n :=
    if '0' ≤ c && c ≤ '9' then some (c.toNat - '0'.toNat)
    else if 'a' ≤ c && c ≤ 'z' then some (c.toNat - 'a'.toNat + 10)
    else if 'A' ≤ c && c ≤ 'Z' then some (c.toNat - 'A'.toNat + 10)
    else none
  n.bind fun n => if n < base then some n else none

def naturalIn? (base : Nat) (digits : List Char) : Option Nat :=
  digits.foldl (fun acc c => acc.bind fun n => (digitOf? base c).map (base * n + ·)) (some 0)

def unsigned? : List Char → Option Nat
  | [] => none
  | ['0'] => some 0
  | '0' :: 'b' :: d :: ds | '0' :: 'B' :: d :: ds => naturalIn? 2 (d :: ds)
  | '0' :: 'o' :: d :: ds | '0' :: 'O' :: d :: ds => naturalIn? 8 (d :: ds)
  | '0' :: 'x' :: d :: ds | '0' :: 'X' :: d :: ds => naturalIn? 16 (d :: ds)
  | '0' :: ds => naturalIn? 8 ds
  | ds => naturalIn? 10 ds

-- An integer of 64 bits, with a sign or without. Without one it may use the bit of the sign.
def integer? (cs : List Char) : Option Int :=
  match cs with
  | '-' :: ds => (unsigned? ds).bind fun n => if n ≤ 0x8000000000000000 then some (-(n : Int)) else none
  | '+' :: ds => (unsigned? ds).bind fun n => if n < 0x8000000000000000 then some (n : Int) else none
  | ds => (unsigned? ds).bind fun n => if n < 0x10000000000000000 then some (n : Int) else none

structure DecimalText where
  negative : Bool
  whole : List Char
  fraction : List Char
  exponent : Int
deriving Inhabited

def splitSign : List Char → Bool × List Char
  | '-' :: rest => (true, rest)
  | '+' :: rest => (false, rest)
  | cs => (false, cs)

def decimalValue (digits : List Char) : Nat :=
  digits.foldl (fun n d => 10 * n + (d.toNat - '0'.toNat)) 0

def exponentText? : List Char → Option Int
  | [] => some 0
  | e :: rest =>
    if e = 'e' || e = 'E' then
      let (negative, digits) := splitSign rest
      if digits.isEmpty || !digits.all Char.isDigit then none
      else some (if negative then -(decimalValue digits : Int) else decimalValue digits)
    else none

-- Splits a decimal number into its parts. Digits may be missing on one side of the point only.
def decimalText? (cs : List Char) : Option DecimalText :=
  let (negative, cs) := splitSign cs
  let whole := cs.takeWhile Char.isDigit
  let rest := cs.drop whole.length
  let (fraction, rest) :=
    match rest with
    | '.' :: rest => (rest.takeWhile Char.isDigit, rest.drop (rest.takeWhile Char.isDigit).length)
    | rest => ([], rest)
  if whole.isEmpty && fraction.isEmpty then none
  else (exponentText? rest).map fun exponent => { negative, whole, fraction, exponent }

namespace DecimalText

def number? (d : DecimalText) : Option Number :=
  let digits := decimalValue (d.whole ++ d.fraction)
  let scale := d.exponent - d.fraction.length
  let magnitude := (Nat.repr digits).length + scale
  let signed (v : Number) := if d.negative then v.neg else v
  if digits = 0 || magnitude < -400 then some (signed .zero)
  else if 400 < magnitude then none
  else
    let q : Rat :=
      if 0 ≤ scale then (digits * Nat.pow 10 scale.toNat : Nat) else mkRat digits (Nat.pow 10 (-scale).toNat)
    let v := Number.ofRat q
    if v.isInfinite then none else some (signed v)

end DecimalText

def decimal? (cs : List Char) : Option Number := (decimalText? cs).bind DecimalText.number?

def isGrouped : List Char → Bool
  | a :: '_' :: b :: rest => a.isDigit && b.isDigit && isGrouped (b :: rest)
  | [_, '_'] | '_' :: _ => false
  | _ :: rest => isGrouped rest
  | [] => true

def groupedDecimal? (cs : List Char) : Option Number :=
  if isGrouped cs then decimal? (cs.filter (· ≠ '_')) else none

def shortNumber? : List Char → Option (Nat × List Char)
  | a :: b :: rest =>
    if !a.isDigit then none
    else if b.isDigit then some (decimalValue [a, b], rest)
    else some (decimalValue [a], b :: rest)
  | [a] => if a.isDigit then some (decimalValue [a], []) else none
  | [] => none

def field? (lo hi : Nat) (cs : List Char) : Option (Nat × List Char) :=
  (shortNumber? cs).bind fun (n, rest) => if lo ≤ n && n ≤ hi then some (n, rest) else none

def after? (c : Char) : List Char → Option (List Char)
  | d :: rest => if d = c then some rest else none
  | [] => none

def isLeapYear (year : Nat) : Bool := year % 4 = 0 && (year % 100 ≠ 0 || year % 400 = 0)

def daysIn (year month : Nat) : Nat :=
  if month = 2 then (if isLeapYear year then 29 else 28)
  else if month = 4 || month = 6 || month = 9 || month = 11 then 30
  else 31

def date? (cs : List Char) : Option (List Char) := do
  let year := cs.take 4
  if year.length < 4 || !year.all Char.isDigit then none
  let rest ← after? '-' (cs.drop 4)
  let (month, rest) ← field? 1 12 rest
  let rest ← after? '-' rest
  let (day, rest) ← field? 0 99 rest
  if day < 1 || daysIn (decimalValue year) month < day then none
  return rest

def skipFraction : List Char → List Char
  | p :: d :: rest =>
    if (p = '.' || p = ',') && d.isDigit then rest.dropWhile Char.isDigit else p :: d :: rest
  | cs => cs

def time? (cs : List Char) : Option (List Char) := do
  let (_, rest) ← field? 0 23 cs
  let rest ← after? ':' rest
  let (_, rest) ← field? 0 59 rest
  let rest ← after? ':' rest
  let (_, rest) ← field? 0 59 rest
  return skipFraction rest

def isZone : List Char → Bool
  | ['Z'] => true
  | [sign, h, k, ':', m, n] =>
    (sign = '+' || sign = '-') && [h, k, m, n].all Char.isDigit && decimalValue [h, k] ≤ 24 &&
      decimalValue [m, n] ≤ 60
  | _ => false

def isTimestamp (cs : List Char) : Bool :=
  match date? cs with
  | none => false
  | some [] => true
  | some (c :: rest) =>
    if c = ' ' then time? (rest.dropWhile (· = ' ')) = some []
    else if c = 'T' || c = 't' then (time? rest).any isZone
    else false

def innerSigned? (cs : List Char) : Option Int :=
  let read (base : Nat) (sign : Char) (ds : List Char) : Option Int :=
    if ds.isEmpty then none
    else
      (naturalIn? base ds).bind fun n =>
        if sign = '-' then (if n ≤ 0x8000000000000000 then some (-(n : Int)) else none)
        else if sign = '+' then (if n < 0x8000000000000000 then some (n : Int) else none)
        else none
  match cs with
  | '0' :: 'b' :: sign :: ds => read 2 sign ds
  | '0' :: 'o' :: sign :: ds => read 8 sign ds
  | _ => none

def numericValue? (dates : Bool) (cs : List Char) : Option ScalarValue :=
  if dates && isTimestamp cs then some .timestamp
  else
    let plain := cs.filter (· ≠ '_')
    match integer? plain, decimal? plain with
    | some n, _ => some (.integer n)
    | none, some v => some (.number v)
    | none, none => (innerSigned? plain).map .integer

def plainValue (dates : Bool) (text : String) : ScalarValue :=
  let special :=
    match text.toList with
    | [] => wordValue? text
    | c :: cs =>
      if c.isDigit || c = '+' || c = '-' then
        (wordValue? text).orElse fun _ => numericValue? dates (c :: cs)
      else if c = '.' then (wordValue? text).orElse fun _ => (groupedDecimal? (c :: cs)).map .number
      else wordValue? text
  special.getD (.text text)

def plainTag (text : String) : Tag := if text = "<<" then .merge else (plainValue true text).tag

namespace Scalar

def value? (s : Scalar) : Option ScalarValue :=
  match s.tag with
  | .text => some (.text s.text)
  | .binary => (Text.ofBase64? s.text).map .text
  | tag =>
    let value := plainValue (tag = .timestamp) s.text
    if value.tag = tag then some value
    else
      match tag, value with
      | .number, .integer n => if n < 0x8000000000000000 then some (.number (.ofInt n)) else none
      | _, _ => none

def truthWord? (s : String) : Option Bool :=
  if ["y", "Y", "yes", "Yes", "YES", "on", "On", "ON"].contains s then some true
  else if ["n", "N", "no", "No", "NO", "off", "Off", "OFF"].contains s then some false
  else none

def truth? (s : Scalar) : Option Bool :=
  s.value?.bind fun v =>
    match v with
    | .null => some false
    | .truth b => some b
    | .text t => truthWord? t
    | _ => none

-- A number cut to an integer of 64 bits. What does not fit becomes the least one.
def truncated (v : Number) : Int :=
  let n : Int :=
    match v with
    | .finite q => if 0 ≤ q then q.floor else -(-q).floor
    | .negZero => 0
    | _ => -0x8000000000000000
  if -0x8000000000000000 ≤ n ∧ n < 0x8000000000000000 then n else -0x8000000000000000

def integer? (s : Scalar) : Option Int :=
  s.value?.bind fun v =>
    match v with
    | .null => some 0
    | .integer n => if n < 0x8000000000000000 then some n else none
    | .number v => if v.le (.ofInt 0x8000000000000000) then some (truncated v) else none
    | _ => none

def number? (s : Scalar) : Option Number :=
  s.value?.bind fun v =>
    match v with
    | .null => some .zero
    | .integer n => some (.ofInt n)
    | .number v => some v
    | _ => none

end Scalar

namespace Node

def scalar? : Node → Option Scalar
  | .scalar _ s => some s
  | .alias _ _ target => target
  | _ => none

def truth? (n : Node) : Option Bool := n.scalar?.bind Scalar.truth?

def integer? (n : Node) : Option Int := n.scalar?.bind Scalar.integer?

end Node

end Blockwork.Markup
