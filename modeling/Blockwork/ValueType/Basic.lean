import Blockwork.Number.Basic

set_option autoImplicit false

namespace Blockwork

inductive Primitive where
  | string
  | bool
  | byte
  | int
  | long
  | float
  | double
deriving DecidableEq, Repr, Inhabited

namespace Primitive

def all : List Primitive := [.string, .bool, .byte, .int, .long, .float, .double]

def name : Primitive → String
  | .string => "string"
  | .bool => "bool"
  | .byte => "byte"
  | .int => "int"
  | .long => "long"
  | .float => "float"
  | .double => "double"

def named? (name : String) : Option Primitive := all.find? (·.name == name)

def isIntegral : Primitive → Bool
  | .byte | .int | .long => true
  | _ => false

def isNumeric : Primitive → Bool
  | .string | .bool => false
  | _ => true

def rank : Primitive → Nat
  | .string | .bool => 0
  | .byte => 1
  | .int => 2
  | .long => 3
  | .float => 4
  | .double => 5

def largest (p : Precision) : Rat := twoPow p.limit - twoPow (p.limit - p.digits)

-- The smallest and the largest value of a numeric type, as numbers. The upper bound of `long` is not a number
-- of 53 digits and is rounded up.
def bounds? : Primitive → Option (Number × Number)
  | .string | .bool => none
  | .byte => some (.ofInt (-128), .ofInt 127)
  | .int => some (.ofInt (-2147483648), .ofInt 2147483647)
  | .long => some (.ofInt (-9223372036854775808), .ofInt 9223372036854775807)
  | .float => some (.ofRat (-largest .single), .ofRat (largest .single))
  | .double => some (.ofRat (-largest .double), .ofRat (largest .double))

def code : Primitive → String
  | .string => "std::string"
  | .bool => "bool"
  | .byte => "char"
  | .int => "int"
  | .long => "long"
  | .float => "float"
  | .double => "double"

def headers : Primitive → List String
  | .string => ["string"]
  | _ => []

end Primitive

inductive ValueType where
  | primitive (p : Primitive)
  | array (element : ValueType) (size : Int)
deriving DecidableEq, Repr, Inhabited

namespace ValueType

abbrev string : ValueType := .primitive .string
abbrev bool : ValueType := .primitive .bool
abbrev byte : ValueType := .primitive .byte
abbrev int : ValueType := .primitive .int
abbrev long : ValueType := .primitive .long
abbrev float : ValueType := .primitive .float
abbrev double : ValueType := .primitive .double

def name : ValueType → String
  | .primitive p => p.name
  | .array _ _ => "array"

def isNumeric : ValueType → Bool
  | .primitive p => p.isNumeric
  | .array _ _ => false

def isIntegral : ValueType → Bool
  | .primitive p => p.isIntegral
  | .array _ _ => false

def root : ValueType → Primitive
  | .primitive p => p
  | .array element _ => element.root

def sizes : ValueType → List Int
  | .primitive _ => []
  | .array element size => size :: element.sizes

def sized (element : ValueType) : List Int → ValueType
  | [] => element
  | size :: rest => .array (sized element rest) size

def text (t : ValueType) : String :=
  t.root.name ++ String.join (t.sizes.map fun n => s!"[{n}]")

def code : ValueType → String
  | .primitive p => p.code
  | .array element size => s!"std::array<{element.code}, {size}>"

def headers : ValueType → List String
  | .primitive p => p.headers
  | .array element _ => element.headers ++ ["array"]

def promote? (a b : ValueType) : Option ValueType :=
  if a = b then some a
  else
    match a, b with
    | .primitive p, .primitive q =>
      if p.isNumeric && q.isNumeric then some (if q.rank ≤ p.rank then a else b) else none
    | _, _ => none

end ValueType

def typeText (t : Option ValueType) : Option String := t.map (·.text)

end Blockwork
