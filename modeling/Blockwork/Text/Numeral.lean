set_option autoImplicit false

namespace Blockwork.Text

def isDigit (c : Char) : Bool := '0' ≤ c && c ≤ '9'

def digitValue (c : Char) : Nat := c.toNat - 48

def digitsValue (ds : List Char) : Nat := ds.foldl (fun acc c => acc * 10 + digitValue c) 0

def natural? (s : List Char) : Option Nat :=
  if s.isEmpty || !s.all isDigit then none else some (digitsValue s)

def fitsWord (n : Int) : Bool := -0x8000000000000000 ≤ n && n < 0x8000000000000000

def integer? (s : List Char) : Option Int :=
  let value : Option Int :=
    match s with
    | '+' :: ds => (natural? ds).map fun n => (n : Int)
    | '-' :: ds => (natural? ds).map fun n => -(n : Int)
    | ds => (natural? ds).map fun n => (n : Int)
  value.filter fitsWord

end Blockwork.Text
