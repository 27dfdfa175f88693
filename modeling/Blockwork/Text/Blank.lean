set_option autoImplicit false

namespace Blockwork.Text

def isBlank (c : Char) : Bool :=
  let n := c.toNat
  (0x09 ≤ n && n ≤ 0x0d) || n == 0x20 || n == 0x85 || n == 0xa0 || n == 0x1680 ||
    (0x2000 ≤ n && n ≤ 0x200a) || n == 0x2028 || n == 0x2029 || n == 0x202f || n == 0x205f || n == 0x3000

def trimList (s : List Char) : List Char :=
  ((s.dropWhile isBlank).reverse.dropWhile isBlank).reverse

def trim (s : String) : String := String.ofList (trimList s.toList)

def fieldsAux : List Char → List Char → List (List Char)
  | [], current => if current.isEmpty then [] else [current.reverse]
  | c :: rest, current =>
    if isBlank c then
      if current.isEmpty then fieldsAux rest [] else current.reverse :: fieldsAux rest []
    else fieldsAux rest (c :: current)

def fields (s : String) : List String := (fieldsAux s.toList []).map String.ofList

end Blockwork.Text
