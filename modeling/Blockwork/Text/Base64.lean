set_option autoImplicit false

namespace Blockwork.Text

def sixBits? (c : Char) : Option Nat :=
  if 'A' ≤ c && c ≤ 'Z' then some (c.toNat - 'A'.toNat)
  else if 'a' ≤ c && c ≤ 'z' then some (c.toNat - 'a'.toNat + 26)
  else if '0' ≤ c && c ≤ '9' then some (c.toNat - '0'.toNat + 52)
  else if c = '+' then some 62
  else if c = '/' then some 63
  else none

-- The bytes of groups of four characters. Bits left over in a filled group are dropped.
def base64Groups? : List Char → Option (List Nat)
  | [] => some []
  | [a, b, '=', '='] => do
    let (a, b) := (← sixBits? a, ← sixBits? b)
    return [4 * a + b / 16]
  | [a, b, c, '='] => do
    let (a, b, c) := (← sixBits? a, ← sixBits? b, ← sixBits? c)
    return [4 * a + b / 16, b % 16 * 16 + c / 4]
  | a :: b :: c :: d :: rest => do
    let (a, b, c, d) := (← sixBits? a, ← sixBits? b, ← sixBits? c, ← sixBits? d)
    return [4 * a + b / 16, b % 16 * 16 + c / 4, c % 4 * 64 + d] ++ (← base64Groups? rest)
  | _ => none

def ofBase64? (s : String) : Option String :=
  (base64Groups? (s.toList.filter fun c => c ≠ '\n' && c ≠ '\x0d')).map fun bytes =>
    String.ofList (bytes.map Char.ofNat)

end Blockwork.Text
