import Blockwork.Markup.ScalarText

set_option autoImplicit false

namespace Blockwork.Markup

def nameEnds : Option Char → Bool
  | some c => endsWord (some c) || c = '?' || c = ':' || c = ',' || c = ']' || c = '}' || c = '%' || c = '@' || c = '`'
  | none => true

def readName (c : Cursor) : Except MarkupFault (String × Cursor) :=
  let name := (c.skip 1).rest.takeWhile isWord
  let next := c.skip (1 + name.length)
  if name.isEmpty || !nameEnds next.head then .error .badAnchor else .ok (String.ofList name, next)

def isTagMark (c : Char) : Bool :=
  [';', '/', '?', ':', '@', '&', '=', '+', '$', '.', ',', '!', '~', '*', '\'', '(', ')', '[', ']'].contains c

def octetCount? (octet : Nat) : Option Nat :=
  if octet < 0x80 then some 1
  else if octet / 32 = 6 then some 2
  else if octet / 16 = 14 then some 3
  else if octet / 8 = 30 then some 4
  else none

def readOctet? : List Char → Option (Nat × List Char)
  | '%' :: a :: b :: rest => (hexValue? [a, b]).map fun n => (n, rest)
  | _ => none

def readOctets? : Nat → List Char → Option (List Nat × List Char)
  | 0, rest => some ([], rest)
  | n + 1, rest =>
    (readOctet? rest).bind fun (octet, rest) =>
      if octet / 64 = 2 then (readOctets? n rest).map fun (octets, rest) => (octet :: octets, rest) else none

def readEscapedChar? (rest : List Char) : Option (Char × Nat) :=
  (readOctet? rest).bind fun (first, rest) =>
    (octetCount? first).bind fun n =>
      (readOctets? (n - 1) rest).map fun (octets, _) =>
        let bits := if n = 1 then first else if n = 2 then first % 32 else if n = 3 then first % 16 else first % 8
        (Char.ofNat (octets.foldl (fun v octet => 64 * v + octet % 64) bits), 3 * n)

def readTagText : Nat → Cursor → List Char → Except MarkupFault (List Char × Cursor)
  | 0, c, text => .ok (text, c)
  | fuel + 1, c, text =>
    match c.head with
    | some '%' =>
      match readEscapedChar? c.rest with
      | some (ch, n) => readTagText fuel (c.skip n) (text ++ [ch])
      | none => .error .badTag
    | some ch => if isWord ch || isTagMark ch then readTagText fuel (c.skip 1) (text ++ [ch]) else .ok (text, c)
    | none => .ok (text, c)

def readHandle (c : Cursor) : List Char × Cursor :=
  let word := (c.skip 1).rest.takeWhile isWord
  let next := c.skip (1 + word.length)
  if next.head = some '!' then ('!' :: word ++ ['!'], next.skip 1) else ('!' :: word, next)

def readTag (c : Cursor) : Except MarkupFault (String × String × Cursor) := do
  let (handle, suffix, next) ←
    if c.peek 1 = some '<' then do
      let (text, next) ← readTagText c.rest.length (c.skip 2) []
      if text.isEmpty || next.head ≠ some '>' then throw .badTag
      pure ([], text, next.skip 1)
    else do
      let (handle, next) := readHandle c
      if 1 < handle.length && handle.getLast? = some '!' then do
        let (text, next) ← readTagText c.rest.length next []
        if text.isEmpty then throw .badTag
        pure (handle, text, next)
      else do
        let (text, next) ← readTagText c.rest.length next (handle.drop 1)
        pure (if text.isEmpty then ([], ['!'], next) else (['!'], text, next))
  if !endsWord next.head then throw .badTag
  return (String.ofList handle, String.ofList suffix, next)

def readVersionNumber (c : Cursor) : Except MarkupFault (Nat × Cursor) :=
  let digits := c.rest.takeWhile Char.isDigit
  if digits.isEmpty || 2 < digits.length then .error .badDirective
  else .ok (digits.foldl (fun n d => 10 * n + (d.toNat - '0'.toNat)) 0, c.skip digits.length)

def readVersion (c : Cursor) : Except MarkupFault (TokenKind × Cursor) := do
  let (major, c) ← readVersionNumber c.skipBlanks
  if c.head ≠ some '.' then throw .badDirective
  let (minor, c) ← readVersionNumber (c.skip 1)
  return (.version major minor, c)

def readTagHandle (c : Cursor) : Except MarkupFault (TokenKind × Cursor) := do
  let c := c.skipBlanks
  if c.head ≠ some '!' then throw .badDirective
  let (handle, c) := readHandle c
  if handle ≠ ['!'] && handle.getLast? ≠ some '!' then throw .badDirective
  if !c.head.any isBlank then throw .badDirective
  let (text, c) ← readTagText c.rest.length c.skipBlanks []
  if text.isEmpty || !endsWord c.head then throw .badDirective
  return (.tagHandle (String.ofList handle) (String.ofList text), c)

def readDirective (c : Cursor) : Except MarkupFault (TokenKind × Place × Cursor) := do
  let name := (c.skip 1).rest.takeWhile isWord
  let next := c.skip (1 + name.length)
  if name.isEmpty || !endsWord next.head then throw .badDirective
  let (kind, next) ←
    match String.ofList name with
    | "YAML" => readVersion next
    | "TAG" => readTagHandle next
    | _ => throw .badDirective
  let rest := next.skipLineComment.skipBlanks
  if !endsLine rest.head then throw .badDirective
  return (kind, next.place, rest.skipBreak)

end Blockwork.Markup
