set_option autoImplicit false

namespace Blockwork.Markup

def isAllowed (c : Char) : Bool :=
  let n := c.toNat
  n = 0x09 || n = 0x0a || n = 0x0d || (0x20 ≤ n && n ≤ 0x7e) || n = 0x85 || (0xa0 ≤ n && n ≤ 0xd7ff) ||
    (0xe000 ≤ n && n ≤ 0xfffd) || 0x10000 ≤ n

def isBlank (c : Char) : Bool := c = ' ' || c = '\t'

def isBreak (c : Char) : Bool :=
  c = '\n' || c = '\r' || c.toNat = 0x85 || c.toNat = 0x2028 || c.toNat = 0x2029

def isByteOrderMark (c : Char) : Bool := c.toNat = 0xfeff

def isWord (c : Char) : Bool := c.isAlphanum || c = '_' || c = '-'

def endsLine : Option Char → Bool
  | none => true
  | some c => isBreak c

def endsWord : Option Char → Bool
  | none => true
  | some c => isBlank c || isBreak c

structure Place where
  line : Nat := 0
  column : Nat := 0
deriving DecidableEq, Repr, Inhabited

structure Cursor where
  rest : List Char
  index : Nat := 0
  line : Nat := 0
  column : Nat := 0
deriving Inhabited

namespace Cursor

def place (c : Cursor) : Place := ⟨c.line, c.column⟩

def peek (c : Cursor) (n : Nat) : Option Char := c.rest[n]?

def head (c : Cursor) : Option Char := c.rest.head?

def skip (c : Cursor) (n : Nat) : Cursor :=
  { c with rest := c.rest.drop n, index := c.index + n, column := c.column + n }

def skipWhile (c : Cursor) (p : Char → Bool) : Cursor := c.skip (c.rest.takeWhile p).length

def skipBlanks (c : Cursor) : Cursor := c.skipWhile isBlank

def skipLine (c : Cursor) : Cursor := c.skipWhile fun ch => !isBreak ch

def readBreak (c : Cursor) : List Char × Cursor :=
  let after (n : Nat) : Cursor :=
    { rest := c.rest.drop n, index := c.index + n, line := c.line + 1, column := 0 }
  match c.rest with
  | '\r' :: '\n' :: _ => (['\n'], after 2)
  | ch :: _ =>
    if ch = '\r' || ch = '\n' || ch.toNat = 0x85 then (['\n'], after 1)
    else if isBreak ch then ([ch], after 1)
    else ([], c)
  | [] => ([], c)

def skipBreak (c : Cursor) : Cursor := c.readBreak.2

def skipGapFrom : Nat → Cursor → Cursor
  | 0, c => c
  | fuel + 1, c =>
    match c.head with
    | some ch =>
      if isBlank ch then skipGapFrom fuel (c.skip 1)
      else if isBreak ch then skipGapFrom fuel c.skipBreak
      else c
    | none => c

def skipGap (c : Cursor) : Cursor := skipGapFrom c.rest.length c

def skipCommentsFrom : Nat → Cursor → Cursor
  | 0, c => c
  | fuel + 1, c =>
    let c := c.skipLine
    let next := c.skipGap
    if next.head = some '#' then skipCommentsFrom fuel next else c

def skipComments (c : Cursor) : Cursor := skipCommentsFrom c.rest.length c

def skipLineComment (c : Cursor) : Cursor :=
  if c.skipBlanks.head = some '#' then c.skipBlanks.skipLine else c

def atTriple (c : Cursor) (ch : Char) : Bool :=
  c.peek 0 = some ch && c.peek 1 = some ch && c.peek 2 = some ch && endsWord (c.peek 3)

def atDocumentMark (c : Cursor) : Bool := c.column = 0 && (c.atTriple '-' || c.atTriple '.')

end Cursor

structure Gap where
  blanks : List Char := []
  first : List Char := []
  more : List Char := []
  broken : Bool := false
deriving Inhabited

namespace Gap

def folded (g : Gap) : List Char :=
  if !g.broken then g.blanks
  else if g.first.head? = some '\n' then (if g.more.isEmpty then [' '] else g.more)
  else g.first ++ g.more

def addBreak (g : Gap) (chars : List Char) : Gap :=
  if g.broken then { g with more := g.more ++ chars } else { first := chars, broken := true }

end Gap

end Blockwork.Markup
