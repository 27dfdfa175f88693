import Blockwork.Markup.Token

set_option autoImplicit false

namespace Blockwork.Markup

def readGapFrom (limit : Int) : Nat → Cursor → Gap → Except MarkupFault (Gap × Cursor)
  | 0, c, g => .ok (g, c)
  | fuel + 1, c, g =>
    match c.head with
    | some ch =>
      if isBlank ch then
        if g.broken && (c.column : Int) < limit && ch = '\t' then .error .strayTab
        else readGapFrom limit fuel (c.skip 1) (if g.broken then g else { g with blanks := g.blanks ++ [ch] })
      else if isBreak ch then
        let (chars, c) := c.readBreak
        readGapFrom limit fuel c (g.addBreak chars)
      else .ok (g, c)
    | none => .ok (g, c)

def readGap (limit : Int) (c : Cursor) (g : Gap) : Except MarkupFault (Gap × Cursor) :=
  readGapFrom limit c.rest.length c g

def isFlowIndicator (c : Char) : Bool :=
  c = ',' || c = '?' || c = '[' || c = ']' || c = '{' || c = '}'

def plainRun (inFlow : Bool) : List Char → List Char
  | [] => []
  | c :: rest =>
    if isBlank c || isBreak c || (c = ':' && endsWord rest.head?) || (inFlow && isFlowIndicator c) then []
    else c :: plainRun inFlow rest

structure ReadScalar where
  text : List Char
  stop : Place
  after : Cursor
  brokenAfter : Bool := false

def readPlainFrom (indent : Int) (inFlow : Bool) :
    Nat → Cursor → List Char → Gap → Place → Except MarkupFault ReadScalar
  | 0, c, text, gap, stop => .ok ⟨text, stop, c, gap.broken⟩
  | fuel + 1, c, text, gap, stop =>
    if c.atDocumentMark || c.head = some '#' then .ok ⟨text, stop, c, gap.broken⟩
    else
      let run := plainRun inFlow c.rest
      let next := c.skip run.length
      let (text, gap, stop) :=
        if run.isEmpty then (text, gap, stop) else (text ++ gap.folded ++ run, ({} : Gap), next.place)
      match next.head with
      | none => .ok ⟨text, stop, next, gap.broken⟩
      | some ch =>
        if isBlank ch || isBreak ch then
          match readGap indent next gap with
          | .error e => .error e
          | .ok (gap, next) =>
            if !inFlow && (next.column : Int) < indent then .ok ⟨text, stop, next, gap.broken⟩
            else readPlainFrom indent inFlow fuel next text gap stop
        else .ok ⟨text, stop, next, gap.broken⟩

def readPlain (indent : Int) (inFlow : Bool) (c : Cursor) : Except MarkupFault ReadScalar :=
  readPlainFrom indent inFlow (c.rest.length + 1) c [] {} c.place

def hexDigit? (c : Char) : Option Nat :=
  if '0' ≤ c && c ≤ '9' then some (c.toNat - '0'.toNat)
  else if 'a' ≤ c && c ≤ 'f' then some (c.toNat - 'a'.toNat + 10)
  else if 'A' ≤ c && c ≤ 'F' then some (c.toNat - 'A'.toNat + 10)
  else none

def hexValue? (digits : List Char) : Option Nat :=
  digits.foldl (fun acc c => acc.bind fun n => (hexDigit? c).map (16 * n + ·)) (some 0)

def simpleEscape? : Char → Option Char
  | '0' => some '\x00'
  | 'a' => some '\x07'
  | 'b' => some '\x08'
  | 't' => some '\t'
  | '\t' => some '\t'
  | 'n' => some '\n'
  | 'v' => some '\x0b'
  | 'f' => some '\x0c'
  | 'r' => some '\r'
  | 'e' => some '\x1b'
  | ' ' => some ' '
  | '"' => some '"'
  | '\'' => some '\''
  | '\\' => some '\\'
  | 'N' => some (Char.ofNat 0x85)
  | '_' => some (Char.ofNat 0xa0)
  | 'L' => some (Char.ofNat 0x2028)
  | 'P' => some (Char.ofNat 0x2029)
  | _ => none

def escapeDigits? : Char → Option Nat
  | 'x' => some 2
  | 'u' => some 4
  | 'U' => some 8
  | _ => none

def readEscape (rest : List Char) : Except MarkupFault (Char × Nat) :=
  match rest with
  | [] => .error .badEscape
  | letter :: rest =>
    match simpleEscape? letter, escapeDigits? letter with
    | some c, _ => .ok (c, 1)
    | none, some n =>
      if (rest.take n).length < n then .error .badEscape
      else
        match hexValue? (rest.take n) with
        | none => .error .badEscape
        | some v =>
          if (0xd800 ≤ v && v ≤ 0xdfff) || 0x10ffff < v then .error .badEscape
          else .ok (Char.ofNat v, 1 + n)
    | none, none => .error .badEscape

-- A run inside quotes, up to a blank, a break, the closing quote or an escaped break. Says whether it ended
-- with an escaped break.
def quotedRun (quote : Char) : Nat → Cursor → List Char → Except MarkupFault (List Char × Cursor × Bool)
  | 0, c, text => .ok (text, c, false)
  | fuel + 1, c, text =>
    match c.rest with
    | [] => .ok (text, c, false)
    | ch :: rest =>
      if isBlank ch || isBreak ch then .ok (text, c, false)
      else if quote = '\'' && ch = '\'' && rest.head? = some '\'' then
        quotedRun quote fuel (c.skip 2) (text ++ ['\''])
      else if ch = quote then .ok (text, c, false)
      else if quote = '"' && ch = '\\' then
        if rest.head?.any isBreak then .ok (text, (c.skip 1).skipBreak, true)
        else
          match readEscape rest with
          | .error e => .error e
          | .ok (escaped, n) => quotedRun quote fuel (c.skip (1 + n)) (text ++ [escaped])
      else quotedRun quote fuel (c.skip 1) (text ++ [ch])

def readQuotedFrom (quote : Char) : Nat → Cursor → List Char → Except MarkupFault ReadScalar
  | 0, _, _ => .error .unterminated
  | fuel + 1, c, text =>
    if c.atDocumentMark then .error .strayDocumentMark
    else if c.rest.isEmpty then .error .unterminated
    else
      match quotedRun quote c.rest.length c [] with
      | .error e => .error e
      | .ok (run, next, broken) =>
        if !broken && next.head = some quote then
          .ok ⟨text ++ run, (next.skip 1).place, next.skip 1, false⟩
        else
          match readGap (-1) next { broken } with
          | .error e => .error e
          | .ok (gap, next) => readQuotedFrom quote fuel next (text ++ run ++ gap.folded)

def readQuoted (quote : Char) (c : Cursor) : Except MarkupFault ReadScalar :=
  readQuotedFrom quote (c.rest.length + 1) (c.skip 1) []

inductive Chomping where
  | strip
  | clip
  | keep
deriving DecidableEq, Repr, Inhabited

def chomping? : Option Char → Option Chomping
  | some '+' => some .keep
  | some '-' => some .strip
  | _ => none

def indentDigit? (c : Option Char) : Except MarkupFault (Option Nat) :=
  match c with
  | some ch =>
    if ch = '0' then .error .badBlockHeader
    else if ch.isDigit then .ok (some (ch.toNat - '0'.toNat))
    else .ok none
  | none => .ok none

def readBlockHeader (c : Cursor) : Except MarkupFault (Chomping × Option Nat × Cursor) :=
  match chomping? c.head with
  | some chomping => do
    match ← indentDigit? (c.peek 1) with
    | some n => return (chomping, some n, c.skip 2)
    | none => return (chomping, none, c.skip 1)
  | none => do
    match ← indentDigit? c.head with
    | some n =>
      match chomping? (c.peek 1) with
      | some chomping => return (chomping, some n, c.skip 2)
      | none => return (.clip, some n, c.skip 1)
    | none => return (.clip, none, c)

def skipIndentation (indent : Option Nat) (c : Cursor) : Cursor :=
  let blanks := (c.rest.takeWhile (· = ' ')).length
  match indent with
  | none => c.skip blanks
  | some n => c.skip (min blanks (n - c.column))

def readEmptyLines (indent : Option Nat) :
    Nat → Cursor → List Char → Nat → Place → Except MarkupFault (List Char × Nat × Place × Cursor)
  | 0, c, breaks, widest, stop => .ok (breaks, widest, stop, c)
  | fuel + 1, c, breaks, widest, stop =>
    let c := skipIndentation indent c
    let widest := max widest c.column
    if c.head = some '\t' && indent.all (c.column < ·) then .error .strayTab
    else if c.head.any isBreak then
      let (chars, c) := c.readBreak
      readEmptyLines indent fuel c (breaks ++ chars) widest c.place
    else .ok (breaks, widest, stop, c)

structure BlockText where
  text : List Char := []
  lastBreak : List Char := []
  emptyLines : List Char := []
  blankLine : Bool := false

namespace BlockText

-- Adds a line. When folding, the break between two lines that do not begin with a blank becomes a blank, or is
-- dropped if empty lines follow.
def addLine (folding : Bool) (b : BlockText) (line lastBreak : List Char) : BlockText :=
  let blankLine := line.head?.any isBlank
  let join :=
    if folding && !b.blankLine && !blankLine && b.lastBreak.head? = some '\n' then
      (if b.emptyLines.isEmpty then [' '] else [])
    else b.lastBreak
  { text := b.text ++ join ++ b.emptyLines ++ line, lastBreak, emptyLines := [], blankLine }

def chomped (b : BlockText) : Chomping → List Char
  | .strip => b.text
  | .clip => b.text ++ b.lastBreak
  | .keep => b.text ++ b.lastBreak ++ b.emptyLines

end BlockText

def readBlockLines (folding : Bool) (indent : Nat) :
    Nat → Cursor → BlockText → Place → Except MarkupFault (BlockText × Place × Cursor)
  | 0, c, b, stop => .ok (b, stop, c)
  | fuel + 1, c, b, stop =>
    if c.column = indent && !c.rest.isEmpty then
      let line := c.rest.takeWhile fun ch => !isBreak ch
      let (lastBreak, next) := (c.skip line.length).readBreak
      let b := b.addLine folding line lastBreak
      match readEmptyLines (some indent) (next.rest.length + 1) next [] 0 next.place with
      | .error e => .error e
      | .ok (emptyLines, _, stop, next) => readBlockLines folding indent fuel next { b with emptyLines } stop
    else .ok (b, stop, c)

def readBlock (folding : Bool) (outer : Int) (c : Cursor) : Except MarkupFault ReadScalar := do
  let (chomping, explicit, c) ← readBlockHeader (c.skip 1)
  let c := c.skipBlanks
  let c := if c.head = some '#' then c.skipLine else c
  if !endsLine c.head then throw .badBlockHeader
  let c := c.skipBreak
  let indent := explicit.map fun n => if 0 ≤ outer then outer.toNat + n else n
  let (emptyLines, widest, stop, c) ← readEmptyLines indent (c.rest.length + 1) c [] 0 c.place
  let indent := indent.getD (max widest (max (outer + 1) 1).toNat)
  let (b, stop, c) ← readBlockLines folding indent (c.rest.length + 1) c { emptyLines } stop
  return ⟨b.chomped chomping, stop, c, true⟩

end Blockwork.Markup
