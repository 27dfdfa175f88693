import Blockwork.Markup.Property

set_option autoImplicit false

-- Splitting a text into tokens. Blocks are told by indentation: tokens for their start and end are made where
-- the indentation changes. A key is only known as one by the colon after it, so a place where a key may begin
-- is kept in mind until then, and the tokens that start a key are put there when the colon comes.

namespace Blockwork.Markup

-- A place where a key may have begun: the number of its first token. A key that begins a line of a block has
-- to be one.
structure KeyCandidate where
  token : Nat
  required : Bool
  index : Nat
  place : Place
deriving DecidableEq, Repr, Inhabited

structure Scan where
  cursor : Cursor
  tokens : Array Token := #[]
  indent : Int := -1
  outer : List Int := []
  depth : Nat := 0
  candidates : List (Option KeyCandidate) := [none]
  keyAllowed : Bool := true
deriving Inhabited

namespace Scan

def push (s : Scan) (kind : TokenKind) (start stop : Place) : Scan :=
  { s with tokens := s.tokens.push ⟨kind, start, stop⟩ }

def dropCandidate (s : Scan) : Except MarkupFault Scan :=
  match s.candidates with
  | some k :: rest => if k.required then .error .missingColon else .ok { s with candidates := none :: rest }
  | _ => .ok s

def addCandidate (s : Scan) : Except MarkupFault Scan :=
  if !s.keyAllowed then .ok s
  else do
    let s ← s.dropCandidate
    let candidate : KeyCandidate :=
      { token := s.tokens.size, required := s.depth = 0 && s.indent = s.cursor.column,
        index := s.cursor.index, place := s.cursor.place }
    return { s with candidates := some candidate :: s.candidates.drop 1 }

def isLive (s : Scan) (k : KeyCandidate) : Bool :=
  s.cursor.line ≤ k.place.line && s.cursor.index ≤ k.index + 1024

def openBlock (s : Scan) (column : Nat) (kind : TokenKind) (position : Nat) (place : Place) : Scan :=
  if s.depth = 0 && s.indent < column then
    { s with indent := column, outer := s.indent :: s.outer,
             tokens := s.tokens.insertIdxIfInBounds position ⟨kind, place, place⟩ }
  else s

def closeBlocksFrom (column : Int) (place : Place) : List Int → Scan → Scan
  | [], s => s
  | outer :: rest, s =>
    if column < s.indent then
      closeBlocksFrom column place rest { s.push .blockEnd place place with indent := outer, outer := rest }
    else s

def closeBlocks (s : Scan) (column : Int) (place : Place) : Scan :=
  if s.depth = 0 then closeBlocksFrom column place s.outer s else s

-- Passes blanks, comments and breaks before a token. Tabs are blanks only where no key may begin. In a block a
-- key may begin a line.
def skipToTokenFrom : Nat → Scan → Scan
  | 0, s => s
  | fuel + 1, s =>
    let c := s.cursor
    let c := if c.column = 0 && c.head.any isByteOrderMark then c.skip 1 else c
    let c := c.skipWhile fun ch => ch = ' ' || ((0 < s.depth || !s.keyAllowed) && ch = '\t')
    let c := if c.head = some '#' then c.skipComments else c
    if c.head.any isBreak then
      skipToTokenFrom fuel { s with cursor := c.skipBreak, keyAllowed := s.keyAllowed || s.depth = 0 }
    else { s with cursor := c }

def skipToToken (s : Scan) : Scan := skipToTokenFrom (s.cursor.rest.length + 1) s

def take (s : Scan) (kind : TokenKind) (n : Nat) : Scan :=
  let next := s.cursor.skip n
  { s.push kind s.cursor.place next.place with cursor := next }

def endOfText (s : Scan) : Except MarkupFault Scan := do
  let c := s.cursor
  let c := if c.column = 0 then c else { c with column := 0, line := c.line + 1 }
  let s := ({ s with cursor := c }).closeBlocks (-1) c.place
  let s ← s.dropCandidate
  return ({ s with keyAllowed := false }).push .streamEnd c.place c.place

def documentMark (s : Scan) (kind : TokenKind) : Except MarkupFault Scan := do
  let s ← (s.closeBlocks (-1) s.cursor.place).dropCandidate
  return ({ s with keyAllowed := false }).take kind 3

def directive (s : Scan) : Except MarkupFault Scan := do
  let s ← (s.closeBlocks (-1) s.cursor.place).dropCandidate
  let (kind, stop, next) ← readDirective s.cursor
  return { s.push kind s.cursor.place stop with cursor := next, keyAllowed := false }

def openFlow (s : Scan) (kind : TokenKind) : Except MarkupFault Scan := do
  let s ← s.addCandidate
  return ({ s with depth := s.depth + 1, candidates := none :: s.candidates, keyAllowed := true }).take kind 1

def closeFlow (s : Scan) (kind : TokenKind) : Except MarkupFault Scan := do
  let s ← s.dropCandidate
  let s := if s.depth = 0 then s else { s with depth := s.depth - 1, candidates := s.candidates.drop 1 }
  return ({ s with keyAllowed := false }).take kind 1

def separator (s : Scan) : Except MarkupFault Scan := do
  let s ← s.dropCandidate
  return ({ s with keyAllowed := true }).take .separator 1

def entry (s : Scan) : Except MarkupFault Scan := do
  if s.depth = 0 && !s.keyAllowed then throw .strayEntry
  let s ← (s.openBlock s.cursor.column .blockListStart s.tokens.size s.cursor.place).dropCandidate
  return ({ s with keyAllowed := true }).take .entry 1

def key (s : Scan) : Except MarkupFault Scan := do
  if s.depth = 0 && !s.keyAllowed then throw .strayKey
  let s ← (s.openBlock s.cursor.column .blockMappingStart s.tokens.size s.cursor.place).dropCandidate
  return ({ s with keyAllowed := s.depth = 0 }).take .key 1

def value (s : Scan) : Except MarkupFault Scan := do
  match s.candidates with
  | some k :: rest =>
    if s.isLive k then
      let s := { s with candidates := none :: rest, keyAllowed := false,
                        tokens := s.tokens.insertIdxIfInBounds k.token ⟨.key, k.place, k.place⟩ }
      return (s.openBlock k.place.column .blockMappingStart k.token k.place).take .value 1
    else if k.required then throw .missingColon
    else withoutKey { s with candidates := none :: rest }
  | _ => withoutKey s
where
  withoutKey (s : Scan) : Except MarkupFault Scan := do
    if s.depth = 0 && !s.keyAllowed then throw .strayValue
    let s := s.openBlock s.cursor.column .blockMappingStart s.tokens.size s.cursor.place
    return ({ s with keyAllowed := s.depth = 0 }).take .value 1

def name (s : Scan) (kind : String → TokenKind) : Except MarkupFault Scan := do
  let s ← s.addCandidate
  let (name, next) ← readName s.cursor
  return { s.push (kind name) s.cursor.place next.place with cursor := next, keyAllowed := false }

def tag (s : Scan) : Except MarkupFault Scan := do
  let s ← s.addCandidate
  let (handle, suffix, next) ← readTag s.cursor
  return { s.push (.tag handle suffix) s.cursor.place next.place with cursor := next, keyAllowed := false }

def scalar (s : Scan) (r : ReadScalar) (plain keyAllowed : Bool) : Scan :=
  { s.push (.scalar (String.ofList r.text) plain) s.cursor.place r.stop with cursor := r.after, keyAllowed }

def blockScalar (s : Scan) (folding : Bool) : Except MarkupFault Scan := do
  let s ← s.dropCandidate
  return s.scalar (← readBlock folding s.indent s.cursor) false true

def quotedScalar (s : Scan) (quote : Char) : Except MarkupFault Scan := do
  let s ← s.addCandidate
  return s.scalar (← readQuoted quote s.cursor) false false

def plainScalar (s : Scan) : Except MarkupFault Scan := do
  let s ← s.addCandidate
  let r ← readPlain (s.indent + 1) (0 < s.depth) s.cursor
  return s.scalar r true r.brokenAfter

def isIndicator (c : Char) : Bool :=
  ['-', '?', ':', ',', '[', ']', '{', '}', '#', '&', '*', '!', '|', '>', '\'', '"', '%', '@', '`'].contains c

def beginsPlain (s : Scan) (c : Char) : Bool :=
  let next := s.cursor.peek 1
  (!isBlank c && !isBreak c && !isIndicator c) || (c = '-' && !next.any isBlank) ||
    (s.depth = 0 && (c = '?' || c = ':') && !endsWord next)

def tokenAt (s : Scan) (c : Char) : Except MarkupFault Scan :=
  let wordEnds := endsWord (s.cursor.peek 1)
  if c = '[' then s.openFlow .flowListStart
  else if c = '{' then s.openFlow .flowMappingStart
  else if c = ']' then s.closeFlow .flowListEnd
  else if c = '}' then s.closeFlow .flowMappingEnd
  else if c = ',' then s.separator
  else if c = '-' && wordEnds then s.entry
  else if c = '?' && (0 < s.depth || wordEnds) then s.key
  else if c = ':' && (0 < s.depth || wordEnds) then s.value
  else if c = '*' then s.name .alias
  else if c = '&' then s.name .anchor
  else if c = '!' then s.tag
  else if c = '|' && s.depth = 0 then s.blockScalar false
  else if c = '>' && s.depth = 0 then s.blockScalar true
  else if c = '\'' || c = '"' then s.quotedScalar c
  else if s.beginsPlain c then s.plainScalar
  else .error .strayCharacter

def skipLineComment (s : Scan) : Scan :=
  let lineEnded := s.cursor.line ≠ (s.tokens.back?.map (·.stop.line)).getD s.cursor.line
  if lineEnded || s.tokens.back?.any (·.kind = .entry) then s
  else { s with cursor := s.cursor.skipLineComment }

def step (s : Scan) : Except MarkupFault Scan :=
  if s.tokens.isEmpty then .ok (s.push .streamStart s.cursor.place s.cursor.place)
  else
    let scanned := s.skipToToken
    let scanned := scanned.closeBlocks scanned.cursor.column s.cursor.place
    match scanned.cursor.head with
    | none => scanned.endOfText
    | some ch =>
      if scanned.cursor.column = 0 && ch = '%' then scanned.directive
      else if scanned.cursor.column = 0 && scanned.cursor.atTriple '-' then scanned.documentMark .documentStart
      else if scanned.cursor.column = 0 && scanned.cursor.atTriple '.' then scanned.documentMark .documentEnd
      else (scanned.tokenAt ch).map skipLineComment

def isFinished (s : Scan) : Bool := s.tokens.back?.any (·.kind = .streamEnd)

end Scan

-- The tokens of a text, up to its end or to a fault. At a fault it is kept for which tokens it is not settled
-- whether they begin a key.
structure TokenStream where
  tokens : Array Token
  fault : Option (MarkupFault × List Nat)
deriving Inhabited

namespace TokenStream

def unsettled (s : Scan) : List Nat :=
  s.candidates.filterMap fun k => k.bind fun k => if s.isLive k then some k.token else none

def fromScan : Nat → Scan → TokenStream
  | 0, s => ⟨s.tokens, none⟩
  | fuel + 1, s =>
    if s.isFinished then ⟨s.tokens, none⟩
    else
      match s.step with
      | .error fault => ⟨s.tokens, some (fault, unsettled s)⟩
      | .ok s => fromScan fuel s

-- Splits a text. A mark at its very beginning does not count. Every step but two passes a character.
def ofText (text : List Char) : TokenStream :=
  let text := if text.head?.any isByteOrderMark then text.drop 1 else text
  if text.all isAllowed then fromScan (text.length + 3) { cursor := { rest := text } }
  else ⟨#[], some (.forbiddenCharacter, [])⟩

-- A token by number. Reading looks two tokens ahead, and on until it is settled whether the token begins a
-- key; a fault on that way is reported here.
def token (t : TokenStream) (i : Nat) : Except MarkupFault Token :=
  match t.fault with
  | some (fault, unsettled) =>
    if t.tokens.size < i + 3 || unsettled.contains i then .error fault
    else .ok (t.tokens[i]?.getD default)
  | none => .ok (t.tokens[i]?.getD (t.tokens.back?.getD default))

end TokenStream

end Blockwork.Markup
