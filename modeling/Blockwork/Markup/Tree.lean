import Blockwork.Markup.TokenStream
import Blockwork.Markup.Value

set_option autoImplicit false

namespace Blockwork.Markup

-- The state of reading: the number of the next token, the handles of tags, and the nodes with anchors that
-- have begun. Of those it is kept whether they are scalars.
structure ReadState where
  position : Nat := 0
  handles : List (String × String) := []
  anchors : List (String × Option Scalar) := []
deriving Inhabited

abbrev Reading (α : Type) := ReaderT TokenStream (StateT ReadState (Except MarkupFault)) α

namespace Reading

def peek : Reading Token := do (← read).token (← get).position |> liftM

def skip : Reading Unit := modify fun s => { s with position := s.position + 1 }

def fail {α : Type} (fault : MarkupFault) : Reading α := throw fault

def bindAnchor (anchor : Option String) (target : Option Scalar) : Reading Unit :=
  match anchor with
  | some name => modify fun s => { s with anchors := (name, target) :: s.anchors }
  | none => pure ()

structure Properties where
  start : Option Place := none
  anchor : Option String := none
  tag : Option (String × String) := none

def anchor? (p : Properties) : Reading Properties := do
  let token ← peek
  match token.kind, p.anchor with
  | .anchor name, none =>
    skip
    return { p with anchor := some name, start := p.start.orElse fun _ => some token.start }
  | _, _ => return p

def tag? (p : Properties) : Reading Properties := do
  let token ← peek
  match token.kind, p.tag with
  | .tag handle suffix, none =>
    skip
    return { p with tag := some (handle, suffix), start := p.start.orElse fun _ => some token.start }
  | _, _ => return p

def properties : Reading Properties := do
  let first ← anchor? {}
  let second ← tag? first
  if first.anchor.isNone then anchor? second else return second

def fullTag (handle suffix : String) : Reading String := do
  if handle.isEmpty then return suffix
  match (← get).handles.find? (·.1 = handle) with
  | some (_, replacement) => return replacement ++ suffix
  | none => fail .undefinedTagHandle

def coreTags : String := "tag:yaml.org,2002:"

def tagNamed (full : String) : Tag :=
  let name := if full.startsWith coreTags then "!!" ++ (full.drop coreTags.length).toString else full
  match name with
  | "!!null" => .null
  | "!!bool" => .truth
  | "!!int" => .integer
  | "!!float" => .number
  | "!!timestamp" => .timestamp
  | "!!str" => .text
  | "!!merge" => .merge
  | "!!binary" => .binary
  | name => .other name

def scalarTag (full : String) (text : String) (plain : Bool) : Tag :=
  if full.isEmpty || full = "!" then (if plain then plainTag text else .text) else tagNamed full

def emptyScalar (place : Place) : Node := .scalar place ⟨.null, "", true⟩

def endsEntry (indentless : Bool) : TokenKind → Bool
  | .entry | .blockEnd => true
  | .key | .value => indentless
  | _ => false

def endsPair : TokenKind → Bool
  | .key | .value | .blockEnd => true
  | _ => false

def contentless (p : Properties) (full : String) (start : Place) : Reading Node := do
  if p.anchor.isNone && p.tag.isNone then fail .unexpectedToken
  let s : Scalar := ⟨scalarTag full "" true, "", true⟩
  bindAnchor p.anchor (some s)
  return .scalar start s

def aliasNode (token : Token) (name : String) : Reading Node := do
  skip
  match (← get).anchors.find? (·.1 = name) with
  | some (_, target) => return .alias token.start name target
  | none => fail .unknownAnchor

def endsFlowPair (kind : TokenKind) : Bool := kind = .separator || kind = .flowMappingEnd

def endsListPair (kind : TokenKind) : Bool := kind = .separator || kind = .flowListEnd

def separated (first : Bool) : Reading Unit := do
  if !first then
    if (← peek).kind ≠ .separator then fail .unexpectedToken
    skip

mutual

-- A node. `block` says whether it may be a block, `indentless` whether it may be a list that is not indented
-- more than what is around it.
def node (block indentless : Bool) : Nat → Reading Node
  | 0 => fail .unexpectedToken
  | fuel + 1 => do
    let token ← peek
    match token.kind with
    | .alias name => aliasNode token name
    | _ =>
      let p ← properties
      let full ← match p.tag with
        | some (handle, suffix) => fullTag handle suffix
        | none => pure ""
      let token ← peek
      let start := p.start.getD token.start
      match token.kind, block, indentless with
      | .scalar text plain, _, _ =>
        skip
        let s : Scalar := ⟨scalarTag full text plain, text, plain⟩
        bindAnchor p.anchor (some s)
        return .scalar start s
      | .flowListStart, _, _ =>
        skip
        bindAnchor p.anchor none
        return .list start (← flowList true fuel)
      | .flowMappingStart, _, _ =>
        skip
        bindAnchor p.anchor none
        return .mapping start (← flowMapping true fuel)
      | .entry, _, true =>
        bindAnchor p.anchor none
        return .list start (← indentlessList fuel)
      | .blockListStart, true, _ =>
        skip
        bindAnchor p.anchor none
        return .list start (← blockList fuel)
      | .blockMappingStart, true, _ =>
        skip
        bindAnchor p.anchor none
        return .mapping start (← blockMapping fuel)
      | _, _, _ => contentless p full start

def blockList : Nat → Reading NodeList
  | 0 => fail .unexpectedToken
  | fuel + 1 => do
    let token ← peek
    match token.kind with
    | .entry =>
      skip
      let n ← if endsEntry false (← peek).kind then pure (emptyScalar token.stop) else node true false fuel
      return .cons n (← blockList fuel)
    | .blockEnd =>
      skip
      return .nil
    | _ => fail .unexpectedToken

def indentlessList : Nat → Reading NodeList
  | 0 => fail .unexpectedToken
  | fuel + 1 => do
    let token ← peek
    match token.kind with
    | .entry =>
      skip
      let n ← if endsEntry true (← peek).kind then pure (emptyScalar token.stop) else node true false fuel
      return .cons n (← indentlessList fuel)
    | _ => return .nil

def blockMapping : Nat → Reading EntryList
  | 0 => fail .unexpectedToken
  | fuel + 1 => do
    let token ← peek
    match token.kind with
    | .key =>
      skip
      let k ← if endsPair (← peek).kind then pure (emptyScalar token.stop) else node true true fuel
      let token ← peek
      let v ← match token.kind with
        | .value => do
          skip
          if endsPair (← peek).kind then pure (emptyScalar token.stop) else node true true fuel
        | _ => pure (emptyScalar token.start)
      return .cons k v (← blockMapping fuel)
    | .blockEnd =>
      skip
      return .nil
    | _ => fail .unexpectedToken

def flowList (first : Bool) : Nat → Reading NodeList
  | 0 => fail .unexpectedToken
  | fuel + 1 => do
    if (← peek).kind = .flowListEnd then
      skip
      return .nil
    separated first
    let token ← peek
    match token.kind with
    | .flowListEnd =>
      skip
      return .nil
    | .key =>
      skip
      let (k, v) ← pairInList fuel
      return .cons (.mapping token.start (.cons k v .nil)) (← flowList false fuel)
    | _ =>
      let n ← node false false fuel
      return .cons n (← flowList false fuel)

def flowMapping (first : Bool) : Nat → Reading EntryList
  | 0 => fail .unexpectedToken
  | fuel + 1 => do
    if (← peek).kind = .flowMappingEnd then
      skip
      return .nil
    separated first
    match (← peek).kind with
    | .flowMappingEnd =>
      skip
      return .nil
    | .key =>
      skip
      let token ← peek
      let k ←
        if token.kind = .value || endsFlowPair token.kind then pure (emptyScalar token.start)
        else node false false fuel
      let token ← peek
      let v ←
        if token.kind = .value then do
          skip
          let token ← peek
          if endsFlowPair token.kind then pure (emptyScalar token.start) else node false false fuel
        else pure (emptyScalar token.start)
      return .cons k v (← flowMapping false fuel)
    | _ =>
      let k ← node false false fuel
      let v := emptyScalar (← peek).start
      return .cons k v (← flowMapping false fuel)

def pairInList : Nat → Reading (Node × Node)
  | 0 => fail .unexpectedToken
  | fuel + 1 => do
    let token ← peek
    let k ←
      if token.kind = .value || endsListPair token.kind then do
        skip
        pure (emptyScalar token.stop)
      else node false false fuel
    let token ← peek
    if token.kind = .value then
      skip
      if endsListPair (← peek).kind then return (k, emptyScalar token.start)
      return (k, ← node false false fuel)
    else return (k, emptyScalar token.start)

end

-- The node at the root of a document. Every two steps inwards pass a token.
def root : Reading Node := do node true false (2 * (← read).tokens.size + 4)

def defaultHandles : List (String × String) := [("!", "!"), ("!!", coreTags)]

def directives : Nat → Bool → List (String × String) → Reading (List (String × String))
  | 0, _, handles => return handles
  | fuel + 1, versioned, handles => do
    match (← peek).kind with
    | .version major minor =>
      if versioned then fail .badDirective
      if major ≠ 1 || minor ≠ 1 then fail .unknownVersion
      skip
      directives fuel true handles
    | .tagHandle handle replacement =>
      if handles.any (·.1 = handle) then fail .badDirective
      skip
      directives fuel versioned (handles ++ [(handle, replacement)])
    | _ => return handles

def endsDocument : TokenKind → Bool
  | .version _ _ | .tagHandle _ _ | .documentStart | .documentEnd | .streamEnd => true
  | _ => false

def document : Reading (Option Node) := do
  let _ ← peek
  skip
  let token ← peek
  match token.kind with
  | .streamEnd => return none
  | .version _ _ | .tagHandle _ _ | .documentStart =>
    let handles ← directives (← read).tokens.size false []
    if (← peek).kind ≠ .documentStart then fail .missingDocumentStart
    skip
    modify fun s => { s with handles := handles ++ defaultHandles }
    let token ← peek
    let root ← if endsDocument token.kind then pure (emptyScalar token.start) else root
    let _ ← peek
    return some root
  | _ =>
    modify fun s => { s with handles := defaultHandles }
    let root ← root
    let _ ← peek
    return some root

end Reading

def readDocument (text : String) : Except MarkupFault (Option Node) :=
  match (Reading.document.run (TokenStream.ofText text.toList)).run {} with
  | .ok (root, _) => .ok root
  | .error fault => .error fault

end Blockwork.Markup
