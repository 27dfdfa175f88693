import Blockwork.Block.Build
import Blockwork.Document.Fault
import Blockwork.Markup.Tree

set_option autoImplicit false

namespace Blockwork

open Markup (Place Node NodeList EntryList Scalar)

namespace Document

-- What is being read: the program so far, the declarations of the open bodies with the innermost and the
-- latest first, and all declarations with the latest first.
structure LoadState where
  graph : Graph := {}
  frames : List (List BlockId) := []
  declared : List BlockId := []
deriving Inhabited

abbrev Loading (α : Type) := StateT LoadState (Except DocumentFault) α

def fail {α : Type} (n : Node) (fault : NodeFault) : Loading α := throw (.node n.place fault)

structure Field where
  key : Node
  name : String
  value : Node

abbrev Fields := List Field

namespace Fields

def get? (fs : Fields) (name : String) : Option Field := fs.find? (·.name = name)

def has (fs : Fields) (name : String) : Bool := (fs.get? name).isSome

end Fields

def fieldsFrom (seen : Fields) : EntryList → Except DocumentFault Fields
  | .nil => .ok seen
  | .cons key value rest =>
    match key with
    | .scalar place s =>
      if seen.has s.text then .error (.node place (.duplicateKey s.text))
      else fieldsFrom (seen ++ [⟨key, s.text, value⟩]) rest
    | _ => .error (.node key.place .keyNotScalar)

def fields (entries : EntryList) : Loading Fields := liftM (fieldsFrom [] entries)

def add (kind : Kind) (n : Node) (f : Block → Block) : Loading BlockId := do
  let (id, g) := (← get).graph.add kind fun b =>
    { f b with line := n.place.line + 1, column := n.place.column + 1 }
  modify fun s => { s with graph := g }
  return id

def onGraph (f : Graph → Graph) : Loading Unit := modify fun s => { s with graph := f s.graph }

def declare (id : BlockId) : Loading Unit :=
  modify fun s =>
    { s with
      frames := match s.frames with
        | frame :: rest => (id :: frame) :: rest
        | [] => [[id]]
      declared := id :: s.declared }

def inBody {α : Type} (x : Loading α) : Loading α := do
  modify fun s => { s with frames := [] :: s.frames }
  let result ← x
  modify fun s => { s with frames := s.frames.drop 1 }
  return result

-- The declaration a name stands for: the latest in the innermost open body that has one. A name that only
-- closed bodies declare stands for its latest declaration.
def LoadState.resolve? (s : LoadState) (name : String) : Option Block :=
  (s.frames.flatten ++ s.declared).findSome? fun id =>
    (s.graph.block? id).bind fun b => if b.name = name then some b else none

def typeOf (fs : Fields) (n : Node) : Loading ValueType :=
  match fs.get? "type" with
  | none => fail n .missingType
  | some f =>
    match ValueType.parse f.value.ownText with
    | .ok type => return type
    | .error fault => throw (.type f.value.place fault)

def nameIn (n : Node) (fault : NodeFault) : Loading String :=
  match n with
  | .scalar _ s => if s.text.isEmpty then fail n fault else return s.text
  | _ => fail n fault

def reference (n : Node) : Loading BlockId := do
  let name ← nameIn n .referenceUnnamed
  match (← get).resolve? name with
  | none => throw (.undeclared n.place name)
  | some d =>
    add (if d.kind = .forLoop then .indexRef else .varRef) n fun b => { b with name := d.name, decl := d.id }

-- What a scalar means as a literal. A type that is given decides; otherwise the tag does, and integers that do
-- not fit an `int` are `long`.
def literalOf (type : Option ValueType) (s : Scalar) : Except NodeFault (Payload × ValueType) :=
  let truth : Except NodeFault (Payload × ValueType) :=
    match s.truth? with
    | some b => .ok (.truth b, .bool)
    | none => .error (.notTruth s.text)
  let number (type : ValueType) : Except NodeFault (Payload × ValueType) :=
    match s.number? with
    | some v => .ok (.number v, type)
    | none => .error (.notNumber s.text)
  match type with
  | none =>
    match s.tag with
    | .text => .ok (.text s.text, .string)
    | .truth => truth
    | .integer =>
      match s.integer? with
      | some n => .ok (.number (.ofInt n), if n < -0x80000000 ∨ 0x80000000 ≤ n then .long else .int)
      | none => .error (.notInteger s.text)
    | .number => number .double
    | _ => .error (.unsupportedLiteral s.text)
  | some type =>
    if type = .string then .ok (.text s.text, .string)
    else if type = .bool then truth
    else if type = .byte ∧ s.tag = .text then
      if s.text.utf8ByteSize = 1 then .ok (.text s.text, .byte) else .error (.notCharacter s.text)
    else if type.isNumeric then number type
    else .error (.literalType type)

def literal (type : Option ValueType) (n : Node) : Loading BlockId :=
  match n with
  | .scalar _ s =>
    match literalOf type s with
    | .ok (payload, type) => add .literal n fun b => { b with payload, type := some type }
    | .error fault => fail n fault
  | _ => fail n .literalNotScalar

def binaryKind? (key : String) : Option Kind :=
  [.add, .sub, .mult, .div, .mod, .and, .or, .eq, .lt, .lte, .gt, .gte].find? fun k => k.name == key

def fill (operand : Node → Loading BlockId) (block : BlockId) (slot : Slot) (n : Node) : Loading Unit := do
  if n.isNull then return
  let child ← operand n
  match (← get).graph.setSlot block slot child with
  | .ok g => modify fun s => { s with graph := g }
  | .error fault => throw (.slot n.place fault)

def element (operand : Node → Loading BlockId) (n arg : Node) : Loading BlockId :=
  match arg with
  | .list _ (.cons vector (.cons index .nil)) => do
    let block ← add .element n id
    fill operand block .vector vector
    match index with
    | .scalar _ s =>
      if s.tag = .integer then
        match s.integer? with
        | some i =>
          if i < 0 then fail index .badIndex
          onGraph (·.modify block fun b => { b with litIndex := some i })
        | none => fail index .badIndex
      else fill operand block .index index
    | _ => fill operand block .index index
    return block
  | _ => fail arg .notElement

def keyed (operand : Node → Loading BlockId) (n : Node) (f : Field) : Loading BlockId :=
  match f.name with
  | "ref" => reference f.value
  | "device" => do
    let name ← nameIn f.value .deviceRefUnnamed
    add .deviceRef n fun b => { b with name }
  | "interrupt" => do
    let name ← nameIn f.value .interruptUnnamed
    add .interrupt n fun b => { b with name }
  | "not" => do
    let block ← add .not n id
    fill operand block .operand f.value
    return block
  | "elem" => element operand n f.value
  | key =>
    match binaryKind? key with
    | none => fail f.key (.unknownExpression key)
    | some kind =>
      match f.value with
      | .list _ (.cons left (.cons right .nil)) => do
        let block ← add kind n id
        fill operand block .left left
        fill operand block .right right
        return block
      | arg => fail arg (.notTwoOperands key)

def operandWith (operand : Node → Loading BlockId) (n : Node) : Loading BlockId :=
  match n with
  | .scalar _ _ => literal none n
  | .mapping _ entries => do
    let fs ← fields entries
    match fs.get? "lit", fs with
    | some f, _ =>
      if fs.length ≠ 2 || !fs.has "type" then fail n .literalKeys
      let type ← typeOf fs n
      literal (some type) f.value
    | none, [f] => keyed operand n f
    | none, _ => fail n .notOneKey
  | _ => fail n .notOperand

def operand : Nat → Node → Loading BlockId
  | 0, n => fail n .tooDeep
  | fuel + 1, n => operandWith (operand fuel) n

def statementKeys : List (String × List String) :=
  [("var", ["type", "checked"]), ("set", ["to"]), ("print", []), ("input", []), ("if", ["then", "else"]),
    ("while", ["do"]), ("for", ["type", "from", "to", "step", "start", "until", "in", "do"]),
    ("when", ["times", "do"])]

structure Readers where
  operand : Node → Loading BlockId
  statement : Node → Fields → Loading BlockId

def statements (r : Readers) : NodeList → Loading (List BlockId)
  | .nil => return []
  | .cons item rest => do
    match item with
    | .mapping _ entries =>
      let fs ← fields entries
      let first ← r.statement item fs
      let later ← statements r rest
      return first :: later
    | _ => fail item .statementNotMapping

def chain (r : Readers) (n : Node) : Loading (List BlockId) :=
  if n.isNull then return []
  else
    match n with
    | .list _ items => statements r items
    | _ => fail n .notStatements

def body (r : Readers) (n : Node) : Loading BlockId :=
  inBody do
    let ids ← chain r n
    let (first, g) := (← get).graph.chain ids
    modify fun s => { s with graph := g }
    return first

def attachBody (r : Readers) (block : BlockId) (fs : Fields) (key : String) : Loading Unit := do
  match fs.get? key with
  | none => return
  | some f =>
    let first ← body r f.value
    onGraph (·.setBody block first)

def fillField (r : Readers) (block : BlockId) (slot : Slot) (fs : Fields) (key : String) : Loading Unit :=
  match fs.get? key with
  | none => return
  | some f => fill r.operand block slot f.value

def variableDecl (n head : Node) (fs : Fields) : Loading BlockId := do
  let name ← nameIn head .variableUnnamed
  let type ← typeOf fs n
  let checked ←
    match fs.get? "checked" with
    | none => pure false
    | some f =>
      match f.value.truth? with
      | some b => pure b
      | none => fail f.value .checkedNotTruth
  let block ← add .variableDecl n fun b => { b with name, type := some type, checked }
  declare block
  return block

def branch (r : Readers) (n head : Node) (fs : Fields) : Loading BlockId := do
  let block ← add (if fs.has "else" then .ifElse else .ifThen) n id
  fill r.operand block .cond head
  attachBody r block fs "then"
  match fs.get? "else" with
  | none => return block
  | some f =>
    let first ← body r f.value
    onGraph (·.setOtherwise block first)
    return block

def boundKeys : List String := ["from", "to", "step", "start", "until", "in"]

def boundSlot? : Iteration → String → Option Slot
  | .interval, "from" => some .from
  | .interval, "to" => some .to
  | .interval, "step" => some .step
  | .generator, "start" => some .from
  | .generator, "step" => some .step
  | .generator, "until" => some .until
  | .iterable, "in" => some .in
  | _, _ => none

def bounds (r : Readers) (block : BlockId) (iteration : Iteration) (fs : Fields) : List String → Loading Unit
  | [] => return
  | key :: rest => do
    match fs.get? key with
    | none => bounds r block iteration fs rest
    | some f =>
      match boundSlot? iteration key with
      | none => fail f.key (.strayBound key iteration)
      | some slot =>
        fill r.operand block slot f.value
        bounds r block iteration fs rest

def iterationOf (fs : Fields) : Iteration :=
  if fs.has "in" then .iterable else if fs.has "until" then .generator else .interval

def forLoop (r : Readers) (n head : Node) (fs : Fields) : Loading BlockId := do
  let name ← nameIn head .indexUnnamed
  let type ← if fs.has "type" then typeOf fs n else pure .int
  let iteration := iterationOf fs
  let block ← add .forLoop n fun b => { b with name, type := some type, iteration }
  inBody do
    declare block
    bounds r block iteration fs boundKeys
    attachBody r block fs "do"
  return block

def handler (r : Readers) (n head : Node) (fs : Fields) : Loading BlockId := do
  let block ← add .when n id
  fill r.operand block .cond head
  match fs.get? "times" with
  | none => pure ()
  | some f =>
    match f.value.integer? with
    | none => fail f.value .timesNotCount
    | some times =>
      if times < 0 then fail f.value .timesNotCount
      onGraph (·.modify block fun b => { b with times })
  attachBody r block fs "do"
  onGraph fun g => { g with handlers := g.handlers ++ [block] }
  return block

def keyword (n : Node) (fs : Fields) : Loading (String × Node) := do
  match fs.findSome? fun f => (statementKeys.find? (·.1 = f.name)).map fun k => (f, k.2) with
  | none => fail n .noKeyword
  | some (f, others) =>
    match fs.find? fun g => g.name ≠ f.name ∧ ¬ others.contains g.name with
    | some g => fail g.key (.unknownKey g.name f.name)
    | none => return (f.name, f.value)

def statementWith (r : Readers) (top : Bool) (n : Node) (fs : Fields) : Loading BlockId := do
  let (word, head) ← keyword n fs
  match word with
  | "var" => variableDecl n head fs
  | "set" =>
    let block ← add .assign n id
    fill r.operand block .var head
    fillField r block .value fs "to"
    return block
  | "print" =>
    let block ← add .print n id
    fill r.operand block .value head
    return block
  | "input" =>
    let block ← add .input n id
    fill r.operand block .var head
    return block
  | "if" => branch r n head fs
  | "while" =>
    let block ← add .whileLoop n id
    fill r.operand block .cond head
    attachBody r block fs "do"
    return block
  | "for" => forLoop r n head fs
  | _ => if top then handler r n head fs else fail n .strayHandler

def statement (operand : Node → Loading BlockId) : Nat → Bool → Node → Fields → Loading BlockId
  | 0, _, n, _ => fail n .tooDeep
  | fuel + 1, top, n, fs => statementWith ⟨operand, statement operand fuel false⟩ top n fs

def readers (depth : Nat) : Readers := ⟨operand depth, statement (operand depth) depth false⟩

def devices : NodeList → Loading Unit
  | .nil => return
  | .cons item rest => do
    match item with
    | .mapping _ entries =>
      let fs ← fields entries
      let nameNode ← match fs.get? "name" with
        | some f => pure f.value
        | none => fail item .deviceUnnamed
      let name ← match nameNode with
        | .scalar _ s => if s.text.isEmpty then fail item .deviceUnnamed else pure s.text
        | _ => fail item .deviceUnnamed
      let type ← typeOf fs item
      if ((← get).graph.device? name).isSome then fail nameNode (.deviceTwice name)
      onGraph fun g => { g with devices := g.devices ++ [{ name, type := some type }] }
      devices rest
    | _ => fail item .deviceNotMapping

def handlers (depth : Nat) : NodeList → Loading Unit
  | .nil => return
  | .cons item rest => do
    match item with
    | .mapping _ entries =>
      let fs ← fields entries
      if !fs.has "when" then fail item .notHandler
      modify fun s => { s with frames := [[]] }
      let _ ← statement (operand depth) depth true item fs
      handlers depth rest
    | _ => fail item .notHandler

def mainChain (depth : Nat) (f : Field) : Loading Unit := do
  modify fun s => { s with frames := [[]] }
  let ids ← chain (readers depth) f.value
  let start ← add .start f.key id
  let (first, g) := (← get).graph.chain ids
  let g := if first = 0 then g else g.link start first
  modify fun s => { s with graph := { g with main := start } }

def checkParts (fs : Fields) : Loading Unit :=
  match fs.find? fun f => ¬ ["devices", "main", "handlers"].contains f.name with
  | some f => fail f.key (.unknownTopKey f.name)
  | none => pure ()

def part (fs : Fields) (name : String) (read : Field → Loading Unit) : Loading Unit :=
  match fs.get? name with
  | some f => read f
  | none => pure ()

def listPart (fault : NodeFault) (read : NodeList → Loading Unit) (f : Field) : Loading Unit :=
  match f.value with
  | .list _ items => read items
  | n => fail n fault

def program (root : Node) : Loading Unit :=
  match root with
  | .mapping _ entries => do
    let fs ← fields entries
    checkParts fs
    part fs "devices" (listPart .devicesNotList devices)
    part fs "main" (mainChain root.depth)
    part fs "handlers" (listPart .handlersNotList (handlers root.depth))
  | _ => fail root .rootNotMapping

def ofNode (root : Node) : Except DocumentFault Graph :=
  match (program root).run {} with
  | .ok (_, s) => .ok s.graph
  | .error fault => .error fault

def load (text : String) : Except DocumentFault Graph :=
  match Markup.readDocument text with
  | .error fault => .error (.unreadable fault)
  | .ok none => .error .empty
  | .ok (some root) => ofNode root

end Document

end Blockwork
