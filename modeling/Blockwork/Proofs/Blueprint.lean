import Blockwork.Proofs.Decimals
import Blockwork.Proofs.Drafting
import Blockwork.ValueType.Spec

set_option autoImplicit false

namespace Blockwork

-- What a block says, apart from its number, its place in the text and its links.
structure Content where
  kind : Kind
  name : String := ""
  type : Option ValueType := none
  checked : Bool := false
  payload : Payload := .none
  decl : Nat := 0
  times : Int := unbounded
  litIndex : Option Int := none
  iteration : Iteration := .interval

def Block.content (b : Block) : Content :=
  ⟨b.kind, b.name, b.type, b.checked, b.payload, b.decl, b.times, b.litIndex, b.iteration⟩

structure Block.Placed (b : Block) (id parent next body otherwise : Nat) (slots : List (Slot × Nat)) : Prop where
  id : b.id = id
  parent : b.parent = parent
  next : b.next = next
  body : b.body = body
  otherwise : b.otherwise = otherwise
  slots : b.slots = slots

structure Entry where
  id : Nat
  name : String
  kind : Kind

def Block.entry (b : Block) : Entry := ⟨b.id, b.name, b.kind⟩

-- The names of the open bodies, innermost and latest first, and all names, latest first.
structure Names where
  frames : List (List Entry) := []
  declared : List Entry := []

namespace Names

def look (names : Names) (name : String) : Option Entry :=
  (names.frames.flatten ++ names.declared).find? fun e => e.name = name

def fresh (names : Names) : Names := { names with frames := [[]] }

def enter (names : Names) : Names := { names with frames := [] :: names.frames }

def leave (names : Names) : Names := { names with frames := names.frames.drop 1 }

def declare (names : Names) (e : Entry) : Names where
  frames := match names.frames with
    | frame :: rest => (e :: frame) :: rest
    | [] => [[e]]
  declared := e :: names.declared

-- The names in the slots and bodies of a statement. The index of a counting loop is one of them.
def inside (names : Names) (b : Block) : Names :=
  if b.kind = .forLoop then names.enter.declare b.entry else names

def past (names : Names) (b : Block) : Names :=
  if b.kind = .forLoop then names.leave else if b.kind = .variableDecl then names.declare b.entry else names

@[simp] theorem leave_enter (names : Names) : names.enter.leave = names := rfl

end Names

inductive Literal : Payload → ValueType → Prop
  | text (s : String) : Literal (.text s) .string
  | truth (b : Bool) : Literal (.truth b) .bool
  | character (s : String) (single : s.utf8ByteSize = 1) : Literal (.text s) .byte
  | number (v : Number) (type : ValueType) (numeric : type.isNumeric = true) (double : v.IsDouble) :
      Literal (.number v) type

namespace Term

def Fits (t : Term) (c : Category) : Prop := ∀ b, t.block? = some b → b.kind.category = c

def inSlot (t : Term) (slot : Slot) : List (Slot × Nat) := if t.isMissing then [] else [(slot, t.id)]

end Term

inductive Expression (names : Names) : Content → Term → Term → Prop
  | literal (payload : Payload) (type : ValueType) (valid : Literal payload type) :
      Expression names { kind := .literal, payload, type := some type } .missing .missing
  | reference (e : Entry) (found : names.look e.name = some e) (named : e.name ≠ "") :
      Expression names { kind := if e.kind = .forLoop then .indexRef else .varRef, name := e.name, decl := e.id }
        .missing .missing
  | device (name : String) (named : name ≠ "") : Expression names { kind := .deviceRef, name } .missing .missing
  | interrupt (name : String) (named : name ≠ "") : Expression names { kind := .interrupt, name } .missing .missing
  | not (first : Term) (fits : first.Fits .predicate) : Expression names { kind := .not } first .missing
  | fixedElement (first : Term) (i : Int) (fits : first.Fits .value) (least : 0 ≤ i) (most : i < 2 ^ 63) :
      Expression names { kind := .element, litIndex := some i } first .missing
  | element (first second : Term) (fits : first.Fits .value) (fits' : second.Fits .value) :
      Expression names { kind := .element } first second
  | operation (kind : Kind) (c : Category) (first second : Term) (slots : kind.slots = [(.left, c), (.right, c)])
      (fits : first.Fits c) (fits' : second.Fits c) : Expression names { kind } first second

namespace Term

-- The blocks of the term are numbered from one on, each before what is in its slots.
def Reads (names : Names) (k : Nat) : Term → Prop
  | .missing => True
  | .node b first second =>
    b.Placed k 0 0 0 0 (first.inSlot b.kind.firstOperand ++ second.inSlot b.kind.secondOperand) ∧
      Expression names b.content first second ∧ first.Reads names (k + 1) ∧
      second.Reads names (k + 1 + first.blocks.length)

end Term

inductive Plan where
  | nil
  | cons (b : Block) (operands : List (Slot × Term)) (body otherwise rest : Plan)

namespace Plan

def id : Plan → Nat
  | .nil => 0
  | .cons b _ _ _ _ => b.id

def operandBlocks (operands : List (Slot × Term)) : List Block := operands.flatMap fun p => p.2.blocks

def operandSlots (operands : List (Slot × Term)) : List (Slot × Nat) := operands.flatMap fun p => p.2.inSlot p.1

def blocks : Plan → List Block
  | .nil => []
  | .cons b operands body otherwise rest =>
    b :: (operandBlocks operands ++ body.blocks ++ otherwise.blocks ++ rest.blocks)

def chain : Plan → Chain
  | .nil => .nil
  | .cons b _ body otherwise rest => .cons b body.chain otherwise.chain rest.chain

def after (names : Names) : Plan → Names
  | .nil => names
  | .cons b _ body otherwise rest =>
    rest.after ((otherwise.after (body.after (names.inside b).enter).leave.enter).leave.past b)

end Plan

def Iteration.bounds : Iteration → List Slot
  | .interval => [.from, .to, .step]
  | .generator => [.step, .from, .until]
  | .iterable => [.in]

-- What a statement can say, and what can stand in its slots and bodies. Only at the top may it be a handler.
inductive Statement (top : Bool) : Content → List (Slot × Term) → Plan → Plan → Prop
  | declaration (name : String) (type : ValueType) (checked : Bool) (named : name ≠ "")
      (readable : ∃ text, ValueType.parse text = .ok type) :
      Statement top { kind := .variableDecl, name, type := some type, checked } [] .nil .nil
  | assign (target value : Term) : Statement top { kind := .assign } [(.var, target), (.value, value)] .nil .nil
  | print (value : Term) : Statement top { kind := .print } [(.value, value)] .nil .nil
  | input (target : Term) : Statement top { kind := .input } [(.var, target)] .nil .nil
  | ifThen (cond : Term) (body : Plan) : Statement top { kind := .ifThen } [(.cond, cond)] body .nil
  | ifElse (cond : Term) (body otherwise : Plan) : Statement top { kind := .ifElse } [(.cond, cond)] body otherwise
  | whileLoop (cond : Term) (body : Plan) : Statement top { kind := .whileLoop } [(.cond, cond)] body .nil
  | forLoop (name : String) (type : ValueType) (iteration : Iteration) (operands : List (Slot × Term)) (body : Plan)
      (named : name ≠ "") (readable : ∃ text, ValueType.parse text = .ok type)
      (bounds : operands.map Prod.fst = iteration.bounds) :
      Statement top { kind := .forLoop, name, type := some type, iteration } operands body .nil
  | handler (cond : Term) (times : Int) (body : Plan) (atTop : top = true)
      (limit : times = unbounded ∨ 0 ≤ times ∧ times < 2 ^ 63) :
      Statement top { kind := .when, times } [(.cond, cond)] body .nil

namespace Plan

def OperandsRead (names : Names) (kind : Kind) (k : Nat) : List (Slot × Term) → Prop
  | [] => True
  | (slot, t) :: rest =>
    (∃ c, kind.accepts? slot = some c ∧ t.Fits c) ∧ t.Reads names k ∧ OperandsRead names kind (k + t.blocks.length) rest

-- The blocks are numbered from one on: a statement, its slots, its bodies and what follows it.
def Reads (top : Bool) (names : Names) (k parent : Nat) : Plan → Prop
  | .nil => True
  | .cons b operands body otherwise rest =>
    b.Placed k parent rest.id body.id otherwise.id (operandSlots operands) ∧
      Statement top b.content operands body otherwise ∧
      OperandsRead (names.inside b) b.kind (k + 1) operands ∧
      body.Reads false (names.inside b).enter (k + 1 + (operandBlocks operands).length) k ∧
      otherwise.Reads false (body.after (names.inside b).enter).leave.enter
        (k + 1 + (operandBlocks operands).length + body.blocks.length) k ∧
      rest.Reads top ((otherwise.after (body.after (names.inside b).enter).leave.enter).leave.past b)
        (k + 1 + (operandBlocks operands).length + body.blocks.length + otherwise.blocks.length) k

end Plan

end Blockwork
