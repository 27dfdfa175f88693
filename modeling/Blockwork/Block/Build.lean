import Blockwork.Block.Graph

set_option autoImplicit false

namespace Blockwork

abbrev Build (α : Type) := ExceptT SlotFault (StateM Graph) α

namespace Build

def add (kind : Kind) (f : Block → Block) : Build BlockId := do
  let (number, g) := (← get).add kind f
  set g
  return number

def fill (block : BlockId) (slot : Slot) (child : BlockId) : Build Unit := do
  if ((← get).block? child).isSome then set (← liftExcept ((← get).setSlot block slot child))
where
  liftExcept {α : Type} (x : Except SlotFault α) : Build α := ExceptT.mk (pure x)

def chain (statements : List BlockId) : Build BlockId := do
  let (first, g) := (← get).chain statements
  set g
  return first

def body (branch : BlockId) (statements : List BlockId) : Build Unit := do
  let first ← chain statements
  modify (·.setBody branch first)

def otherwise (branch : BlockId) (statements : List BlockId) : Build Unit := do
  let first ← chain statements
  modify (·.setOtherwise branch first)

def start (statements : List BlockId) : Build BlockId := do
  let block ← add .start id
  modify fun g => { g with main := block }
  let first ← chain statements
  if first ≠ 0 then modify (·.link block first)
  return block

def variableDecl (name : String) (type : Option ValueType) (checked : Bool) : Build BlockId :=
  add .variableDecl fun b => { b with name, type, checked }

def literal (payload : Payload) (type : Option ValueType) : Build BlockId :=
  add .literal fun b => { b with payload, type }

def reference (decl : BlockId) : Build BlockId := do
  match (← get).block? decl with
  | some d =>
    add (if d.kind = .forLoop then .indexRef else .varRef) fun b => { b with name := d.name, decl }
  | none => add .varRef id

def deviceRef (name : String) : Build BlockId := add .deviceRef fun b => { b with name }

def interrupt (name : String) : Build BlockId := add .interrupt fun b => { b with name }

def withSlots (kind : Kind) (children : List (Slot × BlockId)) : Build BlockId := do
  let block ← add kind id
  for (slot, child) in children do
    fill block slot child
  return block

def binary (kind : Kind) (left right : BlockId) : Build BlockId :=
  withSlots kind [(.left, left), (.right, right)]

def negation (operand : BlockId) : Build BlockId := withSlots .not [(.operand, operand)]

def element (vector index : BlockId) : Build BlockId :=
  withSlots .element [(.vector, vector), (.index, index)]

def elementAt (vector : BlockId) (index : Int) : Build BlockId := do
  let block ← withSlots .element [(.vector, vector)]
  modify (·.modify block fun b => { b with litIndex := some index })
  return block

def assign (target value : BlockId) : Build BlockId := withSlots .assign [(.var, target), (.value, value)]

def print (value : BlockId) : Build BlockId := withSlots .print [(.value, value)]

def input (target : BlockId) : Build BlockId := withSlots .input [(.var, target)]

def ifThen (cond : BlockId) (statements : List BlockId) : Build BlockId := do
  let block ← withSlots .ifThen [(.cond, cond)]
  body block statements
  return block

def ifElse (cond : BlockId) (statements others : List BlockId) : Build BlockId := do
  let block ← withSlots .ifElse [(.cond, cond)]
  body block statements
  otherwise block others
  return block

def whileLoop (cond : BlockId) (statements : List BlockId) : Build BlockId := do
  let block ← withSlots .whileLoop [(.cond, cond)]
  body block statements
  return block

def forLoop (name : String) (type : Option ValueType) (iteration : Iteration) : Build BlockId :=
  add .forLoop fun b => { b with name, type, iteration }

def handler (cond : BlockId) (times : Int) (statements : List BlockId) : Build BlockId := do
  let block ← withSlots .when [(.cond, cond)]
  modify (·.modify block fun b => { b with times })
  body block statements
  modify fun g => { g with handlers := g.handlers ++ [block] }
  return block

end Build

end Blockwork
