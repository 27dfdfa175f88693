import Blockwork.Block.Kind
import Blockwork.Failure
import Blockwork.Number.Layout
import Blockwork.ValueType.Basic

set_option autoImplicit false

-- Programs as graphs of blocks. A graph owns its blocks and numbers them from one in the order they are made;
-- blocks refer to each other by number, and number 0 means none.

namespace Blockwork

abbrev BlockId := Nat

inductive Payload where
  | none
  | number (v : Number)
  | text (s : String)
  | truth (b : Bool)
  | list (items : List Payload)

instance : Inhabited Payload := ⟨.none⟩

mutual

def Payload.show : Payload → String
  | .none => "<nil>"
  | .number v => v.text
  | .text s => s
  | .truth b => if b then "true" else "false"
  | .list items => "[" ++ " ".intercalate (Payload.showAll items) ++ "]"

def Payload.showAll : List Payload → List String
  | [] => []
  | p :: rest => p.show :: Payload.showAll rest

end

def Payload.number? : Payload → Option Number
  | .number v => some v
  | _ => Option.none

def unbounded : Int := -1

structure Block where
  id : BlockId
  kind : Kind
  line : Nat := 0
  column : Nat := 0
  -- the statement before it in its chain, or the branch whose body it begins
  parent : BlockId := 0
  next : BlockId := 0
  body : BlockId := 0
  otherwise : BlockId := 0
  slots : List (Slot × BlockId) := []
  name : String := ""
  type : Option ValueType := none
  checked : Bool := false
  payload : Payload := .none
  decl : BlockId := 0
  times : Int := unbounded
  litIndex : Option Int := none
  iteration : Iteration := .interval
deriving Inhabited

def typeShown (t : Option ValueType) : String := (t.map (·.text)).getD "%!s(<nil>)"

namespace Block

def slot (b : Block) (s : Slot) : BlockId := ((b.slots.find? (·.1 = s)).map (·.2)).getD 0

def filledSlots (b : Block) : List (Slot × BlockId) :=
  b.kind.slots.filterMap fun (s, _) => if b.slot s = 0 then none else some (s, b.slot s)

def children (b : Block) : List BlockId := b.filledSlots.map (·.2)

def number? (b : Block) : Option Number := b.payload.number?

def isReference (b : Block) : Bool := b.kind = .varRef || b.kind = .indexRef

end Block

def Block.show (b : Block) : String :=
  let head := s!"#{b.id} {b.kind.name}"
  match b.kind with
  | .literal => s!"{head} {b.payload.show}:{typeShown b.type}"
  | .varRef | .indexRef | .deviceRef | .interrupt => s!"{head} {b.name}"
  | .variableDecl =>
    let checked := if b.checked then " checked" else ""
    s!"{head} {b.name}:{typeShown b.type}{checked}"
  | _ => head

structure Device where
  name : String
  type : Option ValueType
deriving DecidableEq, Repr, Inhabited

structure Graph where
  blocks : Array Block := #[]
  devices : List Device := []
  main : BlockId := 0
  handlers : List BlockId := []
deriving Inhabited

inductive SlotFault where
  | noSlot (block : BlockId) (kind : Kind) (slot : String)
  | wrongFamily (child : BlockId) (kind : Kind) (slot : Slot) (accepts got : Category)
deriving DecidableEq, Repr

def SlotFault.failure : SlotFault → Failure
  | .noSlot block kind slot =>
    { kind := .unrecognizedNode, message := s!"block '{kind.name}' has no slot '{slot}'", block }
  | .wrongFamily child kind slot accepts got =>
    { kind := .typeMismatch,
      message := s!"slot '{slot.name}' of '{kind.name}' accepts a {accepts.name}, got a {got.name}",
      block := child }

namespace Graph

def size (g : Graph) : Nat := g.blocks.size

def block? (g : Graph) (id : BlockId) : Option Block :=
  if id = 0 then none else g.blocks[id - 1]?

def modify (g : Graph) (id : BlockId) (f : Block → Block) : Graph :=
  if id = 0 then g else { g with blocks := g.blocks.modify (id - 1) f }

def add (g : Graph) (kind : Kind) (f : Block → Block := id) : BlockId × Graph :=
  let number := g.size + 1
  (number, { g with blocks := g.blocks.push (f { id := number, kind }) })

def slotBlock? (g : Graph) (b : Block) (s : Slot) : Option Block := g.block? (b.slot s)

def decl? (g : Graph) (b : Block) : Option Block := g.block? b.decl

def refType (g : Graph) (b : Block) : Option ValueType := (g.decl? b).bind (·.type)

def device? (g : Graph) (name : String) : Option Device := g.devices.find? (·.name = name)

def setSlot (g : Graph) (id : BlockId) (slot : Slot) (child : BlockId) : Except SlotFault Graph :=
  match g.block? id with
  | none => .ok g
  | some b =>
    match b.kind.accepts? slot with
    | none => .error (.noSlot id b.kind slot.name)
    | some accepts =>
      match g.block? child with
      | none => .ok (g.modify id fun b => { b with slots := b.slots.filter (·.1 ≠ slot) })
      | some c =>
        if c.kind.category ≠ accepts then
          .error (.wrongFamily child b.kind slot accepts c.kind.category)
        else
          .ok (g.modify id fun b => { b with slots := b.slots.filter (·.1 ≠ slot) ++ [(slot, child)] })

def setSlotNamed (g : Graph) (id : BlockId) (slot : String) (child : BlockId) : Except SlotFault Graph :=
  match Slot.named? slot, g.block? id with
  | some s, _ => g.setSlot id s child
  | none, some b => .error (.noSlot id b.kind slot)
  | none, none => .ok g

def link (g : Graph) (previous next : BlockId) : Graph :=
  (g.modify previous fun b => { b with next }).modify next fun b => { b with parent := previous }

def setBody (g : Graph) (branch first : BlockId) : Graph :=
  if (g.block? first).isNone then g.modify branch fun b => { b with body := 0 }
  else (g.modify branch fun b => { b with body := first }).modify first fun b => { b with parent := branch }

def setOtherwise (g : Graph) (branch first : BlockId) : Graph :=
  if (g.block? first).isNone then g.modify branch fun b => { b with otherwise := 0 }
  else
    (g.modify branch fun b => { b with otherwise := first }).modify first fun b =>
      { b with parent := branch }

def chain (g : Graph) : List BlockId → BlockId × Graph
  | [] => (0, g)
  | first :: rest =>
    let links := (first :: rest).zip rest
    (first, links.foldl (fun g (previous, next) => g.link previous next) g)

-- The statements from one to the end of its chain. A chain without a cycle has at most as many statements as
-- there are blocks.
def chainFrom (g : Graph) : Nat → BlockId → List Block
  | 0, _ => []
  | fuel + 1, id =>
    match g.block? id with
    | none => []
    | some b => b :: g.chainFrom fuel b.next

def chainOf (g : Graph) (id : BlockId) : List Block := g.chainFrom g.size id

-- Visits a block, what is below it and then the rest of its chain. What is below a block is left out unless
-- `descend` says otherwise. A path through a graph without a cycle has at most as many steps as there are
-- blocks.
def walkFrom (g : Graph) (descend : Block → Bool) : Nat → BlockId → List Block
  | 0, _ => []
  | fuel + 1, id =>
    match g.block? id with
    | none => []
    | some b =>
      let below :=
        if descend b then
          b.children.flatMap (g.walkFrom descend fuel) ++ g.walkFrom descend fuel b.body ++
            g.walkFrom descend fuel b.otherwise
        else []
      b :: (below ++ g.walkFrom descend fuel b.next)

def walk (g : Graph) (id : BlockId) : List Block := g.walkFrom (fun _ => true) g.size id

def roots (g : Graph) : List BlockId := (if g.main = 0 then [] else [g.main]) ++ g.handlers

end Graph

end Blockwork
