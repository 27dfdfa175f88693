import Blockwork.Block.Graph

set_option autoImplicit false

namespace Blockwork

-- A value or predicate with its operands. A block has at most two operand slots; one that is empty is
-- `missing`.
inductive Term where
  | missing
  | node (block : Block) (first second : Term)

instance : Inhabited Term := ⟨.missing⟩

inductive Chain where
  | nil
  | cons (block : Block) (body otherwise rest : Chain)

instance : Inhabited Chain := ⟨.nil⟩

namespace Kind

def firstOperand : Kind → Slot
  | .element => .vector
  | .not => .operand
  | _ => .left

def secondOperand : Kind → Slot
  | .element => .index
  | _ => .right

end Kind

namespace Term

def block? : Term → Option Block
  | .missing => none
  | .node b _ _ => some b

def isMissing : Term → Bool
  | .missing => true
  | .node _ _ _ => false

def id : Term → BlockId
  | .missing => 0
  | .node b _ _ => b.id

end Term

namespace Graph

def termFrom (g : Graph) : Nat → BlockId → Term
  | 0, _ => .missing
  | fuel + 1, id =>
    match g.block? id with
    | none => .missing
    | some b =>
      .node b (g.termFrom fuel (b.slot b.kind.firstOperand)) (g.termFrom fuel (b.slot b.kind.secondOperand))

def term (g : Graph) (id : BlockId) : Term := g.termFrom g.size id

def slotTerm (g : Graph) (b : Block) (s : Slot) : Term := g.term (b.slot s)

def chainTreeFrom (g : Graph) : Nat → BlockId → Chain
  | 0, _ => .nil
  | fuel + 1, id =>
    match g.block? id with
    | none => .nil
    | some b =>
      .cons b (g.chainTreeFrom fuel b.body) (g.chainTreeFrom fuel b.otherwise) (g.chainTreeFrom fuel b.next)

def chainTree (g : Graph) (id : BlockId) : Chain := g.chainTreeFrom g.size id

end Graph

end Blockwork
