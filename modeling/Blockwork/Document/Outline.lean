import Blockwork.Block.Tree
import Blockwork.Markup.Value
import Blockwork.Number.Layout
import Blockwork.Text.Quoted

set_option autoImplicit false

namespace Blockwork

open Markup (Node NodeList EntryList Scalar)

mutual

inductive Outline where
  | flow (n : Node)
  | list (items : OutlineList)
  | mapping (entries : OutlineEntries)

inductive OutlineList where
  | nil
  | cons (head : Outline) (tail : OutlineList)

inductive OutlineEntries where
  | nil
  | cons (key : String) (value : Outline) (tail : OutlineEntries)

end

namespace OutlineList

def ofList : List Outline → OutlineList
  | [] => .nil
  | o :: os => .cons o (ofList os)

end OutlineList

namespace OutlineEntries

def ofList : List (String × Outline) → OutlineEntries
  | [] => .nil
  | (key, value) :: rest => .cons key value (ofList rest)

end OutlineEntries

namespace Outline

def plain (text : String) : Node := .scalar {} ⟨Markup.plainTag text, text, true⟩

def quoted (text : String) : Node := .scalar {} ⟨.text, text, false⟩

def flowList (items : List Node) : Node := .list {} (NodeList.ofList items)

def flowMapping (entries : List (String × Node)) : Node :=
  .mapping {} (EntryList.ofList (entries.map fun (key, value) => (plain key, value)))

mutual

def node : Outline → Node
  | .flow n => n
  | .list items => .list {} (nodes items)
  | .mapping entries => .mapping {} (nodeEntries entries)

def nodes : OutlineList → NodeList
  | .nil => .nil
  | .cons head tail => .cons head.node (nodes tail)

def nodeEntries : OutlineEntries → EntryList
  | .nil => .nil
  | .cons key value tail => .cons (plain key) value.node (nodeEntries tail)

end

def absent : Node := plain "~"

def isNameStart (c : Char) : Bool := c.isAlpha || c = '_'

def isWord (s : String) : Bool :=
  match s.toList with
  | [] => false
  | c :: cs => isNameStart c && cs.all fun c => isNameStart c || c.isDigit

def name (s : String) : Node :=
  if isWord s && s ≠ "true" && s ≠ "false" && s ≠ "null" then plain s else quoted s

def type : Option ValueType → Node
  | none => absent
  | some (.array element size) => quoted (ValueType.array element size).text
  | some t => plain t.text

def numberText : Number → String
  | .nan => ".nan"
  | .posInf => ".inf"
  | .negInf => "-.inf"
  | v => v.plainText

def inferred (v : Number) : ValueType :=
  if !v.isWhole || v.isInfinite then .double
  else if v.lt (.ofInt (-0x80000000)) || (Number.ofInt 0x7fffffff).lt v then .long
  else .int

def typedLiteral (lit : Node) (t : Option ValueType) : Node := flowMapping [("lit", lit), ("type", type t)]

def literal (b : Block) : Node :=
  match b.payload with
  | .truth t => plain (if t then "true" else "false")
  | .text s => if b.type = some .string ∨ b.type = none then quoted s else typedLiteral (quoted s) b.type
  | .number v =>
    let text := numberText v
    if b.type = some .double then plain (if text.contains '.' then text else text ++ ".0")
    else if b.type = some (inferred v) then plain text
    else typedLiteral (plain text) b.type
  | _ => absent

def expression : Term → Node
  | .missing => absent
  | .node b first second =>
    let single (value : Node) := flowMapping [(b.kind.name, value)]
    match b.kind with
    | .literal => literal b
    | .varRef | .indexRef => flowMapping [("ref", name b.name)]
    | .deviceRef => flowMapping [("device", name b.name)]
    | .interrupt => flowMapping [("interrupt", name b.name)]
    | .not => flowMapping [("not", expression first)]
    | .element =>
      let index := b.litIndex.elim (expression second) fun i => plain (toString i)
      flowMapping [("elem", flowList [expression first, index])]
    | _ => single (flowList [expression first, expression second])

def boundFields : Iteration → List (String × Slot × Bool)
  | .generator => [("start", .from, false), ("step", .step, false), ("until", .until, true)]
  | .iterable => [("in", .in, true)]
  | .interval => [("from", .from, false), ("to", .to, false), ("step", .step, false)]

def forFields (g : Graph) (b : Block) : List (String × Outline) :=
  (if b.type = none ∨ b.type = some .int then [] else [("type", Outline.flow (type b.type))]) ++
    (boundFields b.iteration).filterMap fun (key, slot, always) =>
      if always || b.slot slot ≠ 0 then some (key, .flow (expression (g.slotTerm b slot))) else none

def body (items : OutlineList) : Outline :=
  match items with
  | .nil => .flow (flowList [])
  | items => .list items

def statement (g : Graph) (b : Block) (first other : OutlineList) : Outline :=
  let slot (s : Slot) : Outline := .flow (expression (g.slotTerm b s))
  let fields : List (String × Outline) :=
    match b.kind with
    | .variableDecl =>
      [("var", .flow (name b.name)), ("type", .flow (type b.type))] ++
        (if b.checked then [("checked", Outline.flow (plain "true"))] else [])
    | .assign => [("set", slot .var), ("to", slot .value)]
    | .print => [("print", slot .value)]
    | .input => [("input", slot .var)]
    | .ifThen => [("if", slot .cond), ("then", body first)]
    | .ifElse => [("if", slot .cond), ("then", body first), ("else", body other)]
    | .whileLoop => [("while", slot .cond), ("do", body first)]
    | .forLoop => ("for", .flow (name b.name)) :: forFields g b ++ [("do", body first)]
    | .when =>
      ("when", slot .cond) ::
        (if b.times = unbounded then [] else [("times", Outline.flow (plain (toString b.times)))]) ++
        [("do", body first)]
    | kind => [(kind.name, .flow absent)]
  .mapping (.ofList fields)

def chain (g : Graph) : Chain → OutlineList
  | .nil => .nil
  | .cons b body otherwise rest => .cons (statement g b (chain g body) (chain g otherwise)) (chain g rest)

def device (d : Device) : Outline := .flow (flowMapping [("name", name d.name), ("type", type d.type)])

def handler (g : Graph) (id : BlockId) : Option Outline :=
  match g.chainTree id with
  | .nil => none
  | .cons b body otherwise _ => some (statement g b (chain g body) (chain g otherwise))

def ofGraph (g : Graph) : Outline :=
  let devices := if g.devices.isEmpty then [] else [("devices", Outline.list (.ofList (g.devices.map device)))]
  let main := (g.block? g.main).toList.map fun start => ("main", body (chain g (g.chainTree start.next)))
  let handlers :=
    if g.handlers.isEmpty then []
    else [("handlers", Outline.list (.ofList (g.handlers.filterMap (handler g))))]
  .mapping (.ofList (devices ++ main ++ handlers))

end Outline

end Blockwork
