import Blockwork.Block.Tree
import Blockwork.Constraint.Expr

set_option autoImplicit false

namespace Blockwork

inductive ComposeFault where
  | missingOperand (parent : BlockId)
  | strangeLiteral (block : BlockId) (shown : String)
  | undeclaredDevice (block : BlockId) (name : String)
  | noExpression (block : BlockId) (kind : Kind)
deriving DecidableEq, Repr

namespace ComposeFault

def failure : ComposeFault → Failure
  | .missingOperand block => { kind := .missingOperand, message := "Missing operand", block }
  | .strangeLiteral block shown =>
    { kind := .unrecognizedExpression, message := s!"Unrecognized literal {shown}", block }
  | .undeclaredDevice block name =>
    { kind := .unresolvedVariable, message := s!"Device {name} not declared", block }
  | .noExpression block kind =>
    { kind := .unrecognizedExpression, message := s!"Unrecognized expression block '{kind.name}'", block }

def under (parent : BlockId) : ComposeFault → ComposeFault
  | .missingOperand 0 => .missingOperand parent
  | fault => fault

end ComposeFault

namespace Kind

def operator? : Kind → Option BinaryOp
  | .add => some .add
  | .sub => some .sub
  | .mult => some .mult
  | .div => some .div
  | .mod => some .rem
  | .and => some .and
  | .or => some .or
  | .eq => some .eq
  | .lt => some .lt
  | .gt => some .gt
  | _ => none

end Kind

namespace Graph

def composeLeaf (g : Graph) (b : Block) : Except ComposeFault Expr :=
  match b.kind with
  | .literal =>
    match b.payload with
    | .number v => .ok (.num v)
    | .text s => .ok (.text s)
    | .truth t => .ok (.truth t)
    | p => .error (.strangeLiteral b.id p.show)
  | .varRef | .indexRef => .ok (.ref ⟨b.name, g.refType b⟩)
  | .deviceRef =>
    match g.device? b.name with
    | some d => .ok (.ref ⟨d.name, d.type⟩)
    | none => .error (.undeclaredDevice b.id b.name)
  | kind => .error (.noExpression b.id kind)

def composeTerm (g : Graph) : Term → Except ComposeFault Expr
  | .missing => .error (.missingOperand 0)
  | .node b first second =>
    let left := (g.composeTerm first).mapError (·.under b.id)
    let right := (g.composeTerm second).mapError (·.under b.id)
    let both (f : Expr → Expr → Expr) : Except ComposeFault Expr := left.bind fun l => right.map (f l)
    match b.kind with
    | .not => left.map .neg
    | .lte => both fun l r => .or (.lt l r) (.eq l r)
    | .gte => both fun l r => .or (.gt l r) (.eq l r)
    | kind =>
      match kind.operator? with
      | some op => both (.binary op)
      | none => g.composeLeaf b

def compose (g : Graph) (id : BlockId) : Except ComposeFault Expr := g.composeTerm (g.term id)

end Graph

end Blockwork
