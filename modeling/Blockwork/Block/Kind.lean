set_option autoImplicit false

namespace Blockwork

inductive Category where
  | none
  | value
  | predicate
  | statement
deriving DecidableEq, Repr, Inhabited

namespace Category

def name : Category → String
  | .none => "none"
  | .value => "value"
  | .predicate => "predicate"
  | .statement => "statement"

def ofCode : Int → Category
  | 1 => .value
  | 2 => .predicate
  | 3 => .statement
  | _ => .none

end Category

inductive Kind where
  | literal
  | varRef
  | indexRef
  | deviceRef
  | add
  | sub
  | mult
  | div
  | mod
  | element
  | and
  | or
  | not
  | eq
  | lt
  | lte
  | gt
  | gte
  | interrupt
  | start
  | variableDecl
  | assign
  | print
  | input
  | ifThen
  | ifElse
  | whileLoop
  | forLoop
  | when
  | unknown (code : Int)
deriving DecidableEq, Repr, Inhabited

inductive Iteration where
  | interval
  | generator
  | iterable
deriving DecidableEq, Repr, Inhabited

namespace Iteration

def name : Iteration → String
  | .interval => "interval"
  | .generator => "generator"
  | .iterable => "iterable"

def ofCode : Int → Iteration
  | 1 => .generator
  | 2 => .iterable
  | _ => .interval

end Iteration

inductive Slot where
  | left
  | right
  | operand
  | vector
  | index
  | var
  | value
  | cond
  | from
  | to
  | step
  | until
  | in
deriving DecidableEq, Repr, Inhabited

namespace Slot

def name : Slot → String
  | .left => "left"
  | .right => "right"
  | .operand => "operand"
  | .vector => "vector"
  | .index => "index"
  | .var => "var"
  | .value => "value"
  | .cond => "cond"
  | .from => "from"
  | .to => "to"
  | .step => "step"
  | .until => "until"
  | .in => "in"

def all : List Slot :=
  [.left, .right, .operand, .vector, .index, .var, .value, .cond, .from, .to, .step, .until, .in]

def named? (name : String) : Option Slot := all.find? (·.name == name)

end Slot

namespace Kind

def coded : List Kind :=
  [.literal, .varRef, .indexRef, .deviceRef, .add, .sub, .mult, .div, .mod, .element,
    .and, .or, .not, .eq, .lt, .lte, .gt, .gte, .interrupt,
    .start, .variableDecl, .assign, .print, .input, .ifThen, .ifElse, .whileLoop, .forLoop, .when]

def ofCode (code : Int) : Kind :=
  if code < 1 then .unknown code else coded[code.toNat - 1]?.getD (.unknown code)

def name : Kind → String
  | .literal => "literal"
  | .varRef => "ref"
  | .indexRef => "index"
  | .deviceRef => "device"
  | .add => "add"
  | .sub => "sub"
  | .mult => "mul"
  | .div => "div"
  | .mod => "mod"
  | .element => "elem"
  | .and => "and"
  | .or => "or"
  | .not => "not"
  | .eq => "eq"
  | .lt => "lt"
  | .lte => "lte"
  | .gt => "gt"
  | .gte => "gte"
  | .interrupt => "interrupt"
  | .start => "start"
  | .variableDecl => "var"
  | .assign => "set"
  | .print => "print"
  | .input => "input"
  | .ifThen => "if"
  | .ifElse => "ifelse"
  | .whileLoop => "while"
  | .forLoop => "for"
  | .when => "when"
  | .unknown code => s!"kind({code})"

def named? (name : String) : Option Kind := coded.find? (·.name == name)

def category : Kind → Category
  | .literal | .varRef | .indexRef | .deviceRef | .add | .sub | .mult | .div | .mod | .element => .value
  | .and | .or | .not | .eq | .lt | .lte | .gt | .gte | .interrupt => .predicate
  | .unknown _ => .none
  | _ => .statement

def isBranch : Kind → Bool
  | .ifThen | .ifElse | .whileLoop | .forLoop | .when => true
  | _ => false

def isTop : Kind → Bool
  | .start | .when => true
  | _ => false

def slots : Kind → List (Slot × Category)
  | .add | .sub | .mult | .div | .mod | .eq | .lt | .lte | .gt | .gte =>
    [(.left, .value), (.right, .value)]
  | .element => [(.vector, .value), (.index, .value)]
  | .and | .or => [(.left, .predicate), (.right, .predicate)]
  | .not => [(.operand, .predicate)]
  | .assign => [(.var, .value), (.value, .value)]
  | .print => [(.value, .value)]
  | .input => [(.var, .value)]
  | .ifThen | .ifElse | .whileLoop | .when => [(.cond, .predicate)]
  | .forLoop =>
    [(.from, .value), (.to, .value), (.step, .value), (.until, .predicate), (.in, .value)]
  | _ => []

def accepts? (k : Kind) (slot : Slot) : Option Category :=
  (k.slots.find? (·.1 = slot)).map (·.2)

end Kind

end Blockwork
