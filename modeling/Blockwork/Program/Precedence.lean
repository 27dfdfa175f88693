import Blockwork.Block.Kind

set_option autoImplicit false

namespace Blockwork

inductive Precedence where
  | atom
  | scope
  | access
  | unary
  | multiplicative
  | additive
  | shift
  | relational
  | equality
  | conjunction
  | disjunction
  | assignment
  | comma
deriving DecidableEq, Repr, Inhabited

namespace Precedence

-- The level of C++: a lower one binds tighter. Atoms never need parentheses.
def level : Precedence → Nat
  | .atom => 0
  | .scope => 1
  | .access => 2
  | .unary => 3
  | .multiplicative => 5
  | .additive => 6
  | .shift => 7
  | .relational => 9
  | .equality => 10
  | .conjunction => 14
  | .disjunction => 15
  | .assignment => 16
  | .comma => 17

def all : List Precedence :=
  [.atom, .scope, .access, .unary, .multiplicative, .additive, .shift, .relational, .equality,
    .conjunction, .disjunction, .assignment, .comma]

def ofLevel? (level : Int) : Option Precedence := all.find? fun p => (p.level : Int) = level

def groupsRight : Precedence → Bool
  | .unary | .assignment => true
  | _ => false

-- An operand of the given level inside an operator of level `outer`: parentheses are left out if it binds
-- tighter, or as tightly on the side from which the operator groups.
def needsParentheses (inner outer : Precedence) (onRight : Bool) : Bool :=
  inner ≠ .atom && outer.level ≤ inner.level && !(inner = outer && onRight = outer.groupsRight)

end Precedence

structure OperatorSpelling where
  code : String
  symbol : String
  precedence : Precedence
deriving DecidableEq, Repr, Inhabited

def Kind.spelling : Kind → OperatorSpelling
  | .add => ⟨"+", "+", .additive⟩
  | .sub => ⟨"-", "-", .additive⟩
  | .mult => ⟨"*", "×", .multiplicative⟩
  | .div => ⟨"/", "÷", .multiplicative⟩
  | .mod => ⟨"%", "%", .multiplicative⟩
  | .and => ⟨"&&", "and", .conjunction⟩
  | .or => ⟨"||", "or", .disjunction⟩
  | .eq => ⟨"==", "=", .equality⟩
  | .lt => ⟨"<", "<", .relational⟩
  | .lte => ⟨"<=", "≤", .relational⟩
  | .gt => ⟨">", ">", .relational⟩
  | .gte => ⟨">=", "≥", .relational⟩
  | _ => ⟨"", "", .atom⟩

end Blockwork
