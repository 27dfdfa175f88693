import Blockwork.Block.Graph

set_option autoImplicit false

namespace Blockwork

inductive BlockFault where
  | strayInterrupt (name : String)
  | notExpression (kind : Kind)
  | notStatement (kind : Kind)
  | literalType (v : Number) (type : ValueType)
  | literalFraction (v : Number)
  | strangeLiteral (shown : String)
  | outOfScope (name : String)
  | undeclaredDevice (name : String)
  | missingLeft (operator : String)
  | missingRight (operator : String)
  | needsNumbers (operator : String)
  | needsIntegers (operator : String)
  | needsTruths (operator : String)
  | missingNegated
  | negatesNoTruth
  | missingVector
  | missingIndex
  | notArray
  | indexType
  | incomparable (left right : Option ValueType)
  | untyped (name : String)
  | missingTarget
  | missingValue
  | notAssignable (code : String)
  | valueType
  | missingPrinted
  | missingRead
  | notReadable (code : String)
  | missingCondition (kind : Kind)
  | conditionType (kind : Kind)
  | missingTrigger
deriving DecidableEq, Repr

namespace BlockFault

def kind : BlockFault → FailureKind
  | .strayInterrupt _ | .notExpression _ | .notStatement _ | .strangeLiteral _ => .unrecognizedNode
  | .outOfScope _ | .undeclaredDevice _ => .unresolvedVariable
  | .missingLeft _ | .missingRight _ | .missingNegated | .missingVector | .missingIndex
  | .missingTarget | .missingValue | .missingPrinted | .missingRead | .missingCondition _
  | .missingTrigger => .missingOperand
  | _ => .typeMismatch

def typeNamed (t : Option ValueType) : String := (typeText t).getD "nothing"

def message : BlockFault → String
  | .strayInterrupt name => s!"Interrupt '{name}' can only trigger a when block"
  | .notExpression kind => s!"Unrecognized block '{kind.name}' in expression position"
  | .notStatement kind => s!"Unrecognized block '{kind.name}' in statement position"
  | .literalType v type => s!"Literal {v.text} is not a {type.text}"
  | .literalFraction v => s!"Literal {v.text} is not integral"
  | .strangeLiteral shown => s!"Unrecognized literal {shown}"
  | .outOfScope name => s!"Variable {name} not declared in current scope!"
  | .undeclaredDevice name => s!"Device {name} not declared"
  | .missingLeft operator => s!"Operator '{operator}' missing left operand"
  | .missingRight operator => s!"Operator '{operator}' missing right operand"
  | .needsNumbers operator => s!"Operator '{operator}' requires numeric operands"
  | .needsIntegers operator => s!"Operator '{operator}' requires integral operands"
  | .needsTruths operator => s!"Operator '{operator}' requires boolean operands"
  | .missingNegated => "Operator 'not' missing operand"
  | .negatesNoTruth => "Operator 'not' requires a boolean operand"
  | .missingVector => "Missing vector to take element of"
  | .missingIndex => "Missing element index"
  | .notArray => "Taking index of non-array type"
  | .indexType => "Indexing into array must use an integral type"
  | .incomparable left right => s!"Cannot compare {typeNamed left} with {typeNamed right}"
  | .untyped name => s!"Variable {name} has no type"
  | .missingTarget => "Missing variable to set"
  | .missingValue => "Missing value to set"
  | .notAssignable code => s!"Cannot assign to '{code}'"
  | .valueType => "Mismatch of variable and value type"
  | .missingPrinted => "Missing value to print"
  | .missingRead => "Missing variable to read into"
  | .notReadable code => s!"Cannot read into '{code}'"
  | .missingCondition kind => s!"'{kind.name}' block without condition"
  | .conditionType kind => s!"Condition of '{kind.name}' block must be a predicate"
  | .missingTrigger => "When check without condition"

end BlockFault

inductive ProgramFault where
  | noStart
  | notHandler
  | inBlock (block : BlockId) (line column : Nat) (fault : BlockFault)
deriving DecidableEq, Repr

def ProgramFault.failure : ProgramFault → Failure
  | .noStart => { kind := .unanchoredChain, message := "Program has no start block" }
  | .notHandler => { kind := .unrecognizedNode, message := "Handler is not a when block" }
  | .inBlock block line column fault =>
    { kind := fault.kind, message := fault.message, block, line, column }

def Block.fault (b : Block) (fault : BlockFault) : ProgramFault := .inBlock b.id b.line b.column fault

end Blockwork
