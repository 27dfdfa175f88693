import Blockwork.Block.Graph
import Blockwork.Markup.Node
import Blockwork.Markup.Token
import Blockwork.ValueType.Spec

set_option autoImplicit false

namespace Blockwork

open Markup (Place MarkupFault)

inductive NodeFault where
  | rootNotMapping
  | unknownTopKey (key : String)
  | keyNotScalar
  | duplicateKey (key : String)
  | devicesNotList
  | deviceNotMapping
  | deviceUnnamed
  | deviceTwice (name : String)
  | missingType
  | handlersNotList
  | notHandler
  | notStatements
  | statementNotMapping
  | noKeyword
  | unknownKey (key keyword : String)
  | strayHandler
  | variableUnnamed
  | checkedNotTruth
  | indexUnnamed
  | strayBound (key : String) (iteration : Iteration)
  | timesNotCount
  | notOperand
  | literalKeys
  | notOneKey
  | deviceRefUnnamed
  | interruptUnnamed
  | notTwoOperands (key : String)
  | unknownExpression (key : String)
  | notElement
  | badIndex
  | literalNotScalar
  | notTruth (text : String)
  | notCharacter (text : String)
  | notInteger (text : String)
  | notNumber (text : String)
  | literalType (type : ValueType)
  | unsupportedLiteral (text : String)
  | referenceUnnamed
  | tooDeep
deriving DecidableEq, Repr

def NodeFault.message : NodeFault → String
  | .rootNotMapping => "document must be a mapping"
  | .unknownTopKey key => s!"unknown top-level key '{key}'"
  | .keyNotScalar => "mapping keys must be scalars"
  | .duplicateKey key => s!"duplicate key '{key}'"
  | .devicesNotList => "devices must be a list"
  | .deviceNotMapping => "device must be a mapping with name and type"
  | .deviceUnnamed => "device needs a name"
  | .deviceTwice name => s!"device '{name}' declared twice"
  | .missingType => "missing type"
  | .handlersNotList => "handlers must be a list"
  | .notHandler => "handler must be a when statement"
  | .notStatements => "expected a list of statements"
  | .statementNotMapping => "statement must be a mapping"
  | .noKeyword => "statement has no keyword"
  | .unknownKey key keyword => s!"unknown key '{key}' in '{keyword}' statement"
  | .strayHandler => "when blocks must be listed under handlers"
  | .variableUnnamed => "variable needs a name"
  | .checkedNotTruth => "checked must be true or false"
  | .indexUnnamed => "for loop needs an index name"
  | .strayBound key iteration => s!"'{key}' does not apply to a {iteration.name} for loop"
  | .timesNotCount => "times must be a non-negative integer"
  | .notOperand => "expected a value or predicate"
  | .literalKeys => "typed literal needs exactly lit and type"
  | .notOneKey => "expression must have exactly one key"
  | .deviceRefUnnamed => "device reference needs a name"
  | .interruptUnnamed => "interrupt needs a name"
  | .notTwoOperands key => s!"'{key}' takes a list of two operands"
  | .unknownExpression key => s!"unknown expression '{key}'"
  | .notElement => "'elem' takes a vector and an index"
  | .badIndex => "element index must be a non-negative integer"
  | .literalNotScalar => "literal must be a scalar"
  | .notTruth text => s!"'{text}' is not a boolean"
  | .notCharacter text => s!"byte literal '{text}' must be a single character"
  | .notInteger text => s!"'{text}' is not an integer"
  | .notNumber text => s!"'{text}' is not a number"
  | .literalType type => s!"literals of type {type.text} are not supported"
  | .unsupportedLiteral text => s!"unsupported literal '{text}'"
  | .referenceUnnamed => "reference needs a name"
  | .tooDeep => "document is nested too deeply"

def NodeFault.hint : NodeFault → String
  | .unknownTopKey _ => "a document holds only devices, main and handlers"
  | _ => ""

inductive DocumentFault where
  | unreadable (fault : MarkupFault)
  | empty
  | node (place : Place) (fault : NodeFault)
  | type (place : Place) (fault : TypeFault)
  | slot (place : Place) (fault : SlotFault)
  | undeclared (place : Place) (name : String)
deriving DecidableEq, Repr

def Failure.inDocument (f : Failure) (place : Place) : Failure :=
  f.positioned (place.line + 1) (place.column + 1)

def DocumentFault.failure : DocumentFault → Failure
  | .unreadable _ => { kind := .invalidDocument, message := "invalid document: yaml" }
  | .empty => { kind := .invalidDocument, message := "empty document" }
  | .node place fault =>
    ({ kind := .invalidDocument, message := fault.message, hint := fault.hint } : Failure).inDocument place
  | .type place fault => fault.failure.inDocument place
  | .slot place fault => fault.failure.inDocument place
  | .undeclared place name =>
    ({ kind := .unresolvedVariable, message := s!"Variable {name} is never declared",
       hint := s!"add '- var: {name}' with its type before the first use" } : Failure).inDocument place

end Blockwork
