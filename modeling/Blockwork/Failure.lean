set_option autoImplicit false

namespace Blockwork

inductive FailureKind where
  | none
  | missingOperand
  | typeMismatch
  | unresolvedVariable
  | unrecognizedNode
  | unrecognizedExpression
  | unsupportedGroundOp
  | infiniteSet
  | unreachableEdge
  | unanchoredChain
  | didNotConverge
  | dimensionOutOfRange
  | invalidDocument
  | unknown
deriving DecidableEq, Repr, Inhabited

namespace FailureKind

def name : FailureKind → String
  | .none => "none"
  | .missingOperand => "MissingOperand"
  | .typeMismatch => "TypeMismatch"
  | .unresolvedVariable => "UnresolvedVariable"
  | .unrecognizedNode => "UnrecognizedNode"
  | .unrecognizedExpression => "UnrecognizedExpression"
  | .unsupportedGroundOp => "UnsupportedGroundOp"
  | .infiniteSet => "InfiniteSet"
  | .unreachableEdge => "UnreachableEdge"
  | .unanchoredChain => "UnanchoredChain"
  | .didNotConverge => "DidNotConverge"
  | .dimensionOutOfRange => "DimensionOutOfRange"
  | .invalidDocument => "InvalidDocument"
  | .unknown => "unknown"

def coded : List FailureKind :=
  [.none, .missingOperand, .typeMismatch, .unresolvedVariable, .unrecognizedNode,
    .unrecognizedExpression, .unsupportedGroundOp, .infiniteSet, .unreachableEdge, .unanchoredChain,
    .didNotConverge, .dimensionOutOfRange, .invalidDocument]

def ofCode (code : Int) : FailureKind :=
  if code < 0 then .unknown else coded[code.toNat]?.getD .unknown

end FailureKind

-- A classified failure. Block 0 and line 0 mean that it is not attributed.
structure Failure where
  kind : FailureKind
  message : String
  block : Nat := 0
  line : Int := 0
  column : Int := 0
  hint : String := ""
deriving DecidableEq, Repr, Inhabited

namespace Failure

def onBlock (f : Failure) (block : Nat) : Failure :=
  if f.block = 0 then { f with block } else f

def positioned (f : Failure) (line column : Int) : Failure := { f with line, column }

def suggest (f : Failure) (hint : String) : Failure := { f with hint }

end Failure

end Blockwork
