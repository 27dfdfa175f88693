import Blockwork.Failure
import Blockwork.Text.Blank
import Blockwork.Text.Numeral
import Blockwork.Text.Quoted
import Blockwork.ValueType.Basic

set_option autoImplicit false

namespace Blockwork

inductive TypeFault where
  | unknownName (spec : String)
  | malformedArray (spec : String)
  | badDimension (spec : String)
deriving DecidableEq, Repr

def TypeFault.failure : TypeFault → Failure
  | .unknownName spec => { kind := .invalidDocument, message := s!"unknown type {Text.quoted spec}" }
  | .malformedArray spec =>
    { kind := .invalidDocument, message := s!"malformed array type {Text.quoted spec}" }
  | .badDimension spec =>
    { kind := .invalidDocument,
      message := s!"array dimension in {Text.quoted spec} must be a positive integer" }

structure TypeSpec where
  scalar : Primitive
  sizes : List Int
deriving DecidableEq, Repr

namespace TypeSpec

-- The bracketed sizes. Every pair of brackets is removed before the rest is read, so the length bounds the
-- recursion.
def readSizes (spec : String) : Nat → List Char → Except TypeFault (List Int)
  | _, [] => .ok []
  | 0, _ => .error (.malformedArray spec)
  | fuel + 1, c :: rest =>
    if c ≠ '[' ∨ ¬ rest.contains ']' then .error (.malformedArray spec)
    else
      match Text.integer? (rest.takeWhile (· ≠ ']')) with
      | some n =>
        if n < 1 then .error (.badDimension spec)
        else (readSizes spec fuel ((rest.dropWhile (· ≠ ']')).drop 1)).map (n :: ·)
      | none => .error (.badDimension spec)

def parse (text : String) : Except TypeFault TypeSpec :=
  let chars := Text.trimList text.toList
  let spec := String.ofList chars
  match Primitive.named? (String.ofList (chars.takeWhile (· ≠ '['))) with
  | none => .error (.unknownName spec)
  | some scalar =>
    let rest := chars.dropWhile (· ≠ '[')
    (readSizes spec rest.length rest).map fun sizes => ⟨scalar, sizes⟩

end TypeSpec

def ValueType.parse (text : String) : Except TypeFault ValueType :=
  (TypeSpec.parse text).map fun spec => ValueType.sized (.primitive spec.scalar) spec.sizes

end Blockwork
