import Blockwork.ValueType.Spec

set_option autoImplicit false

namespace Blockwork

inductive TypeRef where
  | primitive (p : Primitive)
  | cell (index : Nat)
deriving DecidableEq, Repr, Inhabited

structure ArrayCell where
  element : TypeRef
  size : Int
deriving DecidableEq, Repr, Inhabited

-- What an array is filed under: the type below its dimensions, how many there are, and their sizes unless it
-- was asked for without any.
structure ArrayKey where
  scalar : TypeRef
  dims : Nat
  shape : Option (List Int)
deriving DecidableEq, Repr

inductive TableFault where
  | dimensionsNotPositive (dims : Int)
  | noDimensions
  | dimensionNotPositive (dim : Int)
  | dimensionTooLarge
deriving DecidableEq, Repr

namespace TableFault

def misuse? : TableFault → Option String
  | .dimensionsNotPositive dims => some s!"types: array dimensionality {dims} is not positive"
  | .noDimensions => some "types: sized array needs at least one dimension"
  | _ => none

def message : TableFault → String
  | .dimensionNotPositive dim => s!"Requested dimension {dim} is not positive"
  | .dimensionTooLarge => "Requested dimension more than dimensionality of array"
  | fault => fault.misuse?.getD ""

def failure (fault : TableFault) : Failure := { kind := .dimensionOutOfRange, message := fault.message }

end TableFault

structure TypeTable where
  cells : Array ArrayCell := #[]
  entries : List (ArrayKey × Nat) := []
deriving Repr

namespace TypeTable

def find? (table : TypeTable) (key : ArrayKey) : Option Nat :=
  (table.entries.find? (·.1 = key)).map (·.2)

def file (table : TypeTable) (key : ArrayKey) (index : Nat) : TypeTable :=
  { table with entries := table.entries ++ [(key, index)] }

def remove (table : TypeTable) (key : ArrayKey) : TypeTable :=
  { table with entries := table.entries.filter (·.1 ≠ key) }

def intern (table : TypeTable) (key : ArrayKey) (element : TypeRef) (size : Int) : Nat × TypeTable :=
  match table.find? key with
  | some index => (index, table)
  | none =>
    let index := table.cells.size
    (index, { cells := table.cells.push ⟨element, size⟩, entries := table.entries ++ [(key, index)] })

-- The chain of cells from a type down to its scalar. An element lies in an earlier cell, so the number of
-- cells bounds the chain.
def chainFrom (table : TypeTable) : Nat → TypeRef → List Nat
  | 0, _ => []
  | _, .primitive _ => []
  | fuel + 1, .cell index =>
    index :: (match table.cells[index]? with
      | some cell => table.chainFrom fuel cell.element
      | none => [])

def chain (table : TypeTable) (t : TypeRef) : List Nat := table.chainFrom table.cells.size t

def rootFrom (table : TypeTable) : Nat → TypeRef → Primitive
  | _, .primitive p => p
  | 0, .cell _ => default
  | fuel + 1, .cell index =>
    match table.cells[index]? with
    | some cell => table.rootFrom fuel cell.element
    | none => default

def root (table : TypeTable) (t : TypeRef) : Primitive := table.rootFrom table.cells.size t

def sizes (table : TypeTable) (t : TypeRef) : List Int :=
  (table.chain t).filterMap fun index => table.cells[index]?.map (·.size)

def view (table : TypeTable) (t : TypeRef) : ValueType :=
  ValueType.sized (.primitive (table.root t)) (table.sizes t)

def element? (table : TypeTable) : TypeRef → Option TypeRef
  | .primitive _ => none
  | .cell index => table.cells[index]?.map (·.element)

def arrayOf (table : TypeTable) (scalar : TypeRef) : Nat → TypeRef × TypeTable
  | 0 => (scalar, table)
  | dims + 1 =>
    match table.find? ⟨scalar, dims + 1, none⟩ with
    | some index => (.cell index, table)
    | none =>
      let (element, table) := table.arrayOf scalar dims
      let (index, table) := table.intern ⟨scalar, dims + 1, none⟩ element 1
      (.cell index, table)

-- The array of so many dimensions over a type, each of one element when it is new.
def array (table : TypeTable) (scalar : TypeRef) (dims : Int) : Except TableFault (TypeRef × TypeTable) :=
  if dims < 1 then .error (.dimensionsNotPositive dims) else .ok (table.arrayOf scalar dims.toNat)

def sizedOf (table : TypeTable) (scalar : TypeRef) : List Int → TypeRef × TypeTable
  | [] => (scalar, table)
  | size :: rest =>
    let (element, table) := table.sizedOf scalar rest
    let (index, table) := table.intern ⟨scalar, rest.length + 1, some (size :: rest)⟩ element size
    (.cell index, table)

def sized (table : TypeTable) (scalar : TypeRef) (sizes : List Int) :
    Except TableFault (TypeRef × TypeTable) :=
  if sizes.isEmpty then .error .noDimensions else .ok (table.sizedOf scalar sizes)

def parse (table : TypeTable) (text : String) : Except TypeFault (TypeRef × TypeTable) :=
  (TypeSpec.parse text).map fun spec => table.sizedOf (.primitive spec.scalar) spec.sizes

def dimension (table : TypeTable) (t : TypeRef) (dim : Int) : Except TableFault Nat :=
  if dim < 1 then .error (.dimensionNotPositive dim)
  else
    match (table.chain t)[dim.toNat - 1]? with
    | some index => .ok index
    | none => .error .dimensionTooLarge

def getDimension (table : TypeTable) (t : TypeRef) (dim : Int) : Except TableFault Int :=
  (table.dimension t dim).map fun index => (table.cells[index]?.map (·.size)).getD 0

-- Files one entry again if it holds the changed cell and its shape is no longer that of its key. A key that is
-- already taken keeps its array.
def refile (changed : Nat) (table : TypeTable) (entry : ArrayKey × Nat) : TypeTable :=
  let (key, index) := entry
  let shape := table.sizes (.cell index)
  if key.shape = none ∨ key.shape = some shape ∨ ¬ (table.chain (.cell index)).contains changed then table
  else
    let table := table.remove key
    let key := { key with shape := some shape }
    if (table.find? key).isSome then table else table.file key index

def setDimension (table : TypeTable) (t : TypeRef) (dim size : Int) : Except TableFault TypeTable :=
  (table.dimension t dim).map fun index =>
    let table := { table with cells := table.cells.modify index fun cell => { cell with size } }
    table.entries.foldl (refile index) table

def promote? (a b : TypeRef) : Option TypeRef :=
  if a = b then some a
  else
    match a, b with
    | .primitive p, .primitive q =>
      if p.isNumeric && q.isNumeric then some (if q.rank ≤ p.rank then a else b) else none
    | _, _ => none

end TypeTable

end Blockwork
