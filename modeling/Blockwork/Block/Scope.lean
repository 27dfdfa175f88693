import Blockwork.Block.Dump

set_option autoImplicit false

namespace Blockwork

structure Scope where
  parent : Option Nat
  declared : List BlockId := []
deriving DecidableEq, Repr, Inhabited

abbrev Scopes := Array Scope

namespace Scopes

def openScope (scopes : Scopes) (parent : Option Nat) : Nat × Scopes :=
  (scopes.size, scopes.push { parent })

def insertId (id : BlockId) : List BlockId → List BlockId
  | [] => [id]
  | x :: rest => if id < x then id :: x :: rest else if id = x then x :: rest else x :: insertId id rest

def declare (scopes : Scopes) (scope : Nat) (decl : BlockId) : Scopes :=
  scopes.modify scope fun s => { s with declared := insertId decl s.declared }

def parentOf (scopes : Scopes) (scope : Nat) : Option Nat := scopes[scope]?.bind (·.parent)

def declaredIn (scopes : Scopes) (scope : Nat) : List BlockId := (scopes[scope]?.map (·.declared)).getD []

def enclosingFrom (scopes : Scopes) : Nat → Nat → List Nat
  | 0, scope => [scope]
  | fuel + 1, scope => scope :: (scopes.parentOf scope).elim [] (scopes.enclosingFrom fuel)

-- Parents have lower numbers, so there are no more steps than the number of the scope.
def enclosing (scopes : Scopes) (scope : Nat) : List Nat := scopes.enclosingFrom scope scope

def depth (scopes : Scopes) (scope : Nat) : Nat := (scopes.enclosing scope).length - 1

def lookup (scopes : Scopes) (scope : Nat) (decl : BlockId) : Option Nat :=
  (scopes.enclosing scope).find? fun s => (scopes.declaredIn s).contains decl

def children (scopes : Scopes) (scope : Nat) : List Nat :=
  (List.range scopes.size).filter fun s => scopes.parentOf s = some scope

def describeOne (scopes : Scopes) (g : Graph) (scope : Nat) : List String :=
  let pad := Graph.indentation (scopes.depth scope)
  let label := if (scopes.parentOf scope).isNone then "program" else "body"
  let declared := scopes.declaredIn scope
  s!"{pad}{label}: {declared.length} declared" ::
    declared.map fun id =>
      let type := typeShown ((g.block? id).bind (·.type))
      let name := ((g.block? id).map (·.name)).getD ""
      s!"{pad}  #{id} {type} {name}"

def describeFrom (scopes : Scopes) (g : Graph) : Nat → Nat → List String
  | 0, _ => []
  | fuel + 1, scope =>
    scopes.describeOne g scope ++ (scopes.children scope).flatMap (scopes.describeFrom g fuel)

def describe (scopes : Scopes) (g : Graph) (scope : Nat) : String :=
  Graph.lines (scopes.describeFrom g scopes.size scope)

end Scopes

end Blockwork
