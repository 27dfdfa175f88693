import Blockwork.Markup.Cursor

set_option autoImplicit false

namespace Blockwork.Markup

inductive Tag where
  | null
  | truth
  | integer
  | number
  | timestamp
  | text
  | merge
  | binary
  | other (name : String)
deriving DecidableEq, Repr, Inhabited

structure Scalar where
  tag : Tag
  text : String
  plain : Bool
deriving DecidableEq, Repr, Inhabited

mutual

-- A node and the place where it begins. An alias has the name of another node, and keeps the scalar if that
-- node is one.
inductive Node where
  | scalar (place : Place) (s : Scalar)
  | list (place : Place) (items : NodeList)
  | mapping (place : Place) (entries : EntryList)
  | alias (place : Place) (name : String) (target : Option Scalar)

inductive NodeList where
  | nil
  | cons (head : Node) (tail : NodeList)

inductive EntryList where
  | nil
  | cons (key value : Node) (tail : EntryList)

end

deriving instance DecidableEq for Node, NodeList, EntryList

instance : Inhabited Node := ⟨.scalar {} default⟩

namespace NodeList

def toList : NodeList → List Node
  | .nil => []
  | .cons head tail => head :: tail.toList

def ofList : List Node → NodeList
  | [] => .nil
  | n :: ns => .cons n (ofList ns)

end NodeList

namespace EntryList

def toList : EntryList → List (Node × Node)
  | .nil => []
  | .cons key value tail => (key, value) :: tail.toList

def ofList : List (Node × Node) → EntryList
  | [] => .nil
  | (key, value) :: rest => .cons key value (ofList rest)

end EntryList

namespace Node

def place : Node → Place
  | .scalar place _ => place
  | .list place _ => place
  | .mapping place _ => place
  | .alias place _ _ => place

def ownText : Node → String
  | .scalar _ s => s.text
  | .alias _ name _ => name
  | _ => ""

mutual

def depth : Node → Nat
  | .scalar _ _ => 1
  | .list _ items => depthOfAll items + 1
  | .mapping _ entries => depthOfEntries entries + 1
  | .alias _ _ _ => 1

def depthOfAll : NodeList → Nat
  | .nil => 0
  | .cons head tail => max head.depth (depthOfAll tail)

def depthOfEntries : EntryList → Nat
  | .nil => 0
  | .cons key value tail => max (max key.depth value.depth) (depthOfEntries tail)

end

def isNull : Node → Bool
  | .scalar _ s => s.tag = .null
  | _ => false

end Node

end Blockwork.Markup
