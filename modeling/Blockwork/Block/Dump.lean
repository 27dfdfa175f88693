import Blockwork.Block.Graph

set_option autoImplicit false

namespace Blockwork.Graph

def dumpDetail (b : Block) : String :=
  match b.kind with
  | .when => if b.times = unbounded then "" else s!" times={b.times}"
  | .forLoop => s!" {b.name}:{typeShown b.type} {b.iteration.name}"
  | .element => b.litIndex.elim "" fun i => s!" [{i}]"
  | _ => ""

def indentation (depth : Nat) : String := String.join (List.replicate depth "  ")

mutual

def dumpBlock (g : Graph) : Nat → Nat → String → BlockId → List String
  | 0, _, _, _ => []
  | fuel + 1, depth, label, id =>
    match g.block? id with
    | none => []
    | some b =>
      let label := if label.isEmpty then "" else label ++ ": "
      let head := indentation depth ++ label ++ b.show ++ dumpDetail b
      let slots := b.filledSlots.flatMap fun (s, child) => g.dumpBlock fuel (depth + 1) s.name child
      let body :=
        if b.body = 0 then [] else (indentation (depth + 1) ++ "do:") :: g.dumpChain fuel (depth + 2) b.body
      let otherwise :=
        if b.otherwise = 0 then []
        else (indentation (depth + 1) ++ "else:") :: g.dumpChain fuel (depth + 2) b.otherwise
      let started := if b.kind = .start then g.dumpChain fuel (depth + 1) b.next else []
      head :: (slots ++ body ++ otherwise ++ started)

def dumpChain (g : Graph) : Nat → Nat → BlockId → List String
  | 0, _, _ => []
  | fuel + 1, depth, id =>
    match g.block? id with
    | none => []
    | some b =>
      g.dumpBlock fuel depth "" id ++ (if b.kind = .start then [] else g.dumpChain fuel depth b.next)

end

-- Two steps are taken for every block on a path.
def dumpFuel (g : Graph) : Nat := 2 * g.size + 2

def lines (ls : List String) : String := String.join (ls.map (· ++ "\n"))

def dumpOne (g : Graph) (id : BlockId) : String := lines (g.dumpBlock g.dumpFuel 0 "" id)

def dump (g : Graph) : String :=
  lines ("Graph" :: g.devices.map (fun d => s!"  Device: {d.name}:{typeShown d.type}") ++
    g.roots.flatMap (g.dumpChain g.dumpFuel 1))

end Blockwork.Graph
