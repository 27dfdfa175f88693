import Blockwork.Proofs.KeyOrder

set_option autoImplicit false

namespace Blockwork

open Markup (Place Node NodeList EntryList Scalar)

namespace Markup

mutual

def Node.nodes : Node → List Node
  | .scalar place s => [.scalar place s]
  | .list place items => .list place items :: items.nodes
  | .mapping place entries => .mapping place entries :: entries.nodes
  | .alias place name target => [.alias place name target]

def NodeList.nodes : NodeList → List Node
  | .nil => []
  | .cons head tail => head.nodes ++ tail.nodes

def EntryList.nodes : EntryList → List Node
  | .nil => []
  | .cons key value tail => key.nodes ++ (value.nodes ++ tail.nodes)

end

theorem Node.mem_nodes (n : Node) : n ∈ n.nodes := by
  cases n <;> exact List.mem_cons_self

variable {places : Place → Prop}

mutual

theorem Node.rearranged_self (n : Node) (stand : ∀ m ∈ n.nodes, places m.place) : n.Rearranged places n := by
  have here := stand n n.mem_nodes
  cases n with
  | list place items =>
    exact .list place place items items here (items.rearranged_self fun m mem => stand m (.tail _ mem))
  | mapping place entries =>
    have same := entries.rearranged_self fun m mem => stand m (.tail _ mem)
    exact .mapping place place entries entries here _ (.refl _) (same.imp fun _ _ => And.left)
      (same.imp fun _ _ => And.right)
  | _ => exact by constructor; exact here

theorem NodeList.rearranged_self (items : NodeList) (stand : ∀ m ∈ items.nodes, places m.place) :
    List.Forall₂ (Node.Rearranged places) items.toList items.toList := by
  cases items with
  | nil => exact .nil
  | cons head tail =>
    obtain ⟨first, rest⟩ := List.forall_mem_append.mp stand
    exact .cons (head.rearranged_self first) (tail.rearranged_self rest)

theorem EntryList.rearranged_self (entries : EntryList) (stand : ∀ m ∈ entries.nodes, places m.place) :
    List.Forall₂ (fun p q => p.1.Rearranged places q.1 ∧ p.2.Rearranged places q.2) entries.toList entries.toList := by
  cases entries with
  | nil => exact .nil
  | cons key value tail =>
    obtain ⟨first, rest⟩ := List.forall_mem_append.mp stand
    obtain ⟨second, rest⟩ := List.forall_mem_append.mp rest
    exact .cons ⟨key.rearranged_self first, value.rearranged_self second⟩ (tail.rearranged_self rest)

end

end Markup

namespace Document

-- A document that describes no program is refused with one of three kinds of failure, at the place of one of its nodes.
-- A slot is never asked for that the block does not have.
theorem refused_at_a_node (root : Node) (fault : DocumentFault) (refused : ofNode root = .error fault) :
    (fault.failure.kind = .invalidDocument ∨ fault.failure.kind = .typeMismatch ∨
      fault.failure.kind = .unresolvedVariable) ∧
      (∃ n ∈ root.nodes, fault.failure.line = n.place.line + 1 ∧ fault.failure.column = n.place.column + 1) ∧
      (∀ place block kind slot, fault ≠ .slot place (.noSlot block kind slot)) ∧
        ∀ text, Markup.readDocument text = .ok (some root) → load text = .error fault := by
  have located : At (fun place => ∃ n ∈ root.nodes, n.place = place) fault := by
    have same : root.Rearranged (fun place => ∃ n ∈ root.nodes, n.place = place) root :=
      root.rearranged_self fun n member => ⟨n, member, rfl⟩
    rcases of_node_rearranged same with ⟨_, _, _, failed, located⟩ | ⟨g, _, made, _⟩
    · rw [failed] at refused
      cases refused
      exact located
    · rw [made] at refused
      cases refused
  have loaded : ∀ text, Markup.readDocument text = .ok (some root) → load text = .error fault := by
    intro text parsed
    unfold load
    rw [parsed]
    exact refused
  cases fault with
  | unreadable _ | empty => exact located.elim
  | node place fault | undeclared place name =>
    obtain ⟨n, member, rfl⟩ := located
    exact ⟨by simp [DocumentFault.failure, Failure.inDocument, Failure.positioned], ⟨n, member, rfl,
      rfl⟩, by simp, loaded⟩
  | type place fault =>
    obtain ⟨n, member, rfl⟩ := located
    exact ⟨.inl (by cases fault <;> rfl), ⟨n, member, rfl, rfl⟩, by simp, loaded⟩
  | slot place fault =>
    cases fault with
    | noSlot block kind slot => exact located.elim
    | wrongFamily child kind slot accepts got =>
      obtain ⟨n, member, rfl⟩ := located
      exact ⟨.inr (.inl rfl), ⟨n, member, rfl, rfl⟩, by simp, loaded⟩

def undeclaredPrint : Node :=
  .mapping ⟨0, 0⟩ (.cons (.scalar ⟨0, 0⟩ ⟨.text, "main", true⟩) (.list ⟨1, 0⟩ (.cons (.mapping ⟨1, 2⟩
    (.cons (.scalar ⟨1, 2⟩ ⟨.text, "print", true⟩) (.mapping ⟨1, 9⟩
      (.cons (.scalar ⟨1, 10⟩ ⟨.text, "ref", true⟩) (.scalar ⟨1, 15⟩ ⟨.text, "x", true⟩) .nil)) .nil)) .nil)) .nil)

theorem undeclared_print_refused : ofNode undeclaredPrint = .error (.undeclared ⟨1, 15⟩ "x") ∧
    ∃ n ∈ undeclaredPrint.nodes, (DocumentFault.undeclared ⟨1, 15⟩ "x").failure.column = n.place.column + 1 := by
  have refused : ofNode undeclaredPrint = .error (.undeclared ⟨1, 15⟩ "x") := by rfl
  obtain ⟨_, ⟨n, member, _, column⟩, _⟩ := refused_at_a_node undeclaredPrint (.undeclared ⟨1, 15⟩ "x") refused
  exact ⟨refused, n, member, column⟩

end Document

end Blockwork
