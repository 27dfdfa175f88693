import Blockwork.Document.Load
import Blockwork.Proofs.Links

set_option autoImplicit false

namespace Blockwork

open Markup (Node)

namespace Graph

def append (g : Graph) (bs : List Block) : Graph := { g with blocks := g.blocks ++ bs.toArray }

variable (g : Graph)

@[simp] theorem size_append (bs : List Block) : (g.append bs).size = g.size + bs.length := by
  simp [append, size]

@[simp] theorem append_nil : g.append [] = g := by simp [append]

variable (as bs : List Block)

@[simp] theorem append_append : (g.append as).append bs = g.append (as ++ bs) := by
  simp [append, Array.append_assoc]

theorem block_append_left (bs : List Block) {id : Nat} (inside : id ≤ g.size) :
    (g.append bs).block? id = g.block? id := by
  unfold block?
  by_cases zero : id = 0
  · rw [if_pos zero, if_pos zero]
  · have within : id - 1 < g.blocks.size := by
      unfold size at inside
      omega
    rw [if_neg zero, if_neg zero, append, Array.getElem?_append_left within]

variable (b : Block)

theorem block_append (id : Nat) (here : id = g.size + as.length + 1) :
    (g.append (as ++ b :: bs)).block? id = some b := by
  subst here
  unfold block? append size
  simp only [Nat.add_one_ne_zero, if_false, Nat.add_sub_cancel]
  rw [Array.getElem?_append_right (by omega)]
  simp

theorem modify_append (id : Nat) (f : Block → Block)
    (here : id = g.size + as.length + 1) : (g.append (as ++ b :: bs)).modify id f = g.append (as ++ f b :: bs) := by
  subst here
  unfold modify append
  have positive : g.size + as.length + 1 ≠ 0 := by omega
  simp only [positive, if_false, Nat.add_sub_cancel, Graph.mk.injEq, and_true]
  apply Array.ext_getElem?
  intro i
  simp only [Array.getElem?_modify, Array.getElem?_append, size, List.getElem?_toArray, List.getElem?_append]
  by_cases before : i < g.blocks.size
  · have other : ¬ g.blocks.size + as.length = i := by omega
    simp [before, other]
  · by_cases among : i - g.blocks.size < as.length
    · have other : ¬ g.blocks.size + as.length = i := by omega
      simp [before, among, other]
    · by_cases here : g.blocks.size + as.length = i
      · subst here
        simp
      · obtain ⟨j, rfl⟩ : ∃ j, i = g.blocks.size + as.length + 1 + j := ⟨i - (g.blocks.size + as.length + 1), by omega⟩
        have shift : g.blocks.size + as.length + 1 + j - g.blocks.size - as.length = j + 1 := by omega
        simp [before, among, here, shift]

theorem block_head (bs : List Block) : (g.append (b :: bs)).block? (g.size + 1) = some b :=
  g.block_append [] bs b _ rfl

theorem modify_head (bs : List Block) (f : Block → Block) :
    (g.append (b :: bs)).modify (g.size + 1) f = g.append (f b :: bs) :=
  g.modify_append [] bs b _ f rfl

theorem add_eq (kind : Kind) (f : Block → Block) :
    g.add kind f = (g.size + 1, g.append [f { id := g.size + 1, kind }]) := by
  simp [add, append]

end Graph

namespace Document

variable {α β : Type}

theorem run_bind_ok {x : Loading α} {f : α → Loading β} {s s'' : LoadState} {b : β} :
    (x >>= f).run s = .ok (b, s'') ↔ ∃ a s', x.run s = .ok (a, s') ∧ (f a).run s' = .ok (b, s'') := by
  rw [StateT.run_bind]
  cases x.run s with
  | error fault => simp [bind, Except.bind]
  | ok p =>
    constructor
    · exact fun rest => ⟨p.1, p.2, rfl, rest⟩
    · rintro ⟨a, s', now, rest⟩
      cases now
      exact rest

theorem run_add (kind : Kind) (n : Node) (f : Block → Block) (s : LoadState) :
    (add kind n f).run s = .ok (s.graph.size + 1,
      { s with graph := (s.graph.add kind fun b =>
        { f b with line := n.place.line + 1, column := n.place.column + 1 }).2 }) := rfl

theorem run_in_body {x : Loading α} {s s' : LoadState} {a : α} (run : (inBody x).run s = .ok (a, s')) :
    ∃ s₁, x.run { s with frames := [] :: s.frames } = .ok (a, s₁) ∧ s' = { s₁ with frames := s₁.frames.drop 1 } := by
  obtain ⟨_, s₀, opened, rest⟩ := run_bind_ok.mp run
  cases opened
  obtain ⟨b, s₁, inside, rest⟩ := run_bind_ok.mp rest
  obtain ⟨_, s₂, closed, rest⟩ := run_bind_ok.mp rest
  cases closed
  cases rest
  exact ⟨s₁, inside, rfl⟩

end Document

end Blockwork
