import Blockwork.Proofs.Forest
import Blockwork.Proofs.GuardedOperations

set_option autoImplicit false

namespace Blockwork

open List

namespace Graph

variable {b : Block} {t : Term} (g : Graph)

structure Planned (g : Graph) (b : Block) : Prop where
  slots : ∀ slot, (g.slotTerm b slot).In g
  apart : ∀ slot slot', slot ≠ slot' → List.Disjoint (g.slotTerm b slot).blocks (g.slotTerm b slot').blocks

end Graph

namespace Plan

variable (g : Graph) (top : Bool) (b : Block) (operands : List (Slot × Term)) (body otherwise rest : Plan)
  (node : StatementIn g top b operands body otherwise rest)

include node

theorem statement_planned : g.Planned b := by
  refine ⟨fun slot => ?_, fun slot slot' different => ?_⟩
  · rw [node.slots]
    rcases among_mem operands slot with mem | missing
    · exact node.terms _ mem
    · rw [missing]
      exact Term.in_missing g
  · rw [node.slots, node.slots]
    rcases among_mem operands slot with mem | missing
    · rcases among_mem operands slot' with mem' | missing'
      · have disjoint := (nodup_flatMap.mp node.apart).2
        have : Std.Symm (Function.onFun List.Disjoint fun p : Slot × Term => p.2.blocks) :=
          ⟨fun _ _ apart => apart.symm⟩
        exact disjoint.forall mem mem' fun same => different (congrArg Prod.fst same)
      · rw [missing']
        exact disjoint_nil_right _
    · rw [missing]
      exact disjoint_nil_left _

end Plan

theorem Chain.compiled_cons (b : Block) (body otherwise rest : Chain) :
    ∃ nested, (Chain.cons b body otherwise rest).compiled = b :: (nested ++ rest.compiled) ∧
      nested.Sublist (body.compiled ++ otherwise.compiled) := by
  rw [compiled]
  split
  · exact ⟨_, rfl, sublist_append_left _ _⟩
  · exact ⟨_, rfl, sublist_append_left _ _⟩
  · exact ⟨_, rfl, sublist_append_left _ _⟩
  · exact ⟨_, rfl, List.Sublist.refl _⟩
  · exact ⟨[], rfl, nil_sublist _⟩

namespace Plan

variable {g : Graph} {h : Head}

theorem chain_planned (top : Bool) (p : Plan) (inside : p.In g top) : ∀ b ∈ p.chain.compiled, g.Planned b := by
  induction p generalizing top with
  | nil => simp [chain, Chain.compiled]
  | cons b operands body otherwise rest hyp hyp' hyp'' =>
    have node := in_cons top b operands body otherwise rest inside
    obtain ⟨nested, shape, below⟩ := Chain.compiled_cons b body.chain otherwise.chain rest.chain
    intro x mem
    rw [chain, shape] at mem
    rcases mem_cons.mp mem with rfl | mem
    · exact statement_planned g top x operands body otherwise rest node
    · rcases mem_append.mp mem with inner | later
      · exact (mem_append.mp (below.subset inner)).elim (hyp _ node.inBody x) (hyp' _ node.inOtherwise x)
      · exact hyp'' _ node.inRest x later

theorem handler_planned (inside : h.single.In g true) : ∀ b ∈ h.block :: h.body.chain.compiled, g.Planned b := by
  have node := in_cons true h.block h.operands h.body h.otherwise .nil inside
  intro b mem
  rcases mem_cons.mp mem with rfl | mem
  · exact statement_planned g true _ _ _ _ _ node
  · exact chain_planned false h.body node.inBody b mem

end Plan

def Block.Typed (b : Block) : Prop := b.kind = .variableDecl → b.type.isSome = true

namespace Blueprint

variable (bp : Blueprint)

theorem statements_planned (reads : bp.Reads) : ∀ b ∈ bp.statements, bp.graph.Planned b := by
  intro b mem
  rcases mem_append.mp mem with main | handled
  · split at main
    · cases main
    · next p start found => exact p.chain_planned _ (bp.main_in reads found).2.2 b main
  · obtain ⟨h, listed, mem⟩ := mem_flatMap.mp handled
    exact Plan.handler_planned (bp.handler_in reads h listed) b mem

theorem blocks_typed (reads : bp.Reads) : ∀ b ∈ bp.blocks, b.Typed := by
  refine bp.parts reads _ (fun p start found kind => ?_) fun top names p k parent planned inside _ => ?_
  · rw [show start.kind = .start from congrArg Content.kind (reads.main p start found).2.2] at kind
    cases kind
  · refine p.reads_all (fun names t k reads _ b mem kind => ?_)
      (fun top names b operands body otherwise rest k parent reads _ kind => ?_) top names _ _ planned inside
    · exact absurd (congrArg Kind.category kind) (t.reads_values reads b mem).1
    · have statement := reads.2.1
      generalize own : b.content = content at statement
      rw [show b.kind = content.kind from congrArg Content.kind own] at kind
      rw [show b.type = content.type from congrArg Content.type own]
      cases statement with
      | declaration => rfl
      | _ => cases kind

theorem graph_typed (reads : bp.Reads) (id : Nat) (d : Block) (found : bp.graph.block? id = some d) : d.Typed :=
  bp.blocks_typed reads d (bp.mem_graph ▸ bp.graph.mem_block found)

end Blueprint

end Blockwork
