import Blockwork.Document.Format
import Blockwork.Proofs.Loading

set_option autoImplicit false

namespace Blockwork

namespace Markup

mutual

def Node.unplaced : Node → Node
  | .scalar _ s => .scalar {} s
  | .list _ items => .list {} items.unplaced
  | .mapping _ entries => .mapping {} entries.unplaced
  | .alias _ name target => .alias {} name target

def NodeList.unplaced : NodeList → NodeList
  | .nil => .nil
  | .cons head tail => .cons head.unplaced tail.unplaced

def EntryList.unplaced : EntryList → EntryList
  | .nil => .nil
  | .cons key value tail => .cons key.unplaced value.unplaced tail.unplaced

end

end Markup

open Markup (Node NodeList EntryList Scalar)

def Block.unplaced (b : Block) : Block := { b with line := 1, column := 1 }

namespace Graph

def unplaced (g : Graph) : Graph := { g with blocks := g.blocks.map Block.unplaced }

variable (g : Graph)

@[simp] theorem size_unplaced : g.unplaced.size = g.size := by simp [unplaced, size]

variable (id : BlockId)

@[simp] theorem block_unplaced : g.unplaced.block? id = (g.block? id).map Block.unplaced := by
  unfold block? unplaced
  split_ifs
  · rfl
  · exact Array.getElem?_map ..

theorem modify_unplaced (f : Block → Block) (free : ∀ b, (f b).unplaced = f b.unplaced) :
    (g.modify id f).unplaced = g.unplaced.modify id f := by
  unfold modify
  split_ifs
  · rfl
  · unfold unplaced
    dsimp only
    congr 1
    apply Array.ext_getElem?
    intro i
    simp only [Array.getElem?_map, Array.getElem?_modify]
    split_ifs
    · cases g.blocks[i]? with
      | none => rfl
      | some b => exact congrArg some (free b)
    · rfl

theorem add_unplaced (kind : Kind) (f : Block → Block) :
    (g.add kind f).2.unplaced = (g.unplaced.add kind fun b => (f b).unplaced).2 := by
  simp [add, unplaced, size]

theorem set_slot_unplaced (slot : Slot) (child : BlockId) :
    g.unplaced.setSlot id slot child = (g.setSlot id slot child).map unplaced := by
  unfold setSlot
  rw [block_unplaced]
  cases g.block? id with
  | none => rfl
  | some b =>
    simp only [Option.map_some]
    have kind : b.unplaced.kind = b.kind := rfl
    rw [kind]
    cases b.kind.accepts? slot with
    | none => rfl
    | some accepts =>
      simp only [block_unplaced]
      cases g.block? child with
      | none =>
        refine congrArg Except.ok (Eq.symm ?_)
        exact g.modify_unplaced id (fun b => { b with slots := b.slots.filter (·.1 ≠ slot) }) fun _ => rfl
      | some c =>
        simp only [Option.map_some]
        have family : c.unplaced.kind = c.kind := rfl
        rw [family]
        split_ifs
        · rfl
        · refine congrArg Except.ok (Eq.symm ?_)
          exact g.modify_unplaced id (fun b => { b with slots := b.slots.filter (·.1 ≠ slot) ++ [(slot, child)] })
            fun _ => rfl

theorem link_unplaced (previous next : BlockId) : (g.link previous next).unplaced = g.unplaced.link previous next := by
  unfold link
  rw [modify_unplaced, modify_unplaced] <;> exact fun _ => rfl

theorem chain_unplaced (ids : List BlockId) : g.unplaced.chain ids = ((g.chain ids).1, (g.chain ids).2.unplaced) := by
  have links : ∀ (links : List (BlockId × BlockId)) (g : Graph),
      links.foldl (fun g p => g.link p.1 p.2) g.unplaced = (links.foldl (fun g p => g.link p.1 p.2) g).unplaced := by
    intro links
    induction links with
    | nil => exact fun _ => rfl
    | cons p links hyp =>
      intro g
      rw [List.foldl_cons, List.foldl_cons, ← link_unplaced, hyp]
  cases ids with
  | nil => rfl
  | cons first rest => exact Prod.ext rfl (links _ g)

theorem set_body_unplaced (branch first : BlockId) :
    (g.setBody branch first).unplaced = g.unplaced.setBody branch first := by
  unfold setBody
  rw [block_unplaced, Option.isNone_map]
  split_ifs
  · rw [modify_unplaced]
    exact fun _ => rfl
  · rw [modify_unplaced, modify_unplaced] <;> exact fun _ => rfl

theorem set_otherwise_unplaced (branch first : BlockId) :
    (g.setOtherwise branch first).unplaced = g.unplaced.setOtherwise branch first := by
  unfold setOtherwise
  rw [block_unplaced, Option.isNone_map]
  split_ifs
  · rw [modify_unplaced]
    exact fun _ => rfl
  · rw [modify_unplaced, modify_unplaced] <;> exact fun _ => rfl

end Graph

namespace Document

def LoadState.unplaced (s : LoadState) : LoadState := { s with graph := s.graph.unplaced }

theorem resolve_unplaced (s : LoadState) (name : String) :
    s.unplaced.resolve? name = (s.resolve? name).map Block.unplaced := by
  unfold LoadState.resolve?
  change (s.frames.flatten ++ s.declared).findSome? _ = _
  rw [List.map_findSome?]
  congr 1
  funext id
  change (s.graph.unplaced.block? id).bind _ = _
  rw [Graph.block_unplaced]
  cases found : s.graph.block? id with
  | none => simp [found]
  | some b =>
    have named : b.unplaced.name = b.name := rfl
    by_cases here : b.name = name <;> simp [found, named, here]

end Document

def Term.unplaced : Term → Term
  | .missing => .missing
  | .node b first second => .node b.unplaced first.unplaced second.unplaced

def Chain.unplaced : Chain → Chain
  | .nil => .nil
  | .cons b body otherwise rest => .cons b.unplaced body.unplaced otherwise.unplaced rest.unplaced

namespace Graph

variable (g : Graph)

theorem term_from_unplaced (fuel : Nat) (id : BlockId) :
    g.unplaced.termFrom fuel id = (g.termFrom fuel id).unplaced := by
  induction fuel generalizing id with
  | zero => rfl
  | succ fuel hyp =>
    rw [termFrom, termFrom, block_unplaced]
    cases g.block? id with
    | none => rfl
    | some b =>
      simp only [Option.map_some, hyp]
      rfl

theorem slot_term_unplaced (b : Block) (slot : Slot) :
    g.unplaced.slotTerm b.unplaced slot = (g.slotTerm b slot).unplaced := by
  rw [slotTerm, term, size_unplaced, term_from_unplaced]
  rfl

theorem chain_tree_from_unplaced (fuel : Nat) (id : BlockId) :
    g.unplaced.chainTreeFrom fuel id = (g.chainTreeFrom fuel id).unplaced := by
  induction fuel generalizing id with
  | zero => rfl
  | succ fuel hyp =>
    rw [chainTreeFrom, chainTreeFrom, block_unplaced]
    cases g.block? id with
    | none => rfl
    | some b =>
      simp only [Option.map_some, hyp]
      rfl

theorem chain_tree_unplaced (id : BlockId) : g.unplaced.chainTree id = (g.chainTree id).unplaced := by
  rw [chainTree, size_unplaced, chain_tree_from_unplaced]
  rfl

end Graph

namespace Outline

theorem expression_unplaced (t : Term) : expression t.unplaced = expression t := by
  induction t with
  | missing => rfl
  | node b first second hyp hyp' =>
    rw [Term.unplaced, expression, expression, hyp, hyp']
    rfl

variable (g : Graph)

theorem statement_unplaced (b : Block) (first other : OutlineList) :
    statement g.unplaced b.unplaced first other = statement g b first other := by
  have slot : ∀ slot, expression (g.unplaced.slotTerm b.unplaced slot) = expression (g.slotTerm b slot) := by
    intro slot
    rw [g.slot_term_unplaced, expression_unplaced]
  have fields : forFields g.unplaced b.unplaced = forFields g b := by
    unfold forFields
    simp only [slot]
    rfl
  unfold statement
  simp only [slot, fields]
  rfl

theorem chain_unplaced (c : Chain) : chain g.unplaced c.unplaced = chain g c := by
  induction c with
  | nil => rfl
  | cons b body otherwise rest hyp hyp' hyp'' => rw [Chain.unplaced, chain, chain, hyp, hyp', hyp'', statement_unplaced]

theorem handler_unplaced (id : BlockId) : handler g.unplaced id = handler g id := by
  unfold handler
  rw [g.chain_tree_unplaced]
  cases g.chainTree id with
  | nil => rfl
  | cons b body otherwise rest =>
    simp only [Chain.unplaced, chain_unplaced, statement_unplaced]

theorem of_graph_unplaced : ofGraph g.unplaced = ofGraph g := by
  have main : (g.unplaced.block? g.main).toList.map
    (fun start => ("main", body (chain g.unplaced (g.unplaced.chainTree start.next)))) =
      (g.block? g.main).toList.map fun start => ("main", body (chain g (g.chainTree start.next))) := by
    rw [g.block_unplaced]
    cases g.block? g.main with
    | none => rfl
    | some start =>
      simp only [g.chain_tree_unplaced, chain_unplaced]
      rfl
  have handlers : handler g.unplaced = handler g := funext (handler_unplaced g)
  unfold ofGraph
  rw [handlers]
  exact congrArg (fun main => Outline.mapping (.ofList (_ ++ main ++ _))) main

end Outline

theorem Graph.format_unplaced (g : Graph) : g.unplaced.format = g.format := by
  rw [Graph.format, Graph.format, Outline.of_graph_unplaced]

end Blockwork
