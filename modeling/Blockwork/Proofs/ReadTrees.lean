import Blockwork.Proofs.ReadingPrograms

set_option autoImplicit false

namespace Blockwork

open List

variable {k : Nat} {b : Block} {bs : List Block} {names : Names} {operands : List (Slot × Term)} {g : Graph}

namespace Graph

def Holds (g : Graph) (k : Nat) (bs : List Block) : Prop :=
  ∀ (i : Nat) (b : Block), bs[i]? = some b → g.block? (k + i) = some b

theorem holds_append (g : Graph) (k : Nat) (as bs : List Block) (held : g.Holds k (as ++ bs)) :
    g.Holds k as ∧ g.Holds (k + as.length) bs := by
  refine ⟨fun i b here => held i b ?_, fun i b here => ?_⟩
  · rw [List.getElem?_append_left (List.getElem?_eq_some_iff.mp here).1, here]
  · rw [Nat.add_assoc]
    refine held (as.length + i) b ?_
    rw [List.getElem?_append_right (Nat.le_add_right _ _), Nat.add_sub_cancel_left, here]

theorem holds_cons (g : Graph) (held : g.Holds k (b :: bs)) : g.block? k = some b ∧ g.Holds (k + 1) bs :=
  ⟨held 0 b rfl, (g.holds_append k [b] bs held).2⟩

theorem holds_size (g : Graph) (held : g.Holds (k + 1) bs) : bs.length ≤ g.size := by
  rcases eq_nil_or_concat bs with rfl | ⟨front, last, rfl⟩
  · exact Nat.zero_le _
  · have inside := g.block_inside (held front.length last (by simp))
    rw [length_concat]
    omega

end Graph

namespace Term

theorem slot_operands (first second : Term) (b : Block)
    (slots : b.slots = first.inSlot b.kind.firstOperand ++ second.inSlot b.kind.secondOperand) :
    b.slot b.kind.firstOperand = first.id ∧ b.slot b.kind.secondOperand = second.id := by
  have apart : b.kind.secondOperand ≠ b.kind.firstOperand := by
    cases b.kind <;> simp [Kind.firstOperand, Kind.secondOperand]
  unfold Block.slot
  rw [slots]
  cases first <;> cases second <;> simp [inSlot, isMissing, id, apart, apart.symm]

end Term

def Numbered (k : Nat) (bs : List Block) : Prop := bs.map Block.id = List.range' k bs.length

theorem numbered_append (k : Nat) (as bs : List Block) (first : Numbered k as) (second : Numbered (k + as.length) bs) :
    Numbered k (as ++ bs) := by
  unfold Numbered at *
  rw [map_append, first, second, length_append, range'_append_1]

theorem numbered_cons (bs : List Block) (own : b.id = k) (rest : Numbered (k + 1) bs) : Numbered k (b :: bs) :=
  numbered_append k [b] bs (by simp [Numbered, own]) rest

theorem Term.reads_numbered (t : Term) (k : Nat) (reads : t.Reads names k) : Numbered k t.blocks := by
  induction t generalizing k with
  | missing => rfl
  | node b first second hyp hyp' =>
    obtain ⟨placed, -, reads, reads'⟩ := reads
    exact numbered_cons _ placed.id (numbered_append _ _ _ (hyp _ reads) (hyp' _ reads'))

namespace Plan

theorem operands_numbered {kind : Kind} (k : Nat) (reads : OperandsRead names kind k operands) :
    Numbered k (operandBlocks operands) := by
  induction operands generalizing k with
  | nil => rfl
  | cons p rest hyp => exact numbered_append k p.2.blocks _ (p.2.reads_numbered k reads.2.1) (hyp _ reads.2.2)

theorem reads_numbered (top : Bool) (names : Names) (p : Plan) (k parent : Nat) (reads : p.Reads top names k parent) :
    Numbered k p.blocks := by
  induction p generalizing top names k parent with
  | nil => rfl
  | cons b operands body otherwise rest hyp hyp' hyp'' =>
    obtain ⟨placed, -, operandsRead, bodyReads, otherwiseReads, restReads⟩ := reads
    have first := numbered_append _ _ _ (operands_numbered _ operandsRead) (hyp _ _ _ _ bodyReads)
    have second := numbered_append _ _ _ first (by simpa [Nat.add_assoc] using hyp' _ _ _ _ otherwiseReads)
    exact numbered_cons _ placed.id
      (numbered_append _ _ _ second (by simpa [Nat.add_assoc] using hyp'' _ _ _ _ restReads))

end Plan

theorem numbered_nodup (numbered : Numbered k bs) : bs.Nodup := by
  refine List.Nodup.of_map Block.id ?_
  rw [numbered]
  exact nodup_range'

def Term.In (g : Graph) (t : Term) : Prop := ∃ names k, g.Holds (k + 1) t.blocks ∧ t.Reads names (k + 1)

structure Term.NodeIn (g : Graph) (b : Block) (first second : Term) : Prop where
  found : g.block? b.id = some b
  slots : b.slots = first.inSlot b.kind.firstOperand ++ second.inSlot b.kind.secondOperand
  saying : ∃ names, Expression names b.content first second
  apart : (b :: (first.blocks ++ second.blocks)).Nodup
  left : first.In g
  right : second.In g

namespace Term

theorem in_missing (g : Graph) : Term.missing.In g := ⟨{}, 0, by simp [Graph.Holds, blocks], trivial⟩

theorem in_node {first second : Term} (inside : (Term.node b first second).In g) : NodeIn g b first second := by
  obtain ⟨names, k, held, reads⟩ := inside
  have nodup := numbered_nodup (reads_numbered _ _ reads)
  obtain ⟨placed, saying, reads, reads'⟩ := reads
  obtain ⟨found, held⟩ := g.holds_cons held
  obtain ⟨held, held'⟩ := g.holds_append _ _ _ held
  rw [Nat.add_right_comm] at held' reads'
  exact ⟨placed.id ▸ found, placed.slots, ⟨names, saying⟩, nodup, ⟨names, _, held, reads⟩, ⟨names, _, held', reads'⟩⟩

variable {t : Term}

theorem from_read (fuel : Nat) (inside : t.In g) (enough : t.blocks.length ≤ fuel) : g.termFrom fuel t.id = t := by
  induction t generalizing fuel with
  | missing => cases fuel <;> rfl
  | node b first second hyp hyp' =>
    have node := in_node inside
    simp only [blocks, length_cons, length_append] at enough
    obtain ⟨fuel, rfl⟩ : ∃ f, fuel = f + 1 := ⟨fuel - 1, by omega⟩
    rw [id, Graph.termFrom, node.found]
    dsimp only
    obtain ⟨here, here'⟩ := slot_operands first second b node.slots
    rw [here, here', hyp fuel node.left (by omega),
      hyp' fuel node.right (by omega)]

theorem read_back (inside : t.In g) : g.term t.id = t := by
  have ⟨_, k, held, _⟩ := inside
  exact from_read g.size inside (g.holds_size held)

end Term

namespace Plan

def among (operands : List (Slot × Term)) (slot : Slot) : Term :=
  ((operands.find? (·.1 = slot)).map Prod.snd).getD .missing

theorem among_mem (operands : List (Slot × Term)) (slot : Slot) :
    (slot, among operands slot) ∈ operands ∨ among operands slot = .missing := by
  unfold among
  cases found : operands.find? (·.1 = slot) with
  | none => exact .inr rfl
  | some p =>
    have same : p.1 = slot := by simpa using find?_some found
    exact .inl (by simpa [← same] using mem_of_find?_eq_some found)

variable {top : Bool}

theorem operands_apart {content : Content} {body otherwise : Plan}
    (statement : Statement top content operands body otherwise) : (operands.map Prod.fst).Nodup := by
  cases statement with
  | forLoop name type iteration operands body named readable bounds =>
    rw [bounds]
    cases iteration <;> decide
  | _ => simp

theorem slot_among (slots : b.slots = operandSlots operands) (apart : (operands.map Prod.fst).Nodup) (slot : Slot) :
    b.slot slot = (among operands slot).id := by
  unfold Block.slot among
  rw [slots]
  clear slots
  induction operands with
  | nil => rfl
  | cons p rest hyp =>
    obtain ⟨own, t⟩ := p
    obtain ⟨fresh, apart⟩ := nodup_cons.mp apart
    by_cases here : own = slot
    · subst here
      have none : (operandSlots rest).find? (·.1 = own) = none := by
        rw [find?_eq_none]
        intro q mem same
        obtain ⟨r, inside, mem⟩ := mem_flatMap.mp mem
        unfold Term.inSlot at mem
        split_ifs at mem
        · cases mem
        · rw [mem_singleton.mp mem] at same
          exact fresh (mem_map.mpr ⟨r, inside, by simpa using same⟩)
      cases t with
      | missing => simpa [operandSlots, Term.inSlot, Term.isMissing, Term.id] using congrArg (fun o =>
        (o.map Prod.snd).getD 0) none
      | node b first second => simp [operandSlots, Term.inSlot, Term.isMissing, Term.id]
    · have skip : (operandSlots ((own, t) :: rest)).find? (·.1 = slot) = (operandSlots rest).find? (·.1 = slot) := by
        cases t <;> simp [operandSlots, Term.inSlot, Term.isMissing, here]
      rw [skip, hyp apart, find?_cons_of_neg (by simpa using here)]

theorem operand_in {kind : Kind} (k : Nat) (held : g.Holds (k + 1) (operandBlocks operands))
    (reads : OperandsRead names kind (k + 1) operands) : ∀ p ∈ operands, p.2.In g := by
  induction operands generalizing k with
  | nil => simp
  | cons p rest hyp =>
    obtain ⟨-, reads, others⟩ := reads
    obtain ⟨held, held'⟩ := g.holds_append (k + 1) p.2.blocks (operandBlocks rest) held
    intro q mem
    rcases mem_cons.mp mem with rfl | mem
    · exact ⟨names, k, held, reads⟩
    · rw [Nat.add_right_comm] at others held'
      exact hyp _ held' others q mem

def In (g : Graph) (top : Bool) (p : Plan) : Prop :=
  ∃ names k parent, g.Holds (k + 1) p.blocks ∧ p.Reads top names (k + 1) parent

structure StatementIn (g : Graph) (top : Bool) (b : Block) (operands : List (Slot × Term))
    (body otherwise rest : Plan) : Prop where
  found : g.block? b.id = some b
  next : b.next = rest.id
  first : b.body = body.id
  other : b.otherwise = otherwise.id
  statement : Statement top b.content operands body otherwise
  slots : ∀ slot, g.slotTerm b slot = among operands slot
  apart : (operandBlocks operands).Nodup
  terms : ∀ p ∈ operands, p.2.In g
  inBody : body.In g false
  inOtherwise : otherwise.In g false
  inRest : rest.In g top

theorem in_cons (top : Bool) (b : Block) (operands : List (Slot × Term)) (body otherwise rest : Plan)
    (inside : (Plan.cons b operands body otherwise rest).In g top) :
    StatementIn g top b operands body otherwise rest := by
  obtain ⟨names, k, parent, held, placed, statement, operandsRead, bodyReads, otherwiseReads, restReads⟩ := inside
  obtain ⟨found, held⟩ := g.holds_cons held
  obtain ⟨held, heldRest⟩ := g.holds_append _ _ _ held
  obtain ⟨held, heldOtherwise⟩ := g.holds_append _ _ _ held
  obtain ⟨heldOperands, heldBody⟩ := g.holds_append _ _ _ held
  simp only [length_append, ← Nat.add_assoc] at heldRest heldOtherwise
  have step : ∀ n, k + 1 + 1 + n = k + 1 + n + 1 := fun n => by omega
  rw [step] at bodyReads heldBody
  rw [step, Nat.add_right_comm _ 1] at otherwiseReads heldOtherwise
  rw [step, Nat.add_right_comm _ 1, Nat.add_right_comm _ 1] at restReads heldRest
  have terms := operand_in (k + 1) heldOperands operandsRead
  refine ⟨placed.id ▸ found, placed.next, placed.body, placed.otherwise, statement, fun slot => ?_,
    numbered_nodup (operands_numbered _ operandsRead), terms, ⟨_, _, _, heldBody, bodyReads⟩,
      ⟨_, _, _, heldOtherwise, otherwiseReads⟩, ⟨_, _, _, heldRest, restReads⟩⟩
  unfold Graph.slotTerm
  rw [slot_among placed.slots (operands_apart statement) slot]
  rcases among_mem operands slot with mem | missing
  · exact Term.read_back (terms _ mem)
  · rw [missing]
    exact Term.read_back (Term.in_missing g)

theorem from_read (top : Bool) {p : Plan} (fuel : Nat) (inside : p.In g top) (enough : p.blocks.length ≤ fuel) :
    g.chainTreeFrom fuel p.id = p.chain := by
  induction p generalizing top fuel with
  | nil => cases fuel <;> rfl
  | cons b operands body otherwise rest hyp hyp' hyp'' =>
    have node := in_cons top b operands body otherwise rest inside
    simp only [blocks, length_cons, length_append] at enough
    obtain ⟨fuel, rfl⟩ : ∃ f, fuel = f + 1 := ⟨fuel - 1, by omega⟩
    rw [id, Graph.chainTreeFrom, node.found]
    dsimp only
    rw [node.first, node.other, node.next, hyp _ fuel node.inBody (by omega), hyp' _ fuel node.inOtherwise (by omega),
      hyp'' _ fuel node.inRest (by omega)]
    rfl

theorem read_back (p : Plan) (inside : p.In g top) : g.chainTree p.id = p.chain := by
  have ⟨_, k, _, held, _⟩ := inside
  exact from_read top g.size inside (g.holds_size held)

end Plan

namespace Blueprint

def blocks (bp : Blueprint) : List Block := bp.mainBlocks ++ bp.handlers.flatMap Head.blocks

theorem graph_holds (bp : Blueprint) : bp.graph.Holds 1 bp.blocks := by
  intro i b here
  have positive : 1 + i ≠ 0 := by omega
  rw [Graph.block?, if_neg positive, Nat.add_sub_cancel_left]
  simpa [graph, blocks] using here

theorem handlers_numbered (names : Names) (k : Nat) {hs : List Head} (reads : HandlersRead names k hs) :
    Numbered k (hs.flatMap Head.blocks) := by
  induction hs generalizing names k with
  | nil => rfl
  | cons h rest hyp =>
    obtain ⟨reads, -, others⟩ := reads
    have first := h.single.reads_numbered true _ k 0 reads
    rw [h.single_blocks] at first
    exact numbered_append _ _ _ first (hyp _ _ others)

theorem reads_numbered (bp : Blueprint) (reads : bp.Reads) : Numbered 1 bp.blocks := by
  refine numbered_append _ _ _ ?_ (by rw [Nat.add_comm]; exact handlers_numbered _ _ reads.handlers)
  unfold mainBlocks
  split
  · rfl
  · next p start found =>
      obtain ⟨planned, placed, -⟩ := reads.main p start found
      exact numbered_append _ _ _ (p.reads_numbered _ _ _ _ planned) (numbered_cons [] placed.id rfl)

end Blueprint

theorem Blueprint.main_in (bp : Blueprint) (reads : bp.Reads) {p : Plan} {start : Block}
    (found : bp.main = some (p, start)) :
    bp.graph.block? bp.graph.main = some start ∧ start.next = p.id ∧ p.In bp.graph false := by
  obtain ⟨planned, placed, -⟩ := reads.main p start found
  have held := bp.graph_holds
  unfold blocks mainBlocks at held
  rw [found] at held
  obtain ⟨held, -⟩ := bp.graph.holds_append _ _ _ held
  obtain ⟨heldMain, heldStart⟩ := bp.graph.holds_append _ _ _ held
  have main : bp.graph.main = 1 + p.blocks.length := by
    rw [← placed.id]
    simp [graph, found]
  rw [main]
  exact ⟨(bp.graph.holds_cons heldStart).1, placed.next, ⟨_, 0, _, heldMain, planned⟩⟩

theorem Blueprint.handler_in (bp : Blueprint) (reads : bp.Reads) : ∀ h ∈ bp.handlers, h.single.In bp.graph true := by
  have each : ∀ (hs : List Head) (names : Names) (k : Nat), bp.graph.Holds (k + 1) (hs.flatMap Head.blocks) →
      HandlersRead names (k + 1) hs → ∀ h ∈ hs, h.single.In bp.graph true := by
    intro hs
    induction hs with
    | nil => simp
    | cons h rest hyp =>
      intro names k held reads h' mem
      obtain ⟨planned, -, others⟩ := reads
      obtain ⟨held, held'⟩ := bp.graph.holds_append _ _ _ held
      rcases mem_cons.mp mem with rfl | mem
      · exact ⟨_, _, _, h'.single_blocks ▸ held, planned⟩
      · rw [Nat.add_right_comm] at held' others
        exact hyp _ _ held' others h' mem
  have held := (bp.graph.holds_append _ _ _ bp.graph_holds).2
  rw [Nat.add_comm] at held
  exact each bp.handlers _ _ held reads.handlers

def Blueprint.statements (bp : Blueprint) : List Block :=
  (match bp.main with
    | none => []
    | some (p, _) => p.chain.compiled) ++ bp.handlers.flatMap fun h => h.block :: h.body.chain.compiled

theorem Graph.statements_read {bp : Blueprint} (reads : bp.Reads) : bp.graph.statements = bp.statements := by
  unfold statements Blueprint.statements
  congr 1
  · cases found : bp.main with
    | none =>
      have main : bp.graph.main = 0 := by simp [Blueprint.graph, found]
      rw [main]
      rfl
    | some whole =>
      obtain ⟨p, start⟩ := whole
      obtain ⟨here, next, inside⟩ := bp.main_in reads found
      rw [here, Option.elim_some, next, p.read_back inside]
  · have ids : bp.graph.handlers = bp.handlers.map (·.block.id) := rfl
    rw [ids, handled, flatMap_map]
    refine flatMap_congr fun h mem => ?_
    have node := Plan.in_cons _ _ _ _ _ _ (bp.handler_in reads h mem)
    rw [node.found, Option.elim_some, node.first, h.body.read_back node.inBody]

end Blockwork
