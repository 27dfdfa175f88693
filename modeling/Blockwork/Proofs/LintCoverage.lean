import Blockwork.Lint
import Blockwork.Proofs.Forest
import Blockwork.Proofs.GuardCoverage

set_option autoImplicit false

namespace Blockwork

open Kind Lint List

variable {b left right : Block} {g : Graph} {checks : List Check}

def Kind.isSum (k : Kind) : Prop := k = .add ∨ k = .sub

def Kind.isDivision (k : Kind) : Prop := k = .div ∨ k = .mod

def Block.RefersTo (b v : Block) : Prop := b.kind = .varRef ∧ b.decl = v.id

instance (k : Kind) : Decidable k.isSum := inferInstanceAs (Decidable (_ ∨ _))

instance (k : Kind) : Decidable k.isDivision := inferInstanceAs (Decidable (_ ∨ _))

instance (b v : Block) : Decidable (b.RefersTo v) := inferInstanceAs (Decidable (_ ∧ _))

namespace Graph

variable (g : Graph)

def IsRef (id : BlockId) (v : Block) : Prop := ∃ b, g.block? id = some b ∧ b.RefersTo v

def IsSimple (id : BlockId) : Prop := ∃ b, g.block? id = some b ∧ b.isSimple = true

def Operates (op v : Block) : Prop :=
  op.kind.isSum ∧ (g.IsRef (op.slot .left) v ∨ g.IsRef (op.slot .right) v) ∨ op.kind.isDivision ∧
    g.IsRef (op.slot .right) v

-- In a sum or difference the other operand is a number or a reference.
def Testable (op v : Block) : Prop :=
  op.kind.isSum ∧ (g.IsRef (op.slot .left) v ∧ g.IsSimple (op.slot .right) ∨ g.IsRef (op.slot .right) v ∧
    g.IsSimple (op.slot .left)) ∨ op.kind.isDivision ∧ g.IsRef (op.slot .right) v

def Evaluates (op : Block) : Prop := ∃ b ∈ g.statements, ∃ slot ∈ b.kind.evaluated, op ∈ (g.slotTerm b slot).blocks

instance (id : BlockId) (v : Block) : Decidable (g.IsRef id v) :=
  decidable_of_iff (∃ b ∈ (g.block? id).toList, b.RefersTo v) (by simp [IsRef])

instance (id : BlockId) : Decidable (g.IsSimple id) :=
  decidable_of_iff (∃ b ∈ (g.block? id).toList, b.isSimple = true) (by simp [IsSimple])

instance (op v : Block) : Decidable (g.Testable op v) := inferInstanceAs (Decidable (_ ∨ _))

instance (op : Block) : Decidable (g.Evaluates op) := inferInstanceAs (Decidable (∃ b ∈ g.statements, _))

def Warned (v : Block) : Prop :=
  ∃ d ∈ g.lint, d.block = v.id ∧ d.message = s!"checked variable '{v.name}' is never an operand of a guarded operation"

end Graph

-- The site tests the variable, or an operand beside it that asks for guards as well.
def GuardSite.Covers (g : Graph) (site : GuardSite) (v : Block) : Prop :=
  site.kind = .overflow ∧ g.IsRef site.left v ∨ g.IsRef site.right v

namespace Usage

variable (g : Graph) (u : Usage) (v : Block)

theorem guards_mem (operand : BlockId) :
    v.id ∈ (u.guards g operand).guarded ↔ g.IsRef operand v ∨ v.id ∈ u.guarded := by
  unfold guards Graph.IsRef Block.RefersTo
  cases g.block? operand with
  | none => simp
  | some b =>
    by_cases reference : b.kind = .varRef
    · simp [reference, eq_comm]
    · simp [reference]

theorem visit_mem (b : Block) : v.id ∈ (u.visit g b).guarded ↔ g.Operates b v ∨ v.id ∈ u.guarded := by
  have apart : b.kind.isSum → ¬ b.kind.isDivision := by
    rintro (kind | kind) <;> simp [isDivision, kind]
  by_cases sum : b.kind.isSum
  · have both : u.visit g b = (u.guards g (b.slot .left)).guards g (b.slot .right) := by
      rcases sum with kind | kind <;> simp [visit, kind]
    rw [both, guards_mem, guards_mem, Graph.Operates]
    have := apart sum
    tauto
  · by_cases division : b.kind.isDivision
    · have right : u.visit g b = u.guards g (b.slot .right) := by
        rcases division with kind | kind <;> simp [visit, kind]
      rw [right, guards_mem, Graph.Operates]
      tauto
    · have same : (u.visit g b).guarded = u.guarded := by
        simp only [isSum, isDivision, not_or] at sum division
        unfold visit
        split
        · split <;> rfl
        · split <;> rfl
        · split_ifs <;> rfl
        · split_ifs <;> rfl
        · rfl
        · exact absurd ‹_› sum.1
        · exact absurd ‹_› sum.2
        · exact absurd ‹_› division.1
        · exact absurd ‹_› division.2
        · rfl
      rw [same, Graph.Operates]
      tauto

theorem fold_mem (bs : List Block) : v.id ∈ (bs.foldl (visit g) u).guarded ↔ (∃ op ∈ bs, g.Operates op v) ∨
    v.id ∈ u.guarded := by
  induction bs generalizing u with
  | nil => simp
  | cons b rest hyp =>
    rw [foldl_cons, hyp, visit_mem, exists_mem_cons_iff, or_left_comm, or_assoc]

end Usage

namespace Graph

variable (g : Graph) (v : Block)

theorem usage_mem (formed : g.WellFormed) : v.id ∈ g.usage.guarded ↔ ∃ op ∈ g.blocks.toList, g.Operates op v := by
  rw [usage, Usage.fold_mem]
  have blocks : ∀ op, op ∈ g.reachable ↔ op ∈ g.blocks.toList := fun op => formed.walked.mem_iff
  simp [blocks]

theorem block_wording {u : Usage} {d : Diagnostic} (mem : d ∈ block u b) :
    d.message.toList.head? ≠ some 'c' ∨ d ∈ unguarded u b := by
  have naming : ∀ d ∈ naming b, d.message.toList.head? ≠ some 'c' := by
    unfold naming
    split_ifs <;> simp [warn, Diagnostic.warning, toString]
  have unused : ∀ d ∈ unused u b, d.message.toList.head? ≠ some 'c' := by
    unfold unused
    split <;> simp [warn, Diagnostic.warning, toString]
  have emptyBody : ∀ d ∈ emptyBody b, d.message.toList.head? ≠ some 'c' := by
    unfold emptyBody
    split_ifs <;> simp [warn, Diagnostic.warning, toString]
  have neverRuns : ∀ d ∈ neverRuns b, d.message.toList.head? ≠ some 'c' := by
    unfold neverRuns
    split_ifs <;> simp [warn, Diagnostic.warning]
  unfold block at mem
  split at mem
  · rcases mem_append.mp mem with others | own
    · exact .inl ((mem_append.mp others).elim (naming d) (unused d))
    · exact .inr own
  · exact .inl ((mem_append.mp mem).elim (naming d) (emptyBody d))
  · exact .inl (emptyBody d mem)
  · exact .inl (emptyBody d mem)
  · exact .inl (emptyBody d mem)
  · exact .inl ((mem_append.mp mem).elim (emptyBody d) (neverRuns d))
  · cases mem

theorem warned_iff (formed : g.WellFormed) (found : g.block? v.id = some v) (kind : v.kind = .variableDecl)
    (checked : v.checked = true) :
    g.Warned v ↔ ∀ op ∈ g.blocks.toList, ¬ g.Operates op v := by
  have unmarked : (∀ op ∈ g.blocks.toList, ¬ g.Operates op v) ↔ v.id ∉ g.usage.guarded := by
    rw [g.usage_mem v formed]
    push Not
    rfl
  rw [unmarked]
  constructor
  · rintro ⟨d, mem, block, message⟩
    have begins : d.message.toList.head? = some 'c' := by
      rw [message]
      simp [toString]
    rcases mem_append.mp mem with own | devices
    · obtain ⟨b, -, inside⟩ := mem_flatMap.mp own
      have finding := (block_wording inside).resolve_left fun other => other begins
      unfold Lint.unguarded at finding
      split_ifs at finding with condition
      · obtain rfl := mem_singleton.mp finding
        have own : b.id = v.id := block
        rw [own, Bool.and_eq_true] at condition
        simpa using condition.2
      · cases finding
    · obtain ⟨device, -, inside⟩ := mem_flatMap.mp devices
      unfold Lint.device at inside
      split_ifs at inside
      · cases inside
      · rw [mem_singleton.mp inside] at begins
        simp [Diagnostic.warning, toString] at begins
  · intro unmarked
    have reached : v ∈ g.reachable := formed.walked.mem_iff.mpr (g.mem_block found)
    have finding : Lint.warn v s!"checked variable '{v.name}' is never an operand of a guarded operation"
        "drop 'checked' or use it in add, sub, div or mod" ∈ Lint.block g.usage v := by
      simp [Lint.block, kind, Lint.unguarded, checked, unmarked]
    exact ⟨_, mem_append_left _ (mem_flatMap.mpr ⟨v, reached, finding⟩), rfl, rfl⟩

end Graph

theorem Term.in_block {t : Term} (inside : t.In g) (top : t.block? = some b) :
    t.id = b.id ∧ g.block? b.id = some b := by
  cases t with
  | missing => cases top
  | node b' first second =>
    cases top
    exact ⟨rfl, (in_node inside).found⟩

structure Term.Operands (g : Graph) (b left right : Block) : Prop where
  first : g.block? (b.slot .left) = some left
  second : g.block? (b.slot .right) = some right
  left : g.block? left.id = some left
  right : g.block? right.id = some right

theorem Term.operand_blocks {first second : Term} (node : NodeIn g b first second)
    (kind : b.kind.isSum ∨ b.kind.isDivision) (top : first.block? = some left) (top' : second.block? = some right) :
    Operands g b left right := by
  have slots : b.kind.firstOperand = .left ∧ b.kind.secondOperand = .right := by
    rcases kind with (kind | kind) | (kind | kind) <;> simp [kind, firstOperand, secondOperand]
  obtain ⟨id, own⟩ := in_block node.left top
  obtain ⟨id', own'⟩ := in_block node.right top'
  obtain ⟨here, here'⟩ := slot_operands first second b node.slots
  rw [slots.1, id] at here
  rw [slots.2, id'] at here'
  exact ⟨here ▸ own, here' ▸ own', own, own'⟩

section Asking

variable (g : Graph) (v : Block) (found : g.block? v.id = some v) (declared : v.kind = .variableDecl)
  (checked : v.checked = true)

include found declared checked

theorem refers_asks (b : Block) (refers : b.RefersTo v) : g.asksForGuards b = true := by
  simp [Graph.asksForGuards, Graph.decl?, refers.1, refers.2, found, declared, checked]

theorem guardable_refers (left right : Block) :
    ((g.asksForGuards left && right.isSimple) || (g.asksForGuards right && left.isSimple)) = true ∧
      (left.RefersTo v ∨ right.RefersTo v) ↔
      left.RefersTo v ∧ right.isSimple = true ∨ right.RefersTo v ∧ left.isSimple = true := by
  have asks := refers_asks g v found declared checked
  have simple : ∀ b : Block, g.asksForGuards b = true → b.isSimple = true := by
    intro b asking
    simp only [Graph.asksForGuards, Bool.and_eq_true, decide_eq_true_eq] at asking
    simp [Block.isSimple, Block.isReference, asking.1]
  rw [Bool.or_eq_true, Bool.and_eq_true, Bool.and_eq_true]
  have asksLeft := asks left
  have asksRight := asks right
  have simpleLeft := simple left
  have simpleRight := simple right
  tauto

end Asking

namespace Setting

variable (s : Setting) (typed : ∀ id d, s.graph.block? id = some d → d.kind = .variableDecl → d.type.isSome = true)
  (v : Block) (found : s.graph.block? v.id = some v) (declared : v.kind = .variableDecl) (checked : v.checked = true)
  {g : Graph} {id : BlockId}

theorem is_ref_block (v : Block) (here : g.block? id = some b) : g.IsRef id v ↔ b.RefersTo v := by
  simp [Graph.IsRef, here]

theorem is_simple_block (here : g.block? id = some b) : g.IsSimple id ↔ b.isSimple = true := by
  simp [Graph.IsSimple, here]

include typed found declared checked

theorem overflow_check_covers (l r : Fragment) (sum : b.kind.isSum) (operands : Term.Operands s.graph b left right) :
    (∃ c ∈ (s.overflowCheck? b left right l r).toList, c.site.Covers s.graph v) ↔ s.graph.Testable b v := by
  have division : ¬ b.kind.isDivision := by rcases sum with kind | kind <;> simp [isDivision, kind]
  have tested := guardable_refers s.graph v found declared checked left right
  rw [← guardable_of s left right l r] at tested
  rw [Graph.Testable, is_ref_block v operands.first, is_ref_block v operands.second,
    is_simple_block operands.first, is_simple_block operands.second, ← tested]
  simp only [sum, division, true_and, false_and, or_false]
  unfold overflowCheck?
  cases made : Guardable.of? s left right l r with
  | none => simp
  | some w =>
    obtain ⟨id, place, kind⟩ := guardable_typed s made
    obtain ⟨type, has⟩ := Option.isSome_iff_exists.mp (typed id w.decl place kind)
    simp [has, GuardSite.Covers, is_ref_block v operands.left, is_ref_block v operands.right]

omit typed in
theorem zero_check_covers (division : b.kind.isDivision) (operands : Term.Operands s.graph b left right) :
    (∃ c ∈ (s.zeroCheck? b left right).toList, c.site.Covers s.graph v) ↔ s.graph.Testable b v := by
  have sum : ¬ b.kind.isSum := by rcases division with kind | kind <;> simp [isSum, kind]
  have asks := refers_asks s.graph v found declared checked right
  rw [← checked_asks] at asks
  rw [Graph.Testable, is_ref_block v operands.second]
  simp only [sum, division, true_and, false_and, false_or]
  unfold zeroCheck?
  cases made : s.checkedDecl? right with
  | none => simpa [made] using asks
  | some d => simp [GuardSite.Covers, is_ref_block v operands.right]

theorem tested_covers {t : Term} (tested : s.Tested t checks) (inside : t.In s.graph) :
    (∃ c ∈ checks, c.site.Covers s.graph v) ↔ ∃ op ∈ t.blocks, s.graph.Testable op v := by
  have joined : ∀ (b : Block) (first second : Term) (checks checks' own : List Check),
      ((∃ c ∈ checks, c.site.Covers s.graph v) ↔ ∃ op ∈ first.blocks, s.graph.Testable op v) →
      ((∃ c ∈ checks', c.site.Covers s.graph v) ↔ ∃ op ∈ second.blocks, s.graph.Testable op v) →
      ((∃ c ∈ own, c.site.Covers s.graph v) ↔ s.graph.Testable b v) →
      ((∃ c ∈ checks ++ checks' ++ own, c.site.Covers s.graph v) ↔
        ∃ op ∈ (Term.node b first second).blocks, s.graph.Testable op v) := by
    intro b first second checks checks' own left right here
    simp only [Term.blocks, mem_append, mem_cons, or_and_right, exists_or, exists_eq_left, left, right, here]
    exact or_comm
  have untested : ∀ b : Block, b.kind ∉ [.add, .sub, .div, .mod] → ¬ s.graph.Testable b v := by
    intro b other
    simp only [mem_cons, not_mem_nil, or_false, not_or] at other
    simp [Graph.Testable, isSum, isDivision, other]
  induction tested with
  | leaf b first second kind =>
    obtain ⟨names, saying⟩ := (Term.in_node inside).saying
    obtain ⟨rfl, rfl⟩ := (operands_missing saying).1 (by tauto)
    have none := untested b (by rcases kind with kind | kind | kind | kind <;> simp [kind])
    simp [Term.blocks, none]
  | single b first second checks alone inner hyp =>
    have node := Term.in_node inside
    obtain ⟨names, saying⟩ := node.saying
    obtain rfl := (operands_missing saying).2 (alone.imp id And.right)
    have none := untested b (by rcases alone with kind | ⟨kind, -⟩ <;> simp [kind])
    simp [Term.blocks, none, hyp node.left]
  | plain b first second checks checks' kind inner inner' hyp hyp' =>
    have node := Term.in_node inside
    simpa using joined b first second checks checks' [] (hyp node.left) (hyp' node.right) (by simp [untested b kind])
  | sum b first second left right l r kind top top' inner inner' hyp hyp' =>
    have node := Term.in_node inside
    have operands := Term.operand_blocks node (.inl kind) top top'
    exact joined b first second _ _ _ (hyp node.left) (hyp' node.right)
      (overflow_check_covers s typed v found declared checked l r kind operands)
  | division b first second left right l r kind top top' inner inner' hyp hyp' =>
    have node := Term.in_node inside
    have operands := Term.operand_blocks node (.inr kind) top top'
    exact joined b first second _ _ _ (hyp node.left) (hyp' node.right)
      (zero_check_covers s v found declared checked kind operands)

end Setting

section Written

variable (g : Graph) (typed : ∀ id d, g.block? id = some d → d.kind = .variableDecl → d.type.isSome = true)
  (v : Block) (found : g.block? v.id = some v) (declared : v.kind = .variableDecl) (checked : v.checked = true)

def Graph.StatementTests (b : Block) : Prop :=
  ∃ slot ∈ b.kind.evaluated, ∃ op ∈ (g.slotTerm b slot).blocks, g.Testable op v

theorem hoisted_covers (b : Block) (repeated : Bool) (checks : List Check) :
    (∃ c ∈ hoisted b repeated checks, c.site.Covers g v) ↔ ∃ c ∈ checks, c.site.Covers g v := by
  simp [hoisted, GuardSite.Covers]

variable {inHandler : Bool} {d : Draft}

theorem simple_compiled (body otherwise rest : Chain) (written : WrittenSimple g inHandler b d checks) :
    (Chain.cons b body otherwise rest).compiled = b :: rest.compiled := by
  cases written with
  | declaration _ kind | assignment _ _ kind | output _ kind | input _ kind => simp [Chain.compiled, kind]

theorem interrupt_untested {trigger : Block} (planned : g.Planned b) (waits : g.slotBlock? b .cond = some trigger)
    (interrupt : trigger.kind = .interrupt) : ∀ op ∈ (g.slotTerm b .cond).blocks, ¬ g.Testable op v := by
  have inside := planned.slots .cond
  have found : g.block? (b.slot .cond) = some trigger := waits
  unfold Graph.slotTerm Graph.term at inside ⊢
  cases size : g.size with
  | zero => simp [Graph.termFrom, Term.blocks]
  | succ fuel =>
    rw [size, Graph.termFrom, found] at inside
    rw [Graph.termFrom, found]
    obtain ⟨names, saying⟩ := (Term.in_node inside).saying
    obtain ⟨first, second⟩ := (Setting.operands_missing saying).1 (by simp [Block.content, interrupt])
    dsimp only
    rw [first, second]
    simp [Term.blocks, Graph.Testable, isSum, isDivision, interrupt]

include typed found declared checked

theorem compiled_covers (inHandler : Bool) (b : Block) (slot : Slot) (f : Fragment)
    (compiled : g.Compiled inHandler b slot f) (planned : g.Planned b) :
    (∃ c ∈ f.checks, c.site.Covers g v) ↔ ∃ op ∈ (g.slotTerm b slot).blocks, g.Testable op v := by
  obtain ⟨scopes, scope, compiled⟩ := compiled
  exact Setting.tested_covers ⟨g, scopes, scope, inHandler⟩ typed v found declared checked
    (Setting.compiles_tested compiled)
    (planned.slots slot)

theorem condition_covers (repeated : Bool) {cond : Fragment} (compiled : g.Compiled inHandler b .cond cond)
    (planned : g.Planned b) (tests : b.kind.evaluated = [.cond]) :
    (∃ c ∈ hoisted b repeated cond.checks, c.site.Covers g v) ↔ g.StatementTests v b := by
  rw [hoisted_covers, compiled_covers g typed v found declared checked inHandler b .cond cond compiled planned]
  simp [Graph.StatementTests, tests]

theorem simple_covers (written : WrittenSimple g inHandler b d checks) (planned : g.Planned b) :
    (∃ c ∈ checks, c.site.Covers g v) ↔ g.StatementTests v b := by
  have covers :=
    fun slot f compiled => compiled_covers g typed v found declared checked inHandler b slot f compiled planned
  unfold Graph.StatementTests
  cases written with
  | declaration type kind has => simp [kind, evaluated]
  | assignment value target kind compiled compiled' =>
    rw [hoisted_covers]
    simp only [mem_append, or_and_right, exists_or, covers _ _ compiled, covers _ _ compiled']
    simp [kind, evaluated]
  | output value kind compiled =>
    rw [hoisted_covers, covers _ _ compiled]
    simp [kind, evaluated]
  | input target kind compiled =>
    rw [hoisted_covers, covers _ _ compiled]
    simp [kind, evaluated]

theorem Written.covers {c : Chain} (written : Written g inHandler c d checks)
    (planned : ∀ b ∈ c.compiled, g.Planned b) :
    (∃ c ∈ checks, c.site.Covers g v) ↔ ∃ b ∈ c.compiled, g.StatementTests v b := by
  induction written with
  | nil => simp [Chain.compiled]
  | simple b body otherwise rest first later checks checks' simple following hyp =>
    have own := simple_covers g typed v found declared checked simple (planned b (by simp [Chain.compiled]))
    have rest := hyp fun b mem => planned b (by simp [Chain.compiled, mem])
    simp only [simple_compiled g body otherwise _ simple, mem_append, mem_cons, or_and_right,
      exists_or, exists_eq_left, own, rest]
  | ifThen b body otherwise rest cond affirmed checks later checks' kind compiled inner following hyp hyp' =>
    have own := condition_covers g typed v found declared checked false compiled (planned b (by simp [Chain.compiled]))
      (by simp [kind, evaluated])
    have body := hyp fun b mem => planned b (by simp [Chain.compiled, kind, mem])
    have rest := hyp' fun b mem => planned b (by simp [Chain.compiled, mem])
    simp only [Chain.compiled, kind, mem_append, mem_cons, or_and_right, exists_or, exists_eq_left, own, body,
      rest, or_assoc, or_left_comm]
  | ifElse b body otherwise rest cond affirmed denied checks checks' later checks'' kind compiled inner other following
    hyp hyp' hyp'' =>
    have own := condition_covers g typed v found declared checked false compiled (planned b (by simp [Chain.compiled]))
      (by simp [kind, evaluated])
    have body := hyp fun b mem => planned b (by simp [Chain.compiled, kind, mem])
    have denied := hyp' fun b mem => planned b (by simp [Chain.compiled, kind, mem])
    have rest := hyp'' fun b mem => planned b (by simp [Chain.compiled, mem])
    simp only [Chain.compiled, kind, mem_append, mem_cons, or_and_right, exists_or, exists_eq_left, own, body,
      denied, rest, or_assoc, or_left_comm]
  | whileLoop b body otherwise rest cond repeated checks later checks' kind compiled inner following hyp hyp' =>
    have own := condition_covers g typed v found declared checked true compiled (planned b (by simp [Chain.compiled]))
      (by simp [kind, evaluated])
    have body := hyp fun b mem => planned b (by simp [Chain.compiled, kind, mem])
    have rest := hyp' fun b mem => planned b (by simp [Chain.compiled, mem])
    simp only [Chain.compiled, kind, mem_append, mem_cons, or_and_right, exists_or, exists_eq_left, own, body,
      rest, or_assoc, or_left_comm]
  | forLoop b body otherwise rest repeated checks later checks' kind inner following hyp hyp' =>
    -- the bounds of a counting loop are never compiled
    have own : ¬ g.StatementTests v b := by simp [Graph.StatementTests, kind, evaluated]
    have body := hyp fun b mem => planned b (by simp [Chain.compiled, kind, mem])
    have rest := hyp' fun b mem => planned b (by simp [Chain.compiled, mem])
    simp only [Chain.compiled, kind, mem_append, mem_cons, or_and_right, exists_or, exists_eq_left, own, body,
      rest, false_or]

theorem WrittenHandler.covers {h : HandlerDraft} (written : WrittenHandler g b h checks)
    (planned : ∀ b' ∈ b :: (g.chainTree b.body).compiled, g.Planned b') :
    (∃ c ∈ checks, c.site.Covers g v) ↔ ∃ b' ∈ b :: (g.chainTree b.body).compiled, g.StatementTests v b' := by
  have inside := fun b' mem => planned b' (mem_cons_of_mem b mem)
  have own := planned b mem_cons_self
  cases written with
  | attached trigger body checks kind waits interrupt inner =>
    have quiet : ¬ g.StatementTests v b := by
      simpa [Graph.StatementTests, kind, evaluated] using interrupt_untested g v own waits interrupt
    rw [inner.covers g typed v found declared checked inside]
    simp [quiet]
  | polled trigger cond body checks kind waits other compiled inner =>
    have tests := condition_covers g typed v found declared checked true compiled own (by simp [kind, evaluated])
    have body := inner.covers g typed v found declared checked inside
    simp only [mem_append, mem_cons, or_and_right, exists_or, exists_eq_left, tests, body]
    exact or_comm

theorem WrittenHandlers.covers {ids : List BlockId} {hs : List HandlerDraft} (written : WrittenHandlers g ids hs checks)
    (planned : ∀ b ∈ g.handled ids, g.Planned b) :
    (∃ c ∈ checks, c.site.Covers g v) ↔ ∃ b ∈ g.handled ids, g.StatementTests v b := by
  induction written with
  | nil => simp [Graph.handled]
  | cons id rest b h hs checks checks' here first later hyp =>
    have handled : g.handled (id :: rest) = (b :: (g.chainTree b.body).compiled) ++ g.handled rest := by
      simp [Graph.handled, here]
    rw [handled] at planned ⊢
    have own := first.covers g typed v found declared checked fun b' mem => planned b' (mem_append_left _ mem)
    have rest := hyp fun b' mem => planned b' (mem_append_right _ mem)
    simp only [mem_append, or_and_right, exists_or, own, rest]

end Written

theorem covered_iff {document : Markup.Node} {p : Program} (read : Document.ofNode document = .ok g)
    (made : g.generate .always = .ok p) {v : Block} (found : g.block? v.id = some v) (declared : v.kind = .variableDecl)
    (checked : v.checked = true) : (∃ d ∈ p.guards, d.site.Covers g v) ↔ ∃ b ∈ g.statements, g.StatementTests v b := by
  obtain ⟨bp, reads, rfl⟩ := Document.of_node_reads read
  obtain ⟨d, state, drafted, recorded, -⟩ := bp.graph.generate_always made
  obtain ⟨start, checks, checks', here, main, handlers, met⟩ := Drafting.done_program drafted
  have planned := bp.statements_planned reads
  have typed := bp.graph_typed reads
  have parts : bp.graph.statements = (bp.graph.chainTree start.next).compiled ++
      bp.graph.handled bp.graph.handlers := by
    rw [Graph.statements, here, Option.elim_some]
  rw [← Graph.statements_read reads, parts] at planned
  have sites : (∃ d ∈ p.guards, d.site.Covers bp.graph v) ↔ ∃ c ∈ checks ++ checks', c.site.Covers bp.graph v := by
    have same : p.guards.map (·.site) = (checks ++ checks').map (·.site) := recorded.trans met
    have members := congrArg (fun sites => ∃ site ∈ sites, site.Covers bp.graph v) same
    simpa only [mem_map, exists_exists_and_eq_and, eq_iff_iff] using members
  have own := main.covers bp.graph typed v found declared checked fun b mem =>
    planned b (mem_append_left _ mem)
  have handled := handlers.covers bp.graph typed v found declared checked fun b mem =>
    planned b (mem_append_right _ mem)
  rw [sites, parts]
  simp only [mem_append, or_and_right, exists_or, own, handled]

-- A variable that asks for guards is reported as unguarded if it is neither an operand of a sum or difference nor a
-- divisor, and it is covered by a guard if such an operation is evaluated and, unless it divides, has a simple operand
-- beside it. Hence a warning is right, and none is missing exactly if the variable is in such a place whenever it is an
-- operand at all.
theorem unguarded_warning_exact (document : Markup.Node) (g : Graph) (p : Program)
    (read : Document.ofNode document = .ok g)
    (made : g.generate .always = .ok p) (v : Block) (found : g.block? v.id = some v) (declared : v.kind = .variableDecl)
    (checked : v.checked = true) :
    (g.Warned v ↔ ¬ ∃ op ∈ g.blocks.toList, g.Operates op v) ∧
      ((∃ d ∈ p.guards, d.site.Covers g v) ↔ ∃ op ∈ g.blocks.toList, g.Evaluates op ∧ g.Testable op v) ∧
      (g.Warned v → ¬ ∃ d ∈ p.guards, d.site.Covers g v) ∧
      ((g.Warned v ↔ ¬ ∃ d ∈ p.guards, d.site.Covers g v) ↔
        ((∃ op ∈ g.blocks.toList, g.Operates op v) → ∃ op ∈ g.blocks.toList, g.Evaluates op ∧ g.Testable op v)) := by
  have formed : g.WellFormed := by
    obtain ⟨bp, reads, same⟩ := Document.of_node_reads read
    exact same ▸ bp.graph_well_formed reads
  have warned : g.Warned v ↔ ¬ ∃ op ∈ g.blocks.toList, g.Operates op v := by
    rw [g.warned_iff v formed found declared checked]
    push Not
    rfl
  have covered : (∃ d ∈ p.guards, d.site.Covers g v) ↔ ∃ op ∈ g.blocks.toList, g.Evaluates op ∧ g.Testable op v := by
    rw [covered_iff read made found declared checked]
    constructor
    · rintro ⟨b, member, slot, evaluated, op, inside, testable⟩
      obtain ⟨id, here⟩ := g.term_blocks _ inside
      exact ⟨op, g.mem_block here, ⟨b, member, slot, evaluated, inside⟩, testable⟩
    · rintro ⟨op, -, ⟨b, member, slot, evaluated, inside⟩, testable⟩
      exact ⟨b, member, slot, evaluated, op, inside, testable⟩
  have operand : (∃ op ∈ g.blocks.toList, g.Evaluates op ∧ g.Testable op v) →
      ∃ op ∈ g.blocks.toList, g.Operates op v := by
    rintro ⟨op, member, -, testable⟩
    refine ⟨op, member, testable.imp (And.imp_right ?_) id⟩
    exact Or.imp And.left And.left
  rw [warned, covered]
  refine ⟨Iff.rfl, Iff.rfl, mt operand, ?_⟩
  rw [not_iff_not]
  exact ⟨Iff.mp, fun forth => ⟨forth, operand⟩⟩

def testedText : String :=
  "devices: [\x7bname: d, type: int\x7d]\nmain:\n- \x7bvar: x, type: int, checked: true\x7d\n" ++
    "- input: \x7bref: x\x7d\n- for: i\n  to: \x7badd: [\x7bref: x\x7d, \x7bdevice: d\x7d]\x7d\n  do:\n" ++
    "  - if: \x7blt: [\x7bsub: [\x7bref: i\x7d, \x7bref: x\x7d]\x7d, 9]\x7d\n    then: [\x7bprint: 1\x7d]\n"

set_option maxRecDepth 10000 in
theorem tested_compiles : ∃ g p v, Document.load testedText = .ok g ∧ g.generate .always = .ok p ∧
    g.block? v.id = some v ∧
    v.kind = .variableDecl ∧ v.checked = true ∧ v.name = "x" ∧ ∃ op ∈ g.blocks.toList, g.Evaluates op ∧
      g.Testable op v := by
  have shown : (Document.load testedText).toOption.bind
    (fun g => (g.generate .always).toOption.bind fun _ => (g.block? 1).map fun v =>
      decide (v.id = 1 ∧ v.kind = .variableDecl ∧ v.checked = true ∧ v.name = "x" ∧
        ∃ op ∈ g.blocks.toList, g.Evaluates op ∧ g.Testable op v)) = some true := by decide +kernel
  obtain ⟨g, loaded, shown⟩ := Option.bind_eq_some_iff.mp shown
  obtain ⟨p, made, shown⟩ := Option.bind_eq_some_iff.mp shown
  obtain ⟨v, found, shown⟩ := Option.map_eq_some_iff.mp shown
  obtain ⟨id, kind, checked, name, tested⟩ := of_decide_eq_true shown
  exact ⟨g, p, v, result_ok loaded, result_ok made, id ▸ found, kind, checked, name, tested⟩

theorem tested_variable_not_warned : ∃ g p v, Document.load testedText = .ok g ∧ g.generate .always = .ok p ∧
    g.block? v.id = some v ∧ v.name = "x" ∧ (∃ d ∈ p.guards, d.site.Covers g v) ∧ ¬ g.Warned v := by
  obtain ⟨g, p, v, loaded, made, found, kind, checked, name, tested⟩ := tested_compiles
  obtain ⟨document, -, read⟩ := Document.load_node loaded
  obtain ⟨-, covered, apart, -⟩ := unguarded_warning_exact document g p read made v found kind checked
  exact ⟨g, p, v, loaded, made, found, name, covered.mpr tested, fun warned => apart warned (covered.mpr tested)⟩

def untestedText : String :=
  "devices: [\x7bname: d, type: int\x7d]\nmain:\n- \x7bvar: x, type: int, checked: true\x7d\n" ++
    "- input: \x7bref: x\x7d\n- for: i\n" ++
    "  to: \x7badd: [\x7bref: x\x7d, 1]\x7d\n  do: [\x7bprint: \x7badd: [\x7bref: x\x7d, \x7bdevice: d\x7d]\x7d\x7d]\n"

set_option maxRecDepth 10000 in
theorem unguarded_without_warning :
    ((Document.load untestedText).toOption.bind fun g => (g.generate .always).toOption.map fun p =>
      ((g.blocks.toList.filter (·.checked)).map (·.name), p.guards, g.lint)) = some (["x"], [], []) := by
  decide +kernel

end Blockwork
