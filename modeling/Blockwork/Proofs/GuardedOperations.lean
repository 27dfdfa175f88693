import Blockwork.Proofs.GuardRemoval
import Blockwork.Proofs.ReadTrees

set_option autoImplicit false

namespace Blockwork

open List

variable {b : Block} {checks : List Check} {inHandler : Bool} {g : Graph} {pieces : List Piece} {sites : List GuardSite}

def Block.isSimple (b : Block) : Bool := b.isReference || (b.kind = .literal && b.number?.isSome)

namespace Graph

def asksForGuards (g : Graph) (b : Block) : Bool :=
  b.kind = .varRef && (g.decl? b).any fun d => d.kind = .variableDecl && d.checked

-- An operation that can go wrong: a sum or difference of a variable that asks for guards with something simple, or a
-- division by such a variable.
def guardable (g : Graph) (op left right : Block) : Bool :=
  match op.kind with
  | .add | .sub => (g.asksForGuards left && right.isSimple) || (g.asksForGuards right && left.isSimple)
  | .div | .mod => g.asksForGuards right
  | _ => false

def guardableWith (g : Graph) (op : Block) (first second : Term) : Bool :=
  match first.block?, second.block? with
  | some left, some right => g.guardable op left right
  | _, _ => false

end Graph

-- The guardable operations of an expression, each behind those inside it.
def Term.guarded (g : Graph) : Term → List Block
  | .missing => []
  | .node b first second => first.guarded g ++ second.guarded g ++ if g.guardableWith b first second then [b] else []

-- The slots whose values a statement uses, in the order in which they are evaluated. The bounds of a counting loop are
-- not used.
def Kind.evaluated : Kind → List Slot
  | .assign => [.value, .var]
  | .print => [.value]
  | .input => [.var]
  | .ifThen | .ifElse | .whileLoop | .when => [.cond]
  | _ => []

def Graph.operations (g : Graph) (b : Block) : List Block :=
  b.kind.evaluated.flatMap fun slot => (g.slotTerm b slot).guarded g

structure Check.Guards (inHandler : Bool) (op : Block) (c : Check) : Prop where
  block : c.site.block = op.id
  operation : c.site.op = op.kind
  kind : c.site.kind = if op.kind = .div ∨ op.kind = .mod then .zeroDivisor else .overflow
  lines : ∃ cond message, c.lines = guardLines inHandler cond message

namespace Setting

variable (s : Setting)

theorem checked_asks (b : Block) : (s.checkedDecl? b).isSome = s.graph.asksForGuards b := by
  unfold checkedDecl? Graph.asksForGuards
  by_cases reference : b.kind = .varRef
  · cases s.graph.decl? b with
    | none => simp
    | some d =>
      by_cases declared : d.kind = .variableDecl
      · cases asks : d.checked <;> simp [reference, declared, asks]
      · simp [declared]
  · simp [reference]

theorem guardable_of (left right : Block) (l r : Fragment) :
    (Guardable.of? s left right l r).isSome =
      ((s.graph.asksForGuards left && right.isSimple) || (s.graph.asksForGuards right && left.isSimple)) := by
  have simple : ∀ b :
      Block, b.isSimple = ((if b.kind = .literal then b.number? else none).isSome || b.isReference) := by
    intro b
    unfold Block.isSimple
    split_ifs with literal <;> simp [literal, Bool.or_comm]
  have named : ∀ b : Block, b.isReference = false → s.checkedDecl? b = none := by
    intro b other
    cases asks : s.checkedDecl? b with
    | none => rfl
    | some d => simp [Block.isReference, checked_reference asks] at other
  rw [← checked_asks, ← checked_asks, simple, simple]
  unfold Guardable.of?
  dsimp only
  cases asks : s.checkedDecl? left with
  | some d =>
    cases number : (if right.kind = .literal then right.number? else none) with
    | some v => simp
    | none =>
      cases reference : right.isReference with
      | true => simp
      | false => simp [named right reference]
  | none =>
    cases asks' : s.checkedDecl? right with
    | none => simp
    | some d =>
      cases number : (if left.kind = .literal then left.number? else none) with
      | some v => simp
      | none => cases reference : left.isReference <;> simp

variable {left right : Block} {names : Names}

-- A variable that asks for guards is a declared one, and so has a type.
theorem guardable_typed {l r : Fragment} {w : Guardable} (made : Guardable.of? s left right l r = some w) :
    ∃ id, s.graph.block? id = some w.decl ∧ w.decl.kind = .variableDecl := by
  have declared : ∀ b d, s.checkedDecl? b = some d → ∃ id, s.graph.block? id = some d ∧ d.kind = .variableDecl := by
    intro b d asks
    unfold checkedDecl? at asks
    split_ifs at asks
    obtain ⟨d', found, asks⟩ := Option.bind_eq_some_iff.mp asks
    split_ifs at asks with both
    cases asks
    exact ⟨b.decl, found, both.1⟩
  unfold Guardable.of? at made
  dsimp only at made
  split at made
  · next asks _ =>
      cases made
      exact declared _ _ asks
  · next asks _ =>
      split_ifs at made
      cases made
      exact declared _ _ asks
  · split at made
    · next asks _ =>
        cases made
        exact declared _ _ asks
    · next asks _ =>
        split_ifs at made
        cases made
        exact declared _ _ asks
    · cases made

variable (typed : ∀ id d, s.graph.block? id = some d → d.kind = .variableDecl → d.type.isSome = true)

include typed

theorem overflow_check_guards (l r : Fragment) (kind : b.kind = .add ∨ b.kind = .sub) :
    List.Forall₂ (Check.Guards s.inHandler) (if s.graph.guardable b left right then [b] else [])
      (s.overflowCheck? b left right l r).toList := by
  have same : s.graph.guardable b left right = (Guardable.of? s left right l r).isSome := by
    rw [guardable_of]
    rcases kind with kind | kind <;> simp [Graph.guardable, kind]
  rw [same]
  unfold overflowCheck?
  cases made : Guardable.of? s left right l r with
  | none => exact .nil
  | some w =>
    obtain ⟨id, found, declared⟩ := guardable_typed s made
    obtain ⟨type, has⟩ := Option.isSome_iff_exists.mp (typed id w.decl found declared)
    rw [Option.bind_some, has]
    refine .cons ⟨rfl, rfl, ?_, _, _, rfl⟩ .nil
    rcases kind with kind | kind <;> simp [kind]

omit typed in
theorem zero_check_guards (kind : b.kind = .div ∨ b.kind = .mod) :
    List.Forall₂ (Check.Guards s.inHandler) (if s.graph.guardable b left right then [b] else [])
      (s.zeroCheck? b left right).toList := by
  have same : s.graph.guardable b left right = (s.checkedDecl? right).isSome := by
    rw [checked_asks]
    rcases kind with kind | kind <;> simp [Graph.guardable, kind]
  rw [same]
  unfold zeroCheck?
  cases made : s.checkedDecl? right with
  | none => exact .nil
  | some d => exact .cons ⟨rfl, rfl, by simp [kind], _, _, rfl⟩ .nil

omit typed in
theorem operands_missing {content : Content} {first second : Term} (saying : Expression names content first second) :
    (content.kind = .literal ∨ content.kind = .varRef ∨ content.kind = .indexRef ∨ content.kind = .deviceRef ∨
      content.kind = .interrupt → first = .missing ∧ second = .missing) ∧
      (content.kind = .not ∨ content.litIndex ≠ none → second = .missing) := by
  cases saying with
  | operation kind c first second slots fits fits' => cases kind <;> simp [Kind.slots] at slots ⊢
  | reference e found named => split_ifs <;> simp
  | _ => simp

theorem tested_guarded {t : Term} (tested : s.Tested t checks) (k : Nat) (reads : t.Reads names k) :
    List.Forall₂ (Check.Guards s.inHandler) (t.guarded s.graph) checks := by
  have plain : ∀ (b : Block) (first second : Term), b.kind ∉ [.add, .sub, .div, .mod] →
      s.graph.guardableWith b first second = false := by
    intro b first second other
    simp only [mem_cons, not_mem_nil, or_false, not_or] at other
    unfold Graph.guardableWith Graph.guardable
    split
    · split <;> simp_all
    · rfl
  induction tested generalizing k with
  | leaf b first second kind =>
    obtain ⟨rfl, rfl⟩ := (operands_missing reads.2.1).1 (by tauto)
    exact .nil
  | single b first second checks alone inner hyp =>
    obtain rfl := (operands_missing reads.2.1).2 (alone.imp id And.right)
    rw [Term.guarded, plain b _ _ (by rcases alone with kind | ⟨kind, -⟩ <;> simp [kind]), if_neg Bool.false_ne_true,
      Term.guarded, append_nil, append_nil]
    exact hyp _ reads.2.2.1
  | plain b first second checks checks' kind inner inner' hyp hyp' =>
    rw [Term.guarded, plain b _ _ kind, if_neg Bool.false_ne_true, append_nil]
    exact rel_append (hyp _ reads.2.2.1) (hyp' _ reads.2.2.2)
  | sum b first second left right l r kind top top' inner inner' hyp hyp' =>
    rw [Term.guarded, Graph.guardableWith, top, top']
    exact rel_append (rel_append (hyp _ reads.2.2.1) (hyp' _ reads.2.2.2)) (overflow_check_guards s typed l r kind)
  | division b first second left right l r kind top top' inner inner' hyp hyp' =>
    rw [Term.guarded, Graph.guardableWith, top, top']
    exact rel_append (rel_append (hyp _ reads.2.2.1) (hyp' _ reads.2.2.2)) (zero_check_guards s kind)

end Setting

-- The guards of a statement: one for each of its guardable operations, in their order.
def Graph.GuardRun (g : Graph) (inHandler : Bool) (b : Block) (repeated : Bool) (guards : List Check) : Prop :=
  List.Forall₂ (fun op c => Check.Guards inHandler op c ∧ c.site.statement = b.id ∧ c.site.repeated = repeated)
    (g.operations b) guards

theorem hoisted_run (b : Block) (repeated : Bool) {ops : List Block}
    (guards : List.Forall₂ (Check.Guards inHandler) ops checks) :
    List.Forall₂ (fun op c => Check.Guards inHandler op c ∧ c.site.statement = b.id ∧ c.site.repeated = repeated) ops
      (hoisted b repeated checks) := by
  induction guards with
  | nil => exact .nil
  | cons first rest hyp => exact .cons ⟨⟨first.block, first.operation, first.kind, first.lines⟩, rfl, rfl⟩ hyp

def GuardSite.stand (site : GuardSite) : Nat × Nat := (site.statement, site.block)

def Graph.stands (g : Graph) (b : Block) : List (Nat × Nat) := (g.operations b).map fun op => (b.id, op.id)

theorem Graph.GuardRun.stands {repeated : Bool} {guards : List Check} (run : g.GuardRun inHandler b repeated guards) :
    (guards.map (·.site)).map GuardSite.stand = g.stands b := by
  unfold Graph.GuardRun at run
  unfold Graph.stands
  generalize g.operations b = ops at run ⊢
  induction run with
  | nil => rfl
  | cons first rest hyp =>
    obtain ⟨guards, statement, -⟩ := first
    simpa [GuardSite.stand, statement, guards.block] using hyp

-- How statements stand in a program. The guards of a statement stand together directly ahead of its own lines, and
-- those of a loop once more at the end of its body.
inductive Laid (g : Graph) (inHandler : Bool) : Chain → List Piece → List GuardSite → Prop
  | nil : Laid g inHandler .nil [] []
  | simple (b : Block) (body otherwise rest : Chain) (guards : List Check) (lines later : List Piece)
      (sites : List GuardSite) (kind : b.kind = .variableDecl ∨ b.kind = .assign ∨ b.kind = .print ∨ b.kind = .input)
      (run : g.GuardRun inHandler b false guards) (own : lines ≠ [] ∧ checksOf lines = [])
      (following : Laid g inHandler rest later sites) :
      Laid g inHandler (.cons b body otherwise rest) (guards.map (.guard 0) ++ lines ++ later)
        (guards.map (·.site) ++ sites)
  | ifThen (b : Block) (body otherwise rest : Chain) (guards : List Check) (code : String) (inner later : List Piece)
      (sites sites' : List GuardSite) (kind : b.kind = .ifThen) (run : g.GuardRun inHandler b false guards)
      (within : Laid g inHandler body inner sites) (following : Laid g inHandler rest later sites') :
      Laid g inHandler (.cons b body otherwise rest)
        (enclosing (guards.map (.guard 0)) ("if (" ++ code ++ ") \x7b") inner "\x7d" ++ later)
        (sites ++ guards.map (·.site) ++ sites')
  | ifElse (b : Block) (body otherwise rest : Chain) (guards : List Check) (code : String)
      (inner other later : List Piece)
      (sites sites' sites'' : List GuardSite) (kind : b.kind = .ifElse) (run : g.GuardRun inHandler b false guards)
      (within : Laid g inHandler body inner sites) (within' : Laid g inHandler otherwise other sites')
      (following : Laid g inHandler rest later sites'') :
      Laid g inHandler (.cons b body otherwise rest)
        (enclosing (guards.map (.guard 0)) ("if (" ++ code ++ ") \x7b") inner "\x7d else \x7b" ++ other.map
          (·.indented) ++ [Piece.line 0 "\x7d"] ++ later)
        (sites ++ guards.map (·.site) ++ sites' ++ sites'')
  | whileLoop (b : Block) (body otherwise rest : Chain) (guards : List Check) (code : String) (inner later : List Piece)
      (sites sites' : List GuardSite) (kind : b.kind = .whileLoop) (run : g.GuardRun inHandler b true guards)
      (within : Laid g inHandler body inner sites) (following : Laid g inHandler rest later sites') :
      Laid g inHandler (.cons b body otherwise rest)
        (enclosing (guards.map (.guard 0)) ("while (" ++ code ++ ") \x7b")
          (inner ++ guards.map (.guard 0)) "\x7d" ++ later)
        (sites ++ guards.map (·.site) ++ sites')
  | forLoop (b : Block) (body otherwise rest : Chain) (inner later : List Piece) (sites sites' : List GuardSite)
      (kind : b.kind = .forLoop) (within : Laid g inHandler body inner sites)
      (following : Laid g inHandler rest later sites') :
      Laid g inHandler (.cons b body otherwise rest) (enclosing [] "for (;true;) \x7b" inner "\x7d" ++ later)
        (sites ++ sites')

-- A handler that is polled tests its condition behind the guards; one for an interrupt has no guards of its own.
inductive LaidHandler (g : Graph) (b : Block) : List Piece → List GuardSite → Prop
  | attached (trigger : Block) (lines inner : List Piece) (sites : List GuardSite)
      (waits : g.slotBlock? b .cond = some trigger)
      (interrupt : trigger.kind = .interrupt) (quiet : g.operations b = []) (own : checksOf lines = [])
      (within : Laid g true (g.chainTree b.body) inner sites) : LaidHandler g b (lines ++ inner) sites
  | polled (trigger : Block) (guards : List Check) (code : String) (lines inner : List Piece) (sites : List GuardSite)
      (waits : g.slotBlock? b .cond = some trigger) (other : trigger.kind ≠ .interrupt)
      (run : g.GuardRun true b true guards)
      (own : checksOf lines = []) (within : Laid g true (g.chainTree b.body) inner sites) :
      LaidHandler g b (enclosing (guards.map (.guard 0)) ("if (" ++ code ++ ") \x7b") (lines ++ inner) "\x7d")
        (sites ++ guards.map (·.site))

inductive LaidHandlers (g : Graph) : List BlockId → List HandlerDraft → List GuardSite → Prop
  | nil : LaidHandlers g [] [] []
  | cons (id : BlockId) (rest : List BlockId) (b : Block) (h : HandlerDraft) (hs : List HandlerDraft)
      (sites sites' : List GuardSite) (found : g.block? id = some b) (first : LaidHandler g b h.draft.pieces sites)
      (later : LaidHandlers g rest hs sites') :
      LaidHandlers g (id :: rest) (h :: hs) (sites ++ sites')

theorem Laid.stands {c : Chain} (laid : Laid g inHandler c pieces sites) :
    (sites.map GuardSite.stand).Perm (c.compiled.flatMap g.stands) := by
  induction laid with
  | nil => exact .nil
  | simple b body otherwise rest guards lines later sites kind run own following hyp =>
    have compiled : (Chain.cons b body otherwise rest).compiled = b :: rest.compiled := by
      rcases kind with kind | kind | kind | kind <;> simp [Chain.compiled, kind]
    rw [compiled, map_append, run.stands, flatMap_cons]
    exact hyp.append_left _
  | ifThen b body otherwise rest guards code inner later sites sites' kind run within following hyp hyp' =>
    simp only [Chain.compiled, kind, map_append, run.stands, flatMap_cons, flatMap_append]
    rw [append_assoc]
    exact (perm_append_comm_assoc _ _ _).trans ((hyp.append hyp').append_left _)
  | ifElse b body otherwise rest guards code inner other later sites sites' sites'' kind run within within'
    following hyp hyp' hyp'' =>
      simp only [Chain.compiled, kind, map_append, run.stands, flatMap_cons, flatMap_append, append_assoc]
      exact (perm_append_comm_assoc _ _ _).trans ((hyp.append (hyp'.append hyp'')).append_left _)
  | whileLoop b body otherwise rest guards code inner later sites sites' kind run within following hyp hyp' =>
    simp only [Chain.compiled, kind, map_append, run.stands, flatMap_cons, flatMap_append]
    rw [append_assoc]
    exact (perm_append_comm_assoc _ _ _).trans ((hyp.append hyp').append_left _)
  | forLoop b body otherwise rest inner later sites sites' kind within following hyp hyp' =>
    have none : g.stands b = [] := by simp [Graph.stands, Graph.operations, kind, Kind.evaluated]
    simp only [Chain.compiled, kind, map_append, flatMap_cons, flatMap_append, none, nil_append]
    exact hyp.append hyp'

theorem LaidHandler.stands (laid : LaidHandler g b pieces sites) :
    (sites.map GuardSite.stand).Perm (g.stands b ++ (g.chainTree b.body).compiled.flatMap g.stands) := by
  cases laid with
  | attached trigger lines inner _ waits interrupt quiet own within =>
    rw [Graph.stands, quiet]
    exact within.stands
  | polled trigger guards code lines inner sites waits other run own within =>
    rw [map_append, run.stands]
    exact perm_append_comm.trans (within.stands.append_left _)

theorem LaidHandlers.stands {ids : List BlockId} {hs : List HandlerDraft} (laid : LaidHandlers g ids hs sites) :
    (sites.map GuardSite.stand).Perm ((g.handled ids).flatMap g.stands) := by
  induction laid with
  | nil => exact .nil
  | cons id rest b h hs sites sites' found first later hyp =>
    simp only [Graph.handled, flatMap_cons, found, Option.elim_some, map_append, flatMap_append]
    exact (first.stands).append hyp

section Written

variable (g : Graph) (typed : ∀ id d, g.block? id = some d → d.kind = .variableDecl → d.type.isSome = true)

include typed

theorem compiled_guarded {slot : Slot} {f : Fragment} (compiled : g.Compiled inHandler b slot f)
    (read : ∃ names k, (g.slotTerm b slot).Reads names k) :
    List.Forall₂ (Check.Guards inHandler) ((g.slotTerm b slot).guarded g) f.checks := by
  obtain ⟨scopes, scope, compiled⟩ := compiled
  obtain ⟨names, k, reads⟩ := read
  exact Setting.tested_guarded ⟨g, scopes, scope, inHandler⟩ typed (Setting.compiles_tested compiled) k reads

theorem condition_run (repeated : Bool) {cond : Fragment} (compiled : g.Compiled inHandler b .cond cond)
    (read : ∃ names k, (g.slotTerm b .cond).Reads names k) (tests : b.kind.evaluated = [.cond]) :
    g.GuardRun inHandler b repeated (hoisted b repeated cond.checks) := by
  have run := hoisted_run b repeated (compiled_guarded g typed compiled read)
  simpa [Graph.GuardRun, Graph.operations, tests] using run

variable {d : Draft}

theorem simple_laid (written : WrittenSimple g inHandler b d checks)
    (read : ∀ slot, ∃ names k, (g.slotTerm b slot).Reads names k) :
    ∃ lines, d.pieces = checks.map (.guard 0) ++ lines ∧ lines ≠ [] ∧ checksOf lines = [] ∧
      g.GuardRun inHandler b false checks ∧
      (b.kind = .variableDecl ∨ b.kind = .assign ∨ b.kind = .print ∨ b.kind = .input) := by
  cases written with
  | declaration type kind has =>
    refine ⟨_, rfl, by simp, rfl, ?_, .inl kind⟩
    simp [Graph.GuardRun, Graph.operations, kind, Kind.evaluated]
  | assignment value target kind compiled compiled' =>
    have both := rel_append (compiled_guarded g typed compiled (read _))
      (compiled_guarded g typed compiled' (read _))
    have run := hoisted_run b false both
    refine ⟨_, rfl, by simp, rfl, ?_, .inr (.inl kind)⟩
    simpa [Graph.GuardRun, Graph.operations, kind, Kind.evaluated] using run
  | output value kind compiled =>
    have run := hoisted_run b false (compiled_guarded g typed compiled (read _))
    refine ⟨_, rfl, by simp, rfl, ?_, .inr (.inr (.inl kind))⟩
    simpa [Graph.GuardRun, Graph.operations, kind, Kind.evaluated] using run
  | input target kind compiled =>
    have run := hoisted_run b false (compiled_guarded g typed compiled (read _))
    refine ⟨Drafting.inputLines target, rfl, ?_, ?_, ?_, .inr (.inr (.inr kind))⟩
    · unfold Drafting.inputLines
      split_ifs <;> simp
    · unfold Drafting.inputLines
      split_ifs <;> rfl
    · simpa [Graph.GuardRun, Graph.operations, kind, Kind.evaluated] using run

theorem Written.laid {c : Chain} (written : Written g inHandler c d checks)
    (read : ∀ b ∈ c.compiled, ∀ slot, ∃ names k, (g.slotTerm b slot).Reads names k) :
    Laid g inHandler c d.pieces (checks.map (·.site)) := by
  induction written with
  | nil => exact .nil
  | simple b body otherwise rest first later checks checks' simple following hyp =>
    obtain ⟨lines, same, some, quiet, run, kind⟩ := simple_laid g typed simple
      (read b (by simp [Chain.compiled]))
    rw [map_append, Draft.append, same]
    exact .simple b body otherwise rest checks lines _ _ kind run ⟨some, quiet⟩
      (hyp fun b mem => read b (by simp [Chain.compiled, mem]))
  | ifThen b body otherwise rest cond affirmed checks later checks' kind compiled inner following hyp hyp' =>
    have run := condition_run g typed false compiled (read b (by simp [Chain.compiled]) _)
      (by simp [kind, Kind.evaluated])
    rw [map_append, map_append]
    exact .ifThen b body otherwise rest _ _ _ _ _ _ kind run
      (hyp fun b mem => read b (by simp [Chain.compiled, kind, mem]))
      (hyp' fun b mem => read b (by simp [Chain.compiled, mem]))
  | ifElse b body otherwise rest cond affirmed denied checks checks' later checks'' kind compiled inner other following
    hyp hyp' hyp'' =>
    have run := condition_run g typed false compiled (read b (by simp [Chain.compiled]) _)
      (by simp [kind, Kind.evaluated])
    rw [map_append, map_append, map_append]
    exact .ifElse b body otherwise rest _ _ _ _ _ _ _ _ kind run
      (hyp fun b mem => read b (by simp [Chain.compiled, kind, mem]))
      (hyp' fun b mem => read b (by simp [Chain.compiled, kind, mem]))
        (hyp'' fun b mem => read b (by simp [Chain.compiled, mem]))
  | whileLoop b body otherwise rest cond repeated checks later checks' kind compiled inner following hyp hyp' =>
    have run := condition_run g typed true compiled (read b (by simp [Chain.compiled]) _)
      (by simp [kind, Kind.evaluated])
    rw [map_append, map_append]
    exact .whileLoop b body otherwise rest _ _ _ _ _ _ kind run
      (hyp fun b mem => read b (by simp [Chain.compiled, kind, mem]))
      (hyp' fun b mem => read b (by simp [Chain.compiled, mem]))
  | forLoop b body otherwise rest repeated checks later checks' kind inner following hyp hyp' =>
    rw [map_append]
    exact .forLoop b body otherwise rest _ _ _ _ kind (hyp fun b mem => read b (by simp [Chain.compiled, kind, mem]))
      (hyp' fun b mem => read b (by simp [Chain.compiled, mem]))

theorem WrittenHandler.laid {h : HandlerDraft} (written : WrittenHandler g b h checks)
    (read : ∀ b' ∈ b :: (g.chainTree b.body).compiled, ∀ slot, ∃ names k, (g.slotTerm b' slot).Reads names k) :
    LaidHandler g b h.draft.pieces (checks.map (·.site)) := by
  have counted : checksOf (counterLines b.times) = [] := by
    unfold counterLines
    split_ifs <;> rfl
  have inside : ∀ b' ∈ (g.chainTree b.body).compiled, ∀ slot, ∃ names k, (g.slotTerm b' slot).Reads names k :=
    fun b' mem => read b' (mem_cons_of_mem b mem)
  cases written with
  | attached trigger body checks kind waits interrupt inner =>
    refine .attached trigger _ _ _ waits interrupt ?_ counted (inner.laid g typed inside)
    obtain ⟨names, k, reads⟩ := read b mem_cons_self .cond
    have quiet : (g.slotTerm b .cond).guarded g = [] := by
      unfold Graph.slotTerm Graph.term at reads ⊢
      cases size : g.size with
      | zero => rfl
      | succ fuel =>
        have found : g.block? (b.slot .cond) = some trigger := waits
        rw [size, Graph.termFrom, found] at reads
        rw [Graph.termFrom, found]
        obtain ⟨first, second⟩ := (Setting.operands_missing reads.2.1).1 (by simp [Block.content, interrupt])
        dsimp only
        rw [first, second]
        rfl
    simp [Graph.operations, kind, Kind.evaluated, quiet]
  | polled trigger cond body checks kind waits other compiled inner =>
    have run := condition_run g typed true compiled (read b mem_cons_self _) (by simp [kind, Kind.evaluated])
    rw [map_append]
    exact .polled trigger _ _ _ _ _ waits other run counted (inner.laid g typed inside)

theorem WrittenHandlers.laid {ids : List BlockId} {hs : List HandlerDraft} (written : WrittenHandlers g ids hs checks)
    (read : ∀ b ∈ g.handled ids, ∀ slot, ∃ names k, (g.slotTerm b slot).Reads names k) :
    LaidHandlers g ids hs (checks.map (·.site)) := by
  induction written with
  | nil => exact .nil
  | cons id rest b h hs checks checks' found first later hyp =>
    simp only [Graph.handled, flatMap_cons, found, Option.elim_some] at read
    rw [map_append]
    exact .cons id rest b h hs _ _ found (first.laid g typed fun b' mem => read b' (mem_append_left _ mem))
      (hyp fun b' mem => read b' (mem_append_right _ mem))

end Written

end Blockwork
