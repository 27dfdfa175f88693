import Blockwork.Proofs.AnalysisSound
import Blockwork.Proofs.Forest

set_option autoImplicit false

namespace Blockwork

open Document List

variable {id next : Nat} {b : Block}

namespace Expr

-- A condition that consists of facts in order. Of no facts it is true.
def Conjoins (e : Expr) (facts : List Expr) : Prop := (facts = [] → e = .truth true) ∧ (facts ≠ [] → e.parts = facts)

theorem parts_ne_nil (e : Expr) : e.parts ≠ [] := by
  cases e with
  | binary op l r =>
    by_cases conjunction : op = .and
    · rw [conjunction, parts_and]
      simp [parts_ne_nil l]
    · simp [parts, collate, conjunction]
  | _ => simp [parts, collate]

variable {facts : List Expr}

theorem conjoins_conjoin (known cond : Expr) (plain : .truth true ∉ facts) (holds : known.Conjoins facts) :
    (Constraints.conjoin known cond).Conjoins (facts ++ cond.parts) := by
  refine ⟨fun none => absurd (append_eq_nil_iff.mp none).2 cond.parts_ne_nil, fun _ => ?_⟩
  by_cases none : facts = []
  · rw [holds.1 none, none]
    rfl
  · have parts := holds.2 none
    unfold Constraints.conjoin
    split
    · exact absurd (parts ▸ mem_singleton_self _) plain
    · rw [parts_and, parts]

theorem conjoins_conjoined (ps : List Expr) (known : Expr) (facts : List Expr) (plain : .truth true ∉ facts ++ ps)
    (whole : ∀ p ∈ ps, p.parts = [p]) (holds : known.Conjoins facts) :
    (ps.foldl Constraints.conjoin known).Conjoins (facts ++ ps) := by
  induction ps generalizing known facts with
  | nil => simpa using holds
  | cons p rest hyp =>
    have step := conjoins_conjoin known p (fun mem => plain (mem_append_left _ mem)) holds
    rw [whole p mem_cons_self] at step
    rw [append_cons] at plain ⊢
    exact hyp _ _ plain (fun q mem => whole q (mem_cons_of_mem p mem)) step

theorem conjoins_without (name : String) {e : Expr} (plain : .truth true ∉ facts) (holds : e.Conjoins facts) :
    (Constraints.without name e).Conjoins (facts.filter (!·.mentions name)) := by
  by_cases none : facts = []
  · rw [none, holds.1 none]
    exact ⟨fun _ => rfl, fun some => absurd rfl some⟩
  · have parts := holds.2 none
    unfold Constraints.without
    split_ifs with mentioned
    · have left := conjoins_conjoined (facts.filter (!·.mentions name)) (.truth true) []
        (fun mem => plain (mem_of_mem_filter mem))
        (fun p mem => (parts_part (parts ▸ mem_of_mem_filter mem)).1) ⟨fun _ => rfl, fun some => absurd rfl some⟩
      rw [← parts] at left ⊢
      exact left
    · have all : facts.filter (!·.mentions name) = facts := by
        rw [filter_eq_self]
        intro p mem
        have absent := (e.mentions_false name).mp (by simpa using mentioned)
        have free := (p.mentions_false name).mpr fun r inside => absent r ((parts_part (parts ▸ mem)).2 r inside)
        simp [free]
      rw [all]
      exact holds

theorem names_first (rs : List Reference) : ((firstOfEachName rs).map (·.name)).Nodup := by
  induction rs with
  | nil => exact nodup_nil
  | cons r rest hyp =>
    rw [firstOfEachName, map_cons, nodup_cons]
    exact ⟨by simp, hyp.sublist (List.Sublist.map _ filter_sublist)⟩

theorem any_first (rs : List Reference) (name : String) :
    (firstOfEachName rs).any (·.name = name) = rs.any (·.name = name) := by
  induction rs with
  | nil => rfl
  | cons r rest hyp =>
    rw [firstOfEachName, any_cons, any_cons, ← hyp]
    by_cases same : r.name = name
    · simp [same]
    · simp only [same, decide_false, Bool.false_or, any_filter]
      refine any_congr rfl fun q => ?_
      by_cases here : q.name = name
      · simp [here, Ne.symm same]
      · simp [here]

end Expr

namespace Constraints

-- What is known about a name. About a name that is not filed nothing is.
def about (c : Constraints) (v : String) : Expr := (c.get? v).elim (.truth true) (·.expr)

variable (c : Constraints)

theorem about_set (name v : String) (k : Constraint) :
    about (c.set name k) v = if v = name then k.expr else c.about v := by
  unfold about
  split_ifs with same
  · rw [same, Named.get_set_self, Option.elim_some]
  · rw [Named.get_set_other _ _ same]

theorem about_assign (name v : String) (type : Option ValueType) :
    (c.assign name type).about v = if v = name then .truth true else without name (c.about v) := by
  unfold about
  rw [get_assign]
  split_ifs with same
  · rfl
  · cases c.get? v <;> rfl

theorem about_restrict (cond : Expr) (v : String) :
    (c.restrict cond).about v = if cond.mentions v then conjoin (c.about v) cond else c.about v := by
  unfold restrict
  rw [show cond.mentions v = cond.refs.any (·.name = v) from (Expr.any_first cond.occurrences v).symm]
  have apart : (cond.refs.map (·.name)).Nodup := Expr.names_first cond.occurrences
  generalize cond.refs = rs at apart
  induction rs generalizing c with
  | nil => rfl
  | cons r rest hyp =>
    obtain ⟨fresh, apart⟩ := nodup_cons.mp apart
    rw [foldl_cons, hyp _ apart, any_cons, about_set]
    by_cases same : v = r.name
    · subst same
      have absent : rest.any (·.name = r.name) = false := by
        rw [any_eq_false]
        intro q mem here
        exact fresh (mem_map.mpr ⟨q, mem, by simpa using here⟩)
      simp only [absent, decide_true, Bool.true_or, if_true, Bool.false_eq_true, if_false, about]
      cases c.get? r.name <;> rfl
    · simp [same, Ne.symm same]

-- The constraints are made of these facts, name by name.
def Records (c : Constraints) (facts : String → List Expr) : Prop :=
  ∀ v, .truth true ∉ facts v ∧ (c.about v).Conjoins (facts v)

end Constraints

-- A fact filed under a name is kept when some names get values, if it is not filed under and does not mention one of
-- them.
def Expr.outlives (names : List String) (v : String) (p : Expr) : Bool := names.all fun n => n ≠ v && !p.mentions n

namespace Expr

variable (v : String) (facts : List Expr)

@[simp] theorem filter_nothing : facts.filter (outlives [] v) = facts := filter_true facts

theorem filter_append (names later : List String) :
    facts.filter (outlives (names ++ later) v) = (facts.filter (outlives names v)).filter (outlives later v) := by
  rw [filter_filter]
  congr
  funext p
  simp [outlives, Bool.and_comm]

theorem outlives_congr {names others : List String} (same : ∀ n, n ∈ names ↔ n ∈ others) :
    outlives names v = outlives others v := by
  funext p
  rw [outlives, outlives, Bool.eq_iff_iff, all_eq_true, all_eq_true]
  exact forall_congr' fun n => imp_congr_left (same n)

end Expr

namespace Constraints

variable (c : Constraints) (facts : String → List Expr)

theorem records_nothing : Records [] fun _ => [] :=
  fun _ => ⟨not_mem_nil, fun _ => rfl, fun some => absurd rfl some⟩

variable (name : String) (type : Option ValueType)

theorem records_true (recorded : c.Records fun _ => []) :
    Records (c.set name ⟨.truth true, type⟩) fun _ => [] := by
  refine fun v => ⟨not_mem_nil, fun _ => ?_, fun some => absurd rfl some⟩
  rw [about_set]
  split_ifs
  · rfl
  · exact (recorded v).2.1 rfl

theorem records_assign (recorded : c.Records facts) :
    (c.assign name type).Records fun v => (facts v).filter (Expr.outlives [name] v) := by
  intro v
  obtain ⟨plain, holds⟩ := recorded v
  refine ⟨fun mem => plain (mem_of_mem_filter mem), ?_⟩
  rw [about_assign]
  dsimp only
  split_ifs with same
  · have none : (facts v).filter (Expr.outlives [name] v) = [] := by simp [Expr.outlives, same]
    rw [none]
    exact ⟨fun _ => rfl, fun some => absurd rfl some⟩
  · have other : Expr.outlives [name] v = fun p => !p.mentions name := by
      funext p
      simp [Expr.outlives, Ne.symm same]
    rw [other]
    exact Expr.conjoins_without name plain holds

theorem records_equality (number : Number) (fresh : facts name = [])
    (recorded : c.Records facts) :
    Records (c.set name ⟨.eq (.ref ⟨name, type⟩) (.num number), type⟩) fun v =>
      facts v ++ if name = v then [Expr.eq (.ref ⟨name, type⟩) (.num number)] else [] := by
  intro v
  rw [about_set]
  dsimp only
  by_cases same : v = name
  · simp [same, fresh, Expr.Conjoins, Expr.parts, Expr.collate]
  · simpa [same, Ne.symm same] using recorded v

theorem records_restrict {cond : Expr} (plain : .truth true ∉ cond.parts) (recorded : c.Records facts) :
    (c.restrict cond).Records fun v => facts v ++ if cond.mentions v then cond.parts else [] := by
  intro v
  obtain ⟨others, holds⟩ := recorded v
  rw [about_restrict]
  dsimp only
  split_ifs with mentioned
  · exact ⟨fun mem => (mem_append.mp mem).elim others plain, Expr.conjoins_conjoin _ _ others holds⟩
  · rw [append_nil]
    exact ⟨others, holds⟩

end Constraints

def Graph.givenBy (g : Graph) (b : Block) : List String :=
  if b.kind = .assign ∨ b.kind = .input then ((g.target? b).map Prod.fst).toList else []

def Chain.given (g : Graph) : Chain → List String
  | .nil => []
  | .cons b body otherwise rest => g.givenBy b ++ body.given g ++ otherwise.given g ++ rest.given g

namespace Graph

variable (g : Graph)

-- The names that may have a new value after a step: that of a declaration, the target of an assignment or input, the
-- index of a loop that is entered, and all that the body of a loop gives a value to, also when the loop is left.
def resets (s : Step) : List String :=
  match s.block.kind with
  | .variableDecl => [s.block.name]
  | .assign | .input => g.givenBy s.block
  | .whileLoop => (g.chainTree s.block.body).given g
  | .forLoop => (if s.next = s.block.body then [s.block.name] else []) ++ (g.chainTree s.block.body).given g
  | _ => []

def equality? (b : Block) : Option Expr :=
  (g.target? b).bind fun target =>
    (g.slotBlock? b .value).bind fun value =>
      if value.kind = .literal then value.number?.map fun v => .eq (.ref ⟨target.1, target.2⟩) (.num v) else none

-- What a step says: into the body that the condition of the statement holds, past it that it does not. An interrupt has
-- no condition.
def fact? (s : Step) : Option Expr :=
  match s.block.kind with
  | .ifThen | .ifElse | .whileLoop | .when =>
    (g.compose (s.block.slot .cond)).toOption.map fun cond => if s.next = s.block.body then cond else .neg cond
  | .assign => g.equality? s.block
  | _ => none

-- What a step says about a name, in parts. A condition is filed as a whole under every name in it.
def learned (v : String) (s : Step) : List Expr := (g.fact? s).elim [] fun e => if e.mentions v then e.parts else []

-- What is said about a name on the way and still holds at its end: no later step gives a value to the name, or to one
-- that is mentioned.
def surviving (v : String) : List Step → List Expr
  | [] => []
  | s :: rest => (g.learned v s).filter (fun p => rest.all fun t => Expr.outlives (g.resets t) v p) ++ surviving v rest

theorem surviving_append (v : String) (way : List Step) (s : Step) :
    g.surviving v (way ++ [s]) = (g.surviving v way).filter (Expr.outlives (g.resets s) v) ++ g.learned v s := by
  induction way with
  | nil => simp [surviving]
  | cons first rest hyp =>
    rw [cons_append, surviving, surviving, hyp, filter_append, filter_filter, append_assoc]
    simp [all_append, Bool.and_comm]

end Graph

namespace Graph.WellFormed

variable (g : Graph) (formed : g.WellFormed)

include formed

theorem slot_fits {m : Block} {s : Slot} {c : Category} (found : g.block? id = some b)
    (accepts : b.kind.accepts? s = some c) (filled : g.block? (b.slot s) = some m) : m.kind.category = c := by
  obtain ⟨apart, fits⟩ := formed.slots b (g.mem_block found)
  by_cases listed : s ∈ b.slots.map Prod.fst
  · obtain ⟨p, mem, rfl⟩ := mem_map.mp listed
    obtain ⟨c', m', accepts', target, category⟩ := fits p mem
    rw [b.slot_own apart mem, target] at filled
    cases filled
    rw [accepts] at accepts'
    cases accepts'
    exact category
  · rw [b.slot_empty s listed] at filled
    cases filled

theorem condition_plain (fuel id : Nat) (m : Block) (found : g.block? id = some m)
    (predicate : m.kind.category = .predicate)
    (e : Expr) (composed : g.composeTerm (g.termFrom fuel id) = .ok e) : .truth true ∉ e.parts := by
  induction fuel generalizing id m e with
  | zero => cases composed
  | succ fuel hyp =>
    rw [termFrom, found] at composed
    have operand : ∀ s, m.kind.accepts? s = some .predicate → ∀ l, g.composeTerm (g.termFrom fuel (m.slot s)) = .ok l →
        .truth true ∉ l.parts := by
      intro s accepts l made
      cases filled : g.block? (m.slot s) with
      | none =>
        cases fuel with
        | zero => cases made
        | succ fuel =>
          rw [termFrom, filled] at made
          cases made
      | some m' => exact hyp _ m' filled (formed.slot_fits g found accepts filled) l made
    rcases g.compose_cases composed with ⟨l, -, -, rfl⟩ |
      ⟨l, r, left, right, ⟨-, rfl⟩ | ⟨-, rfl⟩ | ⟨op, operator, rfl⟩⟩ | leaf
    · simp [Expr.parts, Expr.collate]
    · simp [Expr.parts, Expr.collate]
    · simp [Expr.parts, Expr.collate]
    · by_cases conjunction : op = .and
      · rw [conjunction] at operator ⊢
        have kind : m.kind = .and := by cases kind : m.kind <;> simp_all [Kind.operator?]
        rw [kind] at left right
        rw [Expr.parts_and, mem_append, not_or]
        exact ⟨operand .left (by rw [kind]; rfl) l left, operand .right (by rw [kind]; rfl) r right⟩
      · simp [Expr.parts, Expr.collate, conjunction]
    · unfold composeLeaf at leaf
      split at leaf <;> simp_all [Kind.category]

end Graph.WellFormed

namespace Plan

-- What is in slots is no statement, so it is the statements of a chain that give values.
theorem mem_given {g : Graph} (top : Bool) (p : Plan) (inside : p.In g top) (name : String) :
    name ∈ p.chain.given g ↔ ∃ b ∈ p.blocks, name ∈ g.givenBy b := by
  induction p generalizing top with
  | nil => simp [chain, Chain.given, blocks]
  | cons b operands body otherwise rest hyp hyp' hyp'' =>
    have node := in_cons top b operands body otherwise rest inside
    have values : ∀ x ∈ operandBlocks operands, name ∉ g.givenBy x := by
      intro x mem given
      obtain ⟨names, k, parent, -, -, -, operandsRead, -⟩ := inside
      have other := operands_values operandsRead x mem
      unfold Graph.givenBy at given
      split_ifs at given with kind
      · rcases kind with kind | kind <;> exact other (by rw [kind]; rfl)
      · cases given
    simp only [chain, Chain.given, mem_append, hyp _ node.inBody, hyp' _ node.inOtherwise,
      hyp'' _ node.inRest, mem_blocks]
    constructor
    · rintro (((own | ⟨x, mem, given⟩) | ⟨x, mem, given⟩) | ⟨x, mem, given⟩)
      · exact ⟨b, .inl rfl, own⟩
      · exact ⟨x, .inr (.inr (.inl mem)), given⟩
      · exact ⟨x, .inr (.inr (.inr (.inl mem))), given⟩
      · exact ⟨x, .inr (.inr (.inr (.inr mem))), given⟩
    · rintro ⟨x, rfl | mem | mem | mem | mem, given⟩
      · exact .inl (.inl (.inl given))
      · exact absurd given (values x mem)
      · exact .inl (.inl (.inr ⟨x, mem, given⟩))
      · exact .inl (.inr ⟨x, mem, given⟩)
      · exact .inr ⟨x, mem, given⟩

end Plan

namespace Graph

variable (g : Graph) {document : Markup.Node} {c c' : Constraints} {way : List Step}

theorem loop_given (read : ofNode document = .ok g) (found : g.block? id = some b)
    (loop : b.kind = .whileLoop ∨ b.kind = .forLoop) (name : String) :
    name ∈ (g.assignedIn b).map Prod.fst ↔ name ∈ (g.chainTree b.body).given g := by
  have mem := g.mem_block found
  obtain ⟨bp, reads, rfl⟩ := of_node_reads read
  rw [bp.mem_graph] at mem
  obtain ⟨top, operands, body, otherwise, rest, node⟩ := bp.statement_in reads mem
    (by rcases loop with kind | kind <;> rw [kind] <;> rfl) (by rcases loop with kind | kind <;> simp [kind])
  obtain ⟨names, k, parent, held, -⟩ := node.inBody
  have walked := body.walked false bp.graph.size node.inBody (bp.graph.holds_size held)
  rw [node.first, body.read_back node.inBody, body.mem_given _ node.inBody, assignedIn, walk, node.first, mem_map]
  constructor
  · rintro ⟨target, listed, rfl⟩
    obtain ⟨x, inner, given⟩ := mem_filterMap.mp listed
    refine ⟨x, walked.mem_iff.mp inner, ?_⟩
    split_ifs at given with kind
    simp [givenBy, kind, given]
  · rintro ⟨x, inner, given⟩
    unfold givenBy at given
    split_ifs at given with kind
    · obtain ⟨target, named, rfl⟩ := Option.map_eq_some_iff.mp (Option.mem_toList.mp given)
      exact ⟨target, mem_filterMap.mpr ⟨x, walked.mem_iff.mpr inner, by rw [if_pos kind, named]⟩, rfl⟩
    · cases given

theorem records_reset (b : Block) (c : Constraints) (facts : String → List Expr) (recorded : c.Records facts) :
    (g.resetAssigned c b).Records fun v => (facts v).filter (Expr.outlives ((g.assignedIn b).map Prod.fst) v) := by
  unfold resetAssigned
  generalize g.assignedIn b = forgotten
  induction forgotten generalizing c facts with
  | nil => simpa using recorded
  | cons first rest hyp =>
    have step := hyp _ _ (c.records_assign facts first.1 first.2 recorded)
    simp only [← Expr.filter_append] at step
    exact step

variable (formed : g.WellFormed)

theorem term_empty (empty : g.block? id = none) : g.term id = .missing := by
  unfold term
  cases g.size with
  | zero => rfl
  | succ n => rw [termFrom, empty]

theorem compose_none (silent : ∀ m, g.block? id = some m → m.kind = .interrupt) : (g.compose id).toOption = none := by
  cases found : g.block? id with
  | none =>
    rw [compose, g.term_empty found]
    rfl
  | some m =>
    unfold compose term
    cases g.size with
    | zero => rfl
    | succ n =>
      rw [termFrom, found]
      simp [composeTerm, composeLeaf, silent m found, Kind.operator?, Except.toOption]

include formed in
theorem records_branch (s : Step) (found : g.block? id = some s.block) (facts : String → List Expr)
    (accepts : s.block.kind.accepts? .cond = some .predicate)
    (said : g.fact? s = (g.compose (s.block.slot .cond)).toOption.map fun cond =>
      if s.next = s.block.body then cond else .neg cond)
    (branched : g.branchOn c s.block (decide (s.next = s.block.body)) = .ok c') (recorded : c.Records facts) :
    c'.Records fun v => facts v ++ g.learned v s := by
  unfold branchOn at branched
  split at branched
  · cases branched
  · next cond composed =>
      cases branched
      have plain : .truth true ∉ cond.parts := by
        cases filled : g.block? (s.block.slot .cond) with
        | none =>
          rw [compose, g.term_empty filled] at composed
          cases composed
        | some m =>
          exact formed.condition_plain g _ _ m filled (formed.slot_fits g found accepts filled) cond composed
      by_cases taken : s.next = s.block.body
      · simpa [learned, said, composed, Except.toOption, taken] using c.records_restrict facts plain recorded
      · have negated : .truth true ∉ (Expr.neg cond).parts := by simp [Expr.parts, Expr.collate]
        simpa [learned, said, composed, Except.toOption, taken] using c.records_restrict facts negated recorded

theorem records_given (kind : b.kind = .assign) (facts : String → List Expr) (recorded : c.Records facts) :
    (g.assigned c b).Records fun v => (facts v).filter (Expr.outlives (g.resets ⟨b, next⟩) v) ++ g.learned v
      ⟨b, next⟩ := by
  unfold assigned
  cases target : g.target? b with
  | none => simpa [resets, kind, givenBy, target, learned, fact?, equality?] using recorded
  | some named =>
    have resets : g.resets ⟨b, next⟩ = [named.1] := by simp [resets, kind, givenBy, target]
    have step := c.records_assign facts named.1 named.2 recorded
    rw [resets]
    dsimp only
    split
    · next value filled =>
        split
        · next number kind' numeric =>
            have fresh := (c.assign named.1 named.2).records_equality _ named.1 named.2 number
              (by simp [Expr.outlives]) step
            simpa [learned, fact?, kind, equality?, target, filled, kind', numeric, Expr.mentions, Expr.occurrences,
              Expr.parts, Expr.collate] using fresh
        · next other =>
            have silent : g.equality? b = none := by
              simp only [equality?, target, filled, Option.bind_some]
              split_ifs with kind'
              · cases numeric : value.number? with
                | none => rfl
                | some number => exact absurd numeric (other number kind')
              · rfl
            simpa [learned, fact?, kind, silent] using step
    · next empty => simpa [learned, fact?, kind, equality?, target, empty] using step

-- What the analysis makes of a statement that control leaves by an exit.
inductive Passes (c : Constraints) (b : Block) : Exit → Constraints → Prop
  | start (kind : b.kind = .start) : Passes c b .next (g.seedDevices c)
  | interrupted (kind : b.kind = .when) (silent : ∀ m, g.slotBlock? b .cond = some m → m.kind = .interrupt) :
      Passes c b .body (g.seedDevices c)
  | event (c' : Constraints) (kind : b.kind = .when) (branched : g.branchOn (g.seedDevices c) b true = .ok c') :
      Passes c b .body c'
  | declare (kind : b.kind = .variableDecl) : Passes c b .next (c.assign b.name b.type)
  | give (kind : b.kind = .assign) : Passes c b .next (g.assigned c b)
  | read (kind : b.kind = .input) : Passes c b .next ((g.target? b).elim c fun target => c.assign target.1 target.2)
  | print (kind : b.kind = .print) : Passes c b .next c
  | affirm (c' : Constraints) (kind : b.kind = .ifThen ∨ b.kind = .ifElse) (branched : g.branchOn c b true = .ok c') :
      Passes c b .body c'
  | deny (c' : Constraints) (kind : b.kind = .ifThen ∨ b.kind = .ifElse) (other : b.otherwise ≠ b.body)
      (branched : g.branchOn c b false = .ok c') : Passes c b .otherwise c'
  | enter (c' : Constraints) (kind : b.kind = .whileLoop)
      (branched : g.branchOn (g.resetAssigned c b) b true = .ok c') :
      Passes c b .body c'
  | stop (c' : Constraints) (kind : b.kind = .whileLoop) (other : b.next ≠ b.body)
      (branched : g.branchOn (g.resetAssigned c b) b false = .ok c') : Passes c b .next c'
  | count (kind : b.kind = .forLoop) : Passes c b .body (g.resetAssigned (c.assign b.name b.type) b)
  | finish (kind : b.kind = .forLoop) (other : b.next ≠ b.body) : Passes c b .next (g.resetAssigned c b)

theorem passed_cases (passed : g.passed c b next = .ok c') : ∃ x, b.exit x = next ∧ g.Passes c b x c' := by
  have onward : ∀ c₀ : Constraints, g.Passes c b .next c₀ →
      (if next = b.next then Except.ok c₀ else .error (PointFault.unreachable b.id b.kind next)) = Except.ok c' →
      ∃ x, b.exit x = next ∧ g.Passes c b x c' := by
    intro c₀ passes taken
    split_ifs at taken with past
    cases taken
    exact ⟨.next, past.symm, passes⟩
  have branching : b.kind = .ifThen ∨ b.kind = .ifElse → (if next ≠ 0 ∧ next = b.body then g.branchOn c b true
      else if next ≠ 0 ∧ next = b.otherwise then g.branchOn c b false
      else .error (PointFault.unreachable b.id b.kind next)) = Except.ok c' → ∃ x, b.exit x = next ∧
        g.Passes c b x c' := by
    intro kind taken
    split_ifs at taken with into past
    · exact ⟨.body, into.2.symm, .affirm c' kind taken⟩
    · exact ⟨.otherwise, past.2.symm, .deny c' kind (fun same => into ⟨past.1, past.2.trans same⟩) taken⟩
  unfold Graph.passed at passed
  dsimp only at passed
  split at passed
  · next kind => exact onward _ (.start kind) passed
  · next kind =>
      split_ifs at passed with into
      refine ⟨.body, (not_not.mp into).symm, ?_⟩
      split at passed
      · next empty =>
          cases passed
          exact .interrupted kind fun m filled => by rw [empty] at filled; cases filled
      · next cond filled =>
          split_ifs at passed with interrupt
          · cases passed
            refine .interrupted kind fun m filled' => ?_
            rw [filled] at filled'
            cases filled'
            exact interrupt
          · exact .event c' kind passed
  · next kind => exact onward _ (.declare kind) passed
  · next kind => exact onward _ (.give kind) passed
  · next kind => exact onward _ (.read kind) passed
  · next kind => exact onward _ (.print kind) passed
  · next kind => exact branching (.inl kind) passed
  · next kind => exact branching (.inr kind) passed
  · next kind =>
      split_ifs at passed with into past
      · exact ⟨.body, into.symm, .enter c' kind passed⟩
      · exact ⟨.next, past.symm, .stop c' kind (past ▸ into) passed⟩
  · next kind =>
      split_ifs at passed with into past
      · cases passed
        exact ⟨.body, into.symm, .count kind⟩
      · cases passed
        exact ⟨.next, past.symm, .finish kind (past ▸ into)⟩
  · cases passed

include formed in
-- A step keeps the facts that outlive what it resets, and adds what it says. Only at the head of a chain there is
-- nothing yet.
theorem passed_records {x : Exit} (found : g.block? id = some b) (given : b.kind = .whileLoop ∨ b.kind = .forLoop →
      ∀ name, name ∈ (g.assignedIn b).map Prod.fst ↔ name ∈ (g.chainTree b.body).given g) {facts : String → List Expr}
    (fresh : b.kind.isTop = true → facts = fun _ => []) (recorded : c.Records facts) (passes : g.Passes c b x c') :
    c'.Records fun v => (facts v).filter (Expr.outlives (g.resets ⟨b, b.exit x⟩) v) ++ g.learned v ⟨b, b.exit x⟩ := by
  have devices : b.kind.isTop = true → (g.seedDevices c).Records fun _ => [] := fun top =>
    g.devices_induction (fun c => c.Records fun _ => []) (fun c name type => c.records_true name type) c
      (fresh top ▸ recorded)
  have reset : b.kind = .whileLoop ∨ b.kind = .forLoop →
    ∀ (c₀ : Constraints) (facts : String → List Expr), c₀.Records facts →
      (g.resetAssigned c₀ b).Records fun v => (facts v).filter (Expr.outlives ((g.chainTree b.body).given g) v) := by
    intro loop c₀ facts recorded
    have step := g.records_reset b c₀ facts recorded
    simpa only [fun v => Expr.outlives_congr v (given loop)] using step
  -- what a condition adds, where the step resets what has been reset before
  have branch : ∀ (c₀ : Constraints) (kept : String → List Expr), b.kind ∈ [Kind.ifThen, .ifElse, .whileLoop, .when] →
      g.branchOn c₀ b (decide (b.exit x = b.body)) = .ok c' → c₀.Records kept →
      c'.Records fun v => kept v ++ g.learned v ⟨b, b.exit x⟩ := by
    intro c₀ kept kind branched recorded
    simp only [List.mem_cons, List.not_mem_nil, or_false] at kind
    refine g.records_branch formed ⟨b, b.exit x⟩ found kept ?_ ?_ branched recorded
    · rcases kind with kind | kind | kind | kind <;> rw [kind] <;> rfl
    · rcases kind with kind | kind | kind | kind <;> simp [fact?, kind]
  cases passes with
  | start kind =>
    have top : b.kind.isTop = true := by rw [kind]; rfl
    rw [fresh top]
    simpa [learned, fact?, kind] using devices top
  | interrupted kind silent =>
    have top : b.kind.isTop = true := by rw [kind]; rfl
    rw [fresh top]
    simpa [learned, fact?, kind, g.compose_none silent] using devices top
  | event _ kind branched =>
    have top : b.kind.isTop = true := by rw [kind]; rfl
    rw [fresh top]
    simpa using branch _ _ (by simp [kind]) (by simpa [Block.exit] using branched) (devices top)
  | declare kind => simpa [resets, learned, fact?, kind] using c.records_assign facts b.name b.type recorded
  | give kind => exact g.records_given kind facts recorded
  | read kind =>
    cases target : g.target? b with
    | none => simpa [resets, givenBy, learned, fact?, kind, target] using recorded
    | some named =>
      simpa [resets, givenBy, learned, fact?, kind, target] using c.records_assign facts named.1 named.2 recorded
  | print kind => simpa [resets, learned, fact?, kind] using recorded
  | affirm _ kind branched =>
    have none : g.resets ⟨b, b.exit .body⟩ = [] := by rcases kind with kind | kind <;> simp [resets, kind]
    simp only [none, Expr.filter_nothing]
    exact branch c facts (by rcases kind with kind | kind <;> simp [kind])
      (by simpa [Block.exit] using branched) recorded
  | deny _ kind other branched =>
    have none : g.resets ⟨b, b.exit .otherwise⟩ = [] := by rcases kind with kind | kind <;> simp [resets, kind]
    simp only [none, Expr.filter_nothing]
    exact branch c facts (by rcases kind with kind | kind <;> simp [kind])
      (by simpa [Block.exit, other] using branched) recorded
  | enter _ kind branched =>
    have all : g.resets ⟨b, b.exit .body⟩ = (g.chainTree b.body).given g := by simp [resets, kind]
    rw [all]
    exact branch _ _ (by simp [kind]) (by simpa [Block.exit] using branched) (reset (.inl kind) c facts recorded)
  | stop _ kind other branched =>
    have all : g.resets ⟨b, b.exit .next⟩ = (g.chainTree b.body).given g := by simp [resets, kind]
    rw [all]
    exact branch _ _ (by simp [kind]) (by simpa [Block.exit, other] using branched) (reset (.inl kind) c facts recorded)
  | count kind =>
    have all : g.resets ⟨b, b.exit .body⟩ = [b.name] ++ (g.chainTree b.body).given g := by
      simp [resets, kind, Block.exit]
    have silent : ∀ v, g.learned v ⟨b, b.exit .body⟩ = [] := by simp [learned, fact?, kind]
    simp only [all, silent, List.append_nil, Expr.filter_append]
    exact reset (.inr kind) _ _ (c.records_assign facts b.name b.type recorded)
  | finish kind other =>
    have all : g.resets ⟨b, b.exit .next⟩ = (g.chainTree b.body).given g := by simp [resets, kind, Block.exit, other]
    have silent : ∀ v, g.learned v ⟨b, b.exit .next⟩ = [] := by simp [learned, fact?, kind]
    simp only [all, silent, List.append_nil]
    exact reset (.inr kind) c facts recorded

theorem Way.top_root (linked : g.Linked) {root : Nat} (path : g.Way root id way) (found : g.block? id = some b)
    (top : b.kind.isTop = true) : way = [] := by
  cases path with
  | root => rfl
  | step source s x before path source_found leads =>
    obtain ⟨t, target, -, -, low⟩ := linked.target g source s x source_found leads
    rw [target] at found
    cases found
    rw [low] at top
    cases top

theorem along_records (read : ofNode document = .ok g) {root : Nat} (path : g.Way root id way) (c : Constraints)
    (known : g.along way [] = .ok c) : c.Records fun v => g.surviving v way := by
  have linked := (orderly_of_node read).1
  have formed : g.WellFormed := by
    obtain ⟨bp, reads, same⟩ := of_node_reads read
    exact same ▸ bp.graph_well_formed reads
  induction path generalizing c with
  | root =>
    cases known
    exact Constraints.records_nothing
  | step id b x way path found leads hyp =>
    rw [along_append] at known
    split at known
    · cases known
    · next c₀ before =>
        obtain ⟨y, same, passes⟩ := g.passed_cases known
        have step := g.passed_records formed found (fun loop => g.loop_given read found loop)
          (fun top => by rw [path.top_root g linked found top]; rfl) (hyp c₀ before) passes
        rw [same] at step
        simpa only [surviving_append] using step

theorem along_passed (before : List Step) (s : Step) (after : List Step) (c c' : Constraints)
    (known : g.along (before ++ s :: after) c = .ok c') : ∃ c₀ c₁, g.passed c₀ s.block s.next = .ok c₁ := by
  induction before generalizing c with
  | nil =>
    rw [nil_append, along] at known
    split at known
    · cases known
    · next c₁ passed => exact ⟨c, c₁, passed⟩
  | cons first rest hyp =>
    rw [cons_append, along] at known
    split at known
    · cases known
    · exact hyp _ known

def Over (point next : Nat) (way : List Step) : Prop :=
  ∃ root r before b x, g.block? root = some r ∧ r.kind.isTop = true ∧ g.Way root point before ∧
    g.block? point = some b ∧ b.exit x = next ∧ way = before ++ [⟨b, next⟩]

theorem traced_way (linked : g.Linked) (point fuel id next : Nat) (acc steps : List Step) (leads : next ≠ 0)
    (traced : g.wayFrom point fuel id next acc = .ok steps) (known : g.along steps [] = .ok c) :
    ∃ root r before b x, g.block? root = some r ∧ r.kind.isTop = true ∧ g.Way root id before ∧ g.block? id = some b ∧
      b.exit x = next ∧ steps = before ++ ⟨b, next⟩ :: acc := by
  induction fuel generalizing id next acc with
  | zero => cases traced
  | succ fuel hyp =>
    rw [wayFrom] at traced
    split at traced
    · cases traced
    · next b found =>
        split_ifs at traced with statement top hung
        · cases traced
          obtain ⟨c₀, c₁, passed⟩ := g.along_passed [] _ acc _ _ known
          obtain ⟨x, exit, -⟩ := g.passed_cases passed
          exact ⟨id, b, [], b, x, found, top, .root, found, exit, rfl⟩
        · obtain rfl : b.id = id := linked.numbered _ _ (links_block g found)
          have some : b.id ≠ 0 := by
            intro zero
            rw [zero] at found
            cases found
          obtain ⟨root, r, before, p, y, rootFound, rootTop, path, above, exit, rfl⟩ := hyp b.parent b.id _ some traced
          rw [append_cons] at known
          obtain ⟨c₀, c₁, passed⟩ := g.along_passed _ _ acc _ _ known
          obtain ⟨x, exit', -⟩ := g.passed_cases passed
          have onward : g.Way root (p.exit y) (before ++ [⟨p, p.exit y⟩]) :=
            .step b.parent p y before path above (exit ▸ some)
          rw [exit] at onward
          exact ⟨root, r, _, b, x, rootFound, rootTop, onward, found, exit', by simp⟩

end Graph

-- On every edge that the analysis knows anything about, what it knows about a name is what has been said about the name
-- on the way and has survived, in order.
theorem Document.surviving_facts_known (document : Markup.Node) (g : Graph) (read : Document.ofNode document = .ok g)
    (point next : BlockId) (leads : next ≠ 0) (c : Constraints) (analyzed : g.analyze point next = .ok c) :
    (∃ way, g.Over point next way) ∧ ∀ way, g.Over point next way → ∀ v,
      (∀ k, c.get? v = some k → k.expr.Conjoins (g.surviving v way)) ∧ (c.get? v = none → g.surviving v way = []) := by
  have linked := (orderly_of_node read).1
  unfold Graph.analyze Graph.wayTo at analyzed
  split at analyzed
  · cases analyzed
  · next steps traced =>
      refine ⟨?_, ?_⟩
      · obtain ⟨root, r, before, b, x, whole⟩ := g.traced_way linked point _ point next [] steps leads traced analyzed
        exact ⟨steps, root, r, before, b, x, whole⟩
      · rintro way ⟨root, r, before, b, x, rootFound, top, path, found, exit, rfl⟩ v
        have same := g.way_found linked path (fun r' found' => by rw [rootFound] at found'; cases found'; exact top)
          _ next b [] found traced
        rw [same] at analyzed
        have onward : g.Way root (b.exit x) (before ++ [⟨b, b.exit x⟩]) :=
          .step point b x before path found (exit ▸ leads)
        rw [exit] at onward
        obtain ⟨plain, holds⟩ := g.along_records read onward c analyzed v
        refine ⟨fun k filed => ?_, fun absent => ?_⟩
        · simpa [Constraints.about, filed] using holds
        · by_contra some
          have parts := holds.2 some
          rw [Constraints.about, absent] at parts
          exact plain (parts ▸ mem_singleton_self _)

theorem Expr.conjoins_operators (e : Expr) {facts : List Expr} {first : Operator} {rest : List Operator}
    (operators : e.parts.map operator = first :: rest) (unlike : first ≠ .truth true) (holds : e.Conjoins facts) :
    facts.map operator = first :: rest := by
  by_cases none : facts = []
  · rw [holds.1 none] at operators
    cases operators
    exact absurd rfl unlike
  · rw [← holds.2 none]
    exact operators

def relatedText : String :=
  "main:\n- \x7bvar: x, type: int\x7d\n- \x7bvar: y, type: int\x7d\n" ++
    "- if: \x7band: [\x7bgt: [\x7bref: x\x7d, 0]\x7d, \x7blt: [\x7bref: x\x7d, \x7bref: y\x7d]\x7d]\x7d\n  then:\n" ++
    "  - set: \x7bref: y\x7d\n    to: 7\n" ++
    "  - while: \x7bgt: [\x7bref: x\x7d, 1]\x7d\n    do:\n    - input: \x7bref: y\x7d\n    - print: \x7bref: x\x7d\n"

def Graph.operatorsAt (g : Graph) (point next : Nat) (v : String) : Option (List Operator) :=
  (g.analyze point next).toOption.bind fun c => (c.get? v).map fun k => k.expr.parts.map Expr.operator

theorem Graph.operators_known (g : Graph) {point : Nat} {v : String} {operators : List Operator}
    (shown : g.operatorsAt point next v = some operators) :
    ∃ c k, g.analyze point next = .ok c ∧ c.get? v = some k ∧ k.expr.parts.map Expr.operator = operators := by
  unfold operatorsAt at shown
  cases analyzed : g.analyze point next with
  | error fault =>
    rw [analyzed] at shown
    cases shown
  | ok c =>
    rw [analyzed] at shown
    obtain ⟨k, filed, same⟩ := Option.map_eq_some_iff.mp shown
    exact ⟨c, k, rfl, filed, same⟩

set_option maxRecDepth 10000 in
theorem related_loads : ∃ g, load relatedText = .ok g ∧ g.operatorsAt 11 14 "x" = some [.binary .gt] ∧
    g.operatorsAt 11 14 "y" = some [.binary .eq] ∧ g.operatorsAt 18 20 "x" = some [.binary .gt, .binary .gt] := by
  have shown : (load relatedText).toOption.map
      (fun g => (g.operatorsAt 11 14 "x", g.operatorsAt 11 14 "y", g.operatorsAt 18 20 "x")) =
      some (some [.binary .gt], some [.binary .eq], some [.binary .gt, .binary .gt]) := by decide +kernel
  cases read : load relatedText with
  | error fault =>
    rw [read] at shown
    cases shown
  | ok g =>
    rw [read] at shown
    exact ⟨g, rfl, by simpa [Except.toOption] using shown⟩

-- What relates the variables is forgotten when one gets the number, and the number when the loop may change it.
theorem Document.related_facts_known : ∃ g, Document.load relatedText = .ok g ∧
    (∃ way, g.Over 11 14 way ∧ (g.surviving "x" way).map Expr.operator = [.binary .gt] ∧
      (g.surviving "y" way).map Expr.operator = [.binary .eq]) ∧
    ∃ way, g.Over 18 20 way ∧ (g.surviving "x" way).map Expr.operator = [.binary .gt, .binary .gt] := by
  obtain ⟨g, loaded, first, second, third⟩ := related_loads
  obtain ⟨document, -, read⟩ := load_node loaded
  have known : ∀ point next v first rest, next ≠ 0 → first ≠ .truth true →
    g.operatorsAt point next v = some (first :: rest) → (∃ way, g.Over point next way) ∧
        ∀ way, g.Over point next way → (g.surviving v way).map Expr.operator = first :: rest := by
    intro point next v first rest leads unlike shown
    obtain ⟨c, k, analyzed, filed, operators⟩ := g.operators_known shown
    obtain ⟨found, facts⟩ := surviving_facts_known document g read point next leads c analyzed
    exact ⟨found, fun way crosses => k.expr.conjoins_operators operators unlike ((facts way crosses v).1 k filed)⟩
  obtain ⟨⟨way, crosses⟩, x⟩ := known 11 14 "x" _ _ (by decide) (by simp) first
  have y := (known 11 14 "y" _ _ (by decide) (by simp) second).2
  obtain ⟨⟨way', crosses'⟩, x'⟩ := known 18 20 "x" _ _ (by decide) (by simp) third
  exact ⟨g, loaded, ⟨way, crosses, x way crosses, y way crosses⟩, way', crosses', x' way' crosses'⟩

end Blockwork
