import Blockwork.Proofs.ReadTrees

set_option autoImplicit false

namespace Blockwork

open List

-- A slot that is compiled, with the names that were known when it was read and the scope it is compiled in.
structure Visit where
  statement : Block
  slot : Slot
  names : Names
  scopes : Scopes
  scope : Nat
  inHandler : Bool

namespace Visit

def setting (g : Graph) (v : Visit) : Setting := ⟨g, v.scopes, v.scope, v.inHandler⟩

def term (g : Graph) (v : Visit) : Term := g.slotTerm v.statement v.slot

def references (g : Graph) (v : Visit) : List Block := (v.term g).blocks.filter (·.isReference)

end Visit

namespace Kind

-- The slots of a statement in the order they are compiled. The bounds of a counting loop are not.
def compiledSlots : Kind → List Slot
  | .assign => [.value, .var]
  | .print => [.value]
  | .input => [.var]
  | .ifThen | .ifElse | .whileLoop => [.cond]
  | _ => []

def hasBody : Kind → Bool
  | .ifThen | .ifElse | .whileLoop | .forLoop => true
  | _ => false

end Kind

def Scopes.entered (scopes : Scopes) (scope : Nat) (b : Block) : Scopes :=
  if b.kind = .forLoop then (scopes.openScope (some scope)).2.declare scopes.size b.id else
    (scopes.openScope (some scope)).2

namespace Chain

def after (names : Names) : Chain → Names
  | .nil => names
  | .cons b body otherwise rest =>
    rest.after ((otherwise.after (body.after (names.inside b).enter).leave.enter).leave.past b)

def scopesBehind (scopes : Scopes) (scope : Nat) : Chain → Scopes
  | .nil => scopes
  | .cons b body otherwise rest =>
    let first := if b.kind.hasBody then body.scopesBehind (scopes.entered scope b) scopes.size else scopes
    let second := if b.kind = .ifElse then otherwise.scopesBehind (first.openScope (some scope)).2 first.size else first
    rest.scopesBehind (if b.kind = .variableDecl then second.declare scope b.id else second) scope

def visits (inHandler : Bool) (names : Names) (scopes : Scopes) (scope : Nat) : Chain → List Visit
  | .nil => []
  | .cons b body otherwise rest =>
    let inner := (names.inside b).enter
    let other := (body.after inner).leave.enter
    let first := if b.kind.hasBody then body.scopesBehind (scopes.entered scope b) scopes.size else scopes
    let second := if b.kind = .ifElse then otherwise.scopesBehind (first.openScope (some scope)).2 first.size else first
    (b.kind.compiledSlots.map fun slot => ⟨b, slot, names, scopes, scope, inHandler⟩) ++
      (if b.kind.hasBody then body.visits inHandler inner (scopes.entered scope b) scopes.size else []) ++
      (if b.kind = .ifElse then otherwise.visits inHandler other (first.openScope (some scope)).2 first.size else []) ++
      rest.visits inHandler ((otherwise.after other).leave.past b)
        (if b.kind = .variableDecl then second.declare scope b.id else second) scope

end Chain

def ProgramFault.OutOfScope : ProgramFault → Prop
  | .inBlock _ _ _ (.outOfScope _) => True
  | _ => False

namespace Drafting

variable {α β : Type}

-- What has been compiled when a computation ends: all of it if it came through, and what is out of scope if it stopped
-- for that.
def Met (g : Graph) (vs : List Visit) (behind : Scopes) : Except ProgramFault α × DraftState → Prop
  | (.ok _, s) => s.scopes = behind ∧ ∀ v ∈ vs, ∃ f, (v.setting g).Compiles (v.term g) f
  | (.error fault, _) => fault.OutOfScope → ∃ v ∈ vs, ∃ absent, ¬ absent.OutOfScope ∧
      (v.setting g).compile absent (v.term g) = .error fault

-- What is compiled along the way, and the scopes behind it. Nothing but the scopes ahead of it matters.
def Meets (g : Graph) (x : Drafting α) (scopes : Scopes) (vs : List Visit) (behind : Scopes) : Prop :=
  ∀ s : DraftState, s.scopes = scopes → Met g vs behind (x.run.run s)

section

variable {g : Graph} {scopes met behind : Scopes} {vs ws : List Visit}

theorem Met.ahead {r : Except ProgramFault α × DraftState} (later : Met g ws behind r)
    (first : ∀ v ∈ vs, ∃ f, (v.setting g).Compiles (v.term g) f) : Met g (vs ++ ws) behind r := by
  rcases r with ⟨fault | a, s⟩
  · intro out
    obtain ⟨v, mem, rest⟩ := later out
    exact ⟨v, mem_append_right _ mem, rest⟩
  · exact ⟨later.1, forall_mem_append.mpr ⟨first, later.2⟩⟩

theorem meets_bind {x : Drafting α} {f : α → Drafting β} (first : Meets g x scopes vs met)
    (later : ∀ a, Meets g (f a) met ws behind) :
    Meets g (x >>= f) scopes (vs ++ ws) behind := by
  intro s start
  have first := first s start
  rw [ExceptT.run_bind, StateT.run_bind]
  generalize x.run.run s = r at first ⊢
  rcases r with ⟨fault | a, s'⟩
  · intro out
    obtain ⟨v, mem, rest⟩ := first out
    exact ⟨v, mem_append_left _ mem, rest⟩
  · exact (later a s' first.1).ahead first.2

theorem meets_then {x : Drafting α} {f : α → Drafting β} (first : Meets g x scopes [] met)
    (later : ∀ a, Meets g (f a) met vs behind) :
    Meets g (x >>= f) scopes vs behind :=
  meets_bind first later

theorem meets_last {x : Drafting α} {f : α → Drafting β} (first : Meets g x scopes vs met)
    (later : ∀ a, Meets g (f a) met [] behind) :
    Meets g (x >>= f) scopes vs behind :=
  append_nil vs ▸ meets_bind first later

theorem meets_pure (a : α) : Meets g (pure a : Drafting α) scopes [] scopes := fun _ same => ⟨same, by simp⟩

variable {fault : ProgramFault}

theorem meets_fail (other : ¬ fault.OutOfScope) : Meets g (fail fault : Drafting α) scopes vs behind :=
  fun _ _ out => absurd out other

theorem meets_unless {c : Prop} [Decidable c] {rest : PUnit → Drafting α} (other : ¬ fault.OutOfScope)
    (later : Meets g (rest ()) scopes vs behind) :
    Meets g (if c then fail fault >>= rest else rest ()) scopes vs behind := by
  by_cases holds : c
  · rw [if_pos holds]
    exact fun _ _ out => absurd out other
  · rw [if_neg holds]
    exact later

theorem meets_compile (inHandler : Bool) (scope : Nat) (b : Block) (slot : Slot) {absent : BlockFault} (names : Names)
    (other : ¬ (b.fault absent).OutOfScope) :
    Meets g (compile g inHandler scope b slot absent) scopes [⟨b, slot, names, scopes, scope, inHandler⟩] scopes := by
  rintro s rfl
  have outcome : (compile g inHandler scope b slot absent).run.run s =
      ((⟨g, s.scopes, scope, inHandler⟩ : Setting).compile (b.fault absent) (g.slotTerm b slot), s) := rfl
  rw [outcome]
  cases made : (⟨g, s.scopes, scope, inHandler⟩ : Setting).compile (b.fault absent) (g.slotTerm b slot) with
  | error fault => exact fun out => ⟨_, mem_singleton.mpr rfl, _, other, made⟩
  | ok f =>
    refine ⟨rfl, fun v mem => ⟨f, ?_⟩⟩
    rw [mem_singleton.mp mem]
    exact Setting.compile_compiles _ _ f made

variable {policy : GuardPolicy}

theorem meets_hoist (b : Block) (repeated : Bool) (checks : List Check) :
    Meets g (hoist g policy b.id repeated checks) scopes [] scopes := by
  intro s same
  rw [hoist_done policy repeated checks s]
  exact ⟨same, by simp⟩

theorem meets_hoisted (b : Block) (repeated : Bool) (checks : List Check) {make : List Piece → α} :
    Meets g (hoist g policy b.id repeated checks >>= fun guards => pure (make guards)) scopes [] scopes :=
  meets_then (meets_hoist b repeated checks) fun _ => meets_pure _

theorem meets_declare (scope : Nat) (b : Block) : Meets g (declare scope b) scopes [] (scopes.declare scope b.id) := by
  rintro s rfl
  exact ⟨rfl, by simp⟩

theorem meets_warning (b : Block) : Meets g (warnEndless b) scopes [] scopes := fun _ same => ⟨same, by simp⟩

theorem meets_open_scope {parent : Option Nat} {rest : Nat → Drafting α}
    (later : Meets g (rest scopes.size) (scopes.openScope parent).2 vs behind) :
    Meets g (openScope parent >>= rest) scopes vs behind := by
  rintro s rfl
  exact later { s with scopes := (s.scopes.openScope parent).2 } rfl

variable (inHandler : Bool) (scope : Nat) (b : Block) (names : Names)

theorem meets_declaration : Meets g (declaration scope b) scopes [] (scopes.declare scope b.id) := by
  unfold declaration
  split
  · exact meets_fail fun out => out
  · exact meets_then (meets_declare scope b) fun _ => meets_pure _

theorem meets_condition :
    Meets g (condition g inHandler scope b) scopes [⟨b, .cond, names, scopes, scope, inHandler⟩] scopes :=
  meets_last (meets_compile inHandler scope b .cond names fun out => out) fun f =>
    meets_unless (fun out => out) (meets_pure f)

theorem meets_assignment : Meets g (assignment g policy inHandler scope b) scopes
    [⟨b, .value, names, scopes, scope, inHandler⟩, ⟨b, .var, names, scopes, scope, inHandler⟩] scopes := by
  unfold assignment
  refine meets_unless (fun out => out) ?_
  change Meets g _ scopes ([_] ++ [_]) scopes
  refine meets_bind (meets_compile inHandler scope b .value names fun out => out) fun value => ?_
  refine meets_last (meets_compile inHandler scope b .var names fun out => out) fun target => ?_
  exact meets_unless (fun out => out) (meets_unless (fun out => out) (meets_hoisted b false _))

theorem meets_output :
    Meets g (output g policy inHandler scope b) scopes [⟨b, .value, names, scopes, scope, inHandler⟩] scopes :=
  meets_last (meets_compile inHandler scope b .value names fun out => out) fun _ => meets_hoisted b false _

theorem meets_input :
    Meets g (input g policy inHandler scope b) scopes [⟨b, .var, names, scopes, scope, inHandler⟩] scopes :=
  meets_last (meets_compile inHandler scope b .var names fun out => out) fun _ =>
    meets_unless (fun out => out) (meets_hoisted b false _)

end

section

variable (g : Graph) {policy : GuardPolicy}

theorem meets_chain (inHandler : Bool) {c : Chain} (names : Names) (scope : Nat) (scopes : Scopes) :
    Meets g (chain g policy inHandler scope c) scopes (c.visits inHandler names scopes scope)
      (c.scopesBehind scopes scope) := by
  induction c generalizing names scope scopes with
  | nil => exact meets_pure _
  | cons b body otherwise rest hyp hyp' hyp'' =>
    have followed : ∀ (names : Names) (first : Draft) (met : Scopes),
        Meets g (chain g policy inHandler scope rest >>= fun later => pure (first.append later)) met
          (rest.visits inHandler names met scope) (rest.scopesBehind met scope) :=
      fun names first met => meets_last (hyp'' names scope met) fun later => meets_pure _
    rw [chain, Chain.visits, Chain.scopesBehind]
    -- what the statement itself compiles and opens, kind by kind
    cases kind : b.kind <;>
      simp only [kind, Kind.compiledSlots, Kind.hasBody, Scopes.entered, Bool.false_eq_true, if_true,
        reduceCtorEq, if_false, map_nil, map_cons, nil_append, append_nil, append_assoc]
    case variableDecl => exact meets_then (meets_declaration scope b) fun first => followed _ first _
    case assign => exact meets_bind (meets_assignment inHandler scope b names) fun first => followed _ first _
    case print => exact meets_bind (meets_output inHandler scope b names) fun first => followed _ first _
    case input => exact meets_bind (meets_input inHandler scope b names) fun first => followed _ first _
    case ifThen =>
        refine meets_bind (meets_condition inHandler scope b names) fun cond =>
          meets_open_scope (meets_bind (hyp _ _ _) fun affirmed => ?_)
        exact meets_then (meets_hoist b false cond.checks) fun guards => followed _ _ _
    case ifElse =>
        refine meets_bind (meets_condition inHandler scope b names) fun cond =>
          meets_open_scope (meets_bind (hyp _ _ _) fun affirmed => ?_)
        refine meets_then (meets_hoist b false cond.checks) fun guards => ?_
        exact meets_open_scope (meets_bind (hyp' _ _ _) fun denied => followed _ _ _)
    case whileLoop =>
        refine meets_bind (meets_condition inHandler scope b names) fun cond =>
          meets_open_scope (meets_bind (hyp _ _ _) fun repeated => ?_)
        exact meets_then (meets_hoist b true cond.checks) fun guards => followed _ _ _
    case forLoop =>
        refine meets_open_scope (meets_then (meets_declare _ b) fun _ => meets_bind (hyp _ _ _) fun repeated => ?_)
        exact meets_then (meets_warning b) fun _ => followed _ _ _
    all_goals exact fun _ _ out => absurd out fun out => out

def handlerVisits (root : Nat) (names : Names) (scopes : Scopes) : List BlockId → List Visit
  | [] => []
  | id :: rest =>
    match g.block? id with
    | none => []
    | some b =>
      let inner := (scopes.openScope (some root)).2
      (if (g.slotBlock? b .cond).any (·.kind = .interrupt) then [] else
        [⟨b, .cond, names.fresh, inner, scopes.size, true⟩]) ++
        (g.chainTree b.body).visits true names.fresh.enter inner scopes.size ++
        handlerVisits root ((Chain.cons b (g.chainTree b.body) .nil .nil).after names.fresh)
          ((g.chainTree b.body).scopesBehind inner scopes.size) rest

def handlerScopes (root : Nat) (scopes : Scopes) : List BlockId → Scopes
  | [] => scopes
  | id :: rest =>
    match g.block? id with
    | none => scopes
    | some b => handlerScopes root ((g.chainTree b.body).scopesBehind (scopes.openScope (some root)).2 scopes.size) rest

theorem meets_handler (root : Nat) (names : Names) {id : BlockId} {b : Block} (found : g.block? id = some b)
    (scopes : Scopes) :
    Meets g (handler g policy root id) scopes
      ((if (g.slotBlock? b .cond).any (·.kind = .interrupt) then []
        else [⟨b, .cond, names.fresh, (scopes.openScope (some root)).2, scopes.size, true⟩]) ++
        (g.chainTree b.body).visits true names.fresh.enter (scopes.openScope (some root)).2 scopes.size)
      ((g.chainTree b.body).scopesBehind (scopes.openScope (some root)).2 scopes.size) := by
  unfold handler
  rw [found]
  dsimp only
  by_cases kind : b.kind ≠ .when
  · rw [if_pos kind]
    exact meets_fail fun out => out
  · rw [if_neg kind]
    cases trigger : g.slotBlock? b .cond with
    | none => exact meets_fail fun out => out
    | some t =>
      refine meets_open_scope ?_
      by_cases interrupt : t.kind = .interrupt
      · simp only [Option.any_some, interrupt, decide_true, if_true, nil_append]
        exact meets_last (meets_chain g true names.fresh.enter _ _) fun body => meets_pure _
      · simp only [Option.any_some, interrupt, decide_false, Bool.false_eq_true, if_false]
        refine meets_bind (meets_condition true scopes.size b names.fresh) fun cond => ?_
        exact meets_last (meets_chain g true names.fresh.enter _ _) fun body => meets_hoisted b true cond.checks

theorem meets_handlers (root : Nat) (names : Names) (ids : List BlockId) (scopes : Scopes) :
    Meets g (handlers g policy root ids) scopes (handlerVisits g root names scopes ids)
      (handlerScopes g root scopes ids) := by
  induction ids generalizing names scopes with
  | nil => exact meets_pure _
  | cons id rest hyp =>
    rw [handlers, handlerVisits, handlerScopes]
    cases found : g.block? id with
    | none =>
      unfold handler
      rw [found]
      exact fun _ _ out => absurd out fun out => out
    | some b =>
      refine meets_bind (meets_handler g root names found scopes) fun first => ?_
      exact meets_last (hyp _ _) fun later => meets_pure _

end

end Drafting

namespace Graph

def startScopes : Scopes := #[{ parent := none }, { parent := some 0 }]

def visits (g : Graph) : List Visit :=
  match g.block? g.main with
  | none => []
  | some start =>
    (g.chainTree start.next).visits false (Names.fresh {}) startScopes 1 ++
      Drafting.handlerVisits g 0 ((g.chainTree start.next).after (Names.fresh {}))
        ((g.chainTree start.next).scopesBehind startScopes 1)
        g.handlers

def scopesBehind (g : Graph) : Scopes :=
  match g.block? g.main with
  | none => #[]
  | some start => Drafting.handlerScopes g 0 ((g.chainTree start.next).scopesBehind startScopes 1) g.handlers

theorem meets_program (g : Graph) (policy : GuardPolicy) :
    Drafting.Meets g (Drafting.program g policy) #[] g.visits g.scopesBehind := by
  unfold Drafting.program visits scopesBehind
  cases found : g.block? g.main with
  | none => exact fun _ _ out => absurd out fun out => out
  | some start =>
    dsimp only
    by_cases kind : start.kind ≠ .start
    · rw [if_pos kind]
      exact fun _ _ out => absurd out fun out => out
    · rw [if_neg kind]
      refine Drafting.meets_open_scope (Drafting.meets_open_scope ?_)
      refine Drafting.meets_bind (Drafting.meets_chain g false (Names.fresh {}) _ _) fun main => ?_
      exact Drafting.meets_last (Drafting.meets_handlers g 0 _ g.handlers _) fun handlers => Drafting.meets_pure _

end Graph

end Blockwork
