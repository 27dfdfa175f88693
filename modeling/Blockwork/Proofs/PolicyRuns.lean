import Blockwork.Proofs.Drafting

set_option autoImplicit false

namespace Blockwork

def Piece.isKept (keep : GuardSite → Bool) : Piece → Bool
  | .line _ _ => true
  | .guard _ check => keep check.site

def keptPieces (keep : GuardSite → Bool) (pieces : List Piece) : List Piece := pieces.filter (·.isKept keep)

def Draft.keeping (keep : GuardSite → Bool) (d : Draft) : Draft := ⟨keptPieces keep d.pieces, d.headers⟩

def HandlerDraft.keeping (keep : GuardSite → Bool) (h : HandlerDraft) : HandlerDraft :=
  ⟨h.interrupt, h.draft.keeping keep⟩

def ProgramDraft.keeping (keep : GuardSite → Bool) (d : ProgramDraft) : ProgramDraft :=
  ⟨d.main.keeping keep, d.handlers.map (·.keeping keep)⟩

section

variable (keep : GuardSite → Bool)

@[simp] theorem kept_pieces_nil : keptPieces keep [] = [] := rfl

@[simp] theorem kept_pieces_line (depth : Nat) (text : String) (pieces : List Piece) :
    keptPieces keep (.line depth text :: pieces) = .line depth text :: keptPieces keep pieces := rfl

@[simp] theorem kept_pieces_append (xs ys : List Piece) :
    keptPieces keep (xs ++ ys) = keptPieces keep xs ++ keptPieces keep ys :=
  List.filter_append ..

@[simp] theorem kept_pieces_indented (xs : List Piece) :
    keptPieces keep (xs.map (·.indented)) = (keptPieces keep xs).map (·.indented) := by
  have same : (Piece.isKept keep) ∘ Piece.indented = Piece.isKept keep := by
    funext x
    cases x <;> rfl
  rw [keptPieces, List.filter_map, same, keptPieces]

@[simp] theorem kept_pieces_guards (checks : List Check) :
    keptPieces keep (checks.map (.guard 0)) = (checks.filter fun c => keep c.site).map (.guard 0) := by
  rw [keptPieces, List.filter_map]
  rfl

theorem kept_pieces_flat {α : Type} (f : Piece → List α) (xs : List Piece) :
    (keptPieces keep xs).flatMap f = xs.flatMap fun x => if x.isKept keep then f x else [] := by
  induction xs with
  | nil => rfl
  | cons x xs hyp =>
    by_cases kept : x.isKept keep = true
    · rw [keptPieces, List.filter_cons, if_pos kept, List.flatMap_cons, List.flatMap_cons, if_pos kept,
        ← hyp, keptPieces]
    · rw [keptPieces, List.filter_cons, if_neg kept, List.flatMap_cons, if_neg kept, List.nil_append, ← hyp, keptPieces]

theorem Draft.keeping_append (a b : Draft) : (a.append b).keeping keep = (a.keeping keep).append (b.keeping keep) := by
  simp [keeping, append]

end

-- The state in which a policy has answered for every site.
def DraftState.under (rule : GuardSite → GuardDecision) (s : DraftState) : DraftState :=
  { s with guards := s.sites.map rule }

namespace Drafting

variable {α β γ δ : Type} {g : Graph} {P : GuardPolicy} {f : α → β} {h : γ → δ} {fault : ProgramFault}

-- One run under a policy and one that keeps every guard: they come to the same end and ask about the same sites, and
-- the first returns what is left of what the second returns.
def Follows (g : Graph) (P : GuardPolicy) (f : α → β) (x : Drafting β) (y : Drafting α) : Prop :=
  ∀ s : DraftState, x.run.run (s.under (P g)) = ((y.run.run s).1.map f, (y.run.run s).2.under (P g))

theorem follows_bind {x : Drafting β} {y : Drafting α} {k : β → Drafting δ} {l : α → Drafting γ}
    (first : Follows g P f x y) (later : ∀ a, Follows g P h (k (f a)) (l a)) : Follows g P h (x >>= k) (y >>= l) := by
  intro s
  have run := first s
  rw [ExceptT.run_bind, StateT.run_bind, ExceptT.run_bind, StateT.run_bind, run]
  rcases y.run.run s with ⟨fault | a, met⟩
  · rfl
  · exact later a met

theorem follows_pure {a : α} {b : β} (same : b = f a) : Follows g P f (pure b) (pure a) := by
  subst same
  exact fun _ => rfl

theorem follows_fail : Follows g P f (fail fault) (fail fault) := fun _ => rfl

theorem follows_unless {c : Prop} [Decidable c] {k : PUnit → Drafting β} {l : PUnit → Drafting α}
    (later : Follows g P f (k ()) (l ())) :
    Follows g P f (if c then fail fault >>= k else k ()) (if c then fail fault >>= l else l ()) := by
  by_cases holds : c
  · rw [if_pos holds, if_pos holds]
    exact fun _ => rfl
  · rw [if_neg holds, if_neg holds]
    exact later

-- A computation that has nothing to do with guards is the same in both runs.
theorem follows_same {x : Drafting α} {k : α → Drafting δ} {l : α → Drafting γ}
    (same : ∀ s : DraftState, x.run.run (s.under (P g)) = ((x.run.run s).1, (x.run.run s).2.under (P g)))
    (later : ∀ a, Follows g P h (k a) (l a)) : Follows g P h (x >>= k) (x >>= l) := by
  refine follows_bind (f := id) (fun s => ?_) later
  rw [Except.map_id]
  exact same s

section

variable (g P) (inHandler : Bool) (scope : Nat) (b : Block)

abbrev kept (site : GuardSite) : Bool := (P g site).emit

theorem follows_hoist (repeated : Bool) (checks : List Check) :
    Follows g P (keptPieces (kept g P)) (hoist g P b.id repeated checks) (hoist g .always b.id repeated checks) := by
  intro s
  have all := hoist_done (g := g) (b := b) .always repeated checks s
  have some_ := hoist_done (g := g) (b := b) P repeated checks (s.under (P g))
  unfold Done at all some_
  rw [all, some_]
  rw [kept_guards_always, guardPieces]
  simp [Except.map, DraftState.under, keptGuards, Function.comp_def]

theorem follows_condition {k : Fragment → Drafting δ} {l : Fragment → Drafting γ}
    (later : ∀ f, Follows g P h (k f) (l f)) :
    Follows g P h (condition g inHandler scope b >>= k) (condition g inHandler scope b >>= l) := by
  refine follows_bind (f := id) ?_ later
  exact follows_same (fun _ => rfl) fun f => follows_unless (follows_pure rfl)

theorem follows_declaration : Follows g P (Draft.keeping (kept g P)) (declaration scope b) (declaration scope b) := by
  unfold declaration
  split
  · exact follows_fail
  · exact follows_same (fun _ => rfl) fun _ => follows_pure rfl

theorem follows_assignment : Follows g P (Draft.keeping (kept g P)) (assignment g P inHandler scope b)
    (assignment g .always inHandler scope b) := by
  unfold assignment
  refine follows_unless (follows_same (fun _ => rfl) fun value => follows_same (fun _ => rfl) fun target => ?_)
  refine follows_unless (follows_unless (follows_bind (follows_hoist g P b false _) fun guards => follows_pure ?_))
  simp [Draft.keeping]

theorem follows_output : Follows g P (Draft.keeping (kept g P)) (output g P inHandler scope b)
    (output g .always inHandler scope b) := by
  refine follows_same (fun _ => rfl) fun value => follows_bind (follows_hoist g P b false _) fun guards =>
    follows_pure ?_
  simp [Draft.keeping]

theorem follows_input : Follows g P (Draft.keeping (kept g P)) (input g P inHandler scope b)
    (input g .always inHandler scope b) := by
  refine follows_same (fun _ => rfl) fun target => follows_unless ?_
  refine follows_bind (follows_hoist g P b false _) fun guards => follows_pure ?_
  have lines : keptPieces (kept g P) (inputLines target) = inputLines target := by
    unfold inputLines
    split_ifs <;> rfl
  simp [Draft.keeping, lines]

theorem follows_chain (c : Chain) : Follows g P (Draft.keeping (kept g P)) (chain g P inHandler scope c)
    (chain g .always inHandler scope c) := by
  induction c generalizing scope with
  | nil => exact follows_pure rfl
  | cons b body otherwise rest inner other later =>
    -- the rest of the chain behind what is left of the first statement
    have followed : ∀ {first first' : Draft}, first = first'.keeping (kept g P) → Follows g P (Draft.keeping (kept g P))
        (chain g P inHandler scope rest >>= fun later => pure (first.append later))
        (chain g .always inHandler scope rest >>= fun later => pure (first'.append later)) := by
      rintro _ first rfl
      exact follows_bind (later scope) fun later => follows_pure (first.keeping_append _ later).symm
    rw [chain, chain]
    cases b.kind <;> dsimp only
    case variableDecl => exact follows_bind (follows_declaration g P scope b) fun _ => followed rfl
    case assign => exact follows_bind (follows_assignment g P inHandler scope b) fun _ => followed rfl
    case print => exact follows_bind (follows_output g P inHandler scope b) fun _ => followed rfl
    case input => exact follows_bind (follows_input g P inHandler scope b) fun _ => followed rfl
    case ifThen =>
      refine follows_condition g P inHandler scope b fun cond => follows_same (fun _ => rfl) fun within => ?_
      refine follows_bind (inner within) fun affirmed => follows_bind (follows_hoist g P b false _) fun guards => ?_
      exact followed (by simp [Draft.keeping])
    case ifElse =>
      refine follows_condition g P inHandler scope b fun cond => follows_same (fun _ => rfl) fun within => ?_
      refine follows_bind (inner within) fun affirmed => follows_bind (follows_hoist g P b false _) fun guards => ?_
      refine follows_same (fun _ => rfl) fun within => follows_bind (other within) fun denied => ?_
      exact followed (by simp [Draft.keeping])
    case whileLoop =>
      refine follows_condition g P inHandler scope b fun cond => follows_same (fun _ => rfl) fun within => ?_
      refine follows_bind (inner within) fun repeated => follows_bind (follows_hoist g P b true _) fun guards => ?_
      exact followed (by simp [Draft.keeping])
    case forLoop =>
      refine follows_same (fun _ => rfl) fun within => follows_same (fun _ => rfl) fun _ => ?_
      refine follows_bind (inner within) fun repeated => follows_same (fun _ => rfl) fun _ => ?_
      exact followed (by simp [Draft.keeping])
    all_goals exact fun _ => rfl

end

section

variable (g P) (root : Nat)

theorem follows_handler (id : BlockId) : Follows g P (HandlerDraft.keeping (kept g P)) (handler g P root id)
    (handler g .always root id) := by
  have counted : ∀ times, keptPieces (kept g P) (counterLines times) = counterLines times := by
    intro times
    unfold counterLines
    split_ifs <;> rfl
  unfold handler
  cases g.block? id with
  | none => exact follows_fail
  | some b =>
    dsimp only
    split_ifs
    · exact follows_fail
    · cases g.slotBlock? b .cond with
      | none => exact follows_fail
      | some trigger =>
        refine follows_same (fun _ => rfl) fun scope => ?_
        split_ifs
        · refine follows_bind (follows_chain g P true scope _) fun body => follows_pure ?_
          simp [HandlerDraft.keeping, Draft.keeping, counted]
        · refine follows_condition g P true scope b fun cond =>
            follows_bind (follows_chain g P true scope _) fun body => ?_
          refine follows_bind (follows_hoist g P b true _) fun guards => follows_pure ?_
          simp [HandlerDraft.keeping, Draft.keeping, counted]

theorem follows_handlers (ids : List BlockId) : Follows g P (List.map (HandlerDraft.keeping (kept g P)))
    (handlers g P root ids) (handlers g .always root ids) := by
  induction ids with
  | nil => exact follows_pure rfl
  | cons id rest hyp =>
    exact follows_bind (follows_handler g P root id) fun _ => follows_bind hyp fun _ => follows_pure rfl

theorem follows_program : Follows g P (ProgramDraft.keeping (kept g P)) (program g P) (program g .always) := by
  unfold program
  cases g.block? g.main with
  | none => exact follows_fail
  | some start =>
    dsimp only
    split_ifs
    · exact follows_fail
    · refine follows_same (fun _ => rfl) fun root => follows_same (fun _ => rfl) fun scope => ?_
      refine follows_bind (follows_chain g P false scope _) fun main => ?_
      exact follows_bind (follows_handlers g P root _) fun _ => follows_pure rfl

end

end Drafting

variable (g : Graph)

-- Under a policy a program is drafted as if every guard were kept, but for those that the policy leaves out.
theorem Graph.draft_under (P : GuardPolicy) : g.draftUnder P =
    (g.draft.1.map (ProgramDraft.keeping fun site => (P g site).emit), g.draft.2.under (P g)) :=
  Drafting.follows_program g P {}

theorem Graph.generate_draft (P : GuardPolicy) : g.generate P =
    match g.draft with
    | (.error fault, _) => .error fault
    | (.ok d, state) => .ok ((d.keeping fun site => (P g site).emit).program g.devices (state.under (P g))) := by
  rw [generate, draft_under]
  rcases g.draft with ⟨fault | d, state⟩ <;> rfl

theorem Graph.generated_draft {P : GuardPolicy} {p : Program} (made : g.generate P = .ok p) :
    ∃ d state, g.draft = (.ok d, state) ∧ p.guards = state.sites.map (P g) ∧
      p.main = (d.keeping fun site => (P g site).emit).mainText g.devices := by
  rcases drafted : g.draft with ⟨fault | d, state⟩
  · rw [g.generate_draft, drafted] at made
    cases made
  · rw [g.generate_draft, drafted] at made
    cases made
    exact ⟨d, state, rfl, rfl, rfl⟩

theorem Graph.generate_always {p : Program} (made : g.generate .always = .ok p) :
    ∃ d state, g.draft = (.ok d, state) ∧ p.guards.map (·.site) = state.sites ∧ p.main = d.mainText g.devices := by
  have recorded := congrArg (·.2.guards) (g.draft_under .always)
  unfold generate at made
  rw [← draft] at made recorded
  rcases drafted : g.draft with ⟨fault | d, state⟩
  · rw [drafted] at made
    cases made
  · rw [drafted] at made recorded
    cases made
    refine ⟨d, state, rfl, ?_, rfl⟩
    have decisions : state.guards = state.sites.map (GuardPolicy.always g) := recorded
    rw [show (d.program g.devices state).guards = state.guards from rfl, decisions, List.map_map]
    exact List.map_id _

end Blockwork
