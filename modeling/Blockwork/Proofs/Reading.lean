import Blockwork.Proofs.Blueprint
import Blockwork.Proofs.Loading

set_option autoImplicit false

namespace Blockwork

open List
open Markup (Node NodeList EntryList Scalar)

namespace Graph

-- Blocks that declare something still declare it.
def Keeps (g g' : Graph) : Prop := ∀ id b, g.block? id = some b → ∃ b', g'.block? id = some b' ∧ b'.entry = b.entry

theorem block_inside (g : Graph) {id : Nat} {b : Block} (found : g.block? id = some b) : id ≤ g.size := by
  have linked : g.links? id = some b.links := by simp [links?, found]
  exact ((g.links_defined id).mp ⟨_, linked⟩).2

theorem keeps_append (g : Graph) {bs : List Block} : g.Keeps (g.append bs) := by
  intro id b found
  refine ⟨b, ?_, rfl⟩
  rw [g.block_append_left bs (g.block_inside found), found]

theorem keeps_modify (g : Graph) (id : Nat) (f : Block → Block) (same : ∀ b, (f b).entry = b.entry) :
    g.Keeps (g.modify id f) := by
  intro other b found
  rw [block_modify, found]
  by_cases here : id = other
  · rw [if_pos here]
    exact ⟨f b, rfl, same b⟩
  · rw [if_neg here]
    exact ⟨b, rfl, rfl⟩

theorem Keeps.refl {g : Graph} : g.Keeps g := fun _ b found => ⟨b, found, rfl⟩

theorem Keeps.trans {g g' g'' : Graph} (first : g.Keeps g') (second : g'.Keeps g'') : g.Keeps g'' := by
  intro id b found
  obtain ⟨b', found', same⟩ := first id b found
  obtain ⟨b'', found'', same'⟩ := second id b' found'
  exact ⟨b'', found'', same'.trans same⟩

end Graph

namespace Document

structure LoadState.Matches (s : LoadState) (names : Names) : Prop where
  frames : s.frames = names.frames.map fun frame => frame.map Entry.id
  declared : s.declared = names.declared.map Entry.id
  blocks : ∀ e ∈ names.frames.flatten ++ names.declared, ∃ b, s.graph.block? e.id = some b ∧ b.entry = e

variable {s s' : LoadState} {names : Names} {b : Block} {kind : Kind} {n : Node} {fs : Fields} {type : Option ValueType}
  {slot : Slot}

theorem LoadState.Matches.keeps (s' : LoadState) (known : s.Matches names) (keeps : s.graph.Keeps s'.graph)
    (frames : s'.frames = s.frames) (declared : s'.declared = s.declared) : s'.Matches names := by
  refine ⟨frames.trans known.frames, declared.trans known.declared, fun e mem => ?_⟩
  obtain ⟨b, found, same⟩ := known.blocks e mem
  obtain ⟨b', found', same'⟩ := keeps e.id b found
  exact ⟨b', found', same'.trans same⟩

theorem LoadState.Matches.enter (known : s.Matches names) :
    LoadState.Matches { s with frames := [] :: s.frames } names.enter :=
  ⟨by simp [Names.enter, known.frames], known.declared, fun e mem => known.blocks e (by simpa [Names.enter] using mem)⟩

theorem LoadState.Matches.leave (known : s.Matches names) :
    LoadState.Matches { s with frames := s.frames.drop 1 } names.leave := by
  refine ⟨by simp [Names.leave, known.frames], known.declared, fun e mem => known.blocks e ?_⟩
  simp only [Names.leave, mem_append] at mem ⊢
  rcases mem with mem | mem
  · obtain ⟨frame, inner, mem⟩ := mem_flatten.mp mem
    exact Or.inl (mem_flatten.mpr ⟨frame, mem_of_mem_drop inner, mem⟩)
  · exact Or.inr mem

theorem LoadState.Matches.declare (known : s.Matches names) {id : Nat} (here : s.graph.block? id = some b)
    (own : b.id = id) (u : Unit) (result : (Document.declare id).run s = .ok (u, s')) :
    s'.Matches (names.declare b.entry) ∧ s'.graph = s.graph := by
  subst own
  cases result
  refine ⟨⟨?_, by simp [Names.declare, known.declared, Block.entry], fun e mem => ?_⟩, rfl⟩
  · simp only [Names.declare, known.frames]
    cases names.frames <;> rfl
  · by_cases own : e = b.entry
    · exact ⟨b, own ▸ here, own.symm⟩
    · refine known.blocks e ?_
      simp only [Names.declare] at mem
      cases frames : names.frames with
      | nil =>
        simp [frames, own] at mem ⊢
        exact mem
      | cons frame rest =>
        simp [frames, own] at mem ⊢
        exact mem

theorem resolve_look (known : s.Matches names) (name : String) :
    (s.resolve? name).map Block.entry = names.look name := by
  have each : ∀ es : List Entry, (∀ e ∈ es, ∃ b, s.graph.block? e.id = some b ∧ b.entry = e) →
      ((es.map Entry.id).findSome? fun id => (s.graph.block? id).bind fun b =>
        if b.name = name then some b else none).map
        Block.entry = es.find? fun e => e.name = name := by
    intro es
    induction es with
    | nil => intro _; rfl
    | cons e es hyp =>
      intro present
      obtain ⟨b, found, same⟩ := present e mem_cons_self
      have named : b.name = e.name := congrArg Entry.name same
      rw [map_cons, findSome?_cons, found, Option.bind_some, find?_cons]
      by_cases here : e.name = name
      · simp [named, here, same]
      · simp only [named, here, if_false, decide_false]
        exact hyp fun e' mem => present e' (mem_cons_of_mem e mem)
  have ids : s.frames.flatten ++ s.declared = (names.frames.flatten ++ names.declared).map Entry.id := by
    rw [known.frames, known.declared, map_append, map_flatten]
  unfold LoadState.resolve? Names.look
  rw [ids]
  exact each _ known.blocks

-- What is read is a term whose blocks come behind those that are there.
structure Produces (names : Names) (s s' : LoadState) (id : Nat) (t : Term) : Prop where
  present : t.isMissing = false
  id : id = s.graph.size + 1
  reads : t.Reads names (s.graph.size + 1)
  graph : s'.graph = s.graph.append t.blocks
  known : s'.Matches names

def ReadsTerms (operand : Node → Loading BlockId) : Prop :=
  ∀ n s id s' names, s.Matches names → (operand n).run s = .ok (id, s') → ∃ t, Produces names s s' id t

theorem produces_leaf {id : BlockId} {f : Block → Block} (known : s.Matches names)
    (run : (add kind n f).run s = .ok (id, s'))
    (placed : (f { id := s.graph.size + 1, kind }).Placed (s.graph.size + 1) 0 0 0 0 [])
    (saying : Expression names (f { id := s.graph.size + 1, kind }).content .missing .missing) :
    ∃ t, Produces names s s' id t := by
  rw [run_add, Graph.add_eq] at run
  cases run
  refine ⟨.node { f { id := s.graph.size + 1, kind } with line := n.place.line + 1, column := n.place.column + 1 }
    .missing .missing, rfl, rfl, ⟨?_, saying, trivial, trivial⟩, by simp [Term.blocks], ?_⟩
  · exact ⟨placed.id, placed.parent, placed.next, placed.body, placed.otherwise, placed.slots⟩
  · exact known.keeps _ (Graph.keeps_append _) rfl rfl

theorem integer_below {s : Scalar} {i : Int} (read : s.integer? = some i) : i < 2 ^ 63 := by
  obtain ⟨value, -, read⟩ := Option.bind_eq_some_iff.mp read
  cases value with
  | null =>
    cases read
    norm_num
  | integer n =>
    dsimp only at read
    split_ifs at read with small
    cases read
    exact small
  | number v =>
    dsimp only at read
    split_ifs at read
    cases read
    unfold Markup.Scalar.truncated
    dsimp only
    split_ifs with range
    · exact range.2
    · norm_num
  | _ => cases read

theorem name_run {fault : NodeFault} {name : String} (run : (nameIn n fault).run s = .ok (name, s')) :
    s' = s ∧ name ≠ "" := by
  unfold nameIn at run
  split at run
  · split_ifs at run with empty
    · cases run
    · cases run
      refine ⟨rfl, ?_⟩
      intro none
      exact empty (by rw [none]; rfl)
  · cases run

theorem type_run {type : ValueType} (run : (typeOf fs n).run s = .ok (type, s')) :
    s' = s ∧ ∃ text, ValueType.parse text = .ok type := by
  unfold typeOf at run
  split at run
  · cases run
  · split at run
    · next parsed =>
        cases run
        exact ⟨rfl, _, parsed⟩
    · cases run

theorem fields_run {entries : EntryList} (run : (fields entries).run s = .ok (fs, s')) :
    s' = s ∧ fieldsFrom [] entries = .ok fs := by
  unfold fields at run
  cases read : fieldsFrom [] entries with
  | error fault =>
    rw [read] at run
    cases run
  | ok fs' =>
    rw [read] at run
    cases run
    exact ⟨rfl, rfl⟩

theorem literal_valid {s : Scalar} {payload : Payload} {own : ValueType}
    (made : literalOf type s = .ok (payload, own)) :
    Literal payload own := by
  unfold literalOf at made
  dsimp only at made
  split at made
  · split at made
    · cases made
      exact .text _
    · split at made
      · cases made
        exact .truth _
      · cases made
    · split at made
      · cases made
        refine .number _ _ ?_ (Number.double_of_rat _)
        split_ifs <;> rfl
      · cases made
    · split at made
      · next v read =>
          cases made
          exact .number v _ rfl (Markup.scalar_double read)
      · cases made
    · cases made
  · next type =>
      split_ifs at made with text bool character single numeric
      · cases made
        exact .text _
      · split at made
        · cases made
          exact .truth _
        · cases made
      · cases made
        exact .character _ single
      · split at made
        · next v read =>
            cases made
            exact .number v _ numeric (Markup.scalar_double read)
        · cases made

theorem reads_reference {id : BlockId} (known : s.Matches names) (result : (reference n).run s = .ok (id, s')) :
    ∃ t, Produces names s s' id t := by
  obtain ⟨name, s₁, read, run⟩ := run_bind_ok.mp result
  obtain ⟨same, named⟩ := name_run read
  subst same
  obtain ⟨_, _, got, rest⟩ := run_bind_ok.mp run
  cases got
  split at rest
  · cases rest
  · next d found =>
      have looked := resolve_look known name
      rw [found] at looked
      have own : d.entry.name = name := by
        have entry := find?_some looked.symm
        simpa using entry
      refine produces_leaf known rest ⟨rfl, rfl, rfl, rfl, rfl, rfl⟩ ?_
      exact .reference d.entry (own ▸ looked.symm) (own ▸ named)

theorem reads_literal {id : BlockId} (known : s.Matches names) (run : (literal type n).run s = .ok (id, s')) :
    ∃ t, Produces names s s' id t := by
  unfold literal at run
  split at run
  · split at run
    · next payload own made =>
        exact produces_leaf known run ⟨rfl, rfl, rfl, rfl, rfl, rfl⟩
          (.literal payload own (literal_valid made))
    · cases run
  · cases run

theorem set_slot_iff (g : Graph) {g' : Graph} {c : Block} (more rest : List Block) {family : Category}
    (accepts : b.kind.accepts? slot = some family) (empty : ∀ p ∈ b.slots, p.1 ≠ slot) :
    (g.append (b :: (more ++ c :: rest))).setSlot (g.size + 1) slot (g.size + more.length + 2) = .ok g' ↔
      c.kind.category = family ∧
        g.append ({ b with slots := b.slots ++ [(slot, g.size + more.length + 2)] } :: (more ++ c :: rest)) = g' := by
  have first := g.block_head b (more ++ c :: rest)
  have child : (g.append (b :: (more ++ c :: rest))).block? (g.size + more.length + 2) = some c :=
    g.block_append (b :: more) rest c _ (by simp; omega)
  have others : b.slots.filter (fun p => p.1 ≠ slot) = b.slots :=
    filter_eq_self.mpr fun p mem => by simpa using empty p mem
  unfold Graph.setSlot
  simp only [first, accepts, child]
  split_ifs with fits
  · exact ⟨nofun, fun same => absurd same.1 fits⟩
  · rw [g.modify_head, others, Except.ok.injEq, and_iff_right (not_not.mp fits)]

theorem reads_fill (operand : Node → Loading BlockId) (reads : ReadsTerms operand) {g : Graph} {more : List Block}
    (c : Category) {u : Unit} (here : s.graph = g.append (b :: more)) (known : s.Matches names)
    (accepts : b.kind.accepts? slot = some c) (empty : ∀ p ∈ b.slots, p.1 ≠ slot)
    (result : (fill operand (g.size + 1) slot n).run s = .ok (u, s')) :
    ∃ t : Term, t.Fits c ∧ t.Reads names (g.size + 1 + more.length + 1) ∧ s'.Matches names ∧
      s'.graph = g.append ({ b with slots := b.slots ++ t.inSlot slot } :: (more ++ t.blocks)) := by
  unfold fill at result
  by_cases null : n.isNull = true
  · rw [if_pos null] at result
    cases result
    exact ⟨.missing, fun _ none => (by cases none), trivial,
      known, by simp [Term.inSlot, Term.isMissing, Term.blocks, here]⟩
  · rw [if_neg null] at result
    obtain ⟨child, s₁, read, run⟩ := run_bind_ok.mp result
    obtain ⟨_, _, got, rest⟩ := run_bind_ok.mp run
    cases got
    obtain ⟨t, present, number, numbered, grown, known⟩ := reads n s child s₁ names known read
    cases t with
    | missing => cases present
    | node top first second =>
      have size : s.graph.size + 1 = g.size + more.length + 2 := by simp [here]; omega
      have whole : s₁.graph = g.append (b :: (more ++ top :: (first.blocks ++ second.blocks))) := by
        rw [grown, here]
        simp [Term.blocks]
      split at rest
      · next g' filled =>
          rw [whole, number, size] at filled
          obtain ⟨fits, rfl⟩ := (set_slot_iff g more _ accepts empty).mp filled
          cases rest
          have own : top.id = g.size + more.length + 2 := size ▸ numbered.1.id
          refine ⟨.node top first second, ?_, ?_, ?_, ?_⟩
          · intro b' same
            cases same
            exact fits
          · rw [show g.size + 1 + more.length + 1 = s.graph.size + 1 by omega]
            exact numbered
          · refine known.keeps _ ?_ rfl rfl
            rw [whole, ← g.modify_head b _ fun b => { b with slots := b.slots ++ [(slot, g.size + more.length + 2)] }]
            exact Graph.keeps_modify _ _ _ fun _ => rfl
          · simp [Term.inSlot, Term.isMissing, Term.id, own, Term.blocks]
      · cases rest

theorem add_run (f : Block → Block) {id : BlockId} (known : s.Matches names)
    (result : (add kind n f).run s = .ok (id, s')) :
    id = s.graph.size + 1 ∧ s'.Matches names ∧ s'.frames = s.frames ∧ s'.declared = s.declared ∧
      ∃ line column, s'.graph = s.graph.append [{ f { id := s.graph.size + 1, kind } with line, column }] := by
  rw [run_add, Graph.add_eq] at result
  cases result
  exact ⟨rfl, known.keeps _ (Graph.keeps_append _) rfl rfl, rfl, rfl, _, _, rfl⟩

theorem produces_node {first : Term} (second : Term)
    (grown : s'.graph = s.graph.append (b :: (first.blocks ++ second.blocks)))
    (placed : b.Placed (s.graph.size + 1) 0 0 0 0
      (first.inSlot b.kind.firstOperand ++ second.inSlot b.kind.secondOperand))
    (saying : Expression names b.content first second) (reads : first.Reads names (s.graph.size + 2))
    (reads' : second.Reads names (s.graph.size + 2 + first.blocks.length)) (known : s'.Matches names) :
    ∃ t, Produces names s s' (s.graph.size + 1) t :=
  ⟨.node b first second, rfl, rfl, ⟨placed, saying, reads, reads'⟩, grown, known⟩

section Operands

variable (operand : Node → Loading BlockId) (reads : ReadsTerms operand) (names : Names) (s s' : LoadState)
  (a : BlockId) (known : s.Matches names)

include reads known

variable {n arg : Node}

theorem reads_not (result : (add .not n id >>= fun block => fill operand block .operand arg >>= fun _ =>
      pure block).run s = .ok (a, s')) : ∃ t, Produces names s s' a t := by
  obtain ⟨block, s₁, added, run⟩ := run_bind_ok.mp result
  obtain ⟨rfl, known, -, -, line, column, grown⟩ := add_run id known added
  obtain ⟨_, s₂, filled, rest⟩ := run_bind_ok.mp run
  obtain ⟨first, fits, numbered, known, grown⟩ := reads_fill operand reads .predicate
    grown known rfl (by simp) filled
  cases rest
  exact produces_node .missing (by simpa [Term.blocks] using grown)
    ⟨rfl, rfl, rfl, rfl, rfl, by simp [Term.inSlot, Term.isMissing, Kind.firstOperand]⟩
    (.not first fits) numbered trivial known

theorem reads_operation {kind : Kind} {c : Category} (slots : kind.slots = [(.left, c), (.right, c)])
    {left right : Node}
    (result : (add kind n id >>= fun block => fill operand block .left left >>= fun _ =>
      fill operand block .right right >>= fun _ =>
      pure block).run s = .ok (a, s')) : ∃ t, Produces names s s' a t := by
  have operands : kind.firstOperand = .left ∧ kind.secondOperand = .right := by
    cases kind <;> first | exact ⟨rfl, rfl⟩ | cases slots
  obtain ⟨block, s₁, added, run⟩ := run_bind_ok.mp result
  obtain ⟨rfl, known, -, -, line, column, grown⟩ := add_run id known added
  obtain ⟨_, s₂, filled, run₂⟩ := run_bind_ok.mp run
  obtain ⟨first, fits, numbered, known, grown⟩ := reads_fill operand reads c grown known
    (by simp [Kind.accepts?, slots]) (by simp) filled
  obtain ⟨_, s₃, filled', rest⟩ := run_bind_ok.mp run₂
  obtain ⟨second, fits', numbered', known, grown⟩ := reads_fill operand reads c grown known
    (by simp [Kind.accepts?, slots]) (by simp [Term.inSlot]) filled'
  cases rest
  refine produces_node second grown ⟨rfl, rfl, rfl, rfl, rfl, ?_⟩ (.operation kind c first second slots fits fits')
    numbered ?_ known
  · simp [operands.1, operands.2]
  · simpa [Nat.add_right_comm] using numbered'

theorem reads_element (result : (element operand n arg).run s = .ok (a, s')) : ∃ t, Produces names s s' a t := by
  unfold element at result
  split at result
  · next vector index =>
      obtain ⟨block, s₁, added, run⟩ := run_bind_ok.mp result
      obtain ⟨rfl, known, -, -, line, column, grown⟩ := add_run id known added
      obtain ⟨_, s₂, filled, run₂⟩ := run_bind_ok.mp run
      obtain ⟨first, fits, numbered, known, grown⟩ := reads_fill operand reads .value
        grown known rfl (by simp) filled
      have general : (fill operand (s.graph.size + 1) .index index >>= fun _ => pure (s.graph.size + 1)).run s₂ =
        .ok (a, s') → ∃ t, Produces names s s' a t := by
        intro run₃
        obtain ⟨_, s₃, filled', rest⟩ := run_bind_ok.mp run₃
        obtain ⟨second, fits', numbered', known, grown⟩ := reads_fill operand reads .value
          grown known rfl (by simp [Term.inSlot]) filled'
        cases rest
        refine produces_node second grown ⟨rfl, rfl, rfl, rfl, rfl, ?_⟩ (.element first second fits fits')
          numbered ?_ known
        · simp [Kind.firstOperand, Kind.secondOperand]
        · simpa [Nat.add_right_comm] using numbered'
      dsimp only at run₂
      split at run₂
      · next scalar =>
          split_ifs at run₂
          · split at run₂
            · next i read =>
                by_cases negative : i < 0
                · rw [if_pos negative] at run₂
                  obtain ⟨_, _, failed, -⟩ := run_bind_ok.mp run₂
                  cases failed
                · rw [if_neg negative] at run₂
                  obtain ⟨_, s₃, fixed, rest⟩ := run_bind_ok.mp run₂
                  cases fixed
                  cases rest
                  rw [nil_append, ← append_nil first.blocks] at grown
                  have changed : (s₂.graph.modify (s.graph.size + 1) fun b => { b with litIndex := some i }) = _ :=
                    (congrArg (Graph.modify · _ _) grown).trans (s.graph.modify_head _ _ _)
                  refine produces_node .missing changed ⟨rfl, rfl, rfl, rfl, rfl, ?_⟩
                    (.fixedElement first i fits (not_lt.mp negative) (integer_below read)) numbered trivial ?_
                  · simp [Term.inSlot, Term.isMissing, Kind.firstOperand]
                  · exact known.keeps _ (Graph.keeps_modify _ _ _ fun _ => rfl) rfl rfl
            · obtain ⟨_, _, failed, -⟩ := run_bind_ok.mp run₂
              cases failed
          · exact general run₂
      · exact general run₂
  · cases result

theorem reads_keyed {f : Field} (result : (keyed operand n f).run s = .ok (a, s')) : ∃ t, Produces names s s' a t := by
  unfold keyed at result
  split at result
  · exact reads_reference known result
  · obtain ⟨name, s₁, read, run⟩ := run_bind_ok.mp result
    obtain ⟨same, named⟩ := name_run read
    subst same
    exact produces_leaf known run ⟨rfl, rfl, rfl, rfl, rfl, rfl⟩ (.device name named)
  · obtain ⟨name, s₁, read, run⟩ := run_bind_ok.mp result
    obtain ⟨same, named⟩ := name_run read
    subst same
    exact produces_leaf known run ⟨rfl, rfl, rfl, rfl, rfl, rfl⟩ (.interrupt name named)
  · exact reads_not operand reads names s s' a known result
  · exact reads_element operand reads names s s' a known result
  · next key _ _ _ _ _ =>
      split at result
      · cases result
      · next kind found =>
          have listed := mem_of_find?_eq_some found
          have shape : ∀ k ∈ [Kind.add, .sub, .mult, .div, .mod, .and, .or, .eq, .lt, .lte, .gt, .gte],
              k.slots = [(.left, .value), (.right, .value)] ∨
                k.slots = [(.left, .predicate), (.right, .predicate)] := by decide
          split at result
          · rcases shape kind listed with slots | slots
            · exact reads_operation operand reads names s s' a known slots result
            · exact reads_operation operand reads names s s' a known slots result
          · cases result

theorem reads_operand_with (result : (operandWith operand n).run s = .ok (a, s')) : ∃ t, Produces names s s' a t := by
  unfold operandWith at result
  split at result
  · exact reads_literal known result
  · obtain ⟨fs, s₁, read, run⟩ := run_bind_ok.mp result
    obtain ⟨same, -⟩ := fields_run read
    subst same
    split at run
    · next place entries fs _ _ f _ =>
        dsimp only at run
        split_ifs at run
        · obtain ⟨_, _, failed, -⟩ := run_bind_ok.mp run
          cases failed
        · obtain ⟨type, s₂, read, rest⟩ := run_bind_ok.mp run
          obtain ⟨same, -⟩ := type_run read
          subst same
          exact reads_literal known rest
    · exact reads_keyed operand reads names s₁ s' a known run
    · cases run
  · cases result

end Operands

theorem reads_operand (fuel : Nat) : ReadsTerms (operand fuel) := by
  induction fuel with
  | zero =>
    intro n s id s' names known result
    cases result
  | succ fuel hyp =>
    intro n s id s' names known result
    exact reads_operand_with (operand fuel) hyp names s s' id known result

end Document

end Blockwork
