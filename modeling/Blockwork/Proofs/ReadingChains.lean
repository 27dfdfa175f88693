import Blockwork.Proofs.Reading

set_option autoImplicit false

namespace Blockwork

open List Plan
open Markup (Node NodeList EntryList Scalar)

-- A statement before it is linked to the others of its chain.
structure Head where
  block : Block
  operands : List (Slot × Term)
  body : Plan
  otherwise : Plan

namespace Head

def inner (h : Head) : List Block := Plan.operandBlocks h.operands ++ h.body.blocks ++ h.otherwise.blocks

def blocks (h : Head) : List Block := h.block :: h.inner

def single (h : Head) : Plan := .cons h.block h.operands h.body h.otherwise .nil

theorem single_blocks (h : Head) : h.single.blocks = h.blocks := by simp [single, Plan.blocks, blocks, inner]

def RowReads (names : Names) (k : Nat) : List Head → Prop
  | [] => True
  | h :: rest => h.single.Reads false names k 0 ∧ RowReads (h.single.after names) (k + h.blocks.length) rest

def rowAfter (names : Names) (hs : List Head) : Names := hs.foldl (fun names h => h.single.after names) names

end Head

namespace Plan

def join (parent : Nat) : List Head → Plan
  | [] => .nil
  | h :: rest =>
    .cons { h.block with parent, next := (join h.block.id rest).id } h.operands h.body h.otherwise
      (join h.block.id rest)

theorem join_after (parent : Nat) (hs : List Head) (names : Names) :
    (join parent hs).after names = Head.rowAfter names hs := by
  induction hs generalizing parent names with
  | nil => rfl
  | cons h rest hyp => exact hyp _ _

theorem join_reads {hs : List Head} (names : Names) (k parent : Nat) (row : Head.RowReads names k hs) :
    (join parent hs).Reads false names k parent := by
  induction hs generalizing names k parent with
  | nil => trivial
  | cons h rest hyp =>
    obtain ⟨⟨placed, statement, operands, body, otherwise, -⟩, row⟩ := row
    refine ⟨⟨placed.id, rfl, rfl, placed.body, placed.otherwise, placed.slots⟩, statement, operands, body,
      otherwise, ?_⟩
    have own : h.block.id = k := placed.id
    have size : k + 1 + (operandBlocks h.operands).length + h.body.blocks.length + h.otherwise.blocks.length =
        k + h.blocks.length := by
      simp [Head.blocks, Head.inner]
      omega
    rw [size, own]
    exact hyp _ _ k row

end Plan

namespace Graph

def RowNumbered (k : Nat) : List Head → Prop
  | [] => True
  | h :: rest => h.block.id = k ∧ h.block.next = 0 ∧ RowNumbered (k + h.blocks.length) rest

variable {hs : List Head}

theorem row_numbered (names : Names) (k : Nat) (row : Head.RowReads names k hs) : RowNumbered k hs := by
  induction hs generalizing names k with
  | nil => trivial
  | cons h rest hyp => exact ⟨row.1.1.id, row.1.1.next, hyp _ _ row.2⟩

variable (g : Graph)

-- Linking from the left: what is to the left of a link does not change any more.
theorem links_row (parent : Nat) (h : Head) (numbered : RowNumbered (g.size + 1) (h :: hs)) :
    ((h.block.id :: hs.map (·.block.id)).zip (hs.map (·.block.id))).foldl (fun g p => g.link p.1 p.2)
        (g.append ({ h.block with parent } :: (h.inner ++ hs.flatMap Head.blocks))) =
      g.append (Plan.join parent (h :: hs)).blocks := by
  induction hs generalizing g parent h with
  | nil =>
    have last : h.block.next = 0 := numbered.2.1
    simp [Plan.join, Plan.blocks, Head.inner, Plan.id, ← last]
  | cons h' rest hyp =>
    obtain ⟨number, -, number', last', row⟩ := numbered
    have linked : (g.append ({ h.block with parent } :: (h.inner ++ (h' :: rest).flatMap Head.blocks))).link h.block.id
      h'.block.id = (g.append ({ h.block with parent, next := h'.block.id } :: h.inner)).append
          ({ h'.block with parent := h.block.id } :: (h'.inner ++ rest.flatMap Head.blocks)) := by
      unfold link
      rw [number, modify_head]
      have second := g.modify_append ({ h.block with parent, next := h'.block.id } :: h.inner)
        (h'.inner ++ rest.flatMap Head.blocks) h'.block h'.block.id (fun b => { b with parent := g.size + 1 })
        (by rw [number']; simp [Head.blocks]; omega)
      simpa [Head.blocks] using second
    rw [map_cons, zip_cons_cons, foldl_cons, linked]
    have size : (g.append ({ h.block with parent, next := h'.block.id } :: h.inner)).size + 1 =
        g.size + 1 + h.blocks.length := by
      simp [Head.blocks]
      omega
    rw [hyp _ h.block.id h' (by rw [size]; exact ⟨number', last', row⟩)]
    simp [Plan.join, Plan.blocks, Head.inner, Plan.id]

theorem chain_row (numbered : RowNumbered (g.size + 1) hs) (loose : ∀ h ∈ hs.head?, h.block.parent = 0) :
    (g.append (hs.flatMap Head.blocks)).chain (hs.map (·.block.id)) =
      ((join 0 hs).id, g.append (join 0 hs).blocks) := by
  cases hs with
  | nil => rfl
  | cons h rest =>
    have first : { h.block with parent := 0 } = h.block := by rw [← loose h rfl]
    have linked := g.links_row 0 h numbered
    rw [first] at linked
    rw [← linked]
    rfl

theorem hang_row (b : Block) {more : List Block} (set : Nat → Block → Block)
    (numbered : RowNumbered (g.size + 1 + more.length + 1) hs) :
    (if ((g.append (b :: (more ++ (join 0 hs).blocks))).block? (join 0 hs).id).isNone then
        (g.append (b :: (more ++ (join 0 hs).blocks))).modify (g.size + 1) (set 0)
      else
        ((g.append (b :: (more ++ (join 0 hs).blocks))).modify (g.size + 1) (set (join 0 hs).id)).modify
          (join 0 hs).id fun b => { b with parent := g.size + 1 }) =
      g.append (set (join 0 hs).id b :: (more ++ (join (g.size + 1) hs).blocks)) := by
  cases hs with
  | nil =>
    rw [if_pos (by rfl), modify_head]
    rfl
  | cons h rest =>
    have number : h.block.id = g.size + 1 + more.length + 1 := numbered.1
    generalize behind : operandBlocks h.operands ++ h.body.blocks ++ h.otherwise.blocks ++
      (join h.block.id rest).blocks = tail
    generalize follower : (join h.block.id rest).id = next
    have shape : ∀ parent, (join parent (h :: rest)).blocks = { h.block with parent, next } :: tail := by
      intro parent
      rw [← behind, ← follower]
      rfl
    have first : (join 0 (h :: rest)).id = h.block.id := rfl
    have found := g.block_append (b :: more) tail { h.block with parent := 0, next } h.block.id
      (by rw [number]; simp; omega)
    rw [cons_append] at found
    have hung := g.modify_append (set h.block.id b :: more) tail { h.block with parent := 0, next } h.block.id
      (fun b => { b with parent := g.size + 1 }) (by rw [number]; simp; omega)
    rw [cons_append] at hung
    rw [first, shape, shape, if_neg (by simp [found]), modify_head, hung]
    rfl

theorem set_body_row (b : Block) (more : List Block) (hs : List Head)
    (numbered : RowNumbered (g.size + 1 + more.length + 1) hs) :
    (g.append (b :: (more ++ (join 0 hs).blocks))).setBody (g.size + 1) (join 0 hs).id =
      g.append ({ b with body := (join 0 hs).id } :: (more ++ (join (g.size + 1) hs).blocks)) :=
  g.hang_row b (fun first b => { b with body := first }) numbered

theorem set_otherwise_row (b : Block) (more : List Block) (hs : List Head)
    (numbered : RowNumbered (g.size + 1 + more.length + 1) hs) :
    (g.append (b :: (more ++ (join 0 hs).blocks))).setOtherwise (g.size + 1) (join 0 hs).id =
      g.append ({ b with otherwise := (join 0 hs).id } :: (more ++ (join (g.size + 1) hs).blocks)) :=
  g.hang_row b (fun first b => { b with otherwise := first }) numbered

theorem keeps_set_body (block first : Nat) : g.Keeps (g.setBody block first) := by
  unfold setBody
  split_ifs
  · exact g.keeps_modify block (fun b => { b with body := 0 }) fun _ => rfl
  · apply Keeps.trans (g.keeps_modify block (fun b => { b with body := first }) fun _ => rfl)
    exact keeps_modify _ first (fun b => { b with parent := block }) fun _ => rfl

theorem keeps_set_otherwise (block first : Nat) : g.Keeps (g.setOtherwise block first) := by
  unfold setOtherwise
  split_ifs
  · exact g.keeps_modify block (fun b => { b with otherwise := 0 }) fun _ => rfl
  · apply Keeps.trans (g.keeps_modify block (fun b => { b with otherwise := first }) fun _ => rfl)
    exact keeps_modify _ first (fun b => { b with parent := block }) fun _ => rfl

theorem keeps_link (previous next : Nat) : g.Keeps (g.link previous next) := by
  apply Keeps.trans (g.keeps_modify previous (fun b => { b with next }) fun _ => rfl)
  exact keeps_modify _ next (fun b => { b with parent := previous }) fun _ => rfl

theorem keeps_chain (ids : List Nat) : g.Keeps (g.chain ids).2 := by
  have linked : ∀ (links : List (Nat × Nat)) (g : Graph), g.Keeps (links.foldl (fun g p => g.link p.1 p.2) g) := by
    intro links
    induction links with
    | nil => exact fun g id b found => ⟨b, found, rfl⟩
    | cons p links hyp =>
      intro g
      exact (g.keeps_link p.1 p.2).trans (hyp (g.link p.1 p.2))
  cases ids with
  | nil => exact fun id b found => ⟨b, found, rfl⟩
  | cons first rest => exact linked _ g

end Graph

namespace Document

structure Makes (top : Bool) (names : Names) (s s' : LoadState) (a : Nat) (h : Head) : Prop where
  id : a = s.graph.size + 1
  reads : h.single.Reads top names (s.graph.size + 1) 0
  graph : s'.graph = s.graph.append h.blocks
  known : s'.Matches (h.single.after names)

def ReadsStatements (statement : Node → Fields → Loading BlockId) : Prop :=
  ∀ n fs s a s' names, s.Matches names → (statement n fs).run s = .ok (a, s') → ∃ h, Makes false names s s' a h

section Chains

variable (r : Readers) (reads : ReadsStatements r.statement)

include reads

theorem reads_statements (items : NodeList) (names : Names) (s s' : LoadState) (ids : List BlockId)
    (known : s.Matches names) (result : (statements r items).run s = .ok (ids, s')) :
    ∃ hs : List Head, ids = hs.map (·.block.id) ∧ Head.RowReads names (s.graph.size + 1) hs ∧
      s'.graph = s.graph.append (hs.flatMap Head.blocks) ∧ s'.Matches (Head.rowAfter names hs) := by
  match items with
  | .nil =>
    cases result
    exact ⟨[], rfl, trivial, by simp, known⟩
  | .cons item rest =>
    unfold statements at result
    split at result
    · obtain ⟨fs, s₁, read, run⟩ := run_bind_ok.mp result
      obtain ⟨same, -⟩ := fields_run read
      subst same
      obtain ⟨first, s₂, made, run₂⟩ := run_bind_ok.mp run
      obtain ⟨later, s₃, others, last⟩ := run_bind_ok.mp run₂
      cases last
      obtain ⟨h, number, single, grown, known⟩ := reads _ fs s₁ first s₂ names known made
      obtain ⟨hs, rfl, row, grown', known⟩ := reads_statements rest _ s₂ s' later known others
      have own : h.block.id = s₁.graph.size + 1 := single.1.id
      have size : s₂.graph.size + 1 = s₁.graph.size + 1 + h.blocks.length := by
        rw [grown, Graph.size_append]
        omega
      exact ⟨h :: hs, by rw [number, ← own]; rfl, ⟨single, size ▸ row⟩, by rw [grown', grown]; simp, known⟩
    · cases result

variable {n : Node} {names : Names} {s s' : LoadState} {g : Graph} {b : Block} {more : List Block} {u : Unit}

theorem reads_chain {ids : List BlockId} (known : s.Matches names) (result : (chain r n).run s = .ok (ids, s')) :
    ∃ hs : List Head, ids = hs.map (·.block.id) ∧ Head.RowReads names (s.graph.size + 1) hs ∧
      s'.graph = s.graph.append (hs.flatMap Head.blocks) ∧ s'.Matches (Head.rowAfter names hs) := by
  unfold chain at result
  split_ifs at result
  · cases result
    exact ⟨[], rfl, trivial, by simp, known⟩
  · split at result
    · exact reads_statements r reads _ names s s' ids known result
    · cases result

theorem reads_body {first : BlockId} (known : s.Matches names) (result : (body r n).run s = .ok (first, s')) :
    ∃ hs : List Head, first = (join 0 hs).id ∧ Head.RowReads names.enter (s.graph.size + 1) hs ∧
      s'.graph = s.graph.append (join 0 hs).blocks ∧ s'.Matches (Head.rowAfter names.enter hs).leave := by
  obtain ⟨s₁, inside, rfl⟩ := run_in_body result
  obtain ⟨ids, s₂, read, rest⟩ := run_bind_ok.mp inside
  obtain ⟨hs, rfl, row, grown, known⟩ := reads_chain r reads (known.enter) read
  have linked := s.graph.chain_row (Graph.row_numbered _ _ row) fun h head => by
    cases hs with
    | nil => cases head
    | cons h' rest =>
      cases head
      exact row.1.1.parent
  rw [← grown] at linked
  have keeps := s₂.graph.keeps_chain (hs.map (·.block.id))
  cases rest
  refine ⟨hs, congrArg Prod.fst linked, row, congrArg Prod.snd linked, ?_⟩
  have chained := known.keeps { s₂ with graph := (s₂.graph.chain (hs.map (·.block.id))).2 } keeps rfl rfl
  exact chained.leave

theorem reads_hung (hang : Graph → Nat → Nat → Graph) (set : Nat → Block → Block)
    (hung : ∀ (g : Graph) (b : Block) (more : List Block) (hs : List Head), Graph.RowNumbered
      (g.size + 1 + more.length + 1) hs →
      hang (g.append (b :: (more ++ (join 0 hs).blocks))) (g.size + 1) (join 0 hs).id =
      g.append (set (join 0 hs).id b :: (more ++ (join (g.size + 1) hs).blocks)))
    (keeps : ∀ (g : Graph) (block first : Nat), g.Keeps (hang g block first)) (here : s.graph = g.append (b :: more))
    (known : s.Matches names)
    (result : (body r n >>= fun first => onGraph (hang · (g.size + 1) first)).run s = .ok (u, s')) :
    ∃ p : Plan, p.Reads false names.enter (g.size + 1 + more.length + 1) (g.size + 1) ∧
      s'.Matches (p.after names.enter).leave ∧ s'.graph = g.append (set p.id b :: (more ++ p.blocks)) := by
  obtain ⟨first, s₁, read, rest⟩ := run_bind_ok.mp result
  obtain ⟨hs, rfl, row, grown, known⟩ := reads_body r reads known read
  have size : s.graph.size + 1 = g.size + 1 + more.length + 1 := by
    rw [here, Graph.size_append, length_cons]
    omega
  rw [size] at row
  refine ⟨join (g.size + 1) hs, join_reads _ _ _ row, ?_, ?_⟩
  · rw [join_after]
    cases rest
    exact known.keeps _ (keeps _ _ _) rfl rfl
  · have same : (join (g.size + 1) hs).id = (join 0 hs).id := by cases hs <;> rfl
    have whole : s₁.graph = g.append (b :: (more ++ (join 0 hs).blocks)) := by
      rw [grown, here]
      simp
    cases rest
    rw [same, ← hung g b more hs (Graph.row_numbered _ _ row), ← whole]

theorem reads_attach {fs : Fields} {key : String} (here : s.graph = g.append (b :: more)) (known : s.Matches names)
    (empty : b.body = 0) (result : (attachBody r (g.size + 1) fs key).run s = .ok (u, s')) :
    ∃ p : Plan, p.Reads false names.enter (g.size + 1 + more.length + 1) (g.size + 1) ∧
      s'.Matches (p.after names.enter).leave ∧ s'.graph = g.append ({ b with body := p.id } :: (more ++ p.blocks)) := by
  unfold attachBody at result
  split at result
  · cases result
    have none : b.body = nil.id := empty
    refine ⟨.nil, trivial, known, ?_⟩
    rw [here, ← none, blocks, append_nil]
  · exact reads_hung r reads Graph.setBody (fun first b => { b with body := first }) Graph.set_body_row
      Graph.keeps_set_body here known result

end Chains

section Statements

variable (r : Readers) (terms : ReadsTerms r.operand) (reads : ReadsStatements r.statement) (names : Names)
  (s s' : LoadState) (a : BlockId) (known : s.Matches names) {b : Block} {n head : Node} {fs : Fields} {g : Graph}
  {slot : Slot} {key : String} {u : Unit} {kind : Kind} (top : Bool)

theorem makes_statement {inner : List Block} (grown : s'.graph = s.graph.append (b :: inner))
    (operands : List (Slot × Term)) {body otherwise : Plan}
    (shape : inner = operandBlocks operands ++ body.blocks ++ otherwise.blocks)
    (placed : b.Placed (s.graph.size + 1) 0 0 body.id otherwise.id (operandSlots operands))
    (statement : Statement top b.content operands body otherwise)
    (operandsRead : Plan.OperandsRead (names.inside b) b.kind (s.graph.size + 2) operands)
    (bodyReads : body.Reads false (names.inside b).enter (s.graph.size + 2 + (operandBlocks operands).length)
      (s.graph.size + 1)) (otherwiseReads : otherwise.Reads false (body.after (names.inside b).enter).leave.enter
      (s.graph.size + 2 + (operandBlocks operands).length + body.blocks.length) (s.graph.size + 1))
    (known : s'.Matches ((otherwise.after (body.after (names.inside b).enter).leave.enter).leave.past b)) :
    ∃ h, Makes top names s s' (s.graph.size + 1) h := by
  subst shape
  exact ⟨⟨b, operands, body, otherwise⟩, rfl, ⟨placed, statement, operandsRead, bodyReads, otherwiseReads, trivial⟩,
    grown, known⟩

include known

theorem reads_variable (result : (variableDecl n head fs).run s = .ok (a, s')) :
    ∃ h, Makes top names s s' a h := by
  obtain ⟨name, s₁, read, run⟩ := run_bind_ok.mp result
  obtain ⟨same, named⟩ := name_run read
  subst same
  obtain ⟨type, s₂, read, run₂⟩ := run_bind_ok.mp run
  obtain ⟨same, readable⟩ := type_run read
  subst same
  have made : ∀ checked, (add .variableDecl n (fun b => { b with name, type := some type, checked }) >>= fun block =>
      declare block >>= fun _ => pure block).run s₂ = .ok (a, s') → ∃ h, Makes top names s₂ s' a h := by
    intro checked run
    obtain ⟨block, s₃, added, run₃⟩ := run_bind_ok.mp run
    obtain ⟨rfl, known, -, -, line, column, grown⟩ := add_run _ known added
    obtain ⟨_, s₄, declared, rest⟩ := run_bind_ok.mp run₃
    cases rest
    have here := (congrArg (Graph.block? · (s₂.graph.size + 1)) grown).trans (s₂.graph.block_head _ [])
    obtain ⟨known, same⟩ := known.declare here rfl _ declared
    exact makes_statement names s₂ s' top (same.trans grown) [] rfl ⟨rfl, rfl, rfl, rfl, rfl, rfl⟩
      (.declaration name type checked named readable) trivial trivial trivial known
  split at run₂
  · exact made _ run₂
  · split at run₂
    · exact made _ run₂
    · obtain ⟨_, _, failed, -⟩ := run_bind_ok.mp run₂
      cases failed

include terms

omit known in
theorem reads_fill_field {more : List Block} (c : Category) {s s' : LoadState} (here : s.graph = g.append (b :: more))
    (known : s.Matches names) (accepts : b.kind.accepts? slot = some c) (empty : ∀ p ∈ b.slots, p.1 ≠ slot)
    (result : (fillField r (g.size + 1) slot fs key).run s = .ok (u, s')) :
    ∃ t : Term, t.Fits c ∧ t.Reads names (g.size + 1 + more.length + 1) ∧ s'.Matches names ∧
      s'.graph = g.append ({ b with slots := b.slots ++ t.inSlot slot } :: (more ++ t.blocks)) := by
  unfold fillField at result
  split at result
  · cases result
    exact ⟨.missing, fun _ none => (by cases none), trivial,
      known, by simp [Term.inSlot, Term.isMissing, Term.blocks, here]⟩
  · exact reads_fill r.operand terms c here known accepts empty result

theorem reads_simple (plain : kind ≠ .forLoop ∧ kind ≠ .variableDecl)
    (accepts : kind.accepts? slot = some .value) (statement : ∀ t, Statement top { kind } [(slot, t)] .nil .nil)
    (result : (add kind n id >>= fun block => fill r.operand block slot head >>= fun _ => pure block).run s =
      .ok (a, s')) :
    ∃ h, Makes top names s s' a h := by
  obtain ⟨block, s₁, added, run⟩ := run_bind_ok.mp result
  obtain ⟨rfl, known, -, -, line, column, grown⟩ := add_run id known added
  obtain ⟨_, s₂, filled, rest⟩ := run_bind_ok.mp run
  obtain ⟨t, fits, numbered, known, grown⟩ := reads_fill r.operand terms .value grown known
    accepts (by simp) filled
  cases rest
  refine makes_statement names s s' top grown [(slot, t)] ?_ ⟨rfl, rfl, rfl, rfl, rfl, ?_⟩ (statement t)
    ⟨⟨.value, accepts, fits⟩, ?_, trivial⟩ trivial trivial ?_
  · simp [Plan.operandBlocks, Plan.blocks]
  · simp [Plan.operandSlots]
  · simpa [Names.inside, plain.1] using numbered
  · simpa [Plan.after, Names.past, Names.inside, plain.1, plain.2] using known

theorem reads_assign
    (result : (add .assign n id >>= fun block => fill r.operand block .var head >>= fun _ =>
      fillField r block .value fs "to" >>= fun _ => pure block).run s = .ok (a, s')) :
    ∃ h, Makes top names s s' a h := by
  obtain ⟨block, s₁, added, run⟩ := run_bind_ok.mp result
  obtain ⟨rfl, known, -, -, line, column, grown⟩ := add_run id known added
  obtain ⟨_, s₂, filled, run₂⟩ := run_bind_ok.mp run
  obtain ⟨target, fits, numbered, known, grown⟩ := reads_fill r.operand terms .value grown
    known rfl (by simp) filled
  obtain ⟨_, s₃, filled', rest⟩ := run_bind_ok.mp run₂
  obtain ⟨value, fits', numbered', known, grown⟩ := reads_fill_field r terms names .value grown
    known rfl (by simp [Term.inSlot]) filled'
  cases rest
  refine makes_statement names s s' top grown [(.var, target), (.value, value)] ?_ ⟨rfl, rfl, rfl, rfl, rfl, ?_⟩
    (.assign target value) ⟨⟨.value, rfl, fits⟩, numbered, ⟨.value, rfl, fits'⟩, ?_, trivial⟩ trivial trivial known
  · simp [operandBlocks, blocks]
  · simp [operandSlots]
  · change value.Reads names _
    simpa [Nat.add_right_comm] using numbered'

include reads

omit known reads in
theorem reads_bounds {iteration : Iteration} {keys : List String} (b : Block) (more : List Block) (s s' : LoadState)
    (here : s.graph = g.append (b :: more)) (known : s.Matches names) (kind : b.kind = .forLoop)
    (apart : (keys.filterMap (boundSlot? iteration)).Nodup)
    (empty : ∀ p ∈ b.slots, p.1 ∉ keys.filterMap (boundSlot? iteration))
    (result : (bounds r (g.size + 1) iteration fs keys).run s = .ok (u, s')) :
    ∃ operands : List (Slot × Term), operands.map Prod.fst = keys.filterMap (boundSlot? iteration) ∧
      Plan.OperandsRead names .forLoop (g.size + 1 + more.length + 1) operands ∧ s'.Matches names ∧
      s'.graph = g.append
        ({ b with slots := b.slots ++ operandSlots operands } :: (more ++ operandBlocks operands)) := by
  have accepted : ∀ (key : String) (slot : Slot), boundSlot? iteration key = some slot →
      ∃ c, Kind.forLoop.accepts? slot = some c := by
    intro key slot found
    unfold boundSlot? at found
    split at found <;> cases found <;> exact ⟨_, rfl⟩
  induction keys generalizing b more s with
  | nil =>
    cases result
    exact ⟨[], rfl, trivial, known, by simp [operandSlots, operandBlocks, here]⟩
  | cons key rest hyp =>
    unfold bounds at result
    cases found : boundSlot? iteration key with
    | none =>
      rw [filterMap_cons_none found] at apart empty ⊢
      cases given : fs.get? key with
      | none =>
        simp only [given] at result
        exact hyp b more s here known kind apart empty result
      | some f =>
        simp only [given, found] at result
        cases result
    | some slot =>
      rw [filterMap_cons_some found] at apart empty ⊢
      obtain ⟨fresh, apart⟩ := nodup_cons.mp apart
      obtain ⟨c, accepts⟩ := accepted key slot found
      have open_ : ∀ p ∈ b.slots, p.1 ≠ slot := fun p mem same => empty p mem (same ▸ mem_cons_self)
      have others : ∀ p ∈ b.slots, p.1 ∉ rest.filterMap (boundSlot? iteration) := fun p mem later =>
        empty p mem (mem_cons_of_mem slot later)
      cases given : fs.get? key with
      | none =>
        simp only [given] at result
        obtain ⟨operands, slots, numbered, known, grown⟩ := hyp b more s here known kind apart others result
        refine ⟨(slot, .missing) ::
          operands, by simp [slots], ⟨⟨c, accepts, fun _ none => by cases none⟩, trivial, numbered⟩, known, ?_⟩
        rw [grown]
        simp [operandSlots, operandBlocks, Term.inSlot, Term.isMissing, Term.blocks]
      | some f =>
        simp only [given, found] at result
        obtain ⟨_, s₁, filled, run⟩ := run_bind_ok.mp result
        obtain ⟨t, fits, numbered, known, grown⟩ := reads_fill r.operand terms c here known
          (kind ▸ accepts) open_ filled
        obtain ⟨operands, slots, numbered', known, grown⟩ := hyp _ _ s₁ grown known kind apart (by
          intro p mem
          rcases mem_append.mp mem with old | new
          · exact others p old
          · unfold Term.inSlot at new
            split_ifs at new
            · cases new
            · rw [mem_singleton.mp new]
              exact fresh) run
        refine ⟨(slot, t) :: operands, by simp [slots], ⟨⟨c, accepts, fits⟩, numbered, ?_⟩, known, ?_⟩
        · have size : g.size + 1 + more.length + 1 + t.blocks.length = g.size + 1 + (more ++ t.blocks).length + 1 := by
            rw [length_append]
            omega
          rw [size]
          exact numbered'
        · rw [grown]
          simp [operandSlots, operandBlocks]

theorem reads_conditional (accepts : kind.accepts? .cond = some .predicate) {rest : BlockId → Loading BlockId}
    (result : (add kind n id >>= fun block => fill r.operand block .cond head >>= fun _ =>
      attachBody r block fs key >>= fun _ =>
      rest block).run s = .ok (a, s')) :
    ∃ (cond : Term) (p : Plan) (s₁ : LoadState) (line column : Nat), cond.Fits .predicate ∧
      cond.Reads names (s.graph.size + 2) ∧
      p.Reads false names.enter (s.graph.size + 2 + cond.blocks.length) (s.graph.size + 1) ∧
      s₁.Matches (p.after names.enter).leave ∧
      s₁.graph = s.graph.append
        ({ id := s.graph.size + 1, kind, line, column, slots := cond.inSlot .cond, body := p.id } ::
          (cond.blocks ++ p.blocks)) ∧
      (rest (s.graph.size + 1)).run s₁ = .ok (a, s') := by
  obtain ⟨block, s₁, added, run⟩ := run_bind_ok.mp result
  obtain ⟨rfl, known, -, -, line, column, grown⟩ := add_run id known added
  obtain ⟨_, s₂, filled, run₂⟩ := run_bind_ok.mp run
  obtain ⟨cond, fits, numbered, known, grown⟩ := reads_fill r.operand terms .predicate grown
    known accepts (by simp) filled
  obtain ⟨_, s₃, attached, last⟩ := run_bind_ok.mp run₂
  obtain ⟨p, planned, known, grown⟩ := reads_attach r reads grown known rfl attached
  refine ⟨cond, p, s₃, line, column, fits, numbered, ?_, known, grown, last⟩
  simpa [Nat.add_right_comm] using planned

theorem reads_tested (plain : kind ≠ .forLoop ∧ kind ≠ .variableDecl)
    (accepts : kind.accepts? .cond = some .predicate)
    (statement : ∀ cond p, Statement top { kind } [(.cond, cond)] p .nil)
    (result : (add kind n id >>= fun block => fill r.operand block .cond head >>= fun _ =>
      attachBody r block fs key >>= fun _ =>
      pure block).run s = .ok (a, s')) : ∃ h, Makes top names s s' a h := by
  obtain ⟨cond, p, s₁, line, column, fits, numbered, planned, known, grown, rest⟩ :=
    reads_conditional r terms reads names s s'
    a known accepts result
  cases rest
  refine makes_statement names s s' top grown [(.cond, cond)] ?_ ⟨rfl, rfl, rfl, rfl, rfl, ?_⟩ (statement cond p)
    ⟨⟨.predicate, accepts, fits⟩, ?_, trivial⟩ ?_ trivial ?_
  · simp [Plan.operandBlocks, Plan.blocks]
  · simp [Plan.operandSlots]
  · simpa [Names.inside, plain.1] using numbered
  · simpa [Names.inside, plain.1, Plan.operandBlocks] using planned
  · simpa [Plan.after, Names.past, Names.inside, plain.1, plain.2] using known

theorem reads_branch (result : (branch r n head fs).run s = .ok (a, s')) :
    ∃ h, Makes top names s s' a h := by
  unfold branch at result
  cases other : fs.get? "else" with
  | none =>
    have kind : fs.has "else" = false := by simp [Fields.has, other]
    simp only [kind, other, Bool.false_eq_true, if_false] at result
    exact reads_tested r terms reads names s s' a known top (by decide) rfl .ifThen result
  | some f =>
    have kind : fs.has "else" = true := by simp [Fields.has, other]
    simp only [kind, other, if_true] at result
    obtain ⟨cond, p, s₁, line, column, fits, numbered, planned, known, grown, run⟩ :=
      reads_conditional r terms reads names s s'
      a known rfl result
    rw [← bind_assoc] at run
    obtain ⟨_, s₂, hung, rest⟩ := run_bind_ok.mp run
    cases rest
    obtain ⟨q, planned', known, grown⟩ :=
      reads_hung r reads Graph.setOtherwise (fun first b => { b with otherwise := first })
      Graph.set_otherwise_row Graph.keeps_set_otherwise grown known hung
    refine makes_statement names s s' top grown [(.cond, cond)] ?_ ⟨rfl, rfl, rfl, rfl, rfl, ?_⟩ (.ifElse cond p q)
      ⟨⟨.predicate, rfl, fits⟩, numbered, trivial⟩ ?_ ?_ known
    · simp [operandBlocks]
    · simp [operandSlots]
    · change p.Reads false names.enter _ _
      simpa [operandBlocks] using planned
    · change q.Reads false (p.after names.enter).leave.enter _ _
      have size : s.graph.size + 2 + (operandBlocks [(.cond, cond)]).length + p.blocks.length =
          s.graph.size + 1 + (cond.blocks ++ p.blocks).length + 1 := by
        simp [operandBlocks]
        omega
      rw [size]
      exact planned'

theorem reads_counting (top : Bool) {name : String} {type : ValueType} (named : name ≠ "")
    (readable : ∃ text, ValueType.parse text = .ok type)
    (result :
      (add .forLoop n (fun b => { b with name, type := some type, iteration := iterationOf fs }) >>= fun block =>
      inBody (declare block >>= fun _ => bounds r block (iterationOf fs) fs boundKeys >>= fun _ =>
        attachBody r block fs "do") >>= fun _ => pure block).run s = .ok (a, s')) : ∃ h, Makes top names s s' a h := by
  obtain ⟨block, s₁, added, run⟩ := run_bind_ok.mp result
  obtain ⟨rfl, known, -, -, line, column, grown⟩ := add_run _ known added
  obtain ⟨_, s₂, inner, rest⟩ := run_bind_ok.mp run
  cases rest
  obtain ⟨s₃, inside, rfl⟩ := run_in_body inner
  obtain ⟨_, s₄, declared, run₂⟩ := run_bind_ok.mp inside
  have here := (congrArg (Graph.block? · (s.graph.size + 1)) grown).trans (s.graph.block_head _ [])
  obtain ⟨known, same⟩ := (known.enter).declare here rfl _ declared
  obtain ⟨_, s₅, bounded, attached⟩ := run_bind_ok.mp run₂
  have slots : boundKeys.filterMap (boundSlot? (iterationOf fs)) = (iterationOf fs).bounds := by
    cases iterationOf fs <;> rfl
  obtain ⟨operands, order, numbered, known, grown⟩ := reads_bounds r terms _ _ [] s₄ s₅
    (same.trans grown) known rfl (by rw [slots]; cases iterationOf fs <;> decide) (by simp) bounded
  obtain ⟨p, planned, known, grown⟩ := reads_attach r reads grown known rfl attached
  refine makes_statement names s _ top grown operands ?_ ⟨rfl, rfl, rfl, rfl, rfl, ?_⟩
    (.forLoop name type _ operands p named readable (order.trans slots)) numbered ?_ trivial (known.leave)
  · simp [blocks]
  · simp
  · simpa [Nat.add_right_comm, Names.inside, Block.entry] using planned

theorem reads_for (result : (forLoop r n head fs).run s = .ok (a, s')) :
    ∃ h, Makes top names s s' a h := by
  obtain ⟨name, s₁, read, run⟩ := run_bind_ok.mp result
  obtain ⟨same, named⟩ := name_run read
  subst same
  dsimp only at run
  split_ifs at run
  · obtain ⟨type, s₂, read, rest⟩ := run_bind_ok.mp run
    obtain ⟨same, readable⟩ := type_run read
    subst same
    exact reads_counting r terms reads names s₂ s' a known top named readable rest
  · exact reads_counting r terms reads names s₁ s' a known top named ⟨"int", by decide +kernel⟩ run

theorem reads_handler (result : (handler r n head fs).run s = .ok (a, s')) :
    ∃ h s₁, Makes true names s s₁ a h ∧ h.block.kind = .when ∧
      s' = { s₁ with graph := { s₁.graph with handlers := s₁.graph.handlers ++ [a] } } := by
  obtain ⟨block, s₁, added, run⟩ := run_bind_ok.mp result
  obtain ⟨rfl, known, -, -, line, column, grown⟩ := add_run id known added
  obtain ⟨_, s₂, filled, run₂⟩ := run_bind_ok.mp run
  obtain ⟨cond, fits, numbered, known, grown⟩ := reads_fill r.operand terms .predicate grown
    known rfl (by simp) filled
  have listed : ∀ (times : Int) (s₃ : LoadState), times = unbounded ∨ 0 ≤ times ∧ times < 2 ^ 63 → s₃.Matches names →
      s₃.graph = s.graph.append
        ({ id := s.graph.size + 1, kind := .when, line, column, slots := cond.inSlot .cond, times } ::
        cond.blocks) →
      (attachBody r (s.graph.size + 1) fs "do" >>= fun _ =>
        onGraph (fun g => { g with handlers := g.handlers ++ [s.graph.size + 1] }) >>=
          fun _ => pure (s.graph.size + 1)).run s₃ = .ok (a, s') →
      ∃ h s₁, Makes true names s s₁ a h ∧ h.block.kind = .when ∧
        s' = { s₁ with graph := { s₁.graph with handlers := s₁.graph.handlers ++ [a] } } := by
    intro times s₃ limit known grown run
    obtain ⟨_, s₄, attached, last⟩ := run_bind_ok.mp run
    obtain ⟨p, planned, known, grown⟩ := reads_attach r reads grown known rfl attached
    cases last
    let b : Block :=
      { id := s.graph.size + 1, kind := .when, line, column, slots := cond.inSlot .cond, times, body := p.id }
    refine ⟨⟨b, [(.cond, cond)], p, .nil⟩, s₄, ⟨rfl, ⟨⟨rfl, rfl, rfl, rfl, rfl, ?_⟩, .handler cond times p rfl limit,
      ⟨⟨.predicate, rfl, fits⟩, numbered, trivial⟩, ?_, trivial, trivial⟩, ?_, known⟩, rfl, rfl⟩
    · simp [operandSlots, b]
    · change p.Reads false names.enter _ _
      simpa [operandBlocks, Nat.add_right_comm] using planned
    · simpa [Head.blocks, Head.inner, operandBlocks, blocks] using grown
  dsimp only at run₂
  split at run₂
  · exact listed unbounded s₂ (.inl rfl) known grown run₂
  · split at run₂
    · obtain ⟨_, _, failed, -⟩ := run_bind_ok.mp run₂
      cases failed
    · next times read =>
        split_ifs at run₂ with negative
        · obtain ⟨_, _, failed, -⟩ := run_bind_ok.mp run₂
          cases failed
        · obtain ⟨_, s₃, counted, run₃⟩ := run_bind_ok.mp run₂
          obtain ⟨scalar, -, read⟩ := Option.bind_eq_some_iff.mp read
          cases counted
          refine listed times _ (.inr ⟨not_lt.mp negative, integer_below read⟩) ?_ ?_ run₃
          · exact known.keeps _ (Graph.keeps_modify _ _ (fun b => { b with times }) fun _ => rfl) rfl rfl
          · dsimp only
            rw [grown, Graph.modify_head]
            rfl

omit terms reads known in
theorem keyword_run {word : String} (result : (keyword n fs).run s = .ok ((word, head), s')) :
    s' = s ∧ (fs.has "when" = true → word = "when") := by
  unfold keyword at result
  split at result
  · cases result
  · next f others found =>
      split at result
      · cases result
      · next allowed =>
          cases result
          refine ⟨rfl, fun given => ?_⟩
          by_contra other
          obtain ⟨g, mem, named⟩ : ∃ g ∈ fs, g.name = "when" := by
            obtain ⟨g, found⟩ := Option.isSome_iff_exists.mp given
            exact ⟨g, mem_of_find?_eq_some found, by simpa using find?_some found⟩
          have refused := find?_eq_none.mp allowed g mem
          obtain ⟨f', -, key⟩ := exists_of_findSome?_eq_some found
          obtain ⟨k, listed, same⟩ := Option.map_eq_some_iff.mp key
          cases same
          have free : ∀ k ∈ statementKeys, ¬ k.2.contains "when" = true := by decide +kernel
          simp [named, Ne.symm other] at refused
          exact free k (mem_of_find?_eq_some listed) (by simpa using refused)

theorem reads_statement_with (result : (statementWith r false n fs).run s = .ok (a, s')) :
    ∃ h, Makes false names s s' a h := by
  obtain ⟨⟨word, head⟩, s₁, read, run⟩ := run_bind_ok.mp result
  obtain ⟨same, -⟩ := keyword_run s s₁ read
  subst same
  dsimp only at run
  split at run
  · exact reads_variable names s₁ s' a known false run
  · exact reads_assign r terms names s₁ s' a known false run
  · exact reads_simple r terms names s₁ s' a known false (by decide) rfl .print run
  · exact reads_simple r terms names s₁ s' a known false (by decide) rfl .input run
  · exact reads_branch r terms reads names s₁ s' a known false run
  · exact reads_tested r terms reads names s₁ s' a known false (by decide) rfl .whileLoop run
  · exact reads_for r terms reads names s₁ s' a known false run
  · cases run

theorem reads_handler_with (given : fs.has "when" = true) (result : (statementWith r true n fs).run s = .ok (a, s')) :
    ∃ h s₁, Makes true names s s₁ a h ∧ h.block.kind = .when ∧
      s' = { s₁ with graph := { s₁.graph with handlers := s₁.graph.handlers ++ [a] } } := by
  obtain ⟨⟨word, head⟩, s₁, read, run⟩ := run_bind_ok.mp result
  obtain ⟨same, keyed⟩ := keyword_run s s₁ read
  subst same
  rw [keyed given] at run
  exact reads_handler r terms reads names s₁ s' a known run

end Statements

theorem reads_statement (operand : Node → Loading BlockId) (terms : ReadsTerms operand) (fuel : Nat) :
    ReadsStatements (statement operand fuel false) := by
  induction fuel with
  | zero =>
    intro n fs s a s' names known result
    cases result
  | succ fuel hyp =>
    intro n fs s a s' names known result
    exact reads_statement_with ⟨operand, statement operand fuel false⟩ terms hyp names s s' a known result

theorem reads_readers (depth : Nat) : ReadsStatements (readers depth).statement :=
  reads_statement (operand depth) (reads_operand depth) depth

end Document

end Blockwork
