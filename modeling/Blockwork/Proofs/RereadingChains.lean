import Blockwork.Proofs.Rereading

set_option autoImplicit false

namespace Blockwork

open List Outline Plan
open Markup (Node NodeList EntryList Scalar)

def Block.loose (b : Block) : Block := { b with parent := 0, next := 0 }

namespace Plan

def row : Plan → List Head
  | .nil => []
  | .cons b operands body otherwise rest => ⟨b.loose, operands, body, otherwise⟩ :: rest.row

theorem join_row (p : Plan) {top : Bool} (names : Names) (k parent : Nat) (reads : p.Reads top names k parent) :
    join parent p.row = p := by
  induction p generalizing names k parent with
  | nil => rfl
  | cons b operands body otherwise rest hyp hyp' hyp'' =>
    obtain ⟨placed, -, -, -, -, others⟩ := reads
    have own : b.loose.id = k := placed.id
    rw [row, join, own, hyp'' _ _ k others]
    congr 1
    rw [← placed.parent, ← placed.next]
    rfl

theorem row_reads (p : Plan) (names : Names) (k parent : Nat) (reads : p.Reads false names k parent) :
    Head.RowReads names k p.row := by
  induction p generalizing names k parent with
  | nil => trivial
  | cons b operands body otherwise rest hyp hyp' hyp'' =>
    obtain ⟨placed, statement, operandsRead, bodyReads, otherwiseReads, others⟩ := reads
    refine ⟨⟨⟨placed.id, rfl, rfl, placed.body, placed.otherwise, placed.slots⟩, statement, operandsRead, bodyReads,
      otherwiseReads, trivial⟩, ?_⟩
    have size : k + 1 + (operandBlocks operands).length + body.blocks.length + otherwise.blocks.length =
        k + (Head.mk b.loose operands body otherwise).blocks.length := by
      simp [Head.blocks, Head.inner]
      omega
    rw [← size]
    exact hyp'' _ _ _ others

theorem row_loose (p : Plan) : ∀ h ∈ p.row.head?, h.block.parent = 0 := by
  intro h head
  cases p with
  | nil => cases head
  | cons b operands body otherwise rest =>
    cases head
    rfl

end Plan

namespace Plan

variable {operands : List (Slot × Term)}

theorem among_of_mem (apart : (operands.map Prod.fst).Nodup) {slot : Slot} {t : Term} (mem : (slot, t) ∈ operands) :
    among operands slot = t := by
  induction operands with
  | nil => cases mem
  | cons p rest hyp =>
    obtain ⟨fresh, distinct⟩ := nodup_cons.mp apart
    unfold among
    rcases mem_cons.mp mem with rfl | mem
    · rw [find?_cons_of_pos (by simp)]
      rfl
    · have other : p.1 ≠ slot := fun same => fresh (mem_map.mpr ⟨_, mem, same.symm⟩)
      rw [find?_cons_of_neg (by simpa using other)]
      exact hyp distinct mem

theorem operands_present {names : Names} {kind : Kind} (k : Nat) (positive : 0 < k)
    (reads : OperandsRead names kind k operands) : ∀ p ∈ operands, p.2.id = 0 → p.2 = .missing := by
  induction operands generalizing k with
  | nil => simp
  | cons p rest hyp =>
    obtain ⟨-, reads, others⟩ := reads
    intro q mem none
    rcases mem_cons.mp mem with rfl | mem
    · cases shape : q.2 with
      | missing => rfl
      | node b first second =>
        rw [shape] at reads none
        have own : b.id = k := reads.1.id
        rw [Term.id, own] at none
        exact absurd none positive.ne'
    · exact hyp _ (by omega) others q mem none

end Plan

namespace Outline

variable (fields : List (String × Outline))

theorem node_entries :
    nodeEntries (.ofList fields) = EntryList.ofList
      ((fields.map fun p => (p.1, p.2.node)).map fun p => (plain p.1, p.2)) := by
  induction fields with
  | nil => rfl
  | cons p rest hyp =>
    obtain ⟨key, value⟩ := p
    exact congrArg (EntryList.cons (plain key) value.node) hyp

theorem mapping_node :
    (mapping (.ofList fields)).node = flowMapping (fields.map fun p => (p.1, p.2.node)) :=
  congrArg (Node.mapping {}) (node_entries fields)

theorem body_node (items : OutlineList) : (body items).node = .list {} (nodes items) := by
  cases items <;> rfl

section Forms

variable (g : Graph) (b : Block) (first other : OutlineList)

theorem statement_declaration (kind : b.kind = .variableDecl) : (statement g b first other).node =
    flowMapping
      ([("var", name b.name), ("type", type b.type)] ++ if b.checked then [("checked", plain "true")] else []) := by
  simp only [statement, kind, mapping_node]
  cases b.checked <;> rfl

theorem statement_assign (kind : b.kind = .assign) : (statement g b first other).node =
    flowMapping [("set", expression (g.slotTerm b .var)), ("to", expression (g.slotTerm b .value))] := by
  simp only [statement, kind, mapping_node]
  rfl

theorem statement_print (kind : b.kind = .print) :
    (statement g b first other).node = flowMapping [("print", expression (g.slotTerm b .value))] := by
  simp only [statement, kind, mapping_node]
  rfl

theorem statement_input (kind : b.kind = .input) :
    (statement g b first other).node = flowMapping [("input", expression (g.slotTerm b .var))] := by
  simp only [statement, kind, mapping_node]
  rfl

theorem statement_if (kind : b.kind = .ifThen) : (statement g b first other).node =
    flowMapping [("if", expression (g.slotTerm b .cond)), ("then", .list {} (nodes first))] := by
  simp only [statement, kind, mapping_node, map_cons, map_nil, body_node]
  rfl

theorem statement_if_else (kind : b.kind = .ifElse) : (statement g b first other).node =
    flowMapping [("if", expression (g.slotTerm b .cond)), ("then", .list {} (nodes first)),
      ("else", .list {} (nodes other))] := by
  simp only [statement, kind, mapping_node, map_cons, map_nil, body_node]
  rfl

theorem statement_while (kind : b.kind = .whileLoop) : (statement g b first other).node =
    flowMapping [("while", expression (g.slotTerm b .cond)), ("do", .list {} (nodes first))] := by
  simp only [statement, kind, mapping_node, map_cons, map_nil, body_node]
  rfl

def boundPair (p : String × Slot × Bool) : Option (String × Node) :=
  if p.2.2 || b.slot p.2.1 ≠ 0 then some (p.1, expression (g.slotTerm b p.2.1)) else none

def typePairs : List (String × Node) := if b.type = none ∨ b.type = some .int then [] else [("type", type b.type)]

def forPairs : List (String × Node) := typePairs b ++ (boundFields b.iteration).filterMap (boundPair g b)

theorem statement_for (kind : b.kind = .forLoop) : (statement g b first other).node =
    flowMapping (("for", name b.name) :: (forPairs g b ++ [("do", Node.list {} (nodes first))])) := by
  have fields : (forFields g b).map (fun p => (p.1, p.2.node)) = forPairs g b := by
    unfold forFields forPairs
    rw [map_append, map_filterMap]
    congr 1
    · unfold typePairs
      split_ifs <;> rfl
    · congr 1
      funext p
      obtain ⟨key, slot, always⟩ := p
      unfold boundPair
      dsimp only
      split_ifs <;> rfl
  simp only [statement, kind, mapping_node, map_cons, map_append, map_nil, body_node, fields, cons_append]
  rfl

theorem statement_when (kind : b.kind = .when) : (statement g b first other).node =
    flowMapping (("when", expression (g.slotTerm b .cond)) ::
      ((if b.times = unbounded then [] else [("times", plain (toString b.times))]) ++
        [("do", Node.list {} (nodes first))])) := by
  simp only [statement, kind, mapping_node, map_cons, map_append, map_nil, body_node, cons_append]
  split_ifs <;> rfl

end Forms

end Outline

namespace Document

variable {α : Type} {s : LoadState}

theorem yields_declare {g : Graph} {names : Names} {b : Block} {id : BlockId} (is : s.Is g names)
    (here : g.block? id = some b) (own : b.id = id) : Yields (declare id) s () (·.Is g (names.declare b.entry)) := by
  obtain ⟨rfl, known⟩ := is
  obtain ⟨known, -⟩ := known.declare here own () rfl
  exact ⟨_, rfl, rfl, known⟩

theorem yields_in_body {x : Loading α} {g g' : Graph} {names names' : Names} {a : α} (is : s.Is g names)
    (inside : ∀ s', LoadState.Is s' g names.enter → Yields x s' a (·.Is g' names')) :
    Yields (inBody x) s a (·.Is g' names'.leave) := by
  obtain ⟨rfl, known⟩ := is
  obtain ⟨s₁, run, grown, known'⟩ := inside { s with frames := [] :: s.frames } ⟨rfl, known.enter⟩
  refine ⟨{ s₁ with frames := s₁.frames.drop 1 }, ?_, grown, known'.leave⟩
  refine run_bind_ok.mpr ⟨(), _, rfl, run_bind_ok.mpr ⟨a, s₁, run, ?_⟩⟩
  exact run_bind_ok.mpr ⟨(), _, rfl, rfl⟩

theorem keyword_written {n : Node} (word : String) {head : Node} {rest : List (String × Node)} (others : List String)
    (listed : statementKeys.find? (·.1 = word) = some (word, others)) (allowed : ∀ p ∈ rest, p.1 ∈ others) :
    keyword n (written ((word, head) :: rest)) = pure (word, head) := by
  have stray : (written ((word, head) :: rest)).find? (fun g => g.name ≠ word ∧ ¬ others.contains g.name) = none := by
    rw [find?_eq_none]
    intro f mem
    obtain ⟨p, inside, rfl⟩ := mem_map.mp mem
    rcases mem_cons.mp inside with rfl | inside
    · simp
    · simp [allowed p inside]
  have first : (written ((word, head) :: rest)).findSome?
    (fun f => (statementKeys.find? (·.1 = f.name)).map fun k => (f, k.2)) =
      some (⟨plain word, word, head⟩, others) := by
    rw [written, map_cons, findSome?_cons]
    simp only [listed, Option.map_some]
  unfold keyword
  rw [first]
  dsimp only
  rw [stray]

def items (G : Graph) (p : Plan) : Node := .list {} (Outline.nodes (Outline.chain G p.chain))

def Replays (r : Readers) (G : Graph) (p : Plan) : Prop :=
  ∀ names g s parent, LoadState.Is s g names → p.Reads false names (g.size + 1) parent →
    Yields (statements r (Outline.nodes (Outline.chain G p.chain))) s (p.row.map (·.block.id))
      (·.Is (g.append (p.row.flatMap Head.blocks)) (p.after names))

section Bodies

variable {r : Readers} {G : Graph} {p : Plan} (replays : Replays r G p)

include replays

variable {s : LoadState} {g : Graph} {names : Names} {b : Block} {more : List Block}

theorem yields_body {parent : Nat} (is : s.Is g names) (reads : p.Reads false names.enter (g.size + 1) parent) :
    Yields (body r (items G p)) s p.id
      (·.Is (g.append (join 0 p.row).blocks) (p.after names.enter).leave) := by
  have row := p.row_reads _ _ _ reads
  have linked := g.chain_row (Graph.row_numbered _ _ row) p.row_loose
  have first : (join 0 p.row).id = p.id := by cases p <;> rfl
  refine yields_in_body is fun s₁ is => yields_bind (replays _ g s₁ parent is reads) fun s₂ is => ?_
  obtain ⟨grown, known⟩ := is
  rw [← grown, first] at linked
  have keeps := s₂.graph.keeps_chain (p.row.map (·.block.id))
  rw [linked] at keeps
  refine yields_get ⟨{ s₂ with graph := g.append (join 0 p.row).blocks }, ?_, rfl, known.keeps _ keeps rfl rfl⟩
  rw [linked]
  rfl

theorem yields_hung (hang : Graph → Nat → Nat → Graph) (set : Nat → Block → Block)
    (hung : ∀ (g : Graph) (b : Block) (more : List Block) (hs : List Head), Graph.RowNumbered
      (g.size + 1 + more.length + 1) hs →
      hang (g.append (b :: (more ++ (join 0 hs).blocks))) (g.size + 1) (join 0 hs).id =
      g.append (set (join 0 hs).id b :: (more ++ (join (g.size + 1) hs).blocks)))
    (keeps : ∀ (g : Graph) (block first : Nat), g.Keeps (hang g block first)) (is : s.Is (g.append (b :: more)) names)
    (reads : p.Reads false names.enter (g.size + 1 + more.length + 1) (g.size + 1)) :
    Yields (body r (items G p) >>= fun first => onGraph (hang · (g.size + 1) first)) s ()
      (·.Is (g.append (set p.id b :: (more ++ p.blocks))) (p.after names.enter).leave) := by
  have size : (g.append (b :: more)).size + 1 = g.size + 1 + more.length + 1 := by
    rw [Graph.size_append, length_cons]
    omega
  have first : (join 0 p.row).id = p.id := by cases p <;> rfl
  have hangs := hung g b more p.row (Graph.row_numbered _ _ (p.row_reads _ _ _ reads))
  rw [first, p.join_row _ _ _ reads] at hangs
  refine yields_bind (yields_body replays is (size ▸ reads)) fun s₁ is => ?_
  rw [Graph.append_append, cons_append] at is
  rw [← hangs]
  exact yields_on_graph (keeps _ _ _) is

theorem yields_attach {fs : Fields} {key : String} {f : Field} (given : fs.get? key = some f)
    (shown : f.value = items G p) (is : s.Is (g.append (b :: more)) names)
    (reads : p.Reads false names.enter (g.size + 1 + more.length + 1) (g.size + 1)) :
    Yields (attachBody r (g.size + 1) fs key) s ()
      (·.Is (g.append ({ b with body := p.id } :: (more ++ p.blocks))) (p.after names.enter).leave) := by
  unfold attachBody
  rw [given]
  dsimp only
  rw [shown]
  exact yields_hung replays Graph.setBody (fun first b => { b with body := first }) Graph.set_body_row
    Graph.keeps_set_body is reads

end Bodies

section Loops

variable (G : Graph) (b : Block) (head items : Node)

def loopPairs : List (String × Node) := ("for", head) :: (forPairs G b ++ [("do", items)])

theorem bound_pair_key {p : String × Slot × Bool} {q : String × Node} (made : boundPair G b p = some q) :
    q.1 = p.1 := by
  unfold boundPair at made
  split_ifs at made
  cases made
  rfl

variable {fields : List (String × Slot × Bool)} {key : String} {slot : Slot}

theorem find_bounds (apart : (fields.map Prod.fst).Nodup) (key : String) :
    (fields.filterMap (boundPair G b)).find? (·.1 = key) = (fields.find? (·.1 = key)).bind (boundPair G b) := by
  induction fields with
  | nil => rfl
  | cons p rest hyp =>
    obtain ⟨fresh, apart⟩ := nodup_cons.mp apart
    have tail := hyp apart
    by_cases here : p.1 = key
    · have absent : rest.find? (·.1 = key) = none := by
        rw [find?_eq_none]
        intro q mem same
        exact fresh (mem_map.mpr ⟨q, mem, by rw [here]; simpa using same⟩)
      rw [absent, Option.bind_none] at tail
      rw [find?_cons_of_pos (by simpa using here), Option.bind_some]
      cases made : boundPair G b p with
      | none => rw [filterMap_cons_none made, tail]
      | some q => rw [filterMap_cons_some made, find?_cons_of_pos (by simpa [bound_pair_key G b made] using here)]
    · rw [find?_cons_of_neg (by simpa using here), ← tail]
      cases made : boundPair G b p with
      | none => rw [filterMap_cons_none made]
      | some q => rw [filterMap_cons_some made, find?_cons_of_neg (by simpa [bound_pair_key G b made] using here)]

theorem bound_fields_apart (iteration : Iteration) :
    ((boundFields iteration).map Prod.fst).Nodup ∧ ∀ p ∈ boundFields iteration, p.1 ≠ "for" ∧ p.1 ≠ "type" ∧
      p.1 ≠ "do" := by
  cases iteration <;> decide

theorem loop_find (key : String) (other : key ≠ "for") : (loopPairs G b head items).find? (·.1 = key) =
    ((typePairs b).find? (·.1 = key)).or ((((boundFields b.iteration).find? (·.1 = key)).bind (boundPair G b)).or
      ([("do", items)].find? (·.1 = key))) := by
  rw [← find_bounds G b (bound_fields_apart b.iteration).1 key, loopPairs,
    find?_cons_of_neg (by simpa using other.symm), forPairs, append_assoc, find?_append, find?_append]

theorem type_pairs_find (key : String) (other : key ≠ "type") : (typePairs b).find? (·.1 = key) = none := by
  unfold typePairs
  split_ifs <;> simp [other.symm]

theorem loop_bound (key : String) (other : key ≠ "for") (other' : key ≠ "type") (other'' : key ≠ "do") :
    (loopPairs G b head items).find? (·.1 = key) = ((boundFields b.iteration).find? (·.1 = key)).bind
      (boundPair G b) := by
  rw [loop_find G b head items key other, type_pairs_find b key other', Option.none_or,
    find?_cons_of_neg (by simpa using other''.symm), find?_nil, Option.or_none]

theorem no_bound (key : String) (other : key = "for" ∨ key = "type" ∨ key = "do") :
    (boundFields b.iteration).find? (·.1 = key) = none := by
  rw [find?_eq_none]
  intro p inside same
  have apart := (bound_fields_apart b.iteration).2 p inside
  rw [show p.1 = key by simpa using same] at apart
  rcases other with rfl | rfl | rfl <;> simp at apart

theorem loop_type : (loopPairs G b head items).find? (·.1 = "type") = (typePairs b).find? (·.1 = "type") := by
  rw [loop_find G b head items "type" (by decide), no_bound b "type" (by simp)]
  simp

theorem loop_body : (loopPairs G b head items).find? (·.1 = "do") = some ("do", items) := by
  rw [loop_find G b head items "do" (by decide), type_pairs_find b "do" (by decide), no_bound b "do" (by simp)]
  simp

theorem loop_iteration : iterationOf (written (loopPairs G b head items)) = b.iteration := by
  unfold iterationOf
  rw [written_has, written_has, loop_bound G b head items "in" (by decide) (by decide) (by decide),
    loop_bound G b head items "until" (by decide) (by decide) (by decide)]
  cases b.iteration <;> rfl

theorem bound_keys : ((fields.filterMap (boundPair G b)).map Prod.fst).Sublist (fields.map Prod.fst) := by
  induction fields with
  | nil => exact List.Sublist.slnil
  | cons p rest hyp =>
    cases made : boundPair G b p with
    | none =>
      rw [filterMap_cons_none made]
      exact hyp.cons p.1
    | some q =>
      rw [filterMap_cons_some made, map_cons, bound_pair_key G b made]
      exact hyp.cons_cons p.1

theorem loop_keys : ((loopPairs G b head items).map Prod.fst).Nodup ∧
    ∀ p ∈ forPairs G b ++ [("do", items)], p.1 ∈ ["type", "from", "to", "step", "start", "until", "in", "do"] := by
  have typed : ((typePairs b).map Prod.fst).Sublist ["type"] := by
    unfold typePairs
    split_ifs <;> simp
  have keys : ((forPairs G b ++ [("do", items)]).map Prod.fst).Sublist
      ((["type"] ++ (boundFields b.iteration).map Prod.fst) ++ ["do"]) := by
    rw [forPairs, map_append, map_append]
    exact (typed.append (bound_keys G b)).append (List.Sublist.refl ["do"])
  have all : ∀ iteration : Iteration, ("for" :: ((["type"] ++ (boundFields iteration).map Prod.fst) ++ ["do"])).Nodup ∧
      ∀ key ∈ (["type"] ++ (boundFields iteration).map Prod.fst) ++ ["do"],
        key ∈ ["type", "from", "to", "step", "start", "until", "in", "do"] := by
    intro iteration
    cases iteration <;> decide
  refine ⟨(all b.iteration).1.sublist (keys.cons_cons "for"), fun p mem => ?_⟩
  exact (all b.iteration).2 p.1 (keys.subset (mem_map_of_mem mem))

theorem bound_field {iteration : Iteration} (found : boundSlot? iteration key = some slot) :
    (∃ always, (boundFields iteration).find? (·.1 = key) = some (key, slot, always)) ∧ key ≠ "for" ∧ key ≠ "type" ∧
      key ≠ "do" := by
  unfold boundSlot? at found
  split at found <;> cases found <;> exact ⟨⟨_, rfl⟩, by decide, by decide, by decide⟩

theorem loop_stray (listed : key ∈ boundKeys) (strange : boundSlot? b.iteration key = none) :
    (written (loopPairs G b head items)).get? key = none := by
  have other : ∀ iteration : Iteration, ∀ key ∈ boundKeys, boundSlot? iteration key = none →
      ((boundFields iteration).find? (·.1 = key)).isNone = true ∧ key ≠ "for" ∧ key ≠ "type" ∧ key ≠ "do" := by
    intro iteration
    cases iteration <;> decide
  obtain ⟨absent, index, type, body⟩ := other b.iteration key listed strange
  rw [written_get, loop_bound G b head items key index type body, Option.isNone_iff_eq_none.mp absent]
  rfl

theorem loop_given {operands : List (Slot × Term)} (shown : ∀ slot, G.slotTerm b slot = among operands slot)
    (filled : ∀ slot, b.slot slot = (among operands slot).id) (apart : (operands.map Prod.fst).Nodup)
    (present : ∀ p ∈ operands, p.2.id = 0 → p.2 = .missing) {t : Term} (found : boundSlot? b.iteration key = some slot)
    (mem : (slot, t) ∈ operands) :
    ((written (loopPairs G b head items)).get? key = none ∧ t = .missing) ∨
      ∃ f, (written (loopPairs G b head items)).get? key = some f ∧ f.value = expression t := by
  obtain ⟨⟨always, field⟩, index, type, body⟩ := bound_field found
  have here : among operands slot = t := among_of_mem apart mem
  rw [written_get, loop_bound G b head items key index type body, field, Option.bind_some]
  unfold boundPair
  dsimp only
  split_ifs with there
  · exact .inr ⟨_, rfl, by rw [shown, here]⟩
  · refine .inl ⟨rfl, present _ mem ?_⟩
    rw [filled, here] at there
    simp only [ne_eq, Bool.or_eq_true, decide_eq_true_eq, not_or, not_not] at there
    exact there.2

end Loops

section Statements

variable {r : Readers} {G : Graph} {names : Names} {b : Block} {top : Bool} (plain : b.unplaced = b)

-- A statement that declares nothing and opens no body around its slots.
structure Plainly (b : Block) : Prop where
  index : b.kind ≠ .forLoop
  variable_ : b.kind ≠ .variableDecl

theorem Plainly.inside (names : Names) (b : Block) (plainly : Plainly b) : names.inside b = names :=
  if_neg plainly.index

theorem Plainly.past (names : Names) (b : Block) (plainly : Plainly b) : names.past b = names := by
  rw [Names.past, if_neg plainly.index, if_neg plainly.variable_]

theorem Plainly.after (plainly : Plainly b) (operands : List (Slot × Term)) (p q : Plan) :
    (Head.mk b operands p q).single.after names = (q.after (p.after names.enter).leave.enter).leave := by
  simp only [Head.single, Plan.after, plainly.inside, plainly.past]

-- The statement is made wherever it stands.
def Remakes (top : Bool) (names : Names) (x : Loading BlockId) (h : Head) : Prop :=
  ∀ g s, LoadState.Is s g names → h.single.Reads top names (g.size + 1) 0 →
    Yields x s (g.size + 1) (·.Is (g.append h.blocks) (h.single.after names))

include plain

theorem statement_rebuilt (k body otherwise : Nat) (slots : List (Slot × Nat)) (c : Content) (content : b.content = c)
    (placed : b.Placed k 0 0 body otherwise slots) :
    Block.unplaced
      ⟨k, c.kind, 0, 0, 0, 0, body, otherwise, slots, c.name, c.type, c.checked, c.payload, c.decl, c.times, c.litIndex,
      c.iteration⟩ = b :=
  Block.rebuilt b _ content.symm placed plain

variable {kind : Kind} {operands : List (Slot × Term)} {p : Plan} {g : Graph} {s : LoadState} {name : String}
  {type : ValueType} {iteration : Iteration}

theorem Plainly.complete (plainly : Plainly b) (content : b.content = { kind }) {q : Plan}
    (placed : b.Placed (g.size + 1) 0 0 p.id q.id (operandSlots operands))
    (is : s.Is (g.append
      (Block.unplaced { id := g.size + 1, kind, slots := operandSlots operands, body := p.id, otherwise := q.id } ::
      (operandBlocks operands ++ p.blocks ++ q.blocks))) (q.after (p.after names.enter).leave.enter).leave) :
    s.Is (g.append (Head.mk b operands p q).blocks) ((Head.mk b operands p q).single.after names) := by
  have same := statement_rebuilt plain (g.size + 1) p.id q.id _ _ content placed
  rw [plainly.after, Head.blocks, ← same]
  exact is

variable {n : Node} {fs : Fields} (here : n.place = {})

include here

theorem again_simple (slot : Slot) {t : Term} (content : b.content = { kind }) (plainly : Plainly b)
    (rereads : Rereads r.operand (names.inside b) t) :
    Remakes top names (add kind n id >>= fun block => fill r.operand block slot (expression t) >>= fun _ => pure block)
      ⟨b, [(slot, t)], .nil, .nil⟩ := by
  rintro g s is ⟨placed, -, ⟨⟨c, accepts, fits⟩, reads, -⟩, -⟩
  rw [show b.kind = kind from congrArg Content.kind content] at accepts
  rw [plainly.inside] at reads rereads
  refine yields_bind (yields_add kind n id here is) fun s₁ is => ?_
  refine yields_bind (yields_fill rereads is accepts (by simp [Block.unplaced]) fits reads) fun s₂ is => yields_pure ?_
  exact plainly.complete plain content placed
    (by simpa [Plan.operandBlocks, Plan.operandSlots, Plan.blocks, Plan.id, Plan.after, Block.unplaced] using is)

theorem again_assign {target value : Term} (content : b.content = { kind := .assign })
    (rereads : Rereads r.operand (names.inside b) target)
    (rereads' : Rereads r.operand (names.inside b) value) (f : Field) (given : fs.get? "to" = some f)
    (shown : f.value = expression value) :
    Remakes top names (add .assign n id >>= fun block => fill r.operand block .var (expression target) >>= fun _ =>
      fillField r block .value fs "to" >>= fun _ => pure block) ⟨b, [(.var, target), (.value, value)], .nil, .nil⟩ := by
  have kind : b.kind = .assign := congrArg Content.kind content
  have plainly : Plainly b := ⟨by simp [kind], by simp [kind]⟩
  rintro g s is ⟨placed, -, ⟨⟨c, accepts, fits⟩, reads, ⟨c', accepts', fits'⟩, reads', -⟩, -⟩
  rw [kind] at accepts accepts'
  rw [plainly.inside] at reads reads' rereads rereads'
  refine yields_bind (yields_add .assign n id here is) fun s₁ is => ?_
  refine yields_bind (yields_fill rereads is accepts (by simp [Block.unplaced]) fits reads) fun s₂ is => ?_
  unfold fillField
  rw [given]
  dsimp only
  rw [shown]
  refine yields_bind (yields_fill rereads' is accepts' (by simp [Block.unplaced, Term.inSlot]) fits'
    (by simpa [Nat.add_right_comm] using reads')) fun s₃ is => yields_pure ?_
  exact plainly.complete plain content placed
    (by simpa [Plan.operandBlocks, Plan.operandSlots, Plan.blocks, Plan.id, Plan.after, Block.unplaced] using is)

omit plain in
theorem again_conditional (kind : Kind) {key : String} {cond : Term} (accepts : kind.accepts? .cond = some .predicate)
    (fits : cond.Fits .predicate) (rereads : Rereads r.operand names cond) (replays : Replays r G p) {f : Field}
    (given : fs.get? key = some f) (shown : f.value = items G p) {rest : BlockId → Loading BlockId}
    {after : LoadState → Prop} (is : s.Is g names) (reads : cond.Reads names (g.size + 2))
    (planned : p.Reads false names.enter (g.size + 2 + cond.blocks.length) (g.size + 1))
    (finish : ∀ s', LoadState.Is s'
      (g.append (Block.unplaced { id := g.size + 1, kind, slots := cond.inSlot .cond, body := p.id } ::
      (cond.blocks ++ p.blocks))) (p.after names.enter).leave → Yields (rest (g.size + 1)) s' (g.size + 1) after) :
    Yields (add kind n id >>= fun block => fill r.operand block .cond (expression cond) >>= fun _ =>
      attachBody r block fs key >>= fun _ => rest block) s (g.size + 1) after := by
  refine yields_bind (yields_add kind n id here is) fun s₁ is => ?_
  refine yields_bind (yields_fill rereads is accepts (by simp [Block.unplaced]) fits reads) fun s₂ is => ?_
  exact yields_bind (yields_attach replays given shown is (by simpa [Nat.add_right_comm] using planned)) fun s₃ is =>
    finish s₃ is

section Conditions

variable {cond : Term} {p : Plan} (rereads : Rereads r.operand (names.inside b) cond) (replays : Replays r G p)

include rereads replays

theorem again_single {kind : Kind} (key : String) (content : b.content = { kind }) (plainly : Plainly b)
    (accepts : kind.accepts? .cond = some .predicate) (f : Field) (given : fs.get? key = some f)
    (shown : f.value = items G p) :
    Remakes top names (add kind n id >>= fun block => fill r.operand block .cond (expression cond) >>= fun _ =>
      attachBody r block fs key >>= fun _ => pure block) ⟨b, [(.cond, cond)], p, .nil⟩ := by
  rintro g s is ⟨placed, -, ⟨⟨c, allowed, fits⟩, reads, -⟩, planned, -⟩
  rw [show b.kind = kind from congrArg Content.kind content, accepts] at allowed
  cases allowed
  rw [plainly.inside] at reads planned rereads
  refine again_conditional here kind accepts fits rereads replays given shown is reads
    (by simpa [Plan.operandBlocks] using planned) fun s' is => yields_pure ?_
  exact plainly.complete plain content placed
    (by simpa [Plan.operandBlocks, Plan.operandSlots, Plan.blocks, Plan.id, Plan.after, Block.unplaced] using is)

theorem again_if (content : b.content = { kind := .ifThen }) (f : Field) (given : fs.get? "then" = some f)
    (shown : f.value = items G p) (last : fs.get? "else" = none) :
    Remakes top names (branch r n (expression cond) fs) ⟨b, [(.cond, cond)], p, .nil⟩ := by
  have kind : b.kind = .ifThen := congrArg Content.kind content
  unfold branch
  rw [Fields.has, last, Option.isSome_none, if_neg (by simp)]
  exact again_single plain here rereads replays "then" content ⟨by simp [kind], by simp [kind]⟩ rfl f given shown

theorem again_if_else {q : Plan} (replays' : Replays r G q) (content : b.content = { kind := .ifElse }) (f f' : Field)
    (given : fs.get? "then" = some f) (shown : f.value = items G p) (given' : fs.get? "else" = some f')
    (shown' : f'.value = items G q) :
    Remakes top names (branch r n (expression cond) fs) ⟨b, [(.cond, cond)], p, q⟩ := by
  have kind : b.kind = .ifElse := congrArg Content.kind content
  have plainly : Plainly b := ⟨by simp [kind], by simp [kind]⟩
  rintro g s is ⟨placed, -, ⟨⟨c, allowed, fits⟩, reads, -⟩, planned, planned', -⟩
  rw [kind] at allowed
  cases allowed
  rw [plainly.inside] at reads planned planned' rereads
  unfold branch
  rw [Fields.has, given', Option.isSome_some, if_pos rfl]
  refine again_conditional here .ifElse rfl fits rereads replays given shown is reads
    (by simpa [operandBlocks] using planned) fun s' is => ?_
  dsimp only
  rw [shown', ← bind_assoc]
  have place : g.size + 1 + 1 + (operandBlocks [(.cond, cond)]).length + p.blocks.length =
      g.size + 1 + (cond.blocks ++ p.blocks).length + 1 := by
    simp [operandBlocks]
    omega
  refine yields_bind
    (yields_hung replays' Graph.setOtherwise (fun first b => { b with otherwise := first }) Graph.set_otherwise_row
    Graph.keeps_set_otherwise is (place ▸ planned')) fun s'' is => yields_pure ?_
  exact plainly.complete plain content placed
    (by simpa [operandBlocks, operandSlots, blocks, Block.unplaced] using is)

theorem again_handler {times : Int} (limit : times = unbounded ∨ 0 ≤ times ∧ times < 2 ^ 63)
    (content : b.content = { kind := .when, times }) {f : Field} (given : fs.get? "do" = some f)
    (shown : f.value = items G p) (counted : fs.get? "times" = if times = unbounded then none else some
      ⟨Outline.plain "times", "times", Outline.plain (toString times)⟩)
    {g : Graph} {s : LoadState} (is : s.Is g names)
    (reads : (Plan.cons b [(.cond, cond)] p .nil .nil).Reads top names (g.size + 1) 0) :
    Yields (handler r n (Outline.expression cond) fs) s (g.size + 1)
      (·.Is { g.append (Head.mk b [(.cond, cond)] p .nil).blocks with handlers := g.handlers ++ [g.size + 1] }
        ((Plan.cons b [(.cond, cond)] p .nil .nil).after names)) := by
  have kind : b.kind = .when := congrArg Content.kind content
  have plainly : Plainly b := ⟨by simp [kind], by simp [kind]⟩
  obtain ⟨placed, -, ⟨⟨c, accepts, fits⟩, reads, -⟩, planned, -⟩ := reads
  have same := statement_rebuilt plain (g.size + 1) p.id 0 _ _ content placed
  rw [kind] at accepts
  rw [plainly.inside] at reads planned rereads
  generalize finished : (fun s' : LoadState => s'.Is { g.append (Head.mk b [(.cond, cond)] p .nil).blocks with
    handlers := g.handlers ++ [g.size + 1] } ((Plan.cons b [(.cond, cond)] p .nil .nil).after names)) = after
  have listed : ∀ s', LoadState.Is s'
    (g.append (Block.unplaced { id := g.size + 1, kind := .when, slots := cond.inSlot .cond, times } ::
      cond.blocks)) names → Yields (attachBody r (g.size + 1) fs "do" >>= fun _ =>
        onGraph (fun g' => { g' with handlers := g'.handlers ++ [g.size + 1] }) >>= fun _ => pure (g.size + 1)) s'
          (g.size + 1) after := by
    intro s' is
    refine yields_bind (yields_attach replays given shown is
      (by simpa [Plan.operandBlocks, Nat.add_right_comm] using planned)) fun s₁ is => ?_
    refine yields_bind (yields_on_graph (fun id b found => ⟨b, found, rfl⟩) is) fun s₂ is => yields_pure ?_
    rw [← finished, show (Plan.cons b [(.cond, cond)] p .nil .nil).after names = _ from plainly.after _ _ _, ← same]
    simpa [Head.blocks, Head.inner, Plan.operandBlocks, Plan.operandSlots, Plan.blocks, Plan.after, Block.unplaced,
      Graph.append] using is
  unfold handler
  refine yields_bind (yields_add .when n id here is) fun s₁ is => ?_
  refine yields_bind (yields_fill rereads is accepts (by simp [Block.unplaced]) fits reads) fun s₂ is => ?_
  rw [counted]
  rcases limit with rfl | ⟨least, most⟩
  · exact listed s₂ is
  · have bounded : times ≠ unbounded := by
      unfold unbounded
      omega
    have count : (Outline.plain (toString times)).integer? = some times := (integer_written least most).2
    simp only [if_neg bounded, count]
    rw [if_neg (by omega)]
    refine yields_bind (yields_on_graph (Graph.keeps_modify _ _ _ fun _ => rfl) is) fun s₃ is => ?_
    rw [Graph.modify_head] at is
    exact listed s₃ is

end Conditions

theorem again_variable {checked : Bool} (named : name ≠ "") (readable : ∃ text, ValueType.parse text = .ok type)
    (content : b.content = { kind := .variableDecl, name, type := some type, checked }) (f : Field)
    (given : fs.get? "type" = some f) (shown : f.value = Outline.type (some type))
    (marked : fs.get? "checked" = if checked then some ⟨Outline.plain "checked", "checked", Outline.plain "true"⟩
      else none) :
    Remakes top names (variableDecl n (Outline.name name) fs) ⟨b, [], .nil, .nil⟩ := by
  have kind : b.kind = .variableDecl := congrArg Content.kind content
  rintro g s is ⟨placed, -⟩
  have same := statement_rebuilt plain (g.size + 1) 0 0 _ _ content placed
  have after : (Head.mk b [] .nil .nil).single.after names = names.declare b.entry := by
    simp [Head.single, Plan.after, Names.inside, Names.past, kind]
  rw [after]
  have made : Yields (add .variableDecl n (fun b => { b with name, type := some type, checked }) >>= fun block =>
    declare block >>= fun _ =>
      pure block) s (g.size + 1) (·.Is (g.append [b]) (names.declare b.entry)) := by
    refine yields_bind (yields_add .variableDecl n (fun b => { b with name, type := some type, checked }) here is)
      fun s₁ is => ?_
    have is : s₁.Is (g.append [b]) names := by
      rw [← same]
      exact is
    exact yields_bind (yields_declare is (g.block_head b []) placed.id) fun s₂ is => yields_pure is
  unfold variableDecl
  rw [name_written named, pure_bind, type_written n type f given shown readable, pure_bind, marked]
  cases checked with
  | false => exact made
  | true =>
    have truth : (Outline.plain "true").truth? = some true := by decide
    simp only [if_true, truth]
    exact made

omit plain here in
theorem again_bounds (fs : Fields) {keys : List String} (operands : List (Slot × Term))
    (order : operands.map Prod.fst = keys.filterMap (boundSlot? iteration))
    (apart : (keys.filterMap (boundSlot? iteration)).Nodup) (rereads : ∀ p ∈ operands, Rereads r.operand names p.2)
    (stray : ∀ key ∈ keys, boundSlot? iteration key = none → fs.get? key = none)
    (given : ∀ key ∈ keys, ∀ slot t, boundSlot? iteration key = some slot → (slot, t) ∈ operands →
      (fs.get? key = none ∧ t = .missing) ∨ ∃ f, fs.get? key = some f ∧ f.value = expression t) (c : Block)
    (more : List Block) (s : LoadState) (is : s.Is (g.append (c :: more)) names) (kind : c.kind = .forLoop)
    (empty : ∀ p ∈ c.slots, p.1 ∉ keys.filterMap (boundSlot? iteration))
    (reads : Plan.OperandsRead names .forLoop (g.size + 1 + more.length + 1) operands) :
    Yields (bounds r (g.size + 1) iteration fs keys) s ()
      (·.Is (g.append ({ c with slots := c.slots ++ operandSlots operands } :: (more ++ operandBlocks operands)))
        names) := by
  induction keys generalizing c more s operands with
  | nil =>
    cases operands with
    | nil =>
      refine yields_pure ?_
      simpa [operandSlots, operandBlocks] using is
    | cons p rest => cases order
  | cons key rest hyp =>
    unfold bounds
    cases found : boundSlot? iteration key with
    | none =>
      rw [filterMap_cons_none found] at order apart empty
      rw [stray key mem_cons_self found]
      exact hyp operands order apart rereads (fun k mem => stray k (mem_cons_of_mem key mem))
        (fun k mem => given k (mem_cons_of_mem key mem)) c more s is kind empty reads
    | some slot =>
      rw [filterMap_cons_some found] at order apart empty
      cases operands with
      | nil => cases order
      | cons p others =>
        obtain ⟨slot', t⟩ := p
        obtain ⟨rfl, tail⟩ := List.cons.inj order
        obtain ⟨fresh, distinct⟩ := nodup_cons.mp apart
        obtain ⟨⟨family, accepts, fits⟩, reads, reads'⟩ := reads
        have later : ∀ k ∈ rest, ∀ slot t', boundSlot? iteration k = some slot → (slot, t') ∈ others →
            (fs.get? k = none ∧ t' = .missing) ∨ ∃ f, fs.get? k = some f ∧ f.value = expression t' :=
          fun k mem slot t' found inside => given k (mem_cons_of_mem key mem) slot t' found (mem_cons_of_mem _ inside)
        have strays := fun k (mem : k ∈ rest) => stray k (mem_cons_of_mem key mem)
        have rereads' := fun p (mem : p ∈ others) => rereads p (mem_cons_of_mem _ mem)
        rcases given key mem_cons_self _ t found mem_cons_self with ⟨none, rfl⟩ | ⟨f, here, shown⟩
        · rw [none]
          have step := hyp others tail distinct rereads' strays later c more s is kind
            (fun p mem inside => empty p mem (mem_cons_of_mem _ inside)) reads'
          simpa [operandSlots, operandBlocks, Term.inSlot, Term.isMissing, Term.blocks] using step
        · rw [here]
          dsimp only
          rw [shown]
          refine yields_bind (yields_fill (rereads _ mem_cons_self) is (kind ▸ accepts)
            (fun p mem same => empty p mem (same ▸ mem_cons_self)) fits reads) fun s₁ is => ?_
          have size : g.size + 1 + more.length + 1 + t.blocks.length = g.size + 1 + (more ++ t.blocks).length + 1 := by
            rw [length_append]
            omega
          have step := hyp others tail distinct rereads' strays later _ _ s₁ is kind (by
            intro p mem
            rcases mem_append.mp mem with old | new
            · exact fun inside => empty p old (mem_cons_of_mem _ inside)
            · unfold Term.inSlot at new
              split_ifs at new
              · cases new
              · rw [mem_singleton.mp new]
                exact fresh) (size ▸ reads')
          simpa [operandSlots, operandBlocks] using step

theorem again_for (named : name ≠ "") (readable : ∃ text, ValueType.parse text = .ok type)
    (order : operands.map Prod.fst = iteration.bounds)
    (content : b.content = { kind := .forLoop, name, type := some type, iteration })
    (slots : ∀ slot, G.slotTerm b slot = Plan.among operands slot)
    (rereads : ∀ p ∈ operands, Rereads r.operand (names.inside b) p.2) (replays : Replays r G p) :
    Remakes top names (forLoop r n (Outline.name name) (written (loopPairs G b (Outline.name name) (items G p))))
      ⟨b, operands, p, .nil⟩ := by
  have kind : b.kind = .forLoop := congrArg Content.kind content
  have typed : b.type = some type := congrArg Content.type content
  have mode : b.iteration = iteration := congrArg Content.iteration content
  rintro g s is ⟨placed, -, operandsRead, planned, -⟩
  have same := statement_rebuilt plain (g.size + 1) p.id 0 _ _ content placed
  generalize pairs : loopPairs G b (Outline.name name) (items G p) = fields
  have inside : names.inside b = names.enter.declare b.entry := if_pos kind
  rw [inside, kind] at operandsRead
  rw [inside] at rereads planned
  have after : (Head.mk b operands p .nil).single.after names =
      (p.after (names.enter.declare b.entry).enter).leave.leave := by
    simp [Head.single, Plan.after, Names.past, inside, kind]
  rw [after]
  have made : Yields (add .forLoop n
    (fun b => { b with name, type := some type, iteration := iterationOf (written fields) }) >>= fun block =>
      inBody (declare block >>= fun _ => bounds r block (iterationOf (written fields))
        (written fields) boundKeys >>= fun _ =>
        attachBody r block (written fields) "do") >>= fun _ => pure block) s (g.size + 1)
      (·.Is (g.append (Head.mk b operands p .nil).blocks)
        (p.after (names.enter.declare b.entry).enter).leave.leave) := by
    have modes : iterationOf (written fields) = iteration := by rw [← pairs, loop_iteration, mode]
    rw [modes]
    refine yields_bind (yields_add .forLoop n (fun b => { b with name, type := some type, iteration }) here is)
      fun s₁ is => ?_
    have order' : operands.map Prod.fst = boundKeys.filterMap (boundSlot? iteration) := by
      rw [order]
      cases iteration <;> rfl
    have apart : (operands.map Prod.fst).Nodup := by
      rw [order]
      cases iteration <;> decide
    have entry : Block.entry
        (Block.unplaced { id := g.size + 1, kind := .forLoop, name, type := some type, iteration }) = b.entry := by
      rw [← same]
      rfl
    refine yields_bind (a := ()) (yields_in_body is fun s₂ is => ?_) fun s₂ is => yields_pure is
    refine yields_bind (yields_declare is (g.block_head _ []) rfl) fun s₃ is => ?_
    rw [entry] at is
    have read := again_bounds (written fields) operands order' (order' ▸ apart) rereads
      (fun key mem none => by rw [← pairs]; exact loop_stray G b _ _ mem (mode ▸ none))
      (fun key mem slot t found inside => by
        rw [← pairs]
        exact loop_given G b _ _ slots (Plan.slot_among placed.slots apart) apart
          (Plan.operands_present _ (by omega) operandsRead) (mode ▸ found) inside) _ [] s₃ is rfl
            (by simp [Block.unplaced]) operandsRead
    refine yields_bind read fun s₄ is => ?_
    have body : (written fields).get? "do" = some ⟨Outline.plain "do", "do", items G p⟩ := by
      rw [← pairs, written_get, loop_body]
      rfl
    obtain ⟨s₅, run, grown, known⟩ := yields_attach replays body rfl is (by simpa [Nat.add_right_comm] using planned)
    refine ⟨s₅, run, ?_, known⟩
    rw [Head.blocks, ← same]
    simp only [Head.inner, Plan.blocks, append_nil]
    exact grown
  unfold forLoop
  rw [name_written named, pure_bind, written_has, ← pairs, loop_type, pairs]
  by_cases narrow : b.type = none ∨ b.type = some .int
  · have int : type = .int := by simpa [typed] using narrow
    subst int
    rw [Outline.typePairs, if_pos narrow]
    exact made
  · rw [Outline.typePairs, if_neg narrow]
    have given : (written fields).get? "type" = some ⟨Outline.plain "type", "type", Outline.type (some type)⟩ := by
      rw [← pairs, written_get, loop_type, Outline.typePairs, if_neg narrow, typed]
      rfl
    change Yields (typeOf (written fields) n >>= _) _ _ _
    rw [type_written n type _ given rfl readable, pure_bind]
    exact made

omit here in
theorem again_statement {body otherwise : Plan} (slots : ∀ slot, G.slotTerm b slot = among operands slot)
    (rereads : ∀ p ∈ operands, Rereads r.operand (names.inside b) p.2) (replays : Replays r G body)
    (replays' : Replays r G otherwise) (is : s.Is g names)
    (reads : (cons b operands body otherwise .nil).Reads false names (g.size + 1) 0) :
    ∃ pairs, (Outline.statement G b (Outline.chain G body.chain) (Outline.chain G otherwise.chain)).node =
      Outline.flowMapping pairs ∧
      (pairs.map Prod.fst).Nodup ∧ Yields (statementWith r false (Outline.flowMapping pairs) (written pairs)) s
        (g.size + 1)
        (·.Is (g.append (Head.mk b operands body otherwise).blocks)
          ((cons b operands body otherwise .nil).after names)) := by
  have saying := reads.2.1
  generalize content : b.content = said at saying
  have kind : b.kind = said.kind := congrArg Content.kind content
  unfold statementWith
  cases saying with
  | declaration name type checked named readable =>
    have own : b.name = name ∧ b.type = some type ∧ b.checked = checked :=
      ⟨congrArg Content.name content, congrArg Content.type content, congrArg Content.checked content⟩
    rw [Outline.statement_declaration G b _ _ kind, own.1, own.2.1, own.2.2]
    refine ⟨_, rfl, by split_ifs <;> simp, ?_⟩
    rw [cons_append, keyword_written "var" ["type", "checked"] rfl (by cases checked <;> simp), pure_bind]
    exact again_variable plain rfl named readable content ⟨Outline.plain "type", "type", Outline.type (some type)⟩
      (by simp) rfl (by cases checked <;> simp) g s is reads
  | assign target value =>
    rw [Outline.statement_assign G b _ _ kind, slots, slots]
    refine ⟨_, rfl, by simp, ?_⟩
    rw [keyword_written "set" ["to"] rfl (by simp), pure_bind]
    exact again_assign plain rfl content (rereads (.var, target) (by simp)) (rereads (.value, value) (by simp))
      ⟨Outline.plain "to", "to", Outline.expression value⟩ (by simp; rfl) rfl g s is reads
  | print value =>
    rw [Outline.statement_print G b _ _ kind, slots]
    refine ⟨_, rfl, by simp, ?_⟩
    rw [keyword_written "print" [] rfl (by simp), pure_bind]
    exact again_simple plain rfl .value content ⟨by simp [kind], by simp [kind]⟩
      (rereads (.value, value) (by simp)) g s is reads
  | input target =>
    rw [Outline.statement_input G b _ _ kind, slots]
    refine ⟨_, rfl, by simp, ?_⟩
    rw [keyword_written "input" [] rfl (by simp), pure_bind]
    exact again_simple plain rfl .var content ⟨by simp [kind], by simp [kind]⟩
      (rereads (.var, target) (by simp)) g s is reads
  | ifThen cond body =>
    rw [Outline.statement_if G b _ _ kind, slots]
    refine ⟨_, rfl, by simp, ?_⟩
    rw [keyword_written "if" ["then", "else"] rfl (by simp), pure_bind]
    exact again_if plain rfl (rereads (.cond, cond) (by simp)) replays content
      ⟨Outline.plain "then", "then", items G body⟩ (by simp; rfl) rfl
      (by simp) g s is reads
  | ifElse cond body otherwise =>
    rw [Outline.statement_if_else G b _ _ kind, slots]
    refine ⟨_, rfl, by simp, ?_⟩
    rw [keyword_written "if" ["then", "else"] rfl (by simp), pure_bind]
    exact again_if_else plain rfl (rereads (.cond, cond) (by simp)) replays replays' content
      ⟨Outline.plain "then", "then", items G body⟩
      ⟨Outline.plain "else", "else", items G otherwise⟩ (by simp; rfl) rfl (by simp; rfl) rfl g s is reads
  | whileLoop cond body =>
    rw [Outline.statement_while G b _ _ kind, slots]
    refine ⟨_, rfl, by simp, ?_⟩
    rw [keyword_written "while" ["do"] rfl (by simp), pure_bind]
    exact again_single plain rfl (rereads (.cond, cond) (by simp)) replays "do" content
      ⟨by simp [kind], by simp [kind]⟩ rfl
      ⟨Outline.plain "do", "do", items G body⟩ (by simp; rfl) rfl g s is reads
  | forLoop name type iteration operands body named readable bounds =>
    rw [Outline.statement_for G b _ _ kind, show b.name = name from congrArg Content.name content]
    have keys := loop_keys G b (Outline.name name) (items G body)
    refine ⟨loopPairs G b (Outline.name name) (items G body), rfl, keys.1, ?_⟩
    rw [loopPairs, keyword_written "for" ["type", "from", "to", "step", "start", "until", "in", "do"] rfl keys.2,
      pure_bind]
    exact again_for plain rfl named readable bounds content slots rereads replays g s is reads
  | handler cond times body atTop limit => cases atTop

end Statements

end Document

namespace Outline

theorem flow_depth (pairs : List (String × Node)) (key : String) (value : Node) (mem : (key, value) ∈ pairs) :
    value.depth < (flowMapping pairs).depth := by
  have inner : value.depth ≤ Node.depthOfEntries (EntryList.ofList (pairs.map fun p => (plain p.1, p.2))) := by
    induction pairs with
    | nil => cases mem
    | cons p rest hyp =>
      simp only [map_cons, EntryList.ofList, Node.depthOfEntries]
      rcases mem_cons.mp mem with rfl | mem
      · exact le_max_of_le_left (le_max_right _ _)
      · exact le_max_of_le_right (hyp mem)
  exact Nat.lt_succ_of_le inner

structure Encloses (G : Graph) (n : Node) (operands : List (Slot × Term)) (body otherwise : Plan) : Prop where
  terms : ∀ p ∈ operands, p.2.isMissing = false → (expression p.2).depth < n.depth
  body : Node.depthOfAll (nodes (chain G body.chain)) + 1 < n.depth
  otherwise : Node.depthOfAll (nodes (chain G otherwise.chain)) + 1 < n.depth

variable (G : Graph) (b : Block) (operands : List (Slot × Term)) (body otherwise : Plan)

theorem encloses {top : Bool} {names : Names} {k : Nat} (slots : ∀ slot, G.slotTerm b slot = among operands slot)
    (reads : (cons b operands body otherwise .nil).Reads top names (k + 1) 0) :
    Encloses G (statement G b (chain G body.chain) (chain G otherwise.chain)).node operands body otherwise := by
  obtain ⟨placed, saying, operandsRead, -⟩ := reads
  have listed : ∀ (pairs : List (String × Node)) (key : String) (items : NodeList), (key, .list {} items) ∈ pairs →
      Node.depthOfAll items + 1 < (flowMapping pairs).depth :=
        fun pairs key items mem => flow_depth pairs key (.list {} items) mem
  have none : ∀ (p : String × Node) (rest : List (String × Node)), 0 + 1 < (flowMapping (p :: rest)).depth := by
    intro p rest
    have inner := flow_depth (p :: rest) p.1 p.2 (by simp)
    have := p.2.depth_pos
    omega
  have single : ∀ (pairs : List (String × Node)) (key : String) (slot : Slot) (t : Term), (key, expression t) ∈ pairs →
      ∀ p ∈ [(slot, t)], p.2.isMissing = false → (expression p.2).depth < (flowMapping pairs).depth := by
    intro pairs key slot t mem p only _
    rw [mem_singleton.mp only]
    exact flow_depth pairs key _ mem
  generalize content : b.content = said at saying
  have kind : b.kind = said.kind := congrArg Content.kind content
  cases saying with
  | declaration name type checked named readable =>
    rw [statement_declaration G b _ _ kind]
    exact ⟨by simp, none _ _, none _ _⟩
  | assign target value =>
    rw [statement_assign G b _ _ kind, slots, slots]
    refine ⟨?_, none _ _, none _ _⟩
    simp only [mem_cons, not_mem_nil, or_false]
    rintro p (rfl | rfl) -
    · exact flow_depth _ "set" _ (by simp [among])
    · exact flow_depth _ "to" _ (by simp [among])
  | print value =>
    rw [statement_print G b _ _ kind, slots]
    exact ⟨single _ "print" _ _ (by simp [among]), none _ _, none _ _⟩
  | input target =>
    rw [statement_input G b _ _ kind, slots]
    exact ⟨single _ "input" _ _ (by simp [among]), none _ _, none _ _⟩
  | ifThen cond body =>
    rw [statement_if G b _ _ kind, slots]
    exact ⟨single _ "if" _ _ (by simp [among]), listed _ "then" _ (by simp), none _ _⟩
  | ifElse cond body otherwise =>
    rw [statement_if_else G b _ _ kind, slots]
    exact ⟨single _ "if" _ _ (by simp [among]), listed _ "then" _ (by simp), listed _ "else" _ (by simp)⟩
  | whileLoop cond body =>
    rw [statement_while G b _ _ kind, slots]
    exact ⟨single _ "while" _ _ (by simp [among]), listed _ "do" _ (by simp), none _ _⟩
  | forLoop name type iteration operands body named readable bounds =>
    rw [statement_for G b _ _ kind]
    refine ⟨fun p mem present => ?_, listed _ "do" _ (by simp), none _ _⟩
    have mode : b.iteration = iteration := congrArg Content.iteration content
    have apart := operands_apart (@Statement.forLoop top name type iteration operands body named readable bounds)
    obtain ⟨key, found⟩ : ∃ key, Document.boundSlot? b.iteration key = some p.1 := by
      have keyed : ∀ iteration : Iteration, ∀ slot ∈ iteration.bounds, ∃ key ∈ Document.boundKeys,
          Document.boundSlot? iteration key = some slot := by
        intro iteration
        cases iteration <;> decide
      obtain ⟨key, -, found⟩ := keyed iteration p.1 (bounds ▸ mem_map_of_mem mem)
      exact ⟨key, mode ▸ found⟩
    have given := Document.loop_given G b (Outline.name b.name) (.list {} (nodes (chain G body.chain))) slots
      (slot_among placed.slots apart) apart (operands_present _ (by omega) operandsRead) found mem
    rcases given with ⟨-, missing⟩ | ⟨f, written, shown⟩
    · rw [missing] at present
      cases present
    · rw [Document.written_get] at written
      obtain ⟨q, here, rfl⟩ := Option.map_eq_some_iff.mp written
      rw [← shown]
      exact flow_depth _ q.1 q.2 (mem_of_find?_eq_some here)
  | handler cond times body atTop limit =>
    rw [statement_when G b _ _ kind, slots]
    exact ⟨single _ "when" _ _ (by simp [among]), listed _ "do" _ (by simp), none _ _⟩

end Outline

namespace Document

section Programs

variable (G : Graph) (plain : ∀ b ∈ G.blocks, b.unplaced = b) (writable : G.Writable)

include plain writable

theorem held_again {operands : List (Slot × Term)} {body otherwise : Plan} {n : Node} (terms : ∀ p ∈ operands, p.2.In G)
    (encloses : Outline.Encloses G n operands body otherwise) (depth : Nat) (wide : n.depth ≤ depth) (names : Names) :
    ∀ p ∈ operands, Rereads (operand depth) names p.2 := by
  intro p mem
  cases shape : p.2 with
  | missing =>
    intro none
    cases none
  | node top first second =>
    rw [← shape]
    have inner := encloses.terms p mem (by rw [shape]; rfl)
    exact rereads_term G plain writable (terms p mem) depth (by omega) names

-- The induction is on the statements. The bodies of a statement are read with less fuel, the statements behind it with
-- the same.
theorem replays_plan {p : Plan} (depth fuel : Nat) (inside : p.In G false)
    (deep : Node.depthOfAll (Outline.nodes (Outline.chain G p.chain)) ≤ fuel)
    (wide : Node.depthOfAll (Outline.nodes (Outline.chain G p.chain)) ≤ depth) :
    Replays ⟨operand depth, statement (operand depth) fuel false⟩ G p := by
  induction p generalizing fuel with
  | nil =>
    intro names g s parent is reads
    refine yields_pure ?_
    simpa [Plan.row, Plan.after] using is
  | cons b operands body otherwise rest hyp hyp' hyp'' =>
    intro names g s parent is reads
    have node := Plan.in_cons false b operands body otherwise rest inside
    have bare : b.loose.unplaced = b.loose := congrArg Block.loose (plain b (G.block_mem node.found))
    obtain ⟨single, row⟩ := Plan.row_reads _ _ _ _ reads
    obtain ⟨-, -, -, -, -, others⟩ := reads
    have encloses := Outline.encloses G b.loose operands body otherwise node.slots single
    change Node.depthOfAll
      (.cons (Outline.statement G b.loose (Outline.chain G body.chain) (Outline.chain G otherwise.chain)).node
      (Outline.nodes (Outline.chain G rest.chain))) ≤ _ at deep wide
    rw [Node.depthOfAll] at deep wide
    have inBody := encloses.body
    have inOtherwise := encloses.otherwise
    obtain ⟨less, rfl⟩ : ∃ less, fuel = less + 1 := ⟨fuel - 1, by omega⟩
    obtain ⟨pairs, shown, apart, read⟩ := again_statement bare node.slots
      (held_again G plain writable node.terms encloses depth (by omega) (names.inside b.loose))
      (hyp less node.inBody (by omega) (by omega)) (hyp' less node.inOtherwise (by omega) (by omega)) is single
    have size : (g.append (Head.mk b.loose operands body otherwise).blocks).size + 1 =
        g.size + 1 + 1 + (Plan.operandBlocks operands).length + body.blocks.length + otherwise.blocks.length := by
      simp [Head.blocks, Head.inner]
      omega
    have later := hyp'' (less + 1) node.inRest (by omega) (by omega)
    change Yields (statements
      _ (.cons (Outline.statement G b.loose (Outline.chain G body.chain) (Outline.chain G otherwise.chain)).node
      (Outline.nodes (Outline.chain G rest.chain)))) _ _ _
    rw [shown, Outline.flowMapping]
    unfold statements
    dsimp only
    rw [fields_written pairs apart, pure_bind]
    refine yields_bind read fun s₁ is => yields_bind (later _ _ s₁ (g.size + 1) is (size ▸ others)) fun s₂ is => ?_
    have own : b.loose.id = g.size + 1 := single.1.id
    rw [Plan.row, map_cons, own, flatMap_cons, ← Graph.append_append]
    exact yields_pure is

end Programs

end Document

end Blockwork
