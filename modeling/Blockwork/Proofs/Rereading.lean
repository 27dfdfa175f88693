import Blockwork.Proofs.Positions
import Blockwork.Proofs.ReadTrees
import Blockwork.Proofs.ScalarTexts

set_option autoImplicit false

namespace Blockwork

open Outline
open Markup (Node NodeList EntryList Scalar Place plainScalar)

namespace Markup.Node

def isInteger : Node → Bool
  | .scalar _ s => s.tag = .integer
  | _ => false

theorem depth_pos (n : Node) : 0 < n.depth := by
  cases n <;> exact Nat.succ_pos _

end Markup.Node

-- What the text of a program has no form for: a zero with a sign that is no `double`, a `long` that is none, and a
-- literal in a slot where an integer is taken for an index.
structure Graph.Writable (g : Graph) : Prop where
  zeros : ∀ b ∈ g.blocks, b.kind = .literal → b.number? = some .negZero → b.type = some .double
  longs : ∀ b ∈ g.blocks, b.kind = .literal → b.type = some .long →
    ∀ v ∈ b.number?, (Number.ofInt (-2 ^ 63)).lt v = true ∧ v.lt (.ofInt (2 ^ 63)) = true
  indices : ∀ b ∈ g.blocks, ∀ c ∈ g.slotBlock? b .index, c.kind = .literal → (Outline.literal c).isInteger = false

instance (g : Graph) : Decidable g.Writable :=
  decidable_of_iff (_ ∧ _ ∧ _) ⟨fun ⟨zeros, longs, indices⟩ => ⟨zeros, longs, indices⟩,
    fun writable => ⟨writable.zeros, writable.longs, writable.indices⟩⟩

theorem Block.rebuilt (b c : Block) (content : c.content = b.content)
    (placed : b.Placed c.id c.parent c.next c.body c.otherwise c.slots) (plain : b.unplaced = b) : c.unplaced = b := by
  obtain ⟨id, parent, next, body, otherwise, slots⟩ := placed
  rw [← plain]
  cases b
  cases c
  simp only [Block.content, Content.mk.injEq] at content
  simp only at id parent next body otherwise slots
  simp only [Block.unplaced, Block.mk.injEq, true_and]
  simp [id, parent, next, body, otherwise, slots, content]

theorem Literal.readable {payload : Payload} {type : ValueType} (valid : Literal payload type) :
    ∃ text, ValueType.parse text = .ok type := by
  have primitive : ∀ p : Primitive, ValueType.parse p.name = .ok (.primitive p) := by
    intro p
    cases p <;> decide
  cases type with
  | primitive p => exact ⟨p.name, primitive p⟩
  | array element size =>
    cases valid with
    | number v type numeric double => cases numeric

namespace Document

variable {α β : Type}

structure LoadState.Is (s : LoadState) (g : Graph) (names : Names) : Prop where
  graph : s.graph = g
  known : s.Matches names

def Yields (x : Loading α) (s : LoadState) (a : α) (after : LoadState → Prop) : Prop :=
  ∃ s', x.run s = .ok (a, s') ∧ after s'

variable {s : LoadState} {after : LoadState → Prop} {g : Graph} {names : Names} {b : Block} {slot : Slot}

theorem yields_bind {x : Loading α} {f : α → Loading β} {a : α} {b : β} {between : LoadState → Prop}
    (first : Yields x s a between) (rest : ∀ s', between s' → Yields (f a) s' b after) :
    Yields (x >>= f) s b after := by
  obtain ⟨s₁, now, holds⟩ := first
  obtain ⟨s₂, later, last⟩ := rest s₁ holds
  exact ⟨s₂, run_bind_ok.mpr ⟨a, s₁, now, later⟩, last⟩

theorem yields_pure {a : α} (holds : after s) : Yields (pure a) s a after :=
  ⟨s, rfl, holds⟩

theorem yields_get {f : LoadState → Loading β} {b : β} (rest : Yields (f s) s b after) : Yields (get >>= f) s b after :=
  rest

theorem yields_add (kind : Kind) (n : Node) (f : Block → Block) (here : n.place = {}) (is : s.Is g names) :
    Yields (add kind n f) s (g.size + 1) (·.Is (g.append [(f { id := g.size + 1, kind }).unplaced]) names) := by
  obtain ⟨rfl, known⟩ := is
  refine ⟨_, run_add kind n f s, ?_, ?_⟩
  · rw [Graph.add_eq, here]
    rfl
  · rw [Graph.add_eq]
    exact known.keeps _ (Graph.keeps_append _) rfl rfl

theorem yields_on_graph {f : Graph → Graph} (keeps : g.Keeps (f g)) (is : s.Is g names) :
    Yields (onGraph f) s () (·.Is (f g) names) := by
  obtain ⟨rfl, known⟩ := is
  exact ⟨_, rfl, rfl, known.keeps _ keeps rfl rfl⟩

def written (pairs : List (String × Node)) : Fields := pairs.map fun p => ⟨Outline.plain p.1, p.1, p.2⟩

variable (pairs : List (String × Node))

@[simp] theorem written_get (name : String) :
    (written pairs).get? name = (pairs.find? (·.1 = name)).map fun p => ⟨plain p.1, p.1, p.2⟩ := by
  rw [written, Fields.get?, List.find?_map]
  rfl

@[simp] theorem written_has (name : String) : (written pairs).has name = (pairs.find? (·.1 = name)).isSome := by
  rw [Fields.has, written_get, Option.isSome_map]

theorem fields_from_written (seen pairs : List (String × Node)) (apart : ((seen ++ pairs).map Prod.fst).Nodup) :
    fieldsFrom (written seen) (EntryList.ofList (pairs.map fun p => (plain p.1, p.2))) = .ok
      (written (seen ++ pairs)) := by
  induction pairs generalizing seen with
  | nil =>
    rw [List.append_nil]
    rfl
  | cons p rest hyp =>
    have fresh : seen.find? (·.1 = p.1) = none := by
      rw [List.find?_eq_none]
      intro q mem same
      rw [List.map_append, List.nodup_append] at apart
      exact apart.2.2 q.1 (List.mem_map_of_mem mem) p.1 (by simp) (by simpa using same)
    have shape : seen ++ p :: rest = (seen ++ [p]) ++ rest := by simp
    rw [shape] at apart ⊢
    have more : written (seen ++ [p]) = written seen ++ [⟨plain p.1, p.1, p.2⟩] := by simp [written]
    rw [← hyp (seen ++ [p]) apart, more]
    simp only [List.map_cons, EntryList.ofList, fieldsFrom, plain]
    rw [if_neg (by rw [written_has, fresh]; simp)]

theorem fields_written (apart : (pairs.map Prod.fst).Nodup) :
    fields (EntryList.ofList (pairs.map fun p => (plain p.1, p.2))) = pure (written pairs) := by
  have read := fields_from_written [] pairs apart
  change fieldsFrom [] _ = _ at read
  unfold fields
  rw [read]
  rfl

theorem name_written {name : String} {fault : NodeFault} (named : name ≠ "") :
    nameIn (Outline.name name) fault = pure name := by
  have some_ : name.isEmpty = false := by simpa using named
  unfold Outline.name
  split_ifs <;> simp [Outline.plain, Outline.quoted, nameIn, some_]

theorem type_own_text (t : ValueType) : (type (some t)).ownText = t.text := by
  cases t <;> rfl

theorem type_written {fs : Fields} (n : Node) (t : ValueType) (f : Field) (given : fs.get? "type" = some f)
    (shown : f.value = type (some t)) (readable : ∃ text, ValueType.parse text = .ok t) : typeOf fs n = pure t := by
  unfold typeOf
  rw [given]
  dsimp only
  rw [shown, type_own_text, t.parse_text readable]

-- What is written for a term is read as it.
def Rereads (operand : Node → Loading BlockId) (names : Names) (t : Term) : Prop :=
  t.isMissing = false → ∀ g s, LoadState.Is s g names → t.Reads names (g.size + 1) →
    (Outline.expression t).isNull = false ∧
    Yields (operand (Outline.expression t)) s (g.size + 1) (·.Is (g.append t.blocks) names)

theorem yields_fill {operand : Node → Loading BlockId} {t : Term} {more : List Block} {c : Category}
    (rereads : Rereads operand names t) (is : s.Is (g.append (b :: more)) names)
    (accepts : b.kind.accepts? slot = some c) (empty : ∀ p ∈ b.slots, p.1 ≠ slot) (fits : t.Fits c)
    (reads : t.Reads names (g.size + 1 + more.length + 1)) :
    Yields (fill operand (g.size + 1) slot (expression t)) s ()
      (·.Is (g.append ({ b with slots := b.slots ++ t.inSlot slot } :: (more ++ t.blocks))) names) := by
  unfold fill
  cases t with
  | missing =>
    rw [if_pos (by decide)]
    refine yields_pure ?_
    simpa [Term.inSlot, Term.isMissing, Term.blocks] using is
  | node top first second =>
    have size : (g.append (b :: more)).size + 1 = g.size + more.length + 2 := by
      simp
      omega
    have place : g.size + 1 + more.length + 1 = (g.append (b :: more)).size + 1 := by
      simp
      omega
    rw [place] at reads
    obtain ⟨shown, read⟩ := rereads rfl _ s is reads
    rw [if_neg (by simp [shown])]
    refine yields_bind read fun s₁ is => ?_
    obtain ⟨grown, known⟩ := is
    have whole : s₁.graph = g.append (b :: (more ++ top :: (first.blocks ++ second.blocks))) := by
      rw [grown]
      simp [Term.blocks]
    have slotted : (Term.node top first second).inSlot slot = [(slot, g.size + more.length + 2)] := by
      rw [← size, ← reads.1.id]
      rfl
    have set := (set_slot_iff g more (first.blocks ++ second.blocks) accepts empty).mpr ⟨fits top rfl, rfl⟩
    rw [← slotted, ← whole] at set
    refine ⟨{ s₁ with graph := g.append ({ b with slots := b.slots ++ (Term.node top first second).inSlot slot } ::
      (more ++ (Term.node top first second).blocks)) }, ?_, ⟨rfl, ?_⟩⟩
    · refine run_bind_ok.mpr ⟨s₁, s₁, rfl, ?_⟩
      rw [size, set]
      rfl
    · refine known.keeps _ ?_ rfl rfl
      rw [whole]
      dsimp only
      rw [← g.modify_head b _ fun b => { b with slots := b.slots ++ (Term.node top first second).inSlot slot }]
      exact Graph.keeps_modify _ _ _ fun _ => rfl

theorem yields_leaf {kind : Kind} {n : Node} {f : Block → Block} (here : n.place = {}) (is : s.Is g names)
    (placed : b.Placed (g.size + 1) 0 0 0 0 []) (plain : b.unplaced = b)
    (content : (f { id := g.size + 1, kind }).content = b.content)
    (loose : (f { id := g.size + 1, kind }).Placed (g.size + 1) 0 0 0 0 []) :
    Yields (add kind n f) s (g.size + 1) (·.Is (g.append (Term.node b .missing .missing).blocks) names) := by
  have same : (f { id := g.size + 1, kind }).unplaced = b := by
    refine Block.rebuilt b _ content ?_ plain
    rw [loose.id, loose.parent, loose.next, loose.body, loose.otherwise, loose.slots]
    exact placed
  have added := yields_add kind n f here is
  rw [same] at added
  exact added

theorem integer_written {i : Int} (least : 0 ≤ i) (most : i < 2 ^ 63) :
    Markup.plainTag (toString i) = .integer ∧ (Markup.plainScalar (toString i)).integer? = some i := by
  have written : (toString i).toList = Markup.sign false ++ Nat.toDigits 10 i.toNat := ValueType.size_digits i least
  have fits : Markup.integer? (Markup.sign false ++ Nat.toDigits 10 i.toNat) = some i := by
    rw [Markup.integer_signed, if_neg (by simp), if_pos (by omega), Int.toNat_of_nonneg least]
  obtain ⟨tag, read⟩ := Markup.integer_scalar (toString i) false written fits
  refine ⟨tag, ?_⟩
  rw [Scalar.integer?, read]
  exact if_pos most

theorem typed_literal (operand : Node → Loading BlockId) {type : ValueType} (s : Scalar) (p q r t : Place)
    {named : Node} (text : named.ownText = type.text) (readable : ∃ text, ValueType.parse text = .ok type) :
    operandWith operand (.mapping p (.cons (.scalar q (plainScalar "lit")) (.scalar r s)
      (.cons (.scalar t (plainScalar "type")) named .nil))) = literal (some type) (.scalar r s) := by
  have made :
    fields (.cons (.scalar q (plainScalar "lit")) (.scalar r s) (.cons (.scalar t (plainScalar "type")) named .nil)) =
      pure [⟨.scalar q (plainScalar "lit"), "lit", .scalar r s⟩, ⟨.scalar t (plainScalar "type"), "type", named⟩] := by
    rfl
  unfold operandWith
  dsimp only
  rw [made, pure_bind]
  simp [Fields.get?, Fields.has, typeOf, text, type.parse_text readable]

section Nodes

variable (operand : Node → Loading BlockId) (names : Names) (b : Block) (plain : b.unplaced = b)

include plain

variable {g : Graph} {s : LoadState} {n : Node}

theorem rereads_literal {payload : Payload} {type : ValueType} (valid : Literal payload type)
    (content : b.content = { kind := .literal, payload, type := some type }) (writable : payload.Writable type)
    (is : s.Is g names) (placed : b.Placed (g.size + 1) 0 0 0 0 []) :
    Yields (operandWith operand (Outline.literal b)) s (g.size + 1)
      (·.Is (g.append (Term.node b .missing .missing).blocks) names) := by
  have made : ∀ (wanted : Option ValueType) (s' : Scalar) (s : LoadState), s.Is g names →
    literalOf wanted s' = .ok (payload, type) → Yields (literal wanted (.scalar {} s')) s (g.size + 1)
        (·.Is (g.append (Term.node b .missing .missing).blocks) names) := by
    intro wanted s' s is read
    unfold literal
    dsimp only
    rw [read]
    exact yields_leaf rfl is placed plain content.symm ⟨rfl, rfl, rfl, rfl, rfl, rfl⟩
  obtain ⟨s', ⟨shown, read⟩ | ⟨shown, read⟩⟩ :=
    Outline.literal_reads (congrArg Content.payload content) (congrArg Content.type content) valid (writable.kept)
  · rw [shown]
    exact made none s' s is read
  · have same : operandWith operand (Outline.typedLiteral (.scalar {} s') (some type)) = literal (some type)
        (.scalar {} s') := typed_literal operand s' {} {} {} {} (type_own_text type) valid.readable
    rw [shown, same]
    exact made (some type) s' s is read

omit plain in
theorem rereads_keyed (key : String) {value : Node} (other : key ≠ "lit") {a : BlockId} {after : LoadState → Prop}
    (is : s.Is g names) (rest : ∀ s', LoadState.Is s' g names →
      Yields (keyed operand (Outline.flowMapping [(key, value)]) ⟨Outline.plain key, key, value⟩) s' a after) :
    Yields (operandWith operand (Outline.flowMapping [(key, value)])) s a after := by
  unfold Outline.flowMapping operandWith
  dsimp only
  rw [fields_written [(key, value)] (by simp), pure_bind, written_get, List.find?_cons_of_neg (by simpa using other),
    List.find?_nil, Option.map_none]
  exact rest s is

theorem rereads_reference {e : Entry} (found : names.look e.name = some e) (named : e.name ≠ "")
    (content : b.content = { kind := if e.kind = .forLoop then .indexRef else .varRef, name := e.name, decl := e.id })
    (is : s.Is g names) (placed : b.Placed (g.size + 1) 0 0 0 0 []) :
    Yields (reference (Outline.name b.name)) s (g.size + 1)
      (·.Is (g.append (Term.node b .missing .missing).blocks) names) := by
  have name : b.name = e.name := congrArg Content.name content
  have looked := resolve_look is.known e.name
  rw [found] at looked
  obtain ⟨d, resolved, entry⟩ := Option.map_eq_some_iff.mp looked
  have place : (Outline.name b.name).place = {} := by
    unfold Outline.name
    split_ifs <;> rfl
  unfold reference
  rw [name_written (name ▸ named), pure_bind]
  refine yields_get ?_
  rw [name, resolved]
  refine yields_leaf (name ▸ place) is placed plain ?_ ⟨rfl, rfl, rfl, rfl, rfl, rfl⟩
  rw [content, ← entry]
  rfl

variable (first second : Term) (rereads : Rereads operand names first) (rereads' : Rereads operand names second)

include rereads

theorem rereads_not (fits : first.Fits .predicate) (content : b.content = { kind := .not }) (here : n.place = {})
    (is : s.Is g names) (reads : (Term.node b first .missing).Reads names (g.size + 1)) :
    Yields (add .not n id >>= fun block => fill operand block .operand (expression first) >>= fun _ => pure block) s
      (g.size + 1)
      (·.Is (g.append (Term.node b first .missing).blocks) names) := by
  obtain ⟨placed, -, reads, -⟩ := reads
  have kind : b.kind = .not := congrArg Content.kind content
  have same : Block.unplaced { id := g.size + 1, kind := .not, slots := first.inSlot .operand } = b := by
    refine Block.rebuilt b _ content.symm ?_ plain
    rw [kind, show Term.missing.inSlot Kind.not.secondOperand = [] from rfl, List.append_nil] at placed
    exact placed
  refine yields_bind (yields_add .not n id here is) fun s₁ is => ?_
  refine yields_bind (yields_fill rereads is rfl (by simp [Block.unplaced]) fits reads) fun s₂ is => yields_pure ?_
  rw [← same, Term.blocks, Term.blocks, List.append_nil]
  exact is

include rereads'

theorem rereads_two {kind : Kind} {c : Category}
    (slots : kind.slots = [(kind.firstOperand, c), (kind.secondOperand, c)]) (fits : first.Fits c)
    (fits' : second.Fits c) (content : b.content = { kind }) (here : n.place = {}) (is : s.Is g names)
    (reads : (Term.node b first second).Reads names (g.size + 1)) :
    Yields (add kind n id >>= fun block => fill operand block kind.firstOperand (expression first) >>= fun _ =>
        fill operand block kind.secondOperand (expression second) >>= fun _ => pure block) s (g.size + 1)
      (·.Is (g.append (Term.node b first second).blocks) names) := by
  obtain ⟨placed, -, reads, reads'⟩ := reads
  have own : b.kind = kind := congrArg Content.kind content
  have apart : kind.firstOperand ≠ kind.secondOperand := by cases kind <;> simp [Kind.firstOperand, Kind.secondOperand]
  have same : Block.unplaced
      { id := g.size + 1, kind, slots := first.inSlot kind.firstOperand ++ second.inSlot kind.secondOperand } = b := by
    refine Block.rebuilt b _ content.symm ?_ plain
    rw [own] at placed
    exact placed
  refine yields_bind (yields_add kind n id here is) fun s₁ is => ?_
  refine yields_bind
    (yields_fill rereads is (by simp [Block.unplaced, Kind.accepts?, slots]) (by simp [Block.unplaced]) fits reads)
    fun s₂ is => ?_
  refine yields_bind (yields_fill rereads' is (by simp [Block.unplaced, Kind.accepts?, slots, apart])
    (by simp [Block.unplaced, Term.inSlot, apart]) fits' (by simpa [Nat.add_right_comm] using reads')) fun s₃ is =>
      yields_pure ?_
  rw [← same]
  exact is

theorem rereads_element (index : (expression second).isInteger = false) (fits : first.Fits .value)
    (fits' : second.Fits .value) (content : b.content = { kind := .element }) (here : n.place = {}) (is : s.Is g names)
    (reads : (Term.node b first second).Reads names (g.size + 1)) :
    Yields (element operand n (flowList [expression first, expression second])) s (g.size + 1)
      (·.Is (g.append (Term.node b first second).blocks) names) := by
  have run := rereads_two operand names b plain first second rereads rereads' rfl fits fits' content here is reads
  unfold element
  simp only [flowList, NodeList.ofList]
  generalize expression second = node at index run
  match node with
  | .scalar place s' =>
    have other : s'.tag ≠ .integer := by simpa [Node.isInteger] using index
    simp only [other, if_false]
    exact run
  | .list _ _ => exact run
  | .mapping _ _ => exact run
  | .alias _ _ _ => exact run

omit rereads' in
theorem rereads_fixed {i : Int} (least : 0 ≤ i) (most : i < 2 ^ 63) (fits : first.Fits .value)
    (content : b.content = { kind := .element, litIndex := some i }) (here : n.place = {}) (is : s.Is g names)
    (reads : (Term.node b first .missing).Reads names (g.size + 1)) :
    Yields (element operand n (Outline.flowList [Outline.expression first, Outline.plain (toString i)])) s (g.size + 1)
      (·.Is (g.append (Term.node b first .missing).blocks) names) := by
  obtain ⟨placed, -, reads, -⟩ := reads
  obtain ⟨tag, read⟩ := integer_written least most
  have kind : b.kind = .element := congrArg Content.kind content
  have same : Block.unplaced { id := g.size + 1, kind := .element, slots := first.inSlot .vector, litIndex := some i } =
      b := by
    refine Block.rebuilt b _ content.symm ?_ plain
    rw [kind, show Term.missing.inSlot Kind.element.secondOperand = [] from rfl, List.append_nil] at placed
    exact placed
  unfold element
  simp only [Outline.flowList, NodeList.ofList, Outline.plain, tag, if_true]
  refine yields_bind (yields_add .element n id here is) fun s₁ is => ?_
  refine yields_bind (yields_fill rereads is rfl (by simp [Block.unplaced]) fits reads) fun s₂ is => ?_
  have value : Scalar.integer? ⟨.integer, toString i, true⟩ = some i := by
    rw [← read, Markup.plainScalar, tag]
  rw [value]
  dsimp only
  rw [if_neg (by omega)]
  refine yields_bind (yields_on_graph (Graph.keeps_modify _ _ _ fun _ => rfl) is) fun s₃ is => yields_pure ?_
  rw [Graph.modify_head] at is
  rw [← same, Term.blocks, Term.blocks, List.append_nil]
  exact is

end Nodes

end Document

theorem Graph.block_mem (g : Graph) {id : Nat} {b : Block} (found : g.block? id = some b) : b ∈ g.blocks := by
  unfold block? at found
  split_ifs at found
  exact Array.mem_of_getElem? found

theorem Graph.Writable.payload {g : Graph} (writable : g.Writable) {b : Block} (mem : b ∈ g.blocks)
    (kind : b.kind = .literal) {type : ValueType} (typed : b.type = some type) : b.payload.Writable type := by
  cases holds : b.payload with
  | number v =>
    refine ⟨fun zero => ?_, fun long => ?_⟩
    · have double := writable.zeros b mem kind (by rw [Block.number?, holds, zero]; rfl)
      exact Option.some.inj (typed.symm.trans double)
    · exact writable.longs b mem kind (by rw [typed, long]) v (by rw [Block.number?, holds]; rfl)
  | _ => trivial

namespace Outline

section Forms

variable (b : Block) (first second : Term)

theorem expression_literal (kind : b.kind = .literal) : expression (.node b first second) = literal b := by
  simp only [expression, kind]

theorem expression_reference (kind : b.kind = .varRef ∨ b.kind = .indexRef) :
    expression (.node b first second) = flowMapping [("ref", name b.name)] := by
  rcases kind with kind | kind <;> simp only [expression, kind]

theorem expression_device (kind : b.kind = .deviceRef) :
    expression (.node b first second) = flowMapping [("device", name b.name)] := by
  simp only [expression, kind]

theorem expression_interrupt (kind : b.kind = .interrupt) :
    expression (.node b first second) = flowMapping [("interrupt", name b.name)] := by
  simp only [expression, kind]

theorem expression_not (kind : b.kind = .not) :
    expression (.node b first second) = flowMapping [("not", expression first)] := by
  simp only [expression, kind]

theorem expression_element (kind : b.kind = .element) : expression (.node b first second) =
    flowMapping
      [("elem", flowList [expression first, b.litIndex.elim (expression second) fun i => plain (toString i)])] := by
  simp only [expression, kind]

theorem expression_operation {kind : Kind} {c : Category} (own : b.kind = kind)
    (slots : kind.slots = [(.left, c), (.right, c)]) :
    expression (.node b first second) = flowMapping [(kind.name, flowList [expression first, expression second])] := by
  cases kind <;> first | (simp only [expression, own]; done) | cases slots

end Forms

theorem flow_mapping_depth (key : String) (value : Node) :
    (flowMapping [(key, value)]).depth = max 1 value.depth + 1 := by
  simp [flowMapping, EntryList.ofList, Node.depth, Node.depthOfEntries, plain]

theorem flow_list_depth (left right : Node) : (flowList [left, right]).depth = max left.depth right.depth + 1 := by
  simp [flowList, NodeList.ofList, Node.depth, Node.depthOfAll]

theorem expression_mapping {b : Block} (first second : Term) (other : b.kind ≠ .literal) :
    ∃ pairs, expression (.node b first second) = flowMapping pairs := by
  unfold expression
  split
  · next kind => exact absurd kind other
  all_goals exact ⟨_, rfl⟩

theorem expression_integer (t : Term)
    (literals : ∀ b, t.block? = some b → b.kind = .literal → (literal b).isInteger = false) :
    (expression t).isInteger = false := by
  cases t with
  | missing => decide
  | node b first second =>
    by_cases kind : b.kind = .literal
    · rw [expression_literal b first second kind]
      exact literals b rfl kind
    · obtain ⟨pairs, shown⟩ := expression_mapping first second kind
      rw [shown]
      rfl

end Outline

namespace Document

theorem literal_shown {s : Scalar} {payload : Payload} {type : ValueType}
    (read : literalOf none s = .ok (payload, type)) : s.tag ≠ .null := by
  intro null
  unfold literalOf at read
  simp only [null] at read
  cases read

theorem keyed_operation (operand : Node → Loading BlockId) {n key left right : Node} {kind : Kind} {c : Category}
    (slots : kind.slots = [(.left, c), (.right, c)]) :
    keyed operand n ⟨key, kind.name, flowList [left, right]⟩ =
      (add kind n id >>= fun block => fill operand block kind.firstOperand left >>= fun _ =>
        fill operand block kind.secondOperand right >>= fun _ => pure block) := by
  cases kind <;> first | rfl | cases slots

section Terms

variable (G : Graph) (plain : ∀ b ∈ G.blocks, b.unplaced = b) (writable : G.Writable)

include plain writable

theorem rereads_term {t : Term} (inside : t.In G) (fuel : Nat) (deep : (Outline.expression t).depth ≤ fuel)
    (names : Names) :
    Rereads (operand fuel) names t := by
  induction t generalizing fuel with
  | missing =>
    intro none
    cases none
  | node b first second hyp hyp' =>
    intro _ g s is reads
    have node := Term.in_node inside
    have mem := G.block_mem node.found
    have saying := reads.2.1
    have placed := reads.1
    generalize content : b.content = said at saying
    have positive := (Outline.expression (.node b first second)).depth_pos
    obtain ⟨fuel, rfl⟩ : ∃ f, fuel = f + 1 := ⟨fuel - 1, by omega⟩
    rw [operand]
    cases saying with
    | literal payload type valid =>
      have kind : b.kind = .literal := congrArg Content.kind content
      have holds : b.payload = payload := congrArg Content.payload content
      have typed : b.type = some type := congrArg Content.type content
      have kept := writable.payload mem kind typed
      rw [holds] at kept
      rw [Outline.expression_literal b _ _ kind]
      refine ⟨?_, rereads_literal (operand fuel) names b (plain b mem) valid content kept is placed⟩
      obtain ⟨s', ⟨shown, read⟩ | ⟨shown, -⟩⟩ := Outline.literal_reads holds typed valid (kept.kept)
      · rw [shown]
        simpa [Node.isNull] using literal_shown read
      · rw [shown]
        rfl
    | reference e found named =>
      have kind : b.kind = if e.kind = .forLoop then .indexRef else .varRef := congrArg Content.kind content
      rw [Outline.expression_reference b _ _ (by rw [kind]; split_ifs <;> simp)]
      refine ⟨rfl, rereads_keyed (operand fuel) names "ref" (by decide) is fun s' is => ?_⟩
      exact rereads_reference names b (plain b mem) found named content is placed
    | device name named =>
      rw [Outline.expression_device b _ _ (congrArg Content.kind content),
        show b.name = name from congrArg Content.name content]
      refine ⟨rfl, rereads_keyed (operand fuel) names "device" (by decide) is fun s' is => ?_⟩
      change Yields (nameIn (Outline.name name) _ >>= _) _ _ _
      rw [name_written named, pure_bind]
      exact yields_leaf rfl is placed (plain b mem) content.symm ⟨rfl, rfl, rfl, rfl, rfl, rfl⟩
    | interrupt name named =>
      rw [Outline.expression_interrupt b _ _ (congrArg Content.kind content),
        show b.name = name from congrArg Content.name content]
      refine ⟨rfl, rereads_keyed (operand fuel) names "interrupt" (by decide) is fun s' is => ?_⟩
      change Yields (nameIn (Outline.name name) _ >>= _) _ _ _
      rw [name_written named, pure_bind]
      exact yields_leaf rfl is placed (plain b mem) content.symm ⟨rfl, rfl, rfl, rfl, rfl, rfl⟩
    | not _ fits =>
      rw [Outline.expression_not b _ _ (congrArg Content.kind content)] at deep ⊢
      rw [Outline.flow_mapping_depth] at deep
      refine ⟨rfl, rereads_keyed (operand fuel) names "not" (by decide) is fun s' is => ?_⟩
      exact rereads_not (operand fuel) names b (plain b mem) first
        (hyp node.left fuel (by omega)) fits content rfl is reads
    | fixedElement _ i fits least most =>
      rw [Outline.expression_element b _ _ (congrArg Content.kind content),
        show b.litIndex = some i from congrArg Content.litIndex content, Option.elim_some] at deep ⊢
      rw [Outline.flow_mapping_depth, Outline.flow_list_depth] at deep
      refine ⟨rfl, rereads_keyed (operand fuel) names "elem" (by decide) is fun s' is => ?_⟩
      exact rereads_fixed (operand fuel) names b (plain b mem) first (hyp node.left fuel (by omega)) least most fits
        content rfl is reads
    | element _ _ fits fits' =>
      have kind : b.kind = .element := congrArg Content.kind content
      rw [Outline.expression_element b _ _ kind, show b.litIndex = none from congrArg Content.litIndex content,
        Option.elim_none] at deep ⊢
      rw [Outline.flow_mapping_depth, Outline.flow_list_depth] at deep
      have index := Outline.expression_integer second fun c top literal => by
        cases second with
        | missing => cases top
        | node c' _ _ =>
          cases top
          refine writable.indices b mem c ?_ literal
          have slot := (Term.slot_operands first _ b node.slots).2
          rw [kind] at slot
          rw [Graph.slotBlock?, show b.slot .index = _ from slot]
          exact (Term.in_node node.right).found
      refine ⟨rfl, rereads_keyed (operand fuel) names "elem" (by decide) is fun s' is => ?_⟩
      exact rereads_element (operand fuel) names b (plain b mem) first second (hyp node.left fuel (by omega))
        (hyp' node.right fuel (by omega)) index fits fits' content rfl is reads
    | operation kind c _ _ slots fits fits' =>
      have own : b.kind = kind := congrArg Content.kind content
      rw [Outline.expression_operation b _ _ own slots] at deep ⊢
      rw [Outline.flow_mapping_depth, Outline.flow_list_depth] at deep
      have operands : kind.slots = [(kind.firstOperand, c), (kind.secondOperand, c)] := by
        rw [slots]
        cases kind <;> first | rfl | cases slots
      refine ⟨rfl, rereads_keyed (operand fuel) names kind.name (by cases kind <;> first | decide | cases slots) is
        fun s' is => ?_⟩
      rw [keyed_operation (operand fuel) slots]
      exact rereads_two (operand fuel) names b (plain b mem) first second (hyp node.left fuel (by omega))
        (hyp' node.right fuel (by omega)) operands fits fits' content rfl is reads

end Terms

end Document

end Blockwork
