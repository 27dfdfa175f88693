import Blockwork.Proofs.Forest
import Blockwork.Proofs.Scoping

set_option autoImplicit false

namespace Blockwork

open List Names

variable {names : Names} {content : Content} {first second t : Term} {r : Block} {operands : List (Slot × Term)}
  {g : Graph} {bs : List Block} {inHandler : Bool} {k : Nat} {body otherwise : Plan} {name : String} {slot : Slot}

theorem Expression.alone (saying : Expression names content first second) (leaf : content.kind.slots = []) :
    first = .missing ∧ second = .missing := by
  cases saying with
  | not | fixedElement | element => cases leaf
  | operation kind c first second slots => exact absurd (slots.symm.trans leaf) (by simp)
  | _ => exact ⟨rfl, rfl⟩

theorem Expression.single (saying : Expression names content first second)
    (one : content.kind = .not ∨ content.litIndex.isSome = true) : second = .missing := by
  cases saying with
  | element => simp at one
  | operation kind c first second slots =>
    rcases one with rfl | fixed
    · simp [Kind.slots] at slots
    · cases fixed
  | _ => rfl

theorem bind_error {ε α β : Type} {x : Except ε α} {f : α → Except ε β} {e : ε} (result : (x >>= f) = .error e) :
    x = .error e ∨ ∃ a, x = .ok a ∧ f a = .error e := by
  cases x with
  | error e' =>
    cases result
    exact .inl rfl
  | ok a => exact .inr ⟨a, rfl, result⟩

theorem Block.reference_kind (r : Block) (refers : r.isReference = true) : r.kind = .varRef ∨ r.kind = .indexRef := by
  simpa [Block.isReference] using refers

namespace Setting

variable {f : Fragment} {fault : ProgramFault} (s : Setting)

theorem compiled_references (compiled : s.Compiles t f) (k : Nat) (reads : t.Reads names k) :
    ∀ r ∈ t.blocks, r.isReference = true → (s.scopes.lookup s.scope r.decl).isSome = true := by
  have leaf : ∀ (b : Block) (first second : Term) (k : Nat), (Term.node b first second).Reads names k →
    b.kind.slots = [] → ∀ r ∈ (Term.node b first second).blocks, r = b := by
    intro b first second k reads slots r mem
    obtain ⟨rfl, rfl⟩ := Expression.alone reads.2.1 slots
    simpa [Term.blocks] using mem
  induction compiled generalizing k with
  | literal b first second f kind made | device b first second f kind made =>
    intro r mem refers
    rw [leaf b first second k reads (by rw [kind]; rfl) r mem] at refers
    simp [Block.isReference, kind] at refers
  | reference b first second f kind made =>
    intro r mem _
    rw [leaf b first second k reads (by rcases kind with kind | kind <;> rw [kind] <;> rfl) r mem]
    unfold Setting.reference at made
    split at made
    · next found _ => rw [found]; rfl
    · cases made
  | arithmetic b first second left right l r f kind top top' compiled compiled' made hyp hyp'
  | division b first second left right l r f kind top top' compiled compiled' made hyp hyp'
  | connective b first second l r f kind compiled compiled' made hyp hyp'
  | comparison b first second l r f kind compiled compiled' made hyp hyp'
  | element b first second v i f kind free compiled compiled' made hyp hyp' =>
    intro x mem refers
    rcases mem_cons.mp mem with rfl | mem
    · have refers := x.reference_kind refers
      grind
    · exact (mem_append.mp mem).elim (hyp _ reads.2.2.1 x · refers) (hyp' _ reads.2.2.2 x · refers)
  | negation b first second l f kind compiled made hyp =>
    intro x mem refers
    rcases mem_cons.mp mem with rfl | mem
    · simp [Block.isReference, kind] at refers
    · rw [Expression.single reads.2.1 (.inl kind)] at mem
      exact hyp _ reads.2.2.1 x (by simpa [Term.blocks] using mem) refers
  | fixedElement b first second i v f kind fixed compiled made hyp =>
    intro x mem refers
    rcases mem_cons.mp mem with rfl | mem
    · simp [Block.isReference, kind] at refers
    · rw [Expression.single reads.2.1 (.inr (by rw [Block.content, fixed]; rfl))] at mem
      exact hyp _ reads.2.2.1 x (by simpa [Term.blocks] using mem) refers

def Elsewhere (x : Except ProgramFault Fragment) : Prop := ∀ fault, x = .error fault → ¬ fault.OutOfScope

theorem elsewhere_ok : Elsewhere (.ok f) := by rintro fault ⟨⟩

theorem elsewhere_error (other : ¬ fault.OutOfScope) : Elsewhere (.error fault) := by
  rintro fault ⟨⟩
  exact other

variable (b : Block)

theorem elsewhere_literal : Elsewhere (literal b) := by
  unfold literal
  split
  · dsimp only
    split_ifs
    · exact elsewhere_error fun out => out
    · exact elsewhere_error fun out => out
    · exact elsewhere_ok
  · split
    · split_ifs <;> exact elsewhere_ok
    · exact elsewhere_ok
  · exact elsewhere_ok
  · exact elsewhere_error fun out => out

theorem elsewhere_device : Elsewhere (s.device b) := by
  unfold device
  split
  · exact elsewhere_ok
  · exact elsewhere_error fun out => out

theorem elsewhere_arithmetic (b left right : Block) (l r : Fragment) : Elsewhere (s.arithmetic b left right l r) := by
  unfold arithmetic
  dsimp only
  split
  · exact elsewhere_error fun out => out
  · exact elsewhere_ok

theorem elsewhere_division (b left right : Block) (l r : Fragment) : Elsewhere (s.division b left right l r) := by
  unfold division
  dsimp only
  split
  · exact elsewhere_error fun out => out
  · split
    · exact elsewhere_error fun out => out
    · exact elsewhere_ok

theorem elsewhere_element (v i : Fragment) : Elsewhere (element b v i) := by
  unfold element
  split
  · split
    · exact elsewhere_error fun out => out
    · exact elsewhere_ok
  · exact elsewhere_error fun out => out

theorem elsewhere_connective (l r : Fragment) : Elsewhere (connective b l r) := by
  unfold connective
  split
  · exact elsewhere_error fun out => out
  · exact elsewhere_ok

theorem elsewhere_comparison (l r : Fragment) : Elsewhere (comparison b l r) := by
  unfold comparison
  split
  · exact elsewhere_error fun out => out
  · exact elsewhere_ok

theorem elsewhere_negation (f : Fragment) : Elsewhere (negation b f) := by
  unfold negation
  split
  · exact elsewhere_error fun out => out
  · exact elsewhere_ok

theorem compile_out_of_scope (absent fault : ProgramFault) (other : ¬ absent.OutOfScope)
    (failed : s.compile absent t = .error fault) (out : fault.OutOfScope) :
    ∃ r ∈ t.blocks, r.isReference = true ∧ s.reference r = .error fault := by
  induction t generalizing absent with
  | missing =>
    cases failed
    exact absurd out other
  | node b first second hyp hyp' =>
    have left : ∀ absent : ProgramFault, s.compile absent first = .error fault → ¬ absent.OutOfScope →
        ∃ r ∈ (Term.node b first second).blocks, r.isReference = true ∧ s.reference r = .error fault := by
      intro absent failed other
      obtain ⟨r, mem, refers⟩ := hyp absent other failed
      exact ⟨r, mem_cons_of_mem b (mem_append_left _ mem), refers⟩
    have right : ∀ absent : ProgramFault, s.compile absent second = .error fault → ¬ absent.OutOfScope →
        ∃ r ∈ (Term.node b first second).blocks, r.isReference = true ∧ s.reference r = .error fault := by
      intro absent failed other
      obtain ⟨r, mem, refers⟩ := hyp' absent other failed
      exact ⟨r, mem_cons_of_mem b (mem_append_right _ mem), refers⟩
    have both : ∀ (op op' : String) (make : Block → Block → Fragment → Fragment → Except ProgramFault Fragment),
        (∀ left right l r, Elsewhere (make left right l r)) →
        operands (b.fault (.missingLeft op)) (b.fault (.missingRight op')) first second
          (s.compile (b.fault (.missingLeft op)) first) (s.compile (b.fault (.missingRight op')) second) make =
            .error fault →
        ∃ r ∈ (Term.node b first second).blocks, r.isReference = true ∧ s.reference r = .error fault := by
      intro op op' make elsewhere result
      unfold operands at result
      split at result
      · cases result
        exact out.elim
      · cases result
        exact out.elim
      · rcases bind_error result with failed | ⟨l, -, result⟩
        · exact left _ failed fun out => out
        · rcases bind_error result with failed | ⟨r, -, result⟩
          · exact right _ failed fun out => out
          · exact absurd out (elsewhere _ _ l r fault result)
    cases kind : b.kind with
    | literal =>
      simp only [compile, kind] at failed
      exact absurd out (elsewhere_literal b fault failed)
    | varRef | indexRef =>
      simp only [compile, kind] at failed
      exact ⟨b, mem_cons_self, by simp [Block.isReference, kind], failed⟩
    | deviceRef =>
      simp only [compile, kind] at failed
      exact absurd out (elsewhere_device s b fault failed)
    | add | sub | mult =>
      simp only [compile, kind] at failed
      exact both _ _ _ (elsewhere_arithmetic s b) failed
    | div | mod =>
      simp only [compile, kind] at failed
      exact both _ _ _ (elsewhere_division s b) failed
    | and | or =>
      simp only [compile, kind] at failed
      exact both _ _ _ (fun _ _ => elsewhere_connective b) failed
    | eq | lt | lte | gt | gte =>
      simp only [compile, kind] at failed
      exact both _ _ _ (fun _ _ => elsewhere_comparison b) failed
    | not =>
      simp only [compile, kind] at failed
      rcases bind_error failed with failed | ⟨l, -, failed⟩
      · exact left _ failed fun out => out
      · exact absurd out (elsewhere_negation b l fault failed)
    | element =>
      cases fixed : b.litIndex with
      | some i =>
        simp only [compile, kind, fixed] at failed
        split_ifs at failed with missing
        · cases failed
          exact out.elim
        · rcases bind_error failed with failed | ⟨v, -, failed⟩
          · exact left _ failed fun out => out
          · exact absurd out (elsewhere_element b v _ fault failed)
      | none =>
        simp only [compile, kind, fixed] at failed
        split_ifs at failed with missing missing'
        · cases failed
          exact out.elim
        · cases failed
          exact out.elim
        · rcases bind_error failed with failed | ⟨v, -, failed⟩
          · exact left _ failed fun out => out
          · rcases bind_error failed with failed | ⟨i, -, failed⟩
            · exact right _ failed fun out => out
            · exact absurd out (elsewhere_element b v i fault failed)
    | _ =>
      simp only [compile, kind] at failed
      cases failed
      exact out.elim

theorem reference_out_of_scope {d : Block} (declared : s.graph.decl? r = some d)
    (failed : s.reference r = .error fault) :
    fault = r.fault (.outOfScope r.name) ∧ s.scopes.lookup s.scope r.decl = none := by
  unfold reference at failed
  rw [declared] at failed
  cases found : s.scopes.lookup s.scope r.decl with
  | none =>
    rw [found] at failed
    cases failed
    exact ⟨rfl, rfl⟩
  | some scope =>
    rw [found] at failed
    cases failed

end Setting

namespace Plan

theorem chain_after (p : Plan) (names : Names) : p.chain.after names = p.after names := by
  induction p generalizing names with
  | nil => rfl
  | cons b operands body otherwise rest hyp hyp' hyp'' => rw [chain, Chain.after, after, hyp, hyp', hyp'']

theorem operand_reads {kind : Kind} (k : Nat) (reads : OperandsRead names kind k operands) (slot : Slot) :
    ∃ k, (among operands slot).Reads names k := by
  have each : ∀ p ∈ operands, ∃ k, p.2.Reads names k := by
    induction operands generalizing k with
    | nil => simp
    | cons p rest hyp =>
      intro q mem
      rcases mem_cons.mp mem with rfl | mem
      · exact ⟨k, reads.2.1⟩
      · exact hyp _ reads.2.2 q mem
  rcases among_mem operands slot with mem | missing
  · exact each _ mem
  · exact ⟨0, missing ▸ trivial⟩

end Plan

structure Visit.Read (g : Graph) (bs : List Block) (v : Visit) : Prop where
  reads : ∃ k, (v.term g).Reads v.names k
  backed : v.names.Backed bs

theorem Plan.visits_read (top : Bool) (names : Names) (p : Plan) (k parent : Nat) (held : p.In g top)
    (reads : p.Reads top names k parent) (inside : p.blocks ⊆ bs) (backed : names.Backed bs) (scopes : Scopes)
    (scope : Nat) : ∀ v ∈ p.chain.visits inHandler names scopes scope, v.Read g bs := by
  induction p generalizing top names k parent scopes scope with
  | nil => simp [chain, Chain.visits]
  | cons b operands body otherwise rest hyp hyp' hyp'' =>
    have node := in_cons top b operands body otherwise rest held
    obtain ⟨-, -, operandsRead, bodyReads, otherwiseReads, restReads⟩ := reads
    have within := fun x mem => inside ((mem_blocks b x operands body otherwise rest).mpr mem)
    have inBody : body.blocks ⊆ bs := fun x mem => within x (.inr (.inr (.inl mem)))
    have inOtherwise : otherwise.blocks ⊆ bs := fun x mem => within x (.inr (.inr (.inr (.inl mem))))
    have inRest : rest.blocks ⊆ bs := fun x mem => within x (.inr (.inr (.inr (.inr mem))))
    have inner := backed_enter bs _ (names.backed_inside bs backed (within b (.inl rfl)))
    have first := backed_enter bs _ (backed_leave bs _ (body.reads_resolved bs _ _ _ _ bodyReads inBody inner).1)
    have second := backed_leave bs _ (otherwise.reads_resolved bs _ _ _ _ otherwiseReads inOtherwise first).1
    intro v mem
    rcases (Chain.mem_visits b _ _ _ inHandler names scopes scope v).mp mem with
      ⟨slot, compiled, rfl⟩ | ⟨-, mem⟩ | ⟨-, mem⟩ | mem
    · have same : names.inside b = names := by
        refine if_neg fun loop => ?_
        rw [loop] at compiled
        cases compiled
      rw [same] at operandsRead
      refine ⟨?_, backed⟩
      rw [Visit.term, node.slots]
      exact operand_reads _ operandsRead slot
    · exact hyp _ _ _ _ node.inBody bodyReads inBody inner _ _ v mem
    · rw [Chain.bodyNames, chain_after] at mem
      exact hyp' _ _ _ _ node.inOtherwise otherwiseReads inOtherwise first _ _ v mem
    · rw [Chain.otherNames, Chain.bodyNames, chain_after, chain_after] at mem
      exact hyp'' _ _ _ _ node.inRest restReads inRest (backed_past bs _ second (within b (.inl rfl))) _ _ v mem

-- The names at a use are those that can be found from its scope.
structure Visit.Sound (g : Graph) (bs : List Block) (v : Visit) : Prop extends v.Read g bs where
  agrees : v.names.Agrees v.scopes v.scope

theorem Plan.visits_sound (p : Plan) {parent : Nat} (held : p.In g false) (reads : p.Reads false names k parent)
    (inside : p.blocks ⊆ bs) (backed : names.Backed bs) {scopes : Scopes} {scope : Nat}
    (agrees : names.Agrees scopes scope) : ∀ v ∈ p.chain.visits inHandler names scopes scope, v.Sound g bs :=
  fun v mem =>
    ⟨p.visits_read false names k parent held reads inside backed scopes scope v mem,
      (p.chain.visits_agree inHandler names scopes scope agrees).1 v mem⟩

theorem Statement.handler_shape {top : Bool} (statement : Statement top content operands body otherwise)
    (kind : content.kind = .when) : operands.map Prod.fst = [.cond] ∧ otherwise = .nil := by
  cases statement with
  | handler => exact ⟨rfl, rfl⟩
  | _ => cases kind

namespace Graph

theorem start_rooted : startScopes.Rooted := by
  refine ⟨by decide, fun j p parent => ?_, rfl⟩
  match j with
  | 0 => cases parent
  | 1 =>
    cases parent
    decide
  | j + 2 => cases parent

theorem start_agrees : (fresh {}).Agrees startScopes 1 := by
  refine ⟨cons_ne_nil _ _, by decide, start_rooted.ordered, fun id => ?_⟩
  have around : startScopes.enclosing 1 = [1, 0] := rfl
  rw [Scopes.Visible, around]
  simp [Names.Open, fresh, startScopes, Scopes.declaredIn]

end Graph

theorem Blueprint.handler_after {h : Head} (reads : h.single.Reads true names k 0) (kind : h.block.kind = .when) :
    (Chain.cons h.block h.body.chain .nil .nil).after names = h.single.after names := by
  obtain ⟨-, statement, -⟩ := reads
  rw [← Plan.chain_after, Head.single, (Statement.handler_shape statement kind).2]
  rfl

namespace Blueprint

variable (bp : Blueprint) (reads : bp.Reads)

include reads

theorem handler_visits_sound {hs : List Head} (listed : ∀ h ∈ hs, h ∈ bp.handlers) (names : Names) (k : Nat)
    (read : HandlersRead names k hs) (backed : names.Backed bp.blocks) (scopes : Scopes) (rooted : scopes.Rooted) :
    ∀ v ∈ Drafting.handlerVisits bp.graph 0 names scopes (hs.map (·.block.id)), v.Sound bp.graph bp.blocks := by
  induction hs generalizing names k scopes with
  | nil => simp [Drafting.handlerVisits]
  | cons h rest hyp =>
    obtain ⟨single, kind, others⟩ := read
    have held := bp.handler_in reads h (listed h mem_cons_self)
    have node := Plan.in_cons _ _ _ _ _ _ held
    have whole : h.single.blocks ⊆ bp.blocks := by
      rw [h.single_blocks]
      intro x mem
      exact mem_append_right _ (mem_flatMap.mpr ⟨h, listed h mem_cons_self, mem⟩)
    have backed' := names.backed_fresh _ backed
    have past := (h.single.reads_resolved bp.blocks _ _ _ _ single whole backed').1
    have behind := handler_after single kind
    obtain ⟨-, -, operandsRead, bodyReads, -⟩ := single
    have plain : names.fresh.inside h.block = names.fresh := if_neg (by rw [kind]; decide)
    rw [plain] at operandsRead bodyReads
    have agrees := names.rooted_agrees rooted
    obtain ⟨kept, ordered⟩ := h.body.chain.behind_keeps _ scopes.size agrees.ordered agrees.inside
    rw [map_cons, Drafting.handlerVisits, node.found]
    dsimp only
    rw [node.first, h.body.read_back node.inBody, behind]
    intro v mem
    rcases mem_append.mp mem with mem | mem
    · rcases mem_append.mp mem with mem | mem
      · split_ifs at mem
        · cases mem
        · rw [mem_singleton.mp mem]
          refine ⟨⟨?_, backed'⟩, agrees⟩
          rw [Visit.term, node.slots]
          exact Plan.operand_reads _ operandsRead .cond
      · refine h.body.visits_sound node.inBody bodyReads (fun x inner => whole ?_) (backed_enter _ _ backed')
          (agrees_enter _ _ _ agrees) v mem
        exact (Plan.mem_blocks h.block x h.operands h.body h.otherwise .nil).mpr (.inr (.inr (.inl inner)))
    · refine hyp (fun h' inner => listed h' (mem_cons_of_mem h inner)) _ _ others past _ ?_ v mem
      have opened := Scopes.opened_plain scopes rooted.ordered rooted.inside
      exact Scopes.rooted_kept rooted ordered (opened.kept.trans kept) rooted.inside.ne'

theorem visits_sound : ∀ v ∈ bp.graph.visits, v.Sound bp.graph bp.blocks := by
  cases found : bp.main with
  | none =>
    have main : bp.graph.main = 0 := by simp [graph, found]
    have none : bp.graph.visits = [] := by
      rw [Graph.visits, main]
      rfl
    simp [none]
  | some whole =>
    obtain ⟨p, start⟩ := whole
    obtain ⟨here, next, held⟩ := bp.main_in reads found
    obtain ⟨planned, -⟩ := reads.main p start found
    have inside : p.blocks ⊆ bp.blocks := by
      intro x mem
      simp [blocks, mainBlocks, found, mem]
    have backed : (fresh {}).Backed bp.blocks := by simp [Names.Backed, fresh]
    have past := (p.reads_resolved bp.blocks _ _ _ _ planned inside backed).1
    obtain ⟨kept, ordered⟩ := p.chain.behind_keeps _ 1 Graph.start_rooted.ordered Graph.start_agrees.inside
    have named : bp.mainNames = p.chain.after (fresh {}) := by
      rw [mainNames, found, Plan.chain_after]
    intro v mem
    rw [Graph.visits, here] at mem
    dsimp only at mem
    rw [next, p.read_back held] at mem
    rcases mem_append.mp mem with mem | mem
    · exact p.visits_sound held planned inside backed Graph.start_agrees v mem
    · refine handler_visits_sound bp reads (fun h inner => inner) _ _ (named ▸ reads.handlers) ?_ _ ?_ v mem
      · rw [Plan.chain_after]
        exact past
      · exact Scopes.rooted_kept Graph.start_rooted ordered kept (by decide)

end Blueprint

namespace Names

-- What a name stands for in the innermost open body that declares it: the latest declaration there.
def lookOpen (names : Names) (name : String) : Option Entry :=
  names.frames.findSome? fun frame => frame.find? fun e => e.name = name

theorem look_split (names : Names) (name : String) :
    names.look name = (names.lookOpen name).or (names.declared.find? fun e => e.name = name) := by
  rw [look, lookOpen, find?_append, find?_flatten]

theorem look_open_mem (names : Names) {e : Entry} (found : names.lookOpen name = some e) :
    e ∈ names.frames.flatten ∧ e.name = name := by
  rw [lookOpen, ← find?_flatten] at found
  exact ⟨mem_of_find?_eq_some found, by simpa using find?_some found⟩

theorem look_open_none (names : Names) (missing : names.lookOpen name = none) :
    ∀ e ∈ names.frames.flatten, e.name ≠ name := by
  rw [lookOpen, ← find?_flatten, find?_eq_none] at missing
  simpa using missing

end Names

theorem Term.reads_looked (reads : t.Reads names k) :
    ∀ r ∈ t.blocks, r.isReference = true → ∃ e, names.look r.name = some e ∧ e.id = r.decl := by
  intro r mem refers
  obtain ⟨first, second, _, ⟨-, saying, -⟩, -⟩ := t.reads_node k reads mem
  generalize own : r.content = content at saying
  have kind : r.kind = content.kind := congrArg Content.kind own
  rw [show r.decl = content.decl from congrArg Content.decl own,
    show r.name = content.name from congrArg Content.name own]
  have kinds := r.reference_kind refers
  rw [kind] at kinds
  cases saying with
  | reference e found named => exact ⟨e, found, rfl⟩
  | operation kind' c first second slots => rcases kinds with rfl | rfl <;> cases slots
  | _ => simp at kinds

theorem Visit.looked (v : Visit) (read : v.Read g bs) (mem : r ∈ v.references g) :
    ∃ e, v.names.look r.name = some e ∧ e.id = r.decl := by
  obtain ⟨mem, refers⟩ := mem_filter.mp mem
  obtain ⟨k, reads⟩ := read.reads
  exact Term.reads_looked reads r mem refers

namespace Blueprint

variable (bp : Blueprint) (reads : bp.Reads) (v : Visit) (sound : v.Sound bp.graph bp.blocks)

include reads sound

theorem visit_open (mem : r ∈ v.references bp.graph) :
    v.names.Open r.decl ↔ (v.names.lookOpen r.name).isSome = true := by
  obtain ⟨e, looked, own⟩ := v.looked sound.toRead mem
  rw [look_split] at looked
  cases found : v.names.lookOpen r.name with
  | some e' =>
    rw [found] at looked
    cases looked
    exact iff_of_true ⟨e, (v.names.look_open_mem found).1, own⟩ rfl
  | none =>
    rw [found] at looked
    refine iff_of_false ?_ (by simp)
    rintro ⟨e', inside, own'⟩
    have listed : e ∈ v.names.declared := mem_of_find?_eq_some looked
    obtain ⟨d, inGraph, entry, -⟩ := sound.backed e (mem_append_right _ listed)
    obtain ⟨d', inGraph', entry', -⟩ := sound.backed e' (mem_append_left _ inside)
    have same : d.id = d'.id :=
      (congrArg Entry.id entry).trans (own.trans (own'.symm.trans (congrArg Entry.id entry').symm))
    have block := bp.block_found reads d inGraph
    rw [same, bp.block_found reads d' inGraph'] at block
    cases block
    rw [entry'] at entry
    subst entry
    exact v.names.look_open_none found _ inside (by simpa using find?_some looked)

theorem visit_agrees (mem : r ∈ v.references bp.graph) :
    (v.scopes.lookup v.scope r.decl).isSome = true ↔ (v.names.lookOpen r.name).isSome = true := by
  rw [Scopes.lookup_visible, ← sound.agrees.same, visit_open bp reads v sound mem]

theorem visit_declared (mem : r ∈ v.references bp.graph) : ∃ d, bp.graph.decl? r = some d := by
  obtain ⟨e, looked, own⟩ := v.looked sound.toRead mem
  obtain ⟨d, inGraph, entry, -⟩ := sound.backed e (mem_of_find?_eq_some looked)
  refine ⟨d, ?_⟩
  rw [Graph.decl?, ← own, ← entry]
  exact bp.block_found reads d inGraph

end Blueprint

theorem Chain.mem_compiled (b x : Block) {body otherwise rest : Chain} :
    x ∈ (cons b body otherwise rest).compiled ↔ x = b ∨ (b.kind.hasBody = true ∧ x ∈ body.compiled) ∨
      (b.kind = .ifElse ∧ x ∈ otherwise.compiled) ∨ x ∈ rest.compiled := by
  rw [compiled, mem_cons]
  cases b.kind <;> simp [Kind.hasBody]

theorem Statement.filled_compiled (statement : Statement false content operands body otherwise)
    (other : content.kind ≠ .forLoop) (filled : Plan.among operands slot ≠ .missing) :
    slot ∈ content.kind.compiledSlots := by
  have listed : slot ∈ operands.map Prod.fst :=
    mem_map.mpr ⟨_, (Plan.among_mem operands slot).resolve_right filled, rfl⟩
  cases statement with
  | forLoop => exact absurd rfl other
  | handler cond times body atTop => cases atTop
  | declaration => cases listed
  | assign => simpa [Kind.compiledSlots, or_comm] using listed
  | _ => exact listed

-- All that is in a slot is compiled, apart from the bounds of counting loops.
theorem Plan.visits_cover (p : Plan) (held : p.In g false) (inHandler : Bool) (names : Names) (scopes : Scopes)
    (scope : Nat) :
    ∀ b ∈ p.chain.compiled, b.kind ≠ .forLoop → ∀ slot, g.slotTerm b slot ≠ .missing →
      ∃ v ∈ p.chain.visits inHandler names scopes scope, v.statement = b ∧ v.slot = slot := by
  induction p generalizing names scopes scope with
  | nil => simp [chain, Chain.compiled]
  | cons b operands body otherwise rest hyp hyp' hyp'' =>
    have node := in_cons false b operands body otherwise rest held
    intro x mem other slot filled
    simp only [chain, Chain.mem_visits]
    rcases (Chain.mem_compiled b x).mp mem with rfl | ⟨kind, mem⟩ | ⟨kind, mem⟩ | mem
    · rw [node.slots] at filled
      exact ⟨_, .inl ⟨slot, Statement.filled_compiled node.statement other filled, rfl⟩, rfl, rfl⟩
    · obtain ⟨v, visited, own⟩ := hyp node.inBody _ _ _ x mem other slot filled
      exact ⟨v, .inr (.inl ⟨kind, visited⟩), own⟩
    · obtain ⟨v, visited, own⟩ := hyp' node.inOtherwise _ _ _ x mem other slot filled
      exact ⟨v, .inr (.inr (.inl ⟨kind, visited⟩)), own⟩
    · obtain ⟨v, visited, own⟩ := hyp'' node.inRest _ _ _ x mem other slot filled
      exact ⟨v, .inr (.inr (.inr visited)), own⟩

theorem Graph.term_block (g : Graph) {id : Nat} {b : Block} (tree : g.term id = .node b first second) :
    g.block? id = some b := by
  unfold term at tree
  cases size : g.size with
  | zero =>
    rw [size] at tree
    cases tree
  | succ fuel =>
    rw [size, termFrom] at tree
    split at tree
    · cases tree
    · next found =>
        cases tree
        exact found

theorem Head.trigger_compiled (h : Head) (reads : h.single.Reads true names k 0) (kind : h.block.kind = .when)
    (slots : ∀ slot, g.slotTerm h.block slot = Plan.among h.operands slot)
    (inside : r ∈ (g.slotTerm h.block slot).blocks) (refers : r.isReference = true) :
    slot = .cond ∧ (g.slotBlock? h.block .cond).any (·.kind = .interrupt) = false := by
  obtain ⟨-, statement, operandsRead, -⟩ := reads
  have here : slot = .cond := by
    rcases Plan.among_mem h.operands slot with mem | missing
    · have listed := mem_map_of_mem (f := Prod.fst) mem
      rw [(Statement.handler_shape statement kind).1] at listed
      exact mem_singleton.mp listed
    · rw [slots, missing] at inside
      cases inside
  subst here
  refine ⟨rfl, ?_⟩
  obtain ⟨k, read⟩ := Plan.operand_reads _ operandsRead .cond
  rw [← slots] at read
  cases tree : g.slotTerm h.block .cond with
  | missing =>
    rw [tree] at inside
    cases inside
  | node b first second =>
    have found : g.slotBlock? h.block .cond = some b := g.term_block tree
    rw [tree] at inside read
    rw [found, Option.any_some, decide_eq_false_iff_not]
    intro interrupt
    obtain ⟨rfl, rfl⟩ := Expression.alone read.2.1 (by rw [Block.content, interrupt]; rfl)
    obtain rfl : r = b := by simpa [Term.blocks] using inside
    simp [Block.isReference, interrupt] at refers

namespace Blueprint

variable (bp : Blueprint) (reads : bp.Reads)

include reads

theorem handler_visits_cover {hs : List Head} (listed : ∀ h ∈ hs, h ∈ bp.handlers) (names : Names) (k : Nat)
    (read : HandlersRead names k hs)
    (scopes : Scopes) : ∀ b ∈ hs.flatMap (fun h => h.block :: h.body.chain.compiled), b.kind ≠ .forLoop →
      ∀ slot, ∀ r ∈ (bp.graph.slotTerm b slot).blocks, r.isReference = true →
      ∃ v ∈ Drafting.handlerVisits bp.graph 0 names scopes (hs.map (·.block.id)), v.statement = b ∧ v.slot = slot := by
  induction hs generalizing names k scopes with
  | nil => simp
  | cons h rest hyp =>
    obtain ⟨single, kind, others⟩ := read
    have node := Plan.in_cons _ _ _ _ _ _ (bp.handler_in reads h (listed h mem_cons_self))
    rw [map_cons, Drafting.handlerVisits, node.found]
    dsimp only
    rw [node.first, h.body.read_back node.inBody, handler_after single kind]
    intro b mem other slot r inside refers
    simp only [mem_append]
    rcases mem_append.mp mem with mem | mem
    · rcases mem_cons.mp mem with rfl | mem
      · have trigger := h.trigger_compiled single kind node.slots inside refers
        rw [if_neg (by simpa using trigger.2), trigger.1]
        exact ⟨_, .inl (.inl (mem_singleton.mpr rfl)), rfl, rfl⟩
      · have filled : bp.graph.slotTerm b slot ≠ .missing := fun missing => by
          rw [missing] at inside
          cases inside
        obtain ⟨v, visited, own⟩ := h.body.visits_cover node.inBody true names.fresh.enter
          (scopes.openScope (some 0)).2 scopes.size b mem other slot filled
        exact ⟨v, .inl (.inr visited), own⟩
    · obtain ⟨v, visited, own⟩ :=
        hyp (fun h' inner => listed h' (mem_cons_of_mem h inner)) _ _ others _ b mem other slot r
        inside refers
      exact ⟨v, .inr visited, own⟩

theorem visits_cover (main : bp.graph.main ≠ 0) : ∀ b ∈ bp.graph.statements, b.kind ≠ .forLoop →
    ∀ slot, ∀ r ∈ (bp.graph.slotTerm b slot).blocks, r.isReference = true → ∃ v ∈ bp.graph.visits, v.statement = b ∧
      v.slot = slot := by
  cases found : bp.main with
  | none => exact absurd (by simp [graph, found]) main
  | some whole =>
    obtain ⟨p, start⟩ := whole
    obtain ⟨here, next, held⟩ := bp.main_in reads found
    have named : bp.mainNames = p.chain.after (fresh {}) := by
      rw [mainNames, found, Plan.chain_after]
    rw [Graph.statements_read reads, statements, found, Graph.visits, here]
    dsimp only
    rw [next, p.read_back held]
    intro b mem other slot r inside refers
    simp only [mem_append]
    rcases mem_append.mp mem with mem | mem
    · have filled : bp.graph.slotTerm b slot ≠ .missing := fun missing => by
        rw [missing] at inside
        cases inside
      obtain ⟨v, visited, own⟩ := p.visits_cover held false (fresh {}) Graph.startScopes 1 b mem other slot filled
      exact ⟨v, .inl visited, own⟩
    · obtain ⟨v, visited, own⟩ := handler_visits_cover bp reads (fun h inner => inner) _ _ (named ▸ reads.handlers)
        (p.chain.scopesBehind Graph.startScopes 1) b mem other slot r inside refers
      exact ⟨v, .inr visited, own⟩

end Blueprint

-- Where a program is compiled, its declarations are found as they were when it was read.
structure Graph.ScopesAgree (g : Graph) : Prop where
  -- all references are compiled, apart from those in the bounds of counting loops
  covered : g.main ≠ 0 → ∀ b ∈ g.statements, b.kind ≠ .forLoop →
    ∀ slot, ∀ r ∈ (g.slotTerm b slot).blocks, r.isReference = true →
    ∃ v ∈ g.visits, v.statement = b ∧ v.slot = slot ∧ r ∈ v.references g
  resolved : ∀ v ∈ g.visits, ∀ r ∈ v.references g, ∃ e, v.names.look r.name = some e ∧ e.id = r.decl
  agree : ∀ v ∈ g.visits, ∀ r ∈ v.references g,
    (v.scopes.lookup v.scope r.decl).isSome = true ↔ (v.names.lookOpen r.name).isSome = true
  made : ∀ policy p, g.generate policy = .ok p → p.scopes = g.scopesBehind ∧ ∀ v ∈ g.visits,
    (∃ f, (v.setting g).Compiles (v.term g) f) ∧ ∀ r ∈ v.references g, ∃ e, v.names.lookOpen r.name = some e ∧
      e.id = r.decl
  failed : ∀ policy fault, g.generate policy = .error fault → fault.OutOfScope → ∃ v ∈ g.visits, ∃ r ∈ v.references g,
    (v.setting g).reference r = .error fault ∧ fault = r.fault (.outOfScope r.name) ∧ v.names.lookOpen r.name = none

theorem Names.look_agrees (names : Names) {e : Entry} (looked : names.look name = some e)
    (opened : (names.lookOpen name).isSome = true) : names.lookOpen name = some e := by
  obtain ⟨e', found⟩ := Option.isSome_iff_exists.mp opened
  rw [look_split, found] at looked
  exact found.trans looked

-- A declaration is found from where it is used if and only if its name was resolved in a body that was still open.
theorem loaded_scopes_agree (document : Markup.Node) (g : Graph) (read : Document.ofNode document = .ok g) :
    g.ScopesAgree := by
  obtain ⟨bp, reads, rfl⟩ := Document.of_node_reads read
  have sound := bp.visits_sound reads
  have agree : ∀ v ∈ bp.graph.visits, ∀ r ∈ v.references bp.graph,
      (v.scopes.lookup v.scope r.decl).isSome = true ↔ (v.names.lookOpen r.name).isSome = true :=
    fun v member r refers => bp.visit_agrees reads v (sound v member) refers
  have resolved : ∀ v ∈ bp.graph.visits, ∀ r ∈ v.references bp.graph, ∃ e, v.names.look r.name = some e ∧
      e.id = r.decl := fun v member r refers => v.looked (sound v member).toRead refers
  refine ⟨fun main b member other slot r inside refers => ?_, resolved, agree, fun policy p made =>
    ?_, fun policy fault failed out => ?_⟩
  · obtain ⟨v, visited, rfl, rfl⟩ := bp.visits_cover reads main b member other slot r inside refers
    exact ⟨v, visited, rfl, rfl, mem_filter.mpr ⟨inside, refers⟩⟩
  · have met := bp.graph.meets_program policy {} rfl
    unfold Graph.generate Graph.draftUnder at made
    split at made
    · cases made
    · next d state outcome =>
        rw [outcome] at met
        cases made
        refine ⟨met.1, fun v member => ?_⟩
        obtain ⟨f, compiled⟩ := met.2 v member
        refine ⟨⟨f, compiled⟩, fun r refers => ?_⟩
        obtain ⟨k, read⟩ := (sound v member).reads
        have inside := mem_filter.mp refers
        have found := (v.setting bp.graph).compiled_references compiled k read r inside.1 inside.2
        obtain ⟨e, looked, own⟩ := resolved v member r refers
        exact ⟨e, v.names.look_agrees looked ((agree v member r refers).mp found), own⟩
  · have met := bp.graph.meets_program policy {} rfl
    unfold Graph.generate Graph.draftUnder at failed
    split at failed
    · next fault' state outcome =>
        rw [outcome] at met
        cases failed
        obtain ⟨v, member, absent, other, failed⟩ := met out
        obtain ⟨r, inside, refers, failed⟩ := (v.setting bp.graph).compile_out_of_scope absent fault other failed out
        have refers := mem_filter.mpr ⟨inside, refers⟩
        obtain ⟨d, declared⟩ := bp.visit_declared reads v (sound v member) refers
        obtain ⟨same, missing⟩ := (v.setting bp.graph).reference_out_of_scope declared failed
        refine ⟨v, member, r, refers, failed, same, ?_⟩
        have closed :=
          (agree v member r refers).not.mp (by rw [show v.scopes.lookup v.scope r.decl = none from missing]; simp)
        simpa using closed
    · cases failed

def hiddenText : String :=
  "main:\n- \x7bvar: x, type: int\x7d\n- if: \x7blt: [\x7bref: x\x7d, 3]\x7d\n" ++
    "  then: [\x7bvar: x, type: int\x7d, \x7bvar: y, type: int\x7d, \x7bprint: \x7bref: x\x7d\x7d]\n" ++
    "- for: x\n  from: 1\n  to: 3\n  do: [\x7bprint: \x7bref: x\x7d\x7d]\n- print: \x7bref: x\x7d\n" ++
    "- print: \x7bref: y\x7d\n"

-- Each reference with what it stands for, with what its name stands for in the open bodies, and with the scope it is
-- found in.
def Graph.uses (g : Graph) : List (Nat × Nat × Option Nat × Option Nat) :=
  g.visits.flatMap fun v => (v.references g).map fun r =>
    (r.id, r.decl, (v.names.lookOpen r.name).map Entry.id, v.scopes.lookup v.scope r.decl)

set_option maxRecDepth 10000 in
theorem hidden_loads : ∃ g, Document.load hiddenText = .ok g ∧ g.draft.1.isOk = false ∧
    g.uses = [(4, 1, some 1, some 1), (9, 6, some 6, some 2), (14, 10, some 10, some 3), (16, 1, some 1, some 1),
      (18, 7, none, none)] := by
  have shown : (Document.load hiddenText).toOption.any (fun g => g.draft.1.isOk = false ∧ g.uses =
      [(4, 1, some 1, some 1), (9, 6, some 6, some 2), (14, 10, some 10, some 3), (16, 1, some 1, some 1),
        (18, 7, none, none)]) = true := by decide +kernel
  cases read : Document.load hiddenText with
  | error fault =>
    rw [read] at shown
    cases shown
  | ok g =>
    rw [read] at shown
    exact ⟨g, rfl, of_decide_eq_true shown⟩

theorem hidden_names_agree : ∃ g, Document.load hiddenText = .ok g ∧ g.draft.1.isOk = false ∧
    g.uses = [(4, 1, some 1, some 1), (9, 6, some 6, some 2), (14, 10, some 10, some 3), (16, 1, some 1, some 1),
      (18, 7, none, none)] ∧ g.ScopesAgree := by
  obtain ⟨g, loaded, stopped, uses⟩ := hidden_loads
  obtain ⟨document, -, read⟩ := Document.load_node loaded
  exact ⟨g, loaded, stopped, uses, loaded_scopes_agree document g read⟩

end Blockwork
