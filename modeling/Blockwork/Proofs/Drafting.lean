import Blockwork.Program.Compile
import Mathlib

set_option autoImplicit false

namespace Blockwork

open List

variable {b : Block} {fuel : Nat} {f : Fragment} {checks : List Check} {c : Chain} {g : Graph} {inHandler : Bool}
  {d : Draft}

theorem bind_ok {ε α β : Type} {x : Except ε α} {f : α → Except ε β} {b : β} (result : (x >>= f) = .ok b) :
    ∃ a, x = .ok a ∧ f a = .ok b := by
  cases x with
  | error e => cases result
  | ok a => exact ⟨a, rfl, result⟩

theorem result_ok {ε α : Type} {x : Except ε α} {a : α} (some_ : x.toOption = some a) : x = .ok a := by
  cases x with
  | error => cases some_
  | ok => exact congrArg _ (Option.some.inj some_)

def Term.blocks : Term → List Block
  | .missing => []
  | .node b first second => b :: (first.blocks ++ second.blocks)

theorem Term.block_mem (t : Term) (top : t.block? = some b) : b ∈ t.blocks := by
  cases t with
  | missing => cases top
  | node b' first second =>
    cases top
    exact mem_cons_self

theorem Graph.term_blocks (g : Graph) (id : BlockId) (mem : b ∈ (g.termFrom fuel id).blocks) :
    ∃ id, g.block? id = some b := by
  induction fuel generalizing id with
  | zero => cases mem
  | succ fuel hyp =>
    rw [termFrom] at mem
    cases found : g.block? id with
    | none =>
      rw [found] at mem
      cases mem
    | some top =>
      rw [found] at mem
      rcases mem_cons.mp mem with rfl | below
      · exact ⟨id, found⟩
      · exact (mem_append.mp below).elim (hyp _) (hyp _)

-- The headers of a guard tell what it guards against, and a guarded sum is not one of devices.
structure Check.Proper (g : Graph) (c : Check) : Prop where
  headers : c.headers = match c.site.kind with
    | .overflow => [.bundled "RangeChecks", .system "iostream"]
    | .zeroDivisor => [.system "iostream"]
  operands : c.site.kind = .overflow → ∀ id, id = c.site.left ∨ id = c.site.right →
    ∃ i b, g.block? i = some b ∧ b.id = id ∧ b.kind ≠ .deviceRef

namespace Setting

variable {s : Setting} {b left right : Block} {l r : Fragment} {c : Check} {t : Term}

theorem checked_reference {d : Block} (checked : s.checkedDecl? b = some d) : b.kind = .varRef := by
  unfold checkedDecl? at checked
  by_cases reference : b.kind = .varRef
  · exact reference
  · rw [if_pos reference] at checked
    cases checked

theorem guardable_operands {w : Guardable} (made : Guardable.of? s left right l r = some w) :
    left.kind ≠ .deviceRef ∧ right.kind ≠ .deviceRef := by
  have referenced : ∀ b d, s.checkedDecl? b = some d → b.kind ≠ .deviceRef := by
    intro b d checked device
    have reference := checked_reference checked
    rw [device] at reference
    cases reference
  have literal : ∀ (b : Block) v, (if b.kind = .literal then b.number? else none) = some v → b.kind ≠ .deviceRef := by
    intro b v number device
    simp [device] at number
  have named : ∀ b : Block, b.isReference = true → b.kind ≠ .deviceRef := by
    intro b reference device
    simp [Block.isReference, device] at reference
  unfold Guardable.of? at made
  dsimp only at made
  split at made
  · next checked number => exact ⟨referenced _ _ checked, literal _ _ number⟩
  · next checked _ =>
      split_ifs at made with reference
      exact ⟨referenced _ _ checked, named _ reference⟩
  · split at made
    · next checked number => exact ⟨literal _ _ number, referenced _ _ checked⟩
    · next checked _ =>
        split_ifs at made with reference
        exact ⟨named _ reference, referenced _ _ checked⟩
    · cases made

theorem overflow_check_proper (first : ∃ i, s.graph.block? i = some left) (second : ∃ i, s.graph.block? i = some right)
    (made : s.overflowCheck? b left right l r = some c) : c.Proper s.graph := by
  unfold overflowCheck? at made
  obtain ⟨w, guardable, made⟩ := Option.bind_eq_some_iff.mp made
  obtain ⟨type, -, rfl⟩ := Option.map_eq_some_iff.mp made
  obtain ⟨plain, plain'⟩ := guardable_operands guardable
  obtain ⟨i, found⟩ := first
  obtain ⟨j, found'⟩ := second
  refine ⟨rfl, fun _ id operand => ?_⟩
  rcases operand with rfl | rfl
  · exact ⟨i, left, found, rfl, plain⟩
  · exact ⟨j, right, found', rfl, plain'⟩

theorem zero_check_proper (made : s.zeroCheck? b left right = some c) : c.Proper s.graph := by
  unfold zeroCheck? at made
  obtain ⟨d, -, rfl⟩ := Option.map_eq_some_iff.mp made
  exact ⟨rfl, fun other => by cases other⟩

theorem arithmetic_checks (made : s.arithmetic b left right l r = .ok f) :
    f.checks = l.checks ++ r.checks ++ (if b.kind = .mult then none else s.overflowCheck? b left right l r).toList := by
  unfold arithmetic at made
  dsimp only at made
  split_ifs at made
  all_goals
    cases made
    simp [Fragment.join, *]

theorem division_checks (made : s.division b left right l r = .ok f) :
    f.checks = l.checks ++ r.checks ++ (s.zeroCheck? b left right).toList := by
  unfold division at made
  dsimp only at made
  split_ifs at made
  all_goals
    cases made
    rfl

theorem connective_checks (made : connective b l r = .ok f) : f.checks = l.checks ++ r.checks := by
  unfold connective at made
  split_ifs at made
  cases made
  rfl

theorem comparison_checks (made : comparison b l r = .ok f) : f.checks = l.checks ++ r.checks := by
  unfold comparison at made
  split_ifs at made
  cases made
  rfl

theorem negation_checks {f' : Fragment} (made : negation b f = .ok f') : f'.checks = f.checks := by
  unfold negation at made
  split_ifs at made
  cases made
  rfl

theorem element_checks {v i : Fragment} (made : element b v i = .ok f) : f.checks = v.checks ++ i.checks := by
  unfold element at made
  split at made
  · split_ifs at made
    cases made
    rfl
  · cases made

theorem leaf_checks (s : Setting) (b : Block) (f : Fragment)
    (made : literal b = .ok f ∨ s.reference b = .ok f ∨ s.device b = .ok f) : f.checks = [] := by
  rcases made with made | made | made
  · unfold literal at made
    split at made
    · dsimp only at made
      split_ifs at made
      cases made
      rfl
    · split at made
      · split_ifs at made <;> cases made <;> rfl
      · cases made
        rfl
    · cases made
      rfl
    · cases made
  · unfold reference at made
    split at made
    · cases made
      rfl
    · cases made
  · unfold device at made
    split at made
    · cases made
      rfl
    · cases made

inductive Compiles (s : Setting) : Term → Fragment → Prop
  | literal (b : Block) (first second : Term) (f : Fragment) (kind : b.kind = .literal)
      (made : Setting.literal b = .ok f) :
      Compiles s (.node b first second) f
  | reference (b : Block) (first second : Term) (f : Fragment) (kind : b.kind = .varRef ∨ b.kind = .indexRef)
      (made : s.reference b = .ok f) : Compiles s (.node b first second) f
  | device (b : Block) (first second : Term) (f : Fragment) (kind : b.kind = .deviceRef) (made : s.device b = .ok f) :
      Compiles s (.node b first second) f
  | arithmetic (b : Block) (first second : Term) (left right : Block) (l r f : Fragment)
      (kind : b.kind = .add ∨ b.kind = .sub ∨ b.kind = .mult) (top : first.block? = some left)
      (top' : second.block? = some right) (compiled : Compiles s first l) (compiled' : Compiles s second r)
      (made : s.arithmetic b left right l r = .ok f) : Compiles s (.node b first second) f
  | division (b : Block) (first second : Term) (left right : Block) (l r f : Fragment)
      (kind : b.kind = .div ∨ b.kind = .mod) (top : first.block? = some left) (top' : second.block? = some right)
      (compiled : Compiles s first l) (compiled' : Compiles s second r) (made : s.division b left right l r = .ok f) :
      Compiles s (.node b first second) f
  | connective (b : Block) (first second : Term) (l r f : Fragment) (kind : b.kind = .and ∨ b.kind = .or)
      (compiled : Compiles s first l) (compiled' : Compiles s second r) (made : Setting.connective b l r = .ok f) :
      Compiles s (.node b first second) f
  | comparison (b : Block) (first second : Term) (l r f : Fragment)
      (kind : b.kind = .eq ∨ b.kind = .lt ∨ b.kind = .lte ∨ b.kind = .gt ∨ b.kind = .gte)
      (compiled : Compiles s first l) (compiled' : Compiles s second r) (made : Setting.comparison b l r = .ok f) :
      Compiles s (.node b first second) f
  | negation (b : Block) (first second : Term) (l f : Fragment) (kind : b.kind = .not) (compiled : Compiles s first l)
      (made : Setting.negation b l = .ok f) : Compiles s (.node b first second) f
  | fixedElement (b : Block) (first second : Term) (i : Int) (v f : Fragment) (kind : b.kind = .element)
      (fixed : b.litIndex = some i) (compiled : Compiles s first v)
      (made : Setting.element b v { code := toString i, type := some .long } = .ok f) :
      Compiles s (.node b first second) f
  | element (b : Block) (first second : Term) (v i f : Fragment) (kind : b.kind = .element) (free : b.litIndex = none)
      (compiled : Compiles s first v) (compiled' : Compiles s second i) (made : Setting.element b v i = .ok f) :
      Compiles s (.node b first second) f

theorem compile_compiles (s : Setting) (absent : ProgramFault) (f : Fragment) (made : s.compile absent t = .ok f) :
    s.Compiles t f := by
  induction t generalizing absent f with
  | missing => cases made
  | node b first second hyp hyp' =>
    have both : ∀ (noLeft noRight : ProgramFault)
        (make : Block → Block → Fragment → Fragment → Except ProgramFault Fragment),
        operands noLeft noRight first second (s.compile noLeft first) (s.compile noRight second) make = .ok f →
        ∃ left right l r, first.block? = some left ∧ second.block? = some right ∧ s.Compiles first l ∧
          s.Compiles second r ∧ make left right l r = .ok f := by
      intro noLeft noRight make result
      unfold operands at result
      split at result
      · cases result
      · cases result
      · next left right top top' =>
          obtain ⟨l, compiled, result⟩ := bind_ok result
          obtain ⟨r, compiled', result⟩ := bind_ok result
          exact ⟨left, right, l, r, top, top', hyp noLeft l compiled, hyp' noRight r compiled', result⟩
    cases kind : b.kind with
    | literal =>
      simp only [compile, kind] at made
      exact .literal b first second f kind made
    | varRef | indexRef =>
      simp only [compile, kind] at made
      exact .reference b first second f (by simp [kind]) made
    | deviceRef =>
      simp only [compile, kind] at made
      exact .device b first second f kind made
    | add | sub | mult =>
      simp only [compile, kind] at made
      obtain ⟨left, right, l, r, top, top', compiled, compiled', made⟩ := both _ _ _ made
      exact .arithmetic b first second left right l r f (by simp [kind]) top top' compiled compiled' made
    | div | mod =>
      simp only [compile, kind] at made
      obtain ⟨left, right, l, r, top, top', compiled, compiled', made⟩ := both _ _ _ made
      exact .division b first second left right l r f (by simp [kind]) top top' compiled compiled' made
    | and | or =>
      simp only [compile, kind] at made
      obtain ⟨left, right, l, r, -, -, compiled, compiled', made⟩ := both _ _ _ made
      exact .connective b first second l r f (by simp [kind]) compiled compiled' made
    | eq | lt | lte | gt | gte =>
      simp only [compile, kind] at made
      obtain ⟨left, right, l, r, -, -, compiled, compiled', made⟩ := both _ _ _ made
      exact .comparison b first second l r f (by simp [kind]) compiled compiled' made
    | not =>
      simp only [compile, kind] at made
      obtain ⟨l, compiled, made⟩ := bind_ok made
      exact .negation b first second l f kind (hyp _ l compiled) made
    | element =>
      simp only [compile, kind] at made
      by_cases missing : first.isMissing = true
      · rw [if_pos missing] at made
        cases made
      · rw [if_neg missing] at made
        split at made
        · next i fixed =>
            obtain ⟨v, compiled, made⟩ := bind_ok made
            exact .fixedElement b first second i v f kind fixed (hyp _ v compiled) made
        · next free =>
            split_ifs at made
            obtain ⟨v, compiled, made⟩ := bind_ok made
            obtain ⟨i, compiled', made⟩ := bind_ok made
            exact .element b first second v i f kind free (hyp _ v compiled) (hyp' _ i compiled') made
    | _ =>
      simp only [compile, kind] at made
      cases made

inductive Tested (s : Setting) : Term → List Check → Prop
  | leaf (b : Block) (first second : Term)
      (kind : b.kind = .literal ∨ b.kind = .varRef ∨ b.kind = .indexRef ∨ b.kind = .deviceRef) :
      Tested s (.node b first second) []
  | single (b : Block) (first second : Term) (checks : List Check)
      (alone : b.kind = .not ∨ b.kind = .element ∧ b.litIndex ≠ none)
      (inner : Tested s first checks) : Tested s (.node b first second) checks
  | plain (b : Block) (first second : Term) (checks checks' : List Check) (kind : b.kind ∉ [.add, .sub, .div, .mod])
      (inner : Tested s first checks) (inner' : Tested s second checks') :
      Tested s (.node b first second) (checks ++ checks')
  | sum (b : Block) (first second : Term) (left right : Block) (l r : Fragment) (kind : b.kind = .add ∨ b.kind = .sub)
      (top : first.block? = some left) (top' : second.block? = some right) (inner : Tested s first l.checks)
      (inner' : Tested s second r.checks) :
      Tested s (.node b first second) (l.checks ++ r.checks ++ (s.overflowCheck? b left right l r).toList)
  | division (b : Block) (first second : Term) (left right : Block) (l r : Fragment)
      (kind : b.kind = .div ∨ b.kind = .mod)
      (top : first.block? = some left) (top' : second.block? = some right) (inner : Tested s first l.checks)
      (inner' : Tested s second r.checks) :
      Tested s (.node b first second) (l.checks ++ r.checks ++ (s.zeroCheck? b left right).toList)

theorem compiles_tested (compiled : s.Compiles t f) : s.Tested t f.checks := by
  induction compiled with
  | literal b first second f kind made => exact leaf_checks s b f (.inl made) ▸ .leaf b first second (.inl kind)
  | reference b first second f kind made => exact leaf_checks s b f (.inr (.inl made)) ▸ .leaf b first second (by tauto)
  | device b first second f kind made => exact leaf_checks s b f (.inr (.inr made)) ▸ .leaf b first second (by tauto)
  | arithmetic b first second left right l r f kind top top' compiled compiled' made hyp hyp' =>
    have checks := arithmetic_checks made
    by_cases product : b.kind = .mult
    · rw [if_pos product, Option.toList_none, append_nil] at checks
      exact checks ▸ .plain b first second _ _ (by simp [product]) hyp hyp'
    · rw [if_neg product] at checks
      exact checks ▸ .sum b first second left right l r (by tauto) top top' hyp hyp'
  | division b first second left right l r f kind top top' compiled compiled' made hyp hyp' =>
    exact division_checks made ▸ .division b first second left right l r kind top top' hyp hyp'
  | connective b first second l r f kind compiled compiled' made hyp hyp' =>
    refine connective_checks made ▸ .plain b first second _ _ ?_ hyp hyp'
    rcases kind with kind | kind <;> simp [kind]
  | comparison b first second l r f kind compiled compiled' made hyp hyp' =>
    refine comparison_checks made ▸ .plain b first second _ _ ?_ hyp hyp'
    rcases kind with kind | kind | kind | kind | kind <;> simp [kind]
  | negation b first second l f kind compiled made hyp =>
    exact negation_checks made ▸ .single b first second _ (.inl kind) hyp
  | fixedElement b first second i v f kind fixed compiled made hyp =>
    rw [element_checks made, append_nil]
    exact .single b first second _ (.inr ⟨kind, by simp [fixed]⟩) hyp
  | element b first second v i f kind free compiled compiled' made hyp hyp' =>
    exact element_checks made ▸ .plain b first second _ _ (by simp [kind]) hyp hyp'

theorem tested_checks {P : Check → Prop} (Q : Block → Prop) (own : ∀ b left right l r c, Q left → Q right →
      s.overflowCheck? b left right l r = some c ∨ s.zeroCheck? b left right = some c → P c)
    (tested : s.Tested t checks) (inside : ∀ b ∈ t.blocks, Q b) : ∀ c ∈ checks, P c := by
  induction tested with
  | leaf => simp
  | single b first second checks alone inner hyp => exact hyp fun b' mem => inside b' (by simp [Term.blocks, mem])
  | plain b first second checks checks' kind inner inner' hyp hyp' =>
    simp only [Term.blocks, forall_mem_append, forall_mem_cons] at inside ⊢
    exact ⟨hyp inside.2.1, hyp' inside.2.2⟩
  | sum b first second left right l r kind top top' inner inner' hyp hyp' =>
    simp only [Term.blocks, forall_mem_append, forall_mem_cons, Option.mem_toList] at inside ⊢
    exact ⟨⟨hyp inside.2.1, hyp' inside.2.2⟩, fun c guard =>
      own b left right l r c (inside.2.1 left (first.block_mem top)) (inside.2.2 right (second.block_mem top'))
        (.inl guard)⟩
  | division b first second left right l r kind top top' inner inner' hyp hyp' =>
    simp only [Term.blocks, forall_mem_append, forall_mem_cons, Option.mem_toList] at inside ⊢
    exact ⟨⟨hyp inside.2.1, hyp' inside.2.2⟩, fun c guard =>
      own b left right l r c (inside.2.1 left (first.block_mem top)) (inside.2.2 right (second.block_mem top'))
        (.inr guard)⟩

theorem compile_proper (inside : ∀ b ∈ t.blocks, ∃ i, s.graph.block? i = some b) (compiled : s.Compiles t f) :
    ∀ c ∈ f.checks, c.Proper s.graph := by
  refine tested_checks _ (fun b left right l r c first second guard => ?_) (compiles_tested compiled) inside
  rcases guard with guard | guard
  · exact overflow_check_proper first second guard
  · exact zero_check_proper guard

end Setting

def Chain.compiled : Chain → List Block
  | .nil => []
  | .cons b body otherwise rest =>
    b :: ((match b.kind with
      | .ifThen | .whileLoop | .forLoop => body.compiled
      | .ifElse => body.compiled ++ otherwise.compiled
      | _ => []) ++ rest.compiled)

namespace Piece

def check? : Piece → Option Check
  | .line _ _ => none
  | .guard _ c => some c

@[simp] theorem check_indented (p : Piece) : p.indented.check? = p.check? := by cases p <;> rfl

end Piece

def checksOf (pieces : List Piece) : List Check := pieces.filterMap Piece.check?

@[simp] theorem checks_append (a b : List Piece) : checksOf (a ++ b) = checksOf a ++ checksOf b :=
  filterMap_append

@[simp] theorem checks_line (depth : Nat) (text : String) (rest : List Piece) :
    checksOf (.line depth text :: rest) = checksOf rest := rfl

@[simp] theorem checks_nil : checksOf [] = [] := rfl

@[simp] theorem checks_indented (pieces : List Piece) : checksOf (pieces.map (·.indented)) = checksOf pieces := by
  rw [checksOf, filterMap_map]
  exact filterMap_congr fun p _ => p.check_indented

@[simp] theorem checks_guards : checksOf (checks.map (.guard 0)) = checks := by
  rw [checksOf, filterMap_map]
  exact filterMap_some

def Kind.isLoop (k : Kind) : Prop := k = .whileLoop ∨ k = .forLoop

def Kind.usesStream (k : Kind) : Prop := k = .print ∨ k = .input

-- The operation belongs to one of the statements; what a loop tests, it tests again.
def GuardSite.Within (bs : List Block) (site : GuardSite) : Prop :=
  ∃ b ∈ bs, site.statement = b.id ∧ (b.kind.isLoop → site.repeated = true)

structure Drafts (g : Graph) (bs : List Block) (before after : List GuardSite) (d : Draft) : Prop where
  sites : ∃ new, after = before ++ new ∧ (∀ site, site ∈ new ↔ ∃ c ∈ checksOf d.pieces, c.site = site) ∧
    ∀ site ∈ new, site.Within bs
  proper : ∀ c ∈ checksOf d.pieces, c.Proper g
  plain : ∀ h ∈ d.headers, ∃ name, h = .system name
  stream : Header.system "iostream" ∈ d.headers ↔ ∃ b ∈ bs, b.kind.usesStream

namespace Drafts

variable {g : Graph} {bs cs : List Block} {before met after : List GuardSite} {d e : Draft}

theorem append (first : Drafts g bs before met d) (second : Drafts g cs met after e) :
    Drafts g (bs ++ cs) before after (d.append e) := by
  obtain ⟨new, rfl, same, within⟩ := first.sites
  obtain ⟨new', rfl, same', within'⟩ := second.sites
  refine ⟨⟨new ++ new', by simp, fun site => ?_, fun site mem => ?_⟩, fun c mem => ?_, fun h mem => ?_, ?_⟩
  · simp only [mem_append, same, same', Draft.append, checks_append, or_and_right, exists_or]
  · rcases mem_append.mp mem with mem | mem
    · obtain ⟨b, inside, rest⟩ := within site mem
      exact ⟨b, mem_append_left cs inside, rest⟩
    · obtain ⟨b, inside, rest⟩ := within' site mem
      exact ⟨b, mem_append_right bs inside, rest⟩
  · rw [Draft.append, checks_append] at mem
    exact (mem_append.mp mem).elim (first.proper c) (second.proper c)
  · exact (mem_append.mp mem).elim (first.plain h) (second.plain h)
  · simp only [Draft.append, mem_append, first.stream, second.stream, or_and_right, exists_or]

theorem reshape (drafts : Drafts g bs before after d) (blocks : ∀ b, b ∈ cs ↔ b ∈ bs)
    (checks : ∀ c, c ∈ checksOf e.pieces ↔ c ∈ checksOf d.pieces) (headers : ∀ h, h ∈ e.headers ↔ h ∈ d.headers) :
    Drafts g cs before after e := by
  obtain ⟨new, grown, same, within⟩ := drafts.sites
  refine ⟨⟨new, grown, by simpa only [checks] using same, fun site mem => ?_⟩, ?_, ?_, ?_⟩
  · obtain ⟨b, inside, rest⟩ := within site mem
    exact ⟨b, (blocks b).mpr inside, rest⟩
  · simpa only [checks] using drafts.proper
  · simpa only [headers] using drafts.plain
  · simpa only [headers, blocks] using drafts.stream

theorem none : Drafts g [] before before {} :=
  ⟨⟨[], by simp, by simp, by simp⟩, by simp, by simp, by simp⟩

theorem unguarded (b : Block) (hs : List Header) (plain : ∀ h ∈ hs, ∃ name, h = .system name)
    (stream : Header.system "iostream" ∈ hs ↔ b.kind.usesStream) (quiet : checksOf d.pieces = [])
    (own : d.headers = hs) :
    Drafts g [b] before before d := by
  subst own
  exact ⟨⟨[], by simp, by simp [quiet], by simp⟩, by simp [quiet], plain, by simp [stream]⟩

end Drafts

def Graph.Compiled (g : Graph) (inHandler : Bool) (b : Block) (slot : Slot) (f : Fragment) : Prop :=
  ∃ scopes scope, Setting.Compiles ⟨g, scopes, scope, inHandler⟩ (g.slotTerm b slot) f

def hoisted (b : Block) (repeated : Bool) (checks : List Check) : List Check :=
  checks.map fun c => { c with site := { c.site with statement := b.id, repeated } }

def guardPieces (b : Block) (repeated : Bool) (checks : List Check) : List Piece :=
  (hoisted b repeated checks).map (.guard 0)

def keptGuards (g : Graph) (policy : GuardPolicy) (b : Block) (repeated : Bool) (checks : List Check) : List Piece :=
  ((hoisted b repeated checks).filter fun c => (policy g c.site).emit).map (.guard 0)

theorem kept_guards_always (g : Graph) (b : Block) (repeated : Bool) (checks : List Check) :
    keptGuards g .always b repeated checks = guardPieces b repeated checks := by
  simp [keptGuards, guardPieces, GuardPolicy.always]

def enclosing (guards : List Piece) (opening : String) (body : List Piece) (closing : String) : List Piece :=
  guards ++ [Piece.line 0 opening] ++ body.map (·.indented) ++ [Piece.line 0 closing]

inductive WrittenSimple (g : Graph) (inHandler : Bool) (b : Block) : Draft → List Check → Prop
  | declaration (type : ValueType) (kind : b.kind = .variableDecl) (typed : b.type = some type) :
      WrittenSimple g inHandler b ⟨[.line 0 (type.code ++ " " ++ b.name ++ ";")], type.headers.map .system⟩ []
  | assignment (value target : Fragment) (kind : b.kind = .assign) (compiled : g.Compiled inHandler b .value value)
      (compiled' : g.Compiled inHandler b .var target) (same : target.type = value.type)
      (place : target.assignable = true) :
      WrittenSimple g inHandler b
        ⟨guardPieces b false (value.checks ++ target.checks) ++
          [Piece.line 0 (target.code ++ " = " ++ value.within .assignment true ++ ";")], []⟩
        (hoisted b false (value.checks ++ target.checks))
  | output (value : Fragment) (kind : b.kind = .print) (compiled : g.Compiled inHandler b .value value) :
      WrittenSimple g inHandler b
        ⟨guardPieces b false value.checks ++
          [Piece.line 0 ("std::cout << " ++ value.within .shift true ++ " << std::endl;")], [.system "iostream"]⟩
        (hoisted b false value.checks)
  | input (target : Fragment) (kind : b.kind = .input) (compiled : g.Compiled inHandler b .var target)
      (place : target.assignable = true) :
      WrittenSimple g inHandler b
        ⟨guardPieces b false target.checks ++ Drafting.inputLines target, [.system "iostream"]⟩
        (hoisted b false target.checks)

-- How statements are written, with their guards in the order in which they are met: those of a condition come after
-- those of the body below it.
inductive Written (g : Graph) (inHandler : Bool) : Chain → Draft → List Check → Prop
  | nil : Written g inHandler .nil {} []
  | simple (b : Block) (body otherwise rest : Chain) (first later : Draft) (checks checks' : List Check)
      (simple : WrittenSimple g inHandler b first checks) (following : Written g inHandler rest later checks') :
      Written g inHandler (.cons b body otherwise rest) (first.append later) (checks ++ checks')
  | ifThen (b : Block) (body otherwise rest : Chain) (cond : Fragment) (affirmed : Draft) (checks : List Check)
      (later : Draft) (checks' : List Check) (kind : b.kind = .ifThen) (compiled : g.Compiled inHandler b .cond cond)
      (inner : Written g inHandler body affirmed checks) (following : Written g inHandler rest later checks') :
      Written g inHandler (.cons b body otherwise rest)
        (Draft.append
          ⟨enclosing (guardPieces b false cond.checks) ("if (" ++ cond.code ++ ") \x7b") affirmed.pieces "\x7d",
          affirmed.headers⟩ later)
        (checks ++ hoisted b false cond.checks ++ checks')
  | ifElse (b : Block) (body otherwise rest : Chain) (cond : Fragment) (affirmed denied : Draft)
      (checks checks' : List Check)
      (later : Draft) (checks'' : List Check) (kind : b.kind = .ifElse) (compiled : g.Compiled inHandler b .cond cond)
      (inner : Written g inHandler body affirmed checks) (other : Written g inHandler otherwise denied checks')
      (following : Written g inHandler rest later checks'') :
      Written g inHandler (.cons b body otherwise rest)
        (Draft.append
          ⟨enclosing (guardPieces b false cond.checks) ("if (" ++ cond.code ++ ") \x7b") affirmed.pieces
            "\x7d else \x7b" ++
            denied.pieces.map (·.indented) ++ [Piece.line 0 "\x7d"], affirmed.headers ++ denied.headers⟩ later)
        (checks ++ hoisted b false cond.checks ++ checks' ++ checks'')
  | whileLoop (b : Block) (body otherwise rest : Chain) (cond : Fragment) (repeated : Draft) (checks : List Check)
      (later : Draft) (checks' : List Check) (kind : b.kind = .whileLoop) (compiled : g.Compiled inHandler b .cond cond)
      (inner : Written g inHandler body repeated checks) (following : Written g inHandler rest later checks') :
      Written g inHandler (.cons b body otherwise rest)
        (Draft.append ⟨enclosing (guardPieces b true cond.checks) ("while (" ++ cond.code ++ ") \x7b")
          (repeated.pieces ++ guardPieces b true cond.checks) "\x7d", repeated.headers⟩ later)
        (checks ++ hoisted b true cond.checks ++ checks')
  | forLoop (b : Block) (body otherwise rest : Chain) (repeated : Draft) (checks : List Check) (later : Draft)
      (checks' : List Check) (kind : b.kind = .forLoop) (inner : Written g inHandler body repeated checks)
      (following : Written g inHandler rest later checks') :
      Written g inHandler (.cons b body otherwise rest)
        (Draft.append ⟨enclosing [] "for (;true;) \x7b" repeated.pieces "\x7d", repeated.headers⟩ later)
        (checks ++ checks')

inductive WrittenHandler (g : Graph) (b : Block) : HandlerDraft → List Check → Prop
  | attached (trigger : Block) (body : Draft) (checks : List Check) (kind : b.kind = .when)
      (waits : g.slotBlock? b .cond = some trigger) (interrupt : trigger.kind = .interrupt)
      (inner : Written g true (g.chainTree b.body) body checks) :
      WrittenHandler g b ⟨trigger.name, ⟨counterLines b.times ++ body.pieces, body.headers⟩⟩ checks
  | polled (trigger : Block) (cond : Fragment) (body : Draft) (checks : List Check) (kind : b.kind = .when)
      (waits : g.slotBlock? b .cond = some trigger) (other : trigger.kind ≠ .interrupt)
      (compiled : g.Compiled true b .cond cond) (inner : Written g true (g.chainTree b.body) body checks) :
      WrittenHandler g b
        ⟨tickName, ⟨enclosing (guardPieces b true cond.checks) ("if (" ++ cond.code ++ ") \x7b")
          (counterLines b.times ++ body.pieces) "\x7d", body.headers⟩⟩
        (checks ++ hoisted b true cond.checks)

inductive WrittenHandlers (g : Graph) : List BlockId → List HandlerDraft → List Check → Prop
  | nil : WrittenHandlers g [] [] []
  | cons (id : BlockId) (rest : List BlockId) (b : Block) (h : HandlerDraft) (hs : List HandlerDraft)
      (checks checks' : List Check)
      (found : g.block? id = some b) (first : WrittenHandler g b h checks) (later : WrittenHandlers g rest hs checks') :
      WrittenHandlers g (id :: rest) (h :: hs) (checks ++ checks')

namespace Drafting

variable {α β : Type} {g : Graph} {inHandler : Bool} {scope : Nat} {b : Block} {s s' : DraftState} {a : α} {d : Draft}

def Done (x : Drafting α) (s : DraftState) (a : α) (s' : DraftState) : Prop := x.run.run s = (.ok a, s')

theorem done_bind {x : Drafting β} {f : β → Drafting α} (done : Done (x >>= f) s a s') :
    ∃ c met, Done x s c met ∧ Done (f c) met a s' := by
  unfold Done at done ⊢
  rw [ExceptT.run_bind, StateT.run_bind] at done
  rcases first : x.run.run s with ⟨fault | c, met⟩
  · rw [first] at done
    cases done
  · rw [first] at done
    exact ⟨c, met, rfl, done⟩

theorem Done.bind {x : Drafting β} {f : β → Drafting α} {c : β} {met : DraftState} (first : Done x s c met)
    (later : Done (f c) met a s') : Done (x >>= f) s a s' := by
  unfold Done at first
  rw [Done, ExceptT.run_bind, StateT.run_bind, first]
  exact later

variable {fault : ProgramFault} {parent : Option Nat} {root : Nat} {policy : GuardPolicy}

theorem not_done_fail : ¬ Done (fail fault) s a s' := by
  intro done
  cases done

theorem done_compile {slot : Slot} {absent : BlockFault} {rest : Fragment → Drafting α}
    (done : Done (compile g inHandler scope b slot absent >>= rest) s a s') :
    ∃ f, Setting.Compiles ⟨g, s.scopes, scope, inHandler⟩ (g.slotTerm b slot) f ∧ Done (rest f) s a s' := by
  obtain ⟨f, _, compiled, done⟩ := done_bind done
  obtain ⟨_, _, got, compiled⟩ := done_bind compiled
  cases got
  obtain ⟨made, left⟩ := Prod.mk.inj compiled
  cases left
  exact ⟨f, Setting.compile_compiles _ _ f made, done⟩

-- The policy is asked about the guards in order, and those are written that it keeps.
theorem hoist_done (policy : GuardPolicy) (repeated : Bool) (checks : List Check) (s : DraftState) :
    Done (hoist g policy b.id repeated checks) s (keptGuards g policy b repeated checks)
      { s with sites := s.sites ++ (hoisted b repeated checks).map (·.site),
               guards := s.guards ++ (hoisted b repeated checks).map fun c => policy g c.site } := by
  induction checks generalizing s with
  | nil =>
    simp only [hoisted, map_nil, append_nil]
    rfl
  | cons check rest hyp =>
    have later := hyp { s with
      sites := s.sites ++ [{ check.site with statement := b.id, repeated }],
      guards := s.guards ++ [policy g { check.site with statement := b.id, repeated }] }
    simp only [append_assoc, singleton_append] at later
    refine Done.bind rfl (later.bind ?_)
    by_cases emit : (policy g { check.site with statement := b.id, repeated }).emit = true
    · simp only [keptGuards, hoisted, map_cons, filter_cons, emit, if_true]
      rfl
    · simp only [keptGuards, hoisted, map_cons, filter_cons, emit]
      rfl

theorem done_hoist {repeated : Bool} {rest : List Piece → Drafting α}
    (done : Done (hoist g policy b.id repeated checks >>= rest) s a s') :
    ∃ met, met.sites = s.sites ++ (hoisted b repeated checks).map (·.site) ∧
      Done (rest (keptGuards g policy b repeated checks)) met a s' := by
  obtain ⟨pieces, met, hung, done⟩ := done_bind done
  cases (hoist_done policy repeated checks s).symm.trans hung
  exact ⟨_, rfl, done⟩

theorem done_open_scope {rest : Nat → Drafting α} (done : Done (openScope parent >>= rest) s a s') :
    ∃ scope met, met.sites = s.sites ∧ Done (rest scope) met a s' := by
  obtain ⟨scope, met, opened, done⟩ := done_bind done
  refine ⟨scope, met, ?_, done⟩
  obtain ⟨_, _, got, opened⟩ := done_bind opened
  cases got
  obtain ⟨⟨⟩, _, got, opened⟩ := done_bind opened
  cases got
  cases opened
  rfl

theorem done_unless {c : Prop} [Decidable c] {rest : PUnit → Drafting α}
    (done : Done (if c then fail fault >>= rest else rest ()) s a s') : ¬ c ∧ Done (rest ()) s a s' := by
  split_ifs at done with holds
  · obtain ⟨_, _, failed, -⟩ := done_bind done
    exact absurd failed not_done_fail
  · exact ⟨holds, done⟩

theorem done_condition {rest : Fragment → Drafting α} (done : Done (condition g inHandler scope b >>= rest) s a s') :
    ∃ f, Setting.Compiles ⟨g, s.scopes, scope, inHandler⟩ (g.slotTerm b .cond) f ∧ Done (rest f) s a s' := by
  obtain ⟨f, _, found, done⟩ := done_bind done
  obtain ⟨f', compiled, tested⟩ := done_compile found
  cases (done_unless tested).2
  exact ⟨f, compiled, done⟩

theorem done_declaration (kind : b.kind = .variableDecl) (done : Done (declaration scope b) s d s') :
    WrittenSimple g inHandler b d [] ∧ s'.sites = s.sites := by
  unfold declaration at done
  split at done
  · exact absurd done not_done_fail
  · next type typed =>
      obtain ⟨⟨⟩, _, declared, done⟩ := done_bind done
      cases declared
      cases done
      exact ⟨.declaration type kind typed, rfl⟩

theorem done_assignment (done : Done (assignment g policy inHandler scope b) s d s') :
    ∃ value target, Setting.Compiles ⟨g, s.scopes, scope, inHandler⟩ (g.slotTerm b .value) value ∧
      Setting.Compiles ⟨g, s.scopes, scope, inHandler⟩ (g.slotTerm b .var) target ∧ target.type = value.type ∧
      target.assignable = true ∧ d = ⟨keptGuards g policy b false (value.checks ++ target.checks) ++
        [Piece.line 0 (target.code ++ " = " ++ value.within .assignment true ++ ";")], []⟩ ∧
      s'.sites = s.sites ++ (hoisted b false (value.checks ++ target.checks)).map (·.site) := by
  unfold assignment at done
  obtain ⟨-, done⟩ := done_unless done
  obtain ⟨value, compiled, done⟩ := done_compile done
  obtain ⟨target, compiled', done⟩ := done_compile done
  obtain ⟨place, done⟩ := done_unless done
  obtain ⟨same, done⟩ := done_unless done
  obtain ⟨met, sites, done⟩ := done_hoist done
  cases done
  exact ⟨value, target, compiled, compiled', not_not.mp same, by simpa using place, rfl, sites⟩

theorem done_output (done : Done (output g policy inHandler scope b) s d s') :
    ∃ value, Setting.Compiles ⟨g, s.scopes, scope, inHandler⟩ (g.slotTerm b .value) value ∧
      d = ⟨keptGuards g policy b false value.checks ++
        [Piece.line 0 ("std::cout << " ++ value.within .shift true ++ " << std::endl;")], [.system "iostream"]⟩ ∧
      s'.sites = s.sites ++ (hoisted b false value.checks).map (·.site) := by
  obtain ⟨value, compiled, done⟩ := done_compile done
  obtain ⟨met, same, done⟩ := done_hoist done
  cases done
  exact ⟨value, compiled, rfl, same⟩

def Writes (g : Graph) (inHandler : Bool) (c : Chain) : Prop :=
  ∀ {scope s s' d}, Done (chain g .always inHandler scope c) s d s' →
    ∃ checks, Written g inHandler c d checks ∧ s'.sites = s.sites ++ checks.map (·.site)

theorem done_body (writes : Writes g inHandler c) {rest : Draft → Drafting α}
    (done : Done (openScope parent >>= fun within => chain g .always inHandler within c >>= rest) s a s') :
    ∃ d checks met, Written g inHandler c d checks ∧ met.sites = s.sites ++ checks.map (·.site) ∧
      Done (rest d) met a s' := by
  obtain ⟨within, opened, same, done⟩ := done_open_scope done
  obtain ⟨d, met, made, done⟩ := done_bind done
  obtain ⟨checks, written, sites⟩ := writes made
  exact ⟨d, checks, met, written, same ▸ sites, done⟩

theorem done_chain : Writes g inHandler c := by
  intro scope s s' d done
  induction c generalizing scope s s' d with
  | nil =>
    cases done
    exact ⟨[], .nil, by simp⟩
  | cons b body otherwise rest inner other later =>
    -- what is written for the first statement, and how the chain is written if the rest is
    have followed : ∀ (first : Draft) (checks : List Check) (met : DraftState),
        (∀ following checks', Written g inHandler rest following checks' →
          Written g inHandler (.cons b body otherwise rest) (first.append following) (checks ++ checks')) →
        met.sites = s.sites ++ checks.map (·.site) →
        Done (chain g .always inHandler scope rest >>= fun later => pure (first.append later)) met d s' →
        ∃ checks, Written g inHandler (.cons b body otherwise rest) d checks ∧
          s'.sites = s.sites ++ checks.map (·.site) := by
      intro first checks met written sites done
      obtain ⟨following, _, ended, done⟩ := done_bind done
      cases done
      obtain ⟨checks', written', sites'⟩ := later ended
      exact ⟨_, written following checks' written', by rw [sites', sites]; simp⟩
    rw [chain] at done
    dsimp only at done
    cases kind : b.kind <;> simp only [kind] at done
    case variableDecl =>
        obtain ⟨first, met, made, done⟩ := done_bind done
        obtain ⟨simple, sites⟩ := done_declaration kind made
        exact followed first [] met (fun _ _ => .simple b body otherwise rest first _ _ _ simple) (by simp [sites]) done
    case assign =>
        obtain ⟨first, met, made, done⟩ := done_bind done
        obtain ⟨value, target, compiled, compiled', same, place, rfl, sites⟩ := done_assignment made
        rw [kept_guards_always] at done
        have simple := WrittenSimple.assignment value target kind ⟨_, _, compiled⟩ ⟨_, _, compiled'⟩ same place
        exact followed _ _ met (fun _ _ => .simple b body otherwise rest _ _ _ _ simple) sites done
    case print =>
        obtain ⟨first, met, made, done⟩ := done_bind done
        obtain ⟨value, compiled, rfl, sites⟩ := done_output made
        rw [kept_guards_always] at done
        have simple := WrittenSimple.output value kind ⟨_, _, compiled⟩
        exact followed _ _ met (fun _ _ => .simple b body otherwise rest _ _ _ _ simple) sites done
    case input =>
        obtain ⟨first, met, made, done⟩ := done_bind done
        obtain ⟨target, compiled, made⟩ := done_compile made
        obtain ⟨place, made⟩ := done_unless made
        obtain ⟨met, sites, made⟩ := done_hoist made
        cases made
        rw [kept_guards_always] at done
        have simple := WrittenSimple.input target kind ⟨_, _, compiled⟩ (by simpa using place)
        exact followed _ _ met (fun _ _ => .simple b body otherwise rest _ _ _ _ simple) sites done
    case ifThen =>
        obtain ⟨cond, compiled, done⟩ := done_condition done
        obtain ⟨affirmed, checks, reached, written, sites, done⟩ := done_body inner done
        obtain ⟨met, sites', done⟩ := done_hoist done
        rw [kept_guards_always] at done
        refine followed _ (checks ++ hoisted b false cond.checks) met (fun following checks' written' => ?_) ?_ done
        · exact .ifThen b body otherwise rest cond affirmed checks following checks' kind
            ⟨_, _, compiled⟩ written written'
        · rw [sites', sites]
          simp
    case ifElse =>
        obtain ⟨cond, compiled, done⟩ := done_condition done
        obtain ⟨affirmed, checks, reached, written, sites, done⟩ := done_body inner done
        obtain ⟨met, sites', done⟩ := done_hoist done
        rw [kept_guards_always] at done
        obtain ⟨denied, checks', reached', written', sites'', done⟩ := done_body other done
        refine followed _ (checks ++ hoisted b false cond.checks ++ checks') reached'
          (fun following later written'' => ?_) ?_ done
        · exact .ifElse b body otherwise rest cond affirmed denied checks checks' following later kind
            ⟨_, _, compiled⟩ written
            written' written''
        · rw [sites'', sites', sites]
          simp
    case whileLoop =>
        obtain ⟨cond, compiled, done⟩ := done_condition done
        obtain ⟨repeated, checks, reached, written, sites, done⟩ := done_body inner done
        obtain ⟨met, sites', done⟩ := done_hoist done
        rw [kept_guards_always] at done
        refine followed _ (checks ++ hoisted b true cond.checks) met (fun following checks' written' => ?_) ?_ done
        · exact .whileLoop b body otherwise rest cond repeated checks following checks' kind
            ⟨_, _, compiled⟩ written written'
        · rw [sites', sites]
          simp
    case forLoop =>
        obtain ⟨within, opened, same, done⟩ := done_open_scope done
        obtain ⟨⟨⟩, declared, got, done⟩ := done_bind done
        cases got
        obtain ⟨repeated, reached, made, done⟩ := done_bind done
        obtain ⟨⟨⟩, warned, got, done⟩ := done_bind done
        cases got
        obtain ⟨checks, written, sites⟩ := inner made
        refine followed _ checks _ (fun following checks' written' => ?_) ?_ done
        · exact .forLoop b body otherwise rest repeated checks following checks' kind written written'
        · exact sites.trans (by rw [same])
    all_goals
      obtain ⟨_, _, failed, -⟩ := done_bind done
      exact absurd failed not_done_fail

theorem done_handler {id : BlockId} {h : HandlerDraft} (done : Done (handler g .always root id) s h s') :
    ∃ b checks, g.block? id = some b ∧ WrittenHandler g b h checks ∧ s'.sites = s.sites ++ checks.map (·.site) := by
  unfold handler at done
  split at done
  · exact absurd done not_done_fail
  · next b found =>
      split_ifs at done with kind
      · exact absurd done not_done_fail
      · rw [not_not] at kind
        split at done
        · exact absurd done not_done_fail
        · next trigger waits =>
            obtain ⟨within, opened, same, done⟩ := done_open_scope done
            split_ifs at done with interrupt
            · obtain ⟨body, reached, made, done⟩ := done_bind done
              cases done
              obtain ⟨checks, written, sites⟩ := done_chain made
              exact ⟨b, checks, found, .attached trigger body checks kind waits interrupt written, by rw [sites, same]⟩
            · obtain ⟨cond, compiled, done⟩ := done_condition done
              obtain ⟨body, reached, made, done⟩ := done_bind done
              obtain ⟨checks, written, sites⟩ := done_chain made
              obtain ⟨met, sites', done⟩ := done_hoist done
              rw [kept_guards_always] at done
              cases done
              refine ⟨b, checks ++ hoisted b true cond.checks, found, ?_, by rw [sites', sites, same]; simp⟩
              exact .polled trigger cond body checks kind waits interrupt ⟨_, _, compiled⟩ written

theorem done_handlers {ids : List BlockId} {hs : List HandlerDraft}
    (done : Done (handlers g .always root ids) s hs s') :
    ∃ checks, WrittenHandlers g ids hs checks ∧ s'.sites = s.sites ++ checks.map (·.site) := by
  induction ids generalizing s hs with
  | nil =>
    cases done
    exact ⟨[], .nil, by simp⟩
  | cons id rest hyp =>
    obtain ⟨h, met, made, done⟩ := done_bind done
    obtain ⟨later, _, ended, done⟩ := done_bind done
    cases done
    obtain ⟨b, checks, found, written, sites⟩ := done_handler made
    obtain ⟨checks', written', sites'⟩ := hyp ended
    exact ⟨checks ++ checks',
      .cons id rest b h later checks checks' found written written', by rw [sites', sites]; simp⟩

theorem done_program {g : Graph} {s s' : DraftState} {d : ProgramDraft} (done : Done (program g .always) s d s') :
    ∃ start checks checks', g.block? g.main = some start ∧ Written g false (g.chainTree start.next) d.main checks ∧
      WrittenHandlers g g.handlers d.handlers checks' ∧ s'.sites = s.sites ++ (checks ++ checks').map (·.site) := by
  unfold program at done
  split at done
  · exact absurd done not_done_fail
  · next start found =>
      split_ifs at done
      · exact absurd done not_done_fail
      · obtain ⟨root, opened, same, done⟩ := done_open_scope done
        obtain ⟨main, checks, met, written, sites, done⟩ := done_body (done_chain) done
        obtain ⟨hs, _, made', done⟩ := done_bind done
        cases done
        obtain ⟨checks', written', sites'⟩ := done_handlers made'
        exact ⟨start, checks, checks', found, written, written', by rw [sites', sites, same]; simp⟩

end Drafting

theorem Graph.chain_blocks (g : Graph) (id : BlockId) (mem : b ∈ (g.chainTreeFrom fuel id).compiled) :
    ∃ id, g.block? id = some b := by
  induction fuel generalizing id with
  | zero => cases mem
  | succ fuel hyp =>
    rw [chainTreeFrom] at mem
    cases found : g.block? id with
    | none =>
      rw [found] at mem
      cases mem
    | some first =>
      rw [found] at mem
      rcases mem_cons.mp mem with rfl | mem
      · exact ⟨id, found⟩
      · rcases mem_append.mp mem with inner | later
        · split at inner
          · exact hyp _ inner
          · exact hyp _ inner
          · exact hyp _ inner
          · exact (mem_append.mp inner).elim (hyp _) (hyp _)
          · cases inner
        · exact hyp _ later

def Graph.handled (g : Graph) (ids : List BlockId) : List Block :=
  ids.flatMap fun id => (g.block? id).elim [] fun b => b :: (g.chainTree b.body).compiled

def Graph.statements (g : Graph) : List Block :=
  ((g.block? g.main).elim [] fun start => (g.chainTree start.next).compiled) ++ g.handled g.handlers

theorem Graph.statement_block (g : Graph) (mem : b ∈ g.statements) : ∃ id, g.block? id = some b := by
  rcases mem_append.mp mem with main | handled
  · cases found : g.block? g.main with
    | none =>
      rw [found] at main
      cases main
    | some start =>
      rw [found] at main
      exact g.chain_blocks _ main
  · obtain ⟨id, -, inside⟩ := mem_flatMap.mp handled
    cases found : g.block? id with
    | none =>
      rw [found] at inside
      cases inside
    | some handler =>
      rw [found] at inside
      rcases mem_cons.mp inside with rfl | inside
      · exact ⟨id, found⟩
      · exact g.chain_blocks _ inside

def gathered (hs : List HandlerDraft) : Draft := ⟨hs.flatMap (·.draft.pieces), hs.flatMap (·.draft.headers)⟩

def ProgramDraft.whole (d : ProgramDraft) : Draft := d.main.append (gathered d.handlers)

theorem slot_proper {slot : Slot} (compiled : g.Compiled inHandler b slot f) : ∀ c ∈ f.checks, c.Proper g := by
  obtain ⟨scopes, scope, compiled⟩ := compiled
  exact Setting.compile_proper (fun b mem => g.term_blocks _ mem) compiled

theorem type_headers (type : ValueType) : "iostream" ∉ type.headers := by
  induction type with
  | primitive p => cases p <;> decide
  | array element size hyp => simp [ValueType.headers, hyp]

@[simp] theorem checks_guard_pieces (b : Block) (repeated : Bool) (checks : List Check) :
    checksOf (guardPieces b repeated checks) = hoisted b repeated checks :=
  checks_guards

@[simp] theorem checks_enclosing (guards body : List Piece) (opening closing : String) :
    checksOf (enclosing guards opening body closing) = checksOf guards ++ checksOf body := by
  simp [enclosing]

theorem Drafts.hoisted (g : Graph) (b : Block) (repeated : Bool) (before : List GuardSite) (d : Draft)
    (proper : ∀ c ∈ checks, c.Proper g) (again : b.kind.isLoop → repeated = true)
    (written : checksOf d.pieces = Blockwork.hoisted b repeated checks)
    (plain : ∀ h ∈ d.headers, ∃ name, h = .system name)
    (stream : Header.system "iostream" ∈ d.headers ↔ b.kind.usesStream) :
    Drafts g [b] before (before ++ (Blockwork.hoisted b repeated checks).map (·.site)) d := by
  refine ⟨⟨_, rfl, by simp [written], ?_⟩, ?_, plain, by simp [stream]⟩
  · simp only [Blockwork.hoisted, mem_map, forall_exists_index, and_imp]
    rintro site _ c mem rfl rfl
    exact ⟨b, mem_singleton.mpr rfl, rfl, again⟩
  · rw [written]
    intro c mem
    obtain ⟨c, inside, rfl⟩ := mem_map.mp mem
    exact ⟨(proper c inside).headers, (proper c inside).operands⟩

theorem WrittenSimple.drafts (written : WrittenSimple g inHandler b d checks) (before : List GuardSite) :
    Drafts g [b] before (before ++ checks.map (·.site)) d := by
  cases written with
  | declaration type kind typed =>
    rw [map_nil, append_nil]
    refine Drafts.unguarded b _ ?_ ?_ rfl rfl
    · simp
    · simpa [kind, Kind.usesStream] using type_headers type
  | assignment value target kind compiled compiled' =>
    refine Drafts.hoisted g b false before _ (fun c mem => ?_) (by simp [kind, Kind.isLoop]) (by simp) (by simp)
      (by simp [kind, Kind.usesStream])
    exact (mem_append.mp mem).elim (slot_proper compiled c) (slot_proper compiled' c)
  | output value kind compiled =>
    exact Drafts.hoisted g b false before _ (slot_proper compiled) (by simp [kind, Kind.isLoop]) (by simp)
      (by simp) (by simp [kind, Kind.usesStream])
  | input target kind compiled =>
    have lines : checksOf (Drafting.inputLines target) = [] := by
      unfold Drafting.inputLines
      split_ifs <;> rfl
    exact Drafts.hoisted g b false before _ (slot_proper compiled) (by simp [kind, Kind.isLoop]) (by simp [lines])
      (by simp) (by simp [kind, Kind.usesStream])

theorem Drafts.under (repeated : Bool) {cond : Fragment} (compiled : g.Compiled inHandler b .cond cond)
    (again : b.kind.isLoop → repeated = true) (silent : ¬ b.kind.usesStream) {bs : List Block}
    {before met : List GuardSite} (drafts : Drafts g bs before met d) :
    Drafts g (bs ++ [b]) before (met ++ (Blockwork.hoisted b repeated cond.checks).map (·.site))
      (d.append ⟨guardPieces b repeated cond.checks, []⟩) := by
  have guarded := Drafts.hoisted g b repeated met ⟨guardPieces b repeated cond.checks, []⟩
    (slot_proper compiled) again (by simp) (by simp) (by simpa using silent)
  exact drafts.append guarded

-- Drafting a chain meets the guards that are in its draft.
theorem Written.drafts (written : Written g inHandler c d checks) (before : List GuardSite) :
    Drafts g c.compiled before (before ++ checks.map (·.site)) d := by
  induction written generalizing before with
  | nil =>
    rw [map_nil, append_nil]
    exact Drafts.none
  | simple b body otherwise rest first later checks checks' simple written hyp =>
    have both := (simple.drafts before).append (hyp _)
    rw [append_assoc, ← map_append] at both
    cases simple <;> simpa [Chain.compiled, *] using both
  | ifThen b body otherwise rest cond affirmed checks later checks' kind compiled written written' hyp hyp' =>
    have own := Drafts.under false compiled (by simp [kind, Kind.isLoop]) (by simp [kind, Kind.usesStream]) (hyp before)
    have both := own.append (hyp' _)
    simp only [append_assoc, ← map_append] at both
    simp only [append_assoc]
    refine both.reshape ?_ ?_ ?_
    all_goals simp [Chain.compiled, kind, Draft.append]
    all_goals tauto
  | ifElse b body otherwise rest cond affirmed denied checks checks' later checks'' kind compiled written written'
    written'' hyp hyp' hyp'' =>
      have own := Drafts.under false compiled (by simp [kind, Kind.isLoop]) (by simp [kind, Kind.usesStream])
        (hyp before)
      have both := (own.append (hyp' _)).append (hyp'' _)
      simp only [append_assoc, ← map_append] at both
      simp only [append_assoc]
      refine both.reshape ?_ ?_ ?_
      all_goals simp [Chain.compiled, kind, Draft.append]
      all_goals tauto
  | whileLoop b body otherwise rest cond repeated checks later checks' kind compiled written written' hyp hyp' =>
    have own := Drafts.under true compiled (fun _ => rfl) (by simp [kind, Kind.usesStream]) (hyp before)
    have both := own.append (hyp' _)
    simp only [append_assoc, ← map_append] at both
    simp only [append_assoc]
    refine both.reshape ?_ ?_ ?_
    -- the guards of a condition that is tested again are written twice
    all_goals simp [Chain.compiled, kind, Draft.append, -map_append, -map_map]
    all_goals tauto
  | forLoop b body otherwise rest repeated checks later checks' kind written written' hyp hyp' =>
    have counted : Drafts g [b] before before ⟨[], []⟩ :=
      .unguarded b [] (by simp) (by simp [kind, Kind.usesStream]) rfl rfl
    have both := (counted.append (hyp before)).append (hyp' _)
    simp only [append_assoc, ← map_append] at both
    refine both.reshape ?_ ?_ ?_
    all_goals simp [Chain.compiled, kind, Draft.append]

theorem WrittenHandler.drafts {h : HandlerDraft} (written : WrittenHandler g b h checks) (before : List GuardSite) :
    Drafts g (b :: (g.chainTree b.body).compiled) before (before ++ checks.map (·.site)) h.draft := by
  have counted : checksOf (counterLines b.times) = [] := by
    unfold counterLines
    split_ifs <;> rfl
  cases written with
  | attached trigger body checks kind waits interrupt written =>
    have triggered : Drafts g [b] before before ⟨[], []⟩ :=
      .unguarded b [] (by simp) (by simp [kind, Kind.usesStream]) rfl rfl
    have both := triggered.append (written.drafts before)
    refine both.reshape ?_ ?_ ?_
    all_goals simp [Draft.append, counted]
  | polled trigger cond body checks kind waits other compiled written =>
    have own := Drafts.under true compiled (fun _ => rfl) (by simp [kind, Kind.usesStream])
      (written.drafts before)
    simp only [append_assoc, ← map_append] at own
    refine own.reshape ?_ ?_ ?_
    all_goals simp [Draft.append, counted]
    all_goals tauto

theorem WrittenHandlers.drafts {ids : List BlockId} {hs : List HandlerDraft} (written : WrittenHandlers g ids hs checks)
    (before : List GuardSite) : Drafts g (g.handled ids) before (before ++ checks.map (·.site)) (gathered hs) := by
  induction written generalizing before with
  | nil =>
    rw [map_nil, append_nil]
    exact Drafts.none
  | cons id rest b h hs checks checks' found first later hyp =>
    have both := (first.drafts before).append (hyp _)
    rw [append_assoc, ← map_append] at both
    simpa [Graph.handled, found, gathered, Draft.append] using both

def Graph.draft (g : Graph) : Except ProgramFault ProgramDraft × DraftState := g.draftUnder .always

theorem Graph.draft_drafts (g : Graph) {d : ProgramDraft} {state : DraftState} (drafted : g.draft = (.ok d, state)) :
    Drafts g g.statements [] state.sites d.whole := by
  obtain ⟨start, checks, checks', found, main, handlers, sites⟩ := Drafting.done_program drafted
  have both := (main.drafts []).append (handlers.drafts _)
  rw [append_assoc, ← map_append, ← sites] at both
  simpa [Graph.statements, found, ProgramDraft.whole] using both

end Blockwork
