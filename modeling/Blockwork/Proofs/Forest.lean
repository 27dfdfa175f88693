import Blockwork.Proofs.ReadTrees

set_option autoImplicit false

namespace Blockwork

open Block List Plan

variable {b : Block} {k parent : Nat} {kind : Kind} {operands : List (Slot × Term)} {g : Graph}

def Block.targets (b : Block) : List Nat := b.slots.map Prod.snd ++ [b.next, b.body, b.otherwise].filter (· ≠ 0)

def Kind.declarer? : Kind → Option Kind
  | .varRef => some .variableDecl
  | .indexRef => some .forLoop
  | _ => none

inductive Graph.Anchored (g : Graph) : Nat → Prop
  | top (id : Nat) (b : Block) (root : id ∈ g.roots) (found : g.block? id = some b)
      (kind : b.kind = .start ∨ b.kind = .when) :
      Anchored g id
  | under (id : Nat) (b : Block) (found : g.block? id = some b) (above : Anchored g b.parent) : Anchored g id

structure Graph.WellFormed (g : Graph) : Prop where
  numbered : g.blocks.toList.map Block.id = List.range' 1 g.size
  linked : ∀ n ∈ g.blocks.toList, ∀ x, n.exit x ≠ 0 → ∃ m, g.block? (n.exit x) = some m ∧ m.parent = n.id
  -- each number is once a root or the target of a slot or link
  targeted : (g.blocks.toList.flatMap Block.targets ++ g.roots).Perm (List.range' 1 g.size)
  slots : ∀ n ∈ g.blocks.toList, (n.slots.map Prod.fst).Nodup ∧
    ∀ p ∈ n.slots, ∃ c m, n.kind.accepts? p.1 = some c ∧ g.block? p.2 = some m ∧ m.kind.category = c
  declared : ∀ r ∈ g.blocks.toList, ∀ kind, r.kind.declarer? = some kind →
    ∃ d, g.decl? r = some d ∧ d.kind = kind ∧ d.name = r.name
  anchored : ∀ b ∈ g.blocks.toList, b.kind.category = .statement → g.Anchored b.id
  walked : (g.roots.flatMap g.walk).Perm g.blocks.toList

namespace Term

def top (t : Term) : List Nat := t.block?.toList.map Block.id

variable (t : Term)

theorem in_slot_top (slot : Slot) : (t.inSlot slot).map Prod.snd = t.top := by
  cases t <;> rfl

variable {names : Names}

theorem reads_targets (k : Nat) (reads : t.Reads names k) :
    (t.blocks.flatMap Block.targets ++ t.top).Perm (t.blocks.map Block.id) := by
  induction t generalizing k with
  | missing => exact .refl _
  | node b first second hyp hyp' =>
    obtain ⟨placed, -, reads, reads'⟩ := reads
    have own : b.targets = first.top ++ second.top := by
      simp [Block.targets, placed.slots, placed.next, placed.body, placed.otherwise, in_slot_top]
    have left := (hyp _ reads).count_eq
    have right := (hyp' _ reads').count_eq
    rw [perm_iff_count]
    intro id
    specialize left id
    specialize right id
    simp only [blocks, flatMap_cons, flatMap_append, map_cons, map_append, count_append,
      count_cons, own] at left right ⊢
    simp only [top, block?, Option.toList_some, map_cons, map_nil, count_cons, count_nil] at left right ⊢
    omega

theorem reads_node (k : Nat) (reads : t.Reads names k) (mem : b ∈ t.blocks) :
    ∃ first second k', (node b first second).Reads names k' ∧ (node b first second).blocks ⊆ t.blocks := by
  induction t generalizing k with
  | missing => cases mem
  | node b' first second hyp hyp' =>
    rcases mem_cons.mp mem with rfl | below
    · exact ⟨first, second, k, reads, List.Subset.refl _⟩
    · rcases mem_append.mp below with below | below
      · obtain ⟨first', second', k', read, inside⟩ := hyp _ reads.2.2.1 below
        exact ⟨first', second', k', read, fun x inner => by simp [blocks, inside inner]⟩
      · obtain ⟨first', second', k', read, inside⟩ := hyp' _ reads.2.2.2 below
        exact ⟨first', second', k', read, fun x inner => by simp [blocks, inside inner]⟩

theorem expression_values {content : Content} {first second : Term} (saying : Expression names content first second) :
    content.kind.category ≠ .statement := by
  cases saying with
  | reference e => dsimp only; split_ifs <;> decide
  | operation kind c first second slots => cases kind <;> first | decide | cases slots
  | _ => simp [Kind.category]

theorem reads_values (reads : t.Reads names k) :
    ∀ b ∈ t.blocks, b.kind.category ≠ .statement ∧ ∀ x, b.exit x = 0 := by
  intro b mem
  obtain ⟨first, second, _, ⟨placed, saying, -⟩, -⟩ := t.reads_node k reads mem
  refine ⟨expression_values saying, fun exit => ?_⟩
  cases exit
  · exact placed.next
  · exact placed.body
  · exact placed.otherwise

end Term

def Block.Fitted (bs : List Block) (n : Block) : Prop :=
  (n.slots.map Prod.fst).Nodup ∧ ∀ p ∈ n.slots, ∃ c, n.kind.accepts? p.1 = some c ∧ ∃ m ∈ bs, m.id = p.2 ∧
    m.kind.category = c

namespace Term

theorem fits_block (bs : List Block) (t : Term) {slot : Slot} {c : Category} (fits : t.Fits c)
    (inside : t.blocks ⊆ bs) :
    ∀ p ∈ t.inSlot slot, p.1 = slot ∧ ∃ m ∈ bs, m.id = p.2 ∧ m.kind.category = c := by
  intro p mem
  cases t with
  | missing => cases mem
  | node b first second =>
    rw [mem_singleton.mp mem]
    exact ⟨rfl, b, inside mem_cons_self, rfl, fits b rfl⟩

theorem reads_fitted (names : Names) {bs : List Block} (t : Term) (k : Nat) (reads : t.Reads names k)
    (inside : t.blocks ⊆ bs) :
    ∀ b ∈ t.blocks, b.Fitted bs := by
  intro x mem
  obtain ⟨first, second, _, ⟨placed, saying, -⟩, within⟩ := t.reads_node k reads mem
  have inFirst : first.blocks ⊆ bs := fun x mem => inside (within (by simp [blocks, mem]))
  have inSecond : second.blocks ⊆ bs := fun x mem => inside (within (by simp [blocks, mem]))
  have shape : ∀ c c' : Category, x.kind.accepts? x.kind.firstOperand = some c → (first.Fits c) →
      (second = .missing ∨ x.kind.accepts? x.kind.secondOperand = some c' ∧ second.Fits c') → x.Fitted bs := by
    intro c c' accepts fits other
    have apart : x.kind.firstOperand ≠ x.kind.secondOperand := by
      cases x.kind <;> simp [Kind.firstOperand, Kind.secondOperand]
    rw [Block.Fitted, placed.slots]
    refine ⟨?_, fun p filled => ?_⟩
    · cases first <;> cases second <;> simp [inSlot, isMissing, apart]
    · rcases mem_append.mp filled with filled | filled
      · obtain ⟨here, found⟩ := fits_block bs first fits inFirst p filled
        exact ⟨c, here ▸ accepts, found⟩
      · rcases other with missing | ⟨accepts', fits'⟩
        · rw [missing] at filled
          cases filled
        · obtain ⟨here, found⟩ := fits_block bs second fits' inSecond p filled
          exact ⟨c', here ▸ accepts', found⟩
  have none : first = .missing → second = .missing → x.Fitted bs := by
    rintro rfl rfl
    rw [Block.Fitted, placed.slots]
    simp [inSlot, isMissing]
  generalize own : x.content = content at saying
  have kind : x.kind = content.kind := congrArg Content.kind own
  cases saying with
  | literal | reference | device | interrupt => exact none rfl rfl
  | not first fits => exact shape .predicate .predicate (by rw [kind]; rfl) fits (.inl rfl)
  | fixedElement first i fits => exact shape .value .value (by rw [kind]; rfl) fits (.inl rfl)
  | element first second fits fits' =>
    exact shape .value .value (by rw [kind]; rfl) fits (.inr ⟨by rw [kind]; rfl, fits'⟩)
  | operation kind' c first second slots fits fits' =>
    have operands : kind'.firstOperand = .left ∧ kind'.secondOperand = .right := by
      cases kind' <;> first | exact ⟨rfl, rfl⟩ | cases slots
    refine shape c c ?_ fits (.inr ⟨?_, fits'⟩)
    · simp [kind, operands.1, Kind.accepts?, slots]
    · simp [kind, operands.2, Kind.accepts?, slots]

end Term

namespace Plan

def top (p : Plan) : List Nat :=
  match p with
  | .nil => []
  | .cons b _ _ _ _ => [b.id]

variable {names : Names}

theorem top_filter {top : Bool} (p : Plan) (reads : p.Reads top names (k + 1) parent) :
    [p.id].filter (· ≠ 0) = p.top := by
  cases p with
  | nil => rfl
  | cons b operands body otherwise rest =>
    have own : b.id = k + 1 := reads.1.id
    simp [id, Plan.top, own]

theorem operands_targets (k : Nat) (reads : OperandsRead names kind k operands) :
    ((operandBlocks operands).flatMap Block.targets ++ (operandSlots operands).map Prod.snd).Perm
      ((operandBlocks operands).map Block.id) := by
  induction operands generalizing k with
  | nil => exact .refl _
  | cons p rest hyp =>
    obtain ⟨-, reads, others⟩ := reads
    have first := (p.2.reads_targets k reads).count_eq
    have later := (hyp _ others).count_eq
    rw [perm_iff_count]
    intro id
    specialize first id
    specialize later id
    simp only [operandBlocks, operandSlots, flatMap_cons, flatMap_append, map_append, count_append,
      Term.in_slot_top] at first later ⊢
    omega

theorem reads_targets (top : Bool) (names : Names) (p : Plan) (k parent : Nat)
    (reads : p.Reads top names (k + 1) parent) :
    (p.blocks.flatMap Block.targets ++ p.top).Perm (p.blocks.map Block.id) := by
  induction p generalizing top names k parent with
  | nil => exact .refl _
  | cons b operands body otherwise rest hyp hyp' hyp'' =>
    obtain ⟨placed, -, operandsRead, bodyReads, otherwiseReads, restReads⟩ := reads
    have step : ∀ n, k + 1 + 1 + n = k + 1 + n + 1 := fun n => by omega
    rw [step] at bodyReads
    rw [step, Nat.add_right_comm _ 1] at otherwiseReads
    rw [step, Nat.add_right_comm _ 1, Nat.add_right_comm _ 1] at restReads
    have own : b.targets = (operandSlots operands).map Prod.snd ++ (rest.top ++ body.top ++ otherwise.top) := by
      rw [Block.targets, placed.slots, placed.next, placed.body, placed.otherwise, ← rest.top_filter restReads,
        ← body.top_filter bodyReads, ← otherwise.top_filter otherwiseReads, ← filter_append,
        ← filter_append]
      rfl
    have slots := (operands_targets _ operandsRead).count_eq
    have first := (hyp _ _ _ _ bodyReads).count_eq
    have other := (hyp' _ _ _ _ otherwiseReads).count_eq
    have later := (hyp'' _ _ _ _ restReads).count_eq
    rw [perm_iff_count]
    intro id
    specialize slots id
    specialize first id
    specialize other id
    specialize later id
    simp only [blocks, Plan.top, own, flatMap_cons, flatMap_append, map_cons, map_append, count_append,
      count_cons, count_nil] at slots first other later ⊢
    omega

theorem mem_blocks (b x : Block) (operands : List (Slot × Term)) (body otherwise rest : Plan) :
    x ∈ (cons b operands body otherwise rest).blocks ↔
      x = b ∨ x ∈ operandBlocks operands ∨ x ∈ body.blocks ∨ x ∈ otherwise.blocks ∨ x ∈ rest.blocks := by
  simp [blocks]

theorem operands_all (holds : Block → Prop) (k : Nat) (reads : OperandsRead names kind k operands)
    (terms : ∀ p ∈ operands, ∀ k, p.2.Reads names k → ∀ b ∈ p.2.blocks, holds b) :
    ∀ b ∈ operandBlocks operands, holds b := by
  induction operands generalizing k with
  | nil => simp [operandBlocks]
  | cons p rest hyp =>
    intro b mem
    rcases mem_append.mp mem with first | later
    · exact terms p mem_cons_self k reads.2.1 b first
    · exact hyp _ reads.2.2 (fun q inner => terms q (mem_cons_of_mem p inner)) b later

theorem operands_values (reads : OperandsRead names kind k operands) :
    ∀ b ∈ operandBlocks operands, b.kind.category ≠ .statement :=
  operands_all _ k reads fun p _ _ reads b inner => (p.2.reads_values reads b inner).1

theorem reads_all {bs : List Block} {holds : Block → Prop}
    (terms : ∀ (names : Names) (t : Term) (k : Nat), t.Reads names k → t.blocks ⊆ bs → ∀ b ∈ t.blocks, holds b)
    (statements : ∀ (top : Bool) (names : Names) (b : Block) (operands : List (Slot × Term))
      (body otherwise rest : Plan)
      (k parent : Nat), (cons b operands body otherwise rest).Reads top names k parent →
      (cons b operands body otherwise rest).blocks ⊆ bs → holds b)
    (top : Bool) (names : Names) (p : Plan) (k parent : Nat) (reads : p.Reads top names k parent)
    (inside : p.blocks ⊆ bs) :
    ∀ b ∈ p.blocks, holds b := by
  induction p generalizing top names k parent with
  | nil => simp [blocks]
  | cons b operands body otherwise rest hyp hyp' hyp'' =>
    have own := statements top names b operands body otherwise rest k parent reads inside
    obtain ⟨-, -, operandsRead, bodyReads, otherwiseReads, restReads⟩ := reads
    have within := fun x mem => inside ((mem_blocks b x operands body otherwise rest).mpr mem)
    intro x mem
    rcases (mem_blocks b x operands body otherwise rest).mp mem with rfl | mem | mem | mem | mem
    · exact own
    · refine operands_all holds _ operandsRead (fun q listed k reads => ?_) x mem
      refine terms _ q.2 k reads fun y inner => within y (.inr (.inl ?_))
      exact mem_flatMap.mpr ⟨q, listed, inner⟩
    · exact hyp _ _ _ _ bodyReads (fun y inner => within y (.inr (.inr (.inl inner)))) x mem
    · exact hyp' _ _ _ _ otherwiseReads (fun y inner => within y (.inr (.inr (.inr (.inl inner))))) x mem
    · exact hyp'' _ _ _ _ restReads (fun y inner => within y (.inr (.inr (.inr (.inr inner))))) x mem

end Plan

def Block.Answered (bs : List Block) (n : Block) : Prop :=
  ∀ x, n.exit x ≠ 0 → ∃ m ∈ bs, m.id = n.exit x ∧ m.parent = n.id

namespace Plan

variable {names : Names} {bs : List Block}

theorem first_parent (bs : List Block) {top : Bool} (p : Plan) (reads : p.Reads top names k parent)
    (inside : p.blocks ⊆ bs) (some : p.id ≠ 0) : ∃ m ∈ bs, m.id = p.id ∧ m.parent = parent := by
  cases p with
  | nil => exact absurd rfl some
  | cons b operands body otherwise rest => exact ⟨b, inside mem_cons_self, rfl, reads.1.parent⟩

theorem statement_answered (top : Bool) (names : Names) (b : Block) (operands : List (Slot × Term))
    (body otherwise rest : Plan) (k parent : Nat)
    (reads : (cons b operands body otherwise rest).Reads top names k parent)
    (inside : (cons b operands body otherwise rest).blocks ⊆ bs) : b.Answered bs := by
  obtain ⟨placed, -, -, bodyReads, otherwiseReads, restReads⟩ := reads
  have within := fun x mem => inside ((mem_blocks b x operands body otherwise rest).mpr mem)
  intro x leads
  rw [placed.id]
  cases x with
  | next =>
    rw [exit, placed.next] at leads ⊢
    exact rest.first_parent bs restReads (fun y inner => within y (.inr (.inr (.inr (.inr inner))))) leads
  | body =>
    rw [exit, placed.body] at leads ⊢
    exact body.first_parent bs bodyReads (fun y inner => within y (.inr (.inr (.inl inner)))) leads
  | otherwise =>
    rw [exit, placed.otherwise] at leads ⊢
    exact otherwise.first_parent bs otherwiseReads (fun y inner => within y (.inr (.inr (.inr (.inl inner))))) leads

theorem slots_apart (apart : (operands.map Prod.fst).Nodup) : ((operandSlots operands).map Prod.fst).Nodup := by
  refine List.Nodup.sublist ?_ apart
  induction operands with
  | nil => exact List.Sublist.refl _
  | cons p rest hyp =>
    have later := hyp (nodup_cons.mp apart).2
    obtain ⟨slot, t⟩ := p
    cases t with
    | missing => exact later.cons slot
    | node b first second => exact later.cons_cons slot

theorem operands_fit (bs : List Block) (k : Nat) (reads : OperandsRead names kind k operands)
    (inside : operandBlocks operands ⊆ bs) :
    ∀ p ∈ operandSlots operands, ∃ c, kind.accepts? p.1 = some c ∧ ∃ m ∈ bs, m.id = p.2 ∧ m.kind.category = c := by
  induction operands generalizing k with
  | nil => simp [operandSlots]
  | cons q rest hyp =>
    obtain ⟨⟨c, accepts, fits⟩, -, others⟩ := reads
    have inside : q.2.blocks ++ operandBlocks rest ⊆ bs := inside
    intro p filled
    have filled : p ∈ q.2.inSlot q.1 ++ operandSlots rest := filled
    rcases mem_append.mp filled with filled | filled
    · obtain ⟨here, found⟩ := q.2.fits_block bs fits (fun y inner => inside (mem_append_left _ inner)) p filled
      exact ⟨c, here ▸ accepts, found⟩
    · exact hyp _ others (fun y inner => inside (mem_append_right _ inner)) p filled

theorem statement_fitted (top : Bool) (names : Names) (b : Block) (operands : List (Slot × Term))
    (body otherwise rest : Plan) (k parent : Nat)
    (reads : (cons b operands body otherwise rest).Reads top names k parent)
    (inside : (cons b operands body otherwise rest).blocks ⊆ bs) : b.Fitted bs := by
  obtain ⟨placed, statement, operandsRead, -⟩ := reads
  rw [Block.Fitted, placed.slots]
  refine ⟨slots_apart (operands_apart statement), operands_fit bs _ operandsRead fun y inner => ?_⟩
  exact inside ((mem_blocks b y operands body otherwise rest).mpr (.inr (.inl inner)))

end Plan

def Block.Resolved (bs : List Block) (r : Block) : Prop :=
  ∀ kind, r.kind.declarer? = some kind → ∃ d ∈ bs, d.id = r.decl ∧ d.kind = kind ∧ d.name = r.name

namespace Names

def Backed (bs : List Block) (names : Names) : Prop :=
  ∀ e ∈ names.frames.flatten ++ names.declared, ∃ d ∈ bs, d.entry = e ∧ (d.kind = .variableDecl ∨ d.kind = .forLoop)

variable (bs : List Block) (names : Names) (backed : names.Backed bs)

include backed

theorem backed_fresh : names.fresh.Backed bs :=
  fun e mem => backed e (mem_append_right _ (by simpa [fresh] using mem))

theorem backed_enter : names.enter.Backed bs := fun e mem => backed e (by simpa [enter] using mem)

theorem backed_leave : names.leave.Backed bs := by
  intro e mem
  refine backed e ?_
  simp only [leave, mem_append] at mem ⊢
  rcases mem with mem | mem
  · obtain ⟨frame, inner, mem⟩ := mem_flatten.mp mem
    exact .inl (mem_flatten.mpr ⟨frame, mem_of_mem_drop inner, mem⟩)
  · exact .inr mem

theorem backed_declare {d : Block} (inside : d ∈ bs) (kind : d.kind = .variableDecl ∨ d.kind = .forLoop) :
    (names.declare d.entry).Backed bs := by
  intro e mem
  by_cases own : e = d.entry
  · exact ⟨d, inside, own.symm, kind⟩
  · refine backed e ?_
    unfold declare at mem
    cases frames : names.frames with
    | nil => simpa [frames, own] using mem
    | cons frame rest => simpa [frames, own] using mem

theorem backed_inside (inside : b ∈ bs) : (names.inside b).Backed bs := by
  unfold Names.inside
  split_ifs with kind
  · exact backed_declare bs _ (backed_enter bs names backed) inside (.inr kind)
  · exact backed

theorem backed_past (inside : b ∈ bs) : (names.past b).Backed bs := by
  unfold past
  split_ifs with loop kind
  · exact backed_leave bs names backed
  · exact backed_declare bs names backed inside (.inl kind)
  · exact backed

end Names

namespace Term

theorem reads_resolved {bs : List Block} {names : Names} (backed : names.Backed bs) (t : Term) (k : Nat)
    (reads : t.Reads names k) :
    ∀ b ∈ t.blocks, b.Resolved bs := by
  intro x mem kind declarer
  obtain ⟨first, second, _, ⟨-, saying, -⟩, -⟩ := t.reads_node k reads mem
  generalize own : x.content = content at saying
  rw [show x.kind = content.kind from congrArg Content.kind own] at declarer
  rw [show x.decl = content.decl from congrArg Content.decl own,
    show x.name = content.name from congrArg Content.name own]
  cases saying with
  | reference e found named =>
    obtain ⟨d, inside, same, declares⟩ := backed e (mem_of_find?_eq_some found)
    have kinds : d.kind = e.kind := congrArg Entry.kind same
    refine ⟨d, inside, congrArg Entry.id same, ?_, congrArg Entry.name same⟩
    dsimp only at declarer
    rcases declares with plain | loop
    · rw [if_neg (by rw [← kinds, plain]; decide)] at declarer
      rw [plain]
      exact Option.some.inj declarer
    · rw [if_pos (by rw [← kinds, loop])] at declarer
      rw [loop]
      exact Option.some.inj declarer
  | operation kind' c first second slots => cases kind' <;> first | cases slots; done | cases declarer
  | _ => cases declarer

end Term

namespace Plan

theorem statement_refers {top : Bool} {content : Content} {body otherwise : Plan}
    (statement : Statement top content operands body otherwise) :
    content.kind.declarer? = none ∧ content.kind.category = .statement := by
  cases statement <;> exact ⟨rfl, rfl⟩

-- The names behind some statements are backed if those before them are, so every reference is resolved.
theorem reads_resolved (bs : List Block) (top : Bool) (names : Names) (p : Plan) (k parent : Nat)
    (reads : p.Reads top names k parent) (inside : p.blocks ⊆ bs) (backed : names.Backed bs) :
    (p.after names).Backed bs ∧ ∀ b ∈ p.blocks, b.Resolved bs := by
  induction p generalizing top names k parent with
  | nil => exact ⟨backed, by simp [blocks]⟩
  | cons b operands body otherwise rest hyp hyp' hyp'' =>
    obtain ⟨-, statement, operandsRead, bodyReads, otherwiseReads, restReads⟩ := reads
    have within := fun x mem => inside ((mem_blocks b x operands body otherwise rest).mpr mem)
    have here := within b (.inl rfl)
    have inner := names.backed_inside bs backed here
    obtain ⟨past, first⟩ := hyp _ _ _ _ bodyReads (fun y mem => within y (.inr (.inr (.inl mem))))
      (Names.backed_enter bs _ inner)
    obtain ⟨past', other⟩ := hyp' _ _ _ _ otherwiseReads (fun y mem => within y (.inr (.inr (.inr (.inl mem)))))
      (Names.backed_enter bs _ (Names.backed_leave bs _ past))
    obtain ⟨past'', later⟩ := hyp'' _ _ _ _ restReads (fun y mem => within y (.inr (.inr (.inr (.inr mem)))))
      (Names.backed_past bs _ (Names.backed_leave bs _ past') here)
    refine ⟨past'', fun x mem => ?_⟩
    rcases (mem_blocks b x operands body otherwise rest).mp mem with rfl | mem | mem | mem | mem
    · intro kind declarer
      have none : x.kind.declarer? = none := (statement_refers statement).1
      rw [none] at declarer
      cases declarer
    · exact operands_all _ _ operandsRead (fun q _ => q.2.reads_resolved inner) x mem
    · exact first x mem
    · exact other x mem
    · exact later x mem

theorem first_anchored {top : Bool} {names : Names} (p : Plan) (reads : p.Reads top names k parent)
    (found : ∀ b ∈ p.blocks, g.block? b.id = some b) (above : g.Anchored parent) (some : p.id ≠ 0) :
    g.Anchored p.id := by
  cases p with
  | nil => exact absurd rfl some
  | cons b operands body otherwise rest => exact .under b.id b (found b mem_cons_self) (reads.1.parent ▸ above)

theorem reads_anchored (top : Bool) (names : Names) (p : Plan) (k parent : Nat)
    (reads : p.Reads top names (k + 1) parent) (found : ∀ b ∈ p.blocks, g.block? b.id = some b)
    (first : p.id ≠ 0 → g.Anchored p.id) : ∀ b ∈ p.blocks, b.kind.category = .statement → g.Anchored b.id := by
  induction p generalizing top names k parent with
  | nil => simp [blocks]
  | cons b operands body otherwise rest hyp hyp' hyp'' =>
    obtain ⟨placed, -, operandsRead, bodyReads, otherwiseReads, restReads⟩ := reads
    have step : ∀ n, k + 1 + 1 + n = k + 1 + n + 1 := fun n => by omega
    rw [step] at bodyReads
    rw [step, Nat.add_right_comm _ 1] at otherwiseReads
    rw [step, Nat.add_right_comm _ 1, Nat.add_right_comm _ 1] at restReads
    have within := fun x mem => found x ((mem_blocks b x operands body otherwise rest).mpr mem)
    have own : g.Anchored (k + 1) := placed.id ▸ first (by rw [id, placed.id]; exact Nat.succ_ne_zero k)
    intro x mem kind
    rcases (mem_blocks b x operands body otherwise rest).mp mem with rfl | mem | mem | mem | mem
    · exact placed.id ▸ own
    · refine absurd kind
        (operands_all (fun y => y.kind.category ≠ .statement) _ operandsRead (fun q _ k reads y inner => ?_)
        x mem)
      exact (q.2.reads_values reads y inner).1
    · have found := fun y inner => within y (.inr (.inr (.inl inner)))
      exact hyp _ _ _ _ bodyReads found (body.first_anchored bodyReads found own) x mem kind
    · have found := fun y inner => within y (.inr (.inr (.inr (.inl inner))))
      exact hyp' _ _ _ _ otherwiseReads found (otherwise.first_anchored otherwiseReads found own) x mem kind
    · have found := fun y inner => within y (.inr (.inr (.inr (.inr inner))))
      exact hyp'' _ _ _ _ restReads found (rest.first_anchored restReads found own) x mem kind

end Plan

namespace Block

theorem slot_own (b : Block) (apart : (b.slots.map Prod.fst).Nodup) {p : Slot × Nat} (mem : p ∈ b.slots) :
    b.slot p.1 = p.2 := by
  unfold slot
  generalize b.slots = slots at apart mem
  induction slots with
  | nil => cases mem
  | cons q rest hyp =>
    obtain ⟨fresh, apart⟩ := nodup_cons.mp apart
    rcases mem_cons.mp mem with rfl | mem
    · simp
    · have other : q.1 ≠ p.1 := fun same => fresh (same ▸ mem_map_of_mem mem)
      rw [find?_cons_of_neg (by simpa using other)]
      exact hyp apart mem

theorem slot_empty (b : Block) (s : Slot) (empty : s ∉ b.slots.map Prod.fst) : b.slot s = 0 := by
  have none : b.slots.find? (·.1 = s) = none := by
    rw [find?_eq_none]
    intro p mem same
    exact empty (mem_map.mpr ⟨p, mem, by simpa using same⟩)
  rw [slot, none]
  rfl

-- The slots are visited in the order of the kind, which need not be the one in which they were filled.
theorem children_slots (b : Block) {f : Nat → List Block} (none : f 0 = []) (apart : (b.slots.map Prod.fst).Nodup)
    (accepted : ∀ p ∈ b.slots, ∃ c, b.kind.accepts? p.1 = some c) :
    (b.children.flatMap f).Perm (b.slots.flatMap fun p => f p.2) := by
  have slots : b.filledSlots = b.kind.slots.filterMap fun p =>
      if b.slot p.1 = 0 then Option.none else some (p.1, b.slot p.1) := rfl
  have visited : ∀ all : List (Slot × Category),
      ((all.filterMap fun p => if b.slot p.1 = 0 then Option.none else some (p.1, b.slot p.1)).map Prod.snd).flatMap f =
        (all.map Prod.fst).flatMap fun s => f (b.slot s) := by
    intro all
    induction all with
    | nil => rfl
    | cons p rest hyp =>
      by_cases empty : b.slot p.1 = 0
      · rw [filterMap_cons_none (by simp [empty]), hyp]
        simp [empty, none]
      · rw [filterMap_cons_some (b := (p.1, b.slot p.1)) (by simp [empty]), map_cons, flatMap_cons, hyp]
        simp
  have listed : (b.kind.slots.map Prod.fst).Nodup := by cases b.kind <;> simp [Kind.slots]
  have filled : ((b.kind.slots.map Prod.fst).filter (· ∈ b.slots.map Prod.fst)).Perm (b.slots.map Prod.fst) := by
    refine (perm_ext_iff_of_nodup (listed.filter _) apart).mpr fun s => ?_
    simp only [mem_filter, decide_eq_true_eq, and_iff_right_iff_imp]
    intro mem
    obtain ⟨p, inside, rfl⟩ := mem_map.mp mem
    obtain ⟨c, accepts⟩ := accepted p inside
    obtain ⟨q, found, -⟩ := Option.map_eq_some_iff.mp accepts
    exact mem_map.mpr ⟨q, mem_of_find?_eq_some found, by simpa using find?_some found⟩
  have others : ((b.kind.slots.map Prod.fst).filter fun s => !decide (s ∈ b.slots.map Prod.fst)).flatMap
      (fun s => f (b.slot s)) = [] := by
    rw [flatMap_eq_nil_iff]
    intro s mem
    rw [b.slot_empty s (by simpa using (mem_filter.mp mem).2), none]
  have own : ((b.slots.map Prod.fst).flatMap fun s => f (b.slot s)) = b.slots.flatMap fun p => f p.2 := by
    rw [flatMap_map]
    exact flatMap_congr fun p mem => by rw [b.slot_own apart mem]
  rw [children, slots, visited, ← own]
  refine (List.Perm.flatMap_right _ (filter_append_perm (· ∈ b.slots.map Prod.fst) _).symm).trans ?_
  rw [flatMap_append, others, append_nil]
  exact List.Perm.flatMap_right _ filled

end Block

theorem Plan.slots_walked {f : Nat → List Block} (walks : ∀ p ∈ operands, (f p.2.id).Perm p.2.blocks) :
    ((operandSlots operands).flatMap fun p => f p.2).Perm (operandBlocks operands) := by
  induction operands with
  | nil => exact .refl _
  | cons p rest hyp =>
    have first : ((p.2.inSlot p.1).flatMap fun p => f p.2).Perm p.2.blocks := by
      have walked := walks p mem_cons_self
      obtain ⟨slot, t⟩ := p
      cases t with
      | missing => exact .refl _
      | node b first second => simpa [Term.inSlot, Term.isMissing] using walked
    have later := hyp fun q mem => walks q (mem_cons_of_mem p mem)
    have both := first.append later
    rwa [← flatMap_append] at both

theorem Graph.walk_step (g : Graph) (operands : List (Slot × Term)) (fuel : Nat) (bs : List Block)
    (found : g.block? b.id = some b) (slots : b.slots = operandSlots operands) (fitted : b.Fitted bs)
    (walks : ∀ p ∈ operands, (g.walkFrom (fun _ => true) fuel p.2.id).Perm p.2.blocks) :
    (g.walkFrom (fun _ => true) (fuel + 1) b.id).Perm
      (b :: (operandBlocks operands ++ g.walkFrom (fun _ => true) fuel b.body ++ g.walkFrom
        (fun _ => true) fuel b.otherwise ++ g.walkFrom (fun _ => true) fuel b.next)) := by
  have none : g.walkFrom (fun _ => true) fuel 0 = [] := by cases fuel <;> rfl
  have children := b.children_slots none fitted.1 fun p mem =>
    have ⟨c, accepts, _⟩ := fitted.2 p mem
    ⟨c, accepts⟩
  rw [slots] at children
  rw [walkFrom, found]
  dsimp only
  rw [if_pos rfl]
  exact ((((children.trans (slots_walked walks)).append_right _).append_right _).append_right _).cons b

namespace Term

theorem walked (t : Term) (fuel : Nat) (inside : t.In g) (enough : t.blocks.length ≤ fuel) :
    (g.walkFrom (fun _ => true) fuel t.id).Perm t.blocks := by
  induction t generalizing fuel with
  | missing => cases fuel <;> exact .refl _
  | node b first second hyp hyp' =>
    have node := in_node inside
    have ⟨names, k, _, reads⟩ := inside
    have fitted := reads_fitted names _ _ reads (List.Subset.refl _) b mem_cons_self
    simp only [blocks, length_cons, length_append] at enough
    obtain ⟨fuel, rfl⟩ : ∃ f, fuel = f + 1 := ⟨fuel - 1, by omega⟩
    have none : g.walkFrom (fun _ => true) fuel 0 = [] := by cases fuel <;> rfl
    have step := g.walk_step [(b.kind.firstOperand, first), (b.kind.secondOperand, second)] fuel _ node.found
      (by simpa [operandSlots] using node.slots) fitted (by
        intro p mem
        rcases mem_pair.mp mem with rfl | rfl
        · exact hyp fuel node.left (by omega)
        · exact hyp' fuel node.right (by omega))
    rw [reads.1.body, reads.1.otherwise, reads.1.next, none] at step
    simpa [operandBlocks, blocks, id] using step

end Term

namespace Plan

theorem walked (top : Bool) (p : Plan) (fuel : Nat) (inside : p.In g top) (enough : p.blocks.length ≤ fuel) :
    (g.walkFrom (fun _ => true) fuel p.id).Perm p.blocks := by
  induction p generalizing top fuel with
  | nil => cases fuel <;> exact .refl _
  | cons b operands body otherwise rest hyp hyp' hyp'' =>
    have node := in_cons top b operands body otherwise rest inside
    have ⟨names, k, parent, _, reads⟩ := inside
    have fitted := statement_fitted top names b operands body otherwise rest _ parent reads (List.Subset.refl _)
    simp only [blocks, length_cons, length_append] at enough
    obtain ⟨fuel, rfl⟩ : ∃ f, fuel = f + 1 := ⟨fuel - 1, by omega⟩
    have step := g.walk_step operands fuel _ node.found reads.1.slots fitted fun p mem => by
      refine p.2.walked fuel (node.terms p mem) (le_trans ?_ (by omega : (operandBlocks operands).length ≤ fuel))
      obtain ⟨before, after, rfl⟩ := append_of_mem mem
      simp [operandBlocks]
      omega
    rw [node.first, node.other, node.next] at step
    refine step.trans (List.Perm.cons b ?_)
    exact (((List.Perm.refl _).append (hyp _ fuel node.inBody (by omega))).append
      (hyp' _ fuel node.inOtherwise (by omega))).append
      (hyp'' _ fuel node.inRest (by omega))

end Plan

theorem Graph.mem_block (g : Graph) {id : Nat} (found : g.block? id = some b) : b ∈ g.blocks.toList := by
  unfold Graph.block? at found
  split_ifs at found
  exact Array.mem_toList_iff.mpr (Array.mem_of_getElem? found)

theorem Graph.holds_numbered (g : Graph) {bs : List Block} (numbered : Numbered k bs)
    (found : ∀ b ∈ bs, g.block? b.id = some b) : g.Holds k bs := by
  intro i b here
  have number : (bs.map Block.id)[i]? = (List.range' k bs.length)[i]? := by rw [numbered]
  have bound : i < bs.length := (List.getElem?_eq_some_iff.mp here).1
  rw [List.getElem?_map, here, List.getElem?_range' bound] at number
  have own : b.id = k + i := by simpa using number
  rw [← own]
  exact found b (List.mem_of_getElem? here)

namespace Blueprint

variable (bp : Blueprint)

theorem mem_graph : bp.graph.blocks.toList = bp.blocks := by simp [graph, blocks]

theorem graph_size : bp.graph.size = bp.blocks.length := by
  rw [← mem_graph, Array.length_toList]
  rfl

theorem block_found (reads : bp.Reads) (b : Block) (mem : b ∈ bp.blocks) : bp.graph.block? b.id = some b := by
  obtain ⟨i, bound, rfl⟩ := getElem_of_mem mem
  have number : (bp.blocks.map Block.id)[i]? = (List.range' 1 bp.blocks.length)[i]? := by rw [bp.reads_numbered reads]
  rw [getElem?_map, getElem?_range' (by simpa using bound), getElem?_eq_getElem bound] at number
  have own : bp.blocks[i].id = 1 + i := by simpa using number
  rw [own]
  exact bp.graph_holds i _ (getElem?_eq_getElem bound)

theorem parts (reads : bp.Reads) (holds : Block → Prop)
    (started : ∀ p start, bp.main = some (p, start) → holds start)
    (planned : ∀ (top : Bool) (names : Names) (p : Plan) (k parent : Nat), p.Reads top names (k + 1) parent →
      p.blocks ⊆ bp.blocks →
      ((∃ start, bp.main = some (p, start) ∧ start.id = parent) ∨ ∃ h ∈ bp.handlers, p = h.single) →
        ∀ b ∈ p.blocks, holds b) :
    ∀ b ∈ bp.blocks, holds b := by
  have handlers : ∀ (hs : List Head) (names : Names) (k : Nat), HandlersRead names (k + 1) hs → hs ⊆ bp.handlers →
      ∀ b ∈ hs.flatMap Head.blocks, holds b := by
    intro hs
    induction hs with
    | nil => simp
    | cons h rest hyp =>
      intro names k reads listed b mem
      obtain ⟨single, -, others⟩ := reads
      have here : h ∈ bp.handlers := listed mem_cons_self
      rcases mem_append.mp mem with first | later
      · refine planned true _ h.single k 0 single (fun x inner => ?_) (.inr ⟨h, here, rfl⟩) b (h.single_blocks ▸ first)
        exact mem_append_right _ (mem_flatMap.mpr ⟨h, here, h.single_blocks ▸ inner⟩)
      · rw [Nat.add_right_comm] at others
        exact hyp _ _ others (fun x inner => listed (mem_cons_of_mem h inner)) b later
  intro b mem
  rcases mem_append.mp mem with main | handled
  · unfold mainBlocks at main
    split at main
    · cases main
    · next p start found =>
        obtain ⟨reads, placed, -⟩ := reads.main p start found
        rcases mem_append.mp main with inner | last
        · refine planned false _ p 0 _ reads (fun x inner => ?_) (.inl ⟨start, found, placed.id⟩) b inner
          simp [blocks, mainBlocks, found, inner]
        · rw [mem_singleton.mp last]
          exact started p start found
  · exact handlers bp.handlers _ _ reads.handlers (List.Subset.refl _) b handled

theorem statement_in (whole : bp.Reads) (mem : b ∈ bp.blocks)
    (statement : b.kind.category = .statement) (later : b.kind ≠ .start) :
    ∃ top operands body otherwise rest, Plan.StatementIn bp.graph top b operands body otherwise rest := by
  refine bp.parts whole (fun b => b.kind.category = .statement → b.kind ≠ .start →
      ∃ top operands body otherwise rest, Plan.StatementIn bp.graph top b operands body otherwise rest)
    (fun p start found _ later => ?_) (fun top names p k parent planned inside _ => ?_) b mem statement later
  · exact absurd (congrArg Content.kind (whole.main p start found).2.2) later
  · refine p.reads_all (fun names t k reads _ x inner kind _ => ?_)
      (fun top names x operands body otherwise rest k parent reads inside _ _ => ?_)
      top names _ _ planned inside
    · exact absurd kind (t.reads_values reads x inner).1
    · have found := fun y inner => bp.block_found whole y (inside inner)
      obtain ⟨k, rfl⟩ : ∃ n, k = n + 1 := by
        cases k with
        | zero =>
          have here := found x mem_cons_self
          rw [reads.1.id] at here
          cases here
        | succ n => exact ⟨n, rfl⟩
      have held := bp.graph.holds_numbered (Plan.reads_numbered _ _ _ _ _ reads) found
      exact ⟨top, operands, body, otherwise, rest, Plan.in_cons top x operands body otherwise rest
        ⟨names, k, parent, held, reads⟩⟩

theorem graph_answered (reads : bp.Reads) : ∀ n ∈ bp.blocks, n.Answered bp.blocks := by
  refine bp.parts reads _ (fun p start found => ?_) fun top names p k parent planned inside _ => ?_
  · obtain ⟨planned, placed, -⟩ := reads.main p start found
    intro x leads
    cases x with
    | next =>
      rw [exit, placed.next] at leads ⊢
      rw [placed.id]
      exact p.first_parent _ planned (fun b inner => by simp [blocks, mainBlocks, found, inner]) leads
    | body => exact absurd placed.body leads
    | otherwise => exact absurd placed.otherwise leads
  · refine p.reads_all (fun names t k reads _ b mem x leads => ?_) (statement_answered) top names _ _ planned inside
    exact absurd ((t.reads_values reads b mem).2 x) leads

theorem graph_fitted (reads : bp.Reads) : ∀ n ∈ bp.blocks, n.Fitted bp.blocks := by
  refine bp.parts reads _ (fun p start found => ?_) fun top names p k parent planned inside _ => ?_
  · obtain ⟨-, placed, -⟩ := reads.main p start found
    simp [Block.Fitted, placed.slots]
  · exact p.reads_all (fun names t k => t.reads_fitted names k) (statement_fitted) top names _ _ planned inside

theorem graph_resolved (reads : bp.Reads) : ∀ b ∈ bp.blocks, b.Resolved bp.blocks := by
  have handlers : ∀ (hs : List Head) (names : Names) (k : Nat), HandlersRead names k hs → names.Backed bp.blocks →
      hs.flatMap Head.blocks ⊆ bp.blocks → ∀ b ∈ hs.flatMap Head.blocks, b.Resolved bp.blocks := by
    intro hs
    induction hs with
    | nil => simp
    | cons h rest hyp =>
      intro names k reads backed inside b mem
      obtain ⟨single, -, others⟩ := reads
      rw [flatMap_cons, ← h.single_blocks] at inside mem
      obtain ⟨past, resolved⟩ :=
        h.single.reads_resolved bp.blocks _ _ _ _ single (fun x inner => inside (mem_append_left _ inner))
        (names.backed_fresh _ backed)
      rcases mem_append.mp mem with first | later
      · exact resolved b first
      · exact hyp _ _ others past (fun x inner => inside (mem_append_right _ inner)) b later
  have known : bp.mainNames.Backed bp.blocks ∧ ∀ b ∈ bp.mainBlocks, b.Resolved bp.blocks := by
    unfold mainNames
    cases found : bp.main with
    | none => exact ⟨by simp [Names.Backed], by simp [mainBlocks, found]⟩
    | some whole =>
      obtain ⟨p, start⟩ := whole
      obtain ⟨planned, -, content⟩ := reads.main p start found
      obtain ⟨past, resolved⟩ :=
        p.reads_resolved bp.blocks _ _ _ _ planned (fun x inner => by simp [blocks, mainBlocks, found, inner])
        (Names.backed_fresh _ {} (by simp [Names.Backed]))
      refine ⟨past, fun b mem => ?_⟩
      rw [mainBlocks, found] at mem
      rcases mem_append.mp mem with inner | last
      · exact resolved b inner
      · rw [mem_singleton.mp last]
        intro kind declarer
        rw [show start.kind = .start from congrArg Content.kind content] at declarer
        cases declarer
  intro b mem
  rcases mem_append.mp mem with main | handled
  · exact known.2 b main
  · exact handlers bp.handlers _ _ reads.handlers known.1 (fun x inner => mem_append_right _ inner) b handled

variable {hs : List Head}

theorem handlers_targets (names : Names) (k : Nat) (reads : HandlersRead names (k + 1) hs) :
    ((hs.flatMap Head.blocks).flatMap Block.targets ++ hs.map (·.block.id)).Perm
      ((hs.flatMap Head.blocks).map Block.id) := by
  induction hs generalizing names k with
  | nil => exact .refl _
  | cons h rest hyp =>
    obtain ⟨single, -, others⟩ := reads
    rw [Nat.add_right_comm] at others
    have first := (h.single.reads_targets _ _ _ _ single).count_eq
    have later := (hyp _ _ others).count_eq
    rw [perm_iff_count]
    intro id
    specialize first id
    specialize later id
    rw [h.single_blocks] at first
    simp only [Head.single, top, flatMap_cons, flatMap_append, map_cons, map_append, count_append,
      count_cons, count_nil] at first later ⊢
    omega

theorem graph_targets (reads : bp.Reads) :
    (bp.blocks.flatMap Block.targets ++ bp.graph.roots).Perm (bp.blocks.map Block.id) := by
  have handled := (handlers_targets _ _ reads.handlers).count_eq
  rw [perm_iff_count]
  intro id
  specialize handled id
  cases found : bp.main with
  | none =>
    simp only [blocks, mainBlocks, Graph.roots, graph, found, nil_append, if_true, count_append] at handled ⊢
    exact handled
  | some whole =>
    obtain ⟨p, start⟩ := whole
    obtain ⟨planned, placed, -⟩ := reads.main p start found
    have inner := (p.reads_targets _ _ 0 _ planned).count_eq id
    have own : start.targets = p.top := by
      rw [Block.targets, placed.slots, placed.next, placed.body, placed.otherwise, ← p.top_filter planned]
      by_cases none : p.id = 0 <;> simp [none]
    have some : start.id ≠ 0 := by
      rw [placed.id]
      simp
    simp only [blocks, mainBlocks, Graph.roots, graph, found, some, if_false, own, flatMap_append, flatMap_cons,
      flatMap_nil, map_append, map_cons, map_nil, count_append, count_cons, count_nil]
      at handled inner ⊢
    omega

theorem graph_walked (reads : bp.Reads) : (bp.graph.roots.flatMap bp.graph.walk).Perm bp.blocks := by
  have handled : ((bp.handlers.map (·.block.id)).flatMap bp.graph.walk).Perm (bp.handlers.flatMap Head.blocks) := by
    rw [flatMap_map]
    have each := bp.handler_in reads
    generalize bp.handlers = hs at each
    induction hs with
    | nil => exact .refl _
    | cons h rest hyp =>
      have inside := each h mem_cons_self
      have ⟨_, k, _, held, _⟩ := inside
      have first := h.single.walked true _ inside (bp.graph.holds_size held)
      rw [h.single_blocks] at first
      exact first.append (hyp fun h' mem => each h' (mem_cons_of_mem h mem))
  have main : ((if bp.graph.main = 0 then [] else [bp.graph.main]).flatMap bp.graph.walk).Perm bp.mainBlocks := by
    cases found : bp.main with
    | none =>
      have none : bp.graph.main = 0 := by simp [graph, found]
      rw [if_pos none]
      simp [mainBlocks, found]
    | some whole =>
      obtain ⟨p, start⟩ := whole
      obtain ⟨planned, placed, -⟩ := reads.main p start found
      obtain ⟨here, next, inside⟩ := bp.main_in reads found
      have own : bp.graph.main = start.id := by simp [graph, found]
      have size : p.blocks.length + 1 ≤ bp.graph.size := by
        rw [graph_size, blocks, mainBlocks, found]
        simp
      obtain ⟨fuel, enough⟩ : ∃ fuel, bp.graph.size = fuel + 1 := ⟨bp.graph.size - 1, by omega⟩
      have none : bp.graph.walkFrom (fun _ => true) fuel 0 = [] := by cases fuel <;> rfl
      rw [own] at here ⊢
      have step :=
        bp.graph.walk_step [] fuel [] here placed.slots ⟨by simp [placed.slots], by simp [placed.slots]⟩ (by simp)
      rw [placed.body, placed.otherwise, next, none] at step
      have inner := p.walked false fuel inside (by omega)
      rw [if_neg (by rw [placed.id]; simp), mainBlocks, found, flatMap_singleton, Graph.walk, enough]
      refine step.trans ?_
      simpa [operandBlocks] using (inner.cons start).trans (perm_append_singleton start _).symm
  rw [Graph.roots, flatMap_append]
  exact main.append handled

theorem handler_kind (names : Names) (k : Nat) (reads : HandlersRead names k hs) : ∀ h ∈ hs, h.block.kind = .when := by
  induction hs generalizing names k with
  | nil => simp
  | cons h rest hyp =>
    intro h' mem
    rcases mem_cons.mp mem with rfl | mem
    · exact reads.2.1
    · exact hyp _ _ reads.2.2 h' mem

theorem graph_anchored (reads : bp.Reads) :
    ∀ b ∈ bp.blocks, b.kind.category = .statement → bp.graph.Anchored b.id := by
  have start : ∀ p start, bp.main = some (p, start) → bp.graph.Anchored start.id := by
    intro p start found
    obtain ⟨-, placed, content⟩ := reads.main p start found
    have own : bp.graph.main = start.id := by simp [graph, found]
    have positive : start.id ≠ 0 := by
      rw [placed.id]
      simp
    refine .top _ start (mem_append_left _ (by simp [positive, own])) ?_ (.inl (congrArg Content.kind content))
    rw [← own]
    exact (bp.main_in reads found).1
  refine bp.parts reads _ (fun p b found _ => start p b found) fun top names p k parent planned inside origin => ?_
  have found := fun b mem => bp.block_found reads b (inside mem)
  refine p.reads_anchored top names _ _ planned found fun some => ?_
  rcases origin with ⟨b, main, rfl⟩ | ⟨h, listed, rfl⟩
  · exact p.first_anchored planned found (start p b main) some
  · exact .top _ h.block (mem_append_right _ (mem_map_of_mem listed)) (found h.block mem_cons_self)
      (.inr (handler_kind _ _ reads.handlers h listed))

theorem graph_well_formed (reads : bp.Reads) : bp.graph.WellFormed := by
  have numbered := bp.reads_numbered reads
  have found := bp.block_found reads
  have answered := bp.graph_answered reads
  have fitted := bp.graph_fitted reads
  have resolved := bp.graph_resolved reads
  refine ⟨?_, ?_, ?_, ?_, ?_, bp.mem_graph ▸ bp.graph_anchored reads, bp.mem_graph ▸ bp.graph_walked reads⟩
  · rw [bp.mem_graph, bp.graph_size, numbered]
  · rw [bp.mem_graph]
    intro n mem x leads
    obtain ⟨m, inside, target, parent⟩ := answered n mem x leads
    exact ⟨m, target ▸ found m inside, parent⟩
  · rw [bp.mem_graph, bp.graph_size, ← numbered]
    exact bp.graph_targets reads
  · rw [bp.mem_graph]
    intro n mem
    refine ⟨(fitted n mem).1, fun p filled => ?_⟩
    obtain ⟨c, accepts, m, inside, target, category⟩ := (fitted n mem).2 p filled
    exact ⟨c, m, accepts, target ▸ found m inside, category⟩
  · rw [bp.mem_graph]
    intro r mem kind declarer
    obtain ⟨d, inside, target, own, name⟩ := resolved r mem kind declarer
    exact ⟨d, (target ▸ found d inside : bp.graph.block? r.decl = some d), own, name⟩

end Blueprint

theorem Kind.value_low (kind : Kind) (value : kind.category ≠ .statement) : kind.isTop = false := by
  cases kind <;> first | rfl | exact absurd rfl value

namespace Plan

theorem reads_low (names : Names) (p : Plan) (k parent : Nat) (reads : p.Reads false names k parent) :
    ∀ b ∈ p.blocks, b.kind.isTop = false := by
  induction p generalizing names k parent with
  | nil => simp [blocks]
  | cons b operands body otherwise rest hyp hyp' hyp'' =>
    obtain ⟨-, statement, operandsRead, bodyReads, otherwiseReads, restReads⟩ := reads
    intro x mem
    rcases (mem_blocks b x operands body otherwise rest).mp mem with rfl | mem | mem | mem | mem
    · generalize own : x.content = content at statement
      rw [show x.kind = content.kind from congrArg Content.kind own]
      cases statement with
      | handler _ _ _ atTop => cases atTop
      | _ => rfl
    · exact x.kind.value_low (operands_values operandsRead x mem)
    · exact hyp _ _ _ bodyReads x mem
    · exact hyp' _ _ _ otherwiseReads x mem
    · exact hyp'' _ _ _ restReads x mem

theorem first_id {top : Bool} {names : Names} (p : Plan) (reads : p.Reads top names k parent) (some : p.id ≠ 0) :
    p.id = k := by
  cases p with
  | nil => exact absurd rfl some
  | cons b operands body otherwise rest => exact reads.1.id

end Plan

-- Only the start of the program is numbered after what it leads to.
def Block.Ahead (b : Block) : Prop := ∀ x, b.exit x ≠ 0 → b.kind = .start ∨ b.exit x > b.id

theorem Plan.statement_ahead {top : Bool} {names : Names} {body otherwise rest : Plan}
    (reads : (cons b operands body otherwise rest).Reads top names k parent) : b.Ahead := by
  obtain ⟨placed, -, -, bodyReads, otherwiseReads, restReads⟩ := reads
  intro x leads
  right
  rw [placed.id]
  cases x with
  | next =>
    rw [exit, placed.next] at leads ⊢
    have := rest.first_id restReads leads
    omega
  | body =>
    rw [exit, placed.body] at leads ⊢
    have := body.first_id bodyReads leads
    omega
  | otherwise =>
    rw [exit, placed.otherwise] at leads ⊢
    have := otherwise.first_id otherwiseReads leads
    omega

theorem Block.exits_apart (b : Block) (apart : b.targets.Nodup) (x y : Exit) (leads : b.exit x ≠ 0)
    (same : b.exit x = b.exit y) :
    x = y := by
  have exits := (nodup_append'.mp apart).2.1
  rw [List.Nodup, pairwise_filter] at exits
  cases x <;> cases y <;> simp_all [exit]

theorem Block.exit_target (b : Block) {x : Exit} (leads : b.exit x ≠ 0) : b.exit x ∈ b.targets := by
  refine mem_append_right _ (mem_filter.mpr ⟨?_, by simpa using leads⟩)
  cases x <;> simp [exit]

namespace Blueprint

variable (bp : Blueprint) (reads : bp.Reads)

include reads

theorem block_own {id : Nat} (found : bp.graph.block? id = some b) : b ∈ bp.blocks ∧ b.id = id := by
  refine ⟨bp.mem_graph ▸ bp.graph.mem_block found, ?_⟩
  unfold Graph.block? at found
  split_ifs at found with zero
  have here : bp.blocks[id - 1]? = some b := by
    rw [← bp.mem_graph, Array.getElem?_toList]
    exact found
  have number : (bp.blocks.map Block.id)[id - 1]? = (List.range' 1 bp.blocks.length)[id - 1]? := by
    rw [bp.reads_numbered reads]
  rw [List.getElem?_map, here, List.getElem?_range' (List.getElem?_eq_some_iff.mp here).1] at number
  have own : b.id = 1 + (id - 1) := by simpa using number
  exact own.trans (Nat.add_sub_cancel' (Nat.pos_of_ne_zero zero))

theorem graph_ahead : ∀ b ∈ bp.blocks, b.Ahead := by
  refine bp.parts reads _ (fun p start found x _ => .inl ?_) fun top names p k parent planned inside _ => ?_
  · exact congrArg Content.kind (reads.main p start found).2.2
  · refine p.reads_all (fun names t k reads _ b mem x leads => ?_)
      (fun top names b operands body otherwise rest k parent reads _ =>
      statement_ahead reads) top names _ _ planned inside
    exact absurd ((t.reads_values reads b mem).2 x) leads

theorem top_root : ∀ b ∈ bp.blocks, b.kind.isTop = true → b.id ∈ bp.graph.roots := by
  refine bp.parts reads _ (fun p start found _ => ?_) fun top names p k parent planned inside origin x inner kind => ?_
  · have placed := (reads.main p start found).2.1
    refine mem_append_left _ ?_
    simp [graph, found, placed.id]
  · rcases origin with ⟨start, found, -⟩ | ⟨h, listed, rfl⟩
    · exact absurd kind (by simp [p.reads_low _ _ _ (reads.main p start found).1 x inner])
    · obtain ⟨-, -, operandsRead, bodyReads, otherwiseReads, -⟩ := planned
      rcases (mem_blocks h.block x h.operands h.body h.otherwise .nil).mp inner with rfl | inside | inside |
        inside | inside
      · exact mem_append_right _ (mem_map_of_mem listed)
      · exact absurd kind (by simp [x.kind.value_low (operands_values operandsRead x inside)])
      · exact absurd kind (by simp [h.body.reads_low _ _ _ bodyReads x inside])
      · exact absurd kind (by simp [h.otherwise.reads_low _ _ _ otherwiseReads x inside])
      · cases inside

theorem graph_linked : bp.graph.Linked := by
  have formed := bp.graph_well_formed reads
  have distinct : (bp.graph.blocks.toList.flatMap targets ++ bp.graph.roots).Nodup :=
    formed.targeted.nodup_iff.mpr nodup_range'
  obtain ⟨each, -, disjoint⟩ := nodup_append'.mp distinct
  have block : ∀ id l, bp.graph.links? id = some l → ∃ b, bp.graph.block? id = some b ∧ b ∈ bp.blocks ∧ b.id = id ∧
      b.links = l := by
    intro id l found
    obtain ⟨b, here, rfl⟩ := Option.map_eq_some_iff.mp found
    exact ⟨b, here, (bp.block_own reads here).1, (bp.block_own reads here).2, rfl⟩
  refine ⟨fun id l found => ?_, fun id l x found leads => ?_, fun id l x y found leads same =>
    ?_, fun id l x found leads => ?_⟩
  all_goals
    obtain ⟨b, here, mem, rfl, rfl⟩ := block id l found
    have listed : b ∈ bp.graph.blocks.toList := bp.mem_graph ▸ mem
    try rw [links_exit] at leads
  · rfl
  · obtain ⟨m, target, parent⟩ := formed.linked b listed x leads
    obtain ⟨inside, own⟩ := bp.block_own reads target
    refine ⟨m.links, by rw [links_exit, Graph.links?, target, Option.map_some], parent, ?_⟩
    rw [← Bool.not_eq_true]
    intro top
    exact disjoint (mem_flatMap.mpr ⟨b, listed, own ▸ b.exit_target leads⟩) (bp.top_root reads m inside top)
  · exact b.exits_apart ((nodup_flatMap.mp each).1 b listed) x y leads (by simpa using same)
  · rw [links_exit]
    exact bp.graph_ahead reads b mem x leads

theorem graph_rooted : bp.graph.Rooted := by
  refine ⟨?_, fun id mem => ?_⟩
  · cases found : bp.main with
    | none => exact .inl (by simp [graph, found])
    | some whole =>
      obtain ⟨p, start⟩ := whole
      refine .inr ⟨start.links, ?_, congrArg Content.kind (reads.main p start found).2.2⟩
      rw [Graph.links?, (bp.main_in reads found).1, Option.map_some]
  · obtain ⟨h, listed, rfl⟩ := mem_map.mp mem
    refine ⟨h.block.links, ?_, handler_kind _ _ reads.handlers h listed⟩
    rw [Graph.links?, (in_cons _ _ _ _ _ _ (bp.handler_in reads h listed)).found, Option.map_some]

end Blueprint

theorem Document.orderly_of_node {document : Markup.Node} (read : Document.ofNode document = .ok g) : g.Orderly := by
  obtain ⟨bp, reads, rfl⟩ := Document.of_node_reads read
  exact ⟨bp.graph_linked reads, bp.graph_rooted reads⟩

-- A graph that has been loaded is a forest.
theorem loaded_well_formed (document : Markup.Node) (g : Graph) (read : Document.ofNode document = .ok g) :
    g.WellFormed := by
  obtain ⟨bp, reads, rfl⟩ := Document.of_node_reads read
  exact bp.graph_well_formed reads

def nestedText : String :=
  "main:\n- \x7bvar: x, type: int\x7d\n- for: i\n  step: 1\n  start: \x7bref: x\x7d\n" ++
    "  until: \x7bgt: [\x7bref: i\x7d, 3]\x7d\n  do:\n" ++
    "  - if: \x7blt: [\x7bref: i\x7d, \x7bref: x\x7d]\x7d\n    then: [\x7bprint: \x7bref: i\x7d\x7d]\n" ++
    "    else: [\x7bset: \x7bref: x\x7d, to: 2\x7d]\n" ++
    "handlers:\n- when: \x7binterrupt: tick\x7d\n  do: [\x7bprint: \x7bref: x\x7d\x7d]\n"

set_option maxRecDepth 10000 in
theorem nested_loads : ∃ g, Document.load nestedText = .ok g ∧ g.size = 21 ∧ g.roots = [17, 18] ∧
    (g.walk 17).map Block.id = [17, 1, 2, 4, 3, 5, 6, 7, 8, 9, 10, 11, 12, 13, 14, 15, 16] := by
  have shown : (Document.load nestedText).toOption.map (fun g => (g.size, g.roots, (g.walk 17).map Block.id)) =
      some (21, [17, 18], [17, 1, 2, 4, 3, 5, 6, 7, 8, 9, 10, 11, 12, 13, 14, 15, 16]) := by decide +kernel
  obtain ⟨g, loaded, shown⟩ := Option.map_eq_some_iff.mp shown
  cases read : Document.load nestedText with
  | error fault =>
    rw [read] at loaded
    cases loaded
  | ok g' =>
    rw [read] at loaded
    cases loaded
    simpa using shown

theorem nested_program_well_formed : ∃ g, Document.load nestedText = .ok g ∧ g.size = 21 ∧ g.roots = [17, 18] ∧
    (g.walk 17).map Block.id = [17, 1, 2, 4, 3, 5, 6, 7, 8, 9, 10, 11, 12, 13, 14, 15, 16] ∧ g.WellFormed := by
  obtain ⟨g, loaded, size, roots, walk⟩ := nested_loads
  obtain ⟨document, -, read⟩ := Document.load_node loaded
  exact ⟨g, loaded, size, roots, walk, loaded_well_formed document g read⟩

end Blockwork
