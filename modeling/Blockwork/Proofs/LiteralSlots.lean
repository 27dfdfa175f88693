import Blockwork.Proofs.LiteralTexts
import Blockwork.Proofs.Rereading

set_option autoImplicit false

namespace Blockwork

open Outline

variable {type : ValueType} {payload : Payload} {b : Block}

open Markup (Node NodeList Scalar Place Spot plainScalar)

def Graph.inSlot? (g : Graph) (block : BlockId) (slot : Slot) : Option Block :=
  (g.block? block).bind fun b => g.slotBlock? b slot

namespace Document

-- What is written in a slot is read as an operand, but an integer for an index is taken as it is.
def readSlot (operand : Node → Loading BlockId) (block : BlockId) (slot : Slot) (n : Node) : Loading Unit :=
  if slot = .index ∧ n.isInteger = true then
    match n.integer? with
    | some i => do
      if i < 0 then fail n .badIndex
      onGraph (·.modify block fun b => { b with litIndex := some i })
    | none => fail n .badIndex
  else fill operand block slot n

theorem element_slots (operand : Node → Loading BlockId) (n vector index : Node) (place : Markup.Place) :
    element operand n (.list place (.cons vector (.cons index .nil))) = (do
      let block ← add .element n id
      readSlot operand block .vector vector
      readSlot operand block .index index
      return block) := by
  unfold element readSlot
  cases index with
  | scalar place s =>
    by_cases integer : s.tag = .integer
    · simp only [Node.isInteger, integer, Node.integer?, Node.scalar?, Option.bind_some, decide_true, and_true, if_true,
        reduceCtorEq, false_and, if_false]
      congr 1
      funext block
      congr 1
      funext _
      cases s.integer? with
      | none => simp
      | some i => by_cases negative : i < 0 <;> simp [negative]
    · simp [Node.isInteger, integer]
  | _ => rfl

section Filling

variable (operand : Node → Loading BlockId) (block : BlockId) (slot : Slot) (n : Node) (s s₁ : LoadState)
  (holder top : Block) (rest : List Block) (here : s.graph.block? block = some holder)
  (read : (operand n).run s = .ok (s.graph.size + 1, s₁)) (grown : s₁.graph = s.graph.append (top :: rest))
  (shown : n.isNull = false)

include here grown in
theorem set_slot_run : s₁.graph.setSlot block slot (s.graph.size + 1) =
    match holder.kind.accepts? slot with
    | none => .error (.noSlot block holder.kind slot.name)
    | some accepts =>
      if top.kind.category ≠ accepts then .error
        (.wrongFamily (s.graph.size + 1) holder.kind slot accepts top.kind.category)
      else .ok (s₁.graph.modify block fun b =>
        { b with slots := b.slots.filter (·.1 ≠ slot) ++ [(slot, s.graph.size + 1)] }) := by
  have inside := s.graph.block_inside here
  have found : s₁.graph.block? block = some holder := by rw [grown, s.graph.block_append_left _ inside, here]
  have child : s₁.graph.block? (s.graph.size + 1) = some top := by rw [grown, s.graph.block_head]
  unfold Graph.setSlot
  rw [found]
  dsimp only
  cases holder.kind.accepts? slot with
  | none => rfl
  | some accepts => simp only [child]

include here grown in
theorem in_slot_modified :
    (s₁.graph.modify block fun b =>
      { b with slots := b.slots.filter (·.1 ≠ slot) ++ [(slot, s.graph.size + 1)] }).inSlot?
      block slot = some top := by
  have inside := s.graph.block_inside here
  have found : s₁.graph.block? block = some holder := by rw [grown, s.graph.block_append_left _ inside, here]
  have child : s₁.graph.block? (s.graph.size + 1) = some top := by rw [grown, s.graph.block_head]
  have slotted :
    Block.slot { holder with slots := holder.slots.filter (·.1 ≠ slot) ++ [(slot, s.graph.size + 1)] } slot =
      s.graph.size + 1 := by
    have others : (holder.slots.filter (·.1 ≠ slot)).find? (·.1 = slot) = none := by
      rw [List.find?_eq_none]
      intro p mem
      simpa using (List.mem_filter.mp mem).2
    simp only [Block.slot, List.find?_append, others, Option.none_or]
    simp
  rw [Graph.inSlot?, Graph.block_modify, if_pos rfl, found, Option.map_some, Option.bind_some,
    Graph.slotBlock?, slotted, Graph.block_modify, if_neg (by omega), child]

include here read grown shown in
theorem fill_takes (fits : holder.kind.accepts? slot = some top.kind.category) :
    ∃ s', (fill operand block slot n).run s = .ok ((), s') ∧ s'.graph.inSlot? block slot = some top := by
  refine ⟨{ s₁ with graph := s₁.graph.modify block fun b =>
    { b with slots := b.slots.filter (·.1 ≠ slot) ++ [(slot, s.graph.size + 1)] } }, ?_,
    in_slot_modified block slot s s₁ holder top rest here grown⟩
  have set := set_slot_run block slot s s₁ holder top rest here grown
  rw [fits] at set
  dsimp only at set
  rw [if_neg (by simp)] at set
  unfold fill
  rw [if_neg (by simp [shown])]
  refine run_bind_ok.mpr ⟨_, _, read, run_bind_ok.mpr ⟨s₁, s₁, rfl, ?_⟩⟩
  rw [set]
  rfl

include here read grown shown in
theorem fill_took {s' : LoadState} (run : (fill operand block slot n).run s = .ok ((), s')) :
    holder.kind.accepts? slot = some top.kind.category ∧ s'.graph.inSlot? block slot = some top := by
  have set := set_slot_run block slot s s₁ holder top rest here grown
  unfold fill at run
  rw [if_neg (by simp [shown])] at run
  obtain ⟨child, s₂, read', run⟩ := run_bind_ok.mp run
  rw [read] at read'
  cases read'
  obtain ⟨_, _, got, run⟩ := run_bind_ok.mp run
  cases got
  rw [set] at run
  cases accepts : holder.kind.accepts? slot with
  | none =>
    rw [accepts] at run
    cases run
  | some family =>
    rw [accepts] at run
    dsimp only at run
    by_cases other : top.kind.category ≠ family
    · rw [if_pos other] at run
      cases run
    · rw [if_neg other] at run
      cases run
      exact ⟨by rw [not_not.mp other], in_slot_modified block slot s s₁ holder top rest here grown⟩

end Filling

theorem long_read (s : Scalar) (payload : Payload) (read : literalOf none s = .ok (payload, .long)) :
    s.tag = .integer ∧ s.integer?.isSome = true := by
  unfold literalOf at read
  dsimp only at read
  cases tag : s.tag <;> simp only [tag] at read
  case integer =>
    refine ⟨rfl, ?_⟩
    cases value : s.integer? with
    | none => simp [value] at read
    | some n => rfl
  case truth =>
    cases value : s.truth? <;> simp [value] at read
  case number =>
    cases value : s.number? <;> simp [value] at read
  all_goals cases read

end Document

namespace Outline

open Document (literalOf long_read)

theorem zero_unsigned (wanted : Option ValueType) (given : wanted = none ∨ wanted = some type)
    (numeric : type.isNumeric = true) :
    literalOf wanted (plainScalar (numberText .negZero)) ≠ .ok (.number .negZero, type) := by
  have facts : (plainScalar (numberText .negZero)).tag = .integer ∧
    (plainScalar (numberText .negZero)).integer? = some 0 ∧
      (plainScalar (numberText .negZero)).number? = some (.finite 0) := by decide
  obtain ⟨tag, integer, number⟩ := facts
  have zero : Number.ofInt 0 = .finite 0 := by decide
  have scalar : type ≠ .string ∧ type ≠ .bool := by
    refine ⟨?_, ?_⟩ <;> rintro rfl <;> cases numeric
  rcases given with rfl | rfl
  · simp [literalOf, tag, integer, zero]
  · simp [literalOf, tag, number, scalar.1, scalar.2, numeric]

-- Rounding keeps the order, so a number past two to the sixty-third is written in digits past it.
theorem beyond_text (z : ℤ) (exact : Number.IsExact z) (beyond : 2 ^ 63 < |z|) : ∃ n : ℕ, 2 ^ 63 < n ∧
    (numberText (.finite z)).toList = Markup.sign (decide ((z : ℚ) < 0)) ++ Nat.toDigits 10 n ∧
      (Markup.DecimalText.mk (decide ((z : ℚ) < 0)) (Nat.toDigits 10 n) [] 0).number? = some (.finite z) := by
  have nonzero : (z : ℚ) ≠ 0 := by
    intro zero
    rw [Int.cast_eq_zero.mp zero] at beyond
    norm_num at beyond
  have magnitude : |(z : ℚ)| = (z.natAbs : ℕ) := by simp [Nat.cast_natAbs]
  have positive := Int.natAbs_pos.mpr (Int.cast_ne_zero.mp nonzero)
  have exponent := Decimal.shortest_whole positive (magnitude ▸ Number.exact_abs z exact)
  rw [← magnitude] at exponent
  obtain ⟨n, written, nearest, least, most⟩ := Number.whole_text z nonzero exact exponent
  refine ⟨n, ?_, by rw [number_text_finite]; exact written,
    Number.digits_decimal z nonzero exact _ [] n (Markup.whole_value n) nearest least most⟩
  by_contra small
  have bound : Precision.double.nearest n ≤ Precision.double.nearest ((2 : ℚ) ^ 63) :=
    Precision.nearest_mono _ (by decide) _ _ (by exact_mod_cast not_lt.mp small)
  have fixed : Precision.double.nearest ((2 : ℚ) ^ 63) = 2 ^ 63 := by decide +kernel
  rw [fixed, nearest] at bound
  exact absurd beyond (not_lt.mpr (by exact_mod_cast bound))

theorem long_lost {z : ℤ} (exact : Number.IsExact z) (outside : ¬ (-2 ^ 63 < z ∧ z < 2 ^ 63)) :
    literalOf none (plainScalar (numberText (.finite z))) ≠ .ok (payload, .long) := by
  intro read
  obtain ⟨tag, value⟩ := long_read _ _ read
  rcases lt_trichotomy |z| (2 ^ 63) with inside | ends | beyond
  · exact outside (abs_lt.mp inside)
  · rcases (abs_eq (by norm_num)).mp ends with rfl | rfl
    · revert value
      decide +kernel
    · revert tag
      decide +kernel
  · obtain ⟨n, large, written, decimal⟩ := beyond_text z exact beyond
    cases fits : Markup.integer? (Markup.sign (decide ((z : ℚ) < 0)) ++ Nat.toDigits 10 n) with
    | none =>
      obtain ⟨other, -⟩ := Markup.large_scalar _ _ written fits decimal
      rw [other] at tag
      cases tag
    | some m =>
      obtain ⟨-, found⟩ := Markup.integer_scalar _ _ written fits
      have room : ¬ m < 0x8000000000000000 := by
        rw [Markup.integer_signed] at fits
        split_ifs at fits with negative small
        · omega
        · cases fits
          omega
      rw [Scalar.integer?, found] at value
      dsimp only [Option.bind_some] at value
      rw [if_neg room] at value
      cases value

theorem inferred_integer (z : ℤ) : inferred (.finite z) = if -2 ^ 31 ≤ z ∧ z < 2 ^ 31 then .int else .long := by
  have sides : ((z : ℚ) < -2 ^ 31 ∨ (2 : ℚ) ^ 31 - 1 < z) ↔ ¬ (-2 ^ 31 ≤ z ∧ z < 2 ^ 31) := by
    constructor
    · rintro (small | large) ⟨least, most⟩
      · exact absurd (by exact_mod_cast small : z < -2 ^ 31) (not_lt.mpr least)
      · have : (2 : ℤ) ^ 31 - 1 < z := by exact_mod_cast large
        omega
    · intro outside
      by_contra inside
      rw [not_or, not_lt, not_lt] at inside
      have low : (-2 ^ 31 : ℤ) ≤ z := by exact_mod_cast inside.1
      have high : z ≤ 2 ^ 31 - 1 := by exact_mod_cast inside.2
      exact outside ⟨low, by omega⟩
  rw [inferred_whole z (by simp)]
  simp only [sides]
  exact ite_not _ _ _

theorem integer_of_inferred {v : Number} (other : inferred v ≠ .double) (unsigned : v ≠ .negZero) : ∃ z :
    ℤ, v = .finite z := by
  cases v with
  | nan => exact absurd rfl other
  | posInf => exact absurd rfl other
  | negInf => exact absurd rfl other
  | negZero => exact absurd rfl unsigned
  | finite q =>
    by_cases whole : q.den = 1
    · exact ⟨q.num, by rw [Rat.coe_int_num_of_den_eq_one whole]⟩
    · refine absurd ?_ other
      unfold inferred
      rw [if_pos (by simp [Number.isWhole, whole])]

theorem literal_form (holds : b.payload = payload) (typed : b.type = some type) (valid : Literal payload type) :
    ∃ (wanted : Option ValueType) (s : Scalar),
      (wanted = none ∧ literal b = .scalar {} s ∨
        wanted = some type ∧ literal b = typedLiteral (.scalar {} s) (some type)) ∧
      (literalOf wanted s = .ok (payload, type) ↔ payload.Kept type) := by
  by_cases kept : payload.Kept type
  · obtain ⟨s, ⟨shown, read⟩ | ⟨shown, read⟩⟩ := literal_reads holds typed valid kept
    · exact ⟨none, s, .inl ⟨rfl, shown⟩, iff_of_true read kept⟩
    · exact ⟨some type, s, .inr ⟨rfl, shown⟩, iff_of_true read kept⟩
  · cases valid with
    | text s => exact absurd trivial kept
    | truth t => exact absurd trivial kept
    | character s single => exact absurd trivial kept
    | number v type numeric double =>
      unfold literal
      rw [holds, typed]
      dsimp only
      by_cases zero : v = .negZero ∧ type ≠ .double
      · obtain ⟨rfl, other⟩ := zero
        rw [if_neg (by simpa using other)]
        by_cases own : type = inferred .negZero
        · rw [if_pos (by rw [own])]
          exact ⟨none, _, .inl ⟨rfl, rfl⟩, iff_of_false (zero_unsigned none (.inl rfl) numeric) kept⟩
        · rw [if_neg (by simpa using own)]
          exact ⟨some type, _, .inr ⟨rfl, rfl⟩, iff_of_false (zero_unsigned _ (.inr rfl) numeric) kept⟩
      · obtain ⟨rfl, z, rfl, outside⟩ : type = .long ∧ ∃ z : ℤ, v = .finite z ∧ ¬ (-2 ^ 63 < z ∧ z < 2 ^ 63) := by
          by_contra fine
          refine kept ⟨fun same => ?_, fun long z same => ?_⟩
          · by_contra other
            exact zero ⟨same, other⟩
          · by_contra outside
            exact fine ⟨long, z, same, outside⟩
        have own : inferred (.finite z) = .long := by
          rw [inferred_integer, if_neg fun inside => outside ⟨by omega, by omega⟩]
        rw [if_neg (by decide), if_pos (by rw [own])]
        exact ⟨none, _, .inl ⟨rfl, rfl⟩, iff_of_false (long_lost (double z rfl) outside) kept⟩

end Outline

-- A literal that is written without its type in digits alone.
def Block.IsBareInteger (b : Block) : Prop :=
  ∃ z : ℤ, b.payload = .number (.finite z) ∧ b.type = some (if -2 ^ 31 ≤ z ∧ z < 2 ^ 31 then .int else .long)

namespace Outline

theorem literal_integer_iff (holds : b.payload = payload) (typed : b.type = some type) (valid : Literal payload type)
    (kept : payload.Kept type) : (literal b).isInteger = true ↔ b.IsBareInteger := by
  unfold literal Block.IsBareInteger
  rw [holds, typed]
  cases valid with
  | text s => simp [Node.isInteger, quoted]
  | truth t => cases t <;> simp [Node.isInteger, plain] <;> decide
  | character s single => simp [Node.isInteger, typedLiteral, flowMapping]
  | number v type numeric double =>
    dsimp only
    by_cases point : type = .double
    · subst point
      rw [if_pos rfl]
      refine iff_of_false (fun integer => ?_) ?_
      · obtain ⟨tag, -⟩ := double_reads double
        rw [show (plain (if (numberText v).contains '.' = true then numberText v else numberText v ++ ".0")).isInteger =
          decide ((plainScalar (doubleText v)).tag = .integer) from rfl, tag] at integer
        cases integer
      · rintro ⟨z, -, same⟩
        split_ifs at same <;> cases same
    · rw [if_neg (by simpa using point)]
      by_cases own : type = inferred v
      · rw [if_pos (by rw [own]), show (plain (numberText v)).isInteger =
          decide ((plainScalar (numberText v)).tag = .integer) from rfl, decide_eq_true_iff]
        obtain ⟨z, rfl⟩ := integer_of_inferred (own ▸ point) fun zero => point (kept.1 zero)
        rw [inferred_integer] at own
        refine iff_of_true ?_ ⟨z, rfl, congrArg some own⟩
        have inside : -2 ^ 63 < z ∧ z < 2 ^ 63 := by
          by_cases small : -2 ^ 31 ≤ z ∧ z < 2 ^ 31
          · exact ⟨by omega, by omega⟩
          · rw [if_neg small] at own
            exact kept.2 own z rfl
        obtain ⟨n, tag, -⟩ := whole_reads (double z rfl) (by simp) (by exact_mod_cast inside.1)
          (by exact_mod_cast inside.2)
        exact tag
      · rw [if_neg (by simpa using own)]
        refine iff_of_false (by simp [Node.isInteger, typedLiteral, flowMapping]) ?_
        rintro ⟨z, number, same⟩
        cases number
        rw [← inferred_integer] at same
        exact own (Option.some.inj same)

end Outline

-- The literals that are read back from a slot: only a `double` keeps the sign of zero, the digits of a `long` have to
-- be those of one, and digits alone are no literal for an index.
structure Block.ReadsBack (b : Block) (slot : Slot) : Prop where
  zero : b.payload = .number .negZero → b.type = some .double
  long : b.type = some .long → ∀ z : ℤ, b.payload = .number (.finite z) → -2 ^ 63 < z ∧ z < 2 ^ 63
  index : slot = .index → ¬ b.IsBareInteger

theorem Block.kept_iff (b : Block) (typed : b.type = some type) : b.payload.Kept type ↔
    (b.payload = .number .negZero → b.type = some .double) ∧
      (b.type = some .long → ∀ z : ℤ, b.payload = .number (.finite z) → -2 ^ 63 < z ∧ z < 2 ^ 63) := by
  rw [typed]
  cases b.payload <;> simp [Payload.Kept]

namespace Document

variable {block : BlockId} {slot : Slot} {n : Node} {names : Names} {wanted : Option ValueType} {scalar : Scalar}

theorem index_taken {operand : Node → Loading BlockId} {s s' : LoadState} (vacant : s.graph.inSlot? block slot = none)
    (integer : slot = .index ∧ n.isInteger = true) (run : (readSlot operand block slot n).run s = .ok ((), s')) :
    s'.graph.inSlot? block slot = none := by
  unfold readSlot at run
  rw [if_pos integer] at run
  split at run
  · next i _ =>
      have changed : s'.graph = s.graph.modify block fun b => { b with litIndex := some i } := by
        split_ifs at run
        · obtain ⟨_, _, failed, -⟩ := run_bind_ok.mp run
          cases failed
        · cases run
          rfl
      rw [changed, Graph.inSlot?, Graph.block_modify, if_pos rfl]
      unfold Graph.inSlot? at vacant
      cases here : s.graph.block? block with
      | none => rfl
      | some b =>
        rw [here, Option.bind_some] at vacant
        have same : Block.slot { b with litIndex := some i } slot = b.slot slot := rfl
        rw [Option.map_some, Option.bind_some, Graph.slotBlock?, same, Graph.block_modify,
          show s.graph.block? (b.slot slot) = none from vacant]
        exact ite_self _
  · cases run

theorem slot_read {fuel : Nat} {s s' : LoadState} {holder : Block} (known : s.Matches names)
    (here : s.graph.block? block = some holder) (vacant : s.graph.inSlot? block slot = none)
    (run : (readSlot (operand fuel) block slot n).run s = .ok ((), s'))
    (filled : s'.graph.inSlot? block slot = some b) :
    ¬ (slot = .index ∧ n.isInteger = true) ∧ n.isNull = false ∧ (fill (operand fuel) block slot n).run s =
      .ok ((), s') ∧ ∃ s₁ first second, (operand fuel n).run s = .ok (s.graph.size + 1, s₁) ∧
        s₁.graph = s.graph.append (b :: (first.blocks ++ second.blocks)) ∧ Expression names b.content first second ∧
          holder.kind.accepts? slot = some b.kind.category := by
  have operandRead : ¬ (slot = .index ∧ n.isInteger = true) := by
    intro integer
    rw [index_taken vacant integer run] at filled
    cases filled
  have filling := run
  unfold readSlot at filling
  rw [if_neg operandRead] at filling
  have shown : n.isNull = false := by
    by_contra null
    have same := filling
    unfold fill at same
    rw [if_pos (by simpa using null)] at same
    cases same
    rw [vacant] at filled
    cases filled
  have parts := filling
  unfold fill at parts
  rw [if_neg (by simp [shown])] at parts
  obtain ⟨child, s₁, read, -⟩ := run_bind_ok.mp parts
  obtain ⟨t, present, rfl, reads, grown, -⟩ := reads_operand fuel n s child s₁ names known read
  cases t with
  | missing => cases present
  | node top first second =>
    obtain ⟨fits, took⟩ := fill_took (operand fuel) block slot n s s₁ holder top _ here read grown shown filling
    rw [took] at filled
    cases filled
    exact ⟨operandRead, shown, filling, s₁, first, second, read, grown, reads.2.1, fits⟩

theorem literal_run (s : LoadState) (place : Place) (read : literalOf wanted scalar = .ok (payload, type)) :
    ∃ s₁ c, (literal wanted (.scalar place scalar)).run s = .ok (s.graph.size + 1, s₁) ∧
      s₁.graph = s.graph.append [c] ∧ c.kind = .literal ∧ c.payload = payload ∧ c.type = some type := by
  unfold literal
  dsimp only
  rw [read]
  dsimp only
  rw [run_add, Graph.add_eq]
  exact ⟨_, _, rfl, rfl, rfl, rfl, rfl⟩

theorem literal_ran {s s₁ : LoadState} {place : Place} {c : Block} {rest : List Block}
    (run : (literal wanted (.scalar place scalar)).run s = .ok (s.graph.size + 1, s₁))
    (grown : s₁.graph = s.graph.append (c :: rest)) :
    ∃ type, c.type = some type ∧ literalOf wanted scalar = .ok (c.payload, type) := by
  cases read : literalOf wanted scalar with
  | error fault =>
    unfold literal at run
    dsimp only at run
    rw [read] at run
    cases run
  | ok pair =>
    obtain ⟨payload, type⟩ := pair
    obtain ⟨s₂, c', run', grown', -, rfl, own⟩ := literal_run s place read
    rw [run] at run'
    cases run'
    have first := s.graph.block_head c rest
    rw [← grown, grown', s.graph.block_head] at first
    cases first
    exact ⟨type, own, rfl⟩

theorem literal_said {first second : Term} (saying : Expression names b.content first second)
    (kind : b.kind = .literal) :
    ∃ type, b.type = some type ∧ Literal b.payload type := by
  generalize content : b.content = stated at saying
  cases saying with
  | literal payload type valid =>
    refine ⟨type, congrArg Content.type content, ?_⟩
    rw [show b.payload = payload from congrArg Content.payload content]
    exact valid
  | reference e found named =>
    have other : b.kind = _ := congrArg Content.kind content
    rw [kind] at other
    dsimp only at other
    split_ifs at other
  | operation own c first second slots =>
    have other : b.kind = own := congrArg Content.kind content
    rw [← other, kind] at slots
    cases slots
  | _ =>
    have other : b.kind = _ := congrArg Content.kind content
    rw [kind] at other
    cases other

-- What the text of a literal is read as, wherever it stands.
theorem text_read (spot : Spot) (fuel : Nat) (valid : Literal payload type) (written : scalar.IsWritten)
    (form : wanted = none ∧ Outline.literal b = .scalar {} scalar ∨
      wanted = some type ∧ Outline.literal b = Outline.typedLiteral (.scalar {} scalar) (some type)) :
    ∃ (m : Node) (place : Place), spot.read? (flowText (Outline.literal b)) = some m ∧
      operand (fuel + 1) m = literal wanted (.scalar place scalar) ∧ m.isNull = (Outline.literal b).isNull ∧
        m.isInteger = (Outline.literal b).isInteger := by
  rcases form with ⟨rfl, shown⟩ | ⟨rfl, shown⟩
  · obtain ⟨place, read⟩ := spot.reads_scalar written
    rw [shown, Outline.scalar_text]
    exact ⟨_, place, read, rfl, rfl, rfl⟩
  · obtain ⟨y, named, whole⟩ := Outline.type_scalar valid
    obtain ⟨p, q, r, t, u, read⟩ := spot.reads_typed written whole
    have text : (Node.scalar u y).ownText = type.text := by rw [← type_own_text, named]; rfl
    rw [shown, Outline.typed_text scalar y named]
    exact ⟨_, r, read, typed_literal (operand fuel) scalar p q r t text valid.readable, rfl, rfl⟩

-- A literal that has been read into a slot is read back from the text that is written for it exactly if the text can
-- tell it, wherever the text stands.
theorem literal_reads_back_iff (fuel : Nat) (block : BlockId) (slot : Slot) (n : Node) (s s' : LoadState)
    (names : Names)
    (holder b : Block) (spot : Spot) (known : s.Matches names) (here : s.graph.block? block = some holder)
    (vacant : s.graph.inSlot? block slot = none) (run : (readSlot (operand fuel) block slot n).run s = .ok ((), s'))
    (filled : s'.graph.inSlot? block slot = some b) (kind : b.kind = .literal) :
    (∃ m t c, spot.read? (flowText (Outline.literal b)) = some m ∧
      (readSlot (operand fuel) block slot m).run s = .ok ((), t) ∧ t.graph.inSlot? block slot = some c ∧
        c.kind = .literal ∧ c.payload = b.payload ∧ c.type = b.type) ↔ b.ReadsBack slot := by
  obtain ⟨-, -, -, s₁, first, second, read, -, saying, fits⟩ :=
    slot_read known here vacant run filled
  obtain ⟨fuel, rfl⟩ : ∃ f, fuel = f + 1 := by
    cases fuel with
    | zero => cases read
    | succ f => exact ⟨f, rfl⟩
  obtain ⟨type, typed, valid⟩ := literal_said saying kind
  obtain ⟨wanted, scalar, form, kept⟩ := literal_form rfl typed valid
  have written := literal_written rfl typed valid (form.imp And.right And.right)
  obtain ⟨m, place, taken, reader, null, integer⟩ := text_read spot fuel valid written form
  constructor
  · rintro ⟨_, t, c, taken', again, found, -, value, own⟩
    cases taken.symm.trans taken'
    obtain ⟨plain, -, -, s₂, first, second, read, grown, -, -⟩ :=
      slot_read known here vacant again found
    rw [reader] at read
    obtain ⟨type', typed', ran⟩ := literal_ran read grown
    have same : type' = type := Option.some.inj (typed'.symm.trans (own.trans typed))
    rw [value, same] at ran
    have whole := kept.mp ran
    obtain ⟨zero, long⟩ := (b.kept_iff typed).mp whole
    refine ⟨zero, long, fun index bare => plain ⟨index, ?_⟩⟩
    rw [integer, literal_integer_iff rfl typed valid whole]
    exact bare
  · intro back
    have whole := (b.kept_iff typed).mpr ⟨back.zero, back.long⟩
    have read := kept.mpr whole
    obtain ⟨s₂, c, added, grown, literal, value, own⟩ := literal_run s place read
    rw [← reader] at added
    have shown : m.isNull = false := by
      rw [null]
      rcases form with ⟨rfl, shown⟩ | ⟨rfl, shown⟩
      · rw [shown]
        simpa [Node.isNull] using literal_shown read
      · rw [shown]
        rfl
    obtain ⟨t, again, found⟩ := fill_takes (operand (fuel + 1)) block slot _ s s₂ holder c [] here added grown shown
      (by rw [literal, ← kind, fits])
    refine ⟨m, t, c, taken, ?_, found, literal, value, own.trans typed.symm⟩
    unfold readSlot
    rw [if_neg]
    · exact again
    · rintro ⟨index, bare⟩
      rw [integer, literal_integer_iff rfl typed valid whole] at bare
      exact back.index index bare

def loneBlock (kind : Kind) : LoadState := { graph := { blocks := #[{ id := 1, kind }] } }

def literalIn? (kind : Kind) (slot : Slot) (n : Node) : Option Block :=
  ((readSlot (operand 1) 1 slot n).run (loneBlock kind)).toOption.bind fun r => r.2.graph.inSlot? 1 slot

def typedIndex : Node := Outline.typedLiteral (Outline.plain "3") (some .long)

theorem typed_index_read : (literalIn? .element .index typedIndex).map (fun b => (b.kind, b.payload, b.type)) =
    some (.literal, .number (.finite 3), some .long) := by
  decide +kernel

theorem typed_index_reads_back : ∃ (s' : LoadState) (b : Block),
    (readSlot (operand 1) 1 .index typedIndex).run (loneBlock .element) = .ok ((), s') ∧
      s'.graph.inSlot? 1 .index = some b ∧ b.kind = .literal ∧ b.payload = .number (.finite 3) ∧ b.type = some .long ∧
      ∃ m t c, Spot.item.read? (flowText (Outline.literal b)) = some m ∧
        (readSlot (operand 1) 1 .index m).run (loneBlock .element) = .ok ((), t) ∧
          t.graph.inSlot? 1 .index = some c ∧ c.kind = .literal ∧ c.payload = b.payload ∧ c.type = b.type := by
  obtain ⟨b, taken, facts⟩ := Option.map_eq_some_iff.mp typed_index_read
  obtain ⟨⟨u, s'⟩, got, filled⟩ := Option.bind_eq_some_iff.mp taken
  simp only [Prod.mk.injEq] at facts
  obtain ⟨kind, payload, type⟩ := facts
  have run : (readSlot (operand 1) 1 .index typedIndex).run (loneBlock .element) = .ok ((), s') := by
    cases result : (readSlot (operand 1) 1 .index typedIndex).run (loneBlock .element) with
    | error fault =>
      rw [result] at got
      cases got
    | ok pair =>
      rw [result] at got
      cases got
      rfl
  have known : (loneBlock .element).Matches { frames := [], declared := [] } :=
    ⟨rfl, rfl, fun e member => by cases member⟩
  have three : ∀ z : ℤ, b.payload = .number (.finite z) → z = 3 := by
    intro z whole
    rw [payload] at whole
    have same : (z : ℚ) = 3 := by simpa using whole.symm
    exact_mod_cast same
  refine ⟨s', b, run, filled, kind, payload, type,
    (literal_reads_back_iff 1 1 .index typedIndex _ s' _ { id := 1, kind := .element } b .item known rfl rfl run filled
      kind).mpr ?_⟩
  refine ⟨fun zero => ?_, fun _ z whole => ?_, fun _ bare => ?_⟩
  · rw [payload] at zero
    cases zero
  · rw [three z whole]
    norm_num
  · obtain ⟨z, whole, typed⟩ := bare
    rw [type, three z whole] at typed
    revert typed
    decide

-- The literal that a text puts in a slot, what is written for it, and the literal that this puts there.
def rewritten (spot : Spot) (kind : Kind) (slot : Slot) (text : String) : Option (Block × String × Option Block) :=
  ((spot.read? text).bind (literalIn? kind slot)).map fun b =>
    (b, flowText (Outline.literal b), (spot.read? (flowText (Outline.literal b))).bind (literalIn? kind slot))

-- The greatest `long` is not read at all when it has been written, a zero loses its sign, and an index is no literal
-- any more.
theorem literals_lost :
    ((rewritten .value .print .value "9223372036854775807").map fun (b, text, again) =>
        (b.kind, b.payload, b.type, text, again.isSome)) =
      some (.literal, .number (.finite (2 ^ 63)), some .long, "9223372036854776000", false) ∧
    ((rewritten .value .print .value "\x7blit: -0.0, type: int\x7d").map fun (b, text, again) =>
        (b.kind, b.payload, b.type, text, again.map Block.payload)) =
      some (.literal, .number .negZero, some .int, "-0", some (.number (.finite 0))) ∧
    ((rewritten .item .element .index "\x7blit: -1, type: int\x7d").map fun (b, text, again) =>
        (b.kind, b.payload, b.type, text, again.isSome)) =
      some (.literal, .number (.finite (-1)), some .int, "-1", false) := by
  refine ⟨?_, ?_, ?_⟩ <;> decide +kernel

end Document

end Blockwork
