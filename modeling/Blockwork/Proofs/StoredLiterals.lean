import Blockwork.Proofs.AnalysisSound
import Blockwork.Proofs.Forest
import Blockwork.Proofs.GuardRemoval
import Blockwork.Proofs.MixedWidths
import Blockwork.Proofs.NumberTexts

set_option autoImplicit false

namespace Blockwork

open Document List Number Precision Primitive

variable {text : String} {g : Graph} {next : Nat}

-- What an assignment of digits leaves in a variable of an integer type.
def Primitive.stored (p : Primitive) (digits : String) : Option Int := digits.toInt?.map p.convert

-- The numbers that a variable of an integer type holds after they have been written out: those of the type, for `long`
-- only those that are written with all their digits.
def Primitive.Keeps (p : Primitive) (v : Number) : Prop :=
  ∃ n : Int, v.toRat? = some (n : ℚ) ∧ p.Holds n ∧ (p = .long → v.plainText.toInt? = some n)

section Rounded

variable (w n : ℤ) (rounds : Precision.double.nearest w = n)

include rounds

theorem rounded_below {bound : ℚ} (fixed : double.nearest bound = bound) (small : |(n : ℚ)| < bound) :
    |(w : ℚ)| < bound := by
  obtain ⟨low, high⟩ := abs_lt.mp small
  rw [abs_lt]
  constructor
  · by_contra below
    have order := nearest_mono .double (by decide) _ _ (not_lt.mp below)
    rw [nearest_neg, fixed, rounds] at order
    exact absurd low (not_lt.mpr order)
  · by_contra above
    have order := nearest_mono .double (by decide) _ _ (not_lt.mp above)
    rw [fixed, rounds] at order
    exact absurd high (not_lt.mpr order)

theorem rounded_small (small : |n| < 2 ^ 53) : w = n := by
  have fixed : double.nearest ((2 : ℚ) ^ 53) = 2 ^ 53 := by decide +kernel
  have inside := rounded_below w n rounds fixed (by exact_mod_cast small)
  rw [Outline.nearest_int w (by exact_mod_cast inside.le)] at rounds
  exact_mod_cast rounds

theorem rounded_sign : (0 ≤ w → 0 ≤ n) ∧ (w ≤ 0 → n ≤ 0) := by
  constructor
  · intro nonneg
    have := nearest_nonneg .double w (by exact_mod_cast nonneg)
    rw [rounds] at this
    exact_mod_cast this
  · intro nonpos
    have := nearest_nonneg .double (-w) (by exact_mod_cast neg_nonneg.mpr nonpos)
    rw [nearest_neg, rounds] at this
    have : (0 : ℤ) ≤ -n := by exact_mod_cast this
    omega

-- Digits within two to the sixty-fourth of the number they stand for wrap to it only if they are its own.
theorem stored_long (holds : long.Holds n) : long.convert w = n ↔ w = n := by
  constructor
  · intro wrapped
    have fixed : double.nearest ((2 : ℚ) ^ 64) = 2 ^ 64 := by decide +kernel
    simp only [Primitive.Holds, lowest, highest, bits] at holds
    have magnitude : |n| < 2 ^ 64 := abs_lt.mpr ⟨by omega, by omega⟩
    have inside : |w| < 2 ^ 64 := by
      have := rounded_below w n rounds fixed (by exact_mod_cast magnitude)
      exact_mod_cast this
    obtain ⟨low, high⟩ := abs_lt.mp inside
    obtain ⟨nonneg, nonpos⟩ := rounded_sign w n rounds
    obtain ⟨k, apart⟩ : ((2 ^ 64 : ℕ) : ℤ) ∣ w - n := wrapped ▸ Int.dvd_self_sub_bmod
    push_cast at apart
    omega
  · rintro rfl
    exact long.convert_holds rfl holds

theorem stored_kept {p : Primitive} (integral : p.isIntegral = true) :
    p.convert w = n ↔ p.Holds n ∧ (p = .long → w = n) := by
  constructor
  · intro wrapped
    have holds : p.Holds n := wrapped ▸ p.convert_within integral w
    refine ⟨holds, ?_⟩
    rintro rfl
    exact (stored_long w n rounds holds).mp wrapped
  · rintro ⟨holds, exactly⟩
    by_cases wide : p = .long
    · rw [exactly wide]
      exact p.convert_holds integral holds
    · have small : |n| < 2 ^ 53 := by
        cases p with
        | byte | int =>
          simp only [Primitive.Holds, lowest, highest, bits] at holds
          exact abs_lt.mpr ⟨by omega, by omega⟩
        | long => exact absurd rfl wide
        | _ => cases integral
      rw [rounded_small w n rounds small]
      exact p.convert_holds integral holds

end Rounded

namespace Number

theorem integer_text (n : ℤ) (exact : IsExact n) :
    ∃ w : ℤ, (finite n).plainText.toInt? = some w ∧ double.nearest w = n := by
  by_cases zero : n = 0
  · rw [zero]
    exact ⟨0, (finite (0 : ℤ)).integer_digits 0 rfl (.inl (by decide)), by decide⟩
  · have nonzero : (n : ℚ) ≠ 0 := by exact_mod_cast zero
    have magnitude : |(n : ℚ)| = (n.natAbs : ℕ) := by simp [Nat.cast_natAbs]
    have whole := Decimal.shortest_whole (Int.natAbs_pos.mpr zero) (magnitude ▸ exact_abs n exact)
    rw [← magnitude] at whole
    obtain ⟨k, written, nearest, -, -⟩ := whole_text n nonzero exact whole
    by_cases negative : (n : ℚ) < 0
    · refine ⟨-k, ?_, ?_⟩
      · have text : (finite n).plainText = "-" ++ k.repr := by
          rw [← String.toList_inj, written]
          simp [negative, Markup.sign, Nat.repr_eq_ofList_toDigits]
        rw [text, String.toInt?_minus_append, Nat.toNat?_repr]
        rfl
      · rw [abs_of_neg negative] at nearest
        push_cast
        rw [nearest_neg, nearest, neg_neg]
    · refine ⟨k, ?_, ?_⟩
      · have text : (finite n).plainText = (k : ℤ).repr := by
          rw [← String.toList_inj, written]
          simp [negative, Markup.sign, Int.repr_eq_if, Nat.repr_eq_ofList_toDigits]
        rw [text, Int.toInt?_repr]
      · rw [abs_of_nonneg (not_lt.mp negative)] at nearest
        exact_mod_cast nearest

theorem whole_written (v : Number) (double : v.IsDouble) (whole : v.isWhole = true) :
    (∃ n w : ℤ, v.toRat? = some (n : ℚ) ∧ v.plainText.toInt? = some w ∧ Precision.double.nearest w = n) ∨
      v = .negInf ∨ v = .posInf := by
  cases v with
  | nan => cases whole
  | negInf => exact .inr (.inl rfl)
  | posInf => exact .inr (.inr rfl)
  | negZero => exact .inl ⟨0, 0, rfl, negZero.integer_digits 0 rfl (.inl (by decide)), by decide⟩
  | finite q =>
    have integer : (q.num : ℚ) = q := (Rat.den_eq_one_iff q).mp (by simpa [isWhole] using whole)
    obtain ⟨w, written, nearest⟩ := integer_text q.num (by rw [integer]; exact double q rfl)
    rw [integer] at written
    exact .inl ⟨q.num, w, congrArg some integer.symm, written, nearest⟩

end Number

section

variable (A : Arithmetic) (env : String → Value) (r : Reference) (v : Number) (z : ℤ)
  (held : env r.name = .number (.finite z))

include held

theorem Expr.equality_truth {q : Quantity} (quantity : v.quantity? = some q) :
    (Expr.eq (.ref r) (.num v)).truth? A env = some true ↔ Quantity.finite z = q := by
  simp [Expr.truth?, BinaryOp.ordering?, Expr.order?, Expr.value?, held, quantity, Value.beside, Expr.isText,
    Value.order?]

theorem Primitive.equality_stored (p : Primitive) (integral : p.isIntegral = true) (double : v.IsDouble)
    (whole : v.isWhole = true)
    (stored : p.stored v.plainText = some z) : (Expr.eq (.ref r) (.num v)).truth? A env = some true ↔ p.Keeps v := by
  rcases v.whole_written double whole with ⟨n, w, value, written, rounds⟩ | infinite
  · have quantity : v.quantity? = some (.finite n) := by
      cases v with
      | finite q =>
        cases value
        rfl
      | negZero =>
        have none : n = 0 := by exact_mod_cast (Option.some.inj value).symm
        rw [none]
        rfl
      | _ => cases value
    have left : z = p.convert w := by simpa [Primitive.stored, written] using stored.symm
    rw [Expr.equality_truth A env r v z held quantity, left]
    constructor
    · intro same
      have same : p.convert w = n := by exact_mod_cast Quantity.finite.inj same
      obtain ⟨holds, exactly⟩ := (stored_kept w n rounds integral).mp same
      exact ⟨n, value, holds, fun wide => by rw [written, exactly wide]⟩
    · rintro ⟨m, value', holds, exactly⟩
      obtain rfl : m = n := by
        rw [value] at value'
        exact_mod_cast (Option.some.inj value').symm
      rw [(stored_kept w m rounds integral).mpr ⟨holds, fun wide => ?_⟩]
      exact Option.some.inj (written.symm.trans (exactly wide))
  · have undefined : ¬ p.Keeps v := by
      rintro ⟨m, value, -⟩
      rcases infinite with rfl | rfl <;> cases value
    refine ⟨fun holds => ?_, fun keeps => absurd keeps undefined⟩
    rcases infinite with rfl | rfl
    · have same := (Expr.equality_truth A env r _ z held rfl).mp holds
      cases same
    · have same := (Expr.equality_truth A env r _ z held rfl).mp holds
      cases same

end

def HasLine (pieces : List Piece) (text : String) : Prop := ∃ depth, Piece.line depth text ∈ pieces

theorem has_line_append {before after : List Piece} :
    HasLine (before ++ after) text ↔ HasLine before text ∨ HasLine after text := by
  simp [HasLine, exists_or]

theorem has_line_enclosing {guards : List Piece} {opening : String} {body : List Piece} {closing : String}
    (has : HasLine body text) : HasLine (enclosing guards opening body closing) text := by
  obtain ⟨depth, mem⟩ := has
  exact ⟨depth + 1, by simp only [enclosing, mem_append, mem_map]; exact .inl (.inr ⟨_, mem, rfl⟩)⟩

def Graph.Assigns (g : Graph) (b : Block) (text : String) : Prop :=
  ∃ inHandler value target, g.Compiled inHandler b .value value ∧ g.Compiled inHandler b .var target ∧
    target.type = value.type ∧ text = target.code ++ " = " ++ value.within .assignment true ++ ";"

def Graph.AssignsIn (g : Graph) (b : Block) (pieces : List Piece) : Prop :=
  ∃ text, g.Assigns b text ∧ HasLine pieces text

theorem Graph.AssignsIn.mono {b : Block} {pieces more : List Piece} (assigns : g.AssignsIn b pieces)
    (within : ∀ text, HasLine pieces text → HasLine more text) : g.AssignsIn b more := by
  obtain ⟨text, written, has⟩ := assigns
  exact ⟨text, written, within text has⟩

section

variable (g : Graph) (b : Block) (kind : b.kind = .assign)

include kind

variable {inHandler : Bool} {checks : List Check}

theorem WrittenSimple.assigns {d : Draft} (written : WrittenSimple g inHandler b d checks) :
    g.AssignsIn b d.pieces := by
  cases written with
  | assignment value target kind compiled compiled' same =>
    exact ⟨_, ⟨inHandler, value, target, compiled, compiled', same, rfl⟩, 0, by simp⟩
  | declaration _ other | output _ other | input _ other =>
    rw [kind] at other
    cases other

theorem Written.assigns {c : Chain} {d : Draft} (written : Written g inHandler c d checks) (mem : b ∈ c.compiled) :
    g.AssignsIn b d.pieces := by
  have own : ∀ other : Block, other.kind ≠ .assign → b ≠ other := by
    rintro other unlike rfl
    exact unlike kind
  have enclosed : ∀ (guards body : List Piece) (opening closing : String) (later : List Piece), g.AssignsIn b body →
      g.AssignsIn b (enclosing guards opening body closing ++ later) := fun guards body opening closing later assigns =>
    assigns.mono fun text has => (has_line_append).mpr (.inl (has_line_enclosing has))
  have behind : ∀ first later : List Piece, g.AssignsIn b later → g.AssignsIn b (first ++ later) :=
    fun first later assigns =>
    assigns.mono fun text has => (has_line_append).mpr (.inr has)
  induction written with
  | nil => cases mem
  | simple first body otherwise rest draft later checks checks' simple following hyp =>
    have nested : (Chain.cons first body otherwise rest).compiled = first :: rest.compiled := by
      cases simple with
      | declaration _ kind | assignment _ _ kind | output _ kind | input _ kind => simp [Chain.compiled, kind]
    rw [nested] at mem
    rcases mem_cons.mp mem with rfl | mem
    · exact (simple.assigns g b kind).mono fun text has => (has_line_append).mpr (.inl has)
    · exact behind _ _ (hyp mem)
  | ifThen first body otherwise rest cond affirmed checks later checks' other compiled inner following hyp hyp' =>
    simp only [Chain.compiled, other, mem_cons, mem_append] at mem
    rcases mem with same | mem | mem
    · exact absurd same (own first (by simp [other]))
    · exact enclosed _ _ _ _ _ (hyp mem)
    · exact behind _ _ (hyp' mem)
  | ifElse first body otherwise rest cond affirmed denied checks checks' later checks'' other compiled inner inner'
    following hyp hyp' hyp'' =>
      simp only [Chain.compiled, other, mem_cons, mem_append] at mem
      rcases mem with same | (mem | mem) | mem
      · exact absurd same (own first (by simp [other]))
      · simp only [Draft.append, append_assoc]
        exact enclosed _ _ _ _ _ (hyp mem)
      · refine (hyp' mem).mono fun text has => ?_
        obtain ⟨depth, inside⟩ := has
        simp only [Draft.append, has_line_append]
        exact .inl (.inl (.inr ⟨depth + 1, mem_map.mpr ⟨_, inside, rfl⟩⟩))
      · exact behind _ _ (hyp'' mem)
  | whileLoop first body otherwise rest cond repeated checks later checks' other compiled inner following hyp hyp' =>
    simp only [Chain.compiled, other, mem_cons, mem_append] at mem
    rcases mem with same | mem | mem
    · exact absurd same (own first (by simp [other]))
    · refine enclosed _ _ _ _ _ ((hyp mem).mono fun text has => ?_)
      exact (has_line_append).mpr (.inl has)
    · exact behind _ _ (hyp' mem)
  | forLoop first body otherwise rest repeated checks later checks' other inner following hyp hyp' =>
    simp only [Chain.compiled, other, mem_cons, mem_append] at mem
    rcases mem with same | mem | mem
    · exact absurd same (own first (by simp [other]))
    · exact enclosed _ _ _ _ _ (hyp mem)
    · exact behind _ _ (hyp' mem)

theorem WrittenHandler.assigns {first : Block} {h : HandlerDraft} (written : WrittenHandler g first h checks)
    (mem : b ∈ first :: (g.chainTree first.body).compiled) : g.AssignsIn b h.draft.pieces := by
  have nested : first.kind = .when → b ∈ (g.chainTree first.body).compiled := by
    intro other
    rcases mem_cons.mp mem with rfl | nested
    · rw [kind] at other
      cases other
    · exact nested
  cases written with
  | attached trigger body checks other waits interrupt inner =>
    refine (inner.assigns g b kind (nested other)).mono fun text has => ?_
    exact (has_line_append).mpr (.inr has)
  | polled trigger cond body checks other waits unlike compiled inner =>
    refine (inner.assigns g b kind (nested other)).mono fun text has => ?_
    exact has_line_enclosing ((has_line_append).mpr (.inr has))

theorem WrittenHandlers.assigns {ids : List BlockId} {hs : List HandlerDraft}
    (written : WrittenHandlers g ids hs checks) (mem : b ∈ g.handled ids) : ∃ h ∈ hs, g.AssignsIn b h.draft.pieces := by
  induction written with
  | nil => cases mem
  | cons id rest first h hs checks checks' found handler later hyp =>
    have mem : b ∈ first :: (g.chainTree first.body).compiled ∨ b ∈ g.handled rest := by
      simpa [Graph.handled, found, or_assoc] using mem
    rcases mem with here | mem
    · exact ⟨h, mem_cons_self, handler.assigns g b kind here⟩
    · obtain ⟨h', listed, assigns⟩ := hyp mem
      exact ⟨h', mem_cons_of_mem h listed, assigns⟩

theorem Graph.draft_assigns {d : ProgramDraft} {state : DraftState} (drafted : g.draft = (.ok d, state))
    (mem : b ∈ g.statements) :
    ∃ text, g.Assigns b text ∧ (HasLine d.main.pieces text ∨ ∃ h ∈ d.handlers, HasLine h.draft.pieces text) := by
  obtain ⟨start, checks, checks', found, main, handlers, -⟩ := Drafting.done_program drafted
  rw [Graph.statements, found] at mem
  rcases mem_append.mp mem with inMain | inHandler
  · obtain ⟨text, assigns, has⟩ := main.assigns g b kind inMain
    exact ⟨text, assigns, .inl has⟩
  · obtain ⟨h, listed, text, assigns, has⟩ := handlers.assigns g b kind inHandler
    exact ⟨text, assigns, .inr ⟨h, listed, has⟩⟩

end

def HasText (text line : String) : Prop :=
  ∃ lines depth, text = textOfLines lines ∧ codeIndentation depth ++ line ∈ lines

theorem interrupt_passages_has (interrupt : String) {bodies : List (List Passage)} {body : List Passage} {x : Passage}
    (listed : body ∈ bodies) (mem : x ∈ body) : x.further ∈ interruptPassages interrupt bodies := by
  have inside : ∀ opening, x.further ∈ functionPassages opening body := fun opening => by
    simp only [functionPassages, mem_cons, mem_append, mem_map]
    exact .inr (.inl ⟨x, mem, rfl⟩)
  have several : x.further ∈ bodies.zipIdx.flatMap fun y =>
      functionPassages s!"static void __isr_{interrupt}_{y.2}" y.1 := by
    obtain ⟨i, at_⟩ := mem_iff_getElem?.mp listed
    exact mem_flatMap.mpr ⟨(body, i), mem_zipIdx_iff_getElem?.mpr at_, inside _⟩
  rcases bodies with _ | ⟨first, _ | ⟨second, rest⟩⟩
  · cases listed
  · rw [mem_singleton.mp listed] at inside
    exact inside _
  · exact mem_append_left _ several

theorem ProgramDraft.text_has (d : ProgramDraft) (keep : GuardSite → Bool) (devices : List Device) {line : String}
    (has : HasLine d.main.pieces line ∨ ∃ h ∈ d.handlers, HasLine h.draft.pieces line) :
    HasText ((d.keeping keep).mainText devices) line := by
  have further : ∀ (e : Draft) (depth : Nat), Piece.line depth line ∈ e.pieces →
      Passage.line (codeIndentation depth ++ line) ∈ e.passages := fun e depth mem => mem_map.mpr ⟨_, mem, rfl⟩
  have passage : ∃ depth, Passage.further (.line (codeIndentation depth ++ line)) ∈ d.passages := by
    rcases has with ⟨depth, mem⟩ | ⟨h, listed, depth, mem⟩
    · refine ⟨depth, mem_cons_of_mem _ (mem_append_right _ (mem_cons_of_mem _ ?_))⟩
      exact mem_append_left _ (mem_map_of_mem (mem_append_left _ (further d.main depth mem)))
    · obtain ⟨i, used, attached⟩ := (d.attached h.draft).mpr ⟨h, listed, rfl⟩
      refine ⟨depth, mem_cons_of_mem _ (mem_append_left _ (mem_flatMap.mpr ⟨i, used, ?_⟩))⟩
      exact interrupt_passages_has i (mem_map_of_mem attached) (further h.draft depth mem)
  obtain ⟨depth, mem⟩ := passage
  refine ⟨_, depth + 1, d.main_text keep devices, mem_append_right _ (mem_flatMap.mpr ⟨_, mem, ?_⟩)⟩
  rw [show codeIndentation (depth + 1) = "    " ++ codeIndentation depth by simp [codeIndentation, replicate_succ],
    String.append_assoc]
  exact mem_singleton_self _

namespace Plan

variable {operands : List (Slot × Term)} {body otherwise : Plan}

theorem handler_single {top : Bool} {content : Content} (said : Statement top content operands body otherwise)
    (kind : content.kind = .when) : otherwise = .nil := by
  cases said with
  | handler => rfl
  | _ => cases kind

theorem bodies_compiled {first : Block} (rest : Chain) (said : Statement false first.content operands body otherwise)
    (x : Block) (mem : x ∈ body.chain.compiled ∨ x ∈ otherwise.chain.compiled) :
    x ∈ (Chain.cons first body.chain otherwise.chain rest).compiled := by
  generalize own : first.content = content at said
  have kind : first.kind = content.kind := congrArg Content.kind own
  cases said with
  | declaration | assign | print | input => simp [chain, Chain.compiled] at mem
  | handler _ _ _ atTop => cases atTop
  | ifElse =>
    simp only [Chain.compiled, kind, mem_cons, mem_append]
    exact .inr (.inl mem)
  | ifThen | whileLoop | forLoop =>
    simp only [chain, Chain.compiled, not_mem_nil, or_false] at mem
    simp [Chain.compiled, kind, mem]

theorem statement_compiled (names : Names) (p : Plan) (k parent : Nat)
    (reads : p.Reads false names k parent) {b : Block}
    (mem : b ∈ p.blocks) (statement : b.kind.category = .statement) : b ∈ p.chain.compiled := by
  induction p generalizing names k parent with
  | nil => cases mem
  | cons first operands body otherwise rest hyp hyp' hyp'' =>
    obtain ⟨-, said, operandsRead, bodyReads, otherwiseReads, restReads⟩ := reads
    have nested := bodies_compiled rest.chain said b
    rcases (mem_blocks first b operands body otherwise rest).mp mem with rfl | inside | inside | inside | inside
    · exact mem_cons_self
    · exact absurd statement (operands_values operandsRead b inside)
    · exact nested (.inl (hyp _ _ _ bodyReads inside))
    · exact nested (.inr (hyp' _ _ _ otherwiseReads inside))
    · exact mem_cons_of_mem _ (mem_append_right _ (hyp'' _ _ _ restReads inside))

end Plan

theorem Term.reads_double {names : Names} (t : Term) {k : Nat} (reads : t.Reads names k) :
    ∀ b ∈ t.blocks, b.kind = .literal → ∀ v, b.payload = .number v → v.IsDouble := by
  intro x mem kind v payload
  obtain ⟨first, second, _, ⟨-, saying, -⟩, -⟩ := t.reads_node k reads mem
  generalize own : x.content = content at saying
  rw [show x.kind = content.kind from congrArg Content.kind own] at kind
  rw [show x.payload = content.payload from congrArg Content.payload own] at payload
  cases saying with
  | literal payload' type valid =>
    cases valid with
    | number v' type numeric double =>
      cases payload
      exact double
    | _ => cases payload
  | operation kind' c first second slots =>
    rw [show kind' = .literal from kind] at slots
    cases slots
  | reference e => split_ifs at kind
  | _ => cases kind

namespace Blueprint

variable {b : Block}

theorem statements_all (bp : Blueprint) (reads : bp.Reads) (mem : b ∈ bp.blocks)
    (statement : b.kind.category = .statement) (later : b.kind ≠ .start) : b ∈ bp.statements := by
  refine bp.parts reads (fun b => b.kind.category = .statement → b.kind ≠ .start → b ∈ bp.statements)
    (fun p start found _ later => ?_) (fun top names p k parent planned inside origin x inner kind _ => ?_) b mem
      statement later
  · exact absurd (congrArg Content.kind (reads.main p start found).2.2) later
  · rcases origin with ⟨start, found, -⟩ | ⟨h, listed, rfl⟩
    · have planned := (reads.main p start found).1
      exact mem_append_left _ (by rw [found]; exact p.statement_compiled _ _ _ planned inner kind)
    · refine mem_append_right _ (mem_flatMap.mpr ⟨h, listed, ?_⟩)
      obtain ⟨-, said, operandsRead, bodyReads, -, -⟩ := planned
      have none := Plan.handler_single said (handler_kind _ _ reads.handlers h listed)
      rcases (Plan.mem_blocks h.block x h.operands h.body h.otherwise .nil).mp inner with rfl | inside | inside |
        inside | inside
      · exact mem_cons_self
      · exact absurd kind (Plan.operands_values operandsRead x inside)
      · exact mem_cons_of_mem _ (h.body.statement_compiled _ _ _ bodyReads inside kind)
      · rw [none] at inside
        cases inside
      · cases inside

theorem literals_double (bp : Blueprint) (reads : bp.Reads) (mem : b ∈ bp.blocks) (kind : b.kind = .literal)
    {v : Number} (payload : b.payload = .number v) : v.IsDouble := by
  refine bp.parts reads (fun b => b.kind = .literal → ∀ v, b.payload = .number v → v.IsDouble)
    (fun p start found kind => ?_) (fun top names p k parent planned inside _ => ?_) b mem kind v payload
  · rw [show start.kind = .start from congrArg Content.kind (reads.main p start found).2.2] at kind
    cases kind
  · refine p.reads_all (fun names t k reads _ => t.reads_double reads)
      (fun top names x operands body otherwise rest k parent reads _ kind => ?_) top names _ _ planned inside
    have statement := (Plan.statement_refers reads.2.1).2
    rw [show x.content.kind = .literal from kind] at statement
    cases statement

end Blueprint

namespace Setting

variable {s : Setting} {b : Block} {first second : Term} {f : Fragment}

theorem literal_compiled (kind : b.kind = .literal) (compiled : s.Compiles (.node b first second) f) :
    Setting.literal b = .ok f := by
  cases compiled with
  | literal _ _ _ _ _ made => exact made
  | _ => simp_all

theorem reference_compiled (kind : b.isReference = true) (compiled : s.Compiles (.node b first second) f) :
    s.reference b = .ok f := by
  have either : b.kind = .varRef ∨ b.kind = .indexRef := by simpa [Block.isReference] using kind
  cases compiled with
  | reference _ _ _ _ _ made => exact made
  | _ => rcases either with either | either <;> simp_all

end Setting

structure Graph.SetsLiteral (g : Graph) (b x : Block) (p : Primitive) (v : Number) : Prop where
  kind : b.kind = .assign
  target : ∃ t, g.slotBlock? b .var = some t ∧ t.isReference = true ∧ g.decl? t = some x
  typed : x.type = some (.primitive p)
  value : ∃ l, g.slotBlock? b .value = some l ∧ l.kind = .literal ∧ l.payload = .number v

namespace Graph

variable (g : Graph) (b x : Block) (p : Primitive) (integral : p.isIntegral = true) (v : Number)
  (sets : g.SetsLiteral b x p v)

theorem slot_term_node {slot : Slot} {t : Block} (filled : g.slotBlock? b slot = some t) :
    ∃ first second, g.slotTerm b slot = .node t first second := by
  have found : g.block? (b.slot slot) = some t := filled
  have some : 0 < g.size := by
    have bounds := (g.links_defined _).mp ⟨_, links_block g found⟩
    omega
  unfold slotTerm term
  obtain ⟨n, size⟩ : ∃ n, g.size = n + 1 := ⟨g.size - 1, by omega⟩
  rw [size, termFrom, found]
  exact ⟨_, _, rfl⟩

theorem way_ends (point fuel id next : Nat) (acc steps : List Step) (b : Block) (found : g.block? id = some b)
    (traced : g.wayFrom point fuel id next acc = .ok steps) : ∃ before, steps = before ++ ⟨b, next⟩ :: acc := by
  induction fuel generalizing id next acc b with
  | zero => cases traced
  | succ fuel hyp =>
    simp only [wayFrom, found] at traced
    split_ifs at traced
    · cases traced
      exact ⟨[], rfl⟩
    · cases above : g.block? b.parent with
      | none =>
        cases fuel with
        | zero => cases traced
        | succ fuel =>
          rw [wayFrom, above] at traced
          cases traced
      | some q =>
        obtain ⟨before, rfl⟩ := hyp _ _ _ q above traced
        exact ⟨before ++ [⟨q, b.id⟩], by simp⟩

variable {c : Constraints}

theorem analyze_passed {point : Nat} {b : Block} (found : g.block? point = some b)
    (analyzed : g.analyze point next = .ok c) : ∃ c₀, g.passed c₀ b next = .ok c := by
  unfold analyze wayTo at analyzed
  split at analyzed
  · cases analyzed
  · next steps traced =>
      obtain ⟨before, rfl⟩ := g.way_ends point _ point next [] steps b found traced
      rw [along_append] at analyzed
      split at analyzed
      · cases analyzed
      · next c₀ _ => exact ⟨c₀, analyzed⟩

include sets integral

theorem literal_line (assigns : g.Assigns b text) :
    text = x.name ++ " = " ++ v.plainText ++ ";" ∧ v.isWhole = true := by
  obtain ⟨inHandler, value, target, ⟨_, _, compiled⟩, ⟨_, _, compiled'⟩, same, rfl⟩ := assigns
  obtain ⟨t, targeted, reference, declared⟩ := sets.target
  obtain ⟨l, valued, literal, payload⟩ := sets.value
  obtain ⟨first, second, node⟩ := g.slot_term_node b valued
  obtain ⟨first', second', node'⟩ := g.slot_term_node b targeted
  rw [node] at compiled
  rw [node'] at compiled'
  have place : target.code = x.name ∧ target.type = some (.primitive p) := by
    have made := Setting.reference_compiled reference compiled'
    rw [Setting.reference, declared] at made
    split at made
    · next found =>
        cases found
        cases made
        exact ⟨rfl, sets.typed⟩
    · cases made
  have number := Setting.literal_compiled literal compiled
  rw [Setting.literal, payload] at number
  dsimp only at number
  split_ifs at number with numeric fraction
  cases number
  have type : Setting.literalType v l.type = .primitive p := Option.some.inj (same.symm.trans place.2)
  rw [type] at fraction
  have whole : v.isWhole = true := by
    by_contra broken
    exact fraction (by simp [ValueType.isIntegral, integral, broken])
  refine ⟨?_, whole⟩
  rw [type, place.1, number_code_integral v (.primitive p) integral]
  rfl

omit integral in
theorem literal_recorded (formed : g.WellFormed) {id : Nat} (found : g.block? id = some b)
    (analyzed : g.analyze id next = .ok c) : c.get? x.name = some ⟨.eq (.ref ⟨x.name, x.type⟩) (.num v), x.type⟩ := by
  obtain ⟨t, targeted, reference, declared⟩ := sets.target
  obtain ⟨l, valued, literal, payload⟩ := sets.value
  have name : t.name = x.name := by
    have mem := g.mem_block targeted
    have either : t.kind = .varRef ∨ t.kind = .indexRef := by simpa [Block.isReference] using reference
    obtain ⟨kind, declarer⟩ : ∃ kind, t.kind.declarer? = some kind := by
      rcases either with either | either <;> exact ⟨_, by rw [either]; rfl⟩
    obtain ⟨d, same, -, named⟩ := formed.declared t mem kind declarer
    rw [declared] at same
    cases same
    exact named.symm
  have type : g.refType t = x.type := by simp [refType, declared]
  obtain ⟨c₀, passed⟩ := g.analyze_passed found analyzed
  have given : c = g.assigned c₀ b := by
    simp only [Graph.passed, sets.kind] at passed
    split_ifs at passed
    cases passed
    rfl
  have target : g.target? b = some (x.name, x.type) := by simp [target?, targeted, reference, name, type]
  have number : l.number? = some v := by
    rw [Block.number?, payload]
    rfl
  rw [given, assigned, target]
  simp only [valued, literal, number]
  exact Named.get_set_self

end Graph

-- Behind the assignment of a number to a variable of an integer type it is recorded that the variable equals the
-- number, and the program has a line that assigns the digits of the number. What is recorded is true of the value that
-- the line leaves in the variable exactly if the type keeps the number.
theorem Document.literal_true_iff_kept (document : Markup.Node) (g : Graph) (read : Document.ofNode document = .ok g)
    (policy : GuardPolicy) (program : Program) (made : g.generate policy = .ok program) (id : BlockId) (b x : Block)
    (found : g.block? id = some b)
    (p : Primitive) (integral : p.isIntegral = true) (v : Number) (sets : g.SetsLiteral b x p v) :
    HasText program.main (x.name ++ " = " ++ v.plainText ++ ";") ∧
      (p.Keeps v → ∃ z, p.stored v.plainText = some z) ∧
        ∀ next c, g.analyze id next = .ok c → ∃ k, c.get? x.name = some k ∧
          k.expr = .eq (.ref ⟨x.name, x.type⟩) (.num v) ∧
            ∀ A env z, p.stored v.plainText = some z → env x.name = .number (.finite z) →
              (k.expr.truth? A env = some true ↔ p.Keeps v) := by
  have formed : g.WellFormed := by
    obtain ⟨bp, reads, same⟩ := of_node_reads read
    exact same ▸ bp.graph_well_formed reads
  obtain ⟨d, state, drafted, -, main⟩ := g.generated_draft made
  have double : v.IsDouble ∧ b ∈ g.statements := by
    obtain ⟨l, valued, literal, payload⟩ := sets.value
    obtain ⟨bp, reads, rfl⟩ := of_node_reads read
    have blocks := bp.mem_graph
    refine ⟨bp.literals_double reads (blocks ▸ Graph.mem_block _ valued) literal payload, ?_⟩
    rw [Graph.statements_read reads]
    exact bp.statements_all reads (blocks ▸ Graph.mem_block _ found) (by rw [sets.kind]; rfl) (by simp [sets.kind])
  obtain ⟨double, member⟩ := double
  obtain ⟨line, assigns, has⟩ := g.draft_assigns b sets.kind drafted member
  obtain ⟨rfl, whole⟩ := g.literal_line b x p integral v sets assigns
  refine ⟨by rw [main]; exact d.text_has _ g.devices has, ?_, fun next c analyzed => ?_⟩
  · rintro ⟨n, value, -⟩
    rcases v.whole_written double whole with ⟨_, w, -, written, -⟩ | rfl | rfl
    · exact ⟨p.convert w, by rw [stored, written]; rfl⟩
    · cases value
    · cases value
  · refine ⟨_, g.literal_recorded b x p v sets formed found analyzed, rfl, fun A env z stored held => ?_⟩
    exact p.equality_stored A env ⟨x.name, x.type⟩ v z held integral double whole stored

theorem Primitive.keeps_small (p : Primitive) {v : Number} (n : ℤ) (value : v.toRat? = some (n : ℚ)) (holds : p.Holds n)
    (small : n.natAbs < 2 ^ 53) : p.Keeps v :=
  ⟨n, value, holds, fun _ => v.integer_digits n value (.inl small)⟩

def edgesText : String :=
  "main:\n- \x7bvar: x, type: byte, checked: true\x7d\n- set: \x7bref: x\x7d\n  to: \x7blit: -128, type: byte\x7d\n" ++
    "- set: \x7bref: x\x7d\n  to: \x7blit: 256, type: byte\x7d\n" ++
    "- print: \x7bdiv: [\x7blit: 10, type: byte\x7d, \x7bref: x\x7d]\x7d\n"

def edges : Graph where
  main := 12
  blocks := #[
    { id := 1, kind := .variableDecl, line := 2, column := 3, parent := 12, next := 2, name := "x", type := some .byte,
      checked := true },
    { id := 2, kind := .assign, line := 3, column := 3, parent := 1, next := 5, slots := [(.var, 3), (.value, 4)] },
    { id := 3, kind := .varRef, line := 3, column := 14, name := "x", decl := 1 },
    { id := 4, kind := .literal, line := 4, column := 13, type := some .byte, payload := .number (.finite (-128)) },
    { id := 5, kind := .assign, line := 5, column := 3, parent := 2, next := 8, slots := [(.var, 6), (.value, 7)] },
    { id := 6, kind := .varRef, line := 5, column := 14, name := "x", decl := 1 },
    { id := 7, kind := .literal, line := 6, column := 13, type := some .byte, payload := .number (.finite 256) },
    { id := 8, kind := .print, line := 7, column := 3, parent := 5, slots := [(.value, 9)] },
    { id := 9, kind := .div, line := 7, column := 10, slots := [(.left, 10), (.right, 11)] },
    { id := 10, kind := .literal, line := 7, column := 23, type := some .byte, payload := .number (.finite 10) },
    { id := 11, kind := .varRef, line := 7, column := 46, name := "x", decl := 1 },
    { id := 12, kind := .start, line := 1, column := 1, next := 1 }]

set_option maxRecDepth 10000 in
theorem edges_loaded : load edgesText = .ok edges := by
  decide +kernel

def edgesVariable : Block := edges.blocks.getD 0 default

theorem edges_lowest : edges.SetsLiteral (edges.blocks.getD 1 default) edgesVariable .byte (.finite (-128)) :=
  ⟨rfl, ⟨_, rfl, rfl, rfl⟩, rfl, _, rfl, rfl, rfl⟩

theorem edges_beyond : edges.SetsLiteral (edges.blocks.getD 4 default) edgesVariable .byte (.finite 256) :=
  ⟨rfl, ⟨_, rfl, rfl, rfl⟩, rfl, _, rfl, rfl, rfl⟩

def edgesProgram : String :=
  "#include <iostream>\n\nint main() \x7b\n    char x;\n    x = -128;\n    x = 256;\n" ++
    "    std::cout << static_cast<double>(10) / x << std::endl;\n    return 0;\n\x7d\n"

set_option maxRecDepth 10000 in
theorem edges_compiled : (edges.generate (Prover.decide 64)).toOption.map Program.main = some edgesProgram := by
  decide +kernel

set_option maxRecDepth 10000 in
theorem edges_analyzed : (edges.analyze 2 5).toOption.isSome = true ∧ (edges.analyze 5 8).toOption.isSome = true := by
  decide +kernel

theorem analyzed_some {point : Nat} (some_ : (g.analyze point next).toOption.isSome = true) :
    ∃ c, g.analyze point next = .ok c := by
  cases analyzed : g.analyze point next with
  | error fault =>
    rw [analyzed] at some_
    cases some_
  | ok c => exact ⟨c, rfl⟩

-- The least character is kept, so what is recorded about it is true of what is stored.
theorem Document.least_byte_kept : ∃ program c k, Document.load edgesText = .ok edges ∧
    edges.generate (Prover.decide 64) = .ok program ∧ HasText program.main "x = -128;" ∧ edges.analyze 2 5 = .ok c ∧
      c.get? "x" = some k ∧ Primitive.byte.stored "-128" = some (-128) ∧
        ∀ A env, env "x" = .number (.finite (-128)) → k.expr.truth? A env = some true := by
  obtain ⟨program, made, -⟩ := Option.map_eq_some_iff.mp edges_compiled
  have made : edges.generate (Prover.decide 64) = .ok program := by
    cases generated : edges.generate (Prover.decide 64) with
    | error fault =>
      rw [generated] at made
      cases made
    | ok program' =>
      rw [generated] at made
      cases made
      rfl
  obtain ⟨c, analyzed⟩ := analyzed_some edges_analyzed.1
  have digits : (finite (-128)).plainText = "-128" := by decide +kernel
  have stored : byte.stored (finite (-128)).plainText = some (-128) := by
    rw [stored, (finite (-128)).integer_digits (-128) rfl (.inl (by decide))]
    rfl
  obtain ⟨document, -, read⟩ := load_node edges_loaded
  obtain ⟨line, -, recorded⟩ := literal_true_iff_kept document edges read (Prover.decide 64) program made 2 _
    edgesVariable rfl .byte rfl (.finite (-128)) edges_lowest
  obtain ⟨k, filed, -, truth⟩ := recorded 5 c analyzed
  rw [digits, show edgesVariable.name ++ " = " ++ "-128" ++ ";" = "x = -128;" by decide] at line
  refine ⟨program, c, k, edges_loaded, made, line, analyzed, filed, digits ▸ stored, fun A env held => ?_⟩
  refine (truth A env (-128) stored ?_).mpr (byte.keeps_small (-128) rfl (by decide) (by decide))
  rw [show edgesVariable.name = "x" from rfl, held]
  norm_num

-- What is recorded behind the second assignment is false of the zero that is stored, and for it the guard of the
-- division is left out.
theorem Document.wrapped_byte_recorded : ∃ c k, Document.load edgesText = .ok edges ∧
    (edges.generate (Prover.decide 64)).toOption.map Program.main = some edgesProgram ∧ edges.analyze 5 8 = .ok c ∧
      c.get? "x" = some k ∧ k.expr = .eq (.ref ⟨"x", some .byte⟩) (.num (.finite 256)) ∧
        Primitive.byte.stored "256" = some 0 ∧
          ∀ A env, env "x" = .number (.finite 0) → k.expr.truth? A env ≠ some true := by
  obtain ⟨c, analyzed⟩ := analyzed_some edges_analyzed.2
  have formed : edges.WellFormed := by
    obtain ⟨document, -, read⟩ := load_node edges_loaded
    obtain ⟨bp, reads, same⟩ := of_node_reads read
    exact same ▸ bp.graph_well_formed reads
  have digits : (finite 256).plainText = "256" := by decide +kernel
  have stored : byte.stored (finite 256).plainText = some 0 := by
    rw [stored, (finite 256).integer_digits 256 rfl (.inl (by decide))]
    rfl
  have filed := edges.literal_recorded _ edgesVariable .byte (.finite 256) edges_beyond formed rfl analyzed
  refine ⟨c, _, edges_loaded, edges_compiled, analyzed, filed, rfl, digits ▸ stored, fun A env held holds => ?_⟩
  have same := (Expr.equality_truth A env ⟨"x", some .byte⟩ (.finite 256) 0 (by simpa using held) rfl).mp holds
  norm_num at same

end Blockwork
