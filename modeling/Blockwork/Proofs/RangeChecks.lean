import Blockwork.Document.Load
import Blockwork.Program.Compile
import Blockwork.Program.Library
import Blockwork.Proofs.Shortest

set_option autoImplicit false

namespace Blockwork

open Guardable Option

namespace Primitive

-- Two's complement, characters signed.
def bits : Primitive → Nat
  | .byte => 8
  | .int => 32
  | .long => 64
  | _ => 0

def lowest (p : Primitive) : Int := -2 ^ (p.bits - 1)

def highest (p : Primitive) : Int := 2 ^ (p.bits - 1) - 1

def Holds (p : Primitive) (z : Int) : Prop := p.lowest ≤ z ∧ z ≤ p.highest

instance (p : Primitive) (z : Int) : Decidable (p.Holds z) := inferInstanceAs (Decidable (_ ∧ _))

-- Characters are computed with as integers.
def promoted : Primitive → Primitive
  | .byte => .int
  | p => p

def compute (p : Primitive) (z : Int) : Option Int := if p.promoted.Holds z then some z else none

def convert (p : Primitive) (z : Int) : Int := z.bmod (2 ^ p.bits)

variable (p : Primitive)

theorem lowest_highest : p.lowest = -p.highest - 1 ∧ 0 ≤ p.highest := by
  have positive : (0 : Int) < 2 ^ (p.bits - 1) := by positivity
  simp only [lowest, highest]
  omega

variable {z : Int}

theorem promoted_holds (holds : p.Holds z) : p.promoted.Holds z := by
  cases p with
  | byte =>
    simp only [Holds, lowest, highest, bits, promoted] at holds ⊢
    omega
  | _ => exact holds

theorem compute_holds (holds : p.Holds z) : p.compute z = some z :=
  if_pos (p.promoted_holds holds)

theorem convert_holds (integral : p.isIntegral = true) (holds : p.Holds z) : p.convert z = z := by
  cases p with
  | byte | int | long =>
    simp only [Holds, lowest, highest, bits] at holds
    simp only [convert, bits]
    refine Int.bmod_eq_of_le ?_ ?_ <;> omega
  | _ => cases integral

end Primitive

inductive RangeTerm where
  | highest
  | lowest
  | zero
  | parameter (name : String)
  | plus (left right : RangeTerm)
  | minus (left right : RangeTerm)

namespace RangeTerm

def code : RangeTerm → String
  | .highest => "std::numeric_limits<T>::max()"
  | .lowest => "std::numeric_limits<T>::lowest()"
  | .zero => "0"
  | .parameter name => name
  | .plus left right => left.code ++ " + " ++ right.code
  | .minus left right => left.code ++ " - " ++ right.code

def value (p : Primitive) (given : List (String × Int)) : RangeTerm → Option Int
  | .highest => some p.highest
  | .lowest => some p.lowest
  | .zero => some 0
  | .parameter name => given.lookup name
  | .plus left right => do
    let a ← left.value p given
    let b ← right.value p given
    p.compute (a + b)
  | .minus left right => do
    let a ← left.value p given
    let b ← right.value p given
    p.compute (a - b)

end RangeTerm

inductive RangeTest where
  | less (left right : RangeTerm)
  | atMost (left right : RangeTerm)
  | atLeast (left right : RangeTerm)
  | choice (test yes no : RangeTest)

namespace RangeTest

def code : RangeTest → String
  | .less left right => left.code ++ " < " ++ right.code
  | .atMost left right => left.code ++ " <= " ++ right.code
  | .atLeast left right => left.code ++ " >= " ++ right.code
  | .choice test yes no => test.code ++ " ? " ++ yes.code ++ " : " ++ no.code

def truth (p : Primitive) (given : List (String × Int)) : RangeTest → Option Bool
  | .less left right => do
    let a ← left.value p given
    let b ← right.value p given
    return decide (a < b)
  | .atMost left right => do
    let a ← left.value p given
    let b ← right.value p given
    return decide (a ≤ b)
  | .atLeast left right => do
    let a ← left.value p given
    let b ← right.value p given
    return decide (b ≤ a)
  | .choice test yes no => do
    if ← test.truth p given then yes.truth p given else no.truth p given

end RangeTest

structure RangeFamily where
  name : String
  limits : List (String × RangeTerm)
  safe : RangeTest

namespace RangeFamily

def limitLines (limit : String × RangeTerm) : List String :=
  ["\ttemplate <T val>", "\tstatic constexpr T " ++ limit.1 ++ "() \x7b", "\t\treturn " ++ limit.2.code ++ ";",
    "\t\x7d", ""]

def lines (f : RangeFamily) : List String :=
  ["template <typename T>", "struct " ++ f.name ++ " \x7b"] ++ f.limits.flatMap limitLines ++
    ["\tstatic inline bool safe(T a, T b) \x7b", "\t\treturn " ++ f.safe.code ++ ";", "\t\x7d", "\x7d;"]

def addition : RangeFamily where
  name := "addition"
  limits := [("maxPositive", .minus .highest (.parameter "val")), ("minNegative", .minus .lowest (.parameter "val"))]
  safe :=
    .choice (.less (.parameter "b") .zero) (.atLeast (.parameter "a") (.minus .lowest (.parameter "b")))
      (.atMost (.parameter "a") (.minus .highest (.parameter "b")))

def subtraction : RangeFamily where
  name := "subtraction"
  limits := [("minPositive", .plus .lowest (.parameter "val")), ("maxNegative", .plus .highest (.parameter "val"))]
  safe :=
    .choice (.less (.parameter "b") .zero) (.atMost (.parameter "a") (.plus .highest (.parameter "b")))
      (.atLeast (.parameter "a") (.plus .lowest (.parameter "b")))

-- The call of a limit; a constant beyond the type is none of its template arguments.
def limit (f : RangeFamily) (p : Primitive) (name : String) (v : Int) : Option Int :=
  if p.Holds v then ((f.limits.lookup name).bind (·.value p [("val", v)])).map p.convert else none

def isSafe (f : RangeFamily) (p : Primitive) (a b : Int) : Option Bool :=
  f.safe.truth p [("a", p.convert a), ("b", p.convert b)]

-- The functions are those of the header that the guards include.
theorem addition_written : addition.lines <:+: Library.rangeChecks :=
  ⟨Library.rangeChecks.take 8, Library.rangeChecks.drop 24, by decide +kernel⟩

theorem subtraction_written : subtraction.lines <:+: Library.rangeChecks :=
  ⟨Library.rangeChecks.take 65, Library.rangeChecks.drop 81, by decide +kernel⟩

section

variable (p : Primitive) (integral : p.isIntegral = true) (a b : Int)

include integral

theorem limit_fits (f : RangeFamily) {name : String} {term : RangeTerm} (v z : Int)
    (found : f.limits.lookup name = some term)
    (constant : p.Holds v) (value : term.value p [("val", v)] = p.compute z) (holds : p.Holds z) :
    f.limit p name v = some z := by
  rw [limit, if_pos constant, found, bind_some, value, p.compute_holds holds, map_some,
    p.convert_holds integral holds]

variable {v : Int}

-- No limit is computed beyond the type, and comparing with it decides the sum or difference.
theorem addition_limits (holds : p.Holds v) :
    (0 ≤ v → addition.limit p "maxPositive" v = some (p.highest - v)) ∧
      (v < 0 → addition.limit p "minNegative" v = some (p.lowest - v)) := by
  obtain ⟨opposite, _⟩ := p.lowest_highest
  obtain ⟨low, high⟩ := id holds
  refine ⟨fun nonneg => ?_, fun negative => ?_⟩
  all_goals exact limit_fits p integral addition v _ rfl holds rfl ⟨by omega, by omega⟩

theorem subtraction_limits (holds : p.Holds v) :
    (0 ≤ v → subtraction.limit p "minPositive" v = some (p.lowest + v)) ∧
      (v < 0 → subtraction.limit p "maxNegative" v = some (p.highest + v)) := by
  obtain ⟨opposite, _⟩ := p.lowest_highest
  obtain ⟨low, high⟩ := id holds
  refine ⟨fun nonneg => ?_, fun negative => ?_⟩
  all_goals exact limit_fits p integral subtraction v _ rfl holds rfl ⟨by omega, by omega⟩

variable (left : p.Holds a) (right : p.Holds b)

include left right

theorem addition_safe : addition.isSafe p a b = some (decide (p.Holds (a + b))) := by
  obtain ⟨opposite, _⟩ := p.lowest_highest
  rw [isSafe, p.convert_holds integral left, p.convert_holds integral right]
  obtain ⟨low, high⟩ := left
  obtain ⟨low', high'⟩ := right
  by_cases negative : b < 0
  · have limit : p.compute (p.lowest - b) = some (p.lowest - b) := p.compute_holds ⟨by omega, by omega⟩
    have decides : p.Holds (a + b) ↔ p.lowest - b ≤ a :=
      ⟨fun holds => by have := holds.1; omega, fun above => ⟨by omega, by omega⟩⟩
    simp [addition, RangeTest.truth, RangeTerm.value, List.lookup, negative, limit, decides]
  · have limit : p.compute (p.highest - b) = some (p.highest - b) := p.compute_holds ⟨by omega, by omega⟩
    have decides : p.Holds (a + b) ↔ a ≤ p.highest - b :=
      ⟨fun holds => by have := holds.2; omega, fun below => ⟨by omega, by omega⟩⟩
    simp [addition, RangeTest.truth, RangeTerm.value, List.lookup, negative, limit, decides]

theorem subtraction_safe : subtraction.isSafe p a b = some (decide (p.Holds (a - b))) := by
  obtain ⟨opposite, _⟩ := p.lowest_highest
  rw [isSafe, p.convert_holds integral left, p.convert_holds integral right]
  obtain ⟨low, high⟩ := left
  obtain ⟨low', high'⟩ := right
  by_cases negative : b < 0
  · have limit : p.compute (p.highest + b) = some (p.highest + b) := p.compute_holds ⟨by omega, by omega⟩
    have decides : p.Holds (a - b) ↔ a ≤ p.highest + b :=
      ⟨fun holds => by have := holds.2; omega, fun below => ⟨by omega, by omega⟩⟩
    simp [subtraction, RangeTest.truth, RangeTerm.value, List.lookup, negative, limit, decides]
  · have limit : p.compute (p.lowest + b) = some (p.lowest + b) := p.compute_holds ⟨by omega, by omega⟩
    have decides : p.Holds (a - b) ↔ p.lowest + b ≤ a :=
      ⟨fun holds => by have := holds.1; omega, fun above => ⟨by omega, by omega⟩⟩
    simp [subtraction, RangeTest.truth, RangeTerm.value, List.lookup, negative, limit, decides]

end

end RangeFamily

inductive Argument where
  | variable (name : String)
  | number (text : String)

namespace Argument

def code : Argument → String
  | .variable name => name
  | .number text => text

def value (env : String → Int) : Argument → Option Int
  | .variable name => some (env name)
  | .number text => text.toInt?

end Argument

inductive GuardTest where
  | beyond (name : String) (above : Bool) (family : RangeFamily) (limit number : String)
  | overflows (family : RangeFamily) (left right : Argument)

namespace GuardTest

def code (p : Primitive) : GuardTest → String
  | .beyond name above family limit number =>
    name ++ (if above then " > " else " < ") ++ ("lellib::" ++ family.name ++ "<" ++ p.code ++ ">::") ++ limit ++ "<" ++
      number ++ ">()"
  | .overflows family left right =>
    "!" ++ ("lellib::" ++ family.name ++ "<" ++ p.code ++ ">::") ++ "safe(" ++ left.code ++ ", " ++ right.code ++ ")"

def family : GuardTest → RangeFamily
  | .beyond _ _ family _ _ => family
  | .overflows family _ _ => family

-- Nothing if an operation on the way overflows.
def truth (p : Primitive) (env : String → Int) : GuardTest → Option Bool
  | .beyond name above family limit number => do
    let v ← number.toInt?
    let z ← family.limit p limit v
    return if above then decide (z < env name) else decide (env name < z)
  | .overflows family left right => do
    let a ← left.value env
    let b ← right.value env
    let safe ← family.isSafe p a b
    return !safe

variable {p : Primitive} {family : RangeFamily}

theorem beyond_truth (env : String → Int) {name : String} {above : Bool} {limit number : String} {v z : Int}
    (digits : number.toInt? = some v) (called : family.limit p limit v = some z) :
    (beyond name above family limit number).truth p env = some
      (if above then decide (z < env name) else decide (env name < z)) := by
  rw [truth, digits, bind_eq_bind, bind_some, called]
  rfl

theorem overflows_truth (env : String → Int) {left right : Argument} {a b : Int} {safe : Bool}
    (value : left.value env = some a) (value' : right.value env = some b) (called : family.isSafe p a b = some safe) :
    (overflows family left right).truth p env = some !safe := by
  rw [truth, value, value', bind_eq_bind, bind_some, bind_eq_bind, bind_some, called]
  rfl

end GuardTest

namespace Guardable

def argument (w : Guardable) : Argument :=
  match w.partner with
  | .literal _ => .number w.other
  | .reference _ => .variable w.other

def test (w : Guardable) (isSum : Bool) (p : Primitive) : GuardTest :=
  match w.partner, isSum with
  | .reference _, true => .overflows .addition (.variable w.decl.name) w.argument
  | .literal v, true =>
    if v.lt .zero then .beyond w.decl.name false .addition "minNegative" (numberCode v (.primitive p))
    else .beyond w.decl.name true .addition "maxPositive" (numberCode v (.primitive p))
  | .reference _, false =>
    if w.onLeft then .overflows .subtraction (.variable w.decl.name) w.argument
    else .overflows .subtraction w.argument (.variable w.decl.name)
  | .literal v, false =>
    if w.onLeft then
      if v.lt .zero then .beyond w.decl.name true .subtraction "maxNegative" (numberCode v (.primitive p))
      else .beyond w.decl.name false .subtraction "minPositive" (numberCode v (.primitive p))
    else .overflows .subtraction w.argument (.variable w.decl.name)

variable {isSum : Bool}

theorem test_written (w : Guardable) (p : Primitive) : (w.test isSum p).family.lines <:+: Library.rangeChecks := by
  have either : (w.test isSum p).family = .addition ∨ (w.test isSum p).family = .subtraction := by
    obtain ⟨decl, onLeft, text, partner⟩ := w
    cases partner <;> cases isSum <;> simp only [test] <;> (repeat' split)
    all_goals first | exact .inl rfl | exact .inr rfl
  rcases either with family | family <;> rw [family]
  · exact RangeFamily.addition_written
  · exact RangeFamily.subtraction_written

theorem addition_code : "lellib::" ++ RangeFamily.addition.name ++ "<" = "lellib::addition<" := by decide

theorem subtraction_code : "lellib::" ++ RangeFamily.subtraction.name ++ "<" = "lellib::subtraction<" := by decide

theorem condition_test (w : Guardable) {p : Primitive} (integral : p.isIntegral = true)
    (whole : ∀ v, w.partner = .literal v → v.isWhole = true) :
    w.condition isSum (.primitive p) = (w.test isSum p).code p := by
  obtain ⟨decl, onLeft, other, partner⟩ := w
  have type : (ValueType.primitive p).isIntegral = true := integral
  cases partner with
  | reference t =>
    cases isSum <;> cases onLeft
    all_goals
      simp [condition, test, argument, GuardTest.code, Argument.code, addition_code, subtraction_code, ValueType.code]
  | literal v =>
    have whole := whole v rfl
    cases isSum <;> cases onLeft <;> by_cases negative : v.lt .zero = true
    all_goals
      simp [condition, test, type, whole, negative, argument, GuardTest.code, Argument.code, addition_code,
        subtraction_code, ValueType.code]

-- The other operand has a value: that of a variable, or the one its digits say.
def Denotes (w : Guardable) (p : Primitive) (env : String → Int) (z : Int) : Prop :=
  match w.partner with
  | .reference _ => z = env w.other
  | .literal v =>
    (numberCode v (.primitive p)).toInt? = some z ∧ w.other.toInt? = some z ∧ v.lt .zero = decide (z < 0)

section

variable (w : Guardable) (p : Primitive) (env : String → Int) (z : Int) (denotes : w.Denotes p env z)

include denotes

theorem argument_value : w.argument.value env = some z := by
  obtain ⟨decl, onLeft, text, partner⟩ := w
  cases partner with
  | reference t => exact congrArg some (Eq.symm denotes)
  | literal v => exact denotes.2.1

variable (integral : p.isIntegral = true) (checked : p.Holds (env w.decl.name)) (other : p.Holds z)

include integral checked other

theorem sum_truth : (w.test true p).truth p env = some (decide (¬ p.Holds (env w.decl.name + z))) := by
  have value := w.argument_value p env z denotes
  obtain ⟨opposite, _⟩ := p.lowest_highest
  obtain ⟨decl, onLeft, text, partner⟩ := w
  obtain ⟨low, high⟩ := checked
  dsimp only at low high ⊢
  cases partner with
  | reference t =>
    simp only [test]
    rw [GuardTest.overflows_truth env rfl value (RangeFamily.addition_safe p integral _ z ⟨low, high⟩ other)]
    simp
  | literal v =>
    obtain ⟨digits, _, sign⟩ := denotes
    obtain ⟨low', high'⟩ := id other
    simp only [test, sign, decide_eq_true_eq]
    by_cases negative : z < 0
    · rw [if_pos negative, GuardTest.beyond_truth env digits
        ((RangeFamily.addition_limits p integral other).2 negative), some_inj, if_neg (by simp), decide_eq_decide]
      exact ⟨fun below holds => by have := holds.1; omega,
        fun outside => by by_contra; exact outside ⟨by omega, by omega⟩⟩
    · rw [if_neg negative, GuardTest.beyond_truth env digits
        ((RangeFamily.addition_limits p integral other).1 (by omega)), some_inj, if_pos rfl, decide_eq_decide]
      exact ⟨fun above holds => by have := holds.2; omega,
        fun outside => by by_contra; exact outside ⟨by omega, by omega⟩⟩

theorem difference_truth : (w.test false p).truth p env =
    some (decide (¬ p.Holds (if w.onLeft then env w.decl.name - z else z - env w.decl.name))) := by
  have value := w.argument_value p env z denotes
  obtain ⟨opposite, _⟩ := p.lowest_highest
  obtain ⟨decl, onLeft, text, partner⟩ := w
  cases onLeft with
  | false =>
    cases partner
    all_goals
      simp only [test, Bool.false_eq_true, if_false]
      rw [GuardTest.overflows_truth env value rfl (RangeFamily.subtraction_safe p integral z _ other checked)]
      simp
  | true =>
    obtain ⟨low, high⟩ := checked
    dsimp only at low high ⊢
    cases partner with
    | reference t =>
      simp only [test, if_true]
      rw [GuardTest.overflows_truth env rfl value
        (RangeFamily.subtraction_safe p integral _ z ⟨low, high⟩ other)]
      simp
    | literal v =>
      obtain ⟨digits, _, sign⟩ := denotes
      obtain ⟨low', high'⟩ := id other
      simp only [test, sign, decide_eq_true_eq, if_true]
      by_cases negative : z < 0
      · rw [if_pos negative, GuardTest.beyond_truth env digits
          ((RangeFamily.subtraction_limits p integral other).2 negative), some_inj, if_pos rfl, decide_eq_decide]
        exact ⟨fun above holds => by have := holds.2; omega,
          fun outside => by by_contra; exact outside ⟨by omega, by omega⟩⟩
      · rw [if_neg negative, GuardTest.beyond_truth env digits
          ((RangeFamily.subtraction_limits p integral other).1 (by omega)), some_inj, if_neg (by simp),
            decide_eq_decide]
        exact ⟨fun below holds => by have := holds.1; omega,
          fun outside => by by_contra; exact outside ⟨by omega, by omega⟩⟩

end

end Guardable

namespace Number

section

variable (v : Number) (z : Int) (value : v.toRat? = some (z : ℚ))

include value

theorem integer_whole : v.isWhole = true := by
  cases v with
  | finite q =>
    cases value
    rfl
  | negZero => rfl
  | _ => cases value

theorem integer_sign : v.lt .zero = decide (z < 0) := by
  cases v with
  | finite q =>
    cases value
    simp [lt, zero]
  | negZero =>
    have none : z = 0 := by exact_mod_cast (Option.some.inj value).symm
    rw [none]
    rfl
  | _ => cases value

theorem integer_digits (written : z.natAbs < 2 ^ 53 ∨ v.plainText.toInt? = some z) : v.plainText.toInt? = some z := by
  rcases written with small | exact_digits
  · cases v with
    | finite q =>
      cases value
      rw [plain_text_integer small, Int.toInt?_repr]
    | negZero =>
      have none : z = 0 := by exact_mod_cast (Option.some.inj value).symm
      rw [none, show negZero.plainText = "-" ++ (0 : Nat).repr by decide, String.toInt?_minus_append, Nat.toNat?_repr]
      rfl
    | _ => cases value
  · exact exact_digits

end

end Number

theorem number_code_integral (v : Number) (type : ValueType) (integral : type.isIntegral = true) :
    numberCode v type = v.plainText := if_pos integral

namespace Setting

inductive Operand (s : Setting) (p : Primitive) : Term → ((String → Int) → Int) → Prop
  | reference (b d : Block) (first second : Term) (kind : b.isReference = true) (declared : s.graph.decl? b = some d)
      (typed : d.type = some (.primitive p)) (visible : (s.scopes.lookup s.scope b.decl).isSome = true) :
      Operand s p (.node b first second) (fun env => env d.name)
  | literal (b : Block) (v : Number) (z : Int) (first second : Term) (kind : b.kind = .literal)
      (payload : b.payload = .number v)
      (typed : (literalType v b.type).isIntegral = true) (value : v.toRat? = some (z : ℚ)) (holds : p.Holds z)
      (written : z.natAbs < 2 ^ 53 ∨ v.plainText.toInt? = some z) : Operand s p (.node b first second) (fun _ => z)

section

variable (s : Setting) (p : Primitive) {b d : Block} {q : Partner}

theorem compile_reference (absent : ProgramFault) (first second : Term) (kind : b.isReference = true)
    (declared : s.graph.decl? b = some d) (visible : (s.scopes.lookup s.scope b.decl).isSome = true) :
    s.compile absent (.node b first second) = .ok { code := d.name, assignable := true, type := d.type } := by
  obtain ⟨entry, found⟩ := isSome_iff_exists.mp visible
  have reference : s.compile absent (.node b first second) = s.reference b := by
    simp only [Block.isReference, Bool.or_eq_true, decide_eq_true_eq] at kind
    rcases kind with kind | kind <;> rw [compile] <;> simp only [kind]
  rw [reference, Setting.reference, found, declared]

omit s in
theorem integral_numeric (type : ValueType) (integral : type.isIntegral = true) : type.isNumeric = true := by
  cases type with
  | primitive q => cases q <;> first | rfl | cases integral
  | array element size => cases integral

theorem compile_literal (absent : ProgramFault) {v : Number} {z : Int} (first second : Term) (kind : b.kind = .literal)
    (payload : b.payload = .number v) (typed : (literalType v b.type).isIntegral = true)
    (value : v.toRat? = some (z : ℚ)) :
    s.compile absent (.node b first second) =
      .ok { code := v.plainText, precedence := .unary, type := some (literalType v b.type) } := by
  have numeric := integral_numeric _ typed
  rw [compile]
  simp only [kind]
  rw [literal, payload]
  simp [numeric, typed, v.integer_whole z value, number_code_integral v _ typed]

theorem checked_declared (checked : s.checkedDecl? b = some d) : s.graph.decl? b = some d := by
  unfold checkedDecl? at checked
  split_ifs at checked
  obtain ⟨e, found, same⟩ := bind_eq_some_iff.mp checked
  split_ifs at same
  cases same
  exact found

theorem literal_unchecked (kind : b.kind = .literal) : s.checkedDecl? b = none := by
  rw [checkedDecl?, if_pos (by rw [kind]; decide)]

-- What an operand is to a checked variable at its side.
inductive Beside (b : Block) (f : Fragment) : Partner → Prop
  | literal (v : Number) (kind : b.kind = .literal) (number : b.number? = some v) : Beside b f (.literal v)
  | reference (kind : b.isReference = true) : Beside b f (.reference f.type)

theorem Beside.no_number (kind : b.isReference = true) : (if b.kind = .literal then b.number? else none) = none := by
  refine if_neg fun same => ?_
  rw [Block.isReference, same] at kind
  cases kind

theorem guardable_left (b c d : Block) (l r : Fragment) (checked : s.checkedDecl? b = some d) (beside : Beside c r q) :
    of? s b c l r = some ⟨d, true, r.code, q⟩ := by
  unfold of?
  cases beside with
  | literal v kind number => simp only [checked, if_pos kind, number]
  | reference kind => simp only [checked, Beside.no_number kind, kind, if_true]

theorem guardable_right {c : Block} (l r : Fragment) (unchecked : s.checkedDecl? b = none)
    (checked : s.checkedDecl? c = some d) (beside : Beside b l q) :
    of? s b c l r = some ⟨d, false, l.code, q⟩ := by
  unfold of?
  cases beside with
  | literal v kind number => simp only [unchecked, checked, if_pos kind, number]
  | reference kind => simp only [unchecked, checked, Beside.no_number kind, kind, if_true]

structure Leaf (t : Term) (x : (String → Int) → Int) (b : Block) (f : Fragment) (q : Partner) : Prop where
  block : t.block? = some b
  compiled : ∀ absent, s.compile absent t = .ok f
  plain : f.checks = []
  numeric : f.isNumeric = true
  beside : Beside b f q
  whole : ∀ v, q = .literal v → v.isWhole = true
  denotes : ∀ (d : Block) (side : Bool) (env : String → Int), (⟨d, side, f.code, q⟩ : Guardable).Denotes p env (x env)
  checked : ∀ d, s.checkedDecl? b = some d → d.type = some (.primitive p) ∧ ∀ env : String → Int, x env = env d.name

theorem operand_leaf (integral : p.isIntegral = true) {t : Term} (x : (String → Int) → Int)
    (operand : s.Operand p t x) :
    ∃ b f q, s.Leaf p t x b f q := by
  cases operand with
  | reference b d first second kind declared typed visible =>
    have compiled := fun absent => s.compile_reference absent first second kind declared visible
    refine ⟨b, _, _, rfl, compiled, rfl, ?_, .reference kind, ?_, fun _ _ _ => rfl, fun e checked => ?_⟩
    · simp only [Fragment.isNumeric, typed, any_some]
      exact integral_numeric (.primitive p) integral
    · rintro v ⟨⟩
    · have same := s.checked_declared checked
      rw [declared] at same
      cases same
      exact ⟨typed, fun _ => rfl⟩
  | literal b v z first second kind payload typed value holds written =>
    have compiled := fun absent => s.compile_literal absent first second kind payload typed value
    have digits := v.integer_digits z value written
    have number : b.number? = some v := by
      rw [Block.number?, payload]
      rfl
    refine ⟨b, _, _, rfl, compiled, rfl, ?_, .literal v kind number, ?_, fun d side env => ?_, fun d checked => ?_⟩
    · exact integral_numeric _ typed
    · rintro _ ⟨⟩
      exact v.integer_whole z value
    · exact ⟨by rw [number_code_integral v (.primitive p) integral]; exact digits, digits, v.integer_sign z value⟩
    · rw [s.literal_unchecked kind] at checked
      cases checked

theorem compile_guarded (b c d : Block) (left right : Term) (l r : Fragment) (w : Guardable) (absent : ProgramFault)
    (op : b.kind = .add ∨ b.kind = .sub) (blocks : left.block? = some c ∧ right.block? = some d)
    (compiled : (∀ absent, s.compile absent left = .ok l) ∧ ∀ absent, s.compile absent right = .ok r)
    (numeric : l.isNumeric = true ∧ r.isNumeric = true) (plain : l.checks = [] ∧ r.checks = [])
    (found : of? s c d l r = some w) (typed : w.decl.type = some (.primitive p)) :
    ∃ f check, s.compile absent (.node b left right) = .ok f ∧ f.checks = [check] ∧
      check.lines = guardLines s.inHandler (w.condition (b.kind = .add) (.primitive p))
        (w.message (b.kind = .add) (.primitive p)) ∧ .bundled "RangeChecks" ∈ check.headers := by
  have arithmetic : s.compile absent (.node b left right) = s.arithmetic b c d l r := by
    rw [compile]
    rcases op with kind | kind <;> simp only [kind, operands, blocks.1, blocks.2, compiled.1, compiled.2] <;> rfl
  have product : b.kind ≠ .mult := by
    rcases op with kind | kind <;> rw [kind] <;> decide
  obtain ⟨check, guard, lines, headers⟩ : ∃ check, s.overflowCheck? b c d l r = some check ∧
      check.lines = guardLines s.inHandler (w.condition (b.kind = .add) (.primitive p))
        (w.message (b.kind = .add) (.primitive p)) ∧ .bundled "RangeChecks" ∈ check.headers := by
    rw [overflowCheck?, found, bind_some, typed]
    exact ⟨_, rfl, rfl, List.mem_cons_self⟩
  rw [arithmetic, Setting.arithmetic, if_neg (by simp [numeric.1, numeric.2])]
  simp only [if_neg product, guard]
  refine ⟨_, check, rfl, ?_, lines, headers⟩
  simp only [Fragment.join, plain.1, plain.2, List.nil_append, toList_some]

end

end Setting

-- The guard of a sum or difference of one integer type is computed without overflow and says exactly whether
-- the operation overflows.
theorem overflow_guard_exact (s : Setting) (p : Primitive) (integral : p.isIntegral = true) (b : Block)
    (left right : Term) (x y : (String → Int) → Int) (op : b.kind = .add ∨ b.kind = .sub) (first : s.Operand p left x)
    (second : s.Operand p right y)
    (checked : (left.block?.bind s.checkedDecl?).isSome = true ∨ (right.block?.bind s.checkedDecl?).isSome = true)
    (absent : ProgramFault) :
    ∃ (f : Fragment) (check : Check) (test : GuardTest) (message : String),
      s.compile absent (.node b left right) = .ok f ∧ f.checks = [check] ∧
        check.lines = guardLines s.inHandler (test.code p) message ∧ .bundled "RangeChecks" ∈ check.headers ∧
          test.family.lines <:+: Library.rangeChecks ∧ ∀ env, p.Holds (x env) → p.Holds (y env) →
            test.truth p env = some (decide (¬ p.Holds (if b.kind = .add then x env + y env else x env - y env))) := by
  obtain ⟨c, l, q, leaf⟩ := s.operand_leaf p integral x first
  obtain ⟨d, r, q', leaf'⟩ := s.operand_leaf p integral y second
  -- it is left to say which variable is checked and what the test of its guard is true of
  suffices guarded : ∃ w, of? s c d l r = some w ∧ w.decl.type = some (.primitive p) ∧
      (∀ v, w.partner = .literal v → v.isWhole = true) ∧ ∀ env, p.Holds (x env) → p.Holds (y env) →
        (w.test (b.kind = .add) p).truth p env =
          some (decide (¬ p.Holds (if b.kind = .add then x env + y env else x env - y env))) by
    obtain ⟨w, found, typed, whole, exact_test⟩ := guarded
    obtain ⟨f, check, compiled, checks, lines, headers⟩ := s.compile_guarded p b c d left right l r w absent op
      ⟨leaf.block, leaf'.block⟩ ⟨leaf.compiled, leaf'.compiled⟩ ⟨leaf.numeric, leaf'.numeric⟩
        ⟨leaf.plain, leaf'.plain⟩ found typed
    rw [w.condition_test integral whole] at lines
    exact ⟨f, check, _, _, compiled, checks, lines, headers, w.test_written p, exact_test⟩
  cases asks : s.checkedDecl? c with
  | some e =>
    obtain ⟨typed, named⟩ := leaf.checked e asks
    refine ⟨_, s.guardable_left c d e l r asks leaf'.beside, typed, leaf'.whole, fun env holds holds' => ?_⟩
    have denotes := leaf'.denotes e true env
    rw [named] at holds ⊢
    rcases op with kind | kind
    · simp only [kind, decide_true, if_true]
      exact sum_truth _ p env _ denotes integral holds holds'
    · simp only [kind, reduceCtorEq, decide_false, if_false]
      exact difference_truth _ p env _ denotes integral holds holds'
  | none =>
    rw [leaf.block, leaf'.block, bind_some, bind_some, asks] at checked
    obtain ⟨e, asks'⟩ := isSome_iff_exists.mp (checked.resolve_left (by simp))
    obtain ⟨typed, named⟩ := leaf'.checked e asks'
    refine ⟨_, s.guardable_right l r asks asks' leaf.beside, typed, leaf.whole, fun env holds holds' => ?_⟩
    have denotes := leaf.denotes e false env
    rw [named] at holds' ⊢
    rcases op with kind | kind
    · simp only [kind, decide_true, if_true]
      rw [Int.add_comm]
      exact sum_truth _ p env _ denotes integral holds' holds
    · simp only [kind, reduceCtorEq, decide_false, if_false]
      exact difference_truth _ p env _ denotes integral holds' holds

def leastByte : Setting where
  graph := { blocks := #[{ id := 1, kind := .variableDecl, name := "x", type := some .byte, checked := true }] }
  scopes := #[{ parent := none, declared := [1] }]
  scope := 0
  inHandler := false

def leastByteLeft : Term :=
  .node { id := 3, kind := .literal, type := some .byte, payload := .number (.finite (-128)) } .missing .missing

def leastByteRight : Term := .node { id := 4, kind := .varRef, name := "x", decl := 1 } .missing .missing

theorem least_byte_operands :
    leastByte.Operand .byte leastByteLeft (fun _ => -128) ∧ leastByte.Operand .byte leastByteRight
      (fun env => env "x") :=
  ⟨.literal _ (.finite (-128)) (-128) _ _ rfl rfl rfl (by simp [Number.toRat?]) (by decide) (.inl (by decide)),
    .reference _ { id := 1, kind := .variableDecl, name := "x", type := some .byte, checked := true } _ _ rfl
      rfl rfl rfl⟩

theorem least_byte_guarded :
    Primitive.byte.isIntegral = true ∧ (leastByteRight.block?.bind leastByte.checkedDecl?).isSome = true ∧
      ∀ absent, ∃ (f : Fragment) (check : Check) (test : GuardTest) (message : String),
        leastByte.compile absent (.node { id := 2, kind := .sub } leastByteLeft leastByteRight) = .ok f ∧
          f.checks = [check] ∧
          check.lines = guardLines false (test.code .byte) message ∧ .bundled "RangeChecks" ∈ check.headers ∧
            test.family.lines <:+: Library.rangeChecks ∧ ∀ env, Primitive.byte.Holds (-128) →
              Primitive.byte.Holds (env "x") →
              test.truth .byte env = some (decide (¬ Primitive.byte.Holds (-128 - env "x"))) := by
  refine ⟨rfl, by decide, fun absent => ?_⟩
  exact overflow_guard_exact leastByte .byte rfl { id := 2, kind := .sub } leastByteLeft leastByteRight (fun _ => -128)
    (fun env => env "x") (.inr rfl) least_byte_operands.1 least_byte_operands.2 (.inr (by decide)) absent

-- Beyond the precision the digits written are not those of the integer: two to the sixty-two is written as a larger
-- one.
def roundedText : String :=
  "main:\n- \x7bvar: x, type: long, checked: true\x7d\n- set: \x7bref: x\x7d\n  to: \x7badd: [\x7bref: x\x7d, " ++
    "\x7blit: 4611686018427387904, type: long\x7d]\x7d\n"

def roundedTest : GuardTest := .beyond "x" true .addition "maxPositive" "4611686018427388000"

theorem rounded_test_truth (x : Int) :
    roundedTest.truth .long (fun _ => x) = some (decide (4611686018427387807 < x)) := by
  have digits : "4611686018427388000".toInt? = some 4611686018427388000 := by
    rw [show "4611686018427388000" = (4611686018427388000 : Int).repr by decide +kernel, Int.toInt?_repr]
  rw [roundedTest, GuardTest.beyond_truth _ digits
    ((RangeFamily.addition_limits .long rfl (by decide)).1 (by decide))]
  rfl

set_option maxRecDepth 10000 in
theorem rounded_guard_inexact :
    ((Document.load roundedText).toOption.bind fun g => (g.generate .always).toOption.map Program.main) =
        some ("#include <iostream>\n#include \"lib/RangeChecks.h\"\n\nint main() \x7b\n    long x;\n    if (" ++
          roundedTest.code .long ++ ") \x7b\n        std::cerr << \"Variable 'x' (value \" << x << " ++
          "\") would overflow upon adding 4611686018427388000\" << std::endl;\n        return 1;\n    \x7d\n" ++
          "    x = x + 4611686018427388000;\n    return 0;\n\x7d\n") ∧
      Primitive.long.Holds (4611686018427387903 + 4611686018427387904) ∧
        roundedTest.truth .long (fun _ => 4611686018427387903) = some true := by
  refine ⟨by decide +kernel, by decide, ?_⟩
  rw [rounded_test_truth]
  decide

end Blockwork
