import Blockwork.Proofs.RangeChecks

set_option autoImplicit false

namespace Blockwork

variable {z : Int}

namespace Primitive

-- The values of a type lie from the negative of its reach up to below it.
def reach (p : Primitive) : Int := 2 ^ (p.bits - 1)

variable (p : Primitive)

theorem holds_reach : p.Holds z ↔ -p.reach ≤ z ∧ z < p.reach := by
  simp only [Holds, lowest, highest, reach]
  omega

theorem convert_within (integral : p.isIntegral = true) (z : Int) : p.Holds (p.convert z) := by
  have positive : 0 < 2 ^ p.bits := by positivity
  have low := Int.le_bmod (x := z) positive
  have high := Int.bmod_lt (x := z) positive
  cases p with
  | byte | int | long =>
    simp only [Holds, lowest, highest, bits, convert] at low high ⊢
    omega
  | _ => cases integral

theorem convert_shift (integral : p.isIntegral = true) {c : Int} (multiple : (2 ^ p.bits : Int) ∣ c)
    (holds : p.Holds (z - c)) : p.convert z = z - c := by
  obtain ⟨k, rfl⟩ := multiple
  have shifted := Int.add_mul_bmod_self_left (z - 2 ^ p.bits * k) (2 ^ p.bits) k
  rw [show z - 2 ^ p.bits * k + ((2 ^ p.bits : ℕ) : Int) * k = z by push_cast; ring] at shifted
  exact shifted.trans (p.convert_holds integral holds)

variable (p q : Primitive)

theorem rank_injective (integral : p.isIntegral = true) (integral' : q.isIntegral = true)
    (same : p.rank = q.rank) : p = q := by
  cases p <;> cases q <;> simp_all [isIntegral, rank]

section Narrow

variable (p q : Primitive) (integral : p.isIntegral = true) (integral' : q.isIntegral = true) (narrow : p.rank < q.rank)

include integral integral' narrow

theorem narrow_reach : p.reach ≤ q.reach ∧ (2 ^ p.bits : Int) ∣ q.reach := by
  cases p <;> cases q <;> simp_all [isIntegral, rank, reach, bits]

variable (x y : Int) (right : q.Holds y)

include right

-- Converting a value near an end of the wider type takes that end to zero, so what leaves the wider type looks small in
-- the narrower.
omit x in
theorem convert_near_top (near : q.reach - p.reach ≤ y) : p.convert y = y - q.reach := by
  obtain ⟨-, multiple⟩ := p.narrow_reach q integral integral' narrow
  rw [holds_reach] at right
  exact p.convert_shift integral multiple ((p.holds_reach).mpr ⟨by omega, by omega⟩)

omit x in
theorem convert_near_bottom (near : y < p.reach - q.reach) : p.convert y = y + q.reach := by
  obtain ⟨-, multiple⟩ := p.narrow_reach q integral integral' narrow
  rw [holds_reach] at right
  rw [← sub_neg_eq_add]
  exact p.convert_shift integral (Int.dvd_neg.mpr multiple) ((p.holds_reach).mpr ⟨by omega, by omega⟩)

variable (left : p.Holds x)

include left

theorem escapes : (¬ q.Holds (x + y) → p.Holds (x + p.convert y)) ∧ (¬ q.Holds (x - y) → p.Holds (x - p.convert y)) ∧
    (¬ q.Holds (y - x) → p.Holds (p.convert y - x)) := by
  have top := p.convert_near_top q integral integral' narrow y right
  have bottom := p.convert_near_bottom q integral integral' narrow y right
  simp only [holds_reach] at left right ⊢
  refine ⟨fun outside => ?_, fun outside => ?_, fun outside => ?_⟩
  · rcases lt_or_ge (x + y) q.reach with below | above
    · rw [bottom (by omega)]
      omega
    · rw [top (by omega)]
      omega
  · rcases lt_or_ge (x - y) q.reach with below | above
    · rw [top (by omega)]
      omega
    · rw [bottom (by omega)]
      omega
  · rcases lt_or_ge (y - x) q.reach with below | above
    · rw [bottom (by omega)]
      omega
    · rw [top (by omega)]
      omega

end Narrow

theorem holds_of_rank (integral : p.isIntegral = true) (integral' : q.isIntegral = true)
    (rank : p.rank ≤ q.rank) (holds : p.Holds z) : q.Holds z := by
  rcases rank.lt_or_eq with narrow | same
  · obtain ⟨order, -⟩ := p.narrow_reach q integral integral' narrow
    rw [holds_reach] at holds ⊢
    omega
  · exact p.rank_injective q integral integral' same ▸ holds

theorem promote_wider (integral : p.isIntegral = true) (integral' : q.isIntegral = true) :
    ∃ wide : Primitive, (ValueType.primitive p).promote? (.primitive q) = some (.primitive wide) ∧
      (wide = p ∧ q.rank ≤ p.rank ∨ wide = q ∧ p.rank < q.rank) := by
  have numeric := Setting.integral_numeric (.primitive p) integral
  have numeric' := Setting.integral_numeric (.primitive q) integral'
  by_cases same : p = q
  · exact ⟨p, by rw [same, ValueType.promote?, if_pos rfl], .inl ⟨rfl, same ▸ le_rfl⟩⟩
  · have promoted : (ValueType.primitive p).promote? (.primitive q) =
        some (if q.rank ≤ p.rank then .primitive p else .primitive q) := by
      rw [ValueType.promote?, if_neg (by simpa using same)]
      exact if_pos (Bool.and_eq_true_iff.mpr ⟨numeric, numeric'⟩)
    rcases le_or_gt q.rank p.rank with wider | narrower
    · exact ⟨p, by rw [promoted, if_pos wider], .inl ⟨rfl, wider⟩⟩
    · exact ⟨q, by rw [promoted, if_neg (not_le.mpr narrower)], .inr ⟨rfl, narrower⟩⟩

end Primitive

namespace RangeFamily

variable (p : Primitive) (integral : p.isIntegral = true) (a b : Int)

include integral in
theorem safe_converted (f : RangeFamily) : f.isSafe p a b = f.isSafe p (p.convert a) (p.convert b) := by
  rw [isSafe, isSafe, p.convert_holds integral (p.convert_within integral a),
    p.convert_holds integral (p.convert_within integral b)]

include integral in
theorem addition_safe_converted : addition.isSafe p a b = some (decide (p.Holds (p.convert a + p.convert b))) := by
  rw [safe_converted p integral]
  exact addition_safe p integral _ _ (p.convert_within integral a) (p.convert_within integral b)

include integral in
theorem subtraction_safe_converted :
    subtraction.isSafe p a b = some (decide (p.Holds (p.convert a - p.convert b))) := by
  rw [safe_converted p integral]
  exact subtraction_safe p integral _ _ (p.convert_within integral a) (p.convert_within integral b)

end RangeFamily

-- What a guard at one type tells about a result in a wider one: all there is to know if it is the same type, and
-- nothing of an overflow if it is not.
def GuardTest.Tells (test : GuardTest) (p wide : Primitive) (env : String → Int) (result : Int) : Prop :=
  ∃ overflows, test.truth p env = some overflows ∧ (p = wide → (overflows = true ↔ ¬ wide.Holds result)) ∧
    (p ≠ wide → ¬ wide.Holds result → overflows = false)

namespace Guardable

def result (w : Guardable) (isSum : Bool) (c z : Int) : Int :=
  if isSum then c + z else if w.onLeft then c - z else z - c

theorem reference_truth (w : Guardable) (isSum : Bool) {p : Primitive} (integral : p.isIntegral = true)
    (env : String → Int)
    {type : Option ValueType} (beside : w.partner = .reference type) (checked : p.Holds (env w.decl.name)) :
    (w.test isSum p).truth p env =
      some (decide (¬ p.Holds (w.result isSum (env w.decl.name) (p.convert (env w.other))))) := by
  obtain ⟨decl, onLeft, other, partner⟩ := w
  cases beside
  have kept := p.convert_holds integral checked
  cases isSum <;> cases onLeft
  all_goals simp only [test, argument, result, Bool.false_eq_true, if_false, if_true]
  case false.false | false.true =>
    rw [GuardTest.overflows_truth env rfl rfl (RangeFamily.subtraction_safe_converted p integral _ _), kept]
    simp
  case true.false | true.true =>
    rw [GuardTest.overflows_truth env rfl rfl (RangeFamily.addition_safe_converted p integral _ _), kept]
    simp

theorem result_escapes (w : Guardable) {isSum : Bool} {p q : Primitive} (integral : p.isIntegral = true)
    (integral' : q.isIntegral = true) (narrow : p.rank < q.rank) {c : Int} (checked : p.Holds c) (other : q.Holds z)
    (outside : ¬ q.Holds (w.result isSum c z)) : p.Holds (w.result isSum c (p.convert z)) := by
  unfold result at outside ⊢
  split_ifs at outside ⊢
  · exact (p.escapes q integral integral' narrow c z other checked).1 outside
  · exact (p.escapes q integral integral' narrow c z other checked).2.1 outside
  · exact (p.escapes q integral integral' narrow c z other checked).2.2 outside

section Mixed

variable (w : Guardable) (isSum : Bool) (p q wide : Primitive) (integral : p.isIntegral = true)
  (integral' : q.isIntegral = true) (env : String → Int) (type : Option ValueType)
  (beside : w.partner = .reference type) (checked : p.Holds (env w.decl.name)) (other : q.Holds (env w.other))

include integral integral' beside checked other

theorem mixed_truth (widest : wide = p ∧ q.rank ≤ p.rank ∨ wide = q ∧ p.rank < q.rank) :
    (w.test isSum p).Tells p wide env (w.result isSum (env w.decl.name) (env w.other)) := by
  refine ⟨_, w.reference_truth isSum integral env beside checked, fun same => ?_, fun different outside => ?_⟩
  · have narrower : q.rank ≤ p.rank := by
      rcases widest with ⟨-, rank⟩ | ⟨rfl, rank⟩
      · exact rank
      · exact absurd rank (by rw [same]; exact lt_irrefl _)
    rw [p.convert_holds integral (q.holds_of_rank p integral' integral narrower other), decide_eq_true_iff, same]
  · rcases widest with ⟨rfl, -⟩ | ⟨rfl, narrow⟩
    · exact absurd rfl different
    · rw [decide_eq_false_iff_not, not_not]
      exact w.result_escapes integral integral' narrow checked other outside

end Mixed

end Guardable

namespace Setting

structure Reads (s : Setting) (p : Primitive) (t : Term) (b d : Block) : Prop where
  block : t.block? = some b
  kind : b.isReference = true
  declared : s.graph.decl? b = some d
  typed : d.type = some (.primitive p)
  visible : (s.scopes.lookup s.scope b.decl).isSome = true

variable {b c e : Block} {left right : Term}

theorem Reads.compiled {s : Setting} {p : Primitive} {t : Term} {d : Block} (reads : s.Reads p t b d)
    (absent : ProgramFault) :
    s.compile absent t = .ok { code := d.name, assignable := true, type := some (.primitive p) } := by
  cases t with
  | missing => cases reads.block
  | node c first second =>
    cases reads.block
    rw [s.compile_reference absent first second reads.kind reads.declared reads.visible, reads.typed]

theorem compile_sum_type (s : Setting) {l r f : Fragment} {absent : ProgramFault} (op : b.kind = .add ∨ b.kind = .sub)
    (blocks : left.block? = some c ∧ right.block? = some e)
    (compiled : (∀ absent, s.compile absent left = .ok l) ∧ ∀ absent, s.compile absent right = .ok r)
    (whole : s.compile absent (.node b left right) = .ok f) : f.type = promoted l r := by
  have arithmetic : s.compile absent (.node b left right) = s.arithmetic b c e l r := by
    rw [compile]
    rcases op with kind | kind <;> simp only [kind, operands, blocks.1, blocks.2, compiled.1, compiled.2] <;> rfl
  rw [arithmetic, Setting.arithmetic] at whole
  split_ifs at whole <;> cases whole <;> rfl

theorem reads_guarded (s : Setting) {p q t : Primitive} (integral : p.isIntegral = true)
    (integral' : q.isIntegral = true) (integralAt : t.isIntegral = true) {x y : Block}
    (op : b.kind = .add ∨ b.kind = .sub) (first : s.Reads p left c x) (second : s.Reads q right e y) {w : Guardable}
    {type : Option ValueType}
    (found : Guardable.of? s c e { code := x.name, assignable := true, type := some (.primitive p) }
      { code := y.name, assignable := true, type := some (.primitive q) } = some w)
    (typed : w.decl.type = some (.primitive t)) (beside : w.partner = .reference type) (absent : ProgramFault) :
    ∃ (f : Fragment) (check : Check) (message : String), s.compile absent (.node b left right) = .ok f ∧
      f.type = (ValueType.primitive p).promote? (.primitive q) ∧ f.checks = [check] ∧
        check.lines = guardLines s.inHandler ((w.test (b.kind = .add) t).code t) message ∧
          .bundled "RangeChecks" ∈ check.headers := by
  have blocks := And.intro first.block second.block
  have compiled := And.intro (first.compiled) (second.compiled)
  have whole : ∀ v, w.partner = .literal v → v.isWhole = true := by
    rw [beside]
    rintro v ⟨⟩
  obtain ⟨f, check, made, checks, lines, headers⟩ :=
    s.compile_guarded t b c e left right _ _ w absent op blocks compiled
    ⟨integral_numeric (.primitive p) integral, integral_numeric (.primitive q) integral'⟩ ⟨rfl, rfl⟩ found typed
  rw [w.condition_test integralAt whole] at lines
  exact ⟨f, check, _, made, s.compile_sum_type op blocks compiled made, checks, lines, headers⟩

end Setting

-- The guard of a sum or difference of two variables is called at the type of the checked one. Where that is the type
-- the operation is computed in, it says exactly whether the operation overflows; where it is the narrower one, the
-- guard passes whenever the operation overflows.
theorem mixed_guard_at_checked_type (s : Setting) (p q : Primitive) (integral : p.isIntegral = true)
    (integral' : q.isIntegral = true) (b c e x y : Block) (left right : Term) (op : b.kind = .add ∨ b.kind = .sub)
    (first : s.Reads p left c x) (second : s.Reads q right e y)
    (checked : (s.checkedDecl? c).isSome = true ∨ (s.checkedDecl? e).isSome = true) (absent : ProgramFault) :
    ∃ (t wide : Primitive) (f : Fragment) (check : Check) (test : GuardTest) (message : String),
      t = (if (s.checkedDecl? c).isSome = true then p else q) ∧
      (ValueType.primitive p).promote? (.primitive q) = some (.primitive wide) ∧
      s.compile absent (.node b left right) = .ok f ∧ f.type = some (.primitive wide) ∧ f.checks = [check] ∧
        check.lines = guardLines s.inHandler (test.code t) message ∧ .bundled "RangeChecks" ∈ check.headers ∧
          test.family.lines <:+: Library.rangeChecks ∧
            ∀ env : String → Int, p.Holds (env x.name) → q.Holds (env y.name) →
              test.Tells t wide env (if b.kind = .add then env x.name + env y.name else env x.name - env y.name) := by
  obtain ⟨wide, promoted, widest⟩ := p.promote_wider q integral integral'
  cases asks : s.checkedDecl? c with
  | some d =>
    have same := s.checked_declared asks
    rw [first.declared] at same
    cases same
    obtain ⟨f, check, message, compiled, type, checks, lines, headers⟩ := s.reads_guarded integral integral' integral op
      first second (s.guardable_left c e x _ _ asks (.reference second.kind)) first.typed rfl absent
    refine ⟨p, wide, f, check, _, message, rfl, promoted, compiled, type.trans promoted, checks, lines, headers,
      Guardable.test_written _ _, fun env holds holds' => ?_⟩
    have tells := Guardable.mixed_truth ⟨x, true, y.name, .reference (some (.primitive q))⟩
      (b.kind = .add) p q wide integral
      integral' env _ rfl holds holds' widest
    rcases op with kind | kind <;> simpa [Guardable.result, kind] using tells
  | none =>
    rw [asks] at checked
    obtain ⟨d, asks'⟩ := Option.isSome_iff_exists.mp (checked.resolve_left (by simp))
    have same := s.checked_declared asks'
    rw [second.declared] at same
    cases same
    obtain ⟨f, check, message, compiled, type, checks, lines, headers⟩ := s.reads_guarded integral integral' integral'
      op first second (s.guardable_right _ _ asks asks' (.reference first.kind)) second.typed
      rfl absent
    refine ⟨q, wide, f, check, _, message, rfl, promoted, compiled, type.trans promoted, checks, lines, headers,
      Guardable.test_written _ _, fun env holds holds' => ?_⟩
    have swapped : wide = q ∧ p.rank ≤ q.rank ∨ wide = p ∧ q.rank < p.rank := by
      rcases widest with ⟨rfl, rank⟩ | ⟨rfl, rank⟩
      · rcases rank.lt_or_eq with narrow | same
        · exact .inr ⟨rfl, narrow⟩
        · exact .inl ⟨(q.rank_injective wide integral' integral same).symm, same.symm.le⟩
      · exact .inl ⟨rfl, rank.le⟩
    have tells := Guardable.mixed_truth ⟨y, false, x.name, .reference (some (.primitive p))⟩
      (b.kind = .add) q p wide integral'
      integral env _ rfl holds' holds swapped
    rcases op with kind | kind
    · rw [if_pos kind, Int.add_comm]
      simpa [Guardable.result, kind] using tells
    · simpa [Guardable.result, kind] using tells

def byteLong : Setting where
  graph :=
    { blocks := #[{ id := 1, kind := .variableDecl, name := "x", type := some .byte },
        { id := 2, kind := .variableDecl, name := "y", type := some .long, checked := true }] }
  scopes := #[{ parent := none, declared := [1, 2] }]
  scope := 0
  inHandler := false

def byteLongLeft : Block := { id := 3, kind := .varRef, name := "x", decl := 1 }

def byteLongRight : Block := { id := 4, kind := .varRef, name := "y", decl := 2 }

theorem byte_long_guarded :
    Primitive.byte.isIntegral = true ∧ Primitive.long.isIntegral = true ∧
      (byteLong.checkedDecl? byteLongRight).isSome = true ∧
      ∀ absent, ∃ (f : Fragment) (check : Check) (test : GuardTest) (message : String),
        byteLong.compile absent (.node { id := 5, kind := .sub } (.node byteLongLeft .missing .missing)
          (.node byteLongRight .missing .missing)) = .ok f ∧ f.type = some .long ∧ f.checks = [check] ∧
        check.lines = guardLines false (test.code .long) message ∧
          ∀ env : String → Int, Primitive.byte.Holds (env "x") → Primitive.long.Holds (env "y") →
            test.truth .long env = some (decide (¬ Primitive.long.Holds (env "x" - env "y"))) := by
  refine ⟨rfl, rfl, by decide, fun absent => ?_⟩
  obtain ⟨t, wide, f, check, test, message, rfl, promoted, compiled, type, checks, lines, -, -, tells⟩ :=
    mixed_guard_at_checked_type byteLong .byte .long rfl rfl { id := 5, kind := .sub } byteLongLeft byteLongRight
      { id := 1, kind := .variableDecl, name := "x", type := some .byte }
      { id := 2, kind := .variableDecl, name := "y", type := some .long, checked := true }
        (.node byteLongLeft .missing .missing)
      (.node byteLongRight .missing .missing) (.inr rfl) ⟨rfl, rfl, rfl, rfl, by decide⟩ ⟨rfl, rfl, rfl, rfl, by decide⟩
      (.inr (by decide)) absent
  obtain rfl : wide = .long := by
    have same : (ValueType.primitive .byte).promote? (.primitive .long) = some (.primitive .long) := by decide
    exact ValueType.primitive.inj (Option.some.inj (promoted.symm.trans same))
  have at_long : (if (byteLong.checkedDecl? byteLongLeft).isSome = true then Primitive.byte else .long) =
    .long := by decide
  rw [at_long] at lines tells
  refine ⟨f, check, test, message, compiled, type, checks, lines, fun env holds holds' => ?_⟩
  obtain ⟨overflows, truth, exact_, -⟩ := tells env holds holds'
  rw [truth, Option.some_inj, Bool.eq_iff_iff, exact_ rfl, decide_eq_true_iff]
  rfl

def narrowText : String :=
  "main:\n- \x7bvar: x, type: byte, checked: true\x7d\n- \x7bvar: y, type: int\x7d\n" ++
    "- print: \x7badd: [\x7bref: x\x7d, \x7bref: y\x7d]\x7d\n"

def narrowTest : GuardTest := .overflows .addition (.variable "x") (.variable "y")

set_option maxRecDepth 10000 in
theorem narrow_guard_passes :
    ((Document.load narrowText).toOption.bind fun g => (g.generate .always).toOption.map Program.main) =
        some (
          "#include <iostream>\n#include \"lib/RangeChecks.h\"\n\nint main() \x7b\n    char x;\n    int y;\n    if (" ++
          narrowTest.code .byte ++ ") \x7b\n        std::cerr << \"Variable 'x' (value \" << (int)x << " ++
          "\") would overflow upon adding 'y' (value \" << y << \")\" << std::endl;\n        return 1;\n    \x7d\n" ++
          "    std::cout << x + y << std::endl;\n    return 0;\n\x7d\n") ∧
      ValueType.byte.promote? .int = some .int ∧ Primitive.byte.Holds 1 ∧ Primitive.int.Holds 2147483647 ∧
        narrowTest.truth .byte (fun name => if name = "x" then 1 else 2147483647) = some false ∧
          ¬ Primitive.int.Holds (1 + 2147483647) := by
  decide +kernel

end Blockwork
