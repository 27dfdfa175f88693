import Blockwork.Constraint.Reduce
import Blockwork.Proofs.Rounding
import Mathlib

set_option autoImplicit false

namespace Blockwork

open List Number

variable {q : Quantity} {x : Number} {vs : List Number} {s : ValueSet} {domain : Option ValueType}

inductive Value where
  | number (q : Quantity)
  | text (s : String)
  | truth (b : Bool)
  | array (items : List Value)

namespace Interval

-- A bound that is undefined bounds nothing.
def Holds (i : Interval) (q : Quantity) : Prop :=
  (∀ p, i.lo.quantity? = some p → p < q ∨ (p = q ∧ i.loExclusive = false)) ∧
    (∀ p, i.hi.quantity? = some p → q < p ∨ (q = p ∧ i.hiExclusive = false))

theorem holds_lo (i : Interval) (inside : i.Holds q) : i.lo.AtMost q := by
  intro p defined
  rcases inside.1 p defined with less | ⟨same, _⟩
  · exact less.le
  · exact same.le

theorem holds_hi (i : Interval) (inside : i.Holds q) : i.hi.AtLeast q := by
  intro p defined
  rcases inside.2 p defined with less | ⟨same, _⟩
  · exact less.le
  · exact same.le

end Interval

mutual

-- Membership of a value, given the values that the expressions kept in a set leave.
def ValueSet.Has (kept : Expr → Value → Prop) (v : Value) : ValueSet → Prop
  | .universal _ => True
  | .empty => False
  | .values vs => ∃ x ∈ vs, ∃ q, x.quantity? = some q ∧ v = .number q
  | .interval i => ∃ q, v = .number q ∧ i.Holds q
  | .union ms => ValueSet.HasAny kept v ms
  | .inter ms => ValueSet.HasAll kept v ms
  | .solutions e => kept e v

def ValueSet.HasAny (kept : Expr → Value → Prop) (v : Value) : List ValueSet → Prop
  | [] => False
  | m :: ms => m.Has kept v ∨ ValueSet.HasAny kept v ms

def ValueSet.HasAll (kept : Expr → Value → Prop) (v : Value) : List ValueSet → Prop
  | [] => True
  | m :: ms => m.Has kept v ∧ ValueSet.HasAll kept v ms

end

namespace ValueSet

variable (kept : Expr → Value → Prop)

theorem has_any_iff (v : Value) (ms : List ValueSet) : HasAny kept v ms ↔ ∃ m ∈ ms, m.Has kept v := by
  induction ms with
  | nil => simp [HasAny]
  | cons m ms ih => simp [HasAny, ih]

theorem has_all_iff (v : Value) (ms : List ValueSet) : HasAll kept v ms ↔ ∀ m ∈ ms, m.Has kept v := by
  induction ms with
  | nil => simp [HasAll]
  | cons m ms ih => simp [HasAll, ih]

theorem parts_induction {motive : ValueSet → Prop} (universal : ∀ t, motive (.universal t)) (empty : motive .empty)
    (values : ∀ vs, motive (.values vs)) (interval : ∀ i, motive (.interval i))
    (union : ∀ ms, (∀ m ∈ ms, motive m) → motive (.union ms)) (inter : ∀ ms, (∀ m ∈ ms, motive m) → motive (.inter ms))
    (solutions : ∀ e, motive (.solutions e)) (s : ValueSet) : motive s := by
  cases s with
  | union ms => exact union ms fun m _ => parts_induction universal empty values interval union inter solutions m
  | inter ms => exact inter ms fun m _ => parts_induction universal empty values interval union inter solutions m
  | universal t => exact universal t
  | empty => exact empty
  | values vs => exact values vs
  | interval i => exact interval i
  | solutions e => exact solutions e

end ValueSet

namespace Interval

theorem contains_iff (i : Interval) (defined : x.quantity? = some q) : i.contains x = true ↔ i.Holds q := by
  have lower : (!(x.lt i.lo || (i.loExclusive && x.eq i.lo))) = true ↔
      ∀ p, i.lo.quantity? = some p → p < q ∨ (p = q ∧ i.loExclusive = false) := by
    cases bound : i.lo.quantity? with
    | none =>
      rw [quantity_none bound]
      cases x <;> simp [lt, eq]
    | some p =>
      rw [lt_decide defined bound, eq_decide defined bound]
      cases i.loExclusive
      · simp [le_iff_lt_or_eq]
      · simp
        exact ⟨fun inside => lt_of_le_of_ne inside.1 (Ne.symm inside.2), fun less => ⟨less.le, less.ne'⟩⟩
  have upper : (!(i.hi.lt x || (i.hiExclusive && x.eq i.hi))) = true ↔
      ∀ p, i.hi.quantity? = some p → q < p ∨ (q = p ∧ i.hiExclusive = false) := by
    cases bound : i.hi.quantity? with
    | none =>
      rw [quantity_none bound]
      cases x <;> simp [lt, eq]
    | some p =>
      rw [lt_decide bound defined, eq_decide defined bound]
      cases i.hiExclusive
      · simp [le_iff_lt_or_eq]
      · simp [lt_iff_le_and_ne (a := q)]
  rw [contains, Bool.and_eq_true, lower, upper]
  rfl

theorem meet_holds (a b : Interval) (left : a.Holds q) (right : b.Holds q) : (a.meet b).Holds q := by
  unfold meet
  constructor
  · dsimp only
    split_ifs with less same
    · exact right.1
    · obtain ⟨p, defined, defined'⟩ := eq_defined same
      intro p' inside
      rcases left.1 p' inside with below | ⟨rfl, included⟩
      · exact .inl below
      · rcases right.1 p' (by rw [defined, ← defined', inside]) with below | ⟨_, included'⟩
        · exact .inl below
        · exact .inr ⟨rfl, by simp [included, included']⟩
    · exact left.1
  · dsimp only
    split_ifs with less same
    · exact right.2
    · obtain ⟨p, defined, defined'⟩ := eq_defined same
      intro p' inside
      rcases left.2 p' inside with above | ⟨rfl, included⟩
      · exact .inl above
      · rcases right.2 q (by rw [defined, ← defined', inside]) with above | ⟨_, included'⟩
        · exact .inl above
        · exact .inr ⟨rfl, by simp [included, included']⟩
    · exact left.2

theorem not_void (i : Interval) (inside : i.Holds q) : i.isVoid = false := by
  rw [isVoid, Bool.or_eq_false_iff]
  constructor
  · rw [← Bool.not_eq_true]
    intro less
    obtain ⟨p, r, hi, lo, order⟩ := lt_defined less
    exact absurd (i.holds_lo inside r lo) (not_le.mpr (lt_of_le_of_lt (i.holds_hi inside p hi) order))
  · rw [← Bool.not_eq_true, Bool.and_eq_true, not_and]
    intro same exclusive
    obtain ⟨p, lo, hi⟩ := eq_defined same
    rcases inside.1 p lo with below | ⟨rfl, included⟩
    · exact absurd (i.holds_hi inside p hi) (not_le.mpr below)
    · rcases inside.2 p hi with above | ⟨_, included'⟩
      · exact lt_irrefl p above
      · simp [included, included'] at exclusive

end Interval

namespace Number

theorem member_of_iff (vs : List Number) (defined : x.quantity? = some q) :
    memberOf vs x = true ↔ ∃ y ∈ vs, y.quantity? = some q := by
  rw [memberOf, any_eq_true]
  constructor
  · rintro ⟨y, mem, same⟩
    obtain ⟨p, left, right⟩ := eq_defined same
    exact ⟨y, mem, by rw [left, ← right, defined]⟩
  · rintro ⟨y, mem, same⟩
    exact ⟨y, mem, (eq_iff x q same defined).mpr rfl⟩

theorem distinct_from_quantity : ∀ seen : List Number,
    (∃ x ∈ vs, x.quantity? = some q) → (∃ x ∈ seen, x.quantity? = some q) ∨
      ∃ x ∈ distinctFrom seen vs, x.quantity? = some q := by
  induction vs with
  | nil => simp
  | cons v rest ih =>
    rintro seen ⟨x, mem, defined⟩
    rw [distinctFrom]
    rcases mem_cons.mp mem with rfl | later
    · by_cases known : memberOf seen x = true
      · exact .inl ((member_of_iff seen defined).mp known)
      · rw [if_neg known]
        exact .inr ⟨x, mem_cons_self, defined⟩
    · split_ifs with known
      · exact ih seen ⟨x, later, defined⟩
      · rcases ih (v :: seen) ⟨x, later, defined⟩ with ⟨y, before, same⟩ | ⟨y, after, same⟩
        · rcases mem_cons.mp before with rfl | before
          · exact .inr ⟨y, mem_cons_self, same⟩
          · exact .inl ⟨y, before, same⟩
        · exact .inr ⟨y, mem_cons_of_mem v after, same⟩

theorem mem_of_distinct_from : ∀ seen : List Number, x ∈ distinctFrom seen vs → x ∈ vs := by
  induction vs with
  | nil => simp [distinctFrom]
  | cons v rest ih =>
    intro seen mem
    rw [distinctFrom] at mem
    split_ifs at mem with known
    · exact mem_cons_of_mem v (ih seen mem)
    · rcases mem_cons.mp mem with rfl | later
      · exact mem_cons_self
      · exact mem_cons_of_mem v (ih (v :: seen) later)

theorem distinct_quantity (q : Quantity) (vs : List Number) :
    (∃ x ∈ distinct vs, x.quantity? = some q) ↔ ∃ x ∈ vs, x.quantity? = some q := by
  rw [distinct]
  split_ifs with ordered
  · rfl
  · constructor
    · rintro ⟨x, mem, defined⟩
      exact ⟨x, mem_of_distinct_from [] mem, defined⟩
    · intro listed
      simpa using distinct_from_quantity [] listed

theorem min_at_most (a b : Number) (q : Quantity) (bound : a.AtMost q ∨ b.AtMost q) : (a.min b).AtMost q := by
  intro s defined
  rcases min_cases defined with ⟨rfl, -⟩ | ⟨p, r, left, right, rfl⟩
  · exact Quantity.neg_inf_le q
  · rcases bound with bound | bound
    · exact (min_le_left p r).trans (bound p left)
    · exact (min_le_right p r).trans (bound r right)

theorem max_at_least (a b : Number) (q : Quantity) (bound : a.AtLeast q ∨ b.AtLeast q) : (a.max b).AtLeast q := by
  intro s defined
  rcases max_cases defined with ⟨rfl, -⟩ | ⟨p, r, left, right, rfl⟩
  · exact Quantity.le_pos_inf q
  · rcases bound with bound | bound
    · exact (bound p left).trans (le_max_left p r)
    · exact (bound r right).trans (le_max_right p r)

variable {a b : Number}

theorem max_at_most (left : a.AtMost q) (right : b.AtMost q) : (a.max b).AtMost q := by
  intro s defined
  rcases max_cases defined with ⟨rfl, rfl | rfl⟩ | ⟨p, r, first, second, rfl⟩
  · exact left _ rfl
  · exact right _ rfl
  · exact max_le (left p first) (right r second)

theorem min_at_least (left : a.AtLeast q) (right : b.AtLeast q) : (a.min b).AtLeast q := by
  intro s defined
  rcases min_cases defined with ⟨rfl, rfl | rfl⟩ | ⟨p, r, first, second, rfl⟩
  · exact left _ rfl
  · exact right _ rfl
  · exact le_min (left p first) (right r second)

theorem foldl_spreads {P : Number → Prop} {f : Number → Number → Number} (spreads : ∀ a b, P a ∨ P b → P (f a b))
    (vs : List Number) : ∀ v : Number, (P v ∨ ∃ x ∈ vs, P x) → P (vs.foldl f v) := by
  induction vs with
  | nil => simp
  | cons w rest ih =>
    rintro v bound
    apply ih
    rcases bound with bound | ⟨x, mem, bound⟩
    · exact .inl (spreads v w (.inl bound))
    · rcases mem_cons.mp mem with rfl | later
      · exact .inl (spreads v x (.inr bound))
      · exact .inr ⟨x, later, bound⟩

theorem at_most_self (x : Number) (defined : x.quantity? = some q) : x.AtMost q := by
  intro p same
  rw [defined, Option.some.injEq] at same
  exact same.symm.le

theorem at_least_self (x : Number) (defined : x.quantity? = some q) : x.AtLeast q := by
  intro p same
  rw [defined, Option.some.injEq] at same
  exact same.le

end Number

namespace ValueSet

variable (kept : Expr → Value → Prop)

@[simp] theorem has_of_values (v : Value) (vs : List Number) :
    (ofValues vs).Has kept v ↔ (ValueSet.values vs).Has kept v := by
  constructor
  · rintro ⟨x, mem, q, defined, rfl⟩
    obtain ⟨y, mem, same⟩ := (distinct_quantity q vs).mp ⟨x, mem, defined⟩
    exact ⟨y, mem, q, same, rfl⟩
  · rintro ⟨x, mem, q, defined, rfl⟩
    obtain ⟨y, mem, same⟩ := (distinct_quantity q vs).mpr ⟨x, mem, defined⟩
    exact ⟨y, mem, q, same, rfl⟩

theorem has_values_iff (q : Quantity) (vs : List Number) :
    (ValueSet.values vs).Has kept (.number q) ↔ ∃ x ∈ vs, x.quantity? = some q := by
  constructor
  · rintro ⟨x, mem, p, defined, same⟩
    cases same
    exact ⟨x, mem, defined⟩
  · rintro ⟨x, mem, defined⟩
    exact ⟨x, mem, q, defined, rfl⟩

theorem not_empty_of_has {v : Value} (has : s.Has kept v) : s.isEmpty = false := by
  cases s <;> simp_all [Has, isEmpty]

variable {ms : List ValueSet}

-- The answer about a union or an intersection: one part settles it, or it rests on what is known about all parts.
theorem member_of_any_eq (start : Bool) : memberOfAny x start ms =
    ⟨ms.any fun m => (m.member x).known && (m.member x).holds,
      (ms.any fun m => (m.member x).known && (m.member x).holds) || start && ms.all fun m => (m.member x).known⟩ := by
  induction ms generalizing start with
  | nil => simp [memberOfAny]
  | cons m ms ih =>
    cases known : (m.member x).known <;> cases holds : (m.member x).holds <;> simp [memberOfAny, known, holds, ih]

theorem member_of_all_eq (start : Bool) : memberOfAll x start ms =
    ⟨!ms.any fun m => (m.member x).known && !(m.member x).holds,
      (ms.any fun m => (m.member x).known && !(m.member x).holds) || start && ms.all fun m => (m.member x).known⟩ := by
  induction ms generalizing start with
  | nil => simp [memberOfAll]
  | cons m ms ih =>
    cases known : (m.member x).known <;> cases holds : (m.member x).holds <;> simp [memberOfAll, known, holds, ih]

theorem member_known (x : Number) (q : Quantity) (defined : x.quantity? = some q) (s : ValueSet)
    (known : (s.member x).known = true) : (s.member x).holds = true ↔ s.Has kept (.number q) := by
  induction s using parts_induction with
  | universal t => simp [member, Has]
  | empty => simp [member, Has]
  | values vs => rw [member, has_values_iff, member_of_iff vs defined]
  | interval i =>
    rw [member, Interval.contains_iff i defined, Has]
    constructor
    · exact fun inside => ⟨q, rfl, inside⟩
    · rintro ⟨p, same, inside⟩
      cases same
      exact inside
  | union ms ih =>
    rw [member, member_of_any_eq] at known ⊢
    simp only [Has, has_any_iff, any_eq_true, all_eq_true, Bool.and_eq_true, Bool.or_eq_true, true_and] at known ⊢
    constructor
    · rintro ⟨m, member, decided, holds⟩
      exact ⟨m, member, (ih m member decided).mp holds⟩
    · rintro ⟨m, member, has⟩
      exact known.elim id fun all => ⟨m, member, all m member, (ih m member (all m member)).mpr has⟩
  | inter ms ih =>
    rw [member, member_of_all_eq] at known ⊢
    simp only [Has, has_all_iff, any_eq_true, any_eq_false, all_eq_true, Bool.and_eq_true, Bool.or_eq_true,
      Bool.not_eq_true', true_and, not_and, Bool.not_eq_false] at known ⊢
    constructor
    · intro holds m member
      rcases known with ⟨n, inside, decided, fails⟩ | all
      · cases fails.symm.trans (holds n inside decided)
      · exact (ih m member (all m member)).mp (holds m member (all m member))
    · exact fun has m member decided => (ih m member decided).mpr (has m member)
  | solutions e => simp [member] at known

theorem not_excluded (defined : x.quantity? = some q) (has : s.Has kept (.number q)) : s.excludes x = false := by
  rw [excludes, ← Bool.not_eq_true, Bool.and_eq_true, not_and]
  intro known fails
  rw [(member_known kept x q defined s known).mpr has] at fails
  exact absurd fails (by decide)

theorem hull_keeps : ∀ lo hi : Number, (hull lo hi ms).bounded = true →
    (lo.AtMost q → (hull lo hi ms).lo.AtMost q) ∧ (hi.AtLeast q → (hull lo hi ms).hi.AtLeast q) := by
  induction ms with
  | nil => exact fun lo hi _ => ⟨id, id⟩
  | cons m ms ih =>
    intro lo hi
    rw [hull]
    split_ifs
    · intro bounded
      obtain ⟨lower, upper⟩ := ih _ _ bounded
      exact ⟨fun below => lower (min_at_most lo _ q (.inl below)), fun above =>
        upper (max_at_least hi _ q (.inl above))⟩
    · exact ih _ _
    · simp [Extent.unbounded]

theorem extent_bounds (s : ValueSet) (v : Value) (has : s.Has kept v) (bounded : s.extent.bounded = true) :
    ∃ q, v = .number q ∧ s.extent.lo.AtMost q ∧ s.extent.hi.AtLeast q := by
  induction s using parts_induction with
  | universal t => simp [extent, Extent.unbounded] at bounded
  | empty => simp [Has] at has
  | values vs =>
    obtain ⟨x, mem, q, defined, rfl⟩ := has
    cases vs with
    | nil => simp at mem
    | cons w rest =>
      have low := foldl_spreads (fun a b => min_at_most a b q) rest w
      have high := foldl_spreads (fun a b => max_at_least a b q) rest w
      refine ⟨q, rfl, ?_⟩
      rcases mem_cons.mp mem with rfl | later
      · exact ⟨low (.inl (x.at_most_self defined)), high (.inl (x.at_least_self defined))⟩
      · exact ⟨low (.inr ⟨x, later, x.at_most_self defined⟩), high (.inr ⟨x, later, x.at_least_self defined⟩)⟩
  | interval i =>
    obtain ⟨q, rfl, inside⟩ := has
    exact ⟨q, rfl, i.holds_lo inside, i.holds_hi inside⟩
  | union ms ih =>
    rw [extent] at bounded ⊢
    generalize posInf = lo, negInf = hi at bounded ⊢
    induction ms generalizing lo hi with
    | nil => simp [Has, HasAny] at has
    | cons m ms rest =>
      obtain ⟨first, others⟩ := forall_mem_cons.mp ih
      rw [hull] at bounded ⊢
      split_ifs at bounded ⊢ with known void
      · rcases has with here | later
        · obtain ⟨q, rfl, lower, upper⟩ := first here known
          obtain ⟨low, high⟩ := hull_keeps (q := q) _ _ bounded
          exact ⟨q, rfl, low (min_at_most lo _ q (.inr lower)), high (max_at_least hi _ q (.inr upper))⟩
        · exact rest others later _ _ bounded
      · rcases has with here | later
        · cases (not_empty_of_has kept here).symm.trans void
        · exact rest others later _ _ bounded
      · simp [Extent.unbounded] at bounded
  | inter ms ih =>
    -- the bounds gathered so far hold of the value if it is a number, and it is one once there are any
    suffices general : ∀ acc : Extent, (acc.bounded = true → ∃ q, v = .number q) →
        (∀ q, v = .number q → acc.lo.AtMost q ∧ acc.hi.AtLeast q) → (commonExtent acc ms).bounded = true →
          ∃ q, v = .number q ∧ (commonExtent acc ms).lo.AtMost q ∧ (commonExtent acc ms).hi.AtLeast q from
      general ⟨.negInf, .posInf, false⟩ (by simp) (by simp [Number.AtMost, Number.AtLeast]) bounded
    clear bounded
    induction ms with
    | nil =>
      intro acc number inside bounded
      rw [commonExtent, Bool.and_eq_true] at bounded
      obtain ⟨q, rfl⟩ := number bounded.1
      exact ⟨q, rfl, inside q rfl⟩
    | cons m ms rest =>
      obtain ⟨first, others⟩ := forall_mem_cons.mp ih
      intro acc number inside
      rw [commonExtent]
      by_cases known : m.extent.bounded = true
      · obtain ⟨q, rfl, lower, upper⟩ := first has.1 known
        rw [if_pos known]
        refine rest others has.2 _ (fun _ => ⟨q, rfl⟩) ?_
        rintro p ⟨rfl⟩
        obtain ⟨above, below⟩ := inside q rfl
        exact ⟨max_at_most above lower, min_at_least below upper⟩
      · rw [if_neg known]
        exact rest others has.2 acc number inside
  | solutions e => simp [extent, Extent.unbounded] at bounded

end ValueSet

-- An integer from which as many steps as an interval may list are exact.
def Quantity.IsWhole (q : Quantity) : Prop := ∃ n : ℤ, q = .finite n ∧ |n| + maxEnumeration ≤ 2 ^ 53

def Value.Fits (domain : Option ValueType) (v : Value) : Prop :=
  isIntegralDomain domain = true → ∀ q, v = .number q → q.IsWhole

namespace Number

theorem ceil_eq (a : ℚ) : a.ceil = ⌈a⌉ :=
  le_antisymm (Rat.ceil_le_iff.mpr (Int.le_ceil a)) (Int.ceil_le.mpr (Rat.ceil_le_iff.mp le_rfl))

variable {a : ℚ}

theorem quantity_ceil (defined : x.quantity? = some (.finite a)) : x.ceil.quantity? = some (.finite ⌈a⌉) := by
  cases x with
  | negZero =>
    cases defined
    simp [ceil]
  | finite q =>
    cases defined
    rw [ceil, ceil_eq]
    split_ifs with zero
    · simp [zero.1]
    · rfl
  | _ => simp at defined

theorem quantity_floor (defined : x.quantity? = some (.finite a)) : x.floor.quantity? = some (.finite ⌊a⌋) := by
  cases x with
  | negZero =>
    cases defined
    simp [floor]
  | finite q =>
    cases defined
    rfl
  | _ => simp at defined

theorem finite_of_not_infinite {p : Quantity} (defined : x.quantity? = some p) (bounded : x.isInfinite = false) :
    ∃ a, p = .finite a := by
  cases x <;> simp [isInfinite] at defined bounded <;> exact ⟨_, defined.symm⟩

end Number

namespace Quantity

theorem add_int {c : ℤ} (a b : ℤ) (sum : a + b = c) (small : |c| ≤ 2 ^ 53) :
    (finite a).add? (finite b) = some (finite c) := by
  subst sum
  have exact := exact_int (a + b) small
  rw [Int.cast_add] at exact ⊢
  rw [add?, if_pos exact]

theorem sub_int (a b c : ℤ) (difference : a - b = c) (small : |c| ≤ 2 ^ 53) :
    (finite a).sub? (finite b) = some (finite c) := by
  have sum := add_int a (-b) (by omega) small
  rw [Int.cast_neg] at sum
  exact sum

end Quantity

namespace Interval

variable {n : ℤ} {l c : Quantity} (i : Interval)

theorem first_spec {a : ℚ} (lower : i.lo.quantity? = some (.finite a)) (inside : i.Holds (.finite n)) :
    ∃ m : ℤ, m ≤ n ∧ (∀ k : ℤ, |k| ≤ 2 ^ 53 → m ≤ k → i.first.AtMost (.finite k)) ∧
      (|m| ≤ 2 ^ 53 → i.first.quantity? = some (.finite m)) := by
  have ceil := quantity_ceil lower
  have same := eq_iff i.lo _ ceil lower
  unfold first
  by_cases shifted : (i.loExclusive && i.lo.ceil.eq i.lo) = true
  · rw [Bool.and_eq_true, same, Quantity.finite.injEq] at shifted
    rw [if_pos (by rw [Bool.and_eq_true, same, Quantity.finite.injEq]; exact shifted)]
    have below : ⌈a⌉ < n := by
      rcases inside.1 _ lower with less | ⟨_, included⟩
      · rw [Quantity.finite_lt_finite, ← shifted.2] at less
        exact_mod_cast less
      · simp [shifted.1] at included
    have one : one.quantity? = some (.finite ((1 : ℤ) : ℚ)) := by simp [one]
    refine ⟨⌈a⌉ + 1, below, fun k small order => ?_, fun small => ?_⟩
    · refine add_at_most ?_ (at_most_self _ one)
        (Quantity.add_int (k - 1) 1 (by omega) small)
      intro p defined
      rw [ceil, Option.some.injEq] at defined
      rw [← defined, Quantity.finite_le_finite]
      exact_mod_cast Int.le_sub_one_of_lt order
    · exact quantity_add _ ceil one (Quantity.add_int ⌈a⌉ 1 rfl small)
  · rw [if_neg shifted]
    refine ⟨⌈a⌉, ?_, fun k _ order p defined => ?_, fun _ => ceil⟩
    · rw [Int.ceil_le]
      exact (Quantity.finite_le_finite).mp (i.holds_lo inside _ lower)
    · rw [ceil, Option.some.injEq] at defined
      rw [← defined, Quantity.finite_le_finite]
      exact_mod_cast order

theorem last_at_least {b : ℚ} (upper : i.hi.quantity? = some (.finite b)) (inside : i.Holds (.finite n))
    (small : |n| ≤ 2 ^ 53) : i.last.AtLeast (.finite n) := by
  have floor := quantity_floor upper
  have same := eq_iff i.hi _ floor upper
  unfold last
  by_cases shifted : (i.hiExclusive && i.hi.floor.eq i.hi) = true
  · rw [Bool.and_eq_true, same, Quantity.finite.injEq] at shifted
    rw [if_pos (by rw [Bool.and_eq_true, same, Quantity.finite.injEq]; exact shifted)]
    have above : n < ⌊b⌋ := by
      rcases inside.2 _ upper with less | ⟨_, included⟩
      · rw [Quantity.finite_lt_finite, ← shifted.2] at less
        exact_mod_cast less
      · simp [shifted.1] at included
    have one : one.quantity? = some (.finite ((1 : ℤ) : ℚ)) := by simp [one]
    refine sub_at_least ?_ (at_most_self _ one)
      (Quantity.sub_int (n + 1) 1 n (by omega) small)
    intro p defined
    rw [floor, Option.some.injEq] at defined
    rw [← defined, Quantity.finite_le_finite]
    exact_mod_cast Int.add_one_le_of_lt above
  · rw [if_neg shifted]
    intro p defined
    rw [floor, Option.some.injEq] at defined
    rw [← defined, Quantity.finite_le_finite]
    exact_mod_cast Int.le_floor.mpr ((Quantity.finite_le_finite).mp (i.holds_hi inside _ upper))

theorem count_at_least (n d : ℤ) (size : 0 ≤ d ∧ d ≤ 4096)
    (first : i.first.AtMost (.finite (n - d : ℤ))) (last : i.last.AtLeast (.finite n)) :
    i.count.AtLeast (.finite (d + 1 : ℤ)) := by
  have ordered : i.last.lt i.first = false := by
    rw [← Bool.not_eq_true]
    intro less
    obtain ⟨l, f, lastEq, firstEq, order⟩ := lt_defined less
    have upper := last l lastEq
    have lower := first f firstEq
    have gap : Quantity.finite (n - d : ℤ) ≤ .finite n := by
      rw [Quantity.finite_le_finite]
      exact_mod_cast Int.sub_le_self n size.1
    exact absurd (le_trans lower (le_trans gap upper)) (not_le.mpr order)
  have one : one.quantity? = some (.finite ((1 : ℤ) : ℚ)) := by simp [one]
  rw [count, if_neg (by rw [ordered]; exact Bool.false_ne_true)]
  refine add_at_least ?_ (at_least_self _ one)
    (Quantity.add_int d 1 rfl (by rw [abs_le]; omega))
  exact sub_at_least last first (Quantity.sub_int n (n - d) d (by omega) (by rw [abs_le]; omega))

theorem steps_reach {last : Number} (small : |n| ≤ 2 ^ 53) (upper : last.AtLeast (.finite n))
    (defined : last.quantity? = some l) {j : ℕ} : ∀ (count : ℕ) (v : Number), j < count → |n - j| ≤ 2 ^ 53 →
      v.quantity? = some (.finite (n - j : ℤ)) → ∃ x ∈ steps last count v, x.quantity? = some (.finite n) := by
  induction j with
  | zero =>
    intro count v enough _ here
    obtain ⟨c, rfl⟩ : ∃ c, count = c + 1 := ⟨count - 1, by omega⟩
    rw [Int.natCast_zero, Int.sub_zero] at here
    rw [steps, if_pos ((le_iff here defined).mpr (upper l defined))]
    exact ⟨v, mem_cons_self, here⟩
  | succ j ih =>
    intro count v enough start here
    obtain ⟨c, rfl⟩ : ∃ c, count = c + 1 := ⟨count - 1, by omega⟩
    have below : Quantity.finite (n - (j + 1 : ℕ) : ℤ) ≤ l := by
      refine le_trans ?_ (upper l defined)
      rw [Quantity.finite_le_finite]
      exact_mod_cast (by omega : n - (j + 1 : ℕ) ≤ n)
    rw [steps, if_pos ((le_iff here defined).mpr below)]
    have one : one.quantity? = some (.finite ((1 : ℤ) : ℚ)) := by simp [one]
    have close : |n - j| ≤ 2 ^ 53 := by
      rw [abs_le] at start small ⊢
      push_cast at start
      omega
    have next := quantity_add .one here one (Quantity.add_int _ 1 (by push_cast; omega) close)
    obtain ⟨x, mem, found⟩ := ih c (v.add .one) (by omega) close next
    exact ⟨x, mem_cons_of_mem v mem, found⟩

theorem ends_defined (defined : i.count.quantity? = some c) :
    (∃ f, i.first.quantity? = some f) ∧ ∃ l, i.last.quantity? = some l := by
  unfold count at defined
  split_ifs at defined with less
  · obtain ⟨l, f, last, first, _⟩ := lt_defined less
    exact ⟨⟨f, first⟩, ⟨l, last⟩⟩
  · obtain ⟨d, _, difference, _, _⟩ := quantity_add_cases defined
    obtain ⟨l, f, last, first, _⟩ := quantity_add_cases difference
    rw [quantity_neg, Option.map_eq_some_iff] at first
    obtain ⟨f', first, _⟩ := first
    exact ⟨⟨f', first⟩, ⟨l, last⟩⟩

theorem lo_defined {f : Quantity} (defined : i.first.quantity? = some f) :
    ∃ p, i.lo.quantity? = some p := by
  cases lower : i.lo.quantity? with
  | some p => exact ⟨p, rfl⟩
  | none => simp [first, quantity_none lower, ceil, eq] at defined

theorem hi_defined (defined : i.last.quantity? = some l) : ∃ p, i.hi.quantity? = some p := by
  cases upper : i.hi.quantity? with
  | some p => exact ⟨p, rfl⟩
  | none => simp [last, quantity_none upper, floor, eq] at defined

theorem count_nat_ge (d : ℕ) (lower : i.count.AtLeast (.finite (d : ℤ)))
    (defined : i.count.quantity? = some c) (bound : c ≤ .finite 4096) : d ≤ i.countNat := by
  have above := lower c defined
  cases c with
  | negInf => simp at above
  | posInf => simp at bound
  | finite q =>
    have exact : i.count.toRat? = some q := by
      cases kind : i.count <;> simp_all [toRat?]
    rw [countNat, exact]
    rw [Quantity.finite_le_finite] at above
    have floor : (d : ℤ) ≤ ⌊q⌋ := Int.le_floor.mpr above
    change d ≤ ⌊q⌋.toNat
    omega

theorem listed_from_first {m : ℤ} (inside : i.Holds (.finite n)) (small : |n| ≤ 2 ^ 53) (start : m ≤ n)
    (close : |m| ≤ 2 ^ 53) (first : i.first.quantity? = some (.finite m)) (listed : i.enumerate domain = .ok vs) :
    ∃ x ∈ vs, x.quantity? = some (.finite n) := by
  unfold enumerate at listed
  split_ifs at listed with infinite few
  cases listed
  have limit : (ofInt maxEnumeration).quantity? = some (.finite ((4096 : ℤ) : ℚ)) :=
    congrArg quantity? (exact_int 4096 (by decide))
  obtain ⟨c, _, countEq, limitEq, bound⟩ := le_defined few
  rw [limit, Option.some.injEq] at limitEq
  subst limitEq
  obtain ⟨-, ⟨l, lastEq⟩⟩ := i.ends_defined countEq
  obtain ⟨hi, upper⟩ := i.hi_defined lastEq
  simp only [isFinite, Bool.not_eq_true', Bool.and_eq_false_iff, not_or, Bool.not_eq_false] at infinite
  obtain ⟨b, rfl⟩ := finite_of_not_infinite upper (by simpa using infinite.2)
  have last := i.last_at_least upper inside small
  have below : ∀ k : ℤ, m ≤ k → i.first.AtMost (.finite k) := by
    intro k order p defined
    cases first.symm.trans defined
    exact (Quantity.finite_le_finite).mpr (by exact_mod_cast order)
  -- a first integer further away would make the count too large
  have near : n - 4096 < m := by
    by_contra far
    have many := i.count_at_least n 4096 (by omega) (below (n - 4096) (by omega)) last c countEq
    have order := le_trans many bound
    rw [Quantity.finite_le_finite] at order
    exact absurd order (by norm_num)
  obtain ⟨j, distance⟩ : ∃ j : ℕ, n - j = m := ⟨(n - m).toNat, by omega⟩
  have enough : j + 1 ≤ i.countNat := by
    refine i.count_nat_ge (j + 1) ?_ countEq (by simpa using bound)
    exact i.count_at_least n j (by omega) (below _ (by omega)) last
  rw [← distance] at first close
  exact steps_reach small last lastEq i.countNat i.first enough close first

theorem enumerate_has (inside : i.Holds (.finite n)) (whole : |n| + maxEnumeration ≤ 2 ^ 53)
    (listed : i.enumerate domain = .ok vs) : ∃ x ∈ vs, x.quantity? = some (.finite n) := by
  have shown := listed
  unfold enumerate at shown
  split_ifs at shown with infinite few
  have limit : (ofInt maxEnumeration).quantity? = some (.finite ((4096 : ℤ) : ℚ)) :=
    congrArg quantity? (exact_int 4096 (by decide))
  rw [maxEnumeration] at whole
  obtain ⟨c, _, countEq, limitEq, bound⟩ := le_defined few
  rw [limit, Option.some.injEq] at limitEq
  subst limitEq
  obtain ⟨⟨f, firstEq⟩, ⟨l, lastEq⟩⟩ := i.ends_defined countEq
  obtain ⟨lo, lower⟩ := i.lo_defined firstEq
  obtain ⟨hi, upper⟩ := i.hi_defined lastEq
  simp only [isFinite, Bool.not_eq_true', Bool.and_eq_false_iff, not_or, Bool.not_eq_false] at infinite
  obtain ⟨a, rfl⟩ := finite_of_not_infinite lower (by simpa using infinite.1.2)
  obtain ⟨b, rfl⟩ := finite_of_not_infinite upper (by simpa using infinite.2)
  have small : |n| ≤ 2 ^ 53 := by omega
  have span : -2 ^ 53 ≤ n - 4096 ∧ n ≤ 2 ^ 53 := by
    rw [abs_le] at small
    rcases abs_cases n with ⟨same, _⟩ | ⟨same, _⟩ <;> omega
  obtain ⟨m, start, firstBound, firstExact⟩ := i.first_spec lower inside
  have last := i.last_at_least upper inside small
  -- the first integer may be out of the range in which integers are exact only if the count is too large
  have near : n - 4096 < m := by
    by_contra far
    have first := firstBound (n - 4096) (by rw [abs_le]; omega) (by omega)
    have many := i.count_at_least n 4096 (by omega) first last c countEq
    have order := le_trans many bound
    rw [Quantity.finite_le_finite] at order
    exact absurd order (by norm_num)
  have close : |m| ≤ 2 ^ 53 := by
    rw [abs_le]
    omega
  exact i.listed_from_first inside small start close (firstExact close) listed

theorem integral_of_listed (listed : i.enumerate domain = .ok vs) : isIntegralDomain domain = true := by
  unfold enumerate at listed
  split_ifs at listed with infinite few
  simp only [isFinite, Bool.not_eq_true', Bool.and_eq_false_iff, not_or, Bool.not_eq_false] at infinite
  exact infinite.1.1

end Interval

namespace ValueSet

variable (kept : Expr → Value → Prop)

end ValueSet

mutual

def ValueSet.Made (P : ValueSet → Prop) : ValueSet → Prop
  | .union ms => ValueSet.AllMade P ms
  | .inter ms => ValueSet.AllMade P ms
  | s => P s

def ValueSet.AllMade (P : ValueSet → Prop) : List ValueSet → Prop
  | [] => True
  | m :: ms => m.Made P ∧ ValueSet.AllMade P ms

end

-- Where the interval is listed and holds the value, the value is in the list.
def Interval.Lists (domain : Option ValueType) (v : Value) (i : Interval) : Prop :=
  ∀ vs, i.enumerate domain = .ok vs → ∀ q, v = .number q → i.Holds q → ∃ x ∈ vs, x.quantity? = some q

theorem Interval.lists_fitting {v : Value} (fits : v.Fits domain) (i : Interval) : i.Lists domain v := by
  rintro vs listed q rfl inside
  obtain ⟨n, rfl, whole⟩ := fits (i.integral_of_listed listed) q rfl
  exact i.enumerate_has inside whole listed

namespace ValueSet

variable (kept : Expr → Value → Prop)

def ListsValue (domain : Option ValueType) (v : Value) : ValueSet → Prop
  | .interval i => i.Lists domain v
  | _ => True

theorem all_made_iff (P : ValueSet → Prop) (ms : List ValueSet) : AllMade P ms ↔ ∀ m ∈ ms, m.Made P := by
  induction ms with
  | nil => simp [AllMade]
  | cons m ms ih => simp [AllMade, ih]

theorem made_imp (P Q : ValueSet → Prop) (imp : ∀ s, P s → Q s) {s : ValueSet} (made : s.Made P) : s.Made Q := by
  induction s using parts_induction with
  | union ms ih | inter ms ih => exact (all_made_iff Q ms).mpr fun m mem => ih m mem ((all_made_iff P ms).mp made m mem)
  | _ => exact imp _ made

theorem made_always (P : ValueSet → Prop) (always : ∀ s, P s) (s : ValueSet) : s.Made P := by
  induction s using parts_induction with
  | union ms ih | inter ms ih => exact (all_made_iff P ms).mpr ih
  | _ => exact always _

theorem made_self {P : ValueSet → Prop} (union : ∀ ms, P (.union ms) ↔ ∀ m ∈ ms, P m)
    (inter : ∀ ms, P (.inter ms) ↔ ∀ m ∈ ms, P m) (s : ValueSet) : s.Made P ↔ P s := by
  induction s using parts_induction with
  | union ms ih =>
    rw [union]
    exact (all_made_iff P ms).trans (forall₂_congr ih)
  | inter ms ih =>
    rw [inter]
    exact (all_made_iff P ms).trans (forall₂_congr ih)
  | _ => exact Iff.rfl

theorem enumerate_all_ok {ms : List ValueSet} (listed : enumerateAll domain ms = .ok vs) :
    (∀ m ∈ ms, ∃ ws, m.enumerate domain = .ok ws ∧ ws ⊆ vs) ∧ ∀ x ∈ vs, ∃ m ∈ ms, ∃ ws, m.enumerate domain = .ok ws ∧
      x ∈ ws := by
  induction ms generalizing vs with
  | nil =>
    cases listed
    simp
  | cons m ms ih =>
    rw [enumerateAll] at listed
    cases head : m.enumerate domain with
    | error fault => simp [head] at listed
    | ok ws =>
      cases tail : enumerateAll domain ms with
      | error fault => simp [head, tail, Except.map] at listed
      | ok us =>
        rw [head, tail] at listed
        cases listed
        obtain ⟨lists, origin⟩ := ih tail
        refine ⟨forall_mem_cons.mpr ⟨⟨ws, head, subset_append_left ws us⟩, fun n mem => ?_⟩,
          forall_mem_append.mpr ⟨fun x here => ⟨m, mem_cons_self, ws, head, here⟩, fun x later => ?_⟩⟩
        · obtain ⟨list, same, within⟩ := lists n mem
          exact ⟨list, same, subset_append_of_subset_right ws within⟩
        · obtain ⟨n, mem, found⟩ := origin x later
          exact ⟨n, mem_cons_of_mem m mem, found⟩

theorem enumerate_first_ok {fault : SetFault} {before ms : List ValueSet}
    (listed : enumerateFirst domain fault before ms = .ok vs) :
    ∃ m ∈ ms, ∃ ws others, m.enumerate domain = .ok ws ∧ (∀ o, o ∈ m :: others ↔ o ∈ before ++ ms) ∧
      vs = ws.filter fun v => others.all fun other => !other.excludes v := by
  induction ms generalizing fault before with
  | nil => cases listed
  | cons m ms ih =>
    have later : ∀ fault', enumerateFirst domain fault' (before ++ [m]) ms = .ok vs → _ := fun fault' rest => ih rest
    rw [enumerateFirst] at listed
    simp only [append_assoc, singleton_append] at later
    split_ifs at listed
    · cases head : m.enumerate domain with
      | error fault' =>
        rw [head] at listed
        obtain ⟨n, mem, found⟩ := later fault' listed
        exact ⟨n, mem_cons_of_mem m mem, found⟩
      | ok ws =>
        rw [head] at listed
        cases listed
        exact ⟨m, mem_cons_self, ws, before ++ ms, head, by simp [or_left_comm], rfl⟩
    · obtain ⟨n, mem, found⟩ := later fault listed
      exact ⟨n, mem_cons_of_mem m mem, found⟩

theorem enumerate_induction {motive : ValueSet → List Number → Prop} (empty : motive .empty [])
    (values : ∀ vs, motive (.values vs) vs) (interval : ∀ i vs, i.enumerate domain = .ok vs → motive (.interval i) vs)
    (union : ∀ ms vs, (∀ m ∈ ms, ∃ ws, motive m ws ∧ ws ⊆ vs) → (∀ x ∈ vs, ∃ m ∈ ms, ∃ ws, motive m ws ∧ x ∈ ws) →
      motive (.union ms) (distinct vs))
    (inter : ∀ ms m ws others, motive m ws → (∀ o, o ∈ m :: others ↔ o ∈ ms) →
      motive (.inter ms) (ws.filter fun v => others.all fun other => !other.excludes v))
    {s : ValueSet} (listed : s.enumerate domain = .ok vs) : motive s vs := by
  induction s using parts_induction generalizing vs with
  | universal t | solutions e => cases listed
  | empty =>
    cases listed
    exact empty
  | values ws =>
    cases listed
    exact values ws
  | interval i => exact interval i vs listed
  | union ms ih =>
    rw [enumerate] at listed
    split_ifs at listed
    cases all : enumerateAll domain ms with
    | error fault => simp [all, Except.map] at listed
    | ok ws =>
      rw [all] at listed
      cases listed
      obtain ⟨lists, origin⟩ := enumerate_all_ok all
      refine union ms ws (fun m mem => ?_) fun x found => ?_
      · obtain ⟨us, same, within⟩ := lists m mem
        exact ⟨us, ih m mem same, within⟩
      · obtain ⟨m, mem, us, same, here⟩ := origin x found
        exact ⟨m, mem, us, ih m mem same, here⟩
  | inter ms ih =>
    rw [enumerate] at listed
    split_ifs at listed
    obtain ⟨m, mem, ws, others, same, all, rfl⟩ := enumerate_first_ok listed
    exact inter ms m ws others (ih m mem same) all

theorem listed_has (domain : Option ValueType) (v : Value) (s : ValueSet) (lists : s.Made (ListsValue domain v))
    (has : s.Has kept v) (vs : List Number) (listed : s.enumerate domain = .ok vs) :
    (ValueSet.values vs).Has kept v := by
  revert lists has
  refine enumerate_induction
    (motive := fun s vs => s.Made (ListsValue domain v) → s.Has kept v → (ValueSet.values vs).Has kept v)
    (fun _ => False.elim) (fun _ _ => id) (fun i vs listed lists => ?_) (fun ms vs members _ lists has => ?_)
    (fun ms m ws others mem all lists has => ?_) listed
  · rintro ⟨q, rfl, inside⟩
    exact (has_values_iff kept _ vs).mpr (lists vs listed q rfl inside)
  · obtain ⟨m, mem, here⟩ := (has_any_iff kept v ms).mp has
    obtain ⟨ws, found, within⟩ := members m mem
    obtain ⟨x, present, value⟩ := found ((all_made_iff _ ms).mp lists m mem) here
    exact (has_of_values kept v vs).mpr ⟨x, within present, value⟩
  · have each := (has_all_iff kept v ms).mp has
    have inside := (all m).mp mem_cons_self
    obtain ⟨x, present, q, defined, rfl⟩ := mem ((all_made_iff _ ms).mp lists m inside) (each m inside)
    refine ⟨x, mem_filter.mpr ⟨present, all_eq_true.mpr fun other asked => ?_⟩, q, defined, rfl⟩
    rw [not_excluded kept defined (each other ((all other).mp (mem_cons_of_mem m asked)))]
    rfl

variable {v : Value}

theorem lists_value_fitting (fits : v.Fits domain) (s : ValueSet) : ListsValue domain v s := by
  cases s with
  | interval i => exact i.lists_fitting fits
  | _ => trivial

theorem enumerate_has (domain : Option ValueType) (fits : v.Fits domain) (has : s.Has kept v) (vs : List Number)
    (listed : s.enumerate domain = .ok vs) : (ValueSet.values vs).Has kept v :=
  listed_has kept domain v s (made_always _ (lists_value_fitting fits) s) has vs listed

end ValueSet

end Blockwork
