import Blockwork.Proofs.Quantity
import Mathlib

set_option autoImplicit false

namespace Blockwork

open Precision Quantity

variable {r p q : Quantity}

theorem two_pow_eq (e : ℤ) : twoPow e = (2 : ℚ) ^ e := by
  unfold twoPow
  split
  · rename_i nonneg
    obtain ⟨n, rfl⟩ := Int.eq_ofNat_of_zero_le nonneg
    simp
  · rename_i negative
    obtain ⟨n, rfl⟩ : ∃ n : ℕ, e = -(n : ℤ) := ⟨(-e).toNat, by omega⟩
    simp [Rat.mkRat_eq_div]

theorem two_pow_pos (e : ℤ) : 0 < twoPow e := by
  rw [two_pow_eq]
  positivity

-- The estimate from the bit lengths is the exponent or one more than it.
theorem floor_log2_spec {n d : ℕ} (numerator : 0 < n) (denominator : 0 < d) :
    (2 : ℚ) ^ floorLog2 n d ≤ n / d ∧ (n : ℚ) / d < 2 ^ (floorLog2 n d + 1) := by
  have numLow : ((2 : ℚ) ^ (n.log2 : ℤ)) ≤ n := by exact_mod_cast Nat.log2_self_le numerator.ne'
  have numHigh : (n : ℚ) < (2 : ℚ) ^ ((n.log2 : ℤ) + 1) := by exact_mod_cast Nat.lt_log2_self (n := n)
  have denLow : ((2 : ℚ) ^ (d.log2 : ℤ)) ≤ d := by exact_mod_cast Nat.log2_self_le denominator.ne'
  have denHigh : (d : ℚ) < (2 : ℚ) ^ ((d.log2 : ℤ) + 1) := by exact_mod_cast Nat.lt_log2_self (n := d)
  have denPos : (0 : ℚ) < d := by exact_mod_cast denominator
  generalize estimateEq : (n.log2 : ℤ) - d.log2 = estimate
  have above : (n : ℚ) / d < 2 ^ (estimate + 1) := by
    rw [div_lt_iff₀ denPos]
    calc (n : ℚ) < 2 ^ ((n.log2 : ℤ) + 1) := numHigh
      _ = 2 ^ (estimate + 1) * 2 ^ (d.log2 : ℤ) := by rw [← zpow_add₀ two_ne_zero]; congr 1; omega
      _ ≤ 2 ^ (estimate + 1) * d := by gcongr
  have below : (2 : ℚ) ^ (estimate - 1) ≤ n / d := by
    rw [le_div_iff₀ denPos]
    calc (2 : ℚ) ^ (estimate - 1) * d ≤ 2 ^ (estimate - 1) * 2 ^ ((d.log2 : ℤ) + 1) := by gcongr
      _ = 2 ^ (n.log2 : ℤ) := by rw [← zpow_add₀ two_ne_zero]; congr 1; omega
      _ ≤ n := numLow
  have test : d * 2 ^ estimate.toNat ≤ n * 2 ^ (-estimate).toNat ↔ (2 : ℚ) ^ estimate ≤ n / d := by
    rw [le_div_iff₀ denPos, ← Nat.cast_le (α := ℚ)]
    push_cast
    rcases le_total 0 estimate with nonneg | nonpos
    · obtain ⟨k, rfl⟩ := Int.eq_ofNat_of_zero_le nonneg
      simp [mul_comm]
    · obtain ⟨k, rfl⟩ : ∃ k : ℕ, estimate = -(k : ℤ) := ⟨(-estimate).toNat, by omega⟩
      simp only [Int.toNat_neg_natCast, pow_zero, mul_one, neg_neg, Int.toNat_natCast, zpow_neg, zpow_natCast]
      rw [inv_mul_le_iff₀ (by positivity), mul_comm]
  unfold floorLog2
  simp only [estimateEq, Nat.pow_eq]
  by_cases fits : d * 2 ^ estimate.toNat ≤ n * 2 ^ (-estimate).toNat
  · rw [if_pos fits]
    exact ⟨test.mp fits, above⟩
  · rw [if_neg fits, sub_add_cancel]
    exact ⟨below, not_le.mp fun small => fits (test.mpr small)⟩

def magnitude (q : ℚ) : ℤ := floorLog2 q.num.natAbs q.den

theorem abs_eq_fraction (q : ℚ) : |q| = (q.num.natAbs : ℚ) / q.den := by
  rw [Rat.abs_def, Rat.divInt_eq_div]
  simp

theorem magnitude_spec {q : ℚ} (nonzero : q ≠ 0) :
    (2 : ℚ) ^ magnitude q ≤ |q| ∧ |q| < 2 ^ (magnitude q + 1) := by
  rw [abs_eq_fraction]
  exact floor_log2_spec (Int.natAbs_pos.mpr (Rat.num_ne_zero.mpr nonzero)) q.den_pos

theorem magnitude_neg (q : ℚ) : magnitude (-q) = magnitude q := by
  simp [magnitude]

theorem magnitude_mono {p q : ℚ} (nonzero : p ≠ 0) (smaller : |p| ≤ |q|) : magnitude p ≤ magnitude q := by
  have positive : q ≠ 0 := by
    rintro rfl
    exact nonzero (abs_nonpos_iff.mp (by simpa using smaller))
  have order : (2 : ℚ) ^ magnitude p < 2 ^ (magnitude q + 1) :=
    ((magnitude_spec nonzero).1.trans smaller).trans_lt (magnitude_spec positive).2
  have := (zpow_lt_zpow_iff_right₀ (by norm_num : (1 : ℚ) < 2)).mp order
  omega

theorem round_half_even_bounds (q : ℚ) : ⌊q⌋ ≤ roundHalfEven q ∧ roundHalfEven q ≤ ⌊q⌋ + 1 := by
  change q.floor ≤ roundHalfEven q ∧ roundHalfEven q ≤ q.floor + 1
  unfold roundHalfEven
  dsimp only
  split_ifs <;> omega

@[simp] theorem round_half_even_int (n : ℤ) : roundHalfEven (n : ℚ) = n := by
  have floor : (n : ℚ).floor = n := Rat.floor_intCast n
  simp [roundHalfEven, floor]

theorem round_half_even_mono (p q : ℚ) (order : p ≤ q) : roundHalfEven p ≤ roundHalfEven q := by
  rcases (Int.floor_mono order).lt_or_eq with less | same
  · have := (round_half_even_bounds p).2
    have := (round_half_even_bounds q).1
    omega
  · have sameFloor : p.floor = q.floor := same
    unfold roundHalfEven
    simp only [sameFloor]
    split_ifs <;> first | omega | linarith

-- Turning the sign around turns the distance to the floor into the distance to the ceiling.
theorem round_half_even_neg (q : ℚ) : roundHalfEven (-q) = -roundHalfEven q := by
  by_cases whole : (⌊q⌋ : ℚ) = q
  · rw [← whole, ← Int.cast_neg, round_half_even_int, round_half_even_int]
  · have floorNeg : (-q).floor = -q.floor - 1 := by
      change ⌊-q⌋ = -⌊q⌋ - 1
      rw [Int.floor_eq_iff]
      have low := Int.floor_le q
      have high := Int.lt_floor_add_one q
      have strict := lt_of_le_of_ne low whole
      push_cast
      constructor <;> linarith
    unfold roundHalfEven
    simp only [floorNeg]
    push_cast
    split_ifs <;> first | omega | linarith

namespace Precision

-- The nearest multiple of the step; `round` only adds the sign of zero and the infinities.
def nearest (p : Precision) (q : ℚ) : ℚ :=
  if q = 0 then 0 else twoPow (p.stepExponent q) * roundHalfEven (q / twoPow (p.stepExponent q))

theorem step_exponent_eq (p : Precision) (q : ℚ) :
    p.stepExponent q = max p.minExponent (magnitude q + 1 - p.digits) := rfl

theorem step_exponent_neg (p : Precision) (q : ℚ) : p.stepExponent (-q) = p.stepExponent q := by
  rw [step_exponent_eq, step_exponent_eq, magnitude_neg]

theorem nearest_neg (p : Precision) (q : ℚ) : p.nearest (-q) = -p.nearest q := by
  unfold nearest
  by_cases zero : q = 0
  · simp [zero]
  · rw [if_neg zero, if_neg (neg_ne_zero.mpr zero), step_exponent_neg, neg_div, round_half_even_neg]
    push_cast
    ring

theorem nearest_nonneg (p : Precision) (q : ℚ) (nonneg : 0 ≤ q) : 0 ≤ p.nearest q := by
  unfold nearest
  split
  · exact le_refl 0
  · have stepPos := two_pow_pos (p.stepExponent q)
    have digit : roundHalfEven ((0 : ℤ) : ℚ) ≤ roundHalfEven (q / twoPow (p.stepExponent q)) :=
      round_half_even_mono _ _ (by push_cast; positivity)
    rw [round_half_even_int] at digit
    have : (0 : ℚ) ≤ roundHalfEven (q / twoPow (p.stepExponent q)) := by exact_mod_cast digit
    positivity

theorem nearest_multiple (p : Precision) (q : ℚ) (n : ℤ) (multiple : q = twoPow (p.stepExponent q) * n) :
    p.nearest q = q := by
  unfold nearest
  split
  · rename_i zero
    exact zero.symm
  · have stepPos := two_pow_pos (p.stepExponent q)
    have quotient : q / twoPow (p.stepExponent q) = n := by
      rw [div_eq_iff stepPos.ne', mul_comm]
      exact multiple
    rw [quotient, round_half_even_int]
    exact multiple.symm

theorem step_exponent_mono (p : Precision) (a b : ℚ) (nonzero : a ≠ 0) (smaller : |a| ≤ |b|) :
    p.stepExponent a ≤ p.stepExponent b := by
  have := magnitude_mono nonzero smaller
  rw [step_exponent_eq, step_exponent_eq]
  omega

variable {a b : ℚ} {p : Precision}

theorem nearest_le_power (p : Precision) (positive : 0 < a) : p.nearest a ≤ 2 ^ (p.stepExponent a + p.digits) := by
  have stepPos := two_pow_pos (p.stepExponent a)
  have below : a / twoPow (p.stepExponent a) ≤ ((2 ^ p.digits : ℤ) : ℚ) := by
    rw [div_le_iff₀ stepPos, two_pow_eq]
    have exponent : magnitude a + 1 ≤ p.digits + p.stepExponent a := by
      rw [step_exponent_eq]
      omega
    calc a ≤ 2 ^ (magnitude a + 1) := by simpa [abs_of_pos positive] using (magnitude_spec positive.ne').2.le
      _ ≤ 2 ^ ((p.digits : ℤ) + p.stepExponent a) := zpow_le_zpow_right₀ (by norm_num) exponent
      _ = ((2 ^ p.digits : ℤ) : ℚ) * 2 ^ p.stepExponent a := by
        rw [zpow_add₀ two_ne_zero]
        push_cast
        rw [zpow_natCast]
  have digit := round_half_even_mono _ _ below
  rw [round_half_even_int] at digit
  rw [nearest, if_neg positive.ne', zpow_add₀ two_ne_zero, ← two_pow_eq, zpow_natCast]
  have digitCast : (roundHalfEven (a / twoPow (p.stepExponent a)) : ℚ) ≤ 2 ^ p.digits := by exact_mod_cast digit
  gcongr

theorem power_le_nearest (positive : 0 < b) (digits : 1 ≤ p.digits) (coarse : p.minExponent < p.stepExponent b) :
    2 ^ (p.stepExponent b + p.digits - 1) ≤ p.nearest b := by
  have stepPos := two_pow_pos (p.stepExponent b)
  have exponent : p.stepExponent b + p.digits - 1 = magnitude b := by
    rw [step_exponent_eq] at coarse ⊢
    omega
  have above : ((2 ^ (p.digits - 1) : ℤ) : ℚ) ≤ b / twoPow (p.stepExponent b) := by
    rw [le_div_iff₀ stepPos, two_pow_eq]
    push_cast
    rw [← zpow_natCast, ← zpow_add₀ two_ne_zero]
    have sameExponent : ((p.digits - 1 : ℕ) : ℤ) + p.stepExponent b = magnitude b := by omega
    rw [sameExponent]
    simpa [abs_of_pos positive] using (magnitude_spec positive.ne').1
  have digit := round_half_even_mono _ _ above
  rw [round_half_even_int] at digit
  have digitCast : (2 : ℚ) ^ (p.digits - 1) ≤ roundHalfEven (b / twoPow (p.stepExponent b)) := by
    exact_mod_cast digit
  rw [nearest, if_neg positive.ne']
  have split : (2 : ℚ) ^ (p.stepExponent b + p.digits - 1) = twoPow (p.stepExponent b) * 2 ^ (p.digits - 1) := by
    rw [two_pow_eq, ← zpow_natCast, ← zpow_add₀ two_ne_zero]
    congr 1
    omega
  rw [split]
  gcongr

theorem nearest_mono_pos (digits : 1 ≤ p.digits) (a b : ℚ) (positive : 0 < a) (order : a ≤ b) :
    p.nearest a ≤ p.nearest b := by
  have positiveB := positive.trans_le order
  have steps := step_exponent_mono p a b positive.ne' (by rwa [abs_of_pos positive, abs_of_pos positiveB])
  rcases steps.eq_or_lt with same | less
  · rw [nearest, nearest, if_neg positive.ne', if_neg positiveB.ne', same]
    have stepPos := two_pow_pos (p.stepExponent b)
    have digit := round_half_even_mono (a / twoPow (p.stepExponent b)) (b / twoPow (p.stepExponent b)) (by gcongr)
    have digitCast : (roundHalfEven (a / twoPow (p.stepExponent b)) : ℚ) ≤
      roundHalfEven (b / twoPow (p.stepExponent b)) := by exact_mod_cast digit
    gcongr
  · have coarse : p.minExponent < p.stepExponent b := by
      rw [step_exponent_eq] at less
      omega
    calc p.nearest a ≤ 2 ^ (p.stepExponent a + p.digits) := nearest_le_power p positive
      _ ≤ 2 ^ (p.stepExponent b + p.digits - 1) := zpow_le_zpow_right₀ (by norm_num) (by omega)
      _ ≤ p.nearest b := power_le_nearest positiveB digits coarse

theorem nearest_mono (p : Precision) (digits : 1 ≤ p.digits) (a b : ℚ) (order : a ≤ b) :
    p.nearest a ≤ p.nearest b := by
  rcases lt_or_ge 0 a with positive | nonpos
  · exact nearest_mono_pos digits a b positive order
  · have low : p.nearest a ≤ 0 := by
      have := nearest_nonneg p (-a) (by linarith)
      rw [nearest_neg] at this
      linarith
    rcases lt_or_ge b 0 with negative | nonneg
    · have := nearest_mono_pos digits (-b) (-a) (by linarith) (by linarith)
      rw [nearest_neg, nearest_neg] at this
      linarith
    · exact low.trans (nearest_nonneg p b nonneg)

-- Beyond the limit of the format there are only the infinities.
def clamp (p : Precision) (value : ℚ) : Quantity :=
  if twoPow p.limit ≤ value then .posInf else if value ≤ -twoPow p.limit then .negInf else .finite value

theorem clamp_mono (order : a ≤ b) : p.clamp a ≤ p.clamp b := by
  have := two_pow_pos p.limit
  unfold clamp
  split_ifs <;> simp <;> linarith

theorem quantity_round (q : ℚ) : (p.round q).quantity? = some (p.clamp (p.nearest q)) := by
  have limitPos := two_pow_pos p.limit
  have zeroClamp : p.clamp 0 = .finite 0 := by
    rw [clamp, if_neg (by linarith), if_neg (by linarith)]
  by_cases zero : q = 0
  · simp [round, nearest, zero, zeroClamp]
  · have value : twoPow (p.stepExponent q) * roundHalfEven (q / twoPow (p.stepExponent q)) = p.nearest q := by
      rw [nearest, if_neg zero]
    rw [round, if_neg zero]
    simp only [value]
    by_cases vanishes : p.nearest q = 0
    · rw [if_pos vanishes, vanishes, zeroClamp]
      split <;> rfl
    · rw [if_neg vanishes, clamp]
      split_ifs <;> rfl

end Precision

namespace Number

def rounded (q : ℚ) : Quantity := Precision.double.clamp (Precision.double.nearest q)

theorem quantity_of_rat (q : ℚ) : (ofRat q).quantity? = some (rounded q) := quantity_round q

variable {a b : ℚ}

theorem rounded_mono (order : a ≤ b) : rounded a ≤ rounded b :=
  clamp_mono (nearest_mono _ (by decide) a b order)

def IsExact (q : ℚ) : Prop := ofRat q = .finite q

instance (q : ℚ) : Decidable (IsExact q) := inferInstanceAs (Decidable (ofRat q = .finite q))

theorem rounded_exact (q : ℚ) (exact : IsExact q) : rounded q = .finite q := by
  have same := quantity_of_rat q
  rw [exact, quantity_finite] at same
  exact (Option.some.inj same).symm

theorem rounded_le (order : a ≤ b) (exact : IsExact b) : rounded a ≤ .finite b := by
  rw [← rounded_exact b exact]
  exact rounded_mono order

theorem le_rounded (order : a ≤ b) (exact : IsExact a) : .finite a ≤ rounded b := by
  rw [← rounded_exact a exact]
  exact rounded_mono order

-- Up to 2 ^ 53 the steps of the format are at most one, or two at the very end.
theorem int_multiple_of_step {n : ℤ} (small : |n| ≤ 2 ^ 53) :
    ∃ m : ℤ, (n : ℚ) = twoPow (double.stepExponent n) * m := by
  by_cases zero : n = 0
  · exact ⟨0, by simp [zero]⟩
  have nonzero : (n : ℚ) ≠ 0 := by exact_mod_cast zero
  have bound : |(n : ℚ)| ≤ 2 ^ (53 : ℤ) := by exact_mod_cast small
  have magnitudeLe : magnitude n ≤ 53 :=
    (zpow_le_zpow_iff_right₀ (by norm_num : (1 : ℚ) < 2)).mp ((magnitude_spec nonzero).1.trans bound)
  have stepEq := step_exponent_eq double n
  simp only [double] at stepEq
  by_cases fine : double.stepExponent n ≤ 0
  · obtain ⟨k, stepNeg⟩ : ∃ k : ℕ, double.stepExponent n = -(k : ℤ) :=
      ⟨(-double.stepExponent n).toNat, by omega⟩
    refine ⟨n * 2 ^ k, ?_⟩
    rw [stepNeg, two_pow_eq, zpow_neg, zpow_natCast]
    push_cast
    field_simp
  · have last : magnitude n = 53 := by
      simp only [double] at fine
      omega
    have whole : |n| = 2 ^ 53 := by
      have low := (magnitude_spec nonzero).1
      rw [last] at low
      have : (2 : ℤ) ^ 53 ≤ |n| := by exact_mod_cast low
      omega
    have step : double.stepExponent n = 1 := by
      simp only [double] at fine ⊢
      omega
    rw [step, two_pow_eq]
    rcases abs_eq (by norm_num : (0 : ℤ) ≤ 2 ^ 53) |>.mp whole with positive | negative
    · exact ⟨2 ^ 52, by rw [positive]; norm_num⟩
    · exact ⟨-2 ^ 52, by rw [negative]; norm_num⟩

theorem exact_of_nearest (q : ℚ) (fixed : Precision.double.nearest q = q)
    (below : |q| < twoPow Precision.double.limit) :
    IsExact q := by
  have range := abs_lt.mp below
  unfold IsExact ofRat Precision.round
  by_cases zero : q = 0
  · rw [if_pos zero, zero]
  · have value : twoPow (Precision.double.stepExponent q) *
        roundHalfEven (q / twoPow (Precision.double.stepExponent q)) = q := by
      conv_rhs => rw [← fixed, Precision.nearest, if_neg zero]
    rw [if_neg zero]
    simp only [value]
    rw [if_neg zero, if_neg (not_le.mpr range.2), if_neg (not_le.mpr range.1)]

theorem exact_int (n : ℤ) (small : |n| ≤ 2 ^ 53) : IsExact (n : ℚ) := by
  obtain ⟨m, multiple⟩ := int_multiple_of_step small
  have bound : |(n : ℚ)| ≤ 2 ^ (53 : ℤ) := by exact_mod_cast small
  refine exact_of_nearest n (nearest_multiple double n m multiple) ?_
  rw [two_pow_eq]
  exact bound.trans_lt (zpow_lt_zpow_right₀ (by norm_num) (by decide))

end Number

namespace Quantity

def add? : Quantity → Quantity → Option Quantity
  | .finite a, .finite b => if Number.IsExact (a + b) then some (.finite (a + b)) else none
  | .posInf, .negInf | .negInf, .posInf => none
  | .posInf, _ | _, .posInf => some .posInf
  | .negInf, _ | _, .negInf => some .negInf

def neg : Quantity → Quantity
  | .negInf => .posInf
  | .finite q => .finite (-q)
  | .posInf => .negInf

def sub? (p q : Quantity) : Option Quantity := p.add? q.neg

theorem neg_le_neg_iff (p q : Quantity) : p.neg ≤ q.neg ↔ q ≤ p := by
  cases p <;> cases q <;> simp [neg]

theorem add_finite {a b : ℚ} (sum : (finite a).add? (finite b) = some r) :
    Number.IsExact (a + b) ∧ r = .finite (a + b) := by
  rw [add?] at sum
  split at sum
  · rename_i exact
    exact ⟨exact, (Option.some.inj sum).symm⟩
  · cases sum

theorem add_pos_inf (infinite : p = .posInf ∨ q = .posInf) (sum : p.add? q = some r) : r = .posInf := by
  cases p <;> cases q <;> simp_all [add?]

theorem add_neg_inf (infinite : p = .negInf ∨ q = .negInf) (sum : p.add? q = some r) : r = .negInf := by
  cases p <;> cases q <;> simp_all [add?]

end Quantity

namespace Number

-- The number is a lower bound of a quantity. The undefined number bounds everything.
def AtMost (a : Number) (q : Quantity) : Prop := ∀ p, a.quantity? = some p → p ≤ q

def AtLeast (a : Number) (q : Quantity) : Prop := ∀ p, a.quantity? = some p → q ≤ p

theorem quantity_neg (a : Number) : a.neg.quantity? = a.quantity?.map Quantity.neg := by
  cases a with
  | finite q =>
    by_cases zero : q = 0
    · simp [neg, zero, Quantity.neg]
    · simp [neg, zero, Quantity.neg]
  | _ => simp [neg, Quantity.neg]

theorem neg_at_most (a : Number) (bound : a.AtLeast q) : a.neg.AtMost q.neg := by
  intro p defined
  rw [quantity_neg, Option.map_eq_some_iff] at defined
  obtain ⟨p', original, rfl⟩ := defined
  exact (neg_le_neg_iff p' q).mpr (bound p' original)

theorem neg_at_least (a : Number) (bound : a.AtMost q) : a.neg.AtLeast q.neg := by
  intro p defined
  rw [quantity_neg, Option.map_eq_some_iff] at defined
  obtain ⟨p', original, rfl⟩ := defined
  exact (neg_le_neg_iff q p').mpr (bound p' original)

variable {a b : Number} {x y : ℚ}

theorem quantity_add (b : Number) (left : a.quantity? = some p) (right : b.quantity? = some q)
    (sum : p.add? q = some r) :
    (a.add b).quantity? = some r := by
  cases a <;> cases b <;> simp only [quantity?, Option.some.injEq, reduceCtorEq] at left right <;>
    subst left right <;> try exact sum
  · obtain ⟨-, rfl⟩ := add_finite sum
    simp [add]
  · obtain ⟨-, rfl⟩ := add_finite sum
    simp [add]
  · obtain ⟨-, rfl⟩ := add_finite sum
    simp [add]
  · obtain ⟨exact, rfl⟩ := add_finite sum
    rw [add, quantity_of_rat, rounded_exact _ exact]

theorem quantity_add_cases {s : Quantity} (defined : (a.add b).quantity? = some s) :
    ∃ p q, a.quantity? = some p ∧ b.quantity? = some q ∧
      ((∃ x y, p = .finite x ∧ q = .finite y ∧ (s = .finite (x + y) ∨ s = rounded (x + y))) ∨
        (s = .posInf ∧ (p = .posInf ∨ q = .posInf)) ∨ (s = .negInf ∧ (p = .negInf ∨ q = .negInf))) := by
  cases a <;> cases b <;> simp [add, quantity_of_rat] at defined <;> simp [← defined]

theorem sum_at_most (left : .finite x ≤ p) (right : .finite y ≤ q) (sum : p.add? q = some r) :
    .finite (x + y) ≤ r ∧ rounded (x + y) ≤ r := by
  cases p with
  | negInf => simp at left
  | posInf => simp [add_pos_inf (.inl rfl) sum]
  | finite x' =>
    cases q with
    | negInf => simp at right
    | posInf => simp [add_pos_inf (.inr rfl) sum]
    | finite y' =>
      obtain ⟨exact, rfl⟩ := add_finite sum
      rw [finite_le_finite] at left right
      have order : x + y ≤ x' + y' := add_le_add left right
      exact ⟨(finite_le_finite).mpr order, rounded_le order exact⟩

theorem sum_at_least (left : p ≤ .finite x) (right : q ≤ .finite y) (sum : p.add? q = some r) :
    r ≤ .finite (x + y) ∧ r ≤ rounded (x + y) := by
  cases p with
  | posInf => simp at left
  | negInf => simp [add_neg_inf (.inl rfl) sum]
  | finite x' =>
    cases q with
    | posInf => simp at right
    | negInf => simp [add_neg_inf (.inr rfl) sum]
    | finite y' =>
      obtain ⟨exact, rfl⟩ := add_finite sum
      rw [finite_le_finite] at left right
      have order : x' + y' ≤ x + y := add_le_add left right
      exact ⟨(finite_le_finite).mpr order, le_rounded order exact⟩

theorem add_at_most (left : a.AtMost p) (right : b.AtMost q) (sum : p.add? q = some r) : (a.add b).AtMost r := by
  intro s defined
  obtain ⟨p', q', leftEq, rightEq, finite | ⟨rfl, infinite⟩ | ⟨rfl, -⟩⟩ := quantity_add_cases defined
  · obtain ⟨x, y, rfl, rfl, value⟩ := finite
    obtain ⟨plain, round⟩ := sum_at_most (left _ leftEq) (right _ rightEq) sum
    rcases value with rfl | rfl
    · exact plain
    · exact round
  · have top : p = .posInf ∨ q = .posInf := by
      rcases infinite with rfl | rfl
      · exact .inl (by simpa using left _ leftEq)
      · exact .inr (by simpa using right _ rightEq)
    exact (add_pos_inf top sum).symm.le
  · exact neg_inf_le r

theorem add_at_least (left : a.AtLeast p) (right : b.AtLeast q) (sum : p.add? q = some r) : (a.add b).AtLeast r := by
  intro s defined
  obtain ⟨p', q', leftEq, rightEq, finite | ⟨rfl, -⟩ | ⟨rfl, infinite⟩⟩ := quantity_add_cases defined
  · obtain ⟨x, y, rfl, rfl, value⟩ := finite
    obtain ⟨plain, round⟩ := sum_at_least (left _ leftEq) (right _ rightEq) sum
    rcases value with rfl | rfl
    · exact plain
    · exact round
  · exact le_pos_inf r
  · have bottom : p = .negInf ∨ q = .negInf := by
      rcases infinite with rfl | rfl
      · exact .inl (by simpa using left _ leftEq)
      · exact .inr (by simpa using right _ rightEq)
    exact (add_neg_inf bottom sum).le

theorem quantity_sub (left : a.quantity? = some p) (right : b.quantity? = some q) (difference : p.sub? q = some r) :
    (a.sub b).quantity? = some r :=
  quantity_add b.neg left (by rw [quantity_neg, right]; rfl) difference

theorem sub_at_most (left : a.AtMost p) (right : b.AtLeast q) (difference : p.sub? q = some r) : (a.sub b).AtMost r :=
  add_at_most left (neg_at_most b right) difference

theorem sub_at_least (left : a.AtLeast p) (right : b.AtMost q) (difference : p.sub? q = some r) : (a.sub b).AtLeast r :=
  add_at_least left (neg_at_least b right) difference

end Number

end Blockwork
