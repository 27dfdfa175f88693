import Blockwork.Number.Layout
import Blockwork.Proofs.Rounding

set_option autoImplicit false

namespace Blockwork

open List Precision RoundingInterval

variable {q : ℚ} {p : Precision} {e : ℤ} {i : RoundingInterval}

theorem round_half_even_near {m : ℤ} (low : (m : ℚ) - 1 / 2 ≤ q) (high : q ≤ m + 1 / 2)
    (tie : m % 2 = 0 ∨ (m : ℚ) - 1 / 2 < q ∧ q < m + 1 / 2) : roundHalfEven q = m := by
  have below : (q.floor : ℚ) ≤ q := Int.floor_le q
  have above : q < q.floor + 1 := Int.lt_floor_add_one q
  have least : m - 1 ≤ q.floor := by
    have : (m : ℚ) - 1 < q.floor + 1 := by linarith
    have : m - 1 < q.floor + 1 := by exact_mod_cast this
    omega
  have most : q.floor ≤ m := by
    have : (q.floor : ℚ) < m + 1 := by linarith
    have : q.floor < m + 1 := by exact_mod_cast this
    omega
  unfold roundHalfEven
  dsimp only
  rcases (by omega : q.floor = m - 1 ∨ q.floor = m) with floor | floor
  · rw [floor]
    push_cast
    rcases tie with even | ⟨strict, -⟩
    · split_ifs <;> first | omega | linarith
    · split_ifs <;> first | omega | linarith
  · rw [floor]
    rcases tie with even | ⟨-, strict⟩
    · split_ifs <;> first | omega | linarith
    · split_ifs <;> first | omega | linarith

namespace Precision

variable {x : ℚ}

theorem step_of_bounds (p : Precision) (e : ℤ) (positive : 0 < x) (high : x < 2 ^ (e + p.digits))
    (least : p.minExponent ≤ e) (low : p.minExponent < e → (2 : ℚ) ^ (e + p.digits - 1) ≤ x) :
    p.stepExponent x = e := by
  have spec := magnitude_spec positive.ne'
  rw [abs_of_pos positive] at spec
  have below := (zpow_lt_zpow_iff_right₀ (by norm_num : (1 : ℚ) < 2)).mp (spec.1.trans_lt high)
  rw [step_exponent_eq]
  rcases least.eq_or_lt with finest | coarse
  · omega
  · have above := (zpow_lt_zpow_iff_right₀ (by norm_num : (1 : ℚ) < 2)).mp ((low coarse).trans_lt spec.2)
    omega

theorem nearest_at (m : ℤ) (nonzero : x ≠ 0) (step : p.stepExponent x = e) (near : roundHalfEven (x / twoPow e) = m) :
    p.nearest x = twoPow e * m := by
  rw [nearest, if_neg nonzero, step, near]

theorem mantissa_spec (digits : 1 ≤ p.digits) (positive : 0 < q) (fixed : p.nearest q = q) :
    ∃ m : ℤ, q = twoPow (p.stepExponent q) * m ∧ 0 < m ∧ m < 2 ^ p.digits ∧
      (p.minExponent < p.stepExponent q → 2 ^ (p.digits - 1) ≤ m) := by
  have stepPos := two_pow_pos (p.stepExponent q)
  have spec := magnitude_spec positive.ne'
  rw [abs_of_pos positive] at spec
  generalize mantissa : roundHalfEven (q / twoPow (p.stepExponent q)) = m
  have value : q = twoPow (p.stepExponent q) * m := by
    conv_lhs => rw [← fixed, nearest, if_neg positive.ne', mantissa]
  have power : ∀ n : ℕ, twoPow (p.stepExponent q) * 2 ^ n = (2 : ℚ) ^ (p.stepExponent q + n) := by
    intro n
    rw [two_pow_eq, zpow_add₀ two_ne_zero, zpow_natCast]
  refine ⟨m, value, ?_, ?_, fun coarse => ?_⟩
  · have : (0 : ℚ) < m := by
      rw [value] at positive
      exact pos_of_mul_pos_right positive stepPos.le
    exact_mod_cast this
  · have most : twoPow (p.stepExponent q) * m < twoPow (p.stepExponent q) * 2 ^ p.digits := by
      rw [← value, power]
      refine spec.2.trans_le (zpow_le_zpow_right₀ (by norm_num) ?_)
      rw [step_exponent_eq]
      omega
    have := lt_of_mul_lt_mul_left most stepPos.le
    exact_mod_cast this
  · have least : twoPow (p.stepExponent q) * 2 ^ (p.digits - 1) ≤ twoPow (p.stepExponent q) * m := by
      rw [← value, power]
      refine le_trans (zpow_le_zpow_right₀ (by norm_num) ?_) spec.1
      rw [step_exponent_eq] at coarse ⊢
      omega
    have := le_of_mul_le_mul_left least stepPos
    exact_mod_cast this

theorem around_bounds {m : ℤ} (value : q = twoPow (p.stepExponent q) * m)
    (inside : (RoundingInterval.around p q).contains x = true) :
    q - twoPow (p.stepExponent q) / 2 ≤ x ∧ x ≤ q + twoPow (p.stepExponent q) / 2 ∧
      (m = 2 ^ (p.digits - 1) ∧ p.minExponent < p.stepExponent q → q - twoPow (p.stepExponent q) / 4 ≤ x) ∧
      (m % 2 = 0 ∨ q - twoPow (p.stepExponent q) / 2 < x ∧ x < q + twoPow (p.stepExponent q) / 2) := by
  have stepPos := two_pow_pos (p.stepExponent q)
  have floor : (q / twoPow (p.stepExponent q)).floor = m := by
    have : q / twoPow (p.stepExponent q) = m := by
      rw [div_eq_iff stepPos.ne', mul_comm]
      exact value
    rw [this]
    exact Rat.floor_intCast m
  unfold RoundingInterval.contains RoundingInterval.around at inside
  simp only [floor, Nat.pow_eq, Nat.cast_pow, Nat.cast_ofNat, Bool.or_eq_true, Bool.and_eq_true, decide_eq_true_eq,
    beq_iff_eq] at inside
  by_cases narrow : m = 2 ^ (p.digits - 1) ∧ p.minExponent < p.stepExponent q
  · simp only [if_pos narrow] at inside
    rcases inside with ⟨low, high⟩ | ⟨even, same | same⟩
    · exact ⟨by linarith, by linarith, fun _ => by linarith, .inr ⟨by linarith, by linarith⟩⟩
    · exact ⟨by linarith, by linarith, fun _ => by linarith, .inl even⟩
    · exact ⟨by linarith, by linarith, fun _ => by linarith, .inl even⟩
  · simp only [if_neg narrow] at inside
    rcases inside with ⟨low, high⟩ | ⟨even, same | same⟩
    · exact ⟨by linarith, by linarith, fun this => absurd this narrow, .inr ⟨by linarith, by linarith⟩⟩
    · exact ⟨by linarith, by linarith, fun this => absurd this narrow, .inl even⟩
    · exact ⟨by linarith, by linarith, fun this => absurd this narrow, .inl even⟩

theorem contains_rounds (digits : 1 ≤ p.digits) (positive : 0 < q) (fixed : p.nearest q = q)
    (inside : (around p q).contains x = true) : p.nearest x = q := by
  obtain ⟨m, value, mPos, most, least⟩ := mantissa_spec digits positive fixed
  obtain ⟨low, high, narrow, tie⟩ := around_bounds value inside
  have stepPos := two_pow_pos (p.stepExponent q)
  have minimum : p.minExponent ≤ p.stepExponent q := le_max_left _ _
  generalize exponent : p.stepExponent q = e at *
  have power : ∀ n : ℕ, (2 : ℚ) ^ (e + n) = twoPow e * 2 ^ n := by
    intro n
    rw [two_pow_eq, zpow_add₀ two_ne_zero, zpow_natCast]
  have one : (1 : ℚ) ≤ m := by exact_mod_cast mPos
  have below : (m : ℚ) ≤ 2 ^ p.digits - 1 := by
    have : m ≤ 2 ^ p.digits - 1 := by omega
    exact_mod_cast this
  have xPos : 0 < x := by nlinarith
  have under : x < 2 ^ (e + p.digits) := by
    rw [power]
    nlinarith
  by_cases short : p.minExponent < e ∧ x < 2 ^ (e + p.digits - 1)
  · -- below a power of two the numbers are twice as close
    obtain ⟨coarse, short⟩ := short
    obtain ⟨d, size⟩ : ∃ d, p.digits = d + 1 := ⟨p.digits - 1, by omega⟩
    have least := least coarse
    rw [size, Nat.add_sub_cancel] at least narrow
    rw [size, show e + ((d + 1 : ℕ) : ℤ) - 1 = e + (d : ℕ) by push_cast; ring, power] at short
    have lowest : m = 2 ^ d := by
      refine le_antisymm (not_lt.mp fun above => ?_) least
      have : ((2 : ℚ) ^ d) + 1 ≤ m := by exact_mod_cast above
      nlinarith
    have near := narrow ⟨lowest, coarse⟩
    have whole : q = twoPow e * 2 ^ d := by
      rw [value, lowest]
      push_cast
      rfl
    have half : twoPow (e - 1) = twoPow e / 2 := by
      rw [two_pow_eq, two_pow_eq, zpow_sub₀ two_ne_zero, zpow_one]
    have some : (1 : ℚ) ≤ 2 ^ d := one_le_pow₀ (by norm_num)
    have step : p.stepExponent x = e - 1 := by
      refine step_of_bounds p (e - 1) xPos ?_ (by omega) fun _ => ?_
      · rw [size, show e - 1 + ((d + 1 : ℕ) : ℤ) = e + (d : ℕ) by push_cast; ring, power]
        exact short
      · rw [size,
          show e - 1 + ((d + 1 : ℕ) : ℤ) - 1 = e - 1 + (d : ℕ) by push_cast; ring, zpow_add₀ two_ne_zero, zpow_natCast,
          ← two_pow_eq, half]
        nlinarith
    have halfPos := two_pow_pos (e - 1)
    rw [nearest_at (2 ^ (d + 1)) xPos.ne' step, half, whole]
    · push_cast
      ring
    · refine round_half_even_near ?_ ?_ (.inl (by rw [pow_succ]; omega))
      · rw [le_div_iff₀ halfPos, half]
        push_cast
        rw [pow_succ]
        nlinarith
      · rw [div_le_iff₀ halfPos, half]
        push_cast
        rw [pow_succ]
        nlinarith
  · have step : p.stepExponent x = e :=
      step_of_bounds p e xPos under minimum fun coarse => not_lt.mp fun less => short ⟨coarse, less⟩
    rw [nearest_at m xPos.ne' step, ← value]
    refine round_half_even_near ?_ ?_ (tie.imp_right ?_)
    · rw [le_div_iff₀ stepPos]
      nlinarith
    · rw [div_le_iff₀ stepPos]
      nlinarith
    · rintro ⟨strict, strict'⟩
      rw [lt_div_iff₀ stepPos, div_lt_iff₀ stepPos]
      exact ⟨by nlinarith, by nlinarith⟩

end Precision

namespace Decimal

theorem ten_pow_eq (e : ℤ) : tenPow e = (10 : ℚ) ^ e := by
  unfold tenPow
  by_cases nonneg : 0 ≤ e
  · rw [if_pos nonneg]
    obtain ⟨n, rfl⟩ := Int.eq_ofNat_of_zero_le nonneg
    simp
  · rw [if_neg nonneg]
    obtain ⟨n, rfl⟩ : ∃ n : ℕ, e = -n := ⟨(-e).toNat, by omega⟩
    rw [Rat.mkRat_eq_div]
    simp [zpow_neg]

theorem ten_pow_pos (e : ℤ) : 0 < tenPow e := by
  rw [ten_pow_eq]
  positivity

theorem strip_shift (d : Decimal) : ∃ t :
    ℕ, d.stripZeros.exponent = d.exponent + t ∧ d.digits = d.stripZeros.digits * 10 ^ t := by
  fun_induction stripZeros d with
  | case1 d ends hyp =>
    obtain ⟨t, exponent, digits⟩ := hyp
    dsimp only at exponent digits
    refine ⟨t + 1, by push_cast; omega, ?_⟩
    rw [pow_succ, ← Nat.mul_assoc, ← digits]
    omega
  | case2 d ends => exact ⟨0, by simp, by simp⟩

theorem strip_value (d : Decimal) : d.stripZeros.value = d.value := by
  obtain ⟨t, exponent, digits⟩ := d.strip_shift
  rw [value, value, exponent, ten_pow_eq, ten_pow_eq, digits, zpow_add₀ (by norm_num), zpow_natCast]
  push_cast
  ring

variable {d : Decimal} {n : ℕ}

theorem grid_found (found : onGrid? i q e = some d) : d.exponent = e ∧ i.contains d.value = true := by
  unfold onGrid? at found
  dsimp only at found
  split at found
  · cases found
  · next inside _ =>
      cases found
      exact ⟨rfl, inside⟩
  · next _ inside =>
      cases found
      exact ⟨rfl, inside⟩
  · next inside inside' =>
      split_ifs at found <;> cases found
      all_goals first | exact ⟨rfl, inside⟩ | exact ⟨rfl, inside'⟩

theorem grid_missed (missed : onGrid? i q e = none) :
    i.contains (value ⟨(q / tenPow e).floor.toNat, e⟩) = false ∧
      i.contains (value ⟨(q / tenPow e).floor.toNat + 1, e⟩) = false := by
  unfold onGrid? at missed
  dsimp only at missed
  split at missed
  · next outside outside' => exact ⟨outside, outside'⟩
  · cases missed
  · cases missed
  · split_ifs at missed

theorem shortest_found (few : n < 17) (hit : (onGrid? (.around p q) q (scale q - (n + 1 : ℕ))).isSome = true) :
    ∃ m ≤ n, ∃ d : Decimal, d.exponent = scale q - (m + 1 : ℕ) ∧ (around p q).contains d.value = true ∧
      shortest p q = d.stripZeros := by
  unfold shortest
  dsimp only
  cases found : (List.range 17).findSome? fun n => onGrid? (.around p q) q (scale q - (n + 1 : ℕ)) with
  | none =>
    have missed := findSome?_eq_none_iff.mp found n (mem_range.mpr few)
    rw [missed] at hit
    cases hit
  | some d =>
    obtain ⟨before, m, after, split, here, missed⟩ := findSome?_eq_some_iff.mp found
    obtain ⟨exponent, inside⟩ := grid_found here
    refine ⟨m, ?_, d, exponent, inside, rfl⟩
    -- what stands before the first hit in the range is all that is smaller
    by_contra later
    have member : n ∈ before := by
      have all : n ∈ before ++ m :: after := split ▸ mem_range.mpr few
      have sorted : (before ++ m :: after).Pairwise (· < ·) := split ▸ pairwise_lt_range
      rcases mem_append.mp all with early | late
      · exact early
      · have above := (pairwise_cons.mp (pairwise_append.mp sorted).2.1).1
        rcases mem_cons.mp late with rfl | behind
        · omega
        · have := above n behind
          omega
    rw [missed n member] at hit
    cases hit

theorem digits_of_length (n : ℕ) : n < 10 ^ (digitsOf n).length ∧ (n ≠ 0 → 10 ^ (digitsOf n).length ≤ 10 * n) := by
  induction n using Nat.strongRecOn with
  | _ n hyp =>
    rw [digitsOf]
    by_cases zero : n = 0
    · simp [zero]
    · rw [if_neg zero, length_append, length_singleton, pow_succ]
      obtain ⟨high, low⟩ := hyp (n / 10) (by omega)
      refine ⟨by omega, fun _ => ?_⟩
      by_cases single : n / 10 = 0
      · rw [single, digitsOf, if_pos rfl]
        simp
        omega
      · have := low single
        omega

-- Integers below the precision are farther apart than the numbers around them.
theorem integer_alone (positive : 0 < n) (small : n < 2 ^ 53) (x : ℤ)
    (inside : (RoundingInterval.around .double n).contains x = true) : x = n := by
  have nonzero : (n : ℚ) ≠ 0 := by
    have : n ≠ 0 := by omega
    exact_mod_cast this
  have fine : double.stepExponent n ≤ 0 := by
    have spec := (magnitude_spec nonzero).1
    rw [abs_of_nonneg (by positivity)] at spec
    have bound : (2 : ℚ) ^ (magnitude (n : ℚ)) < 2 ^ (53 : ℤ) := by
      refine spec.trans_lt ?_
      have : (n : ℚ) < 2 ^ 53 := by exact_mod_cast small
      exact_mod_cast this
    have := (zpow_lt_zpow_iff_right₀ (by norm_num : (1 : ℚ) < 2)).mp bound
    rw [step_exponent_eq]
    simp only [double]
    omega
  have step : twoPow (double.stepExponent n) ≤ 1 := by
    rw [two_pow_eq]
    exact zpow_le_one_of_nonpos₀ (by norm_num) fine
  have above := two_pow_pos (double.stepExponent n)
  unfold RoundingInterval.contains RoundingInterval.around at inside
  simp only [Bool.or_eq_true, Bool.and_eq_true, decide_eq_true_eq, beq_iff_eq] at inside
  have low : (n : ℚ) - 1 / 2 ≤ x := by
    split_ifs at inside <;> rcases inside with ⟨_, _⟩ | ⟨_, _ | _⟩ <;> linarith
  have high : (x : ℚ) ≤ n + 1 / 2 := by
    split_ifs at inside <;> rcases inside with ⟨_, _⟩ | ⟨_, _ | _⟩ <;> linarith
  have least : (n : ℤ) - 1 < x := by
    have : ((n : ℤ) - 1 : ℚ) < x := by push_cast; linarith
    exact_mod_cast this
  have most : x < (n : ℤ) + 1 := by
    have : (x : ℚ) < (n : ℤ) + 1 := by push_cast; linarith
    exact_mod_cast this
  omega

theorem around_center (p : Precision) (q : ℚ) : (RoundingInterval.around p q).contains q = true := by
  have above := two_pow_pos (p.stepExponent q)
  unfold RoundingInterval.contains RoundingInterval.around
  simp only [Bool.or_eq_true, Bool.and_eq_true, decide_eq_true_eq]
  refine .inl ⟨?_, by linarith⟩
  split_ifs <;> linarith

theorem value_whole (d : Decimal) (whole : 0 ≤ d.exponent) :
    d.value = ((d.digits * 10 ^ d.exponent.toNat : ℕ) : ℚ) := by
  rw [value, tenPow, if_pos whole, Nat.pow_eq, Nat.cast_mul]

theorem floor_nat (n : ℕ) : (n : ℚ).floor.toNat = n := by
  rw [show (n : ℚ) = ((n : ℤ) : ℚ) by push_cast; rfl, Rat.floor_intCast]
  exact Int.toNat_natCast n

theorem integer_digits (positive : 0 < n) : 0 < (digitsOf n).length := by
  rw [digitsOf, if_neg (by omega)]
  simp

theorem scale_integer (positive : 0 < n) : scale n = (digitsOf n).length := by
  have one : (1 : ℚ) ≤ n := by exact_mod_cast positive
  rw [scale, if_pos one, floor_nat]

theorem integer_hit (positive : 0 < n) :
    (onGrid? (.around .double n) n (scale n - ((digitsOf n).length - 1 + 1 : ℕ))).isSome = true := by
  have some := integer_digits positive
  rw [scale_integer positive, show ((digitsOf n).length : ℤ) - ((digitsOf n).length - 1 + 1 : ℕ) = 0 by omega]
  by_contra missed
  have outside := (grid_missed (Option.not_isSome_iff_eq_none.mp missed)).1
  have same : value ⟨((n : ℚ) / tenPow 0).floor.toNat, 0⟩ = n := by
    rw [value, ten_pow_eq, zpow_zero, div_one, floor_nat, mul_one]
  rw [same, around_center] at outside
  cases outside

theorem shortest_integer (positive : 0 < n) (small : n < 2 ^ 53) :
    0 ≤ (shortest .double n).exponent ∧ (shortest .double n).digits * 10 ^ (shortest .double n).exponent.toNat = n := by
  have some := integer_digits positive
  have few : (digitsOf n).length ≤ 16 := by
    have := (digits_of_length n).2 (by omega)
    by_contra many
    have : 10 ^ 17 ≤ 10 ^ (digitsOf n).length := Nat.pow_le_pow_right (by omega) (by omega)
    omega
  obtain ⟨m, early, d, exponent, inside, found⟩ := shortest_found (by omega) (integer_hit positive)
  have whole : 0 ≤ d.exponent := by
    rw [exponent, scale_integer positive]
    omega
  have integer := d.value_whole whole
  rw [integer] at inside
  have alone := integer_alone positive small (d.digits * 10 ^ d.exponent.toNat : ℕ) (by exact_mod_cast inside)
  obtain ⟨t, shift, digits⟩ := d.strip_shift
  rw [found]
  refine ⟨by omega, ?_⟩
  rw [shift, show (d.exponent + t).toNat = t + d.exponent.toNat by omega, pow_add, ← Nat.mul_assoc, ← digits]
  exact_mod_cast alone

theorem digit_chars_repr (d : Decimal) : d.digitChars = Nat.toDigits 10 d.digits := by
  have each : ∀ n : ℕ, n < 10 → digitChar n = n.digitChar := by
    intro n small
    interval_cases n <;> rfl
  have nonzero : ∀ n : ℕ, n ≠ 0 → (digitsOf n).map digitChar = Nat.toDigits 10 n := by
    intro n
    induction n using Nat.strongRecOn with
    | _ n hyp =>
      intro some
      rw [digitsOf, if_neg some, map_append, map_singleton, each _ (Nat.mod_lt n (by omega)),
        Nat.toDigits_eq_if (by omega)]
      by_cases single : n < 10
      · rw [if_pos single, digitsOf, if_pos (by omega), Nat.mod_eq_of_lt single]
        rfl
      · rw [if_neg single, hyp (n / 10) (by omega) (by omega)]
  unfold digitChars
  by_cases zero : d.digits = 0
  · rw [if_pos zero, zero]
    rfl
  · rw [if_neg zero, nonzero _ zero]

theorem to_digits_shift {k : ℕ} (positive : 0 < n) :
    Nat.toDigits 10 (n * 10 ^ k) = Nat.toDigits 10 n ++ List.replicate k '0' := by
  induction k with
  | zero => simp
  | succ k hyp =>
    have ten : 10 ≤ n * 10 ^ (k + 1) := by
      have : 0 < n * 10 ^ k := Nat.mul_pos positive (by positivity)
      rw [pow_succ, ← Nat.mul_assoc]
      omega
    rw [Nat.toDigits_of_base_le (by omega) ten, pow_succ, ← Nat.mul_assoc, Nat.mul_div_cancel _ (by omega), hyp,
      Nat.mul_mod_left, replicate_succ', append_assoc]
    rfl

theorem plain_whole (positive : 0 < d.digits) (whole : 0 ≤ d.exponent) :
    d.layPlain = Nat.toDigits 10 (d.digits * 10 ^ d.exponent.toNat) := by
  rw [layPlain, if_pos whole, digit_chars_repr, to_digits_shift positive]

end Decimal

namespace Decimal

theorem scale_below (positive : 0 < q) : (10 : ℚ) ^ (scale q - 1) ≤ q := by
  unfold scale
  split_ifs with one
  · have floor : 1 ≤ q.floor := Rat.le_floor_iff.mpr (by exact_mod_cast one)
    obtain ⟨n, whole⟩ := Int.eq_ofNat_of_zero_le (by omega : 0 ≤ q.floor)
    have bound := (digits_of_length n).2 (by omega)
    have below : (n : ℚ) ≤ q := by
      have := Int.floor_le q
      rw [show ⌊q⌋ = (n : ℤ) from whole] at this
      exact_mod_cast this
    rw [whole, Int.toNat_natCast, zpow_sub₀ (by norm_num), zpow_natCast, zpow_one, div_le_iff₀ (by norm_num)]
    have : (10 : ℚ) ^ (digitsOf n).length ≤ 10 * n := by exact_mod_cast bound
    linarith
  · have above : 1 < 1 / q := by
      rw [lt_div_iff₀ positive]
      linarith
    have ceiling : 1 / q ≤ ((1 / q).ceil : ℚ) := Rat.le_ceil
    have two : 2 ≤ (1 / q).ceil := by
      have : ((1 : ℤ) : ℚ) < (1 / q).ceil := by
        push_cast
        linarith
      have : 1 < (1 / q).ceil := by exact_mod_cast this
      omega
    obtain ⟨n, whole⟩ := Int.eq_ofNat_of_zero_le (by omega : 0 ≤ (1 / q).ceil)
    have bound := (digits_of_length (n - 1)).1
    rw [whole] at ceiling
    rw [whole, Int.toNat_natCast,
      show (1 : ℤ) - ((digitsOf (n - 1)).length : ℤ) - 1 = -((digitsOf (n - 1)).length : ℤ) by ring,
      zpow_neg, zpow_natCast, inv_le_comm₀ (by positivity) positive, inv_eq_one_div]
    refine ceiling.trans ?_
    have : n ≤ 10 ^ (digitsOf (n - 1)).length := by omega
    exact_mod_cast this

theorem grid_wide (positive : 0 < q) (low : i.low < q) (high : q < i.high) (missed : onGrid? i q e = none) :
    i.high - i.low ≤ tenPow e := by
  have gridPos := ten_pow_pos e
  obtain ⟨outside, outside'⟩ := grid_missed missed
  have nonneg : 0 ≤ (q / tenPow e).floor := Rat.le_floor_iff.mpr (by push_cast; positivity)
  obtain ⟨n, whole⟩ := Int.eq_ofNat_of_zero_le nonneg
  have floor : ((q / tenPow e).floor : ℚ) ≤ q / tenPow e := Rat.floor_le _
  have next : q / tenPow e < (q / tenPow e).floor + 1 := Int.lt_floor_add_one (q / tenPow e)
  rw [whole, Int.cast_natCast, le_div_iff₀ gridPos] at floor
  rw [whole, Int.cast_natCast, div_lt_iff₀ gridPos] at next
  rw [whole, Int.toNat_natCast] at outside outside'
  simp only [RoundingInterval.contains, value, Bool.or_eq_false_iff, Bool.and_eq_false_iff] at outside outside'
  push_cast at outside'
  have left : n * tenPow e ≤ i.low := by
    rcases outside.1 with small | large
    · exact not_lt.mp (of_decide_eq_false small)
    · have := not_lt.mp (of_decide_eq_false large)
      linarith
  have right : i.high ≤ (n + 1) * tenPow e := by
    rcases outside'.1 with small | large
    · have := not_lt.mp (of_decide_eq_false small)
      linarith
    · exact not_lt.mp (of_decide_eq_false large)
  linarith

-- Seventeen digits are finer than the numbers of double precision.
theorem grid_hit (positive : 0 < q) (fixed : double.nearest q = q) :
    (onGrid? (.around .double q) q (scale q - (16 + 1 : ℕ))).isSome = true := by
  obtain ⟨m, value, -, most, -⟩ := mantissa_spec (by decide) positive fixed
  have fine : tenPow (scale q - (16 + 1 : ℕ)) * 10 ^ 16 ≤ q := by
    have same : scale q - 1 = scale q - (16 + 1 : ℕ) + (16 : ℕ) := by push_cast; ring
    have below := scale_below positive
    rwa [same, zpow_add₀ (by norm_num), zpow_natCast, ← ten_pow_eq] at below
  have stepPos := two_pow_pos (double.stepExponent q)
  have floor : (q / twoPow (double.stepExponent q)).floor = m := by
    have : q / twoPow (double.stepExponent q) = m := by
      rw [div_eq_iff stepPos.ne', mul_comm]
      exact value
    rw [this]
    exact Rat.floor_intCast m
  by_contra missed
  have above : (m : ℚ) < 2 ^ 53 := by exact_mod_cast most
  have wide := grid_wide positive (by simp only [around]; split_ifs <;> linarith)
    (by simp only [around]; linarith) (Option.not_isSome_iff_eq_none.mp missed)
  simp only [around, floor] at wide
  generalize tenPow (scale q - (16 + 1 : ℕ)) = grid at fine wide
  generalize twoPow (double.stepExponent q) = step at value stepPos wide
  split_ifs at wide with narrow
  · have lowest : (m : ℚ) = 2 ^ 52 := by exact_mod_cast (show m = 2 ^ 52 from narrow.1)
    rw [lowest] at value
    linarith
  · have := mul_lt_mul_of_pos_left above stepPos
    linarith

end Decimal

theorem Number.plain_text_integer {z : ℤ} (small : z.natAbs < 2 ^ 53) : (Number.finite z).plainText = z.repr := by
  have written : ∀ n : ℕ, 0 < n → n < 2 ^ 53 → (Decimal.shortest .double n).layPlain = Nat.toDigits 10 n := by
    intro n positive bound
    obtain ⟨whole, same⟩ := Decimal.shortest_integer positive bound
    have some : 0 < (Decimal.shortest .double n).digits := by
      by_contra none
      rw [show (Decimal.shortest .double n).digits = 0 by omega, Nat.zero_mul] at same
      omega
    rw [Decimal.plain_whole some whole, same]
  rw [plainText, write, Int.repr_eq_if]
  by_cases zero : z = 0
  · rw [zero]
    rfl
  · have nonzero : (z : ℚ) ≠ 0 := by exact_mod_cast zero
    simp only [if_neg nonzero, Decimal.lay, Layout.positional, if_true]
    obtain ⟨n, rfl | rfl⟩ := z.eq_nat_or_neg
    · have above : ¬ (n : ℚ) < 0 := not_lt.mpr (Nat.cast_nonneg n)
      simp only [Int.cast_natCast, if_neg above]
      rw [written n (by omega) (by omega), if_pos (by omega), Nat.repr_eq_ofList_toDigits, Int.toNat_natCast]
    · have below : -(n : ℚ) < 0 := by
        rw [neg_lt_zero]
        exact_mod_cast (by omega : 0 < n)
      simp only [Int.cast_neg, Int.cast_natCast, if_pos below, neg_neg]
      rw [written n (by omega) (by omega), if_neg (by omega), Nat.repr_eq_ofList_toDigits, Int.toNat_natCast,
        ← String.toList_inj]
      simp

end Blockwork
