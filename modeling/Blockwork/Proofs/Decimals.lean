import Blockwork.Markup.Value
import Blockwork.Proofs.Rounding

set_option autoImplicit false

namespace Blockwork

variable {v : Number}

namespace Precision

-- Rounding up to a power of two makes the step twice as wide, and the power is a multiple of that step too.
theorem nearest_nearest {p : Precision} (digits : 1 ≤ p.digits) (q : ℚ) : p.nearest (p.nearest q) = p.nearest q := by
  have positive : ∀ q : ℚ, 0 < q → p.nearest (p.nearest q) = p.nearest q := by
    intro q above
    generalize nearestEq : p.nearest q = r
    have nonneg : 0 ≤ r := nearestEq ▸ nearest_nonneg p q above.le
    by_cases zero : r = 0
    · rw [zero, nearest, if_pos rfl]
    have rPos : 0 < r := lt_of_le_of_ne nonneg (Ne.symm zero)
    have value : r = twoPow (p.stepExponent q) * roundHalfEven (q / twoPow (p.stepExponent q)) := by
      rw [← nearestEq, nearest, if_neg above.ne']
    have most : r ≤ 2 ^ (p.stepExponent q + p.digits) := nearestEq ▸ nearest_le_power p above
    have least : p.minExponent ≤ p.stepExponent q := le_max_left _ _
    have spec := magnitude_spec zero
    rw [abs_of_pos rPos] at spec
    have stepEq := step_exponent_eq p r
    by_cases fine : p.stepExponent r ≤ p.stepExponent q
    · obtain ⟨k, shift⟩ : ∃ k : ℕ, p.stepExponent q = p.stepExponent r + k :=
        ⟨(p.stepExponent q - p.stepExponent r).toNat, by omega⟩
      generalize roundHalfEven (q / twoPow (p.stepExponent q)) = m at value
      refine nearest_multiple p r (2 ^ k * m) ?_
      conv_lhs => rw [value, two_pow_eq, shift, zpow_add₀ two_ne_zero, zpow_natCast]
      rw [two_pow_eq]
      push_cast
      ring
    · have top : magnitude r = p.stepExponent q + p.digits := by
        have order := (zpow_le_zpow_iff_right₀ (by norm_num : (1 : ℚ) < 2)).mp (spec.1.trans most)
        omega
      have whole : r = 2 ^ (p.stepExponent q + p.digits) := le_antisymm most (top ▸ spec.1)
      have step : p.stepExponent r = p.stepExponent q + 1 := by omega
      refine nearest_multiple p r (2 ^ (p.digits - 1)) ?_
      conv_lhs => rw [whole]
      rw [two_pow_eq, step]
      push_cast
      rw [← zpow_natCast, ← zpow_add₀ two_ne_zero]
      congr 1
      omega
  rcases lt_trichotomy q 0 with negative | rfl | above
  · have flipped := positive (-q) (by linarith)
    rw [nearest_neg, nearest_neg] at flipped
    linarith
  · simp [nearest]
  · exact positive q above

end Precision

namespace Number

def IsDouble (v : Number) : Prop := ∀ q, v = .finite q → IsExact q

theorem double_of_rat (q : ℚ) : (ofRat q).IsDouble := by
  intro r rounds
  have exactZero : IsExact 0 := by exact_mod_cast exact_int 0 (by norm_num)
  unfold ofRat Precision.round at rounds
  by_cases zero : q = 0
  · rw [if_pos zero] at rounds
    cases rounds
    exact exactZero
  · rw [if_neg zero] at rounds
    have value : twoPow (Precision.double.stepExponent q) *
        roundHalfEven (q / twoPow (Precision.double.stepExponent q)) = Precision.double.nearest q := by
      rw [Precision.nearest, if_neg zero]
    simp only [value] at rounds
    split_ifs at rounds with vanishes negative above below
    · cases rounds
      exact exactZero
    · cases rounds
      exact exact_of_nearest _ (Precision.nearest_nearest (by decide) q)
        (abs_lt.mpr ⟨not_le.mp below, not_le.mp above⟩)

theorem double_neg (double : v.IsDouble) : v.neg.IsDouble := by
  intro r flipped
  cases v with
  | finite q =>
    have rounded := rounded_exact q (double q rfl)
    unfold Number.rounded Precision.clamp at rounded
    split_ifs at rounded with above below
    have nearest : Precision.double.nearest q = q := Quantity.finite.inj rounded
    rw [nearest] at above below
    simp only [neg] at flipped
    split_ifs at flipped
    cases flipped
    refine exact_of_nearest (-q) (by rw [Precision.nearest_neg, nearest]) ?_
    rw [abs_neg]
    exact abs_lt.mpr ⟨not_le.mp below, not_le.mp above⟩
  | negZero =>
    cases flipped
    exact_mod_cast exact_int 0 (by norm_num)
  | _ => cases flipped

end Number

namespace Markup

theorem decimal_double {d : DecimalText} (read : d.number? = some v) : v.IsDouble := by
  have zero : Number.zero.IsDouble := by
    intro q same
    cases same
    exact_mod_cast Number.exact_int 0 (by norm_num)
  unfold DecimalText.number? at read
  dsimp only at read
  split_ifs at read <;> cases read
  case pos.refl => exact Number.double_neg zero
  case neg.refl => exact zero
  all_goals first
    | exact Number.double_of_rat _
    | exact Number.double_neg (Number.double_of_rat _)

variable {text : String}

theorem word_double (read : wordValue? text = some (.number v)) : v.IsDouble := by
  intro q same
  subst same
  unfold wordValue? at read
  split at read <;> cases read

theorem numeric_double (dates : Bool) {cs : List Char} (v : Number) (read : numericValue? dates cs = some (.number v)) :
    v.IsDouble := by
  unfold numericValue? at read
  split_ifs at read
  · cases read
  · dsimp only at read
    split at read
    · cases read
    · next decimal =>
        cases read
        obtain ⟨d, -, value⟩ := Option.bind_eq_some_iff.mp decimal
        exact decimal_double value
    · obtain ⟨n, -, wrong⟩ := Option.map_eq_some_iff.mp read
      cases wrong

theorem plain_double {dates : Bool} (read : plainValue dates text = .number v) : v.IsDouble := by
  have chosen : ∀ special : Option ScalarValue, special.getD (.text text) = .number v → special = some (.number v) := by
    intro special value
    cases special with
    | none => cases value
    | some found => exact congrArg some value
  have either : ∀ other : Option ScalarValue, (other = some (.number v) → v.IsDouble) →
      ((wordValue? text).orElse fun _ => other) = some (.number v) → v.IsDouble := by
    intro other double found
    cases word : wordValue? text with
    | none =>
      rw [word] at found
      exact double found
    | some value =>
      rw [word] at found
      exact word_double (word.trans found)
  have special := chosen _ read
  split at special
  · exact word_double special
  · split_ifs at special
    · exact either _ (numeric_double dates v) special
    · refine either _ (fun grouped => ?_) special
      obtain ⟨w, found, same⟩ := Option.map_eq_some_iff.mp grouped
      cases same
      unfold groupedDecimal? at found
      split_ifs at found
      obtain ⟨d, -, value⟩ := Option.bind_eq_some_iff.mp found
      exact decimal_double value
    · exact word_double special

theorem scalar_double {s : Scalar} (read : s.number? = some v) : v.IsDouble := by
  obtain ⟨value, found, read⟩ := Option.bind_eq_some_iff.mp read
  cases value with
  | null =>
    cases read
    exact Number.double_of_rat 0
  | integer n =>
    cases read
    exact Number.double_of_rat n
  | number w =>
    cases read
    unfold Scalar.value? at found
    split at found
    · cases found
    · obtain ⟨_, -, wrong⟩ := Option.map_eq_some_iff.mp found
      cases wrong
    · dsimp only at found
      split_ifs at found
      · exact plain_double (Option.some.inj found)
      · split at found
        · split_ifs at found
          cases found
          exact Number.double_of_rat _
        · cases found
  | _ => cases read

end Markup

end Blockwork
