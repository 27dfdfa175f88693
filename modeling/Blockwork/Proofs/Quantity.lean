import Blockwork.Number.Basic
import Mathlib

set_option autoImplicit false

namespace Blockwork

-- What a number amounts to: both zeros are one quantity, and the undefined number has none.
inductive Quantity where
  | negInf
  | finite (value : ℚ)
  | posInf
deriving DecidableEq

namespace Quantity

def extended : Quantity → WithBot (WithTop ℚ)
  | .negInf => ⊥
  | .finite q => ((q : WithTop ℚ) : WithBot (WithTop ℚ))
  | .posInf => ((⊤ : WithTop ℚ) : WithBot (WithTop ℚ))

theorem extended_injective : Function.Injective extended := by
  intro a b same
  cases a <;> cases b <;> simp_all [extended]

instance : LinearOrder Quantity := LinearOrder.lift' extended extended_injective

theorem le_iff_extended (a b : Quantity) : a ≤ b ↔ a.extended ≤ b.extended := Iff.rfl

theorem lt_iff_extended {a b : Quantity} : a < b ↔ a.extended < b.extended := Iff.rfl

@[simp] theorem finite_le_finite {p q : ℚ} : finite p ≤ finite q ↔ p ≤ q := by
  simp [le_iff_extended, extended]

@[simp] theorem finite_lt_finite (p q : ℚ) : finite p < finite q ↔ p < q := by
  simp [lt_iff_extended, extended]

variable (a : Quantity)

@[simp] theorem neg_inf_le : negInf ≤ a := by
  simp [le_iff_extended, extended]

@[simp] theorem le_pos_inf : a ≤ posInf := by
  cases a <;> simp [le_iff_extended, extended]

@[simp] theorem neg_inf_lt_finite (q : ℚ) : negInf < finite q := by
  simp [lt_iff_extended, extended]

@[simp] theorem finite_lt_pos_inf (q : ℚ) : finite q < posInf :=
  (lt_iff_extended).mpr (WithBot.coe_lt_coe.mpr (WithTop.coe_lt_top q))

@[simp] theorem neg_inf_lt_pos_inf : negInf < posInf := by
  simp [lt_iff_extended, extended]

@[simp] theorem not_lt_neg_inf : ¬ a < negInf := not_lt.mpr (neg_inf_le a)

@[simp] theorem not_pos_inf_lt : ¬ posInf < a := not_lt.mpr (le_pos_inf a)

@[simp] theorem pos_inf_le_iff : posInf ≤ a ↔ a = posInf :=
  ⟨fun above => le_antisymm (le_pos_inf a) above, fun same => same.symm.le⟩

@[simp] theorem le_neg_inf_iff : a ≤ negInf ↔ a = negInf :=
  ⟨fun below => le_antisymm below (neg_inf_le a), fun same => same.le⟩

end Quantity

namespace Number

def quantity? : Number → Option Quantity
  | .nan => none
  | .negInf => some .negInf
  | .posInf => some .posInf
  | .negZero => some (.finite 0)
  | .finite q => some (.finite q)

@[simp] theorem quantity_nan : Number.nan.quantity? = none := rfl
@[simp] theorem quantity_neg_inf : Number.negInf.quantity? = some .negInf := rfl
@[simp] theorem quantity_pos_inf : Number.posInf.quantity? = some .posInf := rfl
@[simp] theorem quantity_neg_zero : Number.negZero.quantity? = some (.finite 0) := rfl
@[simp] theorem quantity_finite (q : ℚ) : (Number.finite q).quantity? = some (.finite q) := rfl

variable {a b : Number} {p q : Quantity}

theorem lt_iff (left : a.quantity? = some p) (right : b.quantity? = some q) : a.lt b = true ↔ p < q := by
  cases a <;> cases b <;> simp at left right <;> subst left right <;> simp [lt]

theorem eq_iff (b : Number) (q : Quantity) (left : a.quantity? = some p) (right : b.quantity? = some q) :
    a.eq b = true ↔ p = q := by
  cases a <;> cases b <;> simp at left right <;> subst left right <;> simp [eq]
  exact eq_comm

theorem le_iff (left : a.quantity? = some p) (right : b.quantity? = some q) : a.le b = true ↔ p ≤ q := by
  rw [le, Bool.or_eq_true, lt_iff left right, eq_iff b q left right, le_iff_lt_or_eq]

theorem lt_decide (left : a.quantity? = some p) (right : b.quantity? = some q) : a.lt b = decide (p < q) := by
  rw [Bool.eq_iff_iff, lt_iff left right, decide_eq_true_iff]

theorem eq_decide (left : a.quantity? = some p) (right : b.quantity? = some q) : a.eq b = decide (p = q) := by
  rw [Bool.eq_iff_iff, eq_iff b q left right, decide_eq_true_iff]

theorem quantity_none (undefined : a.quantity? = none) : a = .nan := by
  cases a <;> simp_all

theorem lt_defined (less : a.lt b = true) : ∃ p q, a.quantity? = some p ∧ b.quantity? = some q ∧ p < q := by
  cases a <;> cases b <;> simp_all [lt]

theorem eq_defined (same : a.eq b = true) : ∃ p, a.quantity? = some p ∧ b.quantity? = some p := by
  cases a <;> cases b <;> simp_all [eq]

theorem le_defined (less : a.le b = true) : ∃ p q, a.quantity? = some p ∧ b.quantity? = some q ∧ p ≤ q := by
  rw [le, Bool.or_eq_true] at less
  rcases less with less | same
  · obtain ⟨p, q, left, right, order⟩ := lt_defined less
    exact ⟨p, q, left, right, order.le⟩
  · obtain ⟨p, left, right⟩ := eq_defined same
    exact ⟨p, p, left, right, le_refl p⟩

theorem quantity_min (left : a.quantity? = some p) (right : b.quantity? = some q) :
    (a.min b).quantity? = some (Min.min p q) := by
  have less := lt_iff left right
  have zeroA := eq_iff zero (.finite 0) left rfl
  have zeroB := eq_iff zero (.finite 0) right rfl
  have defined : (a.isNaN || b.isNaN) = false := by cases a <;> cases b <;> simp_all [isNaN]
  unfold min
  rw [defined, if_neg Bool.false_ne_true]
  split_ifs with infinite zeros negative order
  · rcases infinite with rfl | rfl
    · cases left
      rw [min_eq_left (Quantity.neg_inf_le q)]
      rfl
    · cases right
      rw [min_eq_right (Quantity.neg_inf_le p)]
      rfl
  · simp_all
  · simp_all
  · rw [left, min_eq_left (less.mp order).le]
  · rw [right, min_eq_right (not_lt.mp fun below => order (less.mpr below))]

theorem quantity_max (left : a.quantity? = some p) (right : b.quantity? = some q) :
    (a.max b).quantity? = some (Max.max p q) := by
  have less := lt_iff right left
  have zeroA := eq_iff zero (.finite 0) left rfl
  have zeroB := eq_iff zero (.finite 0) right rfl
  have defined : (a.isNaN || b.isNaN) = false := by cases a <;> cases b <;> simp_all [isNaN]
  unfold max
  rw [defined, if_neg Bool.false_ne_true]
  split_ifs with infinite zeros negative order
  · rcases infinite with rfl | rfl
    · cases left
      rw [max_eq_left (Quantity.le_pos_inf q)]
      rfl
    · cases right
      rw [max_eq_right (Quantity.le_pos_inf p)]
      rfl
  · simp_all
  · simp_all
  · rw [left, max_eq_left (less.mp order).le]
  · rw [right, max_eq_right (not_lt.mp fun below => order (less.mpr below))]

theorem min_cases (defined : (a.min b).quantity? = some p) :
    p = .negInf ∧ (a = .negInf ∨ b = .negInf) ∨ ∃ q r, a.quantity? = some q ∧ b.quantity? = some r ∧
      p = Min.min q r := by
  cases left : a.quantity? with
  | none => cases b <;> simp_all [quantity_none left, min, isNaN]
  | some q =>
    cases right : b.quantity? with
    | none => cases a <;> simp_all [quantity_none right, min, isNaN]
    | some r => exact .inr ⟨q, r, rfl, rfl, Option.some_inj.mp (defined.symm.trans (quantity_min left right))⟩

theorem max_cases (defined : (a.max b).quantity? = some p) :
    p = .posInf ∧ (a = .posInf ∨ b = .posInf) ∨ ∃ q r, a.quantity? = some q ∧ b.quantity? = some r ∧
      p = Max.max q r := by
  cases left : a.quantity? with
  | none => cases b <;> simp_all [quantity_none left, max, isNaN]
  | some q =>
    cases right : b.quantity? with
    | none => cases a <;> simp_all [quantity_none right, max, isNaN]
    | some r => exact .inr ⟨q, r, rfl, rfl, Option.some_inj.mp (defined.symm.trans (quantity_max left right))⟩

end Number

end Blockwork
