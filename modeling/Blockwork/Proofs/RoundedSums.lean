import Blockwork.Proofs.GuardSound
import Blockwork.Proofs.RangeChecks
import Blockwork.Proofs.ReductionExact

set_option autoImplicit false

namespace Blockwork

open Quantity

theorem Precision.clamp_neg (p : Precision) (value : ℚ) : p.clamp (-value) = (p.clamp value).neg := by
  have positive := two_pow_pos p.limit
  unfold clamp
  rcases le_or_gt (twoPow p.limit) value with high | inside
  · rw [if_neg (by linarith), if_pos (by linarith), if_pos high]
    rfl
  · rcases le_or_gt value (-twoPow p.limit) with low | between
    · rw [if_pos (by linarith), if_neg (by linarith), if_pos low]
      rfl
    · rw [if_neg (by linarith), if_neg (by linarith), if_neg (by linarith), if_neg (by linarith)]
      rfl

namespace Number

theorem rounded_neg (q : ℚ) : rounded (-q) = (rounded q).neg := by
  rw [rounded, Precision.nearest_neg, Precision.clamp_neg, rounded]

-- The number is at most a rational or what that is rounded to. Both are needed: a sum with a zero is not rounded.
def Below (a : Number) (q : ℚ) : Prop := ∀ t, a.quantity? = some t → t ≤ .finite q ∨ t ≤ rounded q

def Above (a : Number) (q : ℚ) : Prop := ∀ t, a.quantity? = some t → .finite q ≤ t ∨ rounded q ≤ t

variable {q x y : ℚ} {a z : Number} {t : Quantity}

theorem neg_above (a : Number) (below : a.Below q) : a.neg.Above (-q) := by
  intro t defined
  rw [quantity_neg, Option.map_eq_some_iff] at defined
  obtain ⟨t, original, rfl⟩ := defined
  rw [rounded_neg, show Quantity.finite (-q) = (Quantity.finite q).neg from rfl, Quantity.neg_le_neg_iff,
    Quantity.neg_le_neg_iff]
  exact below t original

theorem below_of_at_most (value : z.quantity? = some t) (lower : a.AtMost t) (below : z.Below q) :
    a.Below q := fun s defined =>
  (below t value).imp (le_trans (lower s defined)) (le_trans (lower s defined))

theorem above_of_at_least (value : z.quantity? = some t) (upper : a.AtLeast t) (above : z.Above q) :
    a.Above q := fun s defined =>
  (above t value).imp (le_trans · (upper s defined)) (le_trans · (upper s defined))

-- Rounding is monotone, so the sum of lower bounds is a lower bound up to rounding.
theorem add_below (a b : Number) (left : a.AtMost (.finite x)) (right : b.AtMost (.finite y)) :
    (a.add b).Below (x + y) := by
  intro s defined
  obtain ⟨p, q, leftEq, rightEq, finite | ⟨rfl, infinite⟩ | ⟨rfl, -⟩⟩ := quantity_add_cases defined
  · obtain ⟨x', y', rfl, rfl, value⟩ := finite
    have order : x' + y' ≤ x + y :=
      add_le_add ((finite_le_finite).mp (left _ leftEq)) ((finite_le_finite).mp (right _ rightEq))
    rcases value with rfl | rfl
    · exact .inl ((finite_le_finite).mpr order)
    · exact .inr (rounded_mono order)
  · rcases infinite with rfl | rfl
    · simpa using left _ leftEq
    · simpa using right _ rightEq
  · exact .inl (neg_inf_le _)

theorem add_above (a b : Number) (left : a.AtLeast (.finite x)) (right : b.AtLeast (.finite y)) :
    (a.add b).Above (x + y) := by
  intro s defined
  obtain ⟨p, q, leftEq, rightEq, finite | ⟨rfl, -⟩ | ⟨rfl, infinite⟩⟩ := quantity_add_cases defined
  · obtain ⟨x', y', rfl, rfl, value⟩ := finite
    have order : x + y ≤ x' + y' :=
      add_le_add ((finite_le_finite).mp (left _ leftEq)) ((finite_le_finite).mp (right _ rightEq))
    rcases value with rfl | rfl
    · exact .inl ((finite_le_finite).mpr order)
    · exact .inr (rounded_mono order)
  · exact .inl (le_pos_inf _)
  · rcases infinite with rfl | rfl
    · simpa using left _ leftEq
    · simpa using right _ rightEq

theorem sub_below (a b : Number) (left : a.AtMost (.finite x)) (right : b.AtLeast (.finite y)) :
    (a.sub b).Below (x - y) := by
  rw [sub_eq_add_neg]
  exact add_below a b.neg left (b.neg_at_most right)

theorem sub_above (a b : Number) (left : a.AtLeast (.finite x)) (right : b.AtMost (.finite y)) :
    (a.sub b).Above (x - y) := by
  rw [sub_eq_add_neg]
  exact add_above a b.neg left (b.neg_at_least right)

theorem add_defined (a b : Number) (x y : ℚ) (left : a.quantity? = some (.finite x))
    (right : b.quantity? = some (.finite y)) :
    ∃ t, (a.add b).quantity? = some t := by
  cases known : (a.add b).quantity? with
  | some t => exact ⟨t, rfl⟩
  | none =>
    have undefined := quantity_none known
    cases a <;> cases b <;> simp_all [add, of_rat_defined]

theorem Above.lt (r k : ℤ) (above : a.Above r) (value : a.quantity? = some t) (near : t < .finite k)
    (far : t < rounded k) : r < k := by
  by_contra past
  have order : (k : ℚ) ≤ r := by exact_mod_cast not_lt.mp past
  rcases above t value with exact | round
  · exact absurd (near.trans_le ((finite_le_finite).mpr order)) (not_lt.mpr exact)
  · exact absurd (far.trans_le (rounded_mono order)) (not_lt.mpr round)

theorem Above.le {r h : ℤ} (above : a.Above r) (value : a.quantity? = some t) (bound : t ≤ .finite h)
    (small : |h + 1| ≤ 2 ^ 53) : r ≤ h := by
  have next : t < .finite ((h + 1 : ℤ) : ℚ) := bound.trans_lt (by simp)
  have round := rounded_exact _ (exact_int (h + 1) small)
  exact Int.lt_add_one_iff.mp (Above.lt r (h + 1) above value next (round ▸ next))

-- Past two to the sixty-third the numbers of the format are two thousand and forty-eight apart.
theorem rounded_past : rounded ((2 ^ 63 + 1025 : ℤ) : ℚ) = .finite ((2 ^ 63 + 2048 : ℤ) : ℚ) := by
  have same := quantity_of_rat ((2 ^ 63 + 1025 : ℤ) : ℚ)
  rw [show ofRat ((2 ^ 63 + 1025 : ℤ) : ℚ) = .finite ((2 ^ 63 + 2048 : ℤ) : ℚ) by decide +kernel] at same
  exact (Option.some.inj same).symm

theorem rounded_power : rounded ((2 ^ 63 : ℤ) : ℚ) = .finite ((2 ^ 63 : ℤ) : ℚ) := rounded_exact _ (by decide +kernel)

theorem Above.power {r : ℤ} (above : a.Above r) (value : a.quantity? = some t)
    (bound : t ≤ .finite ((2 ^ 63 : ℤ) : ℚ)) :
    r < 2 ^ 63 ∨ t = .finite ((2 ^ 63 : ℤ) : ℚ) ∧ r ≤ 2 ^ 63 + 1024 := by
  rcases bound.lt_or_eq with inside | reached
  · exact .inl (Above.lt r (2 ^ 63) above value inside (by rw [rounded_power]; exact inside))
  · refine .inr ⟨reached, Int.lt_add_one_iff.mp (Above.lt r (2 ^ 63 + 1025) above value ?_ ?_)⟩
    · exact bound.trans_lt (by norm_num)
    · exact bound.trans_lt (by rw [rounded_past]; norm_num)

end Number

namespace ValueSet

section Crossed

variable (kept : Expr → Value → Prop) (domain : Option ValueType) (op : BinaryOp) (summed : op = .add ∨ op = .sub)
  (a b : ValueSet) (m n : ℤ)

include summed in
theorem combine_between {x y : Number} (left : x.quantity? = some (.finite m))
    (right : y.quantity? = some (.finite n)) :
    (combine op x y).Below (op.result m n) ∧ (combine op x y).Above (op.result m n) ∧
      ∃ t, (combine op x y).quantity? = some t := by
  have low := x.at_most_self left
  have high := x.at_least_self left
  have low' := y.at_most_self right
  have high' := y.at_least_self right
  rcases summed with rfl | rfl
  · have result : ((BinaryOp.add.result m n : ℤ) : ℚ) = m + n := by simp [BinaryOp.result]
    rw [result]
    exact ⟨x.add_below y low low', x.add_above y high high', x.add_defined y _ _ left right⟩
  · have result : ((BinaryOp.sub.result m n : ℤ) : ℚ) = m - n := by simp [BinaryOp.result]
    rw [result]
    exact ⟨x.sub_below y low high', x.sub_above y high low',
      x.add_defined y.neg _ (-n) left (by rw [Number.quantity_neg, right]; rfl)⟩

include summed in
theorem cross_values_between (leftListed : ∀ vs, a.enumerate domain = .ok vs → (values vs).Admits (.number (.finite m)))
    (rightListed : ∀ vs, b.enumerate domain = .ok vs → (values vs).Admits (.number (.finite n))) {vs : List Number}
    (crossed : crossValues? domain op a b = some vs) :
    ∃ (z : Number) (t : Quantity), z.quantity? = some t ∧ (ofValues vs).Admits (.number t) ∧
      z.Below (op.result m n) ∧ z.Above (op.result m n) := by
  unfold crossValues? at crossed
  split_ifs at crossed
  split at crossed
  · next av bv first second =>
      split_ifs at crossed
      cases crossed
      obtain ⟨x, inLeft, p, leftEq, same⟩ := leftListed av first
      obtain ⟨y, inRight, q, rightEq, same'⟩ := rightListed bv second
      cases same
      cases same'
      obtain ⟨below, above, t, value⟩ := combine_between op summed m n leftEq rightEq
      refine ⟨combine op x y, t, value, (has_of_values _ _ _).mpr ⟨combine op x y, ?_, t, value, rfl⟩, below, above⟩
      exact List.mem_flatMap.mpr ⟨x, inLeft, List.mem_map.mpr ⟨y, inRight, rfl⟩⟩
  · cases crossed

include summed in
theorem cross_extents_between (left : a.Has kept (.number (.finite m))) (right : b.Has kept (.number (.finite n)))
    (bounded : (crossExtents domain op a.extent b.extent).extent.bounded = true) :
    (crossExtents domain op a.extent b.extent).extent.lo.Below (op.result m n) ∧
      (crossExtents domain op a.extent b.extent).extent.hi.Above (op.result m n) := by
  unfold crossExtents at bounded ⊢
  by_cases unbounded : (!a.extent.bounded || !b.extent.bounded) = true
  · rw [if_pos unbounded] at bounded
    cases bounded
  · rw [if_neg unbounded] at bounded ⊢
    rw [Bool.or_eq_true, not_or, Bool.not_eq_true', Bool.not_eq_true', Bool.not_eq_false, Bool.not_eq_false]
      at unbounded
    obtain ⟨p, same, loA, hiA⟩ := extent_bounds _ a _ left unbounded.1
    obtain ⟨q, same', loB, hiB⟩ := extent_bounds _ b _ right unbounded.2
    cases same
    cases same'
    rcases summed with rfl | rfl
    · rw [if_pos rfl] at bounded ⊢
      dsimp only at bounded ⊢
      split_ifs at bounded ⊢
      · cases bounded
      · simpa [extent, BinaryOp.result] using
          And.intro (Number.add_below _ _ loA loB) (Number.add_above _ _ hiA hiB)
    · rw [if_neg (by decide)] at bounded ⊢
      dsimp only at bounded ⊢
      split_ifs at bounded ⊢
      · cases bounded
      · simpa [extent, BinaryOp.result] using
          And.intro (Number.sub_below _ _ loA hiB) (Number.sub_above _ _ hiA loB)

include summed in
theorem cross_between (left : a.Has kept (.number (.finite m))) (right : b.Has kept (.number (.finite n)))
    (leftListed : ∀ vs, a.enumerate domain = .ok vs → (values vs).Admits (.number (.finite m)))
    (rightListed : ∀ vs, b.enumerate domain = .ok vs → (values vs).Admits (.number (.finite n))) :
    (crossAddSub domain op a b).isEmpty = false ∧ ((crossAddSub domain op a b).extent.bounded = true →
      (crossAddSub domain op a b).extent.lo.Below (op.result m n) ∧
        (crossAddSub domain op a b).extent.hi.Above (op.result m n)) := by
  rw [crossAddSub, not_empty_of_has _ left, not_empty_of_has _ right, Bool.or_false, if_neg Bool.false_ne_true]
  cases crossed : crossValues? domain op a b with
  | none =>
    refine ⟨?_, cross_extents_between kept domain op summed a b m n left right⟩
    dsimp only [crossExtents]
    split_ifs <;> rfl
  | some vs =>
    obtain ⟨z, t, value, has, below, above⟩ :=
      cross_values_between domain op summed a b m n leftListed rightListed crossed
    refine ⟨not_empty_of_has _ has, fun bounded => ?_⟩
    obtain ⟨q, same, lower, upper⟩ := extent_bounds _ _ _ has bounded
    cases same
    exact ⟨Number.below_of_at_most value lower below, Number.above_of_at_least value upper above⟩

end Crossed

-- A listed interval has ends between which integers are exact; nothing is asked of one that is only bounded.
def ListsExactly (domain : Option ValueType) : ValueSet → Prop
  | .interval i => i.IsModerate ∨ ∀ vs, i.enumerate domain ≠ .ok vs
  | _ => True

-- No member is lost when the set is listed, and no listed number is undefined.
structure IsTame (domain : Option ValueType) (s : ValueSet) : Prop where
  defined : s.Defined
  lists : s.Made (ListsExactly domain)

theorem lists_value_exactly (domain : Option ValueType) (m : ℤ) (s : ValueSet) (lists : s.ListsExactly domain) :
    s.ListsValue domain (.number (.finite m)) := by
  cases s with
  | interval i =>
    rcases lists with moderate | unlisted
    · exact i.lists_moderate domain moderate fun _ q same => ⟨m, (Value.number.inj same).symm⟩
    · exact fun vs listed => absurd listed (unlisted vs)
  | _ => trivial

theorem IsTame.listed (kept : Expr → Value → Prop) {domain : Option ValueType} {s : ValueSet}
    (tame : s.IsTame domain) {m : ℤ}
    (has : s.Has kept (.number (.finite m))) (vs : List Number) (listed : s.enumerate domain = .ok vs) :
    (values vs).Admits (.number (.finite m)) :=
  listed_has kept domain _ s (made_imp _ _ (lists_value_exactly domain m) tame.lists) has vs listed

end ValueSet

namespace Primitive

theorem bounds_quantity (p : Primitive) (integral : p.isIntegral = true) {lo hi : Number}
    (bounds : p.bounds? = some (lo, hi)) :
    lo.quantity? = some (.finite p.lowest) ∧
      hi.quantity? = some (.finite ((if p = .long then 2 ^ 63 else p.highest : ℤ) : ℚ)) := by
  cases p <;> cases integral <;> cases bounds <;> decide +kernel

theorem narrow_ends (p : Primitive) (integral : p.isIntegral = true) (narrow : p ≠ .long) :
    |p.highest + 1| ≤ 2 ^ 53 ∧ |-p.lowest + 1| ≤ 2 ^ 53 := by
  cases p with
  | byte | int => decide
  | long => exact absurd rfl narrow
  | _ => cases integral

section Ends

variable (p : Primitive) (integral : p.isIntegral = true) (lo hi x : Number) (bounds : p.bounds? = some (lo, hi))
  (t : Quantity) (value : x.quantity? = some t) (r : ℤ)

include integral bounds value

theorem upper_end (above : x.Above r) (inside : hi.lt x = false) :
    r ≤ p.highest ∨ p = .long ∧ t = .finite ((2 ^ 63 : ℤ) : ℚ) ∧ r ≤ 2 ^ 63 + 1024 := by
  obtain ⟨-, top⟩ := p.bounds_quantity integral bounds
  rw [Number.lt_decide top value, decide_eq_false_iff_not, not_lt] at inside
  by_cases long : p = .long
  · subst long
    rcases Number.Above.power above value inside with below | ⟨reached, past⟩
    · exact .inl (Int.le_sub_one_of_lt below)
    · exact .inr ⟨rfl, reached, past⟩
  · rw [if_neg long] at inside
    exact .inl (Number.Above.le above value inside (p.narrow_ends integral long).1)

theorem lower_end (below : x.Below r) (inside : x.lt lo = false) :
    p.lowest ≤ r ∨ p = .long ∧ t = .finite ((-2 ^ 63 : ℤ) : ℚ) ∧ -2 ^ 63 - 1024 ≤ r := by
  obtain ⟨bottom, -⟩ := p.bounds_quantity integral bounds
  rw [Number.lt_decide value bottom, decide_eq_false_iff_not, not_lt, ← neg_le_neg_iff] at inside
  have above : x.neg.Above ((-r : ℤ) : ℚ) := by
    rw [Int.cast_neg]
    exact x.neg_above below
  have reflected : x.neg.quantity? = some t.neg := by rw [Number.quantity_neg, value]; rfl
  have bound : t.neg ≤ .finite ((-p.lowest : ℤ) : ℚ) := by
    rw [Int.cast_neg]
    exact inside
  by_cases long : p = .long
  · subst long
    rcases Number.Above.power above reflected bound with within | ⟨reached, past⟩
    · exact .inl (show -2 ^ 63 ≤ r by omega)
    · refine .inr ⟨rfl, ?_, by omega⟩
      cases t <;> simp [neg] at reached ⊢
      linarith
  · have := Number.Above.le above reflected bound (p.narrow_ends integral long).2
    exact .inl (by omega)

end Ends

end Primitive

theorem GuardSite.operator_summed (site : GuardSite) : site.operator = .add ∨ site.operator = .sub := by
  unfold GuardSite.operator
  split_ifs <;> simp

theorem Prover.in_range_bounds {g : Graph} {sets : Estimates} {site : GuardSite} {p : Primitive}
    (typed : site.type = some (.primitive p)) {a b : ValueSet} (left : operandSet? g sets site.left site.type = some a)
    (right : operandSet? g sets site.right site.type = some b)
    (full : (ValueSet.crossAddSub site.type site.operator a b).isEmpty = false)
    (proven : (inRange g sets site).1 = true) :
    ∃ lo hi, p.bounds? = some (lo, hi) ∧ (ValueSet.crossAddSub site.type site.operator a b).extent.bounded = true ∧
      (ValueSet.crossAddSub site.type site.operator a b).extent.lo.lt lo = false ∧
        hi.lt (ValueSet.crossAddSub site.type site.operator a b).extent.hi = false := by
  unfold inRange at proven
  rw [left, right, show (if site.op = .sub then BinaryOp.sub else .add) = site.operator from rfl] at proven
  dsimp only at proven
  split at proven
  · cases proven
  · next lo hi bounds =>
      rw [typed] at bounds
      rw [full, if_neg Bool.false_ne_true] at proven
      split_ifs at proven with unbounded outside
      rw [Bool.not_eq_true, Bool.not_eq_false'] at unbounded
      rw [Bool.or_eq_true, not_or, Bool.not_eq_true, Bool.not_eq_true] at outside
      exact ⟨lo, hi, bounds, unbounded, outside⟩

-- A sum that is proven to fit its type does, except that for the widest type the bound itself is two to the
-- sixty-third: where the bounds of the sum touch it, the exact sum may be past it by what rounding takes off.
theorem proven_sum_in_range (g : Graph) (sets : Estimates) (site : GuardSite) (p : Primitive)
    (integral : p.isIntegral = true) (typed : site.type = some (.primitive p)) (a b : ValueSet)
    (left : Prover.operandSet? g sets site.left site.type = some a)
    (right : Prover.operandSet? g sets site.right site.type = some b) (tame : a.IsTame site.type)
    (tame' : b.IsTame site.type) (kept : Expr → Value → Prop) (m n : ℤ) (inside : a.Has kept (.number (.finite m)))
    (inside' : b.Has kept (.number (.finite n))) (proven : (Prover.inRange g sets site).1 = true) :
    p.Holds (site.operator.result m n) ∨ p = .long ∧
      ((ValueSet.crossAddSub site.type site.operator a b).extent.hi.quantity? = some (.finite ((2 ^ 63 : ℤ) : ℚ)) ∧
          2 ^ 63 ≤ site.operator.result m n ∧ site.operator.result m n ≤ 2 ^ 63 + 1024 ∨
        (ValueSet.crossAddSub site.type site.operator a b).extent.lo.quantity? = some (.finite ((-2 ^ 63 : ℤ) : ℚ)) ∧
          -2 ^ 63 - 1024 ≤ site.operator.result m n ∧ site.operator.result m n < -2 ^ 63) := by
  have listed := tame.listed kept inside
  have listed' := tame'.listed kept inside'
  obtain ⟨full, between⟩ :=
    ValueSet.cross_between kept site.type site.operator site.operator_summed a b m n inside inside'
    listed listed'
  obtain ⟨lo, hi, bounds, bounded, low, high⟩ := Prover.in_range_bounds typed left right full proven
  obtain ⟨below, above⟩ := between bounded
  obtain ⟨lower, upper⟩ := ValueSet.cross_extent_defined listed listed' tame.defined
    tame'.defined bounded
  obtain ⟨s, bottom⟩ := Option.ne_none_iff_exists'.mp fun none => lower (Number.quantity_none none)
  obtain ⟨t, top⟩ := Option.ne_none_iff_exists'.mp fun none => upper (Number.quantity_none none)
  have fromBelow := p.lower_end integral lo hi _ bounds s bottom _ below low
  have fromAbove := p.upper_end integral lo hi _ bounds t top _ above high
  by_cases holds : p.Holds (site.operator.result m n)
  · exact .inl holds
  refine .inr ?_
  rcases fromBelow with least | ⟨rfl, rfl, slack⟩
  · rcases fromAbove with most | ⟨rfl, rfl, slack⟩
    · exact absurd ⟨least, most⟩ holds
    · refine ⟨rfl, .inl ⟨top, ?_, slack⟩⟩
      by_contra small
      exact holds ⟨least, Int.le_sub_one_of_lt (not_le.mp small)⟩
  · rcases fromAbove with most | ⟨-, rfl, slack'⟩
    · refine ⟨rfl, .inr ⟨bottom, slack, ?_⟩⟩
      by_contra large
      exact holds ⟨not_lt.mp large, most⟩
    · refine ⟨rfl, ?_⟩
      have split : 2 ^ 63 ≤ site.operator.result m n ∨ site.operator.result m n < -2 ^ 63 := by
        by_contra neither
        rw [not_or, not_le, not_lt] at neither
        exact holds ⟨neither.2, Int.le_sub_one_of_lt neither.1⟩
      exact split.imp (⟨top, ·, slack'⟩) (⟨bottom, slack, ·⟩)

def pairGraph : Graph where
  blocks := #[{ id := 1, kind := .varRef, name := "x" }, { id := 2, kind := .varRef, name := "y" }]

def pairSite (p : Primitive) : GuardSite where
  kind := .overflow
  op := .add
  block := 0
  statement := 0
  operand := "x"
  other := "y"
  type := some (.primitive p)
  left := 1
  right := 2
  repeated := false

def wideRange : Interval := ⟨.zero, .ofInt (2 ^ 62 - 512), false, false⟩

theorem wide_range_unlisted (vs : List Number) : wideRange.enumerate (some (.primitive .long)) ≠ .ok vs := by
  have refused : (wideRange.enumerate (some (.primitive .long))).toOption = none := by decide +kernel
  intro listed
  rw [listed] at refused
  cases refused

theorem proven_sum_of_wide_range :
    let sets := [("x", ValueSet.interval wideRange), ("y", .values [.ofInt (2 ^ 62 - 512)])]
    (Prover.inRange pairGraph sets (pairSite .long)).1 = true ∧
      Primitive.long.Holds ((2 ^ 62 - 513) + (2 ^ 62 - 512)) := by
  have high : (Number.ofInt (2 ^ 62 - 512)).quantity? = some (.finite ((2 ^ 62 - 512 : ℤ) : ℚ)) := by decide +kernel
  have proven : (Prover.inRange pairGraph [("x", ValueSet.interval wideRange), ("y", .values [.ofInt (2 ^ 62 - 512)])]
      (pairSite .long)).1 = true := by decide +kernel
  refine ⟨proven, ?_⟩
  have inside : wideRange.Holds (.finite ((2 ^ 62 - 513 : ℤ) : ℚ)) := by
    refine ⟨fun q value => ?_, fun q value => ?_⟩
    · cases value
      exact .inl (by norm_num)
    · cases high.symm.trans value
      exact .inl (by norm_num)
  refine (proven_sum_in_range pairGraph _ (pairSite .long) .long rfl rfl (.interval wideRange)
    (.values [.ofInt (2 ^ 62 - 512)]) rfl rfl ⟨trivial, .inr wide_range_unlisted⟩ ⟨?_, trivial⟩ (fun _ _ => False)
    (2 ^ 62 - 513) (2 ^ 62 - 512) ⟨_, rfl, inside⟩
      ⟨_, List.mem_singleton.mpr rfl, _, high, rfl⟩ proven).resolve_right ?_
  · intro x member
    rw [List.mem_singleton.mp member]
    decide +kernel
  · rintro ⟨-, ⟨-, past, -⟩ | ⟨-, -, past⟩⟩ <;> exact absurd past (by decide)

-- What is proven and does not fit: sums at both ends of the widest type, an interval whose list leaves out what is no
-- number of the format, and a list with an undefined number.
theorem proven_sum_outside :
    (∀ m n : ℤ, (m, n) = (2 ^ 62, 2 ^ 62) ∨ (m, n) = (2 ^ 62, 2 ^ 62 + 1024) ∨ (m, n) = (-2 ^ 62, -2 ^ 62 - 1024) →
      (Prover.inRange pairGraph [("x", .values [.ofInt m]), ("y", .values [.ofInt n])] (pairSite .long)).1 = true ∧
        (Number.ofInt m).quantity? = some (.finite m) ∧ (Number.ofInt n).quantity? = some (.finite n) ∧
          ¬ Primitive.long.Holds (m + n)) ∧
    ((Prover.inRange pairGraph [("x", .interval ⟨.ofInt (-2 ^ 53 - 2), .ofInt (-2 ^ 53), true, false⟩),
        ("y", .values [.ofInt (2 ^ 53 - 128)])] (pairSite .byte)).1 = true ∧
      (Interval.mk (.ofInt (-2 ^ 53 - 2)) (.ofInt (-2 ^ 53)) true false).Holds (.finite ((-2 ^ 53 - 1 : ℤ) : ℚ)) ∧
        ¬ Primitive.byte.Holds ((-2 ^ 53 - 1) + (2 ^ 53 - 128))) ∧
    (Prover.inRange pairGraph [("x", .values [.nan, .ofInt 200]), ("y", .values [.zero])] (pairSite .byte)).1 = true ∧
      ¬ Primitive.byte.Holds (200 + 0) := by
  refine ⟨?_, ⟨by decide +kernel, ?_, by decide⟩, by decide +kernel, by decide⟩
  · rintro m n (same | same | same) <;> cases same <;> decide +kernel
  · have low : (Number.ofInt (-2 ^ 53 - 2)).quantity? = some (.finite ((-2 ^ 53 - 2 : ℤ) : ℚ)) := by decide +kernel
    have high : (Number.ofInt (-2 ^ 53)).quantity? = some (.finite ((-2 ^ 53 : ℤ) : ℚ)) := by decide +kernel
    refine ⟨fun q value => ?_, fun q value => ?_⟩
    · cases low.symm.trans value
      exact .inl (by norm_num)
    · cases high.symm.trans value
      exact .inl (by norm_num)

end Blockwork
