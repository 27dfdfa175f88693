import Blockwork.Constraint.Fold
import Blockwork.Proofs.Evaluation
import Blockwork.Proofs.Reduction
import Mathlib

set_option autoImplicit false

namespace Blockwork

open BinaryOp ValueSet

variable {op : BinaryOp} {w v : Value} {e : Expr}

abbrev ValueSet.Admits (s : ValueSet) (v : Value) : Prop := s.Has (fun _ _ => False) v

namespace ValueSet

theorem member_of_admits {x : Number} {q : Quantity} (defined : x.quantity? = some q) {s : ValueSet}
    (admits : s.Admits (.number q)) : s.member x = ⟨true, true⟩ := by
  induction s using parts_induction with
  | universal t => rfl
  | empty | solutions e => exact absurd admits id
  | values vs => rw [member, (Number.member_of_iff vs defined).mpr ((has_values_iff _ q vs).mp admits)]
  | interval i =>
    obtain ⟨p, same, inside⟩ := admits
    cases same
    rw [member, (i.contains_iff defined).mpr inside]
  | union ms ih =>
    obtain ⟨m, inside, has⟩ := (has_any_iff _ _ ms).mp admits
    have settled : (ms.any fun m => (m.member x).known && (m.member x).holds) = true :=
      List.any_eq_true.mpr ⟨m, inside, by rw [ih m inside has]; rfl⟩
    rw [member, member_of_any_eq, settled, Bool.true_or]
  | inter ms ih =>
    have parts := fun m inside => ih m inside ((has_all_iff _ _ ms).mp admits m inside)
    rw [member, member_of_all_eq]
    simp +contextual [parts]

end ValueSet

def Quantity.combine? : BinaryOp → Quantity → Quantity → Option Quantity
  | .add, p, q => p.add? q
  | _, p, q => p.sub? q

-- The sum or difference of numbers is exact; about other values nothing is said.
def Value.Sum (op : BinaryOp) (u w v : Value) : Prop :=
  match u, w with
  | .number p, .number q => ∃ r, Quantity.combine? op p q = some r ∧ v = .number r
  | _, _ => True

namespace ValueSet

theorem quantity_combine {x y : Number} {p q r : Quantity} (left : x.quantity? = some p) (right : y.quantity? = some q)
    (result : Quantity.combine? op p q = some r) : (combine op x y).quantity? = some r := by
  cases op
  case add => exact Number.quantity_add y left right result
  all_goals exact Number.quantity_sub left right result

variable {domain : Option ValueType} {a b : ValueSet}

theorem cross_values_has {u : Value} (left : ∀ vs, a.enumerate domain = .ok vs → (values vs).Admits u)
    (right : ∀ vs, b.enumerate domain = .ok vs → (values vs).Admits w) (sum : Value.Sum op u w v)
    {vs : List Number} (crossed : crossValues? domain op a b = some vs) : (ofValues vs).Admits v := by
  unfold crossValues? at crossed
  split_ifs at crossed
  cases first : a.enumerate domain with
  | error fault => simp [first] at crossed
  | ok av =>
    cases second : b.enumerate domain with
    | error fault => simp [first, second] at crossed
    | ok bv =>
      simp only [first, second] at crossed
      split_ifs at crossed
      cases crossed
      obtain ⟨x, inLeft, p, leftEq, rfl⟩ := left av first
      obtain ⟨y, inRight, q, rightEq, rfl⟩ := right bv second
      obtain ⟨r, result, rfl⟩ := sum
      refine (has_of_values _ _ _).mpr ⟨combine op x y, ?_, r, quantity_combine leftEq rightEq result, rfl⟩
      exact List.mem_flatMap.mpr ⟨x, inLeft, List.mem_map.mpr ⟨y, inRight, rfl⟩⟩

theorem interval_admits {lo hi : Number} {r : Quantity} (lower : lo.AtMost r) (upper : hi.AtLeast r) :
    (interval ⟨lo, hi, false, false⟩).Admits (.number r) := by
  refine ⟨r, rfl, fun p defined => ?_, fun p defined => ?_⟩
  · rcases (lower p defined).lt_or_eq with less | same
    · exact .inl less
    · exact .inr ⟨same, rfl⟩
  · rcases (upper p defined).lt_or_eq with less | same
    · exact .inl less
    · exact .inr ⟨same, rfl⟩

theorem cross_extents_has (domain : Option ValueType) (summed : op = .add ∨ op = .sub) {u : Value} (left : a.Admits u)
    (right : b.Admits w) (sum : Value.Sum op u w v) : (crossExtents domain op a.extent b.extent).Admits v := by
  unfold crossExtents
  by_cases unbounded : (!a.extent.bounded || !b.extent.bounded) = true
  · rw [if_pos unbounded]
    trivial
  · rw [if_neg unbounded]
    rw [Bool.or_eq_true, not_or, Bool.not_eq_true', Bool.not_eq_true', Bool.not_eq_false, Bool.not_eq_false]
      at unbounded
    obtain ⟨p, rfl, loA, hiA⟩ := extent_bounds _ a u left unbounded.1
    obtain ⟨q, rfl, loB, hiB⟩ := extent_bounds _ b w right unbounded.2
    obtain ⟨r, result, rfl⟩ := sum
    rcases summed with rfl | rfl
    · rw [if_pos rfl]
      dsimp only
      split_ifs
      · trivial
      · exact interval_admits (Number.add_at_most loA loB result)
          (Number.add_at_least hiA hiB result)
    · rw [if_neg (by decide)]
      dsimp only
      split_ifs
      · trivial
      · exact interval_admits (Number.sub_at_most loA hiB result)
          (Number.sub_at_least hiA loB result)

theorem cross_has (summed : op = .add ∨ op = .sub) {u : Value} (left : a.Admits u) (right : b.Admits w)
    (leftListed : ∀ vs, a.enumerate domain = .ok vs → (values vs).Admits u)
    (rightListed : ∀ vs, b.enumerate domain = .ok vs → (values vs).Admits w) (sum : Value.Sum op u w v) :
    (crossAddSub domain op a b).Admits v := by
  rw [crossAddSub, not_empty_of_has _ left, not_empty_of_has _ right, Bool.or_false, if_neg Bool.false_ne_true]
  cases crossed : crossValues? domain op a b with
  | some vs => exact cross_values_has leftListed rightListed sum crossed
  | none => exact cross_extents_has domain summed left right sum

end ValueSet

namespace Expr

-- An operand of a sum that is listed over a domain: a constant, or a value of the domain.
def Operand (domain : Option ValueType) (e : Expr) (v : Value) : Prop := (∃ x, e = .num x) ∨ v.Fits domain

section Meaning

variable (read : Reference → Value → Prop) (domain : Option ValueType)

-- The values a term may have once some names in it are replaced by sets. Nothing is known of a product.
def Covers : Expr → Value → Prop
  | .num x, v => ∃ q, x.quantity? = some q ∧ v = .number q
  | .ref r, v => read r v
  | .among s, v => s.Admits v
  | .binary op l r, v =>
    if op = .add ∨ op = .sub then
      ∃ u w, l.Covers u ∧ r.Covers w ∧ l.Operand domain u ∧ r.Operand domain w ∧ Value.Sum op u w v
    else op.isArithmetic = true
  | .text _, _ | .truth _, _ => True
  | .neg _, _ => False

-- A condition without negations that holds for some of the values its terms may have.
def Holds : Expr → Prop
  | .truth b => b = true
  | .binary .and l r => l.Holds ∧ r.Holds
  | .binary .or l r => l.Holds ∨ r.Holds
  | .binary op l r =>
    ∃ o, op.ordering? = some o ∧ ∃ v w, l.Covers read domain v ∧ r.Covers read domain w ∧ v.order? w = some o
  | _ => False

variable {o : Ordering} {l r : Expr} {s : ValueSet}

theorem holds_comparison (comparison : op.ordering? = some o) (l r : Expr) :
    (Expr.binary op l r).Holds read domain ↔
      ∃ v w, l.Covers read domain v ∧ r.Covers read domain w ∧ v.order? w = some o := by
  cases op <;> simp_all [ordering?, Holds]

theorem covers_sum (summed : op = .add ∨ op = .sub) (l r : Expr) (v : Value) :
    (Expr.binary op l r).Covers read domain v ↔ ∃ u w, l.Covers read domain u ∧ r.Covers read domain w ∧
      l.Operand domain u ∧ r.Operand domain w ∧ Value.Sum op u w v := by
  rw [Covers, if_pos summed]

theorem ground_values_sum (summed : op = .add ∨ op = .sub) (values : (Expr.binary op l r).groundValues domain = .ok s) :
    ∃ a b, l.groundValues domain = .ok a ∧ r.groundValues domain = .ok b ∧ s = crossAddSub domain op a b := by
  rcases summed with rfl | rfl
  all_goals
    rw [groundValues] at values
    cases left : l.groundValues domain with
    | error fault => simp [left] at values
    | ok a =>
      cases right : r.groundValues domain with
      | error fault => simp [left, right] at values
      | ok b => exact ⟨a, b, rfl, rfl, by simpa [left, right] using values.symm⟩

theorem operand_listed (operand : e.Operand domain v) (values : e.groundValues domain = .ok s) (admits : s.Admits v)
    (vs : List Number) (listed : s.enumerate domain = .ok vs) : (ValueSet.values vs).Admits v := by
  rcases operand with ⟨x, rfl⟩ | fits
  · cases values
    cases listed
    exact admits
  · exact ValueSet.enumerate_has _ domain fits admits vs listed

theorem ground_values_admits (e : Expr) (v : Value) (covers : e.Covers read domain v) (s : ValueSet)
    (values : e.groundValues domain = .ok s) : s.Admits v := by
  cases e with
  | num x =>
    obtain ⟨q, defined, rfl⟩ := covers
    cases values
    exact (has_of_values _ _ _).mpr ⟨x, List.mem_singleton.mpr rfl, q, defined, rfl⟩
  | text t =>
    cases values
    trivial
  | ref r => simp [groundValues] at values
  | among t =>
    cases values
    exact covers
  | truth b => simp [groundValues] at values
  | neg e => simp [groundValues] at values
  | binary op l r =>
    by_cases summed : op = .add ∨ op = .sub
    · obtain ⟨u, w, left, right, leftOperand, rightOperand, sum⟩ := (covers_sum read domain summed l r v).mp covers
      obtain ⟨a, b, leftValues, rightValues, rfl⟩ := ground_values_sum domain summed values
      have first := ground_values_admits l u left a leftValues
      have second := ground_values_admits r w right b rightValues
      exact cross_has summed first second
        (operand_listed domain leftOperand leftValues first)
        (operand_listed domain rightOperand rightValues second) sum
    · cases op <;> simp_all [groundValues]

theorem evaluate_admits (covers : e.Covers read domain v) (values : e.evaluate domain = .ok s) : s.Admits v := by
  unfold evaluate at values
  cases first : e.firstRef? with
  | some r => simp [first] at values
  | none =>
    rw [first] at values
    exact ground_values_admits read domain e v covers s values

theorem decide_bounds_sound (comparison : op.ordering? = some o) {a b : Extent} {p q : Quantity} (loA : a.lo.AtMost p)
    (hiA : a.hi.AtLeast p) (loB : b.lo.AtMost q) (hiB : b.hi.AtLeast q) (order : cmp p q = o) :
    decideBounds? op a b ≠ some false := by
  cases op <;> simp only [ordering?, reduceCtorEq, Option.some.injEq] at comparison <;> subst comparison
  case eq =>
    have same := cmp_eq_eq_iff p q |>.mp order
    subst same
    have apart : ∀ x y : Number, x.AtLeast p → y.AtMost p → x.lt y = false := by
      intro x y above below
      rw [← Bool.not_eq_true]
      intro less
      obtain ⟨u, w, left, right, strict⟩ := Number.lt_defined less
      exact absurd (le_trans (below w right) (above u left)) (not_le.mpr strict)
    simp only [decideBounds?, apart _ _ hiA loB, apart _ _ hiB loA, Bool.or_self, Bool.false_eq_true, if_false]
    split_ifs <;> simp
  case lt =>
    have less := cmp_eq_lt_iff p q |>.mp order
    simp only [decideBounds?]
    split_ifs with certain impossible
    · simp
    · obtain ⟨u, w, left, right, bound⟩ := Number.le_defined impossible
      exact absurd (le_trans (hiB u left) (le_trans bound (loA w right))) (not_le.mpr less)
    · simp
  case gt =>
    have greater := cmp_eq_gt_iff p q |>.mp order
    simp only [decideBounds?]
    split_ifs with certain impossible
    · simp
    · obtain ⟨u, w, left, right, bound⟩ := Number.le_defined impossible
      exact absurd (le_trans (hiA u left) (le_trans bound (loB w right))) (not_le.mpr greater)
    · simp

theorem decide_ground_sound (comparison : op.ordering? = some o) (left : l.Covers read domain v)
    (right : r.Covers read domain w) (order : v.order? w = some o) : decideGround? domain op l r ≠ some false := by
  unfold decideGround?
  cases first : l.evaluate domain with
  | error fault => simp
  | ok a =>
    cases second : r.evaluate domain with
    | error fault => simp
    | ok b =>
      have inLeft := evaluate_admits read domain left first
      have inRight := evaluate_admits read domain right second
      simp only [not_empty_of_has _ inLeft, not_empty_of_has _ inRight, Bool.or_self,
        Bool.false_eq_true, if_false]
      split_ifs with bounded
      · rw [Bool.and_eq_true] at bounded
        obtain ⟨p, rfl, loA, hiA⟩ := extent_bounds _ a v inLeft bounded.1
        obtain ⟨q, rfl, loB, hiB⟩ := extent_bounds _ b w inRight bounded.2
        obtain ⟨_, same, order⟩ := Value.order_number order
        cases same
        exact decide_bounds_sound comparison loA hiA loB hiB order
      · simp

theorem fold_sum_covers (covers : (Expr.binary op l r).Covers read domain v) :
    (foldSum domain (.binary op l r)).Covers read domain v := by
  unfold foldSum
  cases values : (Expr.binary op l r).evaluate domain with
  | error fault => exact covers
  | ok s => exact evaluate_admits read domain covers values

theorem fold_head_covers (e : Expr) (v : Value) (covers : e.Covers read domain v) :
    (foldHead domain e).Covers read domain v := by
  cases e with
  | binary op l r =>
    cases op
    case add => exact fold_sum_covers read domain covers
    case sub => exact fold_sum_covers read domain covers
    all_goals simp_all [Covers, foldHead, isArithmetic, isComparison]
  | neg e => exact absurd covers id
  | _ => exact covers

theorem operand_transform (operand : e.Operand domain v) : (e.transform (foldHead domain)).Operand domain v := by
  rcases operand with ⟨x, rfl⟩ | fits
  · exact .inl ⟨x, rfl⟩
  · exact .inr fits

theorem transform_covers (e : Expr) (v : Value) (covers : e.Covers read domain v) :
    (e.transform (foldHead domain)).Covers read domain v := by
  cases e with
  | binary op l r =>
    rw [transform]
    apply fold_head_covers
    by_cases summed : op = .add ∨ op = .sub
    · obtain ⟨u, w, left, right, leftOperand, rightOperand, sum⟩ := (covers_sum read domain summed l r v).mp covers
      exact (covers_sum read domain summed _ _ v).mpr ⟨u, w, transform_covers l u left, transform_covers r w right,
        operand_transform domain leftOperand, operand_transform domain rightOperand, sum⟩
    · rw [Covers, if_neg summed] at covers ⊢
      exact covers
  | neg e => exact absurd covers id
  | _ => exact fold_head_covers read domain _ v covers

theorem fold_and_holds (left : l.Holds read domain) (right : r.Holds read domain) :
    (foldAnd l r).Holds read domain := by
  unfold foldAnd
  split
  · exact left
  · exact right
  · exact right
  · exact left
  · exact ⟨left, right⟩

theorem fold_or_holds (either : l.Holds read domain ∨ r.Holds read domain) : (foldOr l r).Holds read domain := by
  unfold foldOr
  split
  · rfl
  · rfl
  · exact either.resolve_left (by simp [Holds])
  · exact either.resolve_right (by simp [Holds])
  · exact either

theorem fold_head_comparison (comparison : op.ordering? = some o) (l r : Expr) :
    foldHead domain (.binary op l r) = (decideGround? domain op l r).elim (.binary op l r) .truth := by
  cases op <;> simp only [ordering?, reduceCtorEq] at comparison <;>
    simp only [foldHead, isComparison, if_true] <;> cases decideGround? domain _ l r <;> rfl

theorem transform_holds (e : Expr) (holds : e.Holds read domain) :
    (e.transform (foldHead domain)).Holds read domain := by
  cases e with
  | truth b => exact holds
  | binary op l r =>
    rw [transform]
    by_cases comparison : ∃ o, op.ordering? = some o
    · obtain ⟨o, comparison⟩ := comparison
      obtain ⟨v, w, left, right, order⟩ := (holds_comparison read domain comparison l r).mp holds
      have left := transform_covers read domain l v left
      have right := transform_covers read domain r w right
      have kept := (holds_comparison read domain comparison _ _).mpr ⟨v, w, left, right, order⟩
      have decided := decide_ground_sound read domain comparison left right order
      rw [fold_head_comparison domain comparison]
      cases answer : decideGround? domain op (l.transform (foldHead domain)) (r.transform (foldHead domain)) with
      | none => exact kept
      | some b =>
        cases b with
        | true => rfl
        | false => exact absurd answer decided
    · cases op
      case and => exact fold_and_holds read domain (transform_holds l holds.1) (transform_holds r holds.2)
      case or =>
        refine fold_or_holds read domain ?_
        rcases holds with left | right
        · exact .inl (transform_holds l left)
        · exact .inr (transform_holds r right)
      all_goals simp [ordering?, Holds] at comparison holds
  | _ => exact absurd holds id

theorem fold_holds (holds : e.Holds read domain) : (e.fold domain).Holds read domain := by
  suffices general : ∀ (n : ℕ) (e : Expr), e.Holds read domain → (foldUpTo domain n e).Holds read domain from
    general maxPasses e holds
  intro n
  induction n with
  | zero => exact fun _ holds => holds
  | succ n ih =>
    intro e holds
    rw [foldUpTo]
    split_ifs
    · exact transform_holds read domain e holds
    · exact ih _ (transform_holds read domain e holds)

end Meaning

section Description

variable (read : Reference → Value → Prop) (domain : Option ValueType) (here : Value)

theorem range_against_admits (op : BinaryOp) {above : Bool} {other : Expr} (covers : other.Covers read domain w)
    (same : op = .eq → here.order? w = some .eq)
    (order : op ≠ .eq → here.order? w = some (if above then .gt else .lt)) :
    (rangeAgainst domain op above other).Admits here := by
  unfold rangeAgainst
  cases values : other.evaluate domain with
  | error fault => trivial
  | ok bound =>
    have inside := evaluate_admits read domain covers values
    simp only [not_empty_of_has _ inside, Bool.false_eq_true, if_false]
    split_ifs with equal unbounded greater
    · exact Value.eq_of_order (same equal) ▸ inside
    · trivial
    · rw [Bool.not_eq_true', Bool.not_eq_false] at unbounded
      obtain ⟨q, rfl, lower, -⟩ := extent_bounds _ bound w inside unbounded
      obtain ⟨p, rfl, strict⟩ := Value.order_number (order equal)
      rw [if_pos greater, cmp_eq_gt_iff] at strict
      refine ⟨p, rfl, fun lo defined => .inl (lt_of_le_of_lt (lower lo defined) strict), fun hi defined => ?_⟩
      rw [Number.quantity_pos_inf, Option.some.injEq] at defined
      rcases (defined ▸ Quantity.le_pos_inf p : p ≤ hi).lt_or_eq with less | top
      · exact .inl less
      · exact .inr ⟨top, rfl⟩
    · rw [Bool.not_eq_true', Bool.not_eq_false] at unbounded
      obtain ⟨q, rfl, -, upper⟩ := extent_bounds _ bound w inside unbounded
      obtain ⟨p, rfl, strict⟩ := Value.order_number (order equal)
      rw [if_neg greater, cmp_eq_lt_iff] at strict
      refine ⟨p, rfl, fun lo defined => ?_, fun hi defined => .inl (lt_of_lt_of_le strict (upper hi defined))⟩
      rw [Number.quantity_neg_inf, Option.some.injEq] at defined
      rcases (defined ▸ Quantity.neg_inf_le p : lo ≤ p).lt_or_eq with less | bottom
      · exact .inl less
      · exact .inr ⟨bottom, rfl⟩

theorem comparison_range_admits (only : ∀ r v, read r v → v = here) (op : BinaryOp) (o : Ordering)
    (comparison : op.ordering? = some o) (l r : Expr) (v w : Value) (left : l.Covers read domain v)
    (right : r.Covers read domain w) (order : v.order? w = some o) :
    ∃ s, (Expr.binary op l r).comparisonRange domain = .ok s ∧ s.Admits here := by
  have compares : op.isComparison = true := by cases op <;> simp_all [ordering?, isComparison]
  simp only [comparisonRange, compares, Bool.not_true, Bool.false_eq_true, if_false]
  split_ifs with first second
  · cases l with
    | ref name =>
      refine ⟨_, rfl, ?_⟩
      obtain rfl := only name v left
      refine range_against_admits read domain v op right ?_ ?_
      · rintro rfl
        exact order.trans comparison.symm
      · intro different
        rw [order, ← comparison]
        cases op <;> simp_all [ordering?]
    | _ => simp [isRef] at first
  · cases r with
    | ref name =>
      refine ⟨_, rfl, ?_⟩
      obtain rfl := only name w right
      refine range_against_admits read domain w op left ?_ ?_
      · rintro rfl
        cases comparison
        rw [Value.order_swap, order]
        rfl
      · intro different
        rw [Value.order_swap, order]
        cases op <;> simp_all [ordering?]
    | _ => simp [isRef] at second
  · exact ⟨_, rfl, trivial⟩

theorem comparison_set_admits (only : ∀ r v, read r v → v = here) (op : BinaryOp) (o : Ordering)
    (comparison : op.ordering? = some o) (l r : Expr) (holds : (Expr.binary op l r).Holds read domain) :
    ((Expr.binary op l r).atomSet domain).Admits here := by
  have compares : op.isComparison = true := by cases op <;> simp_all [ordering?, isComparison]
  obtain ⟨v, w, left, right, order⟩ := (holds_comparison read domain comparison l r).mp holds
  obtain ⟨s, range, admits⟩ := comparison_range_admits read domain here only op o comparison l r v w left right order
  rw [atomSet, if_pos compares, comparisonSet, range]
  split_ifs
  · trivial
  · exact admits

theorem part_sets_have (only : ∀ r v, read r v → v = here) (e : Expr) (holds : e.Holds read domain) :
    (∀ s ∈ e.partSets domain .and, s.Admits here) ∧ ∃ s ∈ e.partSets domain .or, s.Admits here := by
  cases e with
  | truth b =>
    cases holds
    simp [partSets, atomSet, ValueSet.Has]
  | binary op l r =>
    by_cases comparison : ∃ o, op.ordering? = some o
    · obtain ⟨o, comparison⟩ := comparison
      have admits := comparison_set_admits read domain here only op o comparison l r holds
      have parts : ∀ c, (Expr.binary op l r).partSets domain c = [(Expr.binary op l r).atomSet domain] := by
        cases op <;> simp_all [ordering?, partSets]
      simpa [parts] using admits
    · cases op
      case and =>
        have all : ∀ s ∈ l.partSets domain .and ++ r.partSets domain .and, s.Admits here := by
          intro s mem
          rcases List.mem_append.mp mem with first | second
          · exact (part_sets_have only l holds.1).1 s first
          · exact (part_sets_have only r holds.2).1 s second
        rw [partSets, partSets]
        exact ⟨all, _, List.mem_singleton.mpr rfl, (has_all_iff _ here _).mpr all⟩
      case or =>
        have some : ∃ s ∈ l.partSets domain .or ++ r.partSets domain .or, s.Admits here := by
          rcases holds with first | second
          · obtain ⟨s, mem, admits⟩ := (part_sets_have only l first).2
            exact ⟨s, List.mem_append_left _ mem, admits⟩
          · obtain ⟨s, mem, admits⟩ := (part_sets_have only r second).2
            exact ⟨s, List.mem_append_right _ mem, admits⟩
        rw [partSets, partSets]
        refine ⟨fun s mem => ?_, some⟩
        rw [List.mem_singleton.mp mem]
        exact (has_any_iff _ here _).mpr some
      all_goals simp [ordering?, Holds] at comparison holds
  | _ => exact absurd holds id

theorem described_set_admits (only : ∀ r v, read r v → v = here) (e : Expr) (holds : e.Holds read domain) :
    (e.describedSet domain).Admits here := by
  have parts := part_sets_have read domain here only e holds
  cases e with
  | truth b => simpa [describedSet, partSets] using parts.2
  | binary op l r =>
    cases op
    case and => exact (has_all_iff _ here _).mpr (by simpa [partSets] using parts.1)
    case or => exact (has_any_iff _ here _).mpr (by simpa [partSets] using parts.2)
    all_goals simpa [describedSet, partSets] using parts.2
  | _ => exact absurd holds id

theorem to_set_admits (only : ∀ r v, read r v → v = here) (fits : here.Fits domain) (holds : e.Holds read domain) :
    (e.toSet domain).Admits here :=
  reduce_has _ fits (described_set_admits read domain here only e holds)

end Description

end Expr

end Blockwork
