import Blockwork.Proofs.ReductionExact
import Blockwork.Proofs.Settled

set_option autoImplicit false

namespace Blockwork

open List Number Solver ValueSet

variable {op : BinaryOp} {e l r : Expr} {p : Quantity} {o : Ordering} {b : Bool}

namespace Number

theorem eq_self (x : Number) (defined : x ≠ .nan) : x.eq x = true := by
  cases x <;> simp_all [eq]

theorem matching_self {vs : List Number} (defined : ∀ x ∈ vs, x ≠ .nan) : matching eq vs vs = true := by
  have agree : agreeInOrder eq vs vs = true := by
    induction vs with
    | nil => rfl
    | cons v vs hyp =>
      obtain ⟨first, rest⟩ := forall_mem_cons.mp defined
      rw [agreeInOrder, eq_self v first, hyp rest]
      rfl
  rw [matching, agree, beq_self_eq_true]
  rfl

theorem moderate_not_nan {x : Number} (moderate : x.IsModerate) : x ≠ .nan := by
  obtain ⟨p, defined⟩ := Interval.moderate_defined moderate
  rintro rfl
  cases defined

end Number

namespace ValueSet

-- A part that no expression describes, whose ends are exact and whose numbers are all defined.
def IsSharp (s : ValueSet) : Prop := s.IsExact ∧ s.Defined

theorem defined_of_sharp {s : ValueSet} (sharp : s.Made IsSharp) : s.Defined :=
  (defined_made s).mp (made_imp _ _ (fun _ neat => neat.2) sharp)

theorem closed_sharp : Closed IsSharp where
  empty := ⟨closed_exact.empty, trivial⟩
  universal t := ⟨closed_exact.universal t, trivial⟩
  listed domain s vs sharp listed := by
    refine ⟨⟨trivial, trivial⟩, fun x mem => ?_⟩
    exact enumerate_defined (defined_of_sharp sharp) listed x (mem_of_distinct mem)
  meet a b left right := ⟨closed_exact.meet a b left.1 right.1, trivial⟩

theorem unchanged_self {s : ValueSet} (sharp : s.Made IsSharp) : s.unchanged s = true := by
  induction s using parts_induction with
  | universal t => simp [unchanged, equal, equalBy]
  | empty => rfl
  | values vs => exact matching_self sharp.2
  | interval i =>
    have lower := eq_self i.lo (moderate_not_nan sharp.1.1.1)
    have upper := eq_self i.hi (moderate_not_nan sharp.1.1.2)
    simp [unchanged, equal, equalBy, Interval.equalBy, lower, upper]
  | union ms ih | inter ms ih =>
    rw [unchanged]
    induction ms with
    | nil => rfl
    | cons m ms rest =>
      obtain ⟨first, others⟩ := forall_mem_cons.mp ih
      rw [allUnchanged, first sharp.1, rest others sharp.2, Bool.and_self]
  | solutions e => exact sharp.1.2.elim

theorem reduce_has_iff (kept : Expr → Value → Prop) {domain : Option ValueType} {s : ValueSet} (sharp : s.Made IsSharp)
    {q : Quantity} (integer : isIntegralDomain domain = true → ∃ n : ℤ, q = .finite n) :
    (s.reduce domain).Has kept (.number q) ↔ s.Has kept (.number q) := by
  have lists : ∀ part : ValueSet, part.IsSharp → part.ListsValue domain (.number q) := by
    intro part neat
    cases part with
    | interval i =>
      refine i.lists_moderate domain neat.1.1 fun integral p same => ?_
      cases same
      exact integer integral
    | _ => trivial
  constructor
  · exact s.has_of_reduce kept domain _ (made_imp _ _ (fun _ neat => neat.1) sharp)
  · exact s.reduce_has_made kept IsSharp closed_sharp domain (.number q) lists sharp

theorem cross_singletons (domain : Option ValueType) (x y : Number) :
    crossAddSub domain op (.values [x]) (.values [y]) = .values [combine op x y] := by
  simp [crossAddSub, isEmpty, crossValues?, isFinite, enumerate, maxEnumeration, ofValues, distinct,
    ascending]

end ValueSet

namespace Expr

def constant? : Expr → Option Quantity
  | .num x => x.quantity?
  | .binary .add l r => l.constant?.bind fun p => r.constant?.bind p.add?
  | .binary .sub l r => l.constant?.bind fun p => r.constant?.bind p.sub?
  | _ => none

def IsConstant (e : Expr) : Prop := ∃ a, e.constant? = some (.finite a) ∧ |a| < 2 ^ 53

def IsName (name : String) : Expr → Prop
  | .ref r => r.name = name
  | _ => False

-- A condition on one name: it is compared with constants only, and constants with each other.
def IsAbout (name : String) : Expr → Prop
  | .truth _ => True
  | .neg e => e.IsAbout name
  | .binary .and l r | .binary .or l r => l.IsAbout name ∧ r.IsAbout name
  | .binary op l r => op.isComparison = true ∧
      (l.IsName name ∧ r.IsConstant ∨ l.IsConstant ∧ r.IsName name ∨ l.IsConstant ∧ r.IsConstant)
  | _ => False

-- A constant term while it is folded: a sum whose parts may already be sets of one number.
inductive Denotes : Expr → Quantity → Prop
  | num (x : Number) (p : Quantity) (value : x.quantity? = some p) : Denotes (.num x) p
  | listed (x : Number) (p : Quantity) (value : x.quantity? = some p) : Denotes (.among (.values [x])) p
  | sum (op : BinaryOp) (summed : op = .add ∨ op = .sub) (l r : Expr) (p q s : Quantity) (left : Denotes l p)
      (right : Denotes r q) (exact : Arithmetic.exact op p q = some s) : Denotes (.binary op l r) s

theorem denotes_of_constant {e : Expr} {p : Quantity} (value : e.constant? = some p) : e.Denotes p := by
  cases e with
  | num x => exact .num x p value
  | binary op l r =>
    cases op
    case add | sub =>
      rw [constant?] at value
      obtain ⟨a, left, rest⟩ := Option.bind_eq_some_iff.mp value
      obtain ⟨b, right, exact_⟩ := Option.bind_eq_some_iff.mp rest
      exact .sum _ (by simp) l r a b p (denotes_of_constant left) (denotes_of_constant right) exact_
    all_goals cases value
  | _ => cases value

theorem constant_value (env : String → Value) {e : Expr} {p : Quantity} (value : e.constant? = some p) :
    e.value? .exact env = some (.number p) ∧ e.isText = false := by
  cases e with
  | num x =>
    rw [value?, show x.quantity? = some p from value]
    exact ⟨rfl, rfl⟩
  | binary op l r =>
    cases op
    case add | sub =>
      rw [constant?] at value
      obtain ⟨a, left, rest⟩ := Option.bind_eq_some_iff.mp value
      obtain ⟨b, right, exact_⟩ := Option.bind_eq_some_iff.mp rest
      obtain ⟨first, notText⟩ := constant_value env left
      obtain ⟨second, notText'⟩ := constant_value env right
      refine ⟨?_, rfl⟩
      simp [value?, BinaryOp.isArithmetic, first, second, notText, notText', Value.beside, Value.combine?,
        Arithmetic.exact, exact_]
    all_goals cases value
  | _ => cases value

section Terms

variable (domain : Option ValueType)

theorem denotes_single (denotes : e.Denotes p) :
    e.occurrences = [] ∧ ∃ x : Number, e.groundValues domain = .ok (.values [x]) ∧ x.quantity? = some p := by
  induction denotes with
  | num x p value => exact ⟨rfl, x, rfl, value⟩
  | listed x p value => exact ⟨rfl, x, rfl, value⟩
  | sum op summed l r p q s left right exact_ hypL hypR =>
    obtain ⟨groundL, x, valuesL, first⟩ := hypL
    obtain ⟨groundR, y, valuesR, second⟩ := hypR
    refine ⟨by rw [occurrences, groundL, groundR]; rfl, combine op x y, ?_, ?_⟩
    · rcases summed with rfl | rfl
      all_goals rw [groundValues, valuesL, valuesR]; exact congrArg Except.ok (cross_singletons domain x y)
    · rcases summed with rfl | rfl
      · exact quantity_add y first second exact_
      · exact quantity_sub first second exact_

theorem denotes_evaluate (denotes : e.Denotes p) :
    ∃ x : Number, e.evaluate domain = .ok (.values [x]) ∧ x.quantity? = some p := by
  obtain ⟨ground, x, values, value⟩ := denotes_single domain denotes
  exact ⟨x, by rw [evaluate, firstRef?, ground]; exact values, value⟩

theorem denotes_transform (denotes : e.Denotes p) : (e.transform (foldHead domain)).Denotes p := by
  induction denotes with
  | num x p value => exact .num x p value
  | listed x p value => exact .listed x p value
  | sum op summed l r p q s left right exact_ hypL hypR =>
    have folded := Denotes.sum op summed _ _ p q s hypL hypR exact_
    obtain ⟨x, values, value⟩ := denotes_evaluate domain folded
    have head : foldHead domain (.binary op (l.transform (foldHead domain)) (r.transform (foldHead domain))) =
        .among (.values [x]) := by
      rcases summed with rfl | rfl
      all_goals rw [foldHead, foldSum, values]
    rw [transform, head]
    exact .listed x s value

theorem denotes_not_ref (denotes : e.Denotes p) : e.isRef = false := by
  cases denotes <;> rfl

theorem denotes_replace (f : Expr → Expr) (fixed : ∀ e : Expr, e.isRef = false → f e = e) (denotes : e.Denotes p) :
    e.replace f = e := by
  induction denotes with
  | num x p value => exact fixed _ rfl
  | listed x p value => exact fixed _ rfl
  | sum op summed l r p q s left right exact_ hypL hypR => rw [replace, hypL, hypR]

end Terms

section Conditions

variable (name : String) (q : Quantity)

inductive Side : Expr → Quantity → Prop
  | name (r : Reference) (same : r.name = name) : Side (.ref r) q
  | constant (e : Expr) (a : ℚ) (denotes : e.Denotes (.finite a)) (small : |a| < 2 ^ 53) : Side e (.finite a)

inductive Means : Expr → Bool → Prop
  | truth (b : Bool) : Means (.truth b) b
  | and (l r : Expr) (a b : Bool) (left : Means l a) (right : Means r b) : Means (.binary .and l r) (a && b)
  | or (l r : Expr) (a b : Bool) (left : Means l a) (right : Means r b) : Means (.binary .or l r) (a || b)
  | comparison (op : BinaryOp) (o : Ordering) (compares : op.ordering? = some o) (l r : Expr) (p p' : Quantity)
      (left : Side name q l p) (right : Side name q r p') (apart : l.isRef = false ∨ r.isRef = false) :
      Means (.binary op l r) (cmp p p' == o)

def Settled : Expr → Prop
  | .binary .and l r | .binary .or l r => l.Settled ∧ r.Settled
  | .binary _ l r => l.isRef = true ∨ r.isRef = true
  | _ => True

theorem settled_comparison (compares : op.ordering? = some o) (l r : Expr) :
    (Expr.binary op l r).Settled ↔ l.isRef = true ∨ r.isRef = true := by
  cases op <;> simp_all [BinaryOp.ordering?, Settled]

theorem side_of_constant (constant : e.IsConstant) :
    ∃ p, Side name q e p ∧ e.isRef = false ∧ ∀ env, e.value? .exact env = some (.number p) ∧ e.isText = false := by
  obtain ⟨a, value, small⟩ := constant
  have denotes := denotes_of_constant value
  exact ⟨_, .constant e a denotes small, denotes_not_ref denotes, fun env => constant_value env value⟩

theorem side_of_name (isName : e.IsName name) :
    Side name q e q ∧ ∀ env : String → Value, env name = .number q →
      e.value? .exact env = some (.number q) ∧ e.isText = false := by
  cases e with
  | ref r =>
    refine ⟨.name r isName, fun env here => ⟨?_, rfl⟩⟩
    rw [value?, show r.name = name from isName, here]
  | _ => exact isName.elim

theorem sides_order (about : l.IsName name ∧ r.IsConstant ∨ l.IsConstant ∧ r.IsName name ∨ l.IsConstant ∧ r.IsConstant)
    (env : String → Value) (here : env name = .number q) :
    ∃ order, l.order? .exact env r = some order ∧
      ∀ op o, op.ordering? = some o → Means name q (.binary op l r) (order == o) := by
  have ordered : ∀ p p', Side name q l p → Side name q r p' → (l.isRef = false ∨ r.isRef = false) →
      l.value? .exact env = some (.number p) ∧ l.isText = false →
      r.value? .exact env = some (.number p') ∧ r.isText = false →
      ∃ order, l.order? .exact env r = some order ∧
        ∀ op o, op.ordering? = some o → Means name q (.binary op l r) (order == o) := by
    intro p p' left right apart valueL valueR
    refine ⟨cmp p p', ?_, fun op o compares => .comparison op o compares l r p p' left right apart⟩
    simp [order?, valueL, valueR, Value.beside, Value.order?]
  rcases about with ⟨isName, constant⟩ | ⟨constant, isName⟩ | ⟨constant, constant'⟩
  · obtain ⟨left, value⟩ := side_of_name name q isName
    obtain ⟨p, right, notRef, value'⟩ := side_of_constant name q constant
    exact ordered q p left right (.inr notRef) (value env here) (value' env)
  · obtain ⟨p, left, notRef, value⟩ := side_of_constant name q constant
    obtain ⟨right, value'⟩ := side_of_name name q isName
    exact ordered p q left right (.inl notRef) (value env) (value' env here)
  · obtain ⟨p, left, notRef, value⟩ := side_of_constant name q constant
    obtain ⟨p', right, -, value'⟩ := side_of_constant name q constant'
    exact ordered p p' left right (.inl notRef) (value env) (value' env)

theorem normalize_means (env : String → Value) (here : env name = .number q) (e : Expr) (about : e.IsAbout name) :
    ∃ b, e.truth? .exact env = some b ∧ Means name q e.normalize b ∧ Means name q e.negate (!b) := by
  cases e with
  | truth b => exact ⟨b, rfl, .truth b, .truth (!b)⟩
  | neg e =>
    obtain ⟨b, value, normal, negated⟩ := normalize_means env here e about
    refine ⟨!b, by rw [truth?, value]; rfl, negated, ?_⟩
    rw [Bool.not_not]
    exact normal
  | binary op l r =>
    cases op
    case and =>
      obtain ⟨a, valueL, normalL, negatedL⟩ := normalize_means env here l about.1
      obtain ⟨b, valueR, normalR, negatedR⟩ := normalize_means env here r about.2
      refine ⟨a && b, ?_, .and _ _ a b normalL normalR, ?_⟩
      · rw [truth?, valueL, valueR]
        cases a <;> rfl
      · rw [Bool.not_and]
        exact .or _ _ _ _ negatedL negatedR
    case or =>
      obtain ⟨a, valueL, normalL, negatedL⟩ := normalize_means env here l about.1
      obtain ⟨b, valueR, normalR, negatedR⟩ := normalize_means env here r about.2
      refine ⟨a || b, ?_, .or _ _ a b normalL normalR, ?_⟩
      · rw [truth?, valueL, valueR]
        cases a <;> rfl
      · rw [Bool.not_or]
        exact .and _ _ _ _ negatedL negatedR
    case eq =>
      obtain ⟨order, value, means⟩ := sides_order name q about.2 env here
      have negated := Means.or _ _ _ _ (means .lt .lt rfl) (means .gt .gt rfl)
      refine ⟨order == .eq, by rw [truth_comparison _ _ _ _ rfl, value]; rfl, means .eq .eq rfl, ?_⟩
      cases order <;> exact negated
    case lt =>
      obtain ⟨order, value, means⟩ := sides_order name q about.2 env here
      have negated := Means.or _ _ _ _ (means .gt .gt rfl) (means .eq .eq rfl)
      refine ⟨order == .lt, by rw [truth_comparison _ _ _ _ rfl, value]; rfl, means .lt .lt rfl, ?_⟩
      cases order <;> exact negated
    case gt =>
      obtain ⟨order, value, means⟩ := sides_order name q about.2 env here
      have negated := Means.or _ _ _ _ (means .lt .lt rfl) (means .eq .eq rfl)
      refine ⟨order == .gt, by rw [truth_comparison _ _ _ _ rfl, value]; rfl, means .gt .gt rfl, ?_⟩
      cases order <;> exact negated
    all_goals cases about.1
  | _ => exact about.elim

theorem side_replace (f : Expr → Expr) (fixed : ∀ e : Expr, e.isRef = false → f e = e)
    (own : ∀ r : Reference, r.name = name → f (.ref r) = .ref r) (side : Side name q e p) : e.replace f = e := by
  cases side with
  | name r same => exact own r same
  | constant e a denotes small => exact denotes_replace f fixed denotes

theorem replace_means {f : Expr → Expr} (fixed : ∀ e : Expr, e.isRef = false → f e = e)
    (own : ∀ r : Reference, r.name = name → f (.ref r) = .ref r) (means : Means name q e b) : e.replace f = e := by
  induction means with
  | truth b => rfl
  | and l r a b left right hypL hypR => rw [replace, hypL, hypR]
  | or l r a b left right hypL hypR => rw [replace, hypL, hypR]
  | comparison op o compares l r p p' left right apart =>
    rw [replace, side_replace name q f fixed own left, side_replace name q f fixed own right]

section Folding

variable (domain : Option ValueType)

theorem side_transform (side : Side name q e p) :
    Side name q (e.transform (foldHead domain)) p ∧ (e.transform (foldHead domain)).isRef = e.isRef := by
  cases side with
  | name r same => exact ⟨.name r same, rfl⟩
  | constant e a denotes small =>
    have folded := denotes_transform domain denotes
    exact ⟨.constant _ a folded small, by rw [denotes_not_ref folded, denotes_not_ref denotes]⟩

theorem side_not_ref (side : Side name q e p) (notRef : e.isRef = false) : e.Denotes p := by
  cases side with
  | name r same => cases notRef
  | constant e a denotes small => exact denotes

theorem decide_bounds_points (compares : op.ordering? = some o) {x y : Number} {p' : Quantity}
    (value : x.quantity? = some p) (value' : y.quantity? = some p') :
    decideBounds? op ⟨x, x, true⟩ ⟨y, y, true⟩ = some (cmp p p' == o) := by
  have less := lt_decide value value'
  have greater := lt_decide value' value
  have same := eq_decide value value'
  have same' := eq_decide value' value
  have self := eq_decide value value
  have self' := eq_decide value' value'
  cases op <;> simp only [BinaryOp.ordering?, reduceCtorEq, Option.some.injEq] at compares <;> subst compares
  case eq =>
    rcases lt_trichotomy p p' with below | rfl | above
    · simp [decideBounds?, less, same, self, self', below, below.ne, cmp_eq_lt_iff p p' |>.mpr below]
    · simp [decideBounds?, self, self', same]
    · simp [decideBounds?, greater, same, self, self', above, above.ne', cmp_eq_gt_iff p p' |>.mpr above]
  case lt =>
    rcases lt_trichotomy p p' with below | rfl | above
    · simp [decideBounds?, less, below, cmp_eq_lt_iff p p' |>.mpr below]
    · simp [decideBounds?, le, less, same']
    · simp [decideBounds?, le, less, greater, above, above.not_gt, cmp_eq_gt_iff p p' |>.mpr above]
  case gt =>
    rcases lt_trichotomy p p' with below | rfl | above
    · simp [decideBounds?, le, less, greater, below, below.not_gt, cmp_eq_lt_iff p p' |>.mpr below]
    · simp [decideBounds?, le, greater, same]
    · simp [decideBounds?, greater, above, cmp_eq_gt_iff p p' |>.mpr above]

theorem decide_ground_constants (compares : op.ordering? = some o) {p' : Quantity} (left : l.Denotes p)
    (right : r.Denotes p') : decideGround? domain op l r = some (cmp p p' == o) := by
  obtain ⟨x, valuesL, value⟩ := denotes_evaluate domain left
  obtain ⟨y, valuesR, value'⟩ := denotes_evaluate domain right
  rw [decideGround?, valuesL, valuesR]
  exact decide_bounds_points compares value value'

theorem decide_ground_name (op : BinaryOp) (named : l.isRef = true ∨ r.isRef = true) :
    decideGround? domain op l r = none := by
  have refused : ∀ e : Expr, e.isRef = true → ∃ fault, e.evaluate domain = .error fault := by
    intro e isRef
    cases e with
    | ref r => exact ⟨_, rfl⟩
    | _ => cases isRef
  rw [decideGround?]
  rcases named with first | second
  · obtain ⟨fault, failed⟩ := refused l first
    rw [failed]
  · obtain ⟨fault, failed⟩ := refused r second
    rw [failed]
    cases l.evaluate domain <;> rfl

theorem fold_and_means {a : Bool} (left : Means name q l a) (right : Means name q r b) (settledL : l.Settled)
    (settledR : r.Settled) : Means name q (foldAnd l r) (a && b) ∧ (foldAnd l r).Settled := by
  unfold foldAnd
  split
  · cases left
    exact ⟨.truth false, trivial⟩
  · cases right
    rw [Bool.and_false]
    exact ⟨.truth false, trivial⟩
  · cases left
    exact ⟨right, settledR⟩
  · cases right
    rw [Bool.and_true]
    exact ⟨left, settledL⟩
  · exact ⟨.and l r a b left right, settledL, settledR⟩

theorem fold_or_means {a : Bool} (left : Means name q l a) (right : Means name q r b) (settledL : l.Settled)
    (settledR : r.Settled) : Means name q (foldOr l r) (a || b) ∧ (foldOr l r).Settled := by
  unfold foldOr
  split
  · cases left
    exact ⟨.truth true, trivial⟩
  · cases right
    rw [Bool.or_true]
    exact ⟨.truth true, trivial⟩
  · cases left
    exact ⟨right, settledR⟩
  · cases right
    rw [Bool.or_false]
    exact ⟨left, settledL⟩
  · exact ⟨.or l r a b left right, settledL, settledR⟩

theorem transform_means (means : Means name q e b) :
    Means name q (e.transform (foldHead domain)) b ∧ (e.transform (foldHead domain)).Settled := by
  induction means with
  | truth b => exact ⟨.truth b, trivial⟩
  | and l r a b left right hypL hypR => exact fold_and_means name q hypL.1 hypR.1 hypL.2 hypR.2
  | or l r a b left right hypL hypR => exact fold_or_means name q hypL.1 hypR.1 hypL.2 hypR.2
  | comparison op o compares l r p p' left right apart =>
    obtain ⟨left, refL⟩ := side_transform name q domain left
    obtain ⟨right, refR⟩ := side_transform name q domain right
    rw [← refL, ← refR] at apart
    rw [transform, fold_head_comparison domain compares]
    by_cases named : (l.transform (foldHead domain)).isRef = true ∨ (r.transform (foldHead domain)).isRef = true
    · rw [decide_ground_name domain op named]
      exact ⟨.comparison op o compares _ _ p p' left right apart, (settled_comparison compares _ _).mpr named⟩
    · rw [not_or, Bool.not_eq_true, Bool.not_eq_true] at named
      rw [decide_ground_constants domain compares (side_not_ref name q left named.1)
        (side_not_ref name q right named.2)]
      exact ⟨.truth _, trivial⟩

theorem fold_means (means : Means name q e b) : Means name q (e.fold domain) b ∧ (e.fold domain).Settled := by
  suffices general : ∀ (n : ℕ) (e : Expr), Means name q e b → (n = 0 → e.Settled) →
      Means name q (foldUpTo domain n e) b ∧ (foldUpTo domain n e).Settled from
    general maxPasses e means fun none => absurd none (by decide)
  intro n
  induction n with
  | zero => exact fun e means settled => ⟨means, settled rfl⟩
  | succ n hyp =>
    intro e means _
    obtain ⟨again, settled⟩ := transform_means name q domain means
    rw [foldUpTo]
    split_ifs
    · exact ⟨again, settled⟩
    · exact hyp _ again fun _ => settled

end Folding

section Sets

variable (domain : Option ValueType) (kept : Expr → Value → Prop)

theorem range_against_constant (op : BinaryOp) (above : Bool) {a : ℚ} (denotes : e.Denotes (.finite a))
    (small : |a| < 2 ^ 53) :
    (rangeAgainst domain op above e).Made ValueSet.IsSharp ∧ ((rangeAgainst domain op above e).Has kept (.number q) ↔
      if op = .eq then q = .finite a else if above = true then .finite a < q else q < .finite a) := by
  obtain ⟨x, values, value⟩ := denotes_evaluate domain denotes
  have moderate : x.IsModerate := .inr (.inr ⟨a, value, small⟩)
  have range : rangeAgainst domain op above e = if op = .eq then .values [x]
      else if above = true then .interval ⟨x, .posInf, true, false⟩ else .interval ⟨.negInf, x, false, true⟩ := by
    rw [rangeAgainst, values]
    rfl
  rw [range]
  split_ifs
  · refine ⟨⟨⟨trivial, trivial⟩, fun y mem => ?_⟩, ?_⟩
    · rw [mem_singleton.mp mem]
      exact moderate_not_nan moderate
    · rw [has_values_iff]
      simp [value, eq_comm]
  · refine ⟨⟨⟨⟨moderate, .inr (.inl rfl)⟩, trivial⟩, trivial⟩, ?_⟩
    simp [ValueSet.Has, Interval.Holds, value, ← le_iff_lt_or_eq, Quantity.le_pos_inf]
  · refine ⟨⟨⟨⟨.inl rfl, moderate⟩, trivial⟩, trivial⟩, ?_⟩
    simp [ValueSet.Has, Interval.Holds, value, ← le_iff_lt_or_eq, Quantity.neg_inf_le]

theorem comparison_means {op : BinaryOp} {o : Ordering} (compares : op.ordering? = some o) {l r : Expr}
    {p p' : Quantity} (left : Side name q l p) (right : Side name q r p') (apart : l.isRef = false ∨ r.isRef = false)
    (named : l.isRef = true ∨ r.isRef = true) :
    ((Expr.binary op l r).atomSet domain).Made ValueSet.IsSharp ∧
      (((Expr.binary op l r).atomSet domain).Has kept (.number q) ↔ cmp p p' = o) := by
  have comparison : op.isComparison = true := by cases op <;> simp_all [BinaryOp.ordering?, BinaryOp.isComparison]
  cases left with
  | name x same =>
    obtain ⟨a, rfl, denotes, small⟩ : ∃ a, p' = .finite a ∧ r.Denotes (.finite a) ∧ |a| < 2 ^ 53 := by
      cases right with
      | name y same => simp [isRef] at apart
      | constant e a denotes small => exact ⟨a, rfl, denotes, small⟩
    have set : (Expr.binary op (.ref x) r).atomSet domain = rangeAgainst domain op (op = .gt) r := by
      simp [atomSet, comparison, comparisonSet, isGround, occurrences, comparisonRange, isRef]
    obtain ⟨sharp, has⟩ := range_against_constant q domain kept op (op = .gt) denotes small
    rw [set, has]
    refine ⟨sharp, ?_⟩
    cases op <;> simp only [BinaryOp.ordering?, reduceCtorEq, Option.some.injEq] at compares <;> subst compares
    case eq | lt | gt => simp
  | constant l a denotes small =>
    have ground := denotes_not_ref denotes
    cases right with
    | constant r b denotes' small' => simp [ground, denotes_not_ref denotes'] at named
    | name y same =>
      have isName : (Expr.ref y).isRef = true := rfl
      have set : (Expr.binary op l (.ref y)).atomSet domain = rangeAgainst domain op (op ≠ .gt) l := by
        simp [atomSet, comparison, comparisonSet, isGround, occurrences, comparisonRange, isName, ground]
      obtain ⟨sharp, has⟩ := range_against_constant q domain kept op (op ≠ .gt) denotes small
      rw [set, has]
      refine ⟨sharp, ?_⟩
      cases op <;> simp only [BinaryOp.ordering?, reduceCtorEq, Option.some.injEq] at compares <;> subst compares
      case eq => simpa using eq_comm
      case lt | gt => simp

theorem flattened_sharp (flat : Prop) [Decidable flat] {parts : List ValueSet} {whole : ValueSet}
    (sharp : ∀ s ∈ parts, s.Made ValueSet.IsSharp) (same : whole.Made ValueSet.IsSharp) :
    ∀ s ∈ if flat then parts else [whole], s.Made ValueSet.IsSharp := by
  split_ifs
  · exact sharp
  · exact forall_mem_singleton.mpr same

theorem part_sets_means (means : Means name q e b) (settled : e.Settled) :
    (∀ op, ∀ s ∈ e.partSets domain op, s.Made ValueSet.IsSharp) ∧
      ((∀ s ∈ e.partSets domain .and, s.Has kept (.number q)) ↔ b = true) ∧
        ((∃ s ∈ e.partSets domain .or, s.Has kept (.number q)) ↔ b = true) := by
  induction means with
  | truth b =>
    cases b
    · simpa [partSets, atomSet, ValueSet.Has, ValueSet.Made] using closed_sharp.empty
    · simpa [partSets, atomSet, ValueSet.Has, ValueSet.Made] using closed_sharp.universal domain
  | and l r a b left right hypL hypR =>
    obtain ⟨sharpL, allL, -⟩ := hypL settled.1
    obtain ⟨sharpR, allR, -⟩ := hypR settled.2
    have sharp : ∀ s ∈ l.partSets domain .and ++ r.partSets domain .and, s.Made ValueSet.IsSharp :=
      forall_mem_append.mpr ⟨sharpL .and, sharpR .and⟩
    have all : (∀ s ∈ l.partSets domain .and ++ r.partSets domain .and, s.Has kept (.number q)) ↔ (a && b) = true := by
      rw [forall_mem_append, allL, allR, Bool.and_eq_true]
    refine ⟨fun op => flattened_sharp (op = .and) sharp ((all_made_iff _ _).mpr sharp), all, ?_⟩
    rw [← all, ← has_all_iff]
    simp [partSets, ValueSet.Has]
  | or l r a b left right hypL hypR =>
    obtain ⟨sharpL, -, someL⟩ := hypL settled.1
    obtain ⟨sharpR, -, someR⟩ := hypR settled.2
    have sharp : ∀ s ∈ l.partSets domain .or ++ r.partSets domain .or, s.Made ValueSet.IsSharp :=
      forall_mem_append.mpr ⟨sharpL .or, sharpR .or⟩
    have some : (∃ s ∈ l.partSets domain .or ++ r.partSets domain .or, s.Has kept (.number q)) ↔ (a || b) = true := by
      simp only [mem_append, or_and_right, exists_or, someL, someR, Bool.or_eq_true]
    refine ⟨fun op => flattened_sharp (op = .or) sharp ((all_made_iff _ _).mpr sharp), ?_, some⟩
    rw [← some, ← has_any_iff]
    simp [partSets, ValueSet.Has]
  | comparison op o compares l r p p' left right apart =>
    have named := (settled_comparison compares l r).mp settled
    have parts : ∀ c, (Expr.binary op l r).partSets domain c = [(Expr.binary op l r).atomSet domain] := by
      cases op <;> simp_all [BinaryOp.ordering?, partSets]
    obtain ⟨sharp, has⟩ := comparison_means name q domain kept compares left right apart named
    simpa [parts, has] using sharp

theorem described_set_means (means : Means name q e b) (settled : e.Settled) :
    (e.describedSet domain).Made ValueSet.IsSharp ∧ ((e.describedSet domain).Has kept (.number q) ↔ b = true) := by
  obtain ⟨sharp, all, some⟩ := part_sets_means name q domain kept means settled
  cases means with
  | and l r a b left right =>
    exact ⟨(all_made_iff _ _).mpr (sharp .and), (has_all_iff _ _ _).trans all⟩
  | or l r a b left right =>
    exact ⟨(all_made_iff _ _).mpr (sharp .or), (has_any_iff _ _ _).trans some⟩
  | truth b => simpa [describedSet, partSets] using And.intro (sharp .or) some
  | comparison op o compares l r p p' left right apart =>
    have parts : (Expr.binary op l r).partSets domain .or = [(Expr.binary op l r).describedSet domain] := by
      cases op <;> simp_all [BinaryOp.ordering?, partSets, describedSet]
    simpa [parts] using And.intro (sharp .or) some

theorem to_set_means (means : Means name q e b) (integer : isIntegralDomain domain = true → ∃ n : ℤ, q = .finite n) :
    ((e.fold domain).toSet domain).Made ValueSet.IsSharp ∧
      (((e.fold domain).toSet domain).Has kept (.number q) ↔ b = true) := by
  obtain ⟨folded, settled⟩ := fold_means name q domain means
  obtain ⟨sharp, has⟩ := described_set_means name q domain kept folded settled
  refine ⟨reduce_made _ closed_sharp domain _ sharp, ?_⟩
  exact (reduce_has_iff kept sharp integer).trans has

end Sets

end Conditions

end Expr

namespace Solver

section Rounds

variable (answer : String → ValueSet) (goals : List Goal)

theorem round_keeps_answer (name : String)
    (steady : ∀ goal ∈ goals, ∀ estimates, estimate goal estimates = answer goal.name) : ∀ estimates : Estimates,
    estimates.get? name = some (answer name) → (round goals estimates).2.get? name = some (answer name) := by
  induction goals with
  | nil => exact fun _ found => found
  | cons goal rest hyp =>
    intro estimates found
    have later := hyp fun other mem => steady other (mem_cons_of_mem goal mem)
    rw [round]
    dsimp only
    split_ifs
    · exact later estimates found
    · apply later
      by_cases same : name = goal.name
      · rw [same, Named.get_set_self, steady goal mem_cons_self]
      · rw [Named.get_set_other _ _ same, found]

theorem round_answers (steady : ∀ goal ∈ goals, ∀ estimates, estimate goal estimates = answer goal.name) :
    ∀ estimates : Estimates, (∀ goal ∈ goals, ∀ s, estimates.get? goal.name = some s → s = answer goal.name) →
      ∀ goal ∈ goals, (round goals estimates).2.get? goal.name = some (answer goal.name) := by
  induction goals with
  | nil => simp
  | cons goal rest hyp =>
    intro estimates agree
    have steadyRest : ∀ other ∈ rest, ∀ estimates, estimate other estimates = answer other.name :=
      fun other mem => steady other (mem_cons_of_mem goal mem)
    have agreeRest : ∀ other ∈ rest, ∀ s, estimates.get? other.name = some s → s = answer other.name :=
      fun other mem => agree other (mem_cons_of_mem goal mem)
    have here := steady goal mem_cons_self
    rw [round]
    dsimp only
    split_ifs with found
    · refine forall_mem_cons.mpr ⟨?_, hyp steadyRest estimates agreeRest⟩
      apply round_keeps_answer answer rest goal.name steadyRest
      cases present : estimates.get? goal.name with
      | none => simp [present] at found
      | some s => rw [agree goal mem_cons_self s present]
    · rw [here]
      refine forall_mem_cons.mpr ⟨round_keeps_answer answer rest goal.name steadyRest _ (Named.get_set_self), ?_⟩
      refine hyp steadyRest _ fun other mem s present => ?_
      by_cases same : other.name = goal.name
      · rw [same, Named.get_set_self, Option.some.injEq] at present
        rw [same, present]
      · rw [Named.get_set_other _ _ same] at present
        exact agreeRest other mem s present

theorem round_settled (steady : ∀ goal ∈ goals, ∀ estimates, estimate goal estimates = answer goal.name)
    (stable : ∀ goal ∈ goals, (answer goal.name).unchanged (answer goal.name) = true) {estimates : Estimates}
    (found : ∀ goal ∈ goals, estimates.get? goal.name = some (answer goal.name)) :
    round goals estimates = ([], estimates) := by
  induction goals with
  | nil => rfl
  | cons goal rest hyp =>
    have again : (estimates.get? goal.name).any (·.unchanged (estimate goal estimates)) = true := by
      rw [found goal mem_cons_self, steady goal mem_cons_self, Option.any_some]
      exact stable goal mem_cons_self
    rw [round]
    dsimp only
    rw [if_pos again]
    exact hyp (fun other mem => steady other (mem_cons_of_mem goal mem))
      (fun other mem => stable other (mem_cons_of_mem goal mem))
      (fun other mem => found other (mem_cons_of_mem goal mem))

theorem rounds_answer (steady : ∀ goal ∈ goals, ∀ estimates, estimate goal estimates = answer goal.name)
    (stable : ∀ goal ∈ goals, (answer goal.name).unchanged (answer goal.name) = true) {limit : ℕ} (enough : 2 ≤ limit)
    (estimates : Estimates) (agree : ∀ goal ∈ goals, ∀ s, estimates.get? goal.name = some s → s = answer goal.name) :
    ∃ result, (rounds goals limit estimates).estimates = some result ∧
      ∀ goal ∈ goals, result.get? goal.name = some (answer goal.name) := by
  obtain ⟨n, rfl⟩ : ∃ n, limit = n + 2 := ⟨limit - 2, by omega⟩
  have first := round_answers answer goals steady estimates agree
  have second := round_settled answer goals steady stable first
  refine ⟨(round goals estimates).2, ?_, first⟩
  rw [rounds]
  dsimp only
  split_ifs
  · rfl
  · rw [rounds, second]
    rfl

end Rounds

theorem integral_domain_of (type : Option ValueType) : isIntegralDomain (domainOf type) = isIntegralDomain type := by
  cases type <;> rfl

def answerOf (c : Constraint) : ValueSet := (c.expr.normalize.fold (domainOf c.type)).toSet (domainOf c.type)

variable {name : String} {c : Constraint}

theorem answer_exact (about : c.expr.IsAbout name) (q : Quantity)
    (integer : isIntegralDomain c.type = true → ∃ n : ℤ, q = .finite n) (env : String → Value)
    (here : env name = .number q) (kept : Expr → Value → Prop) : (answerOf c).Made ValueSet.IsSharp ∧
      ∃ b, c.expr.truth? .exact env = some b ∧ ((answerOf c).Has kept (.number q) ↔ b = true) := by
  obtain ⟨b, value, normal, -⟩ := Expr.normalize_means name q env here c.expr about
  obtain ⟨sharp, has⟩ := Expr.to_set_means name q (domainOf c.type) kept normal
    fun integral => integer (integral_domain_of c.type ▸ integral)
  exact ⟨sharp, b, value, has⟩

theorem answer_sharp (about : c.expr.IsAbout name) : (answerOf c).Made ValueSet.IsSharp :=
  (answer_exact about (.finite 0) (fun _ => ⟨0, by simp⟩) (fun _ => .number (.finite 0)) rfl fun _ _ => True).1

theorem estimate_answer {known : Named Number} (free : known.get? name = none) (about : c.expr.IsAbout name)
    (estimates : Estimates) :
    estimate ⟨name, domainOf c.type, fixKnown known c.expr.normalize⟩ estimates = answerOf c := by
  obtain ⟨b, -, normal, -⟩ := Expr.normalize_means name (.finite 0) (fun _ => .number (.finite 0)) rfl c.expr about
  have unknown : fixKnown known c.expr.normalize = c.expr.normalize := by
    refine Expr.replace_means name _ (fun e other => ?_) (fun r same => ?_) normal
    · cases e <;> simp_all [Expr.isRef]
    · dsimp only
      rw [same, free]
      rfl
  have alone : fixOthers name estimates c.expr.normalize = c.expr.normalize := by
    refine Expr.replace_means name _ (fun e other => ?_) (fun r same => ?_) normal
    · cases e <;> simp_all [Expr.isRef]
    · exact if_pos same
  rw [estimate, unknown, alone]
  rfl

end Solver

-- Where each constraint is about its own name only, solving ends in two rounds and finds exactly the values that make
-- the constraint true. A limit that is not positive stands for the default.
theorem satisfy_single_names (known : Named Number) (constraints : Constraints) (limit : ℤ) (enough : limit ≠ 1)
    (free : ∀ name c, constraints.get? name = some c → known.get? name = none)
    (about : ∀ name c, constraints.get? name = some c → c.expr.IsAbout name) :
    ∃ estimates, Solver.satisfy known constraints limit = .ok estimates ∧
      ∀ name c, constraints.get? name = some c → ∃ s, estimates.get? name = some s ∧
        ∀ (x : Number) (q : Quantity), x.quantity? = some q →
          (isIntegralDomain c.type = true → ∃ n : ℤ, q = .finite n) → ∀ env : String → Value, env name = .number q →
            (s.member x).known = true ∧ c.expr.truth? .exact env = some (s.member x).holds := by
  have rounds : 2 ≤ effectiveLimit limit := by
    unfold effectiveLimit
    split_ifs
    · decide
    · omega
  let answer : String → ValueSet := fun name => (constraints.get? name).elim .empty answerOf
  have answered : ∀ name c, constraints.get? name = some c → answer name = answerOf c := by
    intro name c found
    simp only [answer, found, Option.elim_some]
  have steady : ∀ goal ∈ goals known constraints, ∀ estimates, estimate goal estimates = answer goal.name := by
    intro goal member estimates
    obtain ⟨c, fixed, found, same⟩ := (mem_goals known constraints goal).mp member
    rw [answered goal.name c found, same]
    exact estimate_answer fixed (about goal.name c found) estimates
  have stable : ∀ goal ∈ goals known constraints, (answer goal.name).unchanged (answer goal.name) = true := by
    intro goal member
    obtain ⟨c, -, found, -⟩ := (mem_goals known constraints goal).mp member
    rw [answered goal.name c found]
    exact unchanged_self (answer_sharp (about goal.name c found))
  obtain ⟨estimates, solved, found⟩ := rounds_answer answer _ steady stable rounds
    (known.map fun entry => (entry.1, .ofValues [entry.2])) (by
      intro goal member s present
      obtain ⟨c, fixed, -, -⟩ := (mem_goals known constraints goal).mp member
      rw [Named.get_map (fun v => ofValues [v]), fixed] at present
      cases present)
  refine ⟨estimates, by rw [satisfy, outcome, solve, solved], fun name c constrained => ?_⟩
  have goal := (mem_goals known constraints ⟨name, domainOf c.type, fixKnown known c.expr.normalize⟩).mpr
    ⟨c, free name c constrained, constrained, rfl⟩
  refine ⟨answerOf c, (found _ goal).trans (congrArg some (answered name c constrained)), ?_⟩
  intro x q value integer env here
  obtain ⟨sharp, b, truth, has⟩ :=
    answer_exact (about name c constrained) q integer env here fun _ _ => True
  have plain := plain_known x (made_imp _ _ (fun _ neat => neat.1) sharp)
  have member := member_known (fun _ _ => True) x q value _ plain
  refine ⟨plain, ?_⟩
  rw [truth, Option.some.injEq, Bool.eq_iff_iff, member, has]

def fewWholeNumbers : Constraint where
  expr :=
    let x : Expr := .ref ⟨"x", some .int⟩
    .and (.neg (.gt x (.binary .add (.num (.finite 2)) (.num (.finite 3)))))
      (.and (.or (.lt (.num .one) x) (.eq (.binary .sub (.num (.finite 4)) (.num (.finite 7))) x))
        (.lt (.num .one) (.num (.finite 2))))
  type := some .int

def halfAtLeast : Constraint where
  expr := .neg (.lt (.ref ⟨"y", none⟩) (.num (.finite (1 / 2))))
  type := none

def separateNames : Constraints := [("x", fewWholeNumbers), ("y", halfAtLeast)]

theorem separate_names_members {P : String → Constraint → Prop} (first : P "x" fewWholeNumbers)
    (second : P "y" halfAtLeast)
    (name : String) (c : Constraint) (constrained : separateNames.get? name = some c) : P name c := by
  have mem := Named.mem_of_get constrained
  simp only [separateNames, mem_cons, Prod.mk.injEq, not_mem_nil, or_false] at mem
  rcases mem with ⟨rfl, rfl⟩ | ⟨rfl, rfl⟩
  · exact first
  · exact second

theorem separate_names_solved : ∃ estimates s t, Solver.satisfy [] separateNames 2 = .ok estimates ∧
    estimates.get? "x" = some s ∧ estimates.get? "y" = some t ∧ s.member (.finite (-3)) = ⟨true, true⟩ ∧
      s.member .one = ⟨false, true⟩ ∧ s.member (.finite 5) = ⟨true, true⟩ ∧ s.member (.finite 6) = ⟨false, true⟩ ∧
        t.member (.finite (1 / 2)) = ⟨true, true⟩ ∧ t.member (.finite (1 / 4)) = ⟨false, true⟩ := by
  have constant : ∀ (e : Expr) (a : ℚ), e.constant? = some (.finite a) → |a| < 2 ^ 53 → e.IsConstant :=
    fun e a value small => ⟨a, value, small⟩
  obtain ⟨estimates, solved, exact_⟩ := satisfy_single_names [] separateNames 2 (by decide) (fun _ _ _ => rfl)
    (separate_names_members
      ⟨⟨rfl, .inl ⟨rfl, constant _ 5 (by decide +kernel) (by norm_num)⟩⟩,
        ⟨⟨rfl, .inr (.inl ⟨constant _ 1 (by decide +kernel) (by norm_num), rfl⟩)⟩,
          ⟨rfl, .inr (.inl ⟨constant _ (-3) (by decide +kernel) (by norm_num), rfl⟩)⟩⟩,
        ⟨rfl, .inr
          (.inr ⟨constant _ 1 (by decide +kernel) (by norm_num), constant _ 2 (by decide +kernel) (by norm_num)⟩)⟩⟩
      ⟨rfl, .inl ⟨rfl, constant _ (1 / 2) (by decide +kernel) (by norm_num)⟩⟩)
  obtain ⟨s, found, whole⟩ := exact_ "x" fewWholeNumbers rfl
  obtain ⟨t, found', any⟩ := exact_ "y" halfAtLeast rfl
  have inX : ∀ (n : ℤ) (b : Bool), (fewWholeNumbers.expr.truth? .exact fun _ => .number (.finite n)) = some b →
      s.member (.finite n) = ⟨b, true⟩ := by
    intro n b truth
    obtain ⟨known, same⟩ := whole (.finite n) (.finite n) rfl (fun _ => ⟨n, rfl⟩) (fun _ => .number (.finite n)) rfl
    rw [truth, Option.some.injEq] at same
    rw [same, ← known]
  have inY : ∀ (a : ℚ) (b : Bool), (halfAtLeast.expr.truth? .exact fun _ => .number (.finite a)) = some b →
      t.member (.finite a) = ⟨b, true⟩ := by
    intro a b truth
    obtain ⟨known, same⟩ := any (.finite a) (.finite a) rfl (fun integral => by cases integral)
      (fun _ => .number (.finite a)) rfl
    rw [truth, Option.some.injEq] at same
    rw [same, ← known]
  refine ⟨estimates, s, t, solved, found, found', ?_, ?_, ?_, ?_, ?_, ?_⟩
  · exact inX (-3) true (by decide +kernel)
  · exact inX 1 false (by decide +kernel)
  · exact inX 5 true (by decide +kernel)
  · exact inX 6 false (by decide +kernel)
  · exact inY (1 / 2) true (by decide +kernel)
  · exact inY (1 / 4) false (by decide +kernel)

end Blockwork
