import Blockwork.Constraint.Fold
import Blockwork.Proofs.Evaluation
import Mathlib

set_option autoImplicit false

namespace Blockwork

-- How conditions are read in a totally ordered set of values: what constants stand for, what operations do, and
-- which values count as true.
structure Interpretation (α : Type) where
  number : Number → α
  text : String → α
  set : ValueSet → α
  truth : Bool → α
  operation : BinaryOp → α → α → α
  holds : α → Bool
  holds_truth : ∀ b, holds (truth b) = b

attribute [simp] Interpretation.holds_truth

namespace Expr

def IsTerm : Expr → Prop
  | .num _ | .text _ | .ref _ | .among _ => True
  | .truth _ | .neg _ => False
  | .binary op l r => op.isArithmetic = true ∧ l.IsTerm ∧ r.IsTerm

def IsCondition : Expr → Prop
  | .truth _ => True
  | .neg e => e.IsCondition
  | .binary .and l r | .binary .or l r => l.IsCondition ∧ r.IsCondition
  | .binary _ l r => l.IsTerm ∧ r.IsTerm
  | _ => True

def negated : Expr → List Expr
  | .neg e => e :: e.negated
  | .binary _ l r => l.negated ++ r.negated
  | _ => []

section Evaluation

variable {α : Type} [LinearOrder α] (I : Interpretation α) (env : Reference → α)

def eval : Expr → α
  | .num x => I.number x
  | .text s => I.text s
  | .ref r => env r
  | .among s => I.set s
  | .truth b => I.truth b
  | .neg e => I.truth (!I.holds e.eval)
  | .binary .and l r => I.truth (I.holds l.eval && I.holds r.eval)
  | .binary .or l r => I.truth (I.holds l.eval || I.holds r.eval)
  | .binary .eq l r => I.truth (decide (l.eval = r.eval))
  | .binary .lt l r => I.truth (decide (l.eval < r.eval))
  | .binary .gt l r => I.truth (decide (r.eval < l.eval))
  | .binary op l r => I.operation op l.eval r.eval

def isTrue (e : Expr) : Bool := I.holds (e.eval I env)

variable (e l r : Expr)

@[simp] theorem is_true_truth (b : Bool) : (Expr.truth b).isTrue I env = b := I.holds_truth _

@[simp] theorem is_true_neg : (Expr.neg e).isTrue I env = !e.isTrue I env := I.holds_truth _

@[simp] theorem is_true_and : (Expr.and l r).isTrue I env = (l.isTrue I env && r.isTrue I env) := I.holds_truth _

@[simp] theorem is_true_or : (Expr.or l r).isTrue I env = (l.isTrue I env || r.isTrue I env) := I.holds_truth _

@[simp] theorem is_true_eq : (Expr.eq l r).isTrue I env = decide (l.eval I env = r.eval I env) := I.holds_truth _

@[simp] theorem is_true_lt : (Expr.lt l r).isTrue I env = decide (l.eval I env < r.eval I env) := I.holds_truth _

@[simp] theorem is_true_gt : (Expr.gt l r).isTrue I env = decide (r.eval I env < l.eval I env) := I.holds_truth _

-- Values are totally ordered, so that two of them that do not stand in one way to each other stand in another.
theorem is_true_complement :
    (Expr.or (.lt l r) (.eq l r)).isTrue I env = !(Expr.gt l r).isTrue I env ∧
      (Expr.or (.gt l r) (.eq l r)).isTrue I env = !(Expr.lt l r).isTrue I env ∧
      (Expr.or (.lt l r) (.gt l r)).isTrue I env = !(Expr.eq l r).isTrue I env := by
  rcases lt_trichotomy (l.eval I env) (r.eval I env) with less | same | more
  · simp [less, less.not_gt, less.ne]
  · simp [same]
  · simp [more, more.not_gt, more.ne']

-- Both readings of an expression at once, since each of them is made from the other under a negation.
theorem normalize_is_true (e : Expr) :
    e.normalize.isTrue I env = e.isTrue I env ∧ e.negate.isTrue I env = !e.isTrue I env := by
  cases e with
  | num _ | text _ | ref _ | among _ => exact ⟨rfl, is_true_neg I env _⟩
  | truth b => simp [normalize, negate]
  | neg e => simp [normalize, negate, normalize_is_true e]
  | binary op l r =>
    obtain ⟨greater, less, equal⟩ := is_true_complement I env l r
    cases op with
    | and => simp [normalize, negate, normalize_is_true l, normalize_is_true r]
    | or => simp [normalize, negate, normalize_is_true l, normalize_is_true r]
    | eq => exact ⟨rfl, equal⟩
    | lt => exact ⟨rfl, less⟩
    | gt => exact ⟨rfl, greater⟩
    | add | sub | mult | div | rem => exact ⟨rfl, is_true_neg I env _⟩

end Evaluation

theorem normalize_occurrences (e : Expr) :
    e.normalize.occurrences ⊆ e.occurrences ∧ e.negate.occurrences ⊆ e.occurrences := by
  cases e with
  | num _ | text _ | ref _ | among _ | truth _ => exact ⟨List.Subset.refl _, List.Subset.refl _⟩
  | neg e => exact (normalize_occurrences e).symm
  | binary op l r =>
    have left := normalize_occurrences l
    have right := normalize_occurrences r
    have twice : (Expr.or (.lt l r) (.eq l r)).occurrences ⊆ (Expr.binary op l r).occurrences := by simp [occurrences]
    cases op with
    | and | or =>
      refine ⟨?_, ?_⟩
      · exact List.append_subset.mpr
          ⟨List.subset_append_of_subset_left _ left.1, List.subset_append_of_subset_right _ right.1⟩
      · exact List.append_subset.mpr
          ⟨List.subset_append_of_subset_left _ left.2, List.subset_append_of_subset_right _ right.2⟩
    | eq | lt | gt => exact ⟨List.Subset.refl _, twice⟩
    | add | sub | mult | div | rem => exact ⟨List.Subset.refl _, List.Subset.refl _⟩

theorem term_negated {e : Expr} (term : e.IsTerm) : e.negated = [] := by
  cases e with
  | num _ | text _ | ref _ | among _ => rfl
  | truth _ | neg _ => exact term.elim
  | binary op l r => rw [negated, term_negated term.2.1, term_negated term.2.2, List.append_nil]

def NegatesTerms (e : Expr) : Prop := ∀ x ∈ e.negated, x.IsTerm

theorem negates_terms_binary (op : BinaryOp) (l r : Expr) :
    (Expr.binary op l r).NegatesTerms ↔ l.NegatesTerms ∧ r.NegatesTerms := by
  simp [NegatesTerms, negated, or_imp, forall_and]

variable {e : Expr}

theorem term_negates (term : e.IsTerm) : e.NegatesTerms := by
  simp [NegatesTerms, term_negated term]

theorem negated_term_negates (term : e.IsTerm) : (Expr.neg e).NegatesTerms := by
  simp [NegatesTerms, negated, term_negated term, term]

theorem normalize_negates_terms (e : Expr) (built : e.IsCondition) :
    e.normalize.NegatesTerms ∧ e.negate.NegatesTerms := by
  cases e with
  | num _ | text _ | ref _ | among _ => exact ⟨term_negates trivial, negated_term_negates trivial⟩
  | truth _ => simp [normalize, negate, NegatesTerms, negated]
  | neg e => exact (normalize_negates_terms e built).symm
  | binary op l r =>
    cases op with
    | and | or =>
      have left := normalize_negates_terms l built.1
      have right := normalize_negates_terms r built.2
      simp [normalize, negate, negates_terms_binary, left, right]
    | eq | lt | gt =>
      have left := term_negates built.1
      have right := term_negates built.2
      simp [normalize, negate, negates_terms_binary, left, right]
    | add | sub | mult | div | rem =>
      exact ⟨term_negates ⟨rfl, built⟩, negated_term_negates ⟨rfl, built⟩⟩

-- Pushing negations down keeps the truth of a condition in every reading of its names as ordered values, brings in no
-- name, and leaves negations only where there is nothing to push them through.
theorem negations_pushed_down (e : Expr) (built : e.IsCondition) :
    (∀ (α : Type) [LinearOrder α] (I : Interpretation α) (env : Reference → α), e.normalize.isTrue I env =
      e.isTrue I env) ∧ (∀ r ∈ e.normalize.occurrences, r ∈ e.occurrences) ∧ ∀ x ∈ e.normalize.negated, x.IsTerm :=
  ⟨fun _ _ I env => (e.normalize_is_true I env).1, fun _ member => (e.normalize_occurrences).1 member,
    (e.normalize_negates_terms built).1⟩

def deniedRange : Expr :=
  let x : Expr := .ref ⟨"x", some .int⟩
  .neg (.and (.lt x (.num (.ofInt 3)))
    (.or (.ref ⟨"on", some .bool⟩) (.eq (.ref ⟨"y", some .int⟩) (.binary .add x (.num (.ofInt 1))))))

theorem denied_range_pushed_down :
    deniedRange.IsCondition ∧ deniedRange.normalize.negated = [.ref ⟨"on", some .bool⟩] ∧
      (∀ (α : Type) [LinearOrder α] (I : Interpretation α) (env : Reference → α),
        deniedRange.normalize.isTrue I env = deniedRange.isTrue I env) ∧
      (∀ r ∈ deniedRange.normalize.occurrences, r ∈ deniedRange.occurrences) ∧
        ∀ x ∈ deniedRange.normalize.negated, x.IsTerm := by
  have built : deniedRange.IsCondition := by simp [deniedRange, IsCondition, IsTerm, BinaryOp.isArithmetic]
  exact ⟨built, rfl, negations_pushed_down deniedRange built⟩

end Expr

end Blockwork
