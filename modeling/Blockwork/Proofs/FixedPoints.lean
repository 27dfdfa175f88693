import Blockwork.Proofs.SingleVariable

set_option autoImplicit false

namespace Blockwork

mutual

-- No number of an expression is undefined. The expressions that its sets keep count as well.
def Expr.Proper : Expr → Prop
  | .num v => v ≠ .nan
  | .among s => s.Proper
  | .neg e => e.Proper
  | .binary _ l r => l.Proper ∧ r.Proper
  | _ => True

def ValueSet.Proper : ValueSet → Prop
  | .solutions e => e.Proper
  | .union ms | .inter ms => ValueSet.AllProper ms
  | _ => True

def ValueSet.AllProper : List ValueSet → Prop
  | [] => True
  | m :: ms => m.Proper ∧ ValueSet.AllProper ms

end

mutual

theorem Expr.kept_equal (e f : Expr) (proper : e.Proper) (same : e.kept f = true) : e.equal f = true := by
  cases e with
  | num v =>
    cases f with
    | num w =>
      rcases Bool.or_eq_true_iff.mp same with same | equal
      · rw [← of_decide_eq_true same]
        exact Number.eq_self v proper
      · exact equal
    | _ => cases same
  | among s =>
    cases f with
    | among t => exact ValueSet.unchanged_equal s t proper same
    | _ => cases same
  | neg e =>
    cases f with
    | neg f => exact Expr.kept_equal e f proper same
    | _ => cases same
  | binary op l r =>
    cases f with
    | binary op' l' r' =>
      simp only [Expr.kept, Bool.and_eq_true] at same
      simp only [Expr.equal, Expr.equalBy, Bool.and_eq_true]
      exact ⟨⟨same.1.1, Expr.kept_equal l l' proper.1 same.1.2⟩, Expr.kept_equal r r' proper.2 same.2⟩
    | _ => cases same
  | _ => exact same

theorem ValueSet.unchanged_equal (s t : ValueSet) (proper : s.Proper) (same : s.unchanged t = true) :
    s.equal t = true := by
  cases s with
  | solutions e =>
    cases t with
    | solutions f => exact Expr.kept_equal e f proper same
    | _ => cases same
  | union ms =>
    cases t with
    | union ns => exact ValueSet.all_unchanged_equal proper same
    | _ => cases same
  | inter ms =>
    cases t with
    | inter ns => exact ValueSet.all_unchanged_equal proper same
    | _ => cases same
  | _ => exact same

theorem ValueSet.all_unchanged_equal {ms ns : List ValueSet} (proper : ValueSet.AllProper ms)
    (same : ValueSet.allUnchanged ms ns = true) : ValueSet.allEqualBy Number.eq ms ns = true := by
  cases ms with
  | nil =>
    cases ns with
    | nil => rfl
    | cons n ns => cases same
  | cons m ms =>
    cases ns with
    | nil => cases same
    | cons n ns =>
      rw [ValueSet.allUnchanged, Bool.and_eq_true] at same
      rw [ValueSet.allEqualBy, Bool.and_eq_true]
      exact ⟨ValueSet.unchanged_equal m n proper.1 same.1, ValueSet.all_unchanged_equal proper.2 same.2⟩

end

namespace ValueSet

theorem all_proper_iff (ms : List ValueSet) : AllProper ms ↔ ∀ m ∈ ms, m.Proper := by
  induction ms with
  | nil => simp [AllProper]
  | cons m ms ih => simp [AllProper, ih]

theorem closed_proper : Closed Proper := ⟨trivial, fun _ => trivial, fun _ _ _ _ _ => trivial, fun _ _ _ _ => trivial⟩

variable (domain : Option ValueType)

theorem reduce_proper (s : ValueSet) (proper : s.Proper) : (s.reduce domain).Proper :=
  have made := made_self all_proper_iff all_proper_iff
  (made _).mp (reduce_made Proper closed_proper domain s ((made s).mpr proper))

theorem cross_extents_proper (op : BinaryOp) (a b : Extent) : (crossExtents domain op a b).Proper := by
  unfold crossExtents
  split_ifs
  · trivial
  all_goals
    dsimp only
    split_ifs <;> trivial

theorem cross_proper {op : BinaryOp} {a b : ValueSet} : (crossAddSub domain op a b).Proper := by
  unfold crossAddSub
  split_ifs
  · trivial
  · split
    · trivial
    · exact cross_extents_proper domain op a.extent b.extent

end ValueSet

namespace Expr

variable (domain : Option ValueType)

theorem normalize_proper (e : Expr) (proper : e.Proper) : e.normalize.Proper ∧ e.negate.Proper := by
  cases e with
  | num _ | text _ | ref _ | among _ | truth _ => exact ⟨proper, proper⟩
  | neg e => exact (normalize_proper e proper).symm
  | binary op l r =>
    have left := normalize_proper l proper.1
    have right := normalize_proper r proper.2
    cases op with
    | and | or => exact ⟨⟨left.1, right.1⟩, left.2, right.2⟩
    | eq | lt | gt => exact ⟨proper, proper, proper⟩
    | add | sub | mult | div | rem => exact ⟨proper, proper⟩

theorem replace_proper (f : Expr → Expr) (fixed : ∀ e : Expr, e.isRef = false → f e = e)
    (refs : ∀ r, (f (.ref r)).Proper) (e : Expr) (proper : e.Proper) : (e.replace f).Proper := by
  cases e with
  | num _ | text _ | among _ =>
    change (f _).Proper
    rwa [fixed _ rfl]
  | ref r => exact refs r
  | truth b => trivial
  | neg e => exact replace_proper f fixed refs e proper
  | binary op l r => exact ⟨replace_proper f fixed refs l proper.1, replace_proper f fixed refs r proper.2⟩

variable {e : Expr} {s : ValueSet}

theorem ground_values_proper (proper : e.Proper) (made : e.groundValues domain = .ok s) : s.Proper := by
  cases e with
  | num _ | text _ =>
    cases made
    trivial
  | among s =>
    cases made
    exact proper
  | binary op l r =>
    cases op with
    | add | sub =>
      rw [groundValues] at made
      split at made <;> cases made
      exact ValueSet.cross_proper domain
    | _ => cases made
  | _ => cases made

theorem evaluate_proper (proper : e.Proper) (made : e.evaluate domain = .ok s) : s.Proper := by
  unfold evaluate at made
  split at made
  · cases made
  · exact ground_values_proper domain proper made

theorem fold_head_proper (proper : e.Proper) : (foldHead domain e).Proper := by
  have sum : (foldSum domain e).Proper := by
    unfold foldSum
    split
    · next s made => exact evaluate_proper domain proper made
    · exact proper
  cases e with
  | neg e =>
    rw [foldHead]
    unfold foldNeg
    split
    · trivial
    · exact proper
  | binary op l r =>
    cases op with
    | and =>
      rw [foldHead]
      unfold foldAnd
      split <;> first | trivial | exact proper.1 | exact proper.2
    | or =>
      rw [foldHead]
      unfold foldOr
      split <;> first | trivial | exact proper.1 | exact proper.2
    | add | sub => exact sum
    | eq | lt | gt =>
      simp only [foldHead, BinaryOp.isComparison, if_true]
      split
      · trivial
      · exact proper
    | mult | div | rem => exact proper
  | _ => exact proper

theorem transform_proper (e : Expr) (proper : e.Proper) : (e.transform (foldHead domain)).Proper := by
  cases e with
  | neg e => exact fold_head_proper domain (transform_proper e proper)
  | binary op l r => exact fold_head_proper domain ⟨transform_proper l proper.1, transform_proper r proper.2⟩
  | _ => exact fold_head_proper domain proper

theorem fold_proper (e : Expr) (proper : e.Proper) : (e.fold domain).Proper := by
  unfold fold
  generalize maxPasses = passes
  induction passes generalizing e with
  | zero => exact proper
  | succ passes hyp =>
    have next := transform_proper domain e proper
    rw [foldUpTo]
    split_ifs
    · exact next
    · exact hyp _ next

theorem range_proper {op : BinaryOp} {above : Bool} {other : Expr} (proper : other.Proper) :
    (rangeAgainst domain op above other).Proper := by
  unfold rangeAgainst
  split
  · trivial
  · next bound made =>
      dsimp only
      split_ifs <;> first | trivial | exact evaluate_proper domain proper made

theorem atom_proper (proper : e.Proper) : (e.atomSet domain).Proper := by
  cases e with
  | truth b => cases b <;> trivial
  | num _ | text _ => trivial
  | among _ | ref _ | neg _ => exact proper
  | binary op l r =>
    rw [atomSet, comparisonSet, comparisonRange]
    split_ifs <;>
      first | trivial | exact proper | exact range_proper domain proper.1 | exact range_proper domain proper.2

theorem part_sets_proper (e : Expr) (proper : e.Proper) (op : BinaryOp) : ∀ s ∈ e.partSets domain op, s.Proper := by
  cases e with
  | binary op' l r =>
    have parts : ∀ op, ∀ s ∈ l.partSets domain op ++ r.partSets domain op, s.Proper := fun op =>
      List.forall_mem_append.mpr ⟨part_sets_proper l proper.1 op, part_sets_proper r proper.2 op⟩
    have atom := atom_proper domain proper
    cases op' with
    | and | or =>
      rw [partSets]
      split_ifs
      · exact parts _
      · exact List.forall_mem_singleton.mpr ((ValueSet.all_proper_iff _).mpr (parts _))
    | _ => simpa [partSets] using atom
  | _ => simpa [partSets] using atom_proper domain proper

theorem to_set_proper (proper : e.Proper) : (e.toSet domain).Proper := by
  apply ValueSet.reduce_proper
  cases e with
  | binary op l r =>
    cases op with
    | and | or =>
      exact (ValueSet.all_proper_iff _).mpr
        (List.forall_mem_append.mpr ⟨part_sets_proper domain l proper.1 _, part_sets_proper domain r proper.2 _⟩)
    | _ => exact atom_proper domain proper
  | _ => exact atom_proper domain proper

end Expr

namespace Solver

variable {estimates : Estimates}

theorem estimate_proper (goal : Goal) (proper : goal.expr.Proper)
    (all : ∀ name s, estimates.get? name = some s → s.Proper) : (estimate goal estimates).Proper := by
  refine Expr.to_set_proper goal.domain (Expr.fold_proper goal.domain _ (Expr.replace_proper _ ?_ ?_ _ proper))
  · intro leaf other
    cases leaf <;> first | rfl | cases other
  · intro r
    dsimp only
    split_ifs
    · trivial
    · cases found : estimates.get? r.name with
      | none => trivial
      | some s => exact all r.name s found

theorem rounds_more {goals : List Goal} (limit more : ℕ) (least : limit ≤ more) (estimates result : Estimates)
    (found : (rounds goals limit estimates).estimates = some result) :
    (rounds goals more estimates).estimates = some result := by
  induction limit generalizing more estimates with
  | zero => cases found
  | succ limit hyp =>
    obtain ⟨more, rfl⟩ : ∃ n, more = n + 1 := ⟨more - 1, by omega⟩
    rw [rounds] at found ⊢
    dsimp only at found ⊢
    split_ifs at found ⊢
    · exact found
    · exact hyp more (by omega) _ found

theorem satisfy_proper {known : Named Number} {constraints : Constraints} {limit : Int}
    (defined : ∀ name v, known.get? name = some v → v ≠ .nan)
    (proper : ∀ name c, constraints.get? name = some c → c.expr.Proper)
    (solved : satisfy known constraints limit = .ok estimates) : ∀ name s, estimates.get? name = some s → s.Proper := by
  refine (rounds_end (fun estimates => ∀ name s, estimates.get? name = some s → s.Proper) _
    (fun goal mem estimates all => ?_) _ _ ?_ ((satisfy_iff).mp solved)).1
  · obtain ⟨c, -, found, same⟩ := (mem_goals known constraints goal).mp mem
    refine Named.forall_set all goal.name (estimate_proper goal ?_ all)
    rw [same]
    refine Expr.replace_proper _ ?_ ?_ _ (Expr.normalize_proper c.expr (proper goal.name c found)).1
    · intro leaf other
      cases leaf <;> first | rfl | cases other
    · intro r
      dsimp only
      cases fixed : known.get? r.name with
      | none => trivial
      | some v => exact defined r.name v fixed
  · intro name s found
    rw [Named.get_map (fun v => ValueSet.ofValues [v]), Option.map_eq_some_iff] at found
    obtain ⟨v, -, rfl⟩ := found
    trivial

-- A solution does not depend on the limit on its rounds: known names keep their values, and the estimate of every other
-- name is what its constraint gives with the solution put in.
theorem solution_is_fixed (known : Named Number) (constraints : Constraints) (limit more : Int) (estimates : Estimates)
    (defined : ∀ name v, known.get? name = some v → v ≠ .nan)
    (proper : ∀ name c, constraints.get? name = some c → c.expr.Proper)
    (least : effectiveLimit limit ≤ effectiveLimit more) (solved : satisfy known constraints limit = .ok estimates) :
    satisfy known constraints more = .ok estimates ∧
      (∀ name c, constraints.get? name = some c → known.get? name = none → ∃ s, estimates.get? name = some s ∧
        s.equal (((fixOthers name estimates (fixKnown known c.expr.normalize)).fold (domainOf c.type)).toSet
          (domainOf c.type)) = true) ∧
      ∀ name v, known.get? name = some v → estimates.get? name = some (.ofValues [v]) := by
  refine ⟨?_, fun name c constrained free => ?_, satisfy_known known constraints limit estimates solved⟩
  · exact (satisfy_iff).mpr (rounds_more _ _ least _ _ ((satisfy_iff).mp solved))
  · obtain ⟨s, found, again⟩ := satisfy_fixed known constraints limit estimates solved name constrained free
    have proper := satisfy_proper defined proper solved name s found
    exact ⟨s, found, s.unchanged_equal _ proper again⟩

def stacked : Constraints :=
  [("x", ⟨.and (.gt (.ref ⟨"x", some .int⟩) (.ref ⟨"base", some .int⟩)) (.lt (.ref ⟨"x", some .int⟩) (.num (.ofInt 9))),
    some .int⟩), ("y", ⟨.gt (.ref ⟨"y", some .int⟩) (.ref ⟨"x", some .int⟩), some .int⟩)]

theorem stacked_is_fixed : ∃ estimates, satisfy [("base", .ofInt 3)] stacked 3 = .ok estimates ∧
    satisfy [("base", .ofInt 3)] stacked 100 = .ok estimates ∧ estimates.get? "base" = some (.ofValues [.ofInt 3]) := by
  have succeeds : (satisfy [("base", .ofInt 3)] stacked 3).isOk = true := by decide +kernel
  cases solved : satisfy [("base", .ofInt 3)] stacked 3 with
  | error failure => simp [solved, Except.isOk, Except.toBool] at succeeds
  | ok estimates =>
    have defined : ∀ name v, Named.get? [("base", Number.ofInt 3)] name = some v → v ≠ .nan := by
      intro name v found
      have member := Named.mem_of_get found
      simp only [List.mem_singleton, Prod.mk.injEq] at member
      rw [member.2]
      decide +kernel
    have proper : ∀ name c, stacked.get? name = some c → c.expr.Proper := by
      intro name c found
      have member := Named.mem_of_get found
      simp only [stacked, List.mem_cons, Prod.mk.injEq, List.not_mem_nil, or_false] at member
      rcases member with ⟨-, rfl⟩ | ⟨-, rfl⟩
      · exact ⟨⟨trivial, trivial⟩, trivial, (by decide +kernel : Number.ofInt 9 ≠ .nan)⟩
      · exact ⟨trivial, trivial⟩
    obtain ⟨same, -, known⟩ := solution_is_fixed _ stacked 3 100 estimates defined proper (by decide) solved
    exact ⟨estimates, rfl, same, known "base" _ rfl⟩

def aboveZero : Constraints := [("x", ⟨.gt (.ref ⟨"x", some .int⟩) (.num .zero), some .int⟩)]

-- A limit of zero stands for the default, so that a limit of one is less.
theorem above_zero_needs_two_rounds : ∃ estimates, (∀ name c, aboveZero.get? name = some c → c.expr.Proper) ∧
    satisfy [] aboveZero 0 = .ok estimates ∧ satisfy [] aboveZero 1 ≠ .ok estimates := by
  have succeeds : (satisfy [] aboveZero 0).isOk = true := by decide +kernel
  have fails : (satisfy [] aboveZero 1).isOk = false := by decide +kernel
  cases solved : satisfy [] aboveZero 0 with
  | error failure => simp [solved, Except.isOk, Except.toBool] at succeeds
  | ok estimates =>
    refine ⟨estimates, fun name c found => ?_, rfl, fun same => ?_⟩
    · have member := Named.mem_of_get found
      simp only [aboveZero, List.mem_singleton, Prod.mk.injEq] at member
      rw [member.2]
      exact ⟨trivial, (by decide : Number.zero ≠ .nan)⟩
    · rw [same] at fails
      cases fails

end Solver

end Blockwork
