import Blockwork.Constraint.Solve
import Blockwork.Proofs.Covering
import Mathlib

set_option autoImplicit false

namespace Blockwork

open List

variable {e : Expr}

namespace Named

variable {α : Type} {name : String}

theorem get_set_self {entries : Named α} {value : α} : (entries.set name value).get? name = some value := by
  induction entries with
  | nil => simp [set, get?]
  | cons entry rest ih =>
    obtain ⟨key, old⟩ := entry
    rw [set]
    split_ifs with same
    · simp [get?]
    · rw [get?, find?_cons_of_neg (by simpa using same)]
      exact ih

theorem get_set_other (entries : Named α) {other : String} (value : α) (different : other ≠ name) :
    (entries.set name value).get? other = entries.get? other := by
  induction entries with
  | nil => simp [set, get?, Ne.symm different]
  | cons entry rest ih =>
    obtain ⟨key, old⟩ := entry
    rw [set]
    split_ifs with same
    · subst same
      simp [get?, Ne.symm different]
    · by_cases here : key = other
      · simp [get?, here]
      · rw [get?, get?, find?_cons_of_neg (by simpa using here), find?_cons_of_neg (by simpa using here)]
        exact ih

theorem forall_set {P : String → α → Prop} {entries : Named α}
    (all : ∀ name value, entries.get? name = some value → P name value)
    (name : String) {value : α} (new : P name value) : ∀ other found, (entries.set name value).get? other = some found →
    P other found := by
  intro other found present
  by_cases same : other = name
  · subst same
    rw [get_set_self, Option.some.injEq] at present
    exact present ▸ new
  · rw [get_set_other entries value same] at present
    exact all other found present

theorem get_map {β : Type} (f : α → β) (entries : Named α) (name : String) :
    get? (entries.map fun (key, value) => (key, f value)) name = (entries.get? name).map f := by
  induction entries with
  | nil => rfl
  | cons entry rest ih =>
    obtain ⟨key, value⟩ := entry
    by_cases here : key = name
    · simp [get?, here]
    · rw [map_cons, get?, get?, find?_cons_of_neg (by simpa using here),
        find?_cons_of_neg (by simpa using here)]
      exact ih

theorem mem_insert_name (name other : String) (names : List String) :
    other ∈ insertName name names ↔ other = name ∨ other ∈ names := by
  induction names with
  | nil => simp [insertName]
  | cons first rest ih =>
    rw [insertName]
    split_ifs
    · simp
    · simp only [mem_cons, ih]
      tauto

theorem mem_names (entries : Named α) (name : String) : name ∈ entries.names ↔ ∃ value, (name, value) ∈ entries := by
  unfold names
  induction entries with
  | nil => simp
  | cons entry rest ih =>
    obtain ⟨key, value⟩ := entry
    rw [map_cons, foldr_cons, mem_insert_name, ih]
    simp only [mem_cons, Prod.mk.injEq, exists_or, exists_and_left, exists_eq, and_true]

theorem mem_of_get {entries : Named α} {value : α} (found : entries.get? name = some value) :
    (name, value) ∈ entries := by
  rw [get?, Option.map_eq_some_iff] at found
  obtain ⟨⟨key, value'⟩, first, rfl⟩ := found
  have same : key = name := by simpa using find?_some first
  exact same ▸ mem_of_find?_eq_some first

end Named

namespace Expr

section Replace

variable (read read' : Reference → Value → Prop) (domain : Option ValueType) (f : Expr → Expr)

theorem replace_operand (fixed : ∀ e : Expr, e.isRef = false → f e = e) {v : Value} (operand : e.Operand domain v) :
    (e.replace f).Operand domain v := by
  rcases operand with ⟨x, rfl⟩ | fits
  · exact .inl ⟨x, fixed (.num x) rfl⟩
  · exact .inr fits

theorem replace_covers (fixed : ∀ e : Expr, e.isRef = false → f e = e)
    (refs : ∀ r v, read r v → (f (.ref r)).Covers read' domain v) (e : Expr) (v : Value)
    (covers : e.Covers read domain v) : (e.replace f).Covers read' domain v := by
  cases e with
  | num x =>
    change (f (.num x)).Covers read' domain v
    rwa [fixed _ rfl]
  | text t =>
    change (f (.text t)).Covers read' domain v
    rwa [fixed _ rfl]
  | ref r => exact refs r v covers
  | among s =>
    change (f (.among s)).Covers read' domain v
    rwa [fixed _ rfl]
  | truth b => trivial
  | neg e => exact absurd covers id
  | binary op l r =>
    rw [replace]
    by_cases summed : op = .add ∨ op = .sub
    · obtain ⟨u, w, left, right, leftOperand, rightOperand, sum⟩ := (covers_sum read domain summed l r v).mp covers
      exact (covers_sum read' domain summed _ _ v).mpr ⟨u, w, replace_covers fixed refs l u left,
        replace_covers fixed refs r w right, replace_operand domain f fixed leftOperand,
        replace_operand domain f fixed rightOperand, sum⟩
    · rw [Covers, if_neg summed] at covers ⊢
      exact covers

theorem replace_holds (fixed : ∀ e : Expr, e.isRef = false → f e = e)
    (refs : ∀ r v, read r v → (f (.ref r)).Covers read' domain v) (e : Expr) (holds : e.Holds read domain) :
    (e.replace f).Holds read' domain := by
  cases e with
  | truth b => exact holds
  | binary op l r =>
    rw [replace]
    by_cases comparison : ∃ o, op.ordering? = some o
    · obtain ⟨o, comparison⟩ := comparison
      obtain ⟨v, w, left, right, order⟩ := (holds_comparison read domain comparison l r).mp holds
      exact (holds_comparison read' domain comparison _ _).mpr ⟨v, w,
        replace_covers read read' domain f fixed refs l v left,
        replace_covers read read' domain f fixed refs r w right, order⟩
    · cases op
      case and => exact ⟨replace_holds fixed refs l holds.1, replace_holds fixed refs r holds.2⟩
      case or =>
        rcases holds with left | right
        · exact .inl (replace_holds fixed refs l left)
        · exact .inr (replace_holds fixed refs r right)
      all_goals simp [BinaryOp.ordering?, Holds] at comparison holds
  | _ => exact absurd holds id

end Replace

section Normal

variable (A : Arithmetic) (env : String → Value) (read : Reference → Value → Prop) (domain : Option ValueType)

def sides : Expr → List Expr
  | .neg e => e.sides
  | .binary .and l r | .binary .or l r => l.sides ++ r.sides
  | .binary _ l r => [l, r]
  | _ => []

theorem covers_beside (v w : Value) (covers : e.Covers read domain v) : e.Covers read domain (v.beside e.isText w) := by
  cases e with
  | text t => trivial
  | _ => exact covers

theorem order_holds {l r : Expr} (left : ∀ v, l.value? A env = some v → l.Covers read domain v)
    (right : ∀ v, r.value? A env = some v → r.Covers read domain v) (o : Ordering) (order : l.order? A env r = some o)
    (op : BinaryOp) (comparison : op.ordering? = some o) : (Expr.binary op l r).Holds read domain := by
  rw [Expr.order?] at order
  cases first : l.value? A env with
  | none => simp [first] at order
  | some v =>
    cases second : r.value? A env with
    | none => simp [first, second] at order
    | some w =>
      rw [first, second] at order
      exact (holds_comparison read domain comparison l r).mpr
        ⟨_, _, covers_beside read domain v w (left v first), covers_beside read domain w v (right w second), order⟩

theorem normalize_holds (e : Expr) (covers : ∀ t ∈ e.sides, ∀ v, t.value? A env = some v → t.Covers read domain v) :
    (e.truth? A env = some true → e.normalize.Holds read domain) ∧
      (e.truth? A env = some false → e.negate.Holds read domain) := by
  cases e with
  | truth b => cases b <;> simp [truth?, normalize, negate, Holds]
  | neg e =>
    have inner := normalize_holds e covers
    rw [truth?, normalize, negate]
    constructor
    · intro value
      exact inner.2 (by cases answer : e.truth? A env <;> simp_all)
    · intro value
      exact inner.1 (by cases answer : e.truth? A env <;> simp_all)
  | binary op l r =>
    by_cases comparison : ∃ o, op.ordering? = some o
    · obtain ⟨wanted, comparison⟩ := comparison
      have both : ∀ t ∈ [l, r], ∀ v, t.value? A env = some v → t.Covers read domain v := by
        cases op <;> simp_all [BinaryOp.ordering?, sides]
      have compared := order_holds A env read domain (both l (by simp)) (both r (by simp))
      rw [truth_comparison A env l r comparison]
      constructor
      · intro value
        have order : l.order? A env r = some wanted := by simpa using value
        have holds := compared wanted order op comparison
        cases op <;> simp_all [BinaryOp.ordering?, normalize]
      · intro value
        obtain ⟨o, order, other⟩ : ∃ o, l.order? A env r = some o ∧ o ≠ wanted := by simpa using value
        have holds := compared o order
        cases op <;> simp only [BinaryOp.ordering?, reduceCtorEq, Option.some.injEq] at comparison <;>
          subst comparison <;> rw [negate, Holds] <;> cases o
        · exact .inl (holds .lt rfl)
        · exact absurd rfl other
        · exact .inr (holds .gt rfl)
        · exact absurd rfl other
        · exact .inr (holds .eq rfl)
        · exact .inl (holds .gt rfl)
        · exact .inl (holds .lt rfl)
        · exact .inr (holds .eq rfl)
        · exact absurd rfl other
    · cases op
      case and =>
        have left := normalize_holds l fun t mem => covers t (mem_append_left _ mem)
        have right := normalize_holds r fun t mem => covers t (mem_append_right _ mem)
        rw [truth?, normalize, negate]
        cases answer : l.truth? A env with
        | none => simp
        | some b =>
          cases b with
          | true => exact ⟨fun value => ⟨left.1 answer, right.1 value⟩, fun value => .inr (right.2 value)⟩
          | false => exact ⟨by simp, fun _ => .inl (left.2 answer)⟩
      case or =>
        have left := normalize_holds l fun t mem => covers t (mem_append_left _ mem)
        have right := normalize_holds r fun t mem => covers t (mem_append_right _ mem)
        rw [truth?, normalize, negate]
        cases answer : l.truth? A env with
        | none => simp
        | some b =>
          cases b with
          | true => exact ⟨fun _ => .inl (left.1 answer), by simp⟩
          | false => exact ⟨fun value => .inr (right.1 value), fun value => ⟨left.2 answer, right.2 value⟩⟩
      all_goals simp [BinaryOp.ordering?, truth?] at comparison ⊢
  | _ => simp [truth?]

end Normal

end Expr

namespace Solver

variable (env : String → Value)

def readAll (r : Reference) (v : Value) : Prop := v = env r.name

def readOnly (self : String) (r : Reference) (v : Value) : Prop := r.name = self ∧ v = env self

def Sound (estimates : Estimates) : Prop := ∀ name s, estimates.get? name = some s → s.Admits (env name)

variable {known : Named Number} {domain : Option ValueType} {estimates : Estimates} {constraints : Constraints}
  {limit : Int}

theorem fix_known_holds (agrees : ∀ name x, known.get? name = some x → ∃ q, x.quantity? = some q ∧ env name = .number q)
    (holds : e.Holds (readAll env) domain) : (fixKnown known e).Holds (readAll env) domain := by
  refine Expr.replace_holds (readAll env) (readAll env) domain _ ?_ ?_ e holds
  · intro leaf other
    cases leaf <;> simp_all [Expr.isRef]
  · rintro r v rfl
    dsimp only
    cases found : known.get? r.name with
    | none => exact rfl
    | some x => exact agrees r.name x found

theorem fix_others_holds (self : String) (sound : Sound env estimates) (holds : e.Holds (readAll env) domain) :
    (fixOthers self estimates e).Holds (readOnly env self) domain := by
  refine Expr.replace_holds (readAll env) (readOnly env self) domain _ ?_ ?_ e holds
  · intro leaf other
    cases leaf <;> simp_all [Expr.isRef]
  · rintro r v rfl
    dsimp only
    split_ifs with same
    · exact ⟨same, congrArg env same⟩
    · cases found : estimates.get? r.name with
      | none => trivial
      | some s => exact sound r.name s found

structure Goal.Met (goal : Goal) : Prop where
  fits : (env goal.name).Fits goal.domain
  holds : goal.expr.Holds (readAll env) goal.domain

theorem estimate_admits {goal : Goal} (met : goal.Met env) (sound : Sound env estimates) :
    (estimate goal estimates).Admits (env goal.name) := by
  have replaced := fix_others_holds env goal.name sound met.holds
  have folded := Expr.fold_holds (readOnly env goal.name) goal.domain replaced
  exact Expr.to_set_admits (readOnly env goal.name) goal.domain (env goal.name) (fun _ _ read => read.2) met.fits folded

theorem round_complete {goals : List Goal} : ∀ estimates : Estimates, (round goals estimates).1 = [] →
    (round goals estimates).2 = estimates ∧
      ∀ goal ∈ goals, ∃ s, estimates.get? goal.name = some s ∧ s.unchanged (estimate goal estimates) = true := by
  induction goals with
  | nil => exact fun _ _ => ⟨rfl, by simp⟩
  | cons goal rest ih =>
    intro estimates unchanged
    rw [round] at unchanged ⊢
    dsimp only at unchanged ⊢
    split_ifs at unchanged ⊢ with same
    obtain ⟨fixed, all⟩ := ih estimates unchanged
    refine ⟨fixed, fun other mem => ?_⟩
    rcases mem_cons.mp mem with rfl | later
    · cases found : estimates.get? other.name with
      | none => simp [found] at same
      | some s => exact ⟨s, rfl, by simpa [found] using same⟩
    · exact all other later

section Invariant

variable (P : Estimates → Prop) (goals : List Goal)
  (step : ∀ goal ∈ goals, ∀ estimates, P estimates → P (estimates.set goal.name (estimate goal estimates)))

include step

theorem round_preserves (estimates : Estimates) (holds : P estimates) : P (round goals estimates).2 := by
  induction goals generalizing estimates with
  | nil => exact holds
  | cons goal rest ih =>
    have later := ih fun other mem => step other (mem_cons_of_mem goal mem)
    rw [round]
    split_ifs
    · exact later estimates holds
    · exact later _ (step goal mem_cons_self estimates holds)

theorem rounds_end {limit : ℕ} (estimates result : Estimates) (holds : P estimates)
    (found : (rounds goals limit estimates).estimates = some result) : P result ∧ (round goals result).1 = [] := by
  induction limit generalizing estimates with
  | zero => cases found
  | succ limit ih =>
    have next := round_preserves P goals step estimates holds
    rw [rounds] at found
    dsimp only at found
    split_ifs at found with unchanged
    · cases found
      have last := isEmpty_iff.mp unchanged
      exact ⟨next, (round_complete estimates last).1.symm ▸ last⟩
    · exact ih _ next found

end Invariant

theorem mem_goals (known : Named Number) (constraints : Constraints) (goal : Goal) :
    goal ∈ goals known constraints ↔ ∃ c, known.get? goal.name = none ∧ constraints.get? goal.name = some c ∧
      goal = ⟨goal.name, domainOf c.type, fixKnown known c.expr.normalize⟩ := by
  constructor
  · intro mem
    obtain ⟨name, -, made⟩ := mem_filterMap.mp mem
    cases fixed : known.get? name with
    | some x => simp [fixed] at made
    | none =>
      cases found : constraints.get? name with
      | none => simp [fixed, found] at made
      | some c =>
        simp only [fixed, found, Option.some.injEq] at made
        subst made
        exact ⟨c, fixed, found, rfl⟩
  · rintro ⟨c, fixed, found, same⟩
    refine mem_filterMap.mpr ⟨goal.name, ?_, ?_⟩
    · exact (Named.mem_names constraints goal.name).mpr ⟨c, Named.mem_of_get found⟩
    · rw [fixed, found]
      exact congrArg some same.symm

theorem goals_met (agrees : ∀ name x, known.get? name = some x → ∃ q, x.quantity? = some q ∧ env name = .number q)
    (fits : ∀ name c, constraints.get? name = some c → (env name).Fits (domainOf c.type))
    (holds : ∀ name c, constraints.get? name = some c → c.expr.normalize.Holds (readAll env) (domainOf c.type)) :
    ∀ goal ∈ goals known constraints, goal.Met env := by
  intro goal mem
  obtain ⟨c, -, found, same⟩ := (mem_goals known constraints goal).mp mem
  rw [same]
  exact ⟨fits goal.name c found, fix_known_holds env agrees (holds goal.name c found)⟩

theorem known_sound (agrees : ∀ name x, known.get? name = some x → ∃ q, x.quantity? = some q ∧ env name = .number q) :
    Sound env (known.map fun (name, v) => (name, .ofValues [v])) := by
  intro name s found
  rw [Named.get_map (fun v => ValueSet.ofValues [v]), Option.map_eq_some_iff] at found
  obtain ⟨x, found, rfl⟩ := found
  obtain ⟨q, defined, same⟩ := agrees name x found
  rw [same]
  exact (ValueSet.has_of_values _ _ _).mpr ⟨x, mem_singleton.mpr rfl, q, defined, rfl⟩

theorem satisfy_iff :
    satisfy known constraints limit = .ok estimates ↔ (solve known constraints limit).estimates = some estimates := by
  unfold satisfy outcome
  split
  · next result found => rw [found, Except.ok.injEq, Option.some.injEq]
  · next none => simp [none]

theorem satisfy_admits (solved : satisfy known constraints limit = .ok estimates)
    (agrees : ∀ name x, known.get? name = some x → ∃ q, x.quantity? = some q ∧ env name = .number q)
    (fits : ∀ name c, constraints.get? name = some c → (env name).Fits (domainOf c.type))
    (holds : ∀ name c, constraints.get? name = some c → c.expr.normalize.Holds (readAll env) (domainOf c.type)) :
    Sound env estimates := by
  have met := goals_met env agrees fits holds
  refine (rounds_end (Sound env) _ (fun goal mem estimates sound => ?_) _ _ (known_sound env agrees)
    ((satisfy_iff).mp solved)).1
  exact Named.forall_set sound goal.name (estimate_admits env (met goal mem) sound)

section Solved

variable (known : Named Number) (constraints : Constraints) (limit : Int) (estimates : Estimates)
  (solved : satisfy known constraints limit = .ok estimates) (name : String)

include solved

theorem satisfy_known (x : Number) (fixed : known.get? name = some x) : estimates.get? name = some (.ofValues [x]) := by
  refine (rounds_end (fun estimates => estimates.get? name = some (.ofValues [x]))
    _ (fun goal mem estimates found => ?_) _ _ ?_
    ((satisfy_iff).mp solved)).1
  · obtain ⟨-, free, -⟩ := (mem_goals known constraints goal).mp mem
    rwa [Named.get_set_other _ _ (by rintro rfl; rw [fixed] at free; cases free)]
  · rw [Named.get_map (fun v => ValueSet.ofValues [v]), fixed]
    rfl

variable {c : Constraint}

theorem satisfy_fixed (constrained : constraints.get? name = some c) (free : known.get? name = none) :
    ∃ s, estimates.get? name = some s ∧
      s.unchanged (estimate ⟨name, domainOf c.type, fixKnown known c.expr.normalize⟩ estimates) = true := by
  have ended := (rounds_end (fun _ => True) _ (fun _ _ _ _ => trivial) _ _ trivial ((satisfy_iff).mp solved)).2
  exact (round_complete _ ended).2 ⟨name, domainOf c.type, fixKnown known c.expr.normalize⟩
    ((mem_goals known constraints _).mpr ⟨c, free, constrained, rfl⟩)

theorem satisfy_complete (constrained : constraints.get? name = some c) : ∃ s, estimates.get? name = some s := by
  cases fixed : known.get? name with
  | some x => exact ⟨_, satisfy_known known constraints limit estimates solved name x fixed⟩
  | none =>
    obtain ⟨s, found, -⟩ := satisfy_fixed known constraints limit estimates solved name constrained fixed
    exact ⟨s, found⟩

end Solved

end Solver

def Arithmetic.exact : Arithmetic
  | .add, p, q => p.add? q
  | .sub, p, q => p.sub? q
  | _, _, _ => none

namespace Expr

-- Every operand of a sum is a constant or a whole number.
def WholeOperands (A : Arithmetic) (env : String → Value) : Expr → Prop
  | .neg e => e.WholeOperands A env
  | .binary op l r =>
    l.WholeOperands A env ∧ r.WholeOperands A env ∧ (op = .add ∨ op = .sub → ∀ e ∈ [l, r],
      (∃ x, e = .num x) ∨ ∀ q, e.value? A env = some (.number q) → q.IsWhole)
  | _ => True

theorem exact_sum {op : BinaryOp} {u w v : Value} (sum : Value.combine? .exact op u w = some v) :
    Value.Sum op u w v := by
  cases u <;> cases w <;> simp_all [Value.combine?, Value.Sum]
  obtain ⟨r, result, rfl⟩ := sum
  refine ⟨r, ?_, rfl⟩
  cases op <;> simp_all [Arithmetic.exact, Quantity.combine?]

theorem char_whole {c : Char} : (Quantity.finite c.toNat).IsWhole := by
  refine ⟨c.toNat, by simp, ?_⟩
  have bound : c.toNat < 1114112 := by
    rcases c.valid with low | high
    · exact lt_trans low (by decide)
    · exact high.2
  rw [maxEnumeration, abs_of_nonneg (Int.natCast_nonneg _)]
  omega

theorem operand_beside (A : Arithmetic) (env : String → Value) (domain : Option ValueType) (v w : Value)
    (value : e.value? A env = some v) (operand : isIntegralDomain domain = true →
      (∃ x, e = .num x) ∨ ∀ q, e.value? A env = some (.number q) → q.IsWhole) :
    e.Operand domain (v.beside e.isText w) := by
  by_cases constant : ∃ x, e = .num x
  · exact .inl constant
  · refine .inr fun integral q same => ?_
    have whole := (operand integral).resolve_left constant
    cases e with
    | text t =>
      cases value
      rw [isText] at same
      unfold Value.beside at same
      split at same <;> simp_all
      split at same <;> simp_all
      exact same ▸ char_whole
    | _ => exact whole q (value.trans (congrArg some same))

theorem exact_covers (env : String → Value) (domain : Option ValueType) {e : Expr}
    (whole : isIntegralDomain domain = true → e.WholeOperands .exact env) {v : Value}
    (value : e.value? .exact env = some v) : e.Covers (Solver.readAll env) domain v := by
  cases e with
  | num x =>
    rw [value?, Option.map_eq_some_iff] at value
    obtain ⟨q, defined, rfl⟩ := value
    exact ⟨q, defined, rfl⟩
  | text t => trivial
  | ref r =>
    cases value
    exact rfl
  | among s => simp [value?] at value
  | truth b => trivial
  | neg e => simp [value?] at value
  | binary op l r =>
    rw [value?] at value
    split_ifs at value with arithmetic
    by_cases summed : op = .add ∨ op = .sub
    · cases first : l.value? .exact env with
      | none => simp [first] at value
      | some u =>
        cases second : r.value? .exact env with
        | none => simp [first, second] at value
        | some w =>
          simp only [first, second] at value
          refine (covers_sum _ domain summed l r v).mpr ⟨_, _,
            covers_beside _ domain u w (exact_covers env domain (fun integral => (whole integral).1) first),
            covers_beside _ domain w u (exact_covers env domain (fun integral => (whole integral).2.1) second),
            operand_beside .exact env domain u w first fun integral => (whole integral).2.2 summed l (by simp),
            operand_beside .exact env domain w u second fun integral => (whole integral).2.2 summed r (by simp),
            exact_sum value⟩
    · rw [Covers, if_neg summed]
      exact arithmetic

theorem whole_sides (A : Arithmetic) (env : String → Value) (e : Expr) (whole : e.WholeOperands A env) :
    ∀ t ∈ e.sides, t.WholeOperands A env := by
  cases e with
  | neg e => exact whole_sides A env e whole
  | binary op l r =>
    cases op
    case and | or =>
      intro t mem
      rcases mem_append.mp mem with first | second
      · exact whole_sides A env l whole.1 t first
      · exact whole_sides A env r whole.2.1 t second
    all_goals
      intro t mem
      simp only [sides, mem_cons, not_mem_nil, or_false] at mem
      rcases mem with rfl | rfl
      · exact whole.1
      · exact whole.2.1
  | _ => simp [sides]

end Expr

-- Over integers the solver is sound where sums are over integers: an assignment that agrees with the known values and
-- makes every constraint true has its values in the estimates.
theorem satisfy_admits_whole_sums (known : Named Number) (constraints : Constraints) (limit : Int)
    (estimates : Estimates) (env : String → Quantity) (solved : Solver.satisfy known constraints limit = .ok estimates)
    (agrees : ∀ name x, known.get? name = some x → x.quantity? = some (env name))
    (integral : ∀ name c, constraints.get? name = some c → isIntegralDomain c.type = true → (env name).IsWhole)
    (sums : ∀ name c, constraints.get? name = some c → isIntegralDomain c.type = true →
      c.expr.WholeOperands .exact fun n => .number (env n))
    (satisfied : ∀ name c, constraints.get? name = some c →
      (c.expr.truth? .exact fun n => .number (env n)) = some true)
    (name : String) (c : Constraint) (constrained : constraints.get? name = some c) (x : Number)
    (value : x.quantity? = some (env name)) :
    ∃ s, estimates.get? name = some s ∧ s.member x = ⟨true, true⟩ := by
  have domains : ∀ type : Option ValueType, isIntegralDomain (Solver.domainOf type) = isIntegralDomain type := by
    intro type
    cases type <;> rfl
  have sound := Solver.satisfy_admits (fun n => .number (env n)) solved
    (fun name x found => ⟨env name, agrees name x found, rfl⟩)
    (fun name c found whole q same => by
      cases same
      exact integral name c found (domains c.type ▸ whole))
    (fun name c found => by
      refine (Expr.normalize_holds .exact _ _ _ c.expr fun t member v evaluated => ?_).1 (satisfied name c found)
      refine Expr.exact_covers _ _ (fun whole => ?_) evaluated
      exact Expr.whole_sides _ _ c.expr (sums name c found (domains c.type ▸ whole)) t member)
  obtain ⟨s, found⟩ := Solver.satisfy_complete known constraints limit estimates solved name constrained
  exact ⟨s, found, ValueSet.member_of_admits value (sound name s found)⟩

def doubled (type : ValueType) : Constraints :=
  [("x", ⟨.eq (.ref ⟨"x", some .int⟩) (.binary .add (.ref ⟨"y", some type⟩) (.ref ⟨"y", some type⟩)), some .int⟩),
    ("y", ⟨.and (.gt (.ref ⟨"y", some type⟩) (.num (.finite (1 / 4))))
      (.lt (.ref ⟨"y", some type⟩) (.num (.finite (7 / 4)))), some type⟩)]

def doubling (y : ℚ) (name : String) : Quantity := if name = "x" then .finite (y + y) else .finite y

theorem doubled_members {P : String → Constraint → Prop} (type : ValueType)
    (all : ∀ entry ∈ doubled type, P entry.1 entry.2) (name : String) (c : Constraint)
    (found : (doubled type).get? name = some c) : P name c :=
  all (name, c) (Named.mem_of_get found)

set_option maxRecDepth 10000 in
theorem satisfy_doubled_integer : ∃ estimates s, Solver.satisfy [] (doubled .int) 64 = .ok estimates ∧
    estimates.get? "x" = some s ∧ s.member (.finite 2) = ⟨true, true⟩ := by
  have succeeds : (Solver.satisfy [] (doubled .int) 64).isOk = true := by decide +kernel
  cases solved : Solver.satisfy [] (doubled .int) 64 with
  | error failure => simp [solved, Except.isOk, Except.toBool] at succeeds
  | ok estimates =>
    have two : (doubling 1 "x").IsWhole := ⟨2, by norm_num [doubling], by norm_num [maxEnumeration]⟩
    have one : (doubling 1 "y").IsWhole := ⟨1, by simp [doubling], by norm_num [maxEnumeration]⟩
    obtain ⟨s, found, member⟩ := satisfy_admits_whole_sums [] (doubled .int) 64 estimates (doubling 1) solved
      (by simp [Named.get?])
      (doubled_members .int (by simpa [doubled] using ⟨fun _ => two, fun _ => one⟩))
      (doubled_members .int (by simp [doubled, Expr.WholeOperands, Expr.value?, one]))
      (doubled_members .int (by decide +kernel)) "x" _ rfl (.finite 2) (by decide +kernel)
    exact ⟨estimates, s, rfl, found, member⟩

-- Beside a name of a continuous type the estimate of an integer leaves out a value that meets every constraint.
set_option maxRecDepth 10000 in
theorem satisfy_doubled_half : ∃ estimates s, Solver.satisfy [] (doubled .double) 64 = .ok estimates ∧
    (∀ name c, (doubled .double).get? name = some c →
      (c.expr.truth? .exact fun n => .number (doubling (1 / 2) n)) = some true) ∧
    estimates.get? "x" = some s ∧ doubling (1 / 2) "x" = .finite 1 ∧ s.member (.finite 1) = ⟨false, true⟩ := by
  have answer : ((Solver.satisfy [] (doubled .double) 64).toOption.bind fun estimates =>
      (estimates.get? "x").map (·.member (.finite 1))) = some ⟨false, true⟩ := by decide +kernel
  cases solved : Solver.satisfy [] (doubled .double) 64 with
  | error failure => simp [solved, Except.toOption] at answer
  | ok estimates =>
    rw [solved] at answer
    obtain ⟨s, found, member⟩ := Option.map_eq_some_iff.mp answer
    exact ⟨estimates, s, rfl, doubled_members .double (by decide +kernel), found, by decide +kernel, member⟩

end Blockwork
