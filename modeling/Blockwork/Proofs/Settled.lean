import Blockwork.Proofs.SolverSound

set_option autoImplicit false

namespace Blockwork

open List Number

namespace ValueSet

mutual

def Defined : ValueSet → Prop
  | .values vs => ∀ x ∈ vs, x ≠ .nan
  | .union ms | .inter ms => AllDefined ms
  | _ => True

def AllDefined : List ValueSet → Prop
  | [] => True
  | m :: ms => m.Defined ∧ AllDefined ms

end

end ValueSet

namespace Number

theorem mem_of_distinct {x : Number} {vs : List Number} (mem : x ∈ distinct vs) : x ∈ vs := by
  unfold distinct at mem
  split_ifs at mem
  · exact mem
  · exact mem_of_distinct_from [] mem

theorem not_nan_of_eq {a b : Number} (same : a.eq b = true) : b ≠ .nan := by
  rintro rfl
  cases a <;> cases same

theorem agree_contained {vs ws : List Number} (agree : agreeInOrder eq vs ws = true) :
    (vs.all fun v => ws.any (eq · v)) = true := by
  induction vs generalizing ws with
  | nil => rfl
  | cons v vs ih =>
    cases ws with
    | nil => cases agree
    | cons w ws =>
      rw [agreeInOrder, Bool.and_eq_true] at agree
      rw [all_cons, any_cons, agree.1, Bool.true_or, Bool.true_and]
      have rest := ih agree.2
      simp only [all_eq_true, any_cons, Bool.or_eq_true] at rest ⊢
      exact fun x mem => .inr (rest x mem)

theorem matching_defined (vs ws : List Number) (same : matching eq vs ws = true) : ∀ x ∈ vs, x ≠ .nan := by
  rw [matching, Bool.and_eq_true, Bool.or_eq_true, or_iff_right_of_imp agree_contained, all_eq_true] at same
  intro x mem
  obtain ⟨w, -, equal⟩ := any_eq_true.mp (same.2 x mem)
  exact not_nan_of_eq equal

end Number

namespace ValueSet

mutual

theorem unchanged_defined (s t : ValueSet) (same : s.unchanged t = true) : s.Defined := by
  cases s with
  | values vs =>
    cases t with
    | values ws => exact matching_defined vs ws same
    | _ => cases same
  | union ms =>
    cases t with
    | union ns => exact all_unchanged_defined same
    | _ => cases same
  | inter ms =>
    cases t with
    | inter ns => exact all_unchanged_defined same
    | _ => cases same
  | _ => trivial

theorem all_unchanged_defined {ms ns : List ValueSet} (same : allUnchanged ms ns = true) : AllDefined ms := by
  cases ms with
  | nil => trivial
  | cons m ms =>
    cases ns with
    | nil => cases same
    | cons n ns =>
      rw [allUnchanged, Bool.and_eq_true] at same
      exact ⟨unchanged_defined m n same.1, all_unchanged_defined same.2⟩

end

end ValueSet

theorem Interval.steps_defined {last x : Number} {n : ℕ} : ∀ v : Number, x ∈ steps last n v → x ≠ .nan := by
  induction n with
  | zero => simp [steps]
  | succ n hyp =>
    intro v mem
    rw [steps] at mem
    by_cases inside : v.le last = true
    · rw [if_pos inside] at mem
      rcases mem_cons.mp mem with rfl | later
      · obtain ⟨p, q, defined, -⟩ := le_defined inside
        rintro rfl
        cases defined
      · exact hyp _ later
    · rw [if_neg inside] at mem
      cases mem

namespace ValueSet

theorem all_defined_iff (ms : List ValueSet) : AllDefined ms ↔ ∀ m ∈ ms, m.Defined := by
  induction ms with
  | nil => simp [AllDefined]
  | cons m ms ih => simp [AllDefined, ih]

theorem defined_made (s : ValueSet) : s.Made Defined ↔ s.Defined := made_self all_defined_iff all_defined_iff s

theorem enumerate_defined {domain : Option ValueType} {s : ValueSet} (defined : s.Defined) {vs : List Number}
    (listed : s.enumerate domain = .ok vs) : ∀ x ∈ vs, x ≠ .nan := by
  rw [← defined_made] at defined
  revert defined
  refine enumerate_induction (motive := fun s vs => s.Made Defined → ∀ x ∈ vs, x ≠ .nan) (by simp)
    (fun _ defined => defined)
    (fun i vs listed _ => ?_) (fun ms vs _ origin defined x mem => ?_)
      (fun ms m ws others mem all defined x present => ?_) listed
  · unfold Interval.enumerate at listed
    split_ifs at listed
    cases listed
    exact fun x mem => Interval.steps_defined _ mem
  · obtain ⟨m, inside, ws, back, here⟩ := origin x (mem_of_distinct mem)
    exact back ((all_made_iff _ ms).mp defined m inside) x here
  · exact mem ((all_made_iff _ ms).mp defined m ((all m).mp mem_cons_self)) x (mem_of_mem_filter present)

end ValueSet

namespace Solver

-- An undefined number is never found again, so that solving ends only without one.
theorem satisfy_defined {constraints : Constraints} {limit : Int} {estimates : Estimates}
    (solved : satisfy [] constraints limit = .ok estimates) (name : String) (s : ValueSet)
    (found : estimates.get? name = some s) : s.Defined := by
  have named :=
    (rounds_end (fun estimates => ∀ name s, estimates.get? name = some s → ∃ c, constraints.get? name = some c) _
    (fun goal mem estimates named => ?_) _ _ (by simp [Named.get?]) ((satisfy_iff).mp solved)).1 name s found
  · obtain ⟨c, constrained⟩ := named
    obtain ⟨t, same, again⟩ := satisfy_fixed [] constraints limit estimates solved name constrained rfl
    rw [found] at same
    cases same
    exact s.unchanged_defined _ again
  · obtain ⟨c, -, constrained, -⟩ := (mem_goals [] constraints goal).mp mem
    exact Named.forall_set named goal.name ⟨c, constrained⟩

end Solver

namespace Number

theorem min_nan (a b : Number) (undefined : a.min b = .nan) : a = .nan ∨ b = .nan := by
  unfold min at undefined
  split_ifs at undefined <;> cases a <;> cases b <;> simp_all [isNaN]

theorem max_nan (a b : Number) (undefined : a.max b = .nan) : a = .nan ∨ b = .nan := by
  unfold max at undefined
  split_ifs at undefined <;> cases a <;> cases b <;> simp_all [isNaN]

-- The least or greatest of numbers is undefined only if one of them is and none is the end of the line.
theorem foldl_nan (f : Number → Number → Number) (limit : Number) (proper : limit ≠ .nan)
    (absorbs : ∀ a b, a = limit ∨ b = limit → f a b = limit) (origin : ∀ a b, f a b = .nan → a = .nan ∨ b = .nan)
    (vs : List Number) : ∀ v : Number, vs.foldl f v = .nan → .nan ∈ v :: vs ∧ limit ∉ v :: vs := by
  induction vs with
  | nil =>
    intro v undefined
    rw [foldl_nil] at undefined
    subst undefined
    simpa using proper
  | cons w vs hyp =>
    intro v undefined
    obtain ⟨mem, absent⟩ := hyp (f v w) undefined
    rw [mem_cons, not_or] at absent
    constructor
    · rcases mem_cons.mp mem with here | later
      · rcases origin v w here.symm with rfl | rfl <;> simp
      · exact mem_cons_of_mem _ (mem_cons_of_mem _ later)
    · intro present
      rcases mem_cons.mp present with rfl | present
      · exact absent.1 (absorbs _ w (.inl rfl)).symm
      · rcases mem_cons.mp present with rfl | later
        · exact absent.1 (absorbs v _ (.inr rfl)).symm
        · exact absent.2 later

theorem of_rat_defined (q : ℚ) : ofRat q ≠ .nan := by
  intro undefined
  have defined := quantity_of_rat q
  rw [undefined] at defined
  cases defined

-- A sum that is undefined is one of opposite infinities, and each of them stays beside a finite number.
theorem add_nan {x y u : Number} (w : Number) (a b : ℚ) (left : u.quantity? = some (.finite a))
    (right : w.quantity? = some (.finite b)) (defined : x ≠ .nan) (defined' : y ≠ .nan) (undefined : x.add y = .nan) :
    (u.add y = .negInf ∨ x.add w = .negInf) ∧ (u.add y = .posInf ∨ x.add w = .posInf) := by
  have rounds := of_rat_defined
  cases x <;> cases y <;> simp_all [add] <;> cases u <;> cases w <;> simp_all

end Number

namespace ValueSet

variable {op : BinaryOp} {domain : Option ValueType}

theorem combine_nan {x y u w : Number} {a b : ℚ} (left : u.quantity? = some (.finite a))
    (right : w.quantity? = some (.finite b)) (defined : x ≠ .nan) (defined' : y ≠ .nan)
    (undefined : combine op x y = .nan) :
    (combine op u y = .negInf ∨ combine op x w = .negInf) ∧ (combine op u y = .posInf ∨ combine op x w = .posInf) := by
  cases op
  case add => exact add_nan w a b left right defined defined' undefined
  all_goals
    refine add_nan w.neg a (-b) left ?_ defined ?_ undefined
    · rw [quantity_neg, right]
      rfl
    · cases y <;> simp_all [neg]
      split_ifs <;> simp

theorem cross_values_nan {domain : Option ValueType} {op : BinaryOp} {a b : ValueSet} {p q : ℚ}
    (leftListed : ∀ vs, a.enumerate domain = .ok vs → (ValueSet.values vs).Admits (.number (.finite p)))
    (rightListed : ∀ vs, b.enumerate domain = .ok vs → (ValueSet.values vs).Admits (.number (.finite q)))
    (left : a.Defined) (right : b.Defined) {vs : List Number} (crossed : crossValues? domain op a b = some vs)
    (undefined : .nan ∈ vs) : .negInf ∈ vs ∧ .posInf ∈ vs := by
  unfold crossValues? at crossed
  split_ifs at crossed
  split at crossed
  · next av bv listed listed' =>
      split_ifs at crossed
      cases crossed
      obtain ⟨x, mem, undefined⟩ := mem_flatMap.mp undefined
      obtain ⟨y, mem', undefined⟩ := mem_map.mp undefined
      obtain ⟨u, inside, finite⟩ := (has_values_iff _ _ av).mp (leftListed av listed)
      obtain ⟨w, inside', finite'⟩ := (has_values_iff _ _ bv).mp (rightListed bv listed')
      have sums : ∀ x ∈ av, ∀ y ∈ bv, combine op x y ∈ av.flatMap fun x => bv.map fun y => combine op x y :=
        fun x mem y mem' => mem_flatMap.mpr ⟨x, mem, mem_map.mpr ⟨y, mem', rfl⟩⟩
      have first := sums u inside y mem'
      have second := sums x mem w inside'
      obtain ⟨low, high⟩ := combine_nan finite finite' (enumerate_defined left listed x mem)
        (enumerate_defined right listed' y mem') undefined
      constructor
      · rcases low with low | low
        · exact low ▸ first
        · exact low ▸ second
      · rcases high with high | high
        · exact high ▸ first
        · exact high ▸ second
  · cases crossed

theorem cross_extents_defined {a b : Extent} (bounded : (crossExtents domain op a b).extent.bounded = true) :
    (crossExtents domain op a b).extent.lo ≠ .nan ∧ (crossExtents domain op a b).extent.hi ≠ .nan := by
  unfold crossExtents at bounded ⊢
  by_cases unbounded : (!a.bounded || !b.bounded) = true
  · rw [if_pos unbounded] at bounded
    cases bounded
  rw [if_neg unbounded] at bounded ⊢
  generalize (if op = .add then (a.lo.add b.lo, a.hi.add b.hi) else (a.lo.sub b.hi, a.hi.sub b.lo)) = ends at bounded ⊢
  obtain ⟨lo, hi⟩ := ends
  dsimp only at bounded ⊢
  by_cases undefined : (lo.isNaN || hi.isNaN) = true
  · rw [if_pos undefined] at bounded
    cases bounded
  rw [if_neg undefined]
  constructor
  · rintro rfl
    exact undefined rfl
  · rintro rfl
    exact undefined (Bool.or_true _)

theorem cross_extent_defined {a b : ValueSet} {p q : ℚ}
    (leftListed : ∀ vs, a.enumerate domain = .ok vs → (ValueSet.values vs).Admits (.number (.finite p)))
    (rightListed : ∀ vs, b.enumerate domain = .ok vs → (ValueSet.values vs).Admits (.number (.finite q)))
    (left : a.Defined) (right : b.Defined) (bounded : (crossAddSub domain op a b).extent.bounded = true) :
    (crossAddSub domain op a b).extent.lo ≠ .nan ∧ (crossAddSub domain op a b).extent.hi ≠ .nan := by
  unfold crossAddSub at bounded ⊢
  by_cases void : (a.isEmpty || b.isEmpty) = true
  · rw [if_pos void] at bounded
    cases bounded
  rw [if_neg void] at bounded ⊢
  cases crossed : crossValues? domain op a b with
  | none =>
    rw [crossed] at bounded
    exact cross_extents_defined bounded
  | some vs =>
    simp only [crossed, ofValues] at bounded ⊢
    have infinite := fun undefined => cross_values_nan leftListed rightListed left right crossed
      (Number.mem_of_distinct undefined)
    have kept : ∀ limit : Number, limit = .negInf ∨ limit = .posInf → limit ∈ vs → limit ∈ Number.distinct vs := by
      rintro limit ends mem
      obtain ⟨q, defined⟩ : ∃ q, limit.quantity? = some q := by rcases ends with rfl | rfl <;> exact ⟨_, rfl⟩
      obtain ⟨x, inside, same⟩ := (Number.distinct_quantity q vs).mpr ⟨limit, mem, defined⟩
      have equal : x = limit := by
        rcases ends with rfl | rfl <;> cases defined <;> cases x <;> simp_all
      exact equal ▸ inside
    cases listed : Number.distinct vs with
    | nil =>
      rw [listed] at bounded
      cases bounded
    | cons v rest =>
      rw [listed] at infinite kept
      constructor
      · intro undefined
        obtain ⟨mem, absent⟩ := Number.foldl_nan Number.min .negInf (by simp) (by simp +contextual [Number.min])
          Number.min_nan rest v undefined
        exact absent (kept .negInf (.inl rfl) (infinite mem).1)
      · intro undefined
        obtain ⟨mem, absent⟩ := Number.foldl_nan Number.max .posInf (by simp) (by simp +contextual [Number.max])
          Number.max_nan rest v undefined
        exact absent (kept .posInf (.inr rfl) (infinite mem).2)

end ValueSet

end Blockwork
