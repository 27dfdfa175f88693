import Blockwork.Proofs.Reduction

set_option autoImplicit false

namespace Blockwork

open List Number ValueSet

variable {q : Quantity}

-- A bound that is infinite or so small that integers near it are exact.
def Number.IsModerate (x : Number) : Prop :=
  x = .negInf ∨ x = .posInf ∨ ∃ a, x.quantity? = some (.finite a) ∧ |a| < 2 ^ 53

namespace Interval

def IsModerate (i : Interval) : Prop := i.lo.IsModerate ∧ i.hi.IsModerate

def Above (i : Interval) (q : Quantity) : Prop := ∀ p, i.lo.quantity? = some p → p < q ∨ (p = q ∧ i.loExclusive = false)

def Below (i : Interval) (q : Quantity) : Prop := ∀ p, i.hi.quantity? = some p → q < p ∨ (q = p ∧ i.hiExclusive = false)

variable (i : Interval)

theorem first_exact {a : ℚ} (lower : i.lo.quantity? = some (.finite a)) (small : |a| < 2 ^ 53) :
    ∃ m : ℤ, i.first.quantity? = some (.finite m) ∧ |m| ≤ 2 ^ 53 ∧ ∀ k : ℤ, i.Above (.finite k) ↔ m ≤ k := by
  have ceil := quantity_ceil lower
  have same := eq_iff i.lo _ ceil lower
  have position : ∀ k : ℤ, i.Above (.finite k) ↔ a < k ∨ (a = k ∧ i.loExclusive = false) := by
    intro k
    simp only [Above, lower, Option.some.injEq, forall_eq', Quantity.finite_lt_finite, Quantity.finite.injEq]
  rw [first]
  by_cases shifted : (i.loExclusive && i.lo.ceil.eq i.lo) = true
  · rw [if_pos shifted]
    rw [Bool.and_eq_true, same, Quantity.finite.injEq] at shifted
    obtain ⟨n, rfl⟩ : ∃ n : ℤ, (n : ℚ) = a := ⟨_, shifted.2⟩
    rw [Int.ceil_intCast] at ceil
    have inside : |n| < 2 ^ 53 := by exact_mod_cast small
    have one : one.quantity? = some (.finite ((1 : ℤ) : ℚ)) := by simp [one]
    have fits : |n + 1| ≤ 2 ^ 53 := by
      rw [abs_lt] at inside
      rw [abs_le]
      omega
    refine ⟨n + 1, quantity_add _ ceil one (Quantity.add_int n 1 rfl fits), fits, fun k => ?_⟩
    rw [position, shifted.1, Int.add_one_le_iff]
    simp
  · rw [if_neg shifted]
    obtain ⟨above, below⟩ := abs_lt.mp small
    have floor : -2 ^ 53 ≤ ⌈a⌉ := by exact_mod_cast above.le.trans (Int.le_ceil a)
    have roof : ⌈a⌉ ≤ 2 ^ 53 := Int.ceil_le.mpr (by exact_mod_cast below.le)
    refine ⟨⌈a⌉, ceil, abs_le.mpr ⟨floor, roof⟩, fun k => ?_⟩
    rw [position, Int.ceil_le, le_iff_lt_or_eq]
    refine or_congr_right ⟨And.left, fun equal => ⟨equal, ?_⟩⟩
    by_contra exclusive
    refine shifted ?_
    rw [Bool.and_eq_true, same, Quantity.finite.injEq, equal, Int.ceil_intCast]
    exact ⟨by simpa using exclusive, rfl⟩

theorem last_exact {b : ℚ} (upper : i.hi.quantity? = some (.finite b)) (small : |b| < 2 ^ 53) :
    ∃ m : ℤ, i.last.quantity? = some (.finite m) ∧ m < 2 ^ 53 ∧ ∀ k : ℤ, i.Below (.finite k) ↔ k ≤ m := by
  have floor := quantity_floor upper
  have same := eq_iff i.hi _ floor upper
  have position : ∀ k : ℤ, i.Below (.finite k) ↔ k < b ∨ (k = b ∧ i.hiExclusive = false) := by
    intro k
    simp only [Below, upper, Option.some.injEq, forall_eq', Quantity.finite_lt_finite, Quantity.finite.injEq]
  rw [last]
  by_cases shifted : (i.hiExclusive && i.hi.floor.eq i.hi) = true
  · rw [if_pos shifted]
    rw [Bool.and_eq_true, same, Quantity.finite.injEq] at shifted
    obtain ⟨n, rfl⟩ : ∃ n : ℤ, (n : ℚ) = b := ⟨_, shifted.2⟩
    rw [Int.floor_intCast] at floor
    have inside : |n| < 2 ^ 53 := by exact_mod_cast small
    have one : one.quantity? = some (.finite ((1 : ℤ) : ℚ)) := by simp [one]
    rw [abs_lt] at inside
    have fits : |n - 1| ≤ 2 ^ 53 := by
      rw [abs_le]
      omega
    refine ⟨n - 1, quantity_sub floor one (Quantity.sub_int n 1 _ rfl fits), by omega, fun k => ?_⟩
    rw [position, shifted.1, Int.le_sub_one_iff]
    simp
  · rw [if_neg shifted]
    refine ⟨⌊b⌋, floor, Int.floor_lt.mpr (by exact_mod_cast (abs_lt.mp small).2), fun k => ?_⟩
    rw [position, Int.le_floor, le_iff_lt_or_eq]
    refine or_congr_right ⟨And.left, fun equal => ⟨equal, ?_⟩⟩
    by_contra exclusive
    refine shifted ?_
    rw [Bool.and_eq_true, same, Quantity.finite.injEq, ← equal, Int.floor_intCast]
    exact ⟨by simpa using exclusive, rfl⟩

theorem steps_between {last : Number} (l m : ℤ) (lastEq : last.quantity? = some (.finite l)) (top : l < 2 ^ 53)
    (bottom : -2 ^ 53 ≤ m) {count : ℕ} : ∀ (v : Number) (k : ℤ), v.quantity? = some (.finite k) → m ≤ k →
      ∀ x ∈ steps last count v, ∃ j : ℤ, x.quantity? = some (.finite j) ∧ m ≤ j ∧ j ≤ l := by
  induction count with
  | zero => simp [steps]
  | succ count ih =>
    intro v k here above x mem
    rw [steps] at mem
    by_cases inside : v.le last = true
    · rw [if_pos inside] at mem
      have within := (le_iff here lastEq).mp inside
      rw [Quantity.finite_le_finite] at within
      have order : k ≤ l := by exact_mod_cast within
      rcases mem_cons.mp mem with rfl | later
      · exact ⟨k, here, above, order⟩
      · have one : one.quantity? = some (.finite ((1 : ℤ) : ℚ)) := by simp [one]
        have fits : |k + 1| ≤ 2 ^ 53 := by
          rw [abs_le]
          omega
        have next := quantity_add .one here one (Quantity.add_int k 1 rfl fits)
        exact ih (v.add .one) (k + 1) next (by omega) x later
    · rw [if_neg inside] at mem
      cases mem

variable {domain : Option ValueType} {vs : List Number} {x : Number}

theorem moderate_ends (moderate : i.IsModerate) (listed : i.enumerate domain = .ok vs) :
    (∃ a, i.lo.quantity? = some (.finite a) ∧ |a| < 2 ^ 53) ∧ ∃ b, i.hi.quantity? = some (.finite b) ∧
      |b| < 2 ^ 53 := by
  unfold enumerate at listed
  split_ifs at listed with infinite
  simp only [isFinite, Bool.not_eq_true', Bool.and_eq_false_iff, not_or, Bool.not_eq_false] at infinite
  constructor
  · rcases moderate.1 with same | same | finite
    · simp [same, isInfinite] at infinite
    · simp [same, isInfinite] at infinite
    · exact finite
  · rcases moderate.2 with same | same | finite
    · simp [same, isInfinite] at infinite
    · simp [same, isInfinite] at infinite
    · exact finite

theorem listed_inside (moderate : i.IsModerate) (listed : i.enumerate domain = .ok vs) (mem : x ∈ vs)
    (defined : x.quantity? = some q) : i.Holds q := by
  obtain ⟨⟨a, lower, small⟩, ⟨b, upper, small'⟩⟩ := i.moderate_ends moderate listed
  obtain ⟨m, first, fits, above⟩ := i.first_exact lower small
  obtain ⟨l, last, top, below⟩ := i.last_exact upper small'
  unfold enumerate at listed
  split_ifs at listed
  cases listed
  have bottom := (abs_le.mp fits).1
  obtain ⟨j, same, lowest, highest⟩ := steps_between l m last top (by omega) i.first m first le_rfl x mem
  cases same.symm.trans defined
  exact ⟨(above j).mpr lowest, (below j).mpr highest⟩

theorem lists_moderate (domain : Option ValueType) (i : Interval) (moderate : i.IsModerate) {v : Value}
    (integer : isIntegralDomain domain = true → ∀ q, v = .number q → ∃ n : ℤ, q = .finite n) : i.Lists domain v := by
  rintro vs listed q rfl inside
  obtain ⟨n, rfl⟩ := integer (i.integral_of_listed listed) q rfl
  obtain ⟨⟨a, lower, small⟩, ⟨b, upper, small'⟩⟩ := i.moderate_ends moderate listed
  obtain ⟨m, first, fits, above⟩ := i.first_exact lower small
  obtain ⟨l, last, top, below⟩ := i.last_exact upper small'
  have start := (above n).mp inside.1
  have finish := (below n).mp inside.2
  obtain ⟨lowest, -⟩ := abs_le.mp fits
  exact i.listed_from_first inside (abs_le.mpr (by omega)) start fits first listed

theorem meet_moderate (a b : Interval) (left : a.IsModerate) (right : b.IsModerate) : (a.meet b).IsModerate := by
  unfold meet
  constructor
  · dsimp only
    split_ifs
    · exact right.1
    · exact left.1
    · exact left.1
  · dsimp only
    split_ifs
    · exact right.2
    · exact left.2
    · exact left.2

theorem moderate_defined (moderate : x.IsModerate) : ∃ p, x.quantity? = some p := by
  rcases moderate with rfl | rfl | ⟨a, finite, -⟩
  · exact ⟨_, rfl⟩
  · exact ⟨_, rfl⟩
  · exact ⟨_, finite⟩

theorem holds_of_meet {a b : Interval} (left : a.IsModerate) (right : b.IsModerate) (inside : (a.meet b).Holds q) :
    a.Holds q ∧ b.Holds q := by
  obtain ⟨p, lo⟩ := moderate_defined left.1
  obtain ⟨p', lo'⟩ := moderate_defined right.1
  obtain ⟨r, hi⟩ := moderate_defined left.2
  obtain ⟨r', hi'⟩ := moderate_defined right.2
  have lower : a.Above q ∧ b.Above q := by
    have low := inside.1
    unfold meet at low
    simp only [lt_decide lo lo', eq_decide lo' lo, decide_eq_true_eq] at low
    unfold Above
    rw [lo, lo']
    simp only [Option.some.injEq, forall_eq']
    split_ifs at low with less same
    · have here := low p' lo'
      exact ⟨.inl (here.elim (lt_trans less) fun same => same.1 ▸ less), here⟩
    · subst same
      have here := low p' lo
      rw [Bool.or_eq_false_iff] at here
      exact ⟨here.imp_right fun h => ⟨h.1, h.2.1⟩, here.imp_right fun h => ⟨h.1, h.2.2⟩⟩
    · have here := low p lo
      have below : p' < p := lt_of_le_of_ne (not_lt.mp less) same
      exact ⟨here, .inl (here.elim (lt_trans below) fun same => same.1 ▸ below)⟩
  have upper : a.Below q ∧ b.Below q := by
    have high := inside.2
    unfold meet at high
    simp only [lt_decide hi' hi, eq_decide hi' hi, decide_eq_true_eq] at high
    unfold Below
    rw [hi, hi']
    simp only [Option.some.injEq, forall_eq']
    split_ifs at high with less same
    · have here := high r' hi'
      exact ⟨.inl (here.elim (fun h => lt_trans h less) fun same => same.1 ▸ less), here⟩
    · subst same
      have here := high r' hi
      rw [Bool.or_eq_false_iff] at here
      exact ⟨here.imp_right fun h => ⟨h.1, h.2.1⟩, here.imp_right fun h => ⟨h.1, h.2.2⟩⟩
    · have here := high r hi
      have above : r < r' := lt_of_le_of_ne (not_lt.mp less) (Ne.symm same)
      exact ⟨here, .inl (here.elim (fun h => lt_trans h above) fun same => same.1 ▸ above)⟩
  exact ⟨⟨lower.1, upper.1⟩, ⟨lower.2, upper.2⟩⟩

end Interval

namespace ValueSet

-- An interval between whose ends integers are exact; nothing is asked of other parts.
def HasModerateEnds : ValueSet → Prop
  | .interval i => i.IsModerate
  | _ => True

def IsPlain : ValueSet → Prop
  | .solutions _ => False
  | _ => True

def IsExact (s : ValueSet) : Prop := s.HasModerateEnds ∧ s.IsPlain

theorem closed_moderate : Closed HasModerateEnds :=
  ⟨trivial, fun _ => trivial, fun _ _ _ _ _ => trivial, Interval.meet_moderate⟩

theorem closed_exact : Closed IsExact :=
  ⟨⟨trivial, trivial⟩, fun _ => ⟨trivial, trivial⟩, fun _ _ _ _ _ => ⟨trivial, trivial⟩,
    fun a b left right => ⟨Interval.meet_moderate a b left.1 right.1, trivial⟩⟩

theorem made_and (P Q : ValueSet → Prop) (s : ValueSet) (first : s.Made P) (second : s.Made Q) :
    s.Made fun s => P s ∧ Q s := by
  induction s using parts_induction with
  | union ms ih | inter ms ih =>
    exact (all_made_iff _ ms).mpr fun m mem =>
      ih m mem ((all_made_iff P ms).mp first m mem) ((all_made_iff Q ms).mp second m mem)
  | _ => exact ⟨first, second⟩

theorem plain_known (x : Number) {s : ValueSet} (plain : s.Made IsExact) : (s.member x).known = true := by
  induction s using parts_induction with
  | union ms ih | inter ms ih =>
    have parts : (ms.all fun m => (m.member x).known) = true :=
      all_eq_true.mpr fun m inside => ih m inside ((all_made_iff _ ms).mp plain m inside)
    simp only [member, member_of_any_eq, member_of_all_eq, parts, Bool.and_true, Bool.or_true]
  | solutions e => exact plain.2.elim
  | _ => rfl

variable (kept : Expr → Value → Prop)

theorem has_of_not_excluded {x : Number} {q : Quantity} (defined : x.quantity? = some q) {s : ValueSet}
    (plain : s.Made IsExact) (open_ : s.excludes x = false) : s.Has kept (.number q) := by
  have known := plain_known x plain
  rw [excludes, known, Bool.true_and, Bool.not_eq_false'] at open_
  exact (member_known kept x q defined s known).mp open_

theorem has_of_listed (domain : Option ValueType) (v : Value) (s : ValueSet) (plain : s.Made IsExact) (vs : List Number)
    (listed : s.enumerate domain = .ok vs) (has : (values vs).Has kept v) : s.Has kept v := by
  revert plain has
  refine enumerate_induction (motive := fun s vs => s.Made IsExact → (values vs).Has kept v → s.Has kept v)
    (fun _ => by simp [Has]) (fun _ _ => id) (fun i vs listed plain => ?_) (fun ms vs _ origin plain has => ?_)
    (fun ms m ws others mem all plain => ?_) listed
  · rintro ⟨x, mem, q, defined, rfl⟩
    exact ⟨q, rfl, i.listed_inside plain.1 listed mem defined⟩
  · obtain ⟨x, present, value⟩ := (has_of_values kept v vs).mp has
    obtain ⟨m, mem, ws, back, here⟩ := origin x present
    exact (has_any_iff kept v ms).mpr ⟨m, mem, back ((all_made_iff _ ms).mp plain m mem) ⟨x, here, value⟩⟩
  -- what is listed is in the part that lists it, and no other part excludes it
  · rintro ⟨x, present, q, defined, rfl⟩
    obtain ⟨here, open_⟩ := mem_filter.mp present
    have each := (all_made_iff _ ms).mp plain
    refine (has_all_iff kept _ ms).mpr fun other inside => ?_
    rcases mem_cons.mp ((all other).mpr inside) with rfl | asked
    · exact mem (each other inside) ⟨x, here, q, defined, rfl⟩
    · exact has_of_not_excluded kept defined (each other inside) (by simpa using all_eq_true.mp open_ other asked)

theorem has_of_interval_reduce (domain : Option ValueType) (i : Interval) (moderate : i.IsModerate) (v : Value)
    (has : (i.reduce domain).Has kept v) : (interval i).Has kept v := by
  unfold Interval.reduce at has
  split_ifs at has
  · exact has.elim
  · split at has
    · exact has.elim
    · next vs _ listed =>
        exact has_of_listed kept domain v (.interval i) ⟨moderate, trivial⟩ vs listed ((has_of_values kept v vs).mp has)
    · exact has
  · exact has

section Sound

variable (domain : Option ValueType) (v : Value) {parts : List ValueSet}

theorem has_of_union_of (plain : ∀ m ∈ parts, m.Made IsExact) (has : (unionOf domain parts).Has kept v) :
    ∃ m ∈ parts, m.Has kept v := by
  have gather : (union (parts.flatMap asUnionMembers)).Has kept v → ∃ m ∈ parts, m.Has kept v := by
    intro whole
    obtain ⟨m, mem, holds⟩ := (has_any_iff kept v _).mp whole
    obtain ⟨part, present, inside⟩ := mem_flatMap.mp mem
    exact ⟨part, present, (has_as_union_members kept v part).mpr ⟨m, inside, holds⟩⟩
  have neat := (all_made_iff _ _).mpr (union_members_made IsExact plain)
  revert has
  refine union_of_cases (motive := fun t => t.Has kept v → ∃ m ∈ parts, m.Has kept v) rfl
    (fun u present _ has => ⟨u, present, has⟩) (fun _ has => has.elim) (fun m flat has => gather ?_)
    (fun vs listed has => gather ?_) fun _ _ _ => gather
  · exact (has_any_iff kept v _).mpr ⟨m, by simp [flat], has⟩
  · exact has_of_listed kept domain v (.union _) neat vs listed ((has_of_values kept v vs).mp has)

theorem has_of_inter_of_members {members : List ValueSet} (plain : ∀ m ∈ members, m.Made IsExact)
    (has : (interOfMembers domain members).Has kept v) : ∀ m ∈ members, m.Has kept v := by
  revert has
  refine inter_of_members_cases (motive := fun t => t.Has kept v → ∀ m ∈ members, m.Has kept v)
    (fun none _ => by simp [none])
    (fun m same has => by simpa [same] using has) (fun _ has => has.elim) (fun vs listed has => ?_)
    fun _ _ => (has_all_iff kept v members).mp
  exact (has_all_iff kept v members).mp
    (has_of_listed kept domain v (.inter members) ((all_made_iff _ members).mpr plain) vs
    listed ((has_of_values kept v vs).mp has))

theorem bound_of_none (unbounded : boundOf parts = none) (i : Interval) : interval i ∉ parts := by
  intro mem
  suffices general : ∀ start : Option Interval, start.isSome ∨ interval i ∈ parts →
      (parts.foldl tighten start).isSome by
    have bounded : (boundOf parts).isSome := general none (.inr mem)
    rw [unbounded] at bounded
    cases bounded
  clear unbounded mem
  induction parts with
  | nil =>
    rintro start (bounded | mem)
    · exact bounded
    · cases mem
  | cons m rest ih =>
    intro start bounded
    rw [foldl_cons]
    apply ih
    rcases bounded with bounded | mem
    · obtain ⟨b, rfl⟩ := Option.isSome_iff_exists.mp bounded
      cases m <;> exact .inl rfl
    · rcases mem_cons.mp mem with rfl | later
      · cases start <;> exact .inl rfl
      · exact .inr later

theorem holds_of_bound_of (plain : ∀ m ∈ parts, m.Made IsExact) {bound : Interval} (common : boundOf parts = some bound)
    (inside : bound.Holds q) {i : Interval} (mem : interval i ∈ parts) : i.Holds q := by
  suffices general : ∀ start : Option Interval, (∀ b, start = some b → b.IsModerate) →
      parts.foldl tighten start = some bound →
      (∀ b, start = some b → b.Holds q) ∧ ∀ i : Interval, interval i ∈ parts → i.Holds q from
    (general none (by simp) common).2 i mem
  clear common mem
  induction parts with
  | nil =>
    rintro start moderate rfl
    exact ⟨fun b same => Option.some.inj same ▸ inside, by simp⟩
  | cons m rest ih =>
    intro start moderate common
    rw [foldl_cons] at common
    have later := ih (fun other present => plain other (mem_cons_of_mem m present)) _ ?_ common
    · cases m with
      | interval j =>
        have here : j.IsModerate := (plain _ mem_cons_self).1
        have both : (∀ b, start = some b → b.Holds q) ∧ j.Holds q := by
          cases start with
          | none => exact ⟨by simp, later.1 j rfl⟩
          | some b =>
            have met := Interval.holds_of_meet (moderate b rfl) here (later.1 _ rfl)
            exact ⟨fun _ same => Option.some.inj same ▸ met.1, met.2⟩
        refine ⟨both.1, fun k present => ?_⟩
        rcases mem_cons.mp present with same | after
        · cases same
          exact both.2
        · exact later.2 k after
      | _ =>
        refine ⟨later.1, fun k present => ?_⟩
        rcases mem_cons.mp present with same | after
        · cases same
        · exact later.2 k after
    · cases m with
      | interval j =>
        have here : j.IsModerate := (plain _ mem_cons_self).1
        cases start with
        | none => exact fun b same => Option.some.inj same ▸ here
        | some b => exact fun _ same => Option.some.inj same ▸ Interval.meet_moderate b j (moderate b rfl) here
      | _ => exact moderate

theorem has_of_inter_members (members : ∀ m ∈ parts.flatMap asInterMembers, m.Has kept v)
    (intervals : ∀ i : Interval, interval i ∈ parts → (interval i).Has kept v) :
    ∀ m ∈ parts, m.Has kept v := by
  intro part present
  have own := forall_mem_flatMap.mp members part present
  cases part with
  | universal t => trivial
  | interval i => exact intervals i present
  | inter ms => exact (has_all_iff kept v ms).mpr own
  | _ => exact own _ (mem_singleton.mpr rfl)

theorem has_of_reduce (s : ValueSet) (plain : s.Made IsExact) (has : (s.reduce domain).Has kept v) : s.Has kept v := by
  induction s using (calls_well_founded domain).induction with
  | h s ih =>
    cases s with
    | interval i => exact has_of_interval_reduce kept domain i plain.1 v has
    | union ms =>
      have each := (all_made_iff _ ms).mp plain
      rw [reduce_union] at has
      obtain ⟨part, present, holds⟩ := has_of_union_of kept domain v
        (forall_mem_map.mpr fun m mem => reduce_made IsExact closed_exact domain m (each m mem)) has
      obtain ⟨m, mem, rfl⟩ := mem_map.mp present
      exact (has_any_iff kept v ms).mpr ⟨m, mem, ih m (.member mem) (each m mem) holds⟩
    | inter ms =>
      have each := (all_made_iff _ ms).mp plain
      have neat : ∀ p ∈ ms.map (reduce domain), p.Made IsExact := forall_mem_map.mpr fun m mem =>
        reduce_made IsExact closed_exact domain m (each m mem)
      have neatly := inter_members_made IsExact neat
      suffices parts : ∀ p ∈ ms.map (reduce domain), p.Has kept v from
        (has_all_iff kept v ms).mpr fun m mem =>
          ih m (.part mem) (each m mem) (parts _ (mem_map_of_mem mem))
      rw [reduce_inter] at has
      revert has
      refine inter_of_cases (motive := fun t => t.Has kept v → ∀ p ∈ ms.map (reduce domain), p.Has kept v) rfl
        (fun _ _ _ has => has.elim) (fun _ free has => ?_) (fun _ _ _ _ _ has => has.elim) fun bound _ common _ has =>
          ?_
      · exact has_of_inter_members kept v (has_of_inter_of_members kept domain v neatly has)
          fun i mem => absurd mem (bound_of_none free i)
      · have moderate := bound_of_made IsExact closed_exact neat common
        have branches : ∀ us, .union us ∈ (ms.map (reduce domain)).flatMap asInterMembers →
            (union (us.map fun m => .inter [.interval bound, m])).Made IsExact :=
          fun us mem => branches_made IsExact moderate (neatly _ mem)
        have members := has_of_inter_of_members kept domain v (forall_mem_append.mpr
          ⟨forall_pushed neatly fun us mem =>
            ?_, by simpa using interval_reduce_made IsExact closed_exact domain bound moderate⟩) has
        · obtain ⟨q, rfl, inside⟩ := has_of_interval_reduce kept domain bound moderate.1 v (members _ (by simp))
          refine has_of_inter_members kept _ (fun m mem => ?_) fun i mem =>
            ⟨q, rfl, holds_of_bound_of neat common inside mem⟩
          have holds := members _ (mem_append_left _ (mem_map_of_mem mem))
          cases m with
          | union us =>
            rw [push_bound_union] at holds
            obtain ⟨branch, present, here⟩ :=
              (has_any_iff kept _ _).mp (ih _ (.branches common mem) (branches us mem) holds)
            obtain ⟨m, below, rfl⟩ := mem_map.mp present
            exact (has_any_iff kept _ us).mpr ⟨m, below, here.2.1⟩
          | _ => exact holds
        · rw [push_bound_union]
          exact reduce_made IsExact closed_exact domain _ (branches us mem)
    | _ => exact has

end Sound

end ValueSet

-- Reducing a set loses no member, and adds none unless an expression that is kept describes it; whatever such
-- expressions leave, an answer about membership that is known is right.
theorem reduce_keeps_meaning (s : ValueSet) (moderate : s.Made ValueSet.HasModerateEnds) (domain : Option ValueType)
    (x : Number) (q : Quantity) (value : x.quantity? = some q)
    (integer : isIntegralDomain domain = true → ∃ n : ℤ, q = .finite n) (kept : Expr → Value → Prop) :
    (s.Made ValueSet.IsPlain → ((s.reduce domain).Has kept (.number q) ↔ s.Has kept (.number q))) ∧
      (s.Has kept (.number q) → (s.reduce domain).Has kept (.number q)) ∧
        ((s.member x).known = true → ((s.member x).holds = true ↔ s.Has kept (.number q))) := by
  have lists : ∀ s : ValueSet, s.HasModerateEnds → s.ListsValue domain (.number q) := by
    intro s ends
    cases s with
    | interval i =>
      refine i.lists_moderate domain ends fun integral p same => ?_
      cases same
      exact integer integral
    | _ => trivial
  have keeps := s.reduce_has_made kept ValueSet.HasModerateEnds closed_moderate domain (.number q) lists moderate
  refine ⟨fun plain => ⟨?_, keeps⟩, keeps, s.member_known kept x q value⟩
  exact s.has_of_reduce kept domain _ (s.made_and _ _ moderate plain)

def choiceAboveOne : ValueSet :=
  .inter [.union [.interval ⟨.zero, .finite 5, false, true⟩, .values [.finite 7, .finite 9]],
    .interval ⟨.one, .posInf, true, false⟩]

theorem reduce_keeps_choice_above_one :
    choiceAboveOne.Made ValueSet.HasModerateEnds ∧ choiceAboveOne.Made ValueSet.IsPlain ∧
    (choiceAboveOne.reduce (some .int)).Has (fun _ _ => False) (.number (.finite 3)) ∧
      ¬ (choiceAboveOne.reduce (some .int)).Has (fun _ _ => False) (.number (.finite 1)) := by
  have finite : ∀ a : ℚ, |a| < 2 ^ 53 → (finite a).IsModerate := fun a small => .inr (.inr ⟨a, rfl, small⟩)
  have moderate : choiceAboveOne.Made ValueSet.HasModerateEnds :=
    ⟨⟨⟨finite 0 (by norm_num), finite 5 (by norm_num)⟩, trivial, trivial⟩, ⟨finite 1 (by norm_num), .inr (.inl rfl)⟩,
      trivial⟩
  have plain : choiceAboveOne.Made ValueSet.IsPlain := ⟨⟨trivial, trivial, trivial⟩, trivial, trivial⟩
  have three := reduce_keeps_meaning choiceAboveOne moderate (some .int) (.finite 3) (.finite 3) rfl
    (fun _ => ⟨3, by norm_num⟩) fun _ _ => False
  have one := reduce_keeps_meaning choiceAboveOne moderate (some .int) (.finite 1) (.finite 1) rfl
    (fun _ => ⟨1, by norm_num⟩) fun _ _ => False
  exact ⟨moderate, plain, (three.1 plain).mpr ((three.2.2 rfl).mp rfl), fun has =>
    absurd ((one.2.2 rfl).mpr ((one.1 plain).mp has)) (by decide)⟩

end Blockwork
