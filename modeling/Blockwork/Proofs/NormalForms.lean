import Blockwork.Proofs.ReductionExact
import Blockwork.Proofs.StructuralEquality

set_option autoImplicit false

namespace Blockwork

open List ValueSet

variable {s : ValueSet} {ms : List ValueSet}

namespace Interval

-- The list made by counting up in ones until the last number is passed.
inductive Counts (last : Number) : Number → List Number → Prop
  | stop {v : Number} : v.le last = false → Counts last v []
  | step {v : Number} {vs : List Number} : v.le last = true → Counts last (v.add .one) vs → Counts last v (v :: vs)

-- A list that holds the last number is not cut short: one more step passes it.
theorem steps_counts {last x : Number} {l : ℤ} (lastEq : last.quantity? = some (.finite l)) (small : |l + 1| ≤ 2 ^ 53)
    (found : x.quantity? = some (.finite l)) {n : ℕ} {v : Number} (mem : x ∈ steps last n v) :
    Counts last v (steps last n v) := by
  induction n generalizing v with
  | zero => cases mem
  | succ n ih =>
    rw [steps] at mem ⊢
    split_ifs at mem ⊢ with inside
    · refine .step inside ?_
      rcases mem_cons.mp mem with rfl | later
      · have next :=
          Number.quantity_add .one found (show Number.one.quantity? = some (.finite ((1 : ℤ) : ℚ)) by simp [Number.one])
          (Quantity.add_int l 1 rfl small)
        have passed : (x.add .one).le last = false := by
          rw [← Bool.not_eq_true, Number.le_iff next lastEq, Quantity.finite_le_finite]
          exact_mod_cast (by omega : ¬ l + 1 ≤ l)
        have none : steps last n (x.add .one) = [] := by
          cases n with
          | zero => rfl
          | succ n => rw [steps, passed, if_neg Bool.false_ne_true]
        rw [none]
        exact .stop passed
      · exact ih later
    · cases mem

theorem enumerate_counts {domain : Option ValueType} (i : Interval) (moderate : i.IsModerate) {vs : List Number}
    (listed : i.enumerate domain = .ok vs) : Counts i.last i.first vs := by
  obtain ⟨⟨a, lower, small⟩, ⟨b, upper, small'⟩⟩ := i.moderate_ends moderate listed
  obtain ⟨m, first, fits, above⟩ := i.first_exact lower small
  obtain ⟨l, last, top, below⟩ := i.last_exact upper small'
  have order := Number.le_iff first last
  rw [Quantity.finite_le_finite] at order
  by_cases some : m ≤ l
  · obtain ⟨lowest, -⟩ := abs_le.mp fits
    obtain ⟨x, mem, found⟩ := i.listed_from_first ⟨(above l).mpr some, (below l).mpr le_rfl⟩
      (abs_le.mpr (by omega)) some fits
      first listed
    unfold enumerate at listed
    split_ifs at listed
    cases listed
    exact steps_counts last (abs_le.mpr (by omega)) found mem
  · have passed : i.first.le i.last = false := by
      rw [← Bool.not_eq_true, order]
      exact_mod_cast some
    have none : ∀ n, steps i.last n i.first = [] := by
      intro n
      cases n with
      | zero => rfl
      | succ n => rw [steps, passed, if_neg Bool.false_ne_true]
    unfold enumerate at listed
    split_ifs at listed
    cases listed
    rw [none]
    exact .stop passed

end Interval

namespace ValueSet

variable {domain : Option ValueType}

-- A function that reduces sets by the rules for their forms, with itself for the sets it has to reduce on the way.
structure Reduces (domain : Option ValueType) (f : ValueSet → ValueSet) : Prop where
  interval : ∀ i, f (.interval i) = i.reduce domain
  union : ∀ ms, f (.union ms) = unionOf domain (ms.map f)
  inter : ∀ ms, f (.inter ms) = interOf f domain (ms.map f)
  branches : ∀ bound us, pushBound f domain bound (.union us) = f (.union (us.map fun m => .inter [.interval bound, m]))
  universal : ∀ t, f (.universal t) = .universal t
  empty : f .empty = .empty
  values : ∀ vs, f (.values vs) = .values vs
  solutions : ∀ e, f (.solutions e) = .solutions e

theorem reduce_reduces (domain : Option ValueType) : Reduces domain (reduce domain) :=
  ⟨fun _ => rfl, reduce_union, reduce_inter, push_bound_union, fun _ => rfl, rfl, fun _ => rfl, fun _ => rfl⟩

theorem reduces_unique {f : ValueSet → ValueSet} (rules : Reduces domain f) (s : ValueSet) : f s = s.reduce domain := by
  induction s using (calls_well_founded domain).induction with
  | h s ih =>
    cases s with
    | interval i => exact rules.interval i
    | union ms => rw [rules.union, reduce_union, map_congr_left fun m mem => ih m (.member mem)]
    | inter ms =>
      rw [rules.inter, reduce_inter, map_congr_left fun m mem => ih m (.part mem)]
      refine inter_of_congr fun bound us common mem => ?_
      rw [rules.branches, push_bound_union]
      exact ih _ (.branches common mem)
    | universal t => exact rules.universal t
    | empty => exact rules.empty
    | values vs => exact rules.values vs
    | solutions e => exact rules.solutions e

theorem calls_moderate {t : ValueSet} (call : Calls domain s t) (moderate : s.Made HasModerateEnds) :
    t.Made HasModerateEnds := by
  cases call with
  | member inside => exact (all_made_iff _ _).mp moderate t inside
  | part inside => exact (all_made_iff _ _).mp moderate t inside
  | branches common inside =>
    rename_i ms us bound
    have parts : ∀ p ∈ ms.map (reduce domain), p.Made HasModerateEnds := forall_mem_map.mpr fun m member =>
      reduce_made _ closed_moderate domain m ((all_made_iff _ _).mp moderate m member)
    exact branches_made _ (bound_of_made _ closed_moderate parts common) (inter_members_made _ parts _ inside)

-- The rules for bringing sets to their simplest form call for other sets in a well-founded order, so they have exactly
-- one solution. All ranges met on the way have moderate ends, and counting out such a range comes to an end.
theorem reduction_terminates (domain : Option ValueType) :
    WellFounded (fun t s => Calls domain s t) ∧ Reduces domain (reduce domain) ∧
      (∀ f, Reduces domain f → f = reduce domain) ∧
      (∀ s t, Relation.ReflTransGen (Calls domain) s t → s.Made HasModerateEnds →
        t.Made HasModerateEnds ∧ (t.reduce domain).Made HasModerateEnds) ∧
      ∀ (i : Interval) (vs : List Number), i.IsModerate → i.enumerate domain = .ok vs →
        Interval.Counts i.last i.first vs := by
  refine ⟨calls_well_founded domain, reduce_reduces domain, fun f rules => funext (reduces_unique rules), ?_,
    fun i vs moderate => i.enumerate_counts moderate⟩
  intro s t calls moderate
  have ends : t.Made HasModerateEnds := by
    induction calls with
    | refl => exact moderate
    | tail _ call ih => exact calls_moderate call ih
  exact ⟨ends, reduce_made _ closed_moderate domain t ends⟩

end ValueSet

def choiceFromFour : ValueSet :=
  .inter [.union [.interval ⟨.zero, .one, false, false⟩, .interval ⟨.finite 5, .finite 6, false, false⟩],
    .interval ⟨.finite 4, .finite 10, false, false⟩]

theorem choice_from_four_moderate : choiceFromFour.Made ValueSet.HasModerateEnds := by
  have finite : ∀ a : ℚ, |a| < 2 ^ 53 → (Number.finite a).IsModerate := fun a small => .inr (.inr ⟨a, rfl, small⟩)
  exact ⟨⟨⟨finite 0 (by norm_num), finite 1 (by norm_num)⟩, ⟨finite 5 (by norm_num), finite 6 (by norm_num)⟩, trivial⟩,
    ⟨finite 4 (by norm_num), finite 10 (by norm_num)⟩, trivial⟩

-- The branches of the choice have to be reduced on the way, and are larger than the choice.
theorem choice_from_four_calls : (∃ t, ValueSet.Calls (some .double) choiceFromFour t ∧
    t.Made ValueSet.HasModerateEnds) ∧
      Interval.Counts (.finite 3) .one [.one, .finite 2, .finite 3] := by
  obtain ⟨-, -, -, keeps, -⟩ := reduction_terminates (some .double)
  obtain ⟨-, -, -, -, counts⟩ := reduction_terminates (some .int)
  have call : ValueSet.Calls (some .double) choiceFromFour _ :=
    .branches rfl (mem_flatMap.mpr ⟨_, mem_cons_self, mem_singleton_self _⟩)
  refine ⟨⟨_, call, (keeps _ _ (.single call) choice_from_four_moderate).1⟩, ?_⟩
  exact counts ⟨.one, .finite 3, false, false⟩ _ ⟨.inr (.inr ⟨1, rfl, by norm_num⟩), .inr (.inr ⟨3, rfl, by norm_num⟩)⟩
    (by decide +kernel)

namespace ValueSet

variable {domain : Option ValueType}

-- No range is left to be met with others: there is none, or it stands last and its bound changes nothing in the others.
def Tight (domain : Option ValueType) (ms : List ValueSet) : Prop :=
  (∀ m ∈ ms, m.asInterMembers = [m]) ∨ ∃ ns bound, ms = ns ++ [ValueSet.interval bound] ∧
    ∀ n ∈ ns, n.asInterMembers = [n] ∧ pushBound (reduce domain) domain bound n = n

inductive Normal (domain : Option ValueType) : ValueSet → Prop
  | universal (t : Option ValueType) : Normal domain (.universal t)
  | empty : Normal domain .empty
  | values (vs : List Number) : Normal domain (.values vs)
  | interval {i : Interval} : i.reduce domain = .interval i → Normal domain (.interval i)
  | union {ms : List ValueSet} : (∀ m ∈ ms, Normal domain m) →
      (∀ m ∈ ms, m.asUnionMembers = [m] ∧ m.isUniversal = false) →
      2 ≤ ms.length → (∀ vs, (ValueSet.union ms).enumerate domain ≠ .ok vs) → Normal domain (.union ms)
  | inter {ms : List ValueSet} : (∀ m ∈ ms, Normal domain m) → (∀ m ∈ ms, m.isEmpty = false) → 2 ≤ ms.length →
      (∀ vs, (ValueSet.inter ms).enumerate domain ≠ .ok vs) → Tight domain ms → Normal domain (.inter ms)
  | solutions (e : Expr) : Normal domain (.solutions e)

theorem flat_map_self {f : ValueSet → List ValueSet} (own : ∀ m ∈ ms, f m = [m]) : ms.flatMap f = ms := by
  induction ms with
  | nil => rfl
  | cons m ms ih =>
    obtain ⟨first, rest⟩ := forall_mem_cons.mp own
    rw [flatMap_cons, first, ih rest, singleton_append]

theorem union_of_self (own : ∀ m ∈ ms, m.asUnionMembers = [m] ∧ m.isUniversal = false) (many : 2 ≤ ms.length)
    (unlisted : ∀ vs, (union ms).enumerate domain ≠ .ok vs) : unionOf domain ms = .union ms := by
  refine union_of_cases (motive := fun t => t = .union ms) (flat_map_self fun m mem => (own m mem).1)
    (fun u present universal => ?_) (fun none => ?_) (fun m single => ?_) (fun vs listed => absurd listed (unlisted vs))
      fun _ _ _ => rfl
  · cases (own u present).2.symm.trans universal
  · simp [none] at many
  · simp [single] at many

theorem inter_of_members_self (many : 2 ≤ ms.length) (unlisted : ∀ vs, (inter ms).enumerate domain ≠ .ok vs) :
    interOfMembers domain ms = .inter ms := by
  refine inter_of_members_cases (motive := fun t => t = .inter ms) (fun none => ?_) (fun m single => ?_)
    (fun listed => absurd listed (unlisted [])) (fun vs listed => absurd listed (unlisted vs)) fun _ _ => rfl
  · simp [none] at many
  · simp [single] at many

variable {ns parts rs : List ValueSet}

theorem foldl_tighten (free : ∀ i, .interval i ∉ ns) (bound : Option Interval) : ns.foldl tighten bound = bound := by
  induction ns with
  | nil => rfl
  | cons n ns ih =>
    have rest := ih fun i mem => free i (mem_cons_of_mem _ mem)
    cases n with
    | interval i => exact (free i mem_cons_self).elim
    | _ => exact rest

theorem not_range (own : ∀ n ∈ ns, n.asInterMembers = [n]) (i : Interval) : .interval i ∉ ns := by
  intro mem
  cases own _ mem

theorem bound_of_single {ks : List ValueSet} (own : ∀ n ∈ ns, n.asInterMembers = [n])
    (own' : ∀ k ∈ ks, k.asInterMembers = [k]) (i : Interval) : boundOf (ns ++ interval i :: ks) = some i := by
  rw [boundOf, foldl_append, foldl_tighten (not_range own), foldl_cons]
  exact foldl_tighten (not_range own') (some i)

theorem inter_of_self (occupied : ∀ m ∈ ms, m.isEmpty = false) (many : 2 ≤ ms.length)
    (unlisted : ∀ vs, (inter ms).enumerate domain ≠ .ok vs) (tight : Tight domain ms)
    (irreducible : ∀ i, .interval i ∈ ms → i.reduce domain = .interval i) :
    interOf (reduce domain) domain ms = .inter ms := by
  have whole := inter_of_members_self many unlisted
  have filled : ms.any isEmpty = false := by simpa using occupied
  rw [interOf, filled, if_neg Bool.false_ne_true]
  rcases tight with own | ⟨ns, bound, rfl, own⟩
  · rw [boundOf, foldl_tighten (not_range own), flat_map_self own]
    exact whole
  · have common : boundOf (ns ++ [interval bound]) = some bound :=
      bound_of_single (fun n mem => (own n mem).1) (by simp) bound
    have members : (ns ++ [interval bound]).flatMap asInterMembers = ns := by
      rw [flatMap_append, flat_map_self fun n mem => (own n mem).1]
      exact append_nil ns
    rw [common, members]
    dsimp only
    rw [map_congr_left fun n mem => (own n mem).2, map_id', irreducible bound (by simp)]
    rw [any_append, Bool.or_eq_false_iff] at filled
    rw [filled.1]
    exact whole

-- A set in simplest form is its own simplest form.
theorem reduce_normal (normal : Normal domain s) : s.reduce domain = s := by
  induction normal with
  | interval same => exact same
  | union members own many unlisted ih =>
    rw [reduce_union, map_congr_left ih, map_id']
    exact union_of_self own many unlisted
  | inter members occupied many unlisted tight ih =>
    rw [reduce_inter, map_congr_left ih, map_id']
    exact inter_of_self occupied many unlisted tight fun i mem => ih _ mem
  | _ => rfl

theorem interval_reduce_normal (i : Interval) : Normal domain (i.reduce domain) :=
  interval_reduce_cases .empty .values fun same => .interval same

theorem union_members_normal (normal : ∀ p ∈ parts, Normal domain p) :
    ∀ m ∈ parts.flatMap asUnionMembers, Normal domain m ∧ m.asUnionMembers = [m] ∧
      (m.isUniversal = false ∨ m ∈ parts) := by
  refine forall_mem_flatMap.mpr fun p present => ?_
  have whole := normal p present
  cases p with
  | empty => simp [asUnionMembers]
  | union ms =>
    cases whole with
    | union members own many unlisted =>
      exact fun m inside => ⟨members m inside, (own m inside).1, .inl (own m inside).2⟩
  | _ => exact forall_mem_singleton.mpr ⟨whole, rfl, .inr present⟩

theorem inter_members_normal (normal : ∀ p ∈ parts, Normal domain p) (occupied : ∀ p ∈ parts, p.isEmpty = false) :
    ∀ m ∈ parts.flatMap asInterMembers, Normal domain m ∧ m.isEmpty = false := by
  refine forall_mem_flatMap.mpr fun p present => ?_
  have whole := normal p present
  have here := occupied p present
  cases p with
  | universal t | interval i => simp [asInterMembers]
  | inter ms =>
    cases whole with
    | inter members occupied many unlisted tight => exact fun m inside => ⟨members m inside, occupied m inside⟩
  | _ => exact forall_mem_singleton.mpr ⟨whole, here⟩

def Joined (domain : Option ValueType) (s : ValueSet) : Prop :=
  ∃ rs, s = .inter rs ∧ (∀ r ∈ rs, Normal domain r) ∧ (Tight domain rs → Normal domain (.inter rs))

theorem inter_of_members_joined (normal : ∀ m ∈ ms, Normal domain m) (occupied : ∀ m ∈ ms, m.isEmpty = false) :
    Normal domain (interOfMembers domain ms) ∨ Joined domain (interOfMembers domain ms) :=
  inter_of_members_cases (motive := fun t => Normal domain t ∨ Joined domain t) (fun _ => .inl (.universal _))
    (fun m single => .inl (normal m (by simp [single]))) (fun _ => .inl .empty) (fun _ _ => .inl (.values _))
    fun many unlisted => .inr ⟨ms, rfl, normal, .inter normal occupied many unlisted⟩

-- What becomes of a set when all sets that it calls for come out in simplest form.
theorem reduce_cases (called : ∀ t, Calls domain s t → Normal domain (t.reduce domain)) :
    Normal domain (s.reduce domain) ∨ Joined domain (s.reduce domain) ∧ ∃ ms, s = .inter ms := by
  cases s with
  | interval i => exact .inl (interval_reduce_normal i)
  | union ms =>
    have parts : ∀ p ∈ ms.map (reduce domain), Normal domain p := forall_mem_map.mpr fun m mem => called m (.member mem)
    have members := union_members_normal parts
    rw [reduce_union]
    refine .inl (union_of_cases (motive := Normal domain) rfl (fun u present _ => parts u present) (fun _ => .empty)
      (fun m flat => (members m (by simp [flat])).1) (fun _ _ => .values _) fun others many unlisted => ?_)
    exact .union (fun m mem => (members m mem).1)
      (fun m mem => ⟨(members m mem).2.1, (members m mem).2.2.elim id (others m)⟩) many unlisted
  | inter ms =>
    have parts : ∀ p ∈ ms.map (reduce domain), Normal domain p := forall_mem_map.mpr fun m mem => called m (.part mem)
    rw [reduce_inter]
    refine Or.imp_right (⟨·, ms, rfl⟩) (inter_of_cases (motive := fun t => Normal domain t ∨ Joined domain t) rfl
      (fun _ _ _ => .inl .empty) (fun occupied _ => ?_)
        (fun _ _ _ _ _ => .inl .empty) fun bound occupied common filled =>
        inter_of_members_joined (forall_mem_append.mpr ⟨?_, ?_⟩) filled)
    · have members := inter_members_normal parts occupied
      exact inter_of_members_joined (fun m mem => (members m mem).1) fun m mem => (members m mem).2
    · refine forall_pushed (fun m mem => (inter_members_normal parts occupied m mem).1) fun us mem => ?_
      rw [push_bound_union]
      exact called _ (.branches common mem)
    · exact forall_mem_singleton.mpr (interval_reduce_normal bound)
  | universal t => exact .inl (.universal t)
  | empty => exact .inl .empty
  | values vs => exact .inl (.values vs)
  | solutions e => exact .inl (.solutions e)

def IsLeaf : ValueSet → Prop
  | .union _ | .inter _ => False
  | _ => True

theorem interval_reduce_leaf (i : Interval) : (i.reduce domain).IsLeaf :=
  interval_reduce_cases (motive := IsLeaf) trivial (fun _ => trivial) fun _ => trivial

theorem inter_of_inter (same : interOf (reduce domain) domain parts = .inter rs) :
    boundOf parts = none ∧ (parts.flatMap asInterMembers = rs ∨ parts.flatMap asInterMembers = [.inter rs]) ∨
      ∃ bound, boundOf parts = some bound ∧
        (parts.flatMap asInterMembers).map (pushBound (reduce domain) domain bound) ++ [bound.reduce domain] = rs := by
  revert same
  refine inter_of_cases (motive := fun t => t = .inter rs → _) rfl nofun
    (fun _ free => ?_) nofun fun bound _ common _ => ?_
  · exact inter_of_members_cases (motive := fun t => t = .inter rs → _) nofun
      (fun m single same => .inl ⟨free, .inr (same ▸ single)⟩)
      nofun nofun fun _ _ same => .inl ⟨free, .inl (inter.inj same)⟩
  · refine inter_of_members_cases (motive := fun t => t = .inter rs → _) nofun (fun m single same => ?_) nofun nofun
      fun _ _ same => .inr ⟨bound, common, inter.inj same⟩
    have last : (bound.reduce domain).IsLeaf := interval_reduce_leaf bound
    rw [mem_singleton.mp (single ▸ by simp : bound.reduce domain ∈ [m]), same] at last
    exact last.elim

theorem push_bound_inter {bound : Interval} {us ks : List ValueSet}
    (same : pushBound (reduce domain) domain bound (.union us) = .inter ks) :
    maxUnionDepth ks < (union us).unionDepth := by
  have low : ∀ p ∈ us.map fun m => (inter [.interval bound, m]).reduce domain, p.unionDepth ≤ maxUnionDepth us :=
    forall_mem_map.mpr fun m mem => (reduce_within_depth _ _).trans (Nat.le_of_lt_succ (branch_depth bound le_rfl mem))
  refine Nat.lt_succ_of_le (?_ : (inter ks).unionDepth ≤ _)
  rw [← same]
  revert same
  exact union_of_cases (motive := fun t => t = .inter ks → t.unionDepth ≤ _) rfl
    (fun u present _ _ => low u present) nofun
    (fun m flat _ => union_members_depth low m (by simp [flat])) nofun nofun

-- Flattening leaves no intersection among the members of sets in simplest form.
theorem not_inter_member (normal : ∀ m ∈ ms, Normal domain m) (ks : List ValueSet) :
    .inter ks ∉ ms.flatMap asInterMembers := by
  have not_own : (inter ks).asInterMembers ≠ [.inter ks] := by
    intro own
    have size := congrArg sizeOf own
    simp [asInterMembers] at size
    omega
  intro mem
  obtain ⟨m, present, inside⟩ := mem_flatMap.mp mem
  cases normal m present with
  | inter _ _ _ _ tight =>
    rcases tight with own | ⟨ns, bound, rfl, own⟩
    · exact not_own (own _ inside)
    · rcases mem_append.mp inside with inside | last
      · exact not_own (own _ inside).1
      · simp at last
  | _ => simp [asInterMembers] at inside

-- As many members lie deep before and after flattening if no intersection does.
theorem count_deep {d : ℕ} (shallow : ∀ ks, .inter ks ∈ ms → maxUnionDepth ks ≤ d) :
    (ms.flatMap asInterMembers).countP (d < ·.unionDepth) = ms.countP (d < ·.unionDepth) := by
  conv_rhs => rw [← flatMap_singleton' ms]
  rw [countP_flatMap, countP_flatMap]
  refine congrArg List.sum (map_congr_left fun m mem => ?_)
  cases m with
  | inter ks =>
    have low := shallow ks mem
    have inner : ks.countP (d < ·.unionDepth) = 0 := by simpa [countP_eq_zero] using max_union_depth_le.mp low
    simp [asInterMembers, inner, unionDepth, Nat.not_lt.mpr low]
  | universal t | interval i => simp [asInterMembers, unionDepth]
  | _ => rfl

-- If as many members lie deep after a change that takes none deeper, then all deep ones have stayed deep.
theorem deep_of_count {f : ValueSet → ValueSet} {d : ℕ} {m : ValueSet} (falls : ∀ m, (f m).unionDepth ≤ m.unionDepth)
    (count : ms.countP (d < ·.unionDepth) ≤ (ms.map f).countP (d < ·.unionDepth)) (mem : m ∈ ms)
    (deep : d < m.unionDepth) :
    d < (f m).unionDepth := by
  have fewer : (ms.filter fun m => d < (f m).unionDepth).Sublist (ms.filter (d < ·.unionDepth)) :=
    monotone_filter_right ms fun m inner => decide_eq_true ((of_decide_eq_true inner).trans_le (falls m))
  have same := fewer.eq_of_length_le (by simpa [countP_eq_length_filter, filter_map, Function.comp_def] using count)
  have inside : m ∈ ms.filter (d < ·.unionDepth) := mem_filter.mpr ⟨mem, decide_eq_true deep⟩
  rw [← same] at inside
  exact of_decide_eq_true (mem_filter.mp inside).2

theorem own_of_length (flat : ∀ ks, .inter ks ∉ ms) : (ms.flatMap asInterMembers).length ≤ ms.length ∧
    (ms.length ≤ (ms.flatMap asInterMembers).length → ∀ m ∈ ms, m.asInterMembers = [m]) := by
  induction ms with
  | nil => simp
  | cons m ms ih =>
    obtain ⟨least, own⟩ := ih fun ks inside => flat ks (mem_cons_of_mem _ inside)
    have first : m.asInterMembers = [m] ∨ m.asInterMembers = [] := by
      cases m with
      | inter ks => exact absurd mem_cons_self (flat ks)
      | universal t | interval i => exact .inr rfl
      | _ => exact .inl rfl
    rw [flatMap_cons, length_append, length_cons]
    rcases first with single | none
    · rw [single, length_singleton]
      exact ⟨by omega, fun enough => forall_mem_cons.mpr ⟨single, own (by omega)⟩⟩
    · rw [none, length_nil]
      exact ⟨by omega, fun enough => by omega⟩

-- An intersection of sets in simplest form that is left as it is has no intersections as members: the deepest one would
-- have come from a deeper union, and there would be fewer deep members than before.
theorem flat_of_fixed {bound : Interval} (normal : ∀ r ∈ rs, Normal domain r)
    (same : (rs.flatMap asInterMembers).map (pushBound (reduce domain) domain bound) ++ [bound.reduce domain] = rs)
    (ks : List ValueSet) : .inter ks ∉ rs := by
  have falls : ∀ m, (pushBound (reduce domain) domain bound m).unionDepth ≤ m.unionDepth :=
    push_bound_depth (fun t => reduce_within_depth _ t) bound
  have step : ∀ d, (∀ ks, .inter ks ∈ rs → maxUnionDepth ks ≤ d) → ∀ ks, .inter ks ∈ rs → maxUnionDepth ks < d := by
    intro d low ks mem
    have count := (count_deep low).trans (congrArg _ same.symm)
    rw [countP_append, countP_singleton, interval_reduce_depth] at count
    rcases mem_append.mp (same.symm ▸ mem) with pushed | last
    · obtain ⟨f, inside, made⟩ := mem_map.mp pushed
      cases f with
      | union us =>
        by_contra least
        have deep := deep_of_count falls count.le inside ((Nat.not_lt.mp least).trans_lt (push_bound_inter made))
        rw [made] at deep
        exact absurd (low ks mem) (Nat.not_le.mpr deep)
      | _ => exact absurd (made ▸ inside) (not_inter_member normal ks)
    · exact (mem_singleton.mp last ▸ interval_reduce_leaf bound : (inter ks).IsLeaf).elim
  have none : ∀ d, (∀ ks, .inter ks ∈ rs → maxUnionDepth ks < d) → ∀ ks, .inter ks ∉ rs := by
    intro d
    induction d with
    | zero => exact fun low ks mem => absurd (low ks mem) (Nat.not_lt_zero _)
    | succ d ih => exact fun low => ih (step d fun ks mem => Nat.le_of_lt_succ (low ks mem))
  exact none _ (fun ks mem => Nat.lt_succ_of_le (depth_of_member _ mem)) ks

-- Sets in simplest form whose intersection is left as it is leave no range to be met with others.
theorem tight_of_fixed (normal : ∀ r ∈ rs, Normal domain r) (same : interOf (reduce domain) domain rs = .inter rs) :
    Tight domain rs := by
  rcases inter_of_inter same with ⟨-, same | single⟩ | ⟨bound, common, same⟩
  · exact .inl ((own_of_length fun ks mem => not_inter_member normal ks (same.symm ▸ mem)).2 (congrArg _ same).ge)
  · exact absurd (single ▸ mem_singleton_self _) (not_inter_member normal rs)
  · obtain ⟨i, ranged⟩ : ∃ i, .interval i ∈ rs := by
      by_contra none
      rw [boundOf, foldl_tighten (not_exists.mp none)] at common
      cases common
    have flat := flat_of_fixed normal same
    obtain ⟨ns, ks, rfl⟩ := append_of_mem ranged
    have first := own_of_length fun us mem => flat us (mem_append_left _ mem)
    have rest := own_of_length fun us mem => flat us (mem_append_right _ (mem_cons_of_mem _ mem))
    have length := congrArg List.length same
    simp only [flatMap_append, flatMap_cons, asInterMembers, nil_append, map_append, length_append, length_map,
      length_cons, length_nil] at length
    have own := first.2 (by omega)
    have own' := rest.2 (by omega)
    cases (bound_of_single own own' i).symm.trans common
    have irreducible : bound.reduce domain = .interval bound := reduce_normal (normal _ ranged)
    rw [irreducible, flatMap_append, flatMap_cons, flat_map_self own, flat_map_self own'] at same
    rcases ks.eq_nil_or_concat' with rfl | ⟨init, last, rfl⟩
    · have kept : ns.map (pushBound (reduce domain) domain bound) = ns.map id := by simpa [asInterMembers] using same
      exact .inr ⟨ns, bound, rfl, fun n mem => ⟨own n mem, map_inj_left.mp kept n mem⟩⟩
    · have ends : ns ++ interval bound :: (init ++ [last]) = (ns ++ interval bound :: init) ++ [last] := by simp
      cases append_inj_right' (same.trans ends) rfl
      exact absurd (by simp) (not_range own' bound)

def Settles (domain : Option ValueType) (s : ValueSet) : Prop :=
  ∀ t, Relation.ReflTransGen (Calls domain) s t → ∀ rs, t.reduce domain = .inter rs → Tight domain rs

theorem tight_of_normal (normal : Normal domain (.inter rs)) : Tight domain rs := by
  cases normal with
  | inter members occupied many unlisted tight => exact tight

theorem normal_of_settles (settles : Settles domain s) : Normal domain (s.reduce domain) := by
  induction s using (calls_well_founded domain).induction with
  | h s ih =>
    rcases reduce_cases fun t call => ih t call fun u calls => settles u (calls.head call) with normal |
      ⟨⟨rs, same, -, whole⟩, -⟩
    · exact normal
    · rw [same]
      exact whole (settles s .refl rs same)

theorem steady_iff (s : ValueSet) :
    (∀ t, Relation.ReflTransGen (Calls domain) s t → (t.reduce domain).reduce domain = t.reduce domain) ↔
    Settles domain s := by
  refine ⟨fun steady => ?_, fun settles t calls =>
    reduce_normal (normal_of_settles fun u further => settles u (calls.trans further))⟩
  have normal : ∀ t, Relation.ReflTransGen (Calls domain) s t → Normal domain (t.reduce domain) := by
    intro t
    induction t using (calls_well_founded domain).induction with
    | h t ih =>
      intro calls
      rcases reduce_cases fun u call => ih u call (calls.tail call) with normal | ⟨⟨rs, same, members, whole⟩, -⟩
      · exact normal
      · have again := steady t calls
        rw [same, reduce_inter, map_congr_left fun r mem => reduce_normal (members r mem), map_id'] at again
        rw [same]
        exact whole (tight_of_fixed members again)
  exact fun t calls rs same => tight_of_normal (same ▸ normal t calls)

inductive Shallow : ValueSet → Prop
  | leaf {s : ValueSet} : s.IsLeaf → Shallow s
  | union {ms : List ValueSet} : (∀ m ∈ ms, Shallow m) → Shallow (.union ms)
  | inter {ms : List ValueSet} : (∀ m ∈ ms, m.IsLeaf) → Shallow (.inter ms)

theorem inter_members_leaves (domain : Option ValueType) (leaves : ∀ m ∈ ms, m.IsLeaf) :
    ∀ m ∈ (ms.map (reduce domain)).flatMap asInterMembers, m.asInterMembers = [m] ∧ m.IsLeaf := by
  rw [flatMap_map]
  refine forall_mem_flatMap.mpr fun m mem => ?_
  have leaf := leaves m mem
  cases m with
  | union us | inter us => cases leaf
  | universal t => exact fun _ => nofun
  | interval i =>
    exact interval_reduce_cases (motive := fun t => ∀ n ∈ t.asInterMembers, n.asInterMembers = [n] ∧ n.IsLeaf)
      (forall_mem_singleton.mpr ⟨rfl, trivial⟩) (fun _ => forall_mem_singleton.mpr ⟨rfl, trivial⟩) fun _ _ => nofun
  | _ => exact forall_mem_singleton.mpr ⟨rfl, trivial⟩

theorem calls_shallow {t : ValueSet} (call : Calls domain s t) (shallow : s.Shallow) : t.Shallow := by
  cases call with
  | member inside =>
    cases shallow with
    | leaf low => cases low
    | union members => exact members t inside
  | part inside =>
    cases shallow with
    | leaf low => cases low
    | inter leaves => exact .leaf (leaves t inside)
  | branches common inside =>
    cases shallow with
    | leaf low => cases low
    | inter leaves => cases (inter_members_leaves domain leaves _ inside).2

theorem shallow_normal (shallow : s.Shallow) : Normal domain (s.reduce domain) := by
  induction s using (calls_well_founded domain).induction with
  | h s ih =>
    rcases reduce_cases fun t call => ih t call (calls_shallow call shallow) with normal |
      ⟨⟨rs, same, members, whole⟩, ms, rfl⟩
    · exact normal
    cases shallow with
    | leaf low => cases low
    | inter leaves =>
      rw [same]
      refine whole ?_
      rw [reduce_inter] at same
      have own := fun m mem => (inter_members_leaves domain leaves m mem).1
      have low := fun m mem => (inter_members_leaves domain leaves m mem).2
      rcases inter_of_inter same with ⟨-, rfl | single⟩ | ⟨bound, -, rfl⟩
      · exact .inl own
      · cases low (.inter rs) (single ▸ mem_singleton_self _)
      · have still : ∀ m ∈ (ms.map (reduce domain)).flatMap asInterMembers, pushBound
            (reduce domain) domain bound m = m := by
          intro m mem
          cases m with
          | union us => cases low _ mem
          | _ => rfl
        rw [map_congr_left still, map_id']
        have joined := fun t (single : asInterMembers t = [t]) => forall_mem_append.mpr
          ⟨own, forall_mem_singleton.mpr single⟩
        exact interval_reduce_cases (motive := fun t => Tight domain (_ ++ [t])) (.inl (joined _ rfl))
          (fun vs => .inl (joined _ rfl))
          fun _ => .inr ⟨_, bound, rfl, fun m mem => ⟨own m mem, still m mem⟩⟩

theorem shallow_settles (shallow : s.Shallow) : Settles domain s := by
  intro t calls rs same
  have reached : t.Shallow := by
    clear same
    induction calls with
    | refl => exact shallow
    | tail _ call ih => exact calls_shallow call ih
  exact tight_of_normal (same ▸ shallow_normal reached)

theorem all_built_iff (ms : List ValueSet) : AllBuilt ms ↔ ∀ m ∈ ms, m.Built := by
  induction ms with
  | nil => simp [AllBuilt]
  | cons m ms ih => simp [AllBuilt, ih]

theorem built_defined (made : s.Made Built) : s.Defined := by
  induction s using parts_induction with
  | union ms ih | inter ms ih =>
    exact (all_defined_iff ms).mpr fun m mem => ih m mem ((all_made_iff Built ms).mp made m mem)
  | values vs => exact (values_apart made).2
  | _ => trivial

theorem closed_built : Closed Built where
  empty := trivial
  universal _ := trivial
  listed _ _ vs made listed := ⟨vs, enumerate_defined (built_defined made) listed, rfl⟩
  meet a b left right := by
    constructor
    · dsimp only [Interval.meet]
      split_ifs <;> first | exact left.1 | exact right.1
    · dsimp only [Interval.meet]
      split_ifs <;> first | exact left.2 | exact right.2

theorem inter_of_ranges {bound : Interval} (common : boundOf (ms.map (reduce domain)) = some bound)
    (ranges : ∀ p ∈ ms.map (reduce domain), p.isUniversal = true ∨ ∃ i, p = .interval i) :
    (inter ms).reduce domain = bound.reduce domain := by
  have plain : ∀ p ∈ ms.map (reduce domain), p.asInterMembers = [] ∧ p.isEmpty = false := by
    intro p present
    rcases ranges p present with universal | ⟨i, rfl⟩
    · cases p with
      | universal t => exact ⟨rfl, rfl⟩
      | _ => cases universal
    · exact ⟨rfl, rfl⟩
  have flat : (ms.map (reduce domain)).flatMap asInterMembers = [] :=
    flatMap_eq_nil_iff.mpr fun p present => (plain p present).1
  have occupied : (ms.map (reduce domain)).any isEmpty = false := by simpa using fun p present => (plain p present).2
  rw [reduce_inter, interOf, occupied, flat, common]
  cases void : (bound.reduce domain).isEmpty with
  | true => cases same : bound.reduce domain <;> simp_all [isEmpty]
  | false => simp [void, interOfMembers]

-- All sets that have to be reduced on the way keep their form when reduced again exactly if every intersection that
-- comes out of them is tight. That is so where no intersection has unions or intersections as members. Ranges alone are
-- always met in one range.
theorem reduction_settles (domain : Option ValueType) (s : ValueSet) :
    ((∀ t, Relation.ReflTransGen (Calls domain) s t → (t.reduce domain).reduce domain = t.reduce domain) ↔
      Settles domain s) ∧ (Settles domain s → Normal domain (s.reduce domain) ∧
        (s.Built → ((s.reduce domain).reduce domain).equal (s.reduce domain) = true)) ∧
      (s.Shallow → Settles domain s) ∧
      ∀ ms bound, s = .inter ms → boundOf (ms.map (reduce domain)) = some bound →
        (∀ p ∈ ms.map (reduce domain), p.isUniversal = true ∨ ∃ i, p = .interval i) →
          s.reduce domain = bound.reduce domain := by
  refine ⟨steady_iff s, fun settles => ⟨normal_of_settles settles, fun built => ?_⟩, shallow_settles, ?_⟩
  · have made := made_self (P := Built) all_built_iff all_built_iff
    have again := (made _).mp (reduce_made Built closed_built domain s ((made s).mpr built))
    rw [reduce_normal (normal_of_settles settles)]
    exact (equal_iff again again).mpr rfl
  · rintro ms bound rfl common ranges
    exact inter_of_ranges common ranges

end ValueSet

def positiveSolutions : ValueSet :=
  .inter [.interval ⟨.zero, .posInf, true, false⟩, .solutions (.eq (.ref ⟨"x", none⟩) (.ref ⟨"y", none⟩))]

theorem positive_solutions_settled : positiveSolutions.Shallow ∧ positiveSolutions.Built ∧
    ((positiveSolutions.reduce none).reduce none).equal (positiveSolutions.reduce none) = true := by
  have shallow : positiveSolutions.Shallow := .inter (by simp [ValueSet.IsLeaf])
  have built : positiveSolutions.Built := ⟨⟨nofun, nofun⟩, ⟨trivial, trivial⟩, trivial⟩
  have settles := reduction_settles none positiveSolutions
  exact ⟨shallow, built, (settles.2.1 (settles.2.2.1 shallow)).2 built⟩

-- The range that is left of the choice stands beside the bound until the set is reduced again.
theorem choice_from_four_unsettled : choiceFromFour.Built ∧ choiceFromFour.Made ValueSet.HasModerateEnds ∧
    choiceFromFour.reduce (some .double) =
      .inter [.interval ⟨.finite 5, .finite 6, false, false⟩, .interval ⟨.finite 4, .finite 10, false, false⟩] ∧
    (choiceFromFour.reduce (some .double)).reduce (some .double) = .interval ⟨.finite 5, .finite 6, false, false⟩ ∧
    ((choiceFromFour.reduce (some .double)).reduce (some .double)).equal
      (choiceFromFour.reduce (some .double)) = false := by
  exact ⟨⟨⟨⟨nofun, nofun⟩, ⟨nofun, nofun⟩, trivial⟩, ⟨nofun, nofun⟩, trivial⟩, choice_from_four_moderate, rfl,
    rfl, by decide⟩

end Blockwork
