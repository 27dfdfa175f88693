import Blockwork.Proofs.SetMeaning

set_option autoImplicit false

namespace Blockwork

open List Nat

namespace ValueSet

variable {domain : Option ValueType}

section Cases

variable {motive : ValueSet → Prop} {parts ms : List ValueSet} {deeper : ValueSet → ValueSet}

theorem two_le_length (several : ∀ m, ms = [m] → False) (some : ms = [] → False) : 2 ≤ ms.length := by
  rcases ms with _ | ⟨a, _ | ⟨b, rest⟩⟩
  · exact (some rfl).elim
  · exact (several a rfl).elim
  · exact le_add_left 2 _

theorem union_of_cases (flat : parts.flatMap asUnionMembers = ms)
    (universal : ∀ u ∈ parts, u.isUniversal = true → motive u)
    (empty : ms = [] → motive .empty) (single : ∀ m, ms = [m] → motive m)
    (listed : ∀ vs, (ValueSet.union ms).enumerate domain = .ok vs → motive (.ofValues vs))
    (kept : (∀ p ∈ parts, p.isUniversal = false) → 2 ≤ ms.length →
      (∀ vs, (ValueSet.union ms).enumerate domain ≠ .ok vs) → motive (.union ms)) : motive (unionOf domain parts) := by
  unfold unionOf
  cases found : parts.find? isUniversal with
  | some u => exact universal u (mem_of_find?_eq_some found) (find?_some found)
  | none =>
    have others : ∀ p ∈ parts, p.isUniversal = false := by simpa using found
    dsimp only
    rw [flat]
    split
    · exact empty rfl
    · exact single _ rfl
    · next none several =>
      have many := two_le_length several none
      split_ifs with finite
      · split
        · exact listed _ ‹_›
        · next failed => exact kept others many (by simp [failed])
      · exact kept others many (by simp [enumerate, finite])

theorem inter_of_members_cases (none : ms = [] → motive (.universal domain)) (single : ∀ m, ms = [m] → motive m)
    (empty : (ValueSet.inter ms).enumerate domain = .ok [] → motive .empty)
    (listed : ∀ vs, (ValueSet.inter ms).enumerate domain = .ok vs → motive (.ofValues vs))
    (kept : 2 ≤ ms.length → (∀ vs, (ValueSet.inter ms).enumerate domain ≠ .ok vs) → motive (.inter ms)) :
    motive (interOfMembers domain ms) := by
  unfold interOfMembers
  split
  · exact none rfl
  · exact single _ rfl
  · next none several =>
    have many := two_le_length several none
    split_ifs with finite
    · split
      · exact empty ‹_›
      · exact listed _ ‹_›
      · next failed => exact kept many (by simp [failed])
    · exact kept many (by simp [enumerate, finite])

theorem forall_pushed {bound : Interval} (plain : ∀ m ∈ ms, motive m)
    (pushed : ∀ us, .union us ∈ ms → motive (pushBound deeper domain bound (.union us))) :
    ∀ m ∈ ms.map (pushBound deeper domain bound), motive m := by
  refine forall_mem_map.mpr fun m mem => ?_
  cases m with
  | union us => exact pushed us mem
  | _ => exact plain _ mem

theorem inter_of_cases (flat : parts.flatMap asInterMembers = ms) (void : ∀ p ∈ parts, p.isEmpty = true → motive .empty)
    (free : (∀ p ∈ parts, p.isEmpty = false) → boundOf parts = none → motive (interOfMembers domain ms))
    (shut : ∀ bound, boundOf parts = some bound →
      ∀ m ∈ ms.map (pushBound deeper domain bound) ++ [bound.reduce domain], m.isEmpty = true → motive .empty)
    (bounded : ∀ bound, (∀ p ∈ parts, p.isEmpty = false) → boundOf parts = some bound →
      (∀ m ∈ ms.map (pushBound deeper domain bound) ++ [bound.reduce domain], m.isEmpty = false) →
        motive (interOfMembers domain (ms.map (pushBound deeper domain bound) ++ [bound.reduce domain]))) :
    motive (interOf deeper domain parts) := by
  unfold interOf
  rw [flat]
  split_ifs with vacant
  · obtain ⟨p, present, here⟩ := any_eq_true.mp vacant
    exact void p present here
  · have occupied : ∀ p ∈ parts, p.isEmpty = false := by simpa using vacant
    cases common : boundOf parts with
    | none => exact free occupied common
    | some bound =>
      dsimp only
      split_ifs with closed
      · rw [Bool.or_eq_true, any_eq_true] at closed
        rcases closed with ⟨m, mem, here⟩ | here
        · exact shut bound common m (mem_append_left _ mem) here
        · exact shut bound common _ (by simp) here
      · rw [Bool.or_eq_true, not_or] at closed
        exact bounded bound occupied common (forall_mem_append.mpr ⟨by simpa using closed.1, by simpa using closed.2⟩)

end Cases

variable {ms : List ValueSet} {k depth : ℕ}

theorem max_union_depth_le : maxUnionDepth ms ≤ k ↔ ∀ m ∈ ms, m.unionDepth ≤ k := by
  induction ms with
  | nil => simp [maxUnionDepth]
  | cons m ms ih => simp [maxUnionDepth, ih]

theorem depth_of_member : ∀ m ∈ ms, m.unionDepth ≤ maxUnionDepth ms := max_union_depth_le.mp le_rfl

theorem interval_reduce_cases {motive : ValueSet → Prop} {i : Interval} (empty : motive .empty)
    (listed : ∀ vs, motive (.values vs))
    (kept : i.reduce domain = .interval i → motive (.interval i)) : motive (i.reduce domain) := by
  have cases : i.reduce domain = .empty ∨ (∃ vs, i.reduce domain = .values vs) ∨ i.reduce domain = .interval i := by
    unfold Interval.reduce
    split_ifs
    · exact .inl rfl
    · split
      · exact .inl rfl
      · exact .inr (.inl ⟨_, rfl⟩)
      · exact .inr (.inr rfl)
    · exact .inr (.inr rfl)
  rcases cases with same | ⟨vs, same⟩ | same
  · exact same ▸ empty
  · exact same ▸ listed vs
  · exact same.symm ▸ kept same

theorem interval_reduce_depth (i : Interval) : (i.reduce domain).unionDepth = 0 :=
  interval_reduce_cases (motive := fun t => t.unionDepth = 0) rfl (fun _ => rfl) fun _ => rfl

section Depth

variable {f g : ValueSet → ValueSet} {k : ℕ} {parts : List ValueSet}

theorem union_members_depth (low : ∀ p ∈ parts, p.unionDepth ≤ k) :
    ∀ m ∈ parts.flatMap asUnionMembers, m.unionDepth ≤ k := by
  intro m mem
  obtain ⟨p, present, inside⟩ := mem_flatMap.mp mem
  have within := low p present
  cases p with
  | empty => simp [asUnionMembers] at inside
  | union ms => exact (depth_of_member m inside).trans (le_of_succ_le within)
  | _ => exact mem_singleton.mp inside ▸ within

theorem inter_members_depth (low : ∀ p ∈ parts, p.unionDepth ≤ k) :
    ∀ m ∈ parts.flatMap asInterMembers, m.unionDepth ≤ k := by
  intro m mem
  obtain ⟨p, present, inside⟩ := mem_flatMap.mp mem
  have within := low p present
  cases p with
  | inter ms => exact (depth_of_member m inside).trans within
  | universal t | interval i => simp [asInterMembers] at inside
  | _ => exact mem_singleton.mp inside ▸ within

theorem union_of_depth (low : ∀ p ∈ parts, p.unionDepth ≤ k) : (unionOf domain parts).unionDepth ≤ k + 1 := by
  have members := union_members_depth low
  refine union_of_cases (motive := fun t => t.unionDepth ≤ k + 1) rfl (fun u present _ => le_succ_of_le (low u present))
    (fun _ => zero_le _) (fun m flat => ?_) (fun _ _ => zero_le _)
    fun _ _ _ => succ_le_succ (max_union_depth_le.mpr members)
  exact le_succ_of_le (members m (flat ▸ mem_singleton_self m))

variable {ms : List ValueSet}

theorem inter_of_members_depth (low : ∀ m ∈ ms, m.unionDepth ≤ k) : (interOfMembers domain ms).unionDepth ≤ k :=
  inter_of_members_cases (motive := fun t => t.unionDepth ≤ k) (fun _ => zero_le _)
    (fun m same => low m (same ▸ mem_singleton_self m)) (fun _ => zero_le _) (fun _ _ => zero_le _)
    fun _ _ => max_union_depth_le.mpr low

theorem branch_depth (bound : Interval) (low : (ValueSet.union ms).unionDepth ≤ k) {m : ValueSet} (mem : m ∈ ms) :
    (ValueSet.inter [.interval bound, m]).unionDepth < k := by
  have inner := depth_of_member m mem
  simp only [unionDepth, maxUnionDepth] at low ⊢
  omega

theorem push_bound_depth (shrinks : ∀ t, (f t).unionDepth ≤ t.unionDepth) (bound : Interval) (s : ValueSet) :
    (pushBound f domain bound s).unionDepth ≤ s.unionDepth := by
  cases s with
  | union ms =>
    refine union_of_depth fun p present => ?_
    obtain ⟨m, mem, rfl⟩ := mem_map.mp present
    exact (shrinks _).trans (le_of_lt_succ (branch_depth bound le_rfl mem))
  | _ => exact le_rfl

theorem inter_of_depth (shrinks : ∀ t, (f t).unionDepth ≤ t.unionDepth) (low : ∀ p ∈ parts, p.unionDepth ≤ k) :
    (interOf f domain parts).unionDepth ≤ k := by
  have members := inter_members_depth low
  refine inter_of_cases (motive := fun t => t.unionDepth ≤ k) rfl (fun _ _ _ => zero_le _)
    (fun _ _ => inter_of_members_depth members) (fun _ _ _ _ _ => zero_le _)
    fun bound _ _ _ => inter_of_members_depth (forall_mem_append.mpr ⟨?_, by simp [interval_reduce_depth]⟩)
  exact forall_mem_map.mpr fun m mem => (push_bound_depth shrinks bound m).trans (members m mem)

theorem reduce_all_eq_map (ms : List ValueSet) : reduceAll f domain ms = ms.map (reduceWith f domain) := by
  induction ms with
  | nil => rfl
  | cons m ms ih => rw [reduceAll, ih, map_cons]

theorem reduce_with_depth (shrinks : ∀ t, (f t).unionDepth ≤ t.unionDepth) (s : ValueSet) :
    (s.reduceWith f domain).unionDepth ≤ s.unionDepth := by
  induction s using parts_induction with
  | interval i => exact (interval_reduce_depth i).le
  | union ms ih =>
    rw [reduceWith, reduce_all_eq_map]
    exact union_of_depth (forall_mem_map.mpr fun m mem => (ih m mem).trans (depth_of_member m mem))
  | inter ms ih =>
    rw [reduceWith, reduce_all_eq_map]
    exact inter_of_depth shrinks (forall_mem_map.mpr fun m mem => (ih m mem).trans (depth_of_member m mem))
  | _ => exact le_rfl

theorem inter_of_congr (push : ∀ bound us, boundOf parts = some bound → .union us ∈ parts.flatMap asInterMembers →
    pushBound f domain bound (.union us) = pushBound g domain bound (.union us)) : interOf f domain parts =
      interOf g domain parts := by
  unfold interOf
  cases common : boundOf parts with
  | none => rfl
  | some bound =>
    have members : (parts.flatMap asInterMembers).map (pushBound f domain bound) =
        (parts.flatMap asInterMembers).map (pushBound g domain bound) := by
      refine map_congr_left fun m mem => ?_
      cases m with
      | union us => exact push bound us common mem
      | _ => rfl
    dsimp only
    rw [members]

theorem push_bound_congr (same : ∀ t, t.unionDepth < k → f t = g t) (low : ∀ p ∈ parts, p.unionDepth ≤ k)
    (bound : Interval) (us : List ValueSet) (mem : .union us ∈ parts.flatMap asInterMembers) :
    pushBound f domain bound (.union us) = pushBound g domain bound (.union us) := by
  have within := inter_members_depth low _ mem
  exact congrArg (unionOf domain) (map_congr_left fun m mem => same _ (branch_depth bound within mem))

theorem reduce_with_congr (same : ∀ t, t.unionDepth < k → f t = g t) (shrinks : ∀ t, (f t).unionDepth ≤ t.unionDepth)
    (s : ValueSet) (low : s.unionDepth ≤ k) : s.reduceWith f domain = s.reduceWith g domain := by
  induction s using parts_induction with
  | union ms ih =>
    have within := max_union_depth_le.mp (le_of_succ_le low)
    rw [reduceWith, reduceWith, reduce_all_eq_map, reduce_all_eq_map, map_congr_left fun m mem =>
      ih m mem (within m mem)]
  | inter ms ih =>
    have within := max_union_depth_le.mp low
    rw [reduceWith, reduceWith, reduce_all_eq_map, reduce_all_eq_map, ← map_congr_left fun m mem =>
      ih m mem (within m mem)]
    exact inter_of_congr fun bound us _ => push_bound_congr same (forall_mem_map.mpr fun m mem =>
      (reduce_with_depth shrinks m).trans (within m mem)) bound us
  | _ => rfl

end Depth

theorem reduce_within_depth (depth : ℕ) (s : ValueSet) : (reduceWithin domain depth s).unionDepth ≤ s.unionDepth := by
  induction depth generalizing s with
  | zero => exact reduce_with_depth (fun t => le_rfl) s
  | succ depth ih => exact reduce_with_depth ih s

-- Beyond the nesting of its unions the depth granted to a set does not matter.
theorem reduce_within_succ (depth : ℕ) (s : ValueSet) (low : s.unionDepth ≤ depth) :
    reduceWithin domain (depth + 1) s = reduceWithin domain depth s := by
  induction depth generalizing s with
  | zero => exact reduce_with_congr (fun t inner => absurd inner (not_lt_zero _)) (reduce_within_depth 0) s low
  | succ depth ih =>
    exact reduce_with_congr (fun t inner => ih t (le_of_lt_succ inner)) (reduce_within_depth (depth + 1)) s low

theorem reduce_within_eq (s : ValueSet) (low : s.unionDepth ≤ depth) :
    reduceWithin domain depth s = s.reduce domain := by
  induction depth, low using le_induction with
  | base => rfl
  | succ depth low ih => rw [reduce_within_succ depth s low, ih]

theorem reduce_all_within (low : ∀ m ∈ ms, m.unionDepth ≤ depth) :
    reduceAll (reduceWithin domain depth) domain ms = ms.map (reduce domain) := by
  rw [reduce_all_eq_map]
  exact map_congr_left fun m mem => reduce_within_eq m (le_succ_of_le (low m mem))

theorem reduce_union (ms : List ValueSet) :
    (ValueSet.union ms).reduce domain = unionOf domain (ms.map (reduce domain)) := by
  rw [← reduce_all_within depth_of_member]
  rfl

theorem reduced_depth (low : maxUnionDepth ms ≤ k) : ∀ p ∈ ms.map (reduce domain), p.unionDepth ≤ k :=
  forall_mem_map.mpr fun m mem => (reduce_within_depth _ m).trans ((depth_of_member m mem).trans low)

theorem reduce_inter (ms : List ValueSet) :
    (ValueSet.inter ms).reduce domain = interOf (reduce domain) domain (ms.map (reduce domain)) := by
  rw [← reduce_within_eq (.inter ms) (le_succ (maxUnionDepth ms)), reduceWithin, reduceWith,
    reduce_all_within depth_of_member]
  exact inter_of_congr fun bound us _ => push_bound_congr (fun t inner => reduce_within_eq t inner.le)
    (reduced_depth le_rfl) bound us

theorem push_bound_union (bound : Interval) (us : List ValueSet) : pushBound (reduce domain) domain bound (.union us) =
    (ValueSet.union (us.map fun m => .inter [.interval bound, m])).reduce domain := by
  rw [pushBound, reduce_union, map_map]
  rfl

-- The sets that have to be reduced in order to reduce a set.
inductive Calls (domain : Option ValueType) : ValueSet → ValueSet → Prop
  | member {ms : List ValueSet} {m : ValueSet} : m ∈ ms → Calls domain (.union ms) m
  | part {ms : List ValueSet} {m : ValueSet} : m ∈ ms → Calls domain (.inter ms) m
  | branches {ms us : List ValueSet} {bound : Interval} : boundOf (ms.map (reduce domain)) = some bound →
      .union us ∈ (ms.map (reduce domain)).flatMap asInterMembers →
        Calls domain (.inter ms) (.union (us.map fun m => .inter [.interval bound, m]))

section Order

variable {k : ℕ} (below : ∀ t : ValueSet, t.unionDepth < k → Acc (fun t s => Calls domain s t) t)

include below

theorem union_accessible {ms : List ValueSet} (low : ∀ m ∈ ms, m.unionDepth < k) :
    Acc (fun t s => Calls domain s t) (.union ms) := by
  refine .intro _ fun t call => ?_
  cases call with
  | member inside => exact below t (low t inside)

-- Among sets with as many layers of unions a call leads to a part, or to a union and on to less.
theorem calls_accessible (s : ValueSet) (low : s.unionDepth ≤ k) : Acc (fun t s => Calls domain s t) s := by
  induction s using parts_induction with
  | union ms => exact union_accessible below fun m mem => (lt_succ_of_le (depth_of_member m mem)).trans_le low
  | inter ms ih =>
    refine .intro _ fun t call => ?_
    cases call with
    | part inside => exact ih t inside ((depth_of_member t inside).trans low)
    | branches common inside =>
      have inner := inter_members_depth (reduced_depth low) _ inside
      exact union_accessible below (forall_mem_map.mpr fun m mem => branch_depth _ inner mem)
  | _ => exact .intro _ nofun

end Order

theorem calls_well_founded (domain : Option ValueType) : WellFounded fun t s => Calls domain s t := by
  have layers : ∀ k, ∀ s : ValueSet, s.unionDepth < k → Acc (fun t s => Calls domain s t) s := by
    intro k
    induction k with
    | zero => exact fun s low => absurd low (not_lt_zero _)
    | succ k ih => exact fun s low => calls_accessible ih s (le_of_lt_succ low)
  exact ⟨fun s => layers _ s (lt_succ_self _)⟩

end ValueSet

end Blockwork
