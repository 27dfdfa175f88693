import Blockwork.Proofs.ReductionCalls

set_option autoImplicit false

namespace Blockwork

open List

variable {bound : Interval}

namespace ValueSet

-- Reducing sets makes others of the same parts, of common bounds of intervals, and of lists.
structure Closed (P : ValueSet → Prop) : Prop where
  empty : P .empty
  universal : ∀ t, P (.universal t)
  listed : ∀ (domain : Option ValueType) (s : ValueSet) (vs : List Number), s.Made P → s.enumerate domain = .ok vs →
    P (.ofValues vs)
  meet : ∀ a b : Interval, P (.interval a) → P (.interval b) → P (.interval (a.meet b))

variable {parts : List ValueSet} {domain : Option ValueType} {v : Value} {s : ValueSet}

theorem bound_of_induction (Q : Interval → Prop) (single : ∀ i : Interval, ValueSet.interval i ∈ parts → Q i)
    (meet : ∀ a b : Interval, Q a → ValueSet.interval b ∈ parts → Q (a.meet b)) (common : boundOf parts = some bound) :
    Q bound := by
  suffices general : ∀ start : Option Interval, (∀ b, start = some b → Q b) →
    ∀ b, parts.foldl tighten start = some b → Q b from
    general none (by simp) bound common
  clear common
  induction parts with
  | nil => exact fun start inside => inside
  | cons m rest ih =>
    intro start inside
    rw [foldl_cons]
    refine ih (fun i mem => single i (mem_cons_of_mem m mem))
      (fun a b holds mem => meet a b holds (mem_cons_of_mem m mem)) _ ?_
    cases m with
    | interval i =>
      cases start with
      | none =>
        intro b same
        cases same
        exact single i mem_cons_self
      | some a =>
        intro b same
        cases same
        exact meet a i (inside a rfl) mem_cons_self
    | _ => exact inside

section Parts

variable (P : ValueSet → Prop) (closed : Closed P) (domain : Option ValueType) {parts : List ValueSet}

include closed

theorem interval_reduce_made (i : Interval) (made : P (.interval i)) : (i.reduce domain).Made P := by
  unfold Interval.reduce
  split_ifs
  · exact closed.empty
  · split
    · exact closed.empty
    · next vs _ listed => exact closed.listed domain (.interval i) vs made listed
    · exact made
  · exact made

omit closed in
theorem union_members_made (made : ∀ m ∈ parts, m.Made P) : ∀ m ∈ parts.flatMap asUnionMembers, m.Made P := by
  refine forall_mem_flatMap.mpr fun part present => ?_
  have whole := made part present
  cases part with
  | empty => simp [asUnionMembers]
  | union ms => exact (all_made_iff P ms).mp whole
  | _ => simpa [asUnionMembers] using whole

theorem union_of_made (made : ∀ m ∈ parts, m.Made P) : (unionOf domain parts).Made P := by
  have members := union_members_made P made
  have whole := (all_made_iff P _).mpr members
  exact union_of_cases (motive := fun t => t.Made P) rfl (fun u present _ => made u present) (fun _ => closed.empty)
    (fun m flat => members m (by simp [flat])) (fun vs listed => closed.listed domain (.union _) vs whole listed)
    fun _ _ _ => whole

theorem inter_of_members_made {members : List ValueSet} (made : ∀ m ∈ members, m.Made P) :
    (interOfMembers domain members).Made P := by
  have whole := (all_made_iff P _).mpr made
  exact inter_of_members_cases (motive := fun t => t.Made P) (fun _ => closed.universal domain)
    (fun m same => made m (by simp [same])) (fun _ => closed.empty)
    (fun vs listed => closed.listed domain (.inter _) vs whole listed) fun _ _ => whole

omit closed in
theorem inter_members_made (made : ∀ m ∈ parts, m.Made P) : ∀ m ∈ parts.flatMap asInterMembers, m.Made P := by
  refine forall_mem_flatMap.mpr fun part present => ?_
  have whole := made part present
  cases part with
  | inter ms => exact (all_made_iff P ms).mp whole
  | universal t | interval i => simp [asInterMembers]
  | _ => simpa [asInterMembers] using whole

theorem bound_of_made (made : ∀ m ∈ parts, m.Made P) (common : boundOf parts = some bound) : P (.interval bound) :=
  bound_of_induction (fun i => P (.interval i)) (fun i mem => made (.interval i) mem)
    (fun a b holds mem => closed.meet a b holds (made (.interval b) mem)) common

omit closed in
theorem branches_made (inside : P (.interval bound)) {us : List ValueSet} (made : (ValueSet.union us).Made P) :
    (ValueSet.union (us.map fun m => .inter [.interval bound, m])).Made P := by
  refine (all_made_iff P _).mpr (forall_mem_map.mpr fun m mem => ?_)
  exact ⟨inside, (all_made_iff P us).mp made m mem, trivial⟩

-- What holds of the parts of a set, and is kept by common bounds and lists, holds of the parts of its simplest form.
theorem reduce_made (s : ValueSet) (made : s.Made P) : (s.reduce domain).Made P := by
  induction s using (calls_well_founded domain).induction with
  | h s ih =>
    cases s with
    | interval i => exact interval_reduce_made P closed domain i made
    | union ms =>
      rw [reduce_union]
      exact union_of_made P closed domain (forall_mem_map.mpr fun m mem =>
        ih m (.member mem) ((all_made_iff P ms).mp made m mem))
    | inter ms =>
      have parts : ∀ p ∈ ms.map (reduce domain), p.Made P := forall_mem_map.mpr fun m mem =>
        ih m (.part mem) ((all_made_iff P ms).mp made m mem)
      have members := inter_members_made P parts
      rw [reduce_inter]
      refine inter_of_cases (motive := fun t => t.Made P) rfl (fun _ _ _ => closed.empty)
        (fun _ _ => inter_of_members_made P closed domain members)
          (fun _ _ _ _ _ => closed.empty) fun bound _ common _ => ?_
      have inside := bound_of_made P closed parts common
      refine inter_of_members_made P closed domain (forall_mem_append.mpr ⟨forall_pushed members fun us mem => ?_, ?_⟩)
      · rw [push_bound_union]
        exact ih _ (.branches common mem) (branches_made P inside (members _ mem))
      · simpa using interval_reduce_made P closed domain bound inside
    | _ => exact made

end Parts

variable (kept : Expr → Value → Prop)

theorem interval_reduce_has {i : Interval} (lists : i.Lists domain v) (has : (ValueSet.interval i).Has kept v) :
    (i.reduce domain).Has kept v := by
  obtain ⟨q, rfl, inside⟩ := id has
  rw [Interval.reduce, i.not_void inside, if_neg Bool.false_ne_true]
  split_ifs with small
  · cases all : i.enumerate domain with
    | error fault => exact has
    | ok vs =>
      have members := (has_values_iff kept q vs).mpr (lists vs all q rfl inside)
      cases vs with
      | nil => simp [ValueSet.Has] at members
      | cons x rest => exact (has_of_values kept _ _).mpr members
  · exact has

theorem has_as_union_members (v : Value) (s : ValueSet) :
    s.Has kept v ↔ ∃ m ∈ s.asUnionMembers, m.Has kept v := by
  cases s with
  | empty => simp [asUnionMembers, Has]
  | union ms =>
    rw [asUnionMembers, Has]
    exact has_any_iff kept v ms
  | _ => simp [asUnionMembers]

theorem has_as_inter_members (has : s.Has kept v) : ∀ m ∈ s.asInterMembers, m.Has kept v := by
  cases s with
  | inter ms =>
    rw [asInterMembers]
    exact (has_all_iff kept v ms).mp has
  | _ => simp_all [asInterMembers]

theorem bound_of_holds (has : ∀ m ∈ parts, m.Has kept v) (common : boundOf parts = some bound) :
    (ValueSet.interval bound).Has kept v := by
  refine bound_of_induction (fun i => (ValueSet.interval i).Has kept v) (fun i mem => has (.interval i) mem)
    (fun a b left mem => ?_) common
  obtain ⟨q, rfl, inside⟩ := left
  obtain ⟨p, same, inside'⟩ := has (.interval b) mem
  cases same
  exact ⟨q, rfl, a.meet_holds b inside inside'⟩

section Kept

variable (P : ValueSet → Prop) (closed : Closed P) (domain : Option ValueType) (v : Value)
  (lists : ∀ s, P s → ListsValue domain v s) {parts : List ValueSet}

include lists

theorem union_of_has (made : ∀ m ∈ parts, m.Made P) (has : ∃ m ∈ parts, m.Has kept v) :
    (unionOf domain parts).Has kept v := by
  have members : ∃ m ∈ parts.flatMap asUnionMembers, m.Has kept v := by
    obtain ⟨part, present, holds⟩ := has
    obtain ⟨m, mem, holds⟩ := (has_as_union_members kept v part).mp holds
    exact ⟨m, mem_flatMap.mpr ⟨part, present, mem⟩, holds⟩
  have whole := (has_any_iff kept v _).mpr members
  refine union_of_cases (motive := fun t => t.Has kept v) rfl (fun u _ all => ?_) (fun flat => ?_) (fun m flat => ?_)
    (fun vs listed => (has_of_values kept v vs).mpr (listed_has kept domain v (.union _) ?_ whole vs listed))
    fun _ _ _ => whole
  · cases u <;> simp_all [isUniversal, Has]
  · simp [flat] at members
  · simpa [flat] using members
  · exact (all_made_iff _ _).mpr fun m mem => made_imp P _ lists (union_members_made P made m mem)

theorem inter_of_members_has {members : List ValueSet} (made : ∀ m ∈ members, m.Made P)
    (has : ∀ m ∈ members, m.Has kept v) : (interOfMembers domain members).Has kept v := by
  have whole := (has_all_iff kept v members).mpr has
  have listed : ∀ vs, (ValueSet.inter members).enumerate domain = .ok vs → (ValueSet.values vs).Has kept v := by
    refine listed_has kept domain v (.inter members) ((all_made_iff _ members).mpr fun m mem => ?_) whole
    exact made_imp P _ lists (made m mem)
  exact inter_of_members_cases (motive := fun t => t.Has kept v) (fun _ => trivial)
    (fun m same => has m (by simp [same]))
    (fun all => by simpa [Has] using listed [] all) (fun vs all => (has_of_values kept v vs).mpr (listed vs all))
    fun _ _ => whole

include closed

theorem reduce_has_made (s : ValueSet) (made : s.Made P) (has : s.Has kept v) : (s.reduce domain).Has kept v := by
  induction s using (calls_well_founded domain).induction with
  | h s ih =>
    cases s with
    | interval i => exact interval_reduce_has kept (lists _ made) has
    | union ms =>
      have each := (all_made_iff P ms).mp made
      obtain ⟨m, mem, holds⟩ := (has_any_iff kept v ms).mp has
      rw [reduce_union]
      exact union_of_has kept P domain v lists
        (forall_mem_map.mpr fun m mem => reduce_made P closed domain m (each m mem))
        ⟨_, mem_map_of_mem mem, ih m (.member mem) (each m mem) holds⟩
    | inter ms =>
      have each := (all_made_iff P ms).mp made
      have parts : ∀ p ∈ ms.map (reduce domain), p.Has kept v := forall_mem_map.mpr fun m mem =>
        ih m (.part mem) (each m mem) ((has_all_iff kept v ms).mp has m mem)
      have neat : ∀ p ∈ ms.map (reduce domain), p.Made P := forall_mem_map.mpr fun m mem =>
        reduce_made P closed domain m (each m mem)
      have members := forall_mem_flatMap.mpr fun p present => has_as_inter_members kept (parts p present)
      have neatly := inter_members_made P neat
      have pushed : ∀ bound, boundOf (ms.map (reduce domain)) = some bound →
          ∀ m ∈ ((ms.map (reduce domain)).flatMap asInterMembers).map (pushBound (reduce domain) domain bound) ++
            [bound.reduce domain], m.Made P ∧ m.Has kept v := by
        intro bound common
        have plain := bound_of_made P closed neat common
        have inside := bound_of_holds kept parts common
        refine forall_mem_append.mpr ⟨forall_pushed (fun m mem => ⟨neatly m mem, members m mem⟩) fun us mem => ?_, ?_⟩
        · have branches := branches_made P plain (neatly _ mem)
          obtain ⟨m, present, holds⟩ := (has_any_iff kept v us).mp (members _ mem)
          rw [push_bound_union]
          refine ⟨reduce_made P closed domain _ branches, ih _ (.branches common mem) branches ?_⟩
          exact (has_any_iff kept v _).mpr ⟨_, mem_map_of_mem present, inside, holds, trivial⟩
        · simpa using ⟨interval_reduce_made P closed domain bound plain,
            interval_reduce_has kept (lists _ plain) inside⟩
      rw [reduce_inter]
      refine inter_of_cases (motive := fun t => t.Has kept v) rfl (fun p present vacant => ?_)
        (fun _ _ => inter_of_members_has kept P domain v lists neatly members) (fun bound common m mem vacant => ?_)
        fun bound _ common _ => inter_of_members_has kept P domain v lists (fun m mem => (pushed bound common m mem).1)
          fun m mem => (pushed bound common m mem).2
      · cases (not_empty_of_has kept (parts p present)).symm.trans vacant
      · cases (not_empty_of_has kept (pushed bound common m mem).2).symm.trans vacant
    | _ => exact has

end Kept

theorem reduce_has (fits : v.Fits domain) (has : s.Has kept v) : (s.reduce domain).Has kept v :=
  reduce_has_made kept (fun _ => True)
    ⟨trivial, fun _ => trivial, fun _ _ _ _ _ => trivial, fun _ _ _ _ => trivial⟩ domain v
    (fun s _ => lists_value_fitting fits s) s (made_always _ (fun _ => trivial) s) has

end ValueSet

end Blockwork
