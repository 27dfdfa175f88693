import Blockwork.Proofs.Settled

set_option autoImplicit false

namespace Blockwork

open List Number ValueSet

variable {vs : List Number}

namespace Number

variable {a b c d v w : Number} {f : Number → Number → Number}

theorem eq_quantity (defined : a ≠ .nan) : a.eq b = true ↔ a.quantity? = b.quantity? := by
  constructor
  · intro same
    obtain ⟨p, left, right⟩ := eq_defined same
    rw [left, right]
  · intro same
    cases left : a.quantity? with
    | none => exact absurd (quantity_none left) defined
    | some p => exact (eq_iff b p left (same ▸ left)).mpr rfl

theorem lt_congr (left : a.quantity? = c.quantity?) (right : b.quantity? = d.quantity?) : a.lt b = c.lt d := by
  have whole : ∀ x y : Number, x.lt y = true ↔ ∃ p q, x.quantity? = some p ∧ y.quantity? = some q ∧ p < q := by
    refine fun x y => ⟨lt_defined, ?_⟩
    rintro ⟨p, q, first, second, less⟩
    exact (lt_iff first second).mpr less
  rw [Bool.eq_iff_iff, whole, whole, left, right]

theorem eq_congr (left : a.quantity? = c.quantity?) (right : b.quantity? = d.quantity?) : a.eq b = c.eq d := by
  have whole : ∀ x y : Number, x.eq y = true ↔ ∃ p, x.quantity? = some p ∧ y.quantity? = some p := by
    refine fun x y => ⟨eq_defined, ?_⟩
    rintro ⟨p, first, second⟩
    exact (eq_iff y p first second).mpr rfl
  rw [Bool.eq_iff_iff, whole, whole, left, right]

theorem le_congr (left : a.quantity? = c.quantity?) (right : b.quantity? = d.quantity?) : a.le b = c.le d := by
  rw [le, le, lt_congr left right, eq_congr left right]

def amounts (vs : List Number) : Finset (Option Quantity) := (vs.map quantity?).toFinset

theorem mem_amounts {q : Option Quantity} : q ∈ amounts vs ↔ ∃ v ∈ vs, v.quantity? = q := by
  simp [amounts]

theorem member_of_amounts (x : Number) : memberOf vs x = true ↔ x ≠ .nan ∧ x.quantity? ∈ amounts vs := by
  rw [memberOf, any_eq_true, mem_amounts]
  constructor
  · rintro ⟨v, mem, same⟩
    obtain ⟨p, left, right⟩ := eq_defined same
    exact ⟨not_nan_of_eq same, v, mem, left.trans right.symm⟩
  · rintro ⟨defined, v, mem, same⟩
    refine ⟨v, mem, (eq_quantity ?_).mpr same⟩
    rintro rfl
    exact defined (quantity_none same.symm)

theorem ascending_apart (up : ascending vs = true) : vs.Pairwise fun a b => a.lt b = true := by
  induction vs with
  | nil => exact .nil
  | cons v vs ih =>
    cases vs with
    | nil => exact pairwise_singleton _ v
    | cons w rest =>
      rw [ascending, Bool.and_eq_true] at up
      have later := ih up.2
      refine later.cons (forall_mem_cons.mpr ⟨up.1, fun x mem => ?_⟩)
      obtain ⟨p, q, left, middle, less⟩ := lt_defined up.1
      obtain ⟨q', r, middle', right, less'⟩ := lt_defined ((pairwise_cons.mp later).1 x mem)
      cases middle.symm.trans middle'
      exact (lt_iff left right).mpr (less.trans less')

theorem distinct_from_apart (defined : ∀ v ∈ vs, v ≠ .nan) (seen : List Number) :
    ((distinctFrom seen vs).map quantity?).Nodup ∧ ∀ v ∈ distinctFrom seen vs, memberOf seen v = false := by
  induction vs generalizing seen with
  | nil => simp [distinctFrom]
  | cons v vs ih =>
    obtain ⟨first, rest⟩ := forall_mem_cons.mp defined
    rw [distinctFrom]
    split_ifs with known
    · exact ih rest seen
    · obtain ⟨apart, fresh⟩ := ih rest (v :: seen)
      simp only [memberOf, any_cons, Bool.or_eq_false_iff] at fresh known ⊢
      refine ⟨nodup_cons.mpr ⟨fun again => ?_, apart⟩,
        forall_mem_cons.mpr ⟨by simpa using known, fun w mem => (fresh w mem).2⟩⟩
      obtain ⟨w, mem, same⟩ := mem_map.mp again
      exact Bool.false_ne_true ((fresh w mem).1.symm.trans ((eq_quantity first).mpr same.symm))

theorem distinct_apart (defined : ∀ v ∈ vs, v ≠ .nan) : ((distinct vs).map quantity?).Nodup := by
  unfold distinct
  split_ifs with up
  · refine pairwise_map.mpr ((ascending_apart up).imp fun less same => ?_)
    obtain ⟨p, q, left, right, order⟩ := lt_defined less
    cases left.symm.trans (same.trans right)
    exact lt_irrefl _ order
  · exact (distinct_from_apart defined []).1

-- Counting makes containment one way enough, since no value comes twice.
theorem matching_amounts {ws : List Number} (left : (vs.map quantity?).Nodup) (right : (ws.map quantity?).Nodup)
    (defined : ∀ v ∈ vs, v ≠ .nan) : matching eq vs ws = true ↔ amounts vs = amounts ws := by
  have size : ∀ {us : List Number}, (us.map quantity?).Nodup → (amounts us).card = us.length := fun apart => by
    rw [amounts, toFinset_card_of_nodup apart, length_map]
  have inside : (vs.all fun v => ws.any (eq · v)) = true ↔ amounts vs ⊆ amounts ws := by
    simp only [all_eq_true, Finset.subset_iff, mem_amounts, forall_exists_index, and_imp, forall_apply_eq_imp_iff₂]
    refine forall₂_congr fun v mem => (member_of_amounts v).trans ?_
    rw [mem_amounts, and_iff_right (defined v mem)]
  rw [matching, Bool.and_eq_true, beq_iff_eq, Bool.or_eq_true, or_iff_right_of_imp agree_contained, inside, ← size left,
    ← size right]
  exact ⟨fun same => Finset.eq_of_subset_of_card_le same.2 same.1.ge, fun same => ⟨congrArg _ same, same.subset⟩⟩

theorem foldl_selected (selects : ∀ a b, f a b = a ∨ f a b = b) (v : Number) (vs : List Number) :
    vs.foldl f v ∈ v :: vs := by
  induction vs generalizing v with
  | nil => exact mem_singleton_self v
  | cons w vs ih =>
    rw [foldl_cons]
    rcases selects v w with same | same
    · rw [same]
      exact cons_subset_cons v (subset_cons_self w vs) (ih v)
    · rw [same]
      exact mem_cons_of_mem v (ih w)

theorem foldl_congr (before : Quantity → Quantity → Prop) (selects : ∀ a b, f a b = a ∨ f a b = b)
    (refl : ∀ q, before q q) (antisymm : ∀ p q, before p q → before q p → p = q)
    (spreads : ∀ q a b, (∀ p, a.quantity? = some p → before p q) ∨ (∀ p, b.quantity? = some p → before p q) →
      ∀ p, (f a b).quantity? = some p → before p q)
    {ws : List Number} (defined : ∀ x ∈ v :: vs, x ≠ .nan) (same : amounts (v :: vs) = amounts (w :: ws)) :
    (vs.foldl f v).quantity? = (ws.foldl f w).quantity? := by
  have first : ∀ v vs, ∀ x ∈ v :: vs, ∀ p q, (vs.foldl f v).quantity? = some p → x.quantity? = some q → before p q := by
    intro v vs x mem p q least here
    have own : ∀ p, x.quantity? = some p → before p q := fun p value => by cases here.symm.trans value; exact refl q
    refine foldl_spreads (spreads q) vs v ?_ p least
    rcases mem_cons.mp mem with rfl | later
    · exact .inl own
    · exact .inr ⟨x, later, own⟩
  have here := foldl_selected selects v vs
  have there := foldl_selected selects w ws
  obtain ⟨x, mem, equal⟩ := mem_amounts.mp (same ▸ mem_amounts.mpr ⟨_, here, rfl⟩)
  obtain ⟨y, mem', equal'⟩ := mem_amounts.mp (same.symm ▸ mem_amounts.mpr ⟨_, there, rfl⟩)
  cases left : (vs.foldl f v).quantity? with
  | none => exact absurd (quantity_none left) (defined _ here)
  | some p =>
    cases right : (ws.foldl f w).quantity? with
    | none => exact absurd (quantity_none (equal'.trans right)) (defined y mem')
    | some q =>
      exact congrArg some (antisymm p q (first v vs y mem' p q left (equal'.trans right))
        (first w ws x mem q p right (equal.trans left)))

theorem min_selects (a b : Number) : a.min b = a ∨ a.min b = b := by
  unfold min
  split_ifs <;> cases a <;> cases b <;> simp_all [isNaN]

theorem max_selects (a b : Number) : a.max b = a ∨ a.max b = b := by
  unfold max
  split_ifs <;> cases a <;> cases b <;> simp_all [isNaN]

theorem min_max_congr (left : a.quantity? = c.quantity?) (right : b.quantity? = d.quantity?) :
    (a.min b).quantity? = (c.min d).quantity? ∧ (a.max b).quantity? = (c.max d).quantity? := by
  cases first : a.quantity? with
  | none =>
    cases quantity_none first
    cases quantity_none (left.symm.trans first)
    cases b <;> cases d <;> simp_all [min, max, isNaN]
  | some p =>
    cases second : b.quantity? with
    | none =>
      cases quantity_none second
      cases quantity_none (right.symm.trans second)
      clear first
      cases a <;> cases c <;> simp_all [min, max, isNaN]
    | some q =>
      have first' := left.symm.trans first
      have second' := right.symm.trans second
      rw [quantity_min first second, quantity_min first' second', quantity_max first second,
        quantity_max first' second']
      exact ⟨rfl, rfl⟩

end Number

mutual

inductive ExprView where
  | num (q : Option Quantity)
  | text (s : String)
  | ref (r : Reference)
  | among (s : SetView)
  | truth (b : Bool)
  | neg (e : ExprView)
  | binary (op : BinaryOp) (l r : ExprView)

inductive SetView where
  | universal (t : Option ValueType)
  | empty
  | values (qs : Finset (Option Quantity))
  | interval (lo hi : Option Quantity) (loExclusive hiExclusive : Bool)
  | union (members : List SetView)
  | inter (members : List SetView)
  | solutions (e : ExprView)

end

mutual

def Expr.view : Expr → ExprView
  | .num v => .num v.quantity?
  | .text s => .text s
  | .ref r => .ref r
  | .among s => .among s.view
  | .truth b => .truth b
  | .neg e => .neg e.view
  | .binary op l r => .binary op l.view r.view

def ValueSet.view : ValueSet → SetView
  | .universal t => .universal t
  | .empty => .empty
  | .values vs => .values (Number.amounts vs)
  | .interval i => .interval i.lo.quantity? i.hi.quantity? i.loExclusive i.hiExclusive
  | .union ms => .union (ValueSet.allViews ms)
  | .inter ms => .inter (ValueSet.allViews ms)
  | .solutions e => .solutions e.view

def ValueSet.allViews : List ValueSet → List SetView
  | [] => []
  | m :: ms => m.view :: ValueSet.allViews ms

end

mutual

-- Made without undefined numbers, every list of values by dropping the repeated ones of some list.
def Expr.Built : Expr → Prop
  | .num v => v ≠ .nan
  | .among s => s.Built
  | .neg e => e.Built
  | .binary _ l r => l.Built ∧ r.Built
  | _ => True

def ValueSet.Built : ValueSet → Prop
  | .values vs => ∃ ws, (∀ w ∈ ws, w ≠ .nan) ∧ vs = Number.distinct ws
  | .interval i => i.lo ≠ .nan ∧ i.hi ≠ .nan
  | .union ms | .inter ms => ValueSet.AllBuilt ms
  | .solutions e => e.Built
  | _ => True

def ValueSet.AllBuilt : List ValueSet → Prop
  | [] => True
  | m :: ms => m.Built ∧ ValueSet.AllBuilt ms

end

def Extent.view (e : Extent) : Option Quantity × Option Quantity × Bool := (e.lo.quantity?, e.hi.quantity?, e.bounded)

namespace ValueSet

theorem values_apart (built : (values vs).Built) : (vs.map quantity?).Nodup ∧ ∀ v ∈ vs, v ≠ .nan := by
  obtain ⟨ws, defined, rfl⟩ := built
  exact ⟨distinct_apart defined, fun v mem => defined v (mem_of_distinct mem)⟩

mutual

theorem expr_equal_iff {e f : Expr} (left : e.Built) (right : f.Built) : e.equal f = true ↔ e.view = f.view := by
  cases e with
  | num v =>
    cases f with
    | num w =>
      rw [Expr.view, Expr.view, ExprView.num.injEq]
      exact eq_quantity left
    | _ => simp [Expr.equal, Expr.equalBy, Expr.view]
  | among s =>
    cases f with
    | among t =>
      rw [Expr.view, Expr.view, ExprView.among.injEq]
      exact equal_iff left right
    | _ => simp [Expr.equal, Expr.equalBy, Expr.view]
  | neg e =>
    cases f with
    | neg f =>
      rw [Expr.view, Expr.view, ExprView.neg.injEq]
      exact expr_equal_iff (e := e) left right
    | _ => simp [Expr.equal, Expr.equalBy, Expr.view]
  | binary op l r =>
    cases f with
    | binary op' l' r' =>
      simp only [Expr.equal, Expr.equalBy, Expr.view, Bool.and_eq_true, beq_iff_eq, ExprView.binary.injEq, and_assoc]
      exact and_congr_right fun _ => and_congr (expr_equal_iff left.1 right.1) (expr_equal_iff left.2 right.2)
    | _ => simp [Expr.equal, Expr.equalBy, Expr.view]
  | _ => cases f <;> simp [Expr.equal, Expr.equalBy, Expr.view]

theorem equal_iff {s t : ValueSet} (left : s.Built) (right : t.Built) : s.equal t = true ↔ s.view = t.view := by
  cases s with
  | values vs =>
    cases t with
    | values ws =>
      obtain ⟨apart, defined⟩ := values_apart left
      rw [view, view, SetView.values.injEq]
      exact matching_amounts apart (values_apart right).1 defined
    | _ => simp [equal, equalBy, view]
  | interval i =>
    cases t with
    | interval j =>
      simp [equal, equalBy, view, Interval.equalBy, eq_quantity left.1, eq_quantity left.2, and_assoc]
    | _ => simp [equal, equalBy, view]
  | union ms =>
    cases t with
    | union ns =>
      rw [view, view, SetView.union.injEq]
      exact all_equal_iff left right
    | _ => simp [equal, equalBy, view]
  | inter ms =>
    cases t with
    | inter ns =>
      rw [view, view, SetView.inter.injEq]
      exact all_equal_iff left right
    | _ => simp [equal, equalBy, view]
  | solutions e =>
    cases t with
    | solutions f =>
      rw [view, view, SetView.solutions.injEq]
      exact expr_equal_iff left right
    | _ => simp [equal, equalBy, view]
  | _ => cases t <;> simp [equal, equalBy, view]

theorem all_equal_iff {ms ns : List ValueSet} (left : AllBuilt ms) (right : AllBuilt ns) :
    allEqualBy eq ms ns = true ↔ allViews ms = allViews ns := by
  cases ms with
  | nil => cases ns <;> simp [allEqualBy, allViews]
  | cons m ms =>
    cases ns with
    | nil => simp [allEqualBy, allViews]
    | cons n ns =>
      rw [allEqualBy, Bool.and_eq_true, allViews, allViews, List.cons.injEq]
      exact and_congr (equal_iff left.1 right.1) (all_equal_iff left.2 right.2)

end

theorem contains_view {i j : Interval} (x : Number) (same : (interval i).view = (interval j).view) :
    i.contains x = j.contains x := by
  simp only [view, SetView.interval.injEq] at same
  obtain ⟨lo, hi, lower, upper⟩ := same
  simp only [Interval.contains, lt_congr rfl lo, lt_congr hi rfl, eq_congr rfl lo, eq_congr rfl hi,
    lower, upper]

mutual

theorem member_view (x : Number) {s t : ValueSet} (same : s.view = t.view) : s.member x = t.member x := by
  cases s with
  | values vs =>
    cases t with
    | values ws =>
      rw [view, view, SetView.values.injEq] at same
      rw [member, member, Membership.mk.injEq, Bool.eq_iff_iff, member_of_amounts, member_of_amounts, same]
      exact ⟨Iff.rfl, rfl⟩
    | _ => cases same
  | interval i =>
    cases t with
    | interval j => rw [member, member, contains_view x same]
    | _ => cases same
  | union ms =>
    cases t with
    | union ns => exact (members_view x (SetView.union.inj same) true).1
    | _ => cases same
  | inter ms =>
    cases t with
    | inter ns => exact (members_view x (SetView.inter.inj same) true).2
    | _ => cases same
  | _ => cases t <;> simp_all [view, member]

theorem members_view (x : Number) {ms ns : List ValueSet} (same : allViews ms = allViews ns) (known : Bool) :
    memberOfAny x known ms = memberOfAny x known ns ∧ memberOfAll x known ms = memberOfAll x known ns := by
  cases ms with
  | nil =>
    cases ns with
    | nil => exact ⟨rfl, rfl⟩
    | cons n ns => cases same
  | cons m ms =>
    cases ns with
    | nil => cases same
    | cons n ns =>
      rw [allViews, allViews, List.cons.injEq] at same
      simp only [memberOfAny, memberOfAll, member_view x same.1, (members_view x same.2 _).1,
        (members_view x same.2 _).2, and_self]

end

theorem is_empty_view {s t : ValueSet} (same : s.view = t.view) : s.isEmpty = t.isEmpty := by
  cases s <;> cases t <;> simp_all [view, isEmpty]

mutual

theorem extent_view {s t : ValueSet} (left : s.Built) (same : s.view = t.view) :
    s.extent.view = t.extent.view := by
  cases s with
  | values vs =>
    cases t with
    | values ws =>
      rw [view, view, SetView.values.injEq] at same
      cases vs with
      | nil =>
        cases ws with
        | nil => rfl
        | cons w ws => exact absurd same.symm (by simp [amounts])
      | cons v vs =>
        cases ws with
        | nil => simp [amounts] at same
        | cons w ws =>
          have defined := (values_apart left).2
          have lower := foldl_congr (· ≤ ·) min_selects le_refl (fun _ _ => le_antisymm)
            (fun q a b => min_at_most a b q) defined same
          have upper := foldl_congr (· ≥ ·) max_selects le_refl (fun _ _ => ge_antisymm)
            (fun q a b => max_at_least a b q) defined same
          simp [extent, Extent.view, lower, upper]
    | _ => cases same
  | interval i =>
    cases t with
    | interval j =>
      simp only [view, SetView.interval.injEq] at same
      simp [extent, Extent.view, same]
    | _ => cases same
  | union ms =>
    cases t with
    | union ns => exact hull_view left (SetView.union.inj same) rfl rfl
    | _ => cases same
  | inter ms =>
    cases t with
    | inter ns => exact common_extent_view left (SetView.inter.inj same) rfl
    | _ => cases same
  | _ => cases t <;> simp_all [view, extent]

theorem hull_view {ms ns : List ValueSet} (left : AllBuilt ms) (same : allViews ms = allViews ns)
    {lo hi lo' hi' : Number} (lower : lo.quantity? = lo'.quantity?) (upper : hi.quantity? = hi'.quantity?) :
    (hull lo hi ms).view = (hull lo' hi' ns).view := by
  cases ms with
  | nil =>
    cases ns with
    | nil => simp [hull, Extent.view, le_congr lower upper, lower, upper]
    | cons n ns => cases same
  | cons m ms =>
    cases ns with
    | nil => cases same
    | cons n ns =>
      rw [allViews, allViews, List.cons.injEq] at same
      have head := extent_view left.1 same.1
      simp only [Extent.view, Prod.mk.injEq] at head
      rw [hull, hull, head.2.2, is_empty_view same.1]
      split_ifs
      · exact hull_view left.2 same.2 (min_max_congr lower head.1).1 (min_max_congr upper head.2.1).2
      · exact hull_view left.2 same.2 lower upper
      · rfl

theorem common_extent_view {ms ns : List ValueSet} (left : AllBuilt ms) (same : allViews ms = allViews ns)
    {a b : Extent} (start : a.view = b.view) : (commonExtent a ms).view = (commonExtent b ns).view := by
  cases ms with
  | nil =>
    cases ns with
    | nil =>
      simp only [Extent.view, Prod.mk.injEq] at start
      simp [commonExtent, Extent.view, start, le_congr start.1 start.2.1]
    | cons n ns => cases same
  | cons m ms =>
    cases ns with
    | nil => cases same
    | cons n ns =>
      rw [allViews, allViews, List.cons.injEq] at same
      have head := extent_view left.1 same.1
      refine common_extent_view left.2 same.2 ?_
      simp only [Extent.view, Prod.mk.injEq] at head start
      rw [head.2.2]
      split_ifs
      · simp [Extent.view, min_max_congr start.1 head.1, min_max_congr start.2.1 head.2.1]
      · simp [Extent.view, start]

end

end ValueSet

-- Built sets and expressions are equal if they differ at most in the signs of zeros and the order of values. This is an
-- equivalence, and equal sets give the same answer about every number and have the same bounds.
theorem equality_trustworthy :
    Equivalence (fun a b : {e : Expr // e.Built} => a.1.equal b.1 = true) ∧
      Equivalence (fun a b : {s : ValueSet // s.Built} => a.1.equal b.1 = true) ∧
        ∀ a b : {s : ValueSet // s.Built}, a.1.equal b.1 = true →
          (∀ x, a.1.member x = b.1.member x) ∧ a.1.extent.view = b.1.extent.view := by
  have exprs : (fun a b : {e : Expr // e.Built} => a.1.equal b.1 = true) = InvImage Eq fun a => a.1.view := by
    ext a b
    exact expr_equal_iff a.2 b.2
  have sets : (fun a b : {s : ValueSet // s.Built} => a.1.equal b.1 = true) = InvImage Eq fun a => a.1.view := by
    ext a b
    exact equal_iff a.2 b.2
  rw [exprs, sets]
  refine ⟨InvImage.equivalence _ _ eq_equivalence, InvImage.equivalence _ _ eq_equivalence, fun a b equal => ?_⟩
  have same := (equal_iff a.2 b.2).mp equal
  exact ⟨fun x => member_view x same, extent_view a.2 same⟩

def choice (first second : List Number) : ValueSet :=
  .union [.ofValues first, .solutions (.eq (.ref ⟨"x", none⟩) (.among (.ofValues second)))]

theorem reordered_choice_equal :
    (choice [.one, .finite 2, .negZero] [.finite 3, .one]).equal
      (choice [.zero, .one, .finite 2] [.one, .finite 3]) = true ∧
      (choice [.one, .finite 2, .negZero] [.finite 3, .one]).extent.view =
        (choice [.zero, .one, .finite 2] [.one, .finite 3]).extent.view := by
  have equal : (choice [.one, .finite 2, .negZero] [.finite 3, .one]).equal
      (choice [.zero, .one, .finite 2] [.one, .finite 3]) = true := by decide
  refine ⟨equal, ((equality_trustworthy.2.2 ⟨_, ?_⟩ ⟨_, ?_⟩) equal).2⟩
  · exact ⟨⟨_, by simp [one], rfl⟩, ⟨trivial, _, by simp [one], rfl⟩, trivial⟩
  · exact ⟨⟨_, by simp [one, zero], rfl⟩, ⟨trivial, _, by simp [one], rfl⟩, trivial⟩

end Blockwork
