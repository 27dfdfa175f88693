import Blockwork.Proofs.CanonicalArrays
import Blockwork.Proofs.ScalarTexts

set_option autoImplicit false

namespace Blockwork

namespace TypeTable

-- Every array is filed under what it is, and its sizes are such as a text can give.
structure Complete (table : TypeTable) : Prop where
  filed : table.Filed
  own : ∀ i < table.cells.size, table.find? (shapeKey (table.root (.cell i)) (table.sizes (.cell i))) = some i
  bounds : ∀ (i : Nat) (c : ArrayCell), table.cells[i]? = some c → 1 ≤ c.size ∧ c.size < 2 ^ 63

theorem empty_complete : ({} : TypeTable).Complete where
  filed := empty_filed
  own i inside := by simp at inside
  bounds i c found := by simp at found

section

variable (table : TypeTable) (complete : table.Complete)

include complete

variable {t : TypeRef}

theorem sizes_bounded (present : table.Present t) : ∀ n ∈ table.sizes t, 1 ≤ n ∧ n < 2 ^ 63 := by
  refine table.present_induction complete.filed.grounded (fun t => ∀ n ∈ table.sizes t, 1 ≤ n ∧ n < 2 ^ 63)
    (by simp) ?_ present
  intro i c found hyp
  rw [table.sizes_cell complete.filed.grounded found]
  exact List.forall_mem_cons.mpr ⟨complete.bounds i c found, hyp⟩

theorem sized_of_own (present : table.Present t) :
    table.sizedOf (.primitive (table.root t)) (table.sizes t) = (t, table) := by
  have grounded := complete.filed.grounded
  refine table.present_induction grounded
    (fun t => table.sizedOf (.primitive (table.root t)) (table.sizes t) = (t, table)) ?_ ?_ present
  · intro p
    rw [root_primitive, sizes_primitive, sizedOf]
  · intro i c found hyp
    have own := complete.own i (Array.getElem?_eq_some_iff.mp found).1
    rw [table.root_cell grounded found, table.sizes_cell grounded found] at own ⊢
    rw [sized_of_cons, hyp, intern_old _ _ _ _ own]

theorem same_of_shape {u : TypeRef} (present : table.Present t) (present' : table.Present u)
    (root : table.root t = table.root u) (sizes : table.sizes t = table.sizes u) : t = u := by
  have own := table.sized_of_own complete present
  rw [root, sizes, table.sized_of_own complete present'] at own
  exact (Prod.mk.inj own).1.symm

theorem intern_complete {e : TypeRef} {n : Int} (present : table.Present e) (size : 1 ≤ n ∧ n < 2 ^ 63) :
    (table.intern (shapeKey (table.root e) (n :: table.sizes e)) e n).2.Complete := by
  obtain ⟨filed, extended, fits⟩ :=
    table.intern_filed complete.filed (shapeKey (table.root e) (n :: table.sizes e)) n present rfl
    (by simp [shapeKey, table.sizes_length complete.filed.grounded e present])
      (fun sizes same => (Option.some.inj same).symm)
  cases found : table.find? (shapeKey (table.root e) (n :: table.sizes e)) with
  | some i =>
    rw [intern_old _ _ _ _ found]
    exact complete
  | none =>
    have listed := fun key => table.intern_find (shapeKey (table.root e) (n :: table.sizes e)) key e n
    have root := TypeRef.primitive.inj fits.scalar
    have sizes := fits.shape _ rfl
    rw [intern_new _ _ _ _ found] at filed extended root sizes listed ⊢
    refine ⟨filed, fun i inside => ?_, fun i c cell => ?_⟩
    · rcases Nat.lt_succ_iff_lt_or_eq.mp (by simpa using inside) with old | rfl
      · obtain ⟨-, root, sizes⟩ := extended.same complete.filed.grounded filed.grounded (.cell i) old
        rw [listed, root, sizes, complete.own i old, Option.some_or]
      · rw [listed, ← root, ← sizes, found, if_pos rfl, Option.none_or]
    · rw [Array.getElem?_push] at cell
      split_ifs at cell
      · cases cell
        exact size
      · exact complete.bounds i c cell

theorem sized_of_complete (p : Primitive) {sizes : List Int} (bounds : ∀ n ∈ sizes, 1 ≤ n ∧ n < 2 ^ 63) :
    (table.sizedOf (.primitive p) sizes).2.Complete := by
  induction sizes with
  | nil => exact complete
  | cons n rest hyp =>
    obtain ⟨size, others⟩ := List.forall_mem_cons.mp bounds
    obtain ⟨made, shape⟩ := table.sized_of_makes complete.filed p rest
    have next := intern_complete _ (hyp others) made.present size
    rwa [made.root, shape] at next

end

-- What is obtained from a table by asking for texts, for sizes over scalars, and for elements. The texts are kept with
-- their types.
inductive Obtained : TypeTable → List TypeRef → List (String × TypeRef) → Prop
  | none : Obtained {} [] []
  | parse {table after : TypeTable} {ts : List TypeRef} {specs : List (String × TypeRef)} {text : String} {t : TypeRef}
      (earlier : Obtained table ts specs) (parsed : table.parse text = .ok (t, after)) :
      Obtained after (t :: ts) ((text, t) :: specs)
  | sized {table after : TypeTable} {ts : List TypeRef} {specs : List (String × TypeRef)} {p : Primitive}
      {sizes : List Int} {t : TypeRef} (earlier : Obtained table ts specs) (bounds : ∀ n ∈ sizes, 1 ≤ n ∧ n < 2 ^ 63)
      (made : table.sized (.primitive p) sizes = .ok (t, after)) : Obtained after (t :: ts) specs
  | element {table : TypeTable} {ts : List TypeRef} {specs : List (String × TypeRef)} {t e : TypeRef}
      (earlier : Obtained table ts specs) (held : t ∈ ts) (inner : table.element? t = some e) :
      Obtained table (e :: ts) specs

structure Describes (table : TypeTable) (ts : List TypeRef) (specs : List (String × TypeRef)) : Prop where
  complete : table.Complete
  present : ∀ t ∈ ts, table.Present t
  named : ∀ s ∈ specs, table.Present s.2 ∧ TypeSpec.Names s.1 (table.root s.2) (table.sizes s.2)

variable {ts : List TypeRef} {specs : List (String × TypeRef)}

theorem Describes.requested {table : TypeTable} (describes : table.Describes ts specs) (p : Primitive)
    {sizes : List Int} (bounds : ∀ n ∈ sizes, 1 ≤ n ∧ n < 2 ^ 63) :
    (table.sizedOf (.primitive p) sizes).2.Describes ((table.sizedOf (.primitive p) sizes).1 :: ts) specs := by
  obtain ⟨complete, present, named⟩ := describes
  obtain ⟨made, shape⟩ := table.sized_of_makes complete.filed p sizes
  refine ⟨table.sized_of_complete complete p bounds, List.forall_mem_cons.mpr ⟨made.present, fun t held => ?_⟩,
    fun s listed => ?_⟩
  · exact made.extended.present t (present t held)
  · obtain ⟨there, names⟩ := named s listed
    obtain ⟨-, root, sizes⟩ := made.extended.same complete.filed.grounded made.filed.grounded s.2 there
    exact ⟨made.extended.present s.2 there, by rwa [root, sizes]⟩

theorem obtained_describes (table : TypeTable) (obtained : Obtained table ts specs) : table.Describes ts specs := by
  induction obtained with
  | none => exact ⟨empty_complete, by simp, by simp⟩
  | @parse table after ts specs text t earlier parsed hyp =>
    obtain ⟨⟨p, sizes⟩, spec, same⟩ := of_map_ok parsed
    have names := (TypeSpec.parse_iff text p sizes).mp spec
    obtain ⟨dims, -, read⟩ := names
    have later := hyp.requested p (TypeSpec.dimension_bounds read)
    obtain ⟨made, shape⟩ := table.sized_of_makes hyp.complete.filed p sizes
    have root := made.root
    dsimp only at same
    rw [same] at later root shape
    refine ⟨later.complete, later.present,
      List.forall_mem_cons.mpr ⟨⟨later.present t List.mem_cons_self, ?_⟩, later.named⟩⟩
    exact root.symm ▸ shape.symm ▸ (TypeSpec.parse_iff text p sizes).mp spec
  | @sized table after ts specs p sizes t earlier bounds made hyp =>
    have later := hyp.requested p bounds
    unfold TypeTable.sized at made
    split_ifs at made
    rwa [Except.ok.inj made] at later
  | @element table ts specs t e earlier held inner hyp =>
    refine ⟨hyp.complete, List.forall_mem_cons.mpr ⟨?_, hyp.present⟩, hyp.named⟩
    cases t with
    | primitive p => cases inner
    | cell i =>
      obtain ⟨c, cell, rfl⟩ := Option.map_eq_some_iff.mp inner
      exact table.element_present hyp.complete.filed.grounded cell

-- Texts and types correspond: the text of a type obtained by any requests gives that very type, the texts that are
-- accepted are those that name a scalar and sizes, and two of them give one type iff they name the same.
theorem texts_name_types (table : TypeTable) (ts : List TypeRef) (specs : List (String × TypeRef))
    (obtained : Obtained table ts specs) :
    (∀ t ∈ ts, table.parse (table.view t).text = .ok (t, table)) ∧
      (∀ text, (table.parse text).isOk = true ↔ ∃ p ns, TypeSpec.Names text p ns) ∧
      ∀ s ∈ specs, ∀ s' ∈ specs, s.2 = s'.2 ↔ ∃ p ns, TypeSpec.Names s.1 p ns ∧ TypeSpec.Names s'.1 p ns := by
  obtain ⟨complete, present, named⟩ := table.obtained_describes obtained
  refine ⟨fun t held => ?_, fun text => ?_, fun s listed s' listed' => ?_⟩
  · have names := TypeSpec.names_text (table.view t) (by
      rw [view, ValueType.sizes_sized]
      exact table.sizes_bounded complete (present t held))
    rw [view, ValueType.root_sized, ValueType.sizes_sized] at names
    rw [parse, view, (TypeSpec.parse_iff _ _ _).mpr names]
    exact congrArg Except.ok (table.sized_of_own complete (present t held))
  · unfold parse
    cases spec : TypeSpec.parse text with
    | error fault =>
      simp only [← TypeSpec.parse_iff, spec]
      simp [Except.map, Except.isOk, Except.toBool]
    | ok made =>
      simpa [Except.map, Except.isOk, Except.toBool] using ⟨made.1, made.2, (TypeSpec.parse_iff text _ _).mp spec⟩
  · obtain ⟨there, names⟩ := named s listed
    obtain ⟨there', names'⟩ := named s' listed'
    constructor
    · intro same
      exact ⟨_, _, names, same ▸ names'⟩
    · rintro ⟨p, ns, named, named'⟩
      have unique : ∀ text q ms, TypeSpec.Names text p ns → TypeSpec.Names text q ms → p = q ∧ ns = ms := by
        intro text q ms one other
        have both := ((TypeSpec.parse_iff text p ns).mpr one).symm.trans ((TypeSpec.parse_iff text q ms).mpr other)
        simpa using both
      obtain ⟨root, sizes⟩ := unique s.1 _ _ named names
      obtain ⟨root', sizes'⟩ := unique s'.1 _ _ named' names'
      exact table.same_of_shape complete there there' (root.symm.trans root') (sizes.symm.trans sizes')

-- The rows of a matrix, and the matrix written in two ways.
theorem matrix_named_twice :
    ∃ table row t u, Obtained table [u, row, t] [("int[03][+2]", u), (" int[3][2]", t)] ∧ t = u ∧
    table.parse (table.view row).text = .ok (row, table) := by
  have plain : TypeSpec.parse " int[3][2]" = .ok ⟨.int, [3, 2]⟩ := by decide +kernel
  have signed : TypeSpec.parse "int[03][+2]" = .ok ⟨.int, [3, 2]⟩ := by decide +kernel
  have parsed : ∀ (table : TypeTable) (text : String), TypeSpec.parse text = .ok ⟨.int, [3, 2]⟩ →
      table.parse text = .ok
        ((table.sizedOf (.primitive .int) [3, 2]).1, (table.sizedOf (.primitive .int) [3, 2]).2) := by
    intro table text spec
    rw [parse, spec]
    rfl
  have obtained := ((Obtained.none.parse (parsed _ _ plain)).element List.mem_cons_self (e := .cell 0) rfl).parse
    (parsed _ _ signed)
  obtain ⟨back, -, same⟩ := texts_name_types _ _ _ obtained
  refine ⟨_, _, _, _, obtained, ?_, back _ (by simp)⟩
  exact (same (" int[3][2]", _) (by simp) ("int[03][+2]", _) (by simp)).mpr
    ⟨.int, [3, 2], (TypeSpec.parse_iff _ _ _).mp plain, (TypeSpec.parse_iff _ _ _).mp signed⟩

end TypeTable

end Blockwork
