import Blockwork.ValueType.Table
import Mathlib

set_option autoImplicit false

namespace Blockwork

variable {i : Nat}

namespace TypeTable

-- The elements of an array lie in an earlier cell.
def Grounded (table : TypeTable) : Prop :=
  ∀ (i : Nat) (c : ArrayCell), table.cells[i]? = some c → ∀ j, c.element = .cell j → j < i

def Present (table : TypeTable) : TypeRef → Prop
  | .primitive _ => True
  | .cell i => i < table.cells.size

section Chains

variable (table : TypeTable) (grounded : table.Grounded)

include grounded

variable {c : ArrayCell}

theorem element_present (found : table.cells[i]? = some c) : table.Present c.element := by
  cases element : c.element with
  | primitive p => trivial
  | cell j => exact (grounded i c found j element).trans (Array.getElem?_eq_some_iff.mp found).1

theorem from_fuel (i fuel fuel' : Nat) (enough : i < fuel) (enough' : i < fuel') :
    table.chainFrom fuel (.cell i) = table.chainFrom fuel' (.cell i) ∧
      table.rootFrom fuel (.cell i) = table.rootFrom fuel' (.cell i) := by
  induction i using Nat.strong_induction_on generalizing fuel fuel' with
  | _ i hyp =>
    obtain ⟨fuel, rfl⟩ : ∃ f, fuel = f + 1 := ⟨fuel - 1, by omega⟩
    obtain ⟨fuel', rfl⟩ : ∃ f, fuel' = f + 1 := ⟨fuel' - 1, by omega⟩
    rw [chainFrom, chainFrom, rootFrom, rootFrom]
    cases found : table.cells[i]? with
    | none => exact ⟨rfl, rfl⟩
    | some c =>
      dsimp only
      cases element : c.element with
      | primitive p => cases fuel <;> cases fuel' <;> exact ⟨rfl, rfl⟩
      | cell j =>
        have below := grounded i c found j element
        exact (hyp j below fuel fuel' (by omega) (by omega)).imp_left (congrArg (i :: ·))

theorem from_cell (found : table.cells[i]? = some c) :
    table.chain (.cell i) = i :: table.chain c.element ∧ table.root (.cell i) = table.root c.element := by
  have bound := (Array.getElem?_eq_some_iff.mp found).1
  unfold chain root
  obtain ⟨fuel, size⟩ : ∃ f, table.cells.size = f + 1 := ⟨table.cells.size - 1, by omega⟩
  rw [size, chainFrom, rootFrom, found]
  dsimp only
  cases element : c.element with
  | primitive p => cases fuel <;> exact ⟨rfl, rfl⟩
  | cell j =>
    have below := grounded i c found j element
    exact (table.from_fuel grounded j fuel (fuel + 1) (by omega) (by omega)).imp_left (congrArg (i :: ·))

theorem chain_cell (found : table.cells[i]? = some c) : table.chain (.cell i) = i :: table.chain c.element :=
  (table.from_cell grounded found).1

theorem root_cell (found : table.cells[i]? = some c) : table.root (.cell i) = table.root c.element :=
  (table.from_cell grounded found).2

theorem sizes_cell (found : table.cells[i]? = some c) : table.sizes (.cell i) = c.size :: table.sizes c.element := by
  rw [sizes, table.chain_cell grounded found, List.filterMap_cons_some (b := c.size) (by simp [found])]
  rfl

end Chains

variable (table : TypeTable) (p : Primitive)

@[simp] theorem chain_primitive : table.chain (.primitive p) = [] := by
  unfold chain
  cases table.cells.size <;> rfl

@[simp] theorem root_primitive : table.root (.primitive p) = p := by
  unfold root
  cases table.cells.size <;> rfl

@[simp] theorem sizes_primitive : table.sizes (.primitive p) = [] := by simp [sizes]

theorem present_induction (grounded : table.Grounded) (holds : TypeRef → Prop)
    (scalar : ∀ p, holds (.primitive p))
    (array : ∀ (i : Nat) (c : ArrayCell), table.cells[i]? = some c → holds c.element → holds (.cell i)) {t : TypeRef}
    (present : table.Present t) : holds t := by
  cases t with
  | primitive p => exact scalar p
  | cell i =>
    induction i using Nat.strong_induction_on with
    | _ i hyp =>
      have found : table.cells[i]? = some table.cells[i] := Array.getElem?_eq_getElem present
      refine array i _ found ?_
      cases element : table.cells[i].element with
      | primitive p => exact scalar p
      | cell j =>
        have below := grounded i _ found j element
        exact hyp j below (Nat.lt_trans below present)

theorem sizes_length (grounded : table.Grounded) (t : TypeRef) (present : table.Present t) :
    (table.sizes t).length = (table.chain t).length := by
  refine table.present_induction grounded (fun t => (table.sizes t).length = (table.chain t).length) ?_ ?_ present
  · intro p
    simp
  · intro i c found hyp
    simp [table.chain_cell grounded found, table.sizes_cell grounded found, hyp]

theorem chain_bounded (grounded : table.Grounded) (c : ArrayCell) (found : table.cells[i]? = some c) :
    ∀ j ∈ table.chain c.element, j < i := by
  induction i using Nat.strong_induction_on generalizing c with
  | _ i hyp =>
    intro j mem
    cases element : c.element with
    | primitive p => simp [element] at mem
    | cell k =>
      have below := grounded i c found k element
      have inside : k < table.cells.size := below.trans (Array.getElem?_eq_some_iff.mp found).1
      have next : table.cells[k]? = some table.cells[k] := Array.getElem?_eq_getElem inside
      rw [element, table.chain_cell grounded next, List.mem_cons] at mem
      rcases mem with rfl | deeper
      · exact below
      · exact (hyp k below _ next j deeper).trans below

def Extends (table later : TypeTable) : Prop :=
  ∀ (i : Nat) (c : ArrayCell), table.cells[i]? = some c → later.cells[i]? = some c

namespace Extends

theorem refl (table : TypeTable) : table.Extends table := fun _ _ found => found

theorem trans {first second third : TypeTable} (before : first.Extends second) (after : second.Extends third) :
    first.Extends third := fun i c found => after i c (before i c found)

section

variable {table later : TypeTable} (extended : table.Extends later)

include extended

theorem present (t : TypeRef) (present : table.Present t) : later.Present t := by
  cases t with
  | primitive p => trivial
  | cell i => exact (Array.getElem?_eq_some_iff.mp (extended i _ (Array.getElem?_eq_getElem present))).1

theorem same (grounded : table.Grounded) (grounded' : later.Grounded) (t : TypeRef) (present : table.Present t) :
    later.chain t = table.chain t ∧ later.root t = table.root t ∧ later.sizes t = table.sizes t := by
  refine table.present_induction grounded
    (fun t => later.chain t = table.chain t ∧ later.root t = table.root t ∧ later.sizes t = table.sizes t) ?_ ?_ present
  · intro p
    simp
  · intro i c found hyp
    have kept := extended i c found
    rw [table.chain_cell grounded found, table.root_cell grounded found, table.sizes_cell grounded found,
      later.chain_cell grounded' kept, later.root_cell grounded' kept, later.sizes_cell grounded' kept]
    exact ⟨by rw [hyp.1], hyp.2.1, by rw [hyp.2.2]⟩

end

end Extends

-- The key of an entry says what its array is at present.
structure Fits (table : TypeTable) (entry : ArrayKey × Nat) : Prop where
  present : entry.2 < table.cells.size
  scalar : entry.1.scalar = .primitive (table.root (.cell entry.2))
  dims : entry.1.dims = (table.chain (.cell entry.2)).length
  shape : ∀ sizes, entry.1.shape = some sizes → sizes = table.sizes (.cell entry.2)

structure Filed (table : TypeTable) : Prop where
  grounded : table.Grounded
  keys : (table.entries.map Prod.fst).Nodup
  fits : ∀ entry ∈ table.entries, table.Fits entry

theorem empty_filed : ({} : TypeTable).Filed where
  grounded := by
    intro i c found
    simp at found
  keys := List.nodup_nil
  fits := by
    intro entry mem
    simp at mem

variable {table later : TypeTable}

theorem Fits.extended {entry : ArrayKey × Nat} (fits : table.Fits entry) (extended : table.Extends later)
    (grounded : table.Grounded) (grounded' : later.Grounded) : later.Fits entry := by
  obtain ⟨chain, root, sizes⟩ := extended.same grounded grounded' (.cell entry.2) fits.present
  exact
    { present := extended.present (.cell entry.2) fits.present
      scalar := by rw [root]; exact fits.scalar
      dims := by rw [chain]; exact fits.dims
      shape := by rw [sizes]; exact fits.shape }

theorem find_mem (table : TypeTable) (key : ArrayKey) (index : Nat) (found : table.find? key = some index) :
    (key, index) ∈ table.entries := by
  obtain ⟨entry, met, rfl⟩ := Option.map_eq_some_iff.mp found
  have same : entry.1 = key := by simpa using List.find?_some met
  rw [← same]
  exact List.mem_of_find?_eq_some met

theorem find_none (table : TypeTable) {key : ArrayKey} (missing : table.find? key = none) :
    key ∉ table.entries.map Prod.fst := by
  intro mem
  obtain ⟨entry, met, rfl⟩ := List.mem_map.mp mem
  have absent := List.find?_eq_none.mp (Option.map_eq_none_iff.mp missing) entry met
  simp at absent

theorem push_extends (table : TypeTable) (cell : ArrayCell) (entries : List (ArrayKey × Nat)) :
    table.Extends ⟨table.cells.push cell, entries⟩ := by
  intro i c found
  have bound := (Array.getElem?_eq_some_iff.mp found).1
  change (table.cells.push cell)[i]? = some c
  rw [Array.getElem?_push, if_neg (by omega)]
  exact found

section Interning

variable (table : TypeTable) (filed : table.Filed)

include filed

variable {element : TypeRef}

theorem push_grounded (size : Int) (present : table.Present element) (entries : List (ArrayKey × Nat)) :
    (⟨table.cells.push ⟨element, size⟩, entries⟩ : TypeTable).Grounded := by
  intro i c found j inner
  rw [Array.getElem?_push] at found
  split at found
  · rename_i last
    cases found
    subst last
    simp only at inner
    subst inner
    exact present
  · exact filed.grounded i c found j inner

theorem intern_filed (key : ArrayKey) (size : Int) (present : table.Present element)
    (scalar : key.scalar = .primitive (table.root element)) (dims : key.dims = (table.chain element).length + 1)
    (shape : ∀ sizes, key.shape = some sizes → sizes = size :: table.sizes element) :
    (table.intern key element size).2.Filed ∧ table.Extends (table.intern key element size).2 ∧
      (table.intern key element size).2.Fits (key, (table.intern key element size).1) := by
  cases found : table.find? key with
  | some index =>
    rw [intern, found]
    exact ⟨filed, Extends.refl table, filed.fits _ (table.find_mem key index found)⟩
  | none =>
    rw [intern, found]
    dsimp only
    have grounded := table.push_grounded filed size present (table.entries ++ [(key, table.cells.size)])
    have extended := table.push_extends ⟨element, size⟩ (table.entries ++ [(key, table.cells.size)])
    obtain ⟨chain, root, sizes⟩ := extended.same filed.grounded grounded element present
    -- the array made last is filed by its own description
    have added : (⟨table.cells.push ⟨element, size⟩, table.entries ++ [(key, table.cells.size)]⟩ : TypeTable).Fits
        (key, table.cells.size) := by
      have made : (⟨table.cells.push ⟨element, size⟩, table.entries ++ [(key, table.cells.size)]⟩ :
          TypeTable).cells[table.cells.size]? = some ⟨element, size⟩ := by simp
      exact
        { present := by simp
          scalar := by rw [root_cell _ grounded made, root]; exact scalar
          dims := by rw [chain_cell _ grounded made, List.length_cons, chain]; exact dims
          shape := by rw [sizes_cell _ grounded made, sizes]; exact shape }
    refine ⟨⟨grounded, ?_, ?_⟩, extended, added⟩
    · rw [List.map_append, List.nodup_append']
      refine ⟨filed.keys, List.nodup_singleton _, ?_⟩
      simpa using table.find_none found
    · intro entry mem
      rcases List.mem_append.mp mem with old | new
      · exact (filed.fits entry old).extended extended filed.grounded grounded
      · rw [List.mem_singleton.mp new]
        exact added

end Interning

structure Makes (table : TypeTable) (p : Primitive) (dims : Nat) (made : TypeRef × TypeTable) : Prop where
  filed : made.2.Filed
  extended : table.Extends made.2
  present : made.2.Present made.1
  root : made.2.root made.1 = p
  depth : (made.2.chain made.1).length = dims

theorem Filed.makes_scalar (filed : table.Filed) (p : Primitive) : table.Makes p 0 (.primitive p, table) where
  filed := filed
  extended := Extends.refl table
  present := trivial
  root := table.root_primitive p
  depth := by simp

theorem Fits.makes {p : Primitive} {dims : Nat} {shape : Option (List Int)} {index : Nat}
    (fits : later.Fits (⟨.primitive p, dims, shape⟩, index)) (filed : later.Filed) (extended : table.Extends later) :
    table.Makes p dims (.cell index, later) where
  filed := filed
  extended := extended
  present := fits.present
  root := (TypeRef.primitive.inj fits.scalar).symm
  depth := fits.dims.symm

theorem array_of_makes (table : TypeTable) (filed : table.Filed) (p : Primitive) (dims : Nat) :
    table.Makes p dims (table.arrayOf (.primitive p) dims) := by
  induction dims with
  | zero => exact filed.makes_scalar p
  | succ dims hyp =>
    cases found : table.find? ⟨.primitive p, dims + 1, none⟩ with
    | some index =>
      rw [arrayOf, found]
      exact (filed.fits _ (table.find_mem _ index found)).makes filed (Extends.refl table)
    | none =>
      rw [arrayOf, found]
      dsimp only
      obtain ⟨filed', extended, fits⟩ := intern_filed (table.arrayOf (.primitive p) dims).2 hyp.filed
        ⟨.primitive p, dims + 1, none⟩ 1 hyp.present (by rw [hyp.root])
        (by rw [hyp.depth]) (by simp)
      exact fits.makes filed' (hyp.extended.trans extended)

theorem sized_of_makes (table : TypeTable) (filed : table.Filed) (p : Primitive) (sizes : List Int) :
    table.Makes p sizes.length (table.sizedOf (.primitive p) sizes) ∧
      (table.sizedOf (.primitive p) sizes).2.sizes (table.sizedOf (.primitive p) sizes).1 = sizes := by
  induction sizes with
  | nil => exact ⟨filed.makes_scalar p, table.sizes_primitive p⟩
  | cons size rest hyp =>
    obtain ⟨made, sizes⟩ := hyp
    rw [sizedOf]
    dsimp only
    obtain ⟨filed', extended, fits⟩ := intern_filed (table.sizedOf (.primitive p) rest).2 made.filed
      ⟨.primitive p, rest.length + 1, some (size :: rest)⟩ size made.present
      (by rw [made.root]) (by rw [made.depth])
      (by
        intro shape same
        rw [sizes]
        exact (Option.some.inj same).symm)
    exact ⟨fits.makes filed' (made.extended.trans extended), (fits.shape _ rfl).symm⟩

end TypeTable

end Blockwork
