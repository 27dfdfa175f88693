import Blockwork.Proofs.Resizing

set_option autoImplicit false

namespace Blockwork

open List Option

variable {i : Nat} {sizes : List Int}

def shapeKey (p : Primitive) (sizes : List Int) : ArrayKey := ⟨.primitive p, sizes.length, some sizes⟩

namespace TypeTable

-- The elements of an array are what a request for their own shape gives, before and after the array itself is asked
-- for.
def Canonical (table : TypeTable) : Prop :=
  ∀ (p : Primitive) (n : Int) (rest : List Int), rest ≠ [] →
    ∃ t after e, table.sized (.primitive p) (n :: rest) = .ok (t, after) ∧ after.element? t = some e ∧
      (table.sized (.primitive p) rest).map Prod.fst = .ok e ∧ (after.sized (.primitive p) rest).map Prod.fst = .ok e

def Linked (table : TypeTable) : Prop :=
  ∀ (p : Primitive) (n : Int) (rest : List Int) (outer : Nat), rest ≠ [] → table.find? (shapeKey p (n :: rest)) =
    some outer → ∃ inner, table.find? (shapeKey p rest) = some inner ∧ table.element? (.cell outer) = some (.cell inner)

section Interning

variable (table : TypeTable) (key other : ArrayKey) (element : TypeRef) (size : Int)

theorem intern_find : (table.intern key element size).2.find? other =
    (table.find? other).or (if key = other then some (table.intern key element size).1 else none) := by
  cases own : table.find? key with
  | some i =>
    rw [intern, own]
    by_cases same : key = other
    · rw [← same, own]
      rfl
    · rw [if_neg same, or_none]
  | none =>
    rw [intern, own]
    simp only [find?, find?_append]
    cases table.entries.find? (·.1 = other) with
    | some entry => rfl
    | none => by_cases same : key = other <;> simp [same]

theorem intern_new (missing : table.find? key = none) :
    table.intern key element size =
      (table.cells.size, ⟨table.cells.push ⟨element, size⟩, table.entries ++ [(key, table.cells.size)]⟩) := by
  rw [intern, missing]

theorem intern_old (found : table.find? key = some i) : table.intern key element size = (i, table) := by
  rw [intern, found]

end Interning

variable {table : TypeTable}

theorem Filed.find_shape (filed : table.Filed) {p : Primitive} (found : table.find? (shapeKey p sizes) = some i) :
    i < table.cells.size ∧ table.root (.cell i) = p ∧ table.sizes (.cell i) = sizes := by
  have fits := filed.fits _ (table.find_mem _ i found)
  exact ⟨fits.present, (TypeRef.primitive.inj fits.scalar).symm, (fits.shape sizes rfl).symm⟩

section Requests

variable (table : TypeTable) (p : Primitive)

theorem sized_of_cons (n : Int) (rest : List Int) :
    table.sizedOf (.primitive p) (n :: rest) =
      (.cell ((table.sizedOf (.primitive p) rest).2.intern (shapeKey p (n :: rest))
        (table.sizedOf (.primitive p) rest).1 n).1,
        ((table.sizedOf (.primitive p) rest).2.intern (shapeKey p (n :: rest))
          (table.sizedOf (.primitive p) rest).1 n).2) :=
  rfl

theorem sized_ok (some_ : sizes ≠ []) :
    table.sized (.primitive p) sizes = .ok (table.sizedOf (.primitive p) sizes) := by
  rw [sized, if_neg (by simpa using some_)]

theorem sized_of_found (some_ : sizes ≠ []) :
    ∃ i, (table.sizedOf (.primitive p) sizes).1 = .cell i ∧
      (table.sizedOf (.primitive p) sizes).2.find? (shapeKey p sizes) = some i := by
  obtain ⟨n, rest, rfl⟩ := exists_cons_of_ne_nil some_
  rw [sized_of_cons]
  refine ⟨_, rfl, ?_⟩
  rw [intern_find, if_pos rfl]
  cases found : (table.sizedOf (.primitive p) rest).2.find? (shapeKey p (n :: rest)) with
  | some i => rw [intern_old _ _ _ _ found, some_or]
  | none => rw [none_or]

variable {key : ArrayKey}

theorem sized_of_keeps (sizes : List Int) (found : table.find? key = some i) :
    (table.sizedOf (.primitive p) sizes).2.find? key = some i := by
  induction sizes with
  | nil => exact found
  | cons n rest hyp => rw [sized_of_cons, intern_find, hyp, some_or]

theorem sized_of_known (some_ : sizes ≠ []) (found : table.find? (shapeKey p sizes) = some i) :
    (table.sizedOf (.primitive p) sizes).1 = .cell i := by
  obtain ⟨j, given, listed⟩ := table.sized_of_found p some_
  rw [table.sized_of_keeps p sizes found] at listed
  rw [given, Option.some.inj listed]

theorem sized_of_cells (sizes : List Int) : table.Extends (table.sizedOf (.primitive p) sizes).2 := by
  induction sizes with
  | nil => exact .refl table
  | cons n rest hyp =>
    rw [sized_of_cons]
    cases found : (table.sizedOf (.primitive p) rest).2.find? (shapeKey p (n :: rest)) with
    | some i =>
      rw [intern_old _ _ _ _ found]
      exact hyp
    | none =>
      rw [intern_new _ _ _ _ found]
      exact hyp.trans (push_extends _ _ _)

theorem sized_of_fresh (found : (table.sizedOf (.primitive p) sizes).2.find? key = some i) :
    table.find? key = some i ∨ table.cells[i]? = none := by
  induction sizes with
  | nil => exact .inl found
  | cons n rest hyp =>
    rw [sized_of_cons, intern_find, or_eq_some_iff] at found
    rcases found with before | ⟨missing, own⟩
    · exact hyp before
    · right
      split_ifs at own with same
      subst same
      rw [intern_new _ _ _ _ missing] at own
      cases own
      by_contra present
      obtain ⟨c, cell⟩ := ne_none_iff_exists'.mp present
      have later := table.sized_of_cells p rest _ c cell
      simp at later

theorem sized_of_linked (sizes : List Int) (linked : table.Linked) : (table.sizedOf (.primitive p) sizes).2.Linked := by
  induction sizes with
  | nil => exact linked
  | cons n rest hyp =>
    rw [sized_of_cons]
    cases found : (table.sizedOf (.primitive p) rest).2.find? (shapeKey p (n :: rest)) with
    | some i =>
      rw [intern_old _ _ _ _ found]
      exact hyp
    | none =>
      intro q m later outer some_ filed
      rw [intern_find, or_eq_some_iff] at filed
      rcases filed with before | ⟨-, own⟩
      · obtain ⟨inner, listed, element⟩ := hyp q m later outer some_ before
        refine ⟨inner, by rw [intern_find, listed, some_or], ?_⟩
        obtain ⟨c, cell, below⟩ := map_eq_some_iff.mp element
        rw [intern_new _ _ _ _ found]
        exact map_eq_some_iff.mpr ⟨c, push_extends _ _ _ outer c cell, below⟩
      · -- the array made last lies over what was given for its elements
        split_ifs at own with same
        cases own
        obtain ⟨rfl, rfl, rfl⟩ : p = q ∧ n = m ∧ rest = later := by
          simp only [shapeKey, ArrayKey.mk.injEq, TypeRef.primitive.injEq, Option.some.injEq, List.cons.injEq] at same
          exact ⟨same.1, same.2.2⟩
        obtain ⟨i, given, listed⟩ := table.sized_of_found p some_
        refine ⟨i, by rw [intern_find, listed, some_or], ?_⟩
        rw [intern_new _ _ _ _ found, given]
        simp [element?]

end Requests

-- Requests tell by the elements of what is filed whether the table is canonical.
theorem canonical_iff_linked (table : TypeTable) (filed : table.Filed) : table.Canonical ↔ table.Linked := by
  constructor
  · intro canonical p n rest outer some_ found
    obtain ⟨t, after, e, made, element, below, -⟩ := canonical p n rest some_
    rw [table.sized_ok p (cons_ne_nil _ _), sized_of_cons,
      intern_old _ _ _ _ (table.sized_of_keeps p rest found)] at made
    obtain ⟨rfl, rfl⟩ := Prod.mk.inj (Except.ok.inj made)
    rw [table.sized_ok p some_] at below
    obtain ⟨i, given, listed⟩ := table.sized_of_found p some_
    obtain rfl : .cell i = e := given.symm.trans (Except.ok.inj below)
    -- the elements of an array that was there were there
    obtain ⟨c, cell⟩ : ∃ c, table.cells[outer]? = some c :=
      ⟨_, Array.getElem?_eq_getElem (filed.fits _ (table.find_mem _ outer found)).present⟩
    have own : c.element = .cell i := by
      rw [element?, table.sized_of_cells p rest outer c cell] at element
      exact Option.some.inj element
    have present : table.Present (.cell i) := own ▸ table.element_present filed.grounded cell
    refine ⟨i, (table.sized_of_fresh p listed).resolve_right ?_, ?_⟩
    · rw [Array.getElem?_eq_getElem present]
      exact some_ne_none _
    · rw [element?, cell, map_some, own]
  · intro linked p n rest some_
    obtain ⟨i, given, listed⟩ := table.sized_of_found p some_
    obtain ⟨outer, array, filed'⟩ := table.sized_of_found p (cons_ne_nil _ _)
    have kept : (table.sizedOf (.primitive p) (n :: rest)).2.find? (shapeKey p rest) = some i := by
      rw [sized_of_cons, intern_find, listed, some_or]
    refine ⟨(table.sizedOf (.primitive p) (n :: rest)).1, (table.sizedOf (.primitive p) (n :: rest)).2, .cell i,
      table.sized_ok p (cons_ne_nil _ _), ?_, ?_, ?_⟩
    · obtain ⟨inner, listed', element⟩ := table.sized_of_linked p (n :: rest) linked p n rest outer some_ filed'
      rw [array, element, Option.some.inj (listed'.symm.trans kept)]
    · rw [table.sized_ok p some_]
      exact congrArg _ given
    · rw [sized_ok _ p some_]
      exact congrArg _ (sized_of_known _ p some_ kept)

-- Resizing a cell displaces the elements of an array: the shape that they get has an array already, that of the array
-- has none.
def Displaces (table : TypeTable) (index : Nat) (size : Int) : Prop :=
  ∃ (p : Primitive) (n : Int) (rest : List Int) (outer inner : Nat),
    table.find? (shapeKey p (n :: rest)) = some outer ∧ table.find? (shapeKey p rest) = some inner ∧
      table.element? (.cell outer) = some (.cell inner) ∧ index ∈ table.chain (.cell inner) ∧
        (table.resized index size).sizes (.cell inner) ≠ rest ∧
          (table.find? (shapeKey p ((table.resized index size).sizes (.cell inner)))).isSome ∧
            table.find? (shapeKey p (n :: (table.resized index size).sizes (.cell inner))) = none

theorem Underway.element_same {after : TypeTable} {index : Nat} {size : Int}
    (settled : table.Underway index size [] after) (t : TypeRef) : after.element? t = table.element? t := by
  cases t with
  | primitive p => rfl
  | cell i =>
    rw [element?, element?, settled.cells]
    cases cell : table.cells[i]? with
    | none => simpa [resized] using cell
    | some c =>
      rw [table.resized_cell index size cell]
      split_ifs <;> rfl

section Resizing

variable (table : TypeTable) (filed : table.Filed) (index : Nat) (size : Int)

include filed

theorem Filed.entry_shape {entry : ArrayKey × Nat} (mem : entry ∈ table.entries) (shaped : entry.1.shape ≠ none) :
    entry = (shapeKey (table.root (.cell entry.2)) (table.sizes (.cell entry.2)), entry.2) := by
  have fits := filed.fits entry mem
  obtain ⟨shape, same⟩ := ne_none_iff_exists'.mp shaped
  have length := table.sizes_length filed.grounded (.cell entry.2) fits.present
  obtain ⟨⟨scalar, dims, shape'⟩, i⟩ := entry
  simp only at same length
  have sizes := fits.shape shape same
  have scalar := fits.scalar
  have dims := fits.dims
  simp only at sizes scalar dims
  subst same sizes scalar dims
  rw [shapeKey, length]

theorem resized_element {outer inner : Nat} (element : table.element? (.cell outer) = some (.cell inner)) :
    ∃ n, table.sizes (.cell outer) = n :: table.sizes (.cell inner) ∧
      table.chain (.cell outer) = outer :: table.chain (.cell inner) ∧ outer ∉ table.chain (.cell inner) ∧
        (table.resized index size).sizes (.cell outer) =
          (if index = outer then size else n) :: (table.resized index size).sizes (.cell inner) := by
  obtain ⟨c, cell, below⟩ := map_eq_some_iff.mp element
  have bounded := table.chain_bounded filed.grounded c cell
  rw [below] at bounded
  refine ⟨c.size, ?_, ?_, fun mem => Nat.lt_irrefl _ (bounded outer mem), ?_⟩
  · rw [table.sizes_cell filed.grounded cell, below]
  · rw [table.chain_cell filed.grounded cell, below]
  · rw [sizes_cell _ (table.resized_grounded index size filed.grounded) (table.resized_cell index size cell)]
    split_ifs <;> rw [below]

theorem resized_length (present : i < table.cells.size) :
    ((table.resized index size).sizes (.cell i)).length = (table.sizes (.cell i)).length := by
  have present' : (table.resized index size).Present (.cell i) := by
    change i < (table.resized index size).cells.size
    rwa [resized_size]
  rw [sizes_length _ (table.resized_grounded index size filed.grounded) _ present',
    (table.resized_same index size filed.grounded (.cell i) present).1, table.sizes_length filed.grounded
      (.cell i) present]

variable (after : TypeTable) (settled : table.Underway index size [] after)

include settled

theorem settled_find (p : Primitive) (i : Nat) :
    after.find? (shapeKey p sizes) = some i ↔
      ∃ old, table.find? (shapeKey p old) = some i ∧ (table.resized index size).sizes (.cell i) = sizes ∧
        (old = sizes ∨ table.find? (shapeKey p sizes) = none) := by
  rw [after.find_iff settled.keys, settled.mem]
  constructor
  · rintro (⟨mem, waiting | kept⟩ | ⟨old, mem, -, stale, free, equal⟩)
    · cases waiting
    · refine ⟨sizes, (table.find_iff filed.keys _ i).mpr mem, ?_, .inl rfl⟩
      have fits := filed.fits _ mem
      by_contra other
      refine kept ⟨by simp [shapeKey], fun same => other (Option.some.inj same).symm, ?_⟩
      by_contra away
      rw [(table.resized_same index size filed.grounded (.cell i) fits.present).1] at away
      exact other
        ((table.resized_away index size filed.grounded (.cell i) fits.present away).trans (fits.shape sizes rfl).symm)
    · have own := filed.entry_shape table mem stale.1
      obtain ⟨key, rfl⟩ := Prod.mk.inj equal
      obtain ⟨scalar, -, shape⟩ := (table.resized index size).current_key key.symm
      rw [own] at scalar
      obtain rfl := TypeRef.primitive.inj scalar
      refine ⟨table.sizes (.cell old.2), (table.find_iff filed.keys _ _).mpr (own ▸ mem),
        (Option.some.inj shape).symm, .inr ?_⟩
      rw [eq_none_iff_forall_ne_some]
      intro other found
      exact free _ (table.find_mem _ other found) key
  · rintro ⟨old, found, now, choice⟩
    have mem := table.find_mem _ i found
    obtain ⟨present, root, before⟩ := filed.find_shape found
    by_cases same : old = sizes
    · subst same
      exact .inl ⟨mem, .inr fun stale => stale.2.1 (congrArg some now.symm)⟩
    · have free := choice.resolve_left same
      have within : index ∈ (table.resized index size).chain (.cell i) := by
        by_contra away
        rw [(table.resized_same index size filed.grounded (.cell i) present).1] at away
        rw [table.resized_away index size filed.grounded (.cell i) present away, before] at now
        exact same now
      have moved : (table.resized index size).current (shapeKey p old, i) = (shapeKey p sizes, i) := by
        have length : old.length = sizes.length := by
          rw [← before, ← now, table.resized_length filed index size present]
        simp [current, shapeKey, now, length]
      refine .inr ⟨_, mem, not_mem_nil, ⟨by simp [shapeKey], ?_, within⟩, ?_, moved.symm⟩
      · intro equal
        exact same ((Option.some.inj equal).trans now)
      · intro other listed taken
        rw [moved] at taken
        exact table.find_none free (mem_map.mpr ⟨other, listed, taken⟩)

-- A resize of a table whose arrays are linked leaves them so exactly if it displaces no elements.
theorem settled_linked (linked : table.Linked) : after.Linked ↔ ¬ table.Displaces index size := by
  constructor
  · rintro linked' ⟨p, n, rest, outer, inner, found, below, element, within, other, taken, free⟩
    obtain ⟨m, before, -, apart, now⟩ := table.resized_element filed index size element
    have elsewhere : index ≠ outer := fun same => apart (same ▸ within)
    obtain ⟨-, -, sizes⟩ := filed.find_shape found
    obtain ⟨rfl, -⟩ := List.cons.inj (before.symm.trans sizes)
    rw [if_neg elsewhere] at now
    obtain ⟨present, -, own⟩ := filed.find_shape below
    have some_ : (table.resized index size).sizes (.cell inner) ≠ [] := by
      rw [← length_pos_iff, table.resized_length filed index size present,
        table.sizes_length filed.grounded (.cell inner) present]
      exact length_pos_of_mem within
    obtain ⟨inner', below', element'⟩ := linked' p m _ outer some_
      ((table.settled_find filed index size after settled p outer).mpr ⟨_, found, now, .inr free⟩)
    rw [settled.element_same, element] at element'
    obtain rfl := TypeRef.cell.inj (Option.some.inj element')
    obtain ⟨old, found', -, same | free'⟩ := (table.settled_find filed index size after settled p inner).mp below'
    · obtain ⟨-, -, own'⟩ := filed.find_shape found'
      exact other (same.symm.trans (own'.symm.trans own))
    · rw [free'] at taken
      cases taken
  · intro displaces p n rest outer some_ found
    obtain ⟨old, found, now, choice⟩ := (table.settled_find filed index size after settled p outer).mp found
    obtain ⟨present, -, sizes⟩ := filed.find_shape found
    -- the array has as many dimensions as before
    obtain ⟨m, before, rfl⟩ : ∃ m before, old = m :: before := by
      refine exists_cons_of_length_pos ?_
      rw [← sizes, ← table.resized_length filed index size present, now]
      exact Nat.succ_pos _
    have some' : before ≠ [] := by
      have length := table.resized_length filed index size present
      rw [now, sizes, length_cons, length_cons] at length
      rw [← length_pos_iff] at some_ ⊢
      omega
    obtain ⟨inner, below, element⟩ := linked p m before outer some' found
    obtain ⟨k, held, -, apart, now'⟩ := table.resized_element filed index size element
    obtain ⟨first, rfl⟩ := List.cons.inj (now.symm.trans now')
    refine ⟨inner, (table.settled_find filed index size after settled p inner).mpr ⟨before, below, rfl, ?_⟩, ?_⟩
    · by_contra neither
      rw [not_or] at neither
      obtain ⟨moved, taken⟩ := neither
      obtain ⟨inside, -, own⟩ := filed.find_shape below
      have within : index ∈ table.chain (.cell inner) := by
        by_contra away
        rw [table.resized_away index size filed.grounded (.cell inner) inside away] at moved
        exact moved own.symm
      have elsewhere : index ≠ outer := fun same => apart (same ▸ within)
      rw [if_neg elsewhere] at first
      obtain ⟨rfl, -⟩ := List.cons.inj (sizes.symm.trans held)
      subst first
      refine displaces ⟨p, _, before, outer, inner, found, below, element, within, Ne.symm moved,
        isSome_iff_ne_none.mpr taken, choice.resolve_left fun same => moved (List.cons.inj same).2⟩
    · rw [settled.element_same, element]

end Resizing

inductive Call where
  | sized (p : Primitive) (sizes : List Int)
  | resize (t : TypeRef) (dim size : Int)

-- A request that fails leaves the table as it is.
def perform (table : TypeTable) : Call → TypeTable
  | .sized p sizes => ((table.sized (.primitive p) sizes).toOption.map Prod.snd).getD table
  | .resize t dim size => (table.setDimension t dim size).toOption.getD table

def history (calls : List Call) : TypeTable := calls.foldl perform {}

def CallDisplaces (table : TypeTable) : Call → Prop
  | .sized _ _ => False
  | .resize t dim size => ∃ index, table.dimension t dim = .ok index ∧ table.Displaces index size

theorem history_snoc (calls : List Call) (call : Call) : history (calls ++ [call]) = (history calls).perform call := by
  rw [history, foldl_append]
  rfl

theorem perform_sized (table : TypeTable) (p : Primitive) (sizes : List Int) :
    table.perform (.sized p sizes) = (table.sizedOf (.primitive p) sizes).2 := by
  cases sizes with
  | nil => rfl
  | cons n rest => rfl

theorem perform_filed (filed : table.Filed) (call : Call) : (table.perform call).Filed := by
  cases call with
  | sized p sizes =>
    rw [perform_sized]
    exact (table.sized_of_makes filed p sizes).1.filed
  | resize t dim size =>
    cases found : table.dimension t dim with
    | error fault =>
      rw [perform, setDimension, found]
      exact filed
    | ok index =>
      rw [perform, table.set_dimension_ok size found]
      exact (filed.settled (foldl_rekeys index _ _)).filed filed

theorem history_filed (calls : List Call) : (history calls).Filed := by
  induction calls using List.reverseRecOn with
  | nil => exact empty_filed
  | append_singleton calls call hyp =>
    rw [history_snoc]
    exact perform_filed hyp call

theorem perform_linked (table : TypeTable) (filed : table.Filed) (linked : table.Linked) (call : Call) :
    (table.perform call).Linked ↔ ¬ table.CallDisplaces call := by
  cases call with
  | sized p sizes =>
    rw [perform_sized]
    exact iff_of_true (table.sized_of_linked p sizes linked) not_false
  | resize t dim size =>
    cases found : table.dimension t dim with
    | error fault =>
      rw [perform, setDimension, found]
      refine iff_of_true linked ?_
      rintro ⟨index, other, -⟩
      rw [found] at other
      cases other
    | ok index =>
      rw [perform, table.set_dimension_ok size found]
      refine (table.settled_linked filed index size _ (filed.settled (foldl_rekeys index _ _)) linked).trans ?_
      refine not_congr ⟨fun displaces => ⟨index, found, displaces⟩, ?_⟩
      rintro ⟨other, found', displaces⟩
      obtain rfl := Except.ok.inj (found.symm.trans found')
      exact displaces

theorem empty_linked : ({} : TypeTable).Linked := by
  intro p n rest outer _ found
  cases found

-- Arrays stay canonical throughout a history exactly as long as no request displaces elements.
theorem canonical_throughout_iff (calls : List Call) :
    (∀ before, before <+: calls → (history before).Canonical) ↔
      ∀ before call, before ++ [call] <+: calls → ¬ (history before).CallDisplaces call := by
  simp only [fun before => (history before).canonical_iff_linked (history_filed before)]
  constructor
  · intro linked before call leading
    have first := linked before ((prefix_append before [call]).trans leading)
    have next := linked (before ++ [call]) leading
    rw [history_snoc] at next
    exact ((history before).perform_linked (history_filed before) first call).mp next
  · intro steady before leading
    induction before using List.reverseRecOn with
    | nil => exact empty_linked
    | append_singleton before call hyp =>
      rw [history_snoc]
      refine ((history before).perform_linked (history_filed before) (hyp ?_) call).mpr (steady before call leading)
      exact (prefix_append before [call]).trans leading

-- Rows of three become rows of five where there are such already, and the array over them is now found among those.
theorem resized_rows_not_canonical :
    ¬ (history [.sized .int [2, 3], .sized .int [5], .resize (.cell 0) 1 5]).Canonical := by
  intro canonical
  obtain ⟨t, after, e, made, element, below, -⟩ := canonical .int 2 [5] (by decide)
  have rows : (history [.sized .int [2, 3], .sized .int [5], .resize (.cell 0) 1 5]).sized (.primitive .int) [5] =
      .ok (.cell 2, history [.sized .int [2, 3], .sized .int [5], .resize (.cell 0) 1 5]) := rfl
  have array : (history [.sized .int [2, 3], .sized .int [5], .resize (.cell 0) 1 5]).sized (.primitive .int) [2, 5] =
      .ok (.cell 1, history [.sized .int [2, 3], .sized .int [5], .resize (.cell 0) 1 5]) := rfl
  obtain ⟨rfl, rfl⟩ := Prod.mk.inj (Except.ok.inj (array.symm.trans made))
  rw [rows] at below
  cases below
  cases element

end TypeTable

end Blockwork
