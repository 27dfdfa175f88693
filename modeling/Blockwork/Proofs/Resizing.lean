import Blockwork.Proofs.TypeTables

set_option autoImplicit false

namespace Blockwork

open List

variable {t : TypeRef} {other : TypeTable} {entry : ArrayKey × Nat}

namespace TypeTable

def resized (table : TypeTable) (index : Nat) (size : Int) : TypeTable :=
  { table with cells := table.cells.modify index fun cell => { cell with size } }

section Resizing

variable (table : TypeTable) (index : Nat) (size : Int) {i : Nat} {c : ArrayCell}

theorem resized_cell (found : table.cells[i]? = some c) :
    (table.resized index size).cells[i]? = some (if index = i then { c with size } else c) := by
  obtain ⟨bound, rfl⟩ := Array.getElem?_eq_some_iff.mp found
  change (table.cells.modify index fun cell => { cell with size })[i]? = _
  rw [Array.getElem?_eq_getElem (by simpa using bound), Array.getElem_modify]

theorem resized_cell_from (found : (table.resized index size).cells[i]? = some c) :
    ∃ old, table.cells[i]? = some old ∧ c.element = old.element := by
  have bound : i < table.cells.size := by simpa [resized] using (Array.getElem?_eq_some_iff.mp found).1
  have before : table.cells[i]? = some table.cells[i] := Array.getElem?_eq_getElem bound
  refine ⟨_, before, ?_⟩
  rw [table.resized_cell index size before, Option.some.injEq] at found
  rw [← found]
  split <;> rfl

theorem resized_size : (table.resized index size).cells.size = table.cells.size := by simp [resized]

variable (grounded : table.Grounded)

include grounded

theorem resized_grounded : (table.resized index size).Grounded := by
  intro i c found j inner
  obtain ⟨old, before, same⟩ := table.resized_cell_from index size found
  exact grounded i old before j (same.symm.trans inner)

theorem resized_same (t : TypeRef) (present : table.Present t) :
    (table.resized index size).chain t = table.chain t ∧ (table.resized index size).root t = table.root t := by
  have grounded' := table.resized_grounded index size grounded
  refine table.present_induction grounded
    (fun t => (table.resized index size).chain t = table.chain t ∧ (table.resized index size).root t = table.root t)
      ?_ ?_
    present
  · intro p
    simp
  · intro i c found hyp
    have after := table.resized_cell index size found
    have element : (if index = i then { c with size } else c).element = c.element := by split <;> rfl
    rw [chain_cell _ grounded' after, root_cell _ grounded' after, table.chain_cell grounded found,
      table.root_cell grounded found, element]
    exact ⟨by rw [hyp.1], hyp.2⟩

theorem resized_away (t : TypeRef) (present : table.Present t) (away : index ∉ table.chain t) :
    (table.resized index size).sizes t = table.sizes t := by
  have grounded' := table.resized_grounded index size grounded
  revert away
  refine table.present_induction grounded
    (fun t => index ∉ table.chain t → (table.resized index size).sizes t = table.sizes t) ?_ ?_ present
  · intro p _
    simp
  · intro i c found hyp away
    rw [table.chain_cell grounded found, mem_cons, not_or] at away
    have after := table.resized_cell index size found
    rw [if_neg away.1] at after
    rw [sizes_cell _ grounded' after, table.sizes_cell grounded found, hyp away.2]

-- The cell has one place in every chain through it, counted from the scalar.
theorem resized_within (present : table.Present t) (within : index ∈ table.chain t) :
    (table.chain (.cell index)).length ≤ (table.chain t).length ∧
      (table.sizes t)[(table.chain t).length - (table.chain (.cell index)).length]? = table.cells[index]?.map (·.size) ∧
        (table.resized index size).sizes t =
          (table.sizes t).set ((table.chain t).length - (table.chain (.cell index)).length) size := by
  have grounded' := table.resized_grounded index size grounded
  revert within
  refine table.present_induction grounded
    (fun t => index ∈ table.chain t →
      (table.chain (.cell index)).length ≤ (table.chain t).length ∧
        (table.sizes t)[(table.chain t).length - (table.chain (.cell index)).length]? =
          table.cells[index]?.map (·.size) ∧ (table.resized index size).sizes t =
            (table.sizes t).set ((table.chain t).length - (table.chain (.cell index)).length) size) ?_ ?_ present
  · intro p within
    simp at within
  · intro i c found hyp within
    have after := table.resized_cell index size found
    by_cases here : index = i
    · subst here
      have away : index ∉ table.chain c.element := by
        intro mem
        exact Nat.lt_irrefl _ (table.chain_bounded grounded c found index mem)
      have below := table.resized_away index size grounded c.element (table.element_present grounded found) away
      rw [if_pos rfl] at after
      rw [sizes_cell _ grounded' after, table.sizes_cell grounded found, below]
      simp [found]
    · rw [table.chain_cell grounded found, mem_cons] at within
      obtain ⟨shorter, held, changed⟩ := hyp (within.resolve_left here)
      have step : (table.chain (.cell i)).length - (table.chain (.cell index)).length =
          (table.chain c.element).length - (table.chain (.cell index)).length + 1 := by
        rw [table.chain_cell grounded found, length_cons]
        omega
      rw [if_neg here] at after
      refine ⟨?_, ?_, ?_⟩
      · rw [table.chain_cell grounded found, length_cons]
        omega
      · rw [step, table.sizes_cell grounded found, getElem?_cons_succ]
        exact held
      · rw [step, sizes_cell _ grounded' after, table.sizes_cell grounded found, set_cons_succ, changed]

end Resizing

variable {table : TypeTable} {fuel index : Nat}

theorem cells_same (same : table.cells = other.cells) (t : TypeRef) :
    table.chain t = other.chain t ∧ table.root t = other.root t ∧ table.sizes t = other.sizes t := by
  have walk : ∀ fuel t, table.chainFrom fuel t = other.chainFrom fuel t ∧
      table.rootFrom fuel t = other.rootFrom fuel t := by
    intro fuel
    induction fuel with
    | zero => exact fun t => by cases t <;> exact ⟨rfl, rfl⟩
    | succ fuel hyp =>
      intro t
      cases t with
      | primitive p => exact ⟨rfl, rfl⟩
      | cell i =>
        rw [chainFrom, chainFrom, rootFrom, rootFrom, same]
        cases other.cells[i]? with
        | none => exact ⟨rfl, rfl⟩
        | some c => exact (hyp c.element).imp_left (congrArg _)
  obtain ⟨chain, root⟩ := walk other.cells.size t
  rw [sizes, sizes, TypeTable.chain, TypeTable.chain, TypeTable.root, TypeTable.root, same]
  exact ⟨chain, root, by rw [chain]⟩

theorem Fits.moved {later : TypeTable} (fits : table.Fits entry) (same : later.cells = table.cells) :
    later.Fits entry := by
  obtain ⟨chain, root, sizes⟩ := cells_same same (.cell entry.2)
  exact
    { present := by rw [same]; exact fits.present
      scalar := by rw [root]; exact fits.scalar
      dims := by rw [chain]; exact fits.dims
      shape := by rw [sizes]; exact fits.shape }

-- The entries that a resized cell leaves under a shape they no longer have.
def Stale (table : TypeTable) (changed : Nat) (entry : ArrayKey × Nat) : Prop :=
  entry.1.shape ≠ none ∧ entry.1.shape ≠ some (table.sizes (.cell entry.2)) ∧ changed ∈ table.chain (.cell entry.2)

def current (table : TypeTable) (entry : ArrayKey × Nat) : ArrayKey × Nat :=
  ({ entry.1 with shape := some (table.sizes (.cell entry.2)) }, entry.2)

theorem current_key (table : TypeTable) {key : ArrayKey} (same : (table.current entry).1 = key) :
    entry.1.scalar = key.scalar ∧ entry.1.dims = key.dims ∧ key.shape = some (table.sizes (.cell entry.2)) := by
  subst same
  exact ⟨rfl, rfl, rfl⟩

theorem current_not_stale (changed : Nat) (entry : ArrayKey × Nat) :
    ¬ table.Stale changed (table.current entry) := fun stale => stale.2.1 rfl

theorem refile_kept (table : TypeTable) (changed : Nat) (entry : ArrayKey × Nat) (kept : ¬ table.Stale changed entry) :
    refile changed table entry = table := by
  unfold refile
  refine if_pos ?_
  by_contra other
  refine kept ?_
  simpa [Stale, not_or] using other

theorem refile_stale (table : TypeTable) (changed : Nat) (entry : ArrayKey × Nat) (stale : table.Stale changed entry) :
    refile changed table entry =
      if ((table.remove entry.1).find? (table.current entry).1).isSome then table.remove entry.1
      else (table.remove entry.1).file (table.current entry).1 entry.2 := by
  unfold refile
  refine if_neg ?_
  rintro (none | same | away)
  · exact stale.1 none
  · exact stale.2.1 same
  · exact away (by simpa using stale.2.2)

section Collisions

variable (table : TypeTable) (filed : table.Filed) (index : Nat) (size : Int) (first second : ArrayKey × Nat)
  (mem : first ∈ table.entries) (mem' : second ∈ table.entries) (stale : (table.resized index size).Stale index first)
  (stale' : (table.resized index size).Stale index second)

include filed mem

theorem stale_shape (stale : (table.resized index size).Stale index first) :
    first.1.shape = some (table.sizes (.cell first.2)) ∧ (table.chain (.cell index)).length ≤ first.1.dims ∧
      (table.sizes (.cell first.2))[first.1.dims - (table.chain (.cell index)).length]? =
        table.cells[index]?.map (·.size) ∧ (table.resized index size).sizes (.cell first.2) =
          (table.sizes (.cell first.2)).set (first.1.dims - (table.chain (.cell index)).length) size := by
  have fits := filed.fits first mem
  obtain ⟨shape, same⟩ := Option.ne_none_iff_exists'.mp stale.1
  have within := stale.2.2
  rw [(table.resized_same index size filed.grounded (.cell first.2) fits.present).1] at within
  rw [fits.dims]
  exact ⟨by rw [same, fits.shape shape same],
    table.resized_within index size filed.grounded fits.present within⟩

include mem' stale stale'

-- Stale entries go apart: the place of the cell is the same in all of one depth.
theorem stale_apart
    (same : ((table.resized index size).current first).1 = ((table.resized index size).current second).1) :
    first = second := by
  obtain ⟨shape, _, held, changed⟩ := table.stale_shape filed index size first mem stale
  obtain ⟨shape', _, held', changed'⟩ := table.stale_shape filed index size second mem' stale'
  obtain ⟨(scalar : first.1.scalar = second.1.scalar), (dims : first.1.dims = second.1.dims), sizes⟩ :=
    (table.resized index size).current_key same
  replace sizes := (Option.some.inj sizes).symm
  rw [changed, changed', dims] at sizes
  rw [dims] at held
  have before : table.sizes (.cell first.2) = table.sizes (.cell second.2) := by
    refine ext_getElem? fun place => ?_
    by_cases here : second.1.dims - (table.chain (.cell index)).length = place
    · rw [← here, held, held']
    · have there := congrArg (fun list => list[place]?) sizes
      simpa only [getElem?_set_ne here] using there
  have key : first.1 = second.1 := by
    have shapes : first.1.shape = second.1.shape := by rw [shape, shape', before]
    obtain ⟨⟨_, _, _⟩, _⟩ := first
    obtain ⟨⟨_, _, _⟩, _⟩ := second
    exact ArrayKey.mk.injEq .. ▸ ⟨scalar, dims, shapes⟩
  exact inj_on_of_nodup_map filed.keys mem mem' key

-- Nor does a stale entry take a key that another is about to leave.
theorem stale_not_taken : ((table.resized index size).current first).1 ≠ second.1 := by
  intro same
  obtain ⟨shape, shorter, held, changed⟩ := table.stale_shape filed index size first mem stale
  obtain ⟨shape', _, held', _⟩ := table.stale_shape filed index size second mem' stale'
  obtain ⟨_, dims, sizes⟩ := (table.resized index size).current_key same
  replace sizes := Option.some.inj (sizes.symm.trans shape')
  have still : (table.resized index size).sizes (.cell first.2) = table.sizes (.cell first.2) := by
    rw [changed]
    refine ext_getElem? fun place => ?_
    by_cases here : first.1.dims - (table.chain (.cell index)).length = place
    · have after : ((table.resized index size).sizes (.cell first.2))[place]? = table.cells[index]?.map (·.size) := by
        rw [sizes, ← here, dims, held']
      rw [← changed, after, ← here, held]
    · rw [getElem?_set_ne here]
  exact stale.2.1 (by rw [still, shape])

end Collisions

theorem mem_remove (table : TypeTable) (keys : (table.entries.map Prod.fst).Nodup) (entry other : ArrayKey × Nat)
    (mem : entry ∈ table.entries) : other ∈ (table.remove entry.1).entries ↔ other ∈ table.entries ∧ other ≠ entry := by
  rw [remove, mem_filter]
  refine and_congr_right fun member => ?_
  rw [decide_eq_true_iff]
  refine not_congr ⟨fun same => inj_on_of_nodup_map keys member mem same, ?_⟩
  rintro rfl
  rfl

theorem find_some_iff (table : TypeTable) (key : ArrayKey) :
    (table.find? key).isSome ↔ ∃ entry ∈ table.entries, entry.1 = key := by
  simp [find?]

theorem find_iff (table : TypeTable) (keys : (table.entries.map Prod.fst).Nodup) (key : ArrayKey) (index : Nat) :
    table.find? key = some index ↔ (key, index) ∈ table.entries := by
  refine ⟨table.find_mem key index, fun mem => ?_⟩
  obtain ⟨other, found⟩ := Option.isSome_iff_exists.mp ((table.find_some_iff key).mpr ⟨_, mem, rfl⟩)
  have same := inj_on_of_nodup_map keys (table.find_mem key other found) mem rfl
  rw [found, (Prod.mk.inj same).2]

-- One way through the entries while they are filed again: those that were there are met once each, in any
-- order, and those that are filed meanwhile may be met too.
inductive Rekeys (changed : Nat) : List (ArrayKey × Nat) → TypeTable → TypeTable → Prop
  | done (table : TypeTable) : Rekeys changed [] table table
  | next (pending : List (ArrayKey × Nat)) (entry : ArrayKey × Nat) (table after : TypeTable)
      (waiting : entry ∈ pending) (rest : Rekeys changed (pending.erase entry) (refile changed table entry) after) :
      Rekeys changed pending table after
  | again (pending : List (ArrayKey × Nat)) (entry : ArrayKey × Nat) (table after : TypeTable) (met : entry ∉ pending)
      (present : entry ∈ table.entries) (rest : Rekeys changed pending (refile changed table entry) after) :
      Rekeys changed pending table after

theorem foldl_rekeys (changed : Nat) (entries : List (ArrayKey × Nat)) (table : TypeTable) :
    Rekeys changed entries table (entries.foldl (refile changed) table) := by
  induction entries generalizing table with
  | nil => exact .done table
  | cons entry rest hyp =>
    refine .next _ entry _ _ mem_cons_self ?_
    rw [erase_cons_head]
    exact hyp (refile changed table entry)

-- A table on the way: what waits is as it was, what was met is settled, whatever the order.
structure Underway (table : TypeTable) (index : Nat) (size : Int) (pending : List (ArrayKey × Nat))
    (now : TypeTable) : Prop where
  cells : now.cells = (table.resized index size).cells
  keys : (now.entries.map Prod.fst).Nodup
  once : pending.Nodup
  waiting : ∀ entry ∈ pending, entry ∈ table.entries
  mem : ∀ entry, entry ∈ now.entries ↔
    entry ∈ table.entries ∧ (entry ∈ pending ∨ ¬ (table.resized index size).Stale index entry) ∨
      ∃ old ∈ table.entries, old ∉ pending ∧ (table.resized index size).Stale index old ∧
        (∀ other ∈ table.entries, other.1 ≠ ((table.resized index size).current old).1) ∧
          entry = (table.resized index size).current old

theorem start_underway (table : TypeTable) (filed : table.Filed) (index : Nat) (size : Int) :
    table.Underway index size table.entries (table.resized index size) where
  cells := rfl
  keys := filed.keys
  once := filed.keys.of_map _
  waiting := fun _ member => member
  mem := by
    intro entry
    refine ⟨fun member => .inl ⟨member, .inl member⟩, ?_⟩
    rintro (⟨member, _⟩ | ⟨old, member, met, _⟩)
    · exact member
    · exact absurd member met

namespace Underway

section

variable {table : TypeTable} {index : Nat} {size : Int} {pending : List (ArrayKey × Nat)} {now : TypeTable}
  (underway : table.Underway index size pending now)

include underway

theorem stale_iff (entry : ArrayKey × Nat) : now.Stale index entry ↔ (table.resized index size).Stale index entry := by
  obtain ⟨chain, _, sizes⟩ := cells_same underway.cells (.cell entry.2)
  rw [Stale, Stale, chain, sizes]

theorem current_eq (entry : ArrayKey × Nat) : now.current entry = (table.resized index size).current entry := by
  rw [TypeTable.current, TypeTable.current, (cells_same underway.cells (.cell entry.2)).2.2]

theorem waiting_mem (waiting : entry ∈ pending) : entry ∈ now.entries :=
  (underway.mem entry).mpr (.inl ⟨underway.waiting entry waiting, .inl waiting⟩)

theorem again (met : entry ∉ pending) (present : entry ∈ now.entries) :
    table.Underway index size pending (refile index now entry) := by
  have kept : ¬ now.Stale index entry := by
    rcases (underway.mem entry).mp present with ⟨_, waiting | kept⟩ | ⟨old, _, _, _, _, rfl⟩
    · exact absurd waiting met
    · rw [underway.stale_iff]
      exact kept
    · rw [underway.stale_iff]
      exact current_not_stale index old
  rw [now.refile_kept index entry kept]
  exact underway

theorem next_kept (waiting : entry ∈ pending) (kept : ¬ (table.resized index size).Stale index entry) :
    table.Underway index size (pending.erase entry) (refile index now entry) := by
  rw [now.refile_kept index entry (by rw [underway.stale_iff]; exact kept)]
  refine ⟨underway.cells, underway.keys, underway.once.erase entry,
    fun other mem => underway.waiting other (mem_of_mem_erase mem), fun other => ?_⟩
  rw [underway.mem other]
  by_cases same : other = entry
  · subst same
    refine or_congr (by simp [kept, underway.waiting other waiting]) (exists_congr fun old => ?_)
    refine and_congr_right fun _ => ?_
    by_cases this : old = other
    · subst this
      simp [kept]
    · rw [mem_erase_of_ne this]
  · refine or_congr (by rw [mem_erase_of_ne same]) (exists_congr fun old => ?_)
    refine and_congr_right fun _ => ?_
    by_cases this : old = entry
    · subst this
      simp [kept]
    · rw [mem_erase_of_ne this]

theorem mem_removed (waiting : entry ∈ pending) (stale : (table.resized index size).Stale index entry)
    (other : ArrayKey × Nat) :
    other ∈ (now.remove entry.1).entries ↔
      other ∈ table.entries ∧ (other ∈ pending.erase entry ∨ ¬ (table.resized index size).Stale index other) ∨
        ∃ old ∈ table.entries, old ∉ pending ∧ (table.resized index size).Stale index old ∧
          (∀ other ∈ table.entries, other.1 ≠ ((table.resized index size).current old).1) ∧
            other = (table.resized index size).current old := by
  rw [now.mem_remove underway.keys entry other (underway.waiting_mem waiting), underway.mem other]
  have mem := underway.waiting entry waiting
  by_cases same : other = entry
  · subst same
    have gone : other ∉ pending.erase other := underway.once.not_mem_erase
    constructor
    · rintro ⟨_, apart⟩
      exact absurd rfl apart
    · rintro (⟨_, still | kept⟩ | ⟨old, _, _, _, free, equal⟩)
      · exact absurd still gone
      · exact absurd stale kept
      · exact absurd (congrArg Prod.fst equal) (free other mem)
  · rw [mem_erase_of_ne same]
    exact and_iff_left same

variable (filed : table.Filed)

include filed

-- Whether the key is taken does not depend on who came first.
theorem taken_iff (waiting : entry ∈ pending) (stale : (table.resized index size).Stale index entry) :
    ((now.remove entry.1).find? (now.current entry).1).isSome ↔
      ∃ other ∈ table.entries, other.1 = ((table.resized index size).current entry).1 := by
  have old := underway.waiting entry waiting
  rw [find_some_iff, underway.current_eq]
  constructor
  · rintro ⟨other, mem, same⟩
    obtain ⟨mem, apart⟩ := (now.mem_remove underway.keys entry other (underway.waiting_mem waiting)).mp mem
    rcases (underway.mem other).mp mem with ⟨there, _⟩ | ⟨source, there, met, stale', _, rfl⟩
    · exact ⟨other, there, same⟩
    · have equal := table.stale_apart filed index size source entry there old stale' stale same
      exact absurd (equal ▸ waiting) met
  · rintro ⟨other, mem, same⟩
    have kept : ¬ (table.resized index size).Stale index other := fun stale' =>
      table.stale_not_taken filed index size entry other old mem stale stale' same.symm
    refine ⟨other, (now.mem_remove underway.keys entry other (underway.waiting_mem waiting)).mpr ⟨?_, ?_⟩, same⟩
    · exact (underway.mem other).mpr (.inl ⟨mem, .inr kept⟩)
    · rintro rfl
      exact kept stale

theorem next_stale (waiting : entry ∈ pending) (stale : (table.resized index size).Stale index entry) :
    table.Underway index size (pending.erase entry) (refile index now entry) := by
  have old := underway.waiting entry waiting
  have gone : entry ∉ pending.erase entry := underway.once.not_mem_erase
  have others : ∀ other ∈ pending.erase entry, other ∈ table.entries := fun other mem =>
    underway.waiting other (mem_of_mem_erase mem)
  have keys : ((now.remove entry.1).entries.map Prod.fst).Nodup := by
    refine underway.keys.sublist (List.Sublist.map _ ?_)
    exact filter_sublist
  -- those met so far, and the one met now
  have settled : ∀ source ∈ table.entries, (table.resized index size).Stale index source →
      (source ∉ pending.erase entry ↔ source ∉ pending ∨ source = entry) := by
    intro source _ _
    by_cases same : source = entry
    · subst same
      simp [gone]
    · rw [mem_erase_of_ne same]
      simp [same]
  rw [now.refile_stale index entry (by rw [underway.stale_iff]; exact stale)]
  by_cases taken : ((now.remove entry.1).find? (now.current entry).1).isSome
  · rw [if_pos taken]
    obtain ⟨holder, held, key⟩ := (underway.taken_iff filed waiting stale).mp taken
    refine ⟨underway.cells, keys, underway.once.erase entry, others, fun other => ?_⟩
    rw [underway.mem_removed waiting stale other]
    refine or_congr_right (exists_congr fun source => and_congr_right fun mem => ?_)
    constructor
    · rintro ⟨met, stale', free, equal⟩
      exact ⟨(settled source mem stale').mpr (.inl met), stale', free, equal⟩
    · rintro ⟨met, stale', free, equal⟩
      rcases (settled source mem stale').mp met with met | rfl
      · exact ⟨met, stale', free, equal⟩
      · exact absurd key (free holder held)
  · rw [if_neg taken]
    have free : ∀ other ∈ table.entries, other.1 ≠ ((table.resized index size).current entry).1 := by
      intro other mem same
      exact taken ((underway.taken_iff filed waiting stale).mpr ⟨other, mem, same⟩)
    refine ⟨underway.cells, ?_, underway.once.erase entry, others, fun other => ?_⟩
    · rw [file, map_append, nodup_append']
      refine ⟨keys, nodup_singleton _, ?_⟩
      rw [map_singleton, disjoint_singleton, mem_map]
      rintro ⟨other, mem, same⟩
      exact taken ((find_some_iff _ _).mpr ⟨other, mem, same⟩)
    · rw [file, mem_append, mem_singleton, underway.mem_removed waiting stale other, or_assoc]
      refine or_congr_right ?_
      have made : ((now.current entry).1, entry.2) = (table.resized index size).current entry := by
        rw [underway.current_eq]
        rfl
      rw [made]
      constructor
      · rintro (⟨source, mem, met, stale', free', equal⟩ | equal)
        · exact ⟨source, mem, (settled source mem stale').mpr (.inl met), stale', free', equal⟩
        · exact ⟨entry, old, gone, stale, free, equal⟩
      · rintro ⟨source, mem, met, stale', free', equal⟩
        rcases (settled source mem stale').mp met with met | rfl
        · exact .inl ⟨source, mem, met, stale', free', equal⟩
        · exact .inr equal

theorem next (waiting : entry ∈ pending) :
    table.Underway index size (pending.erase entry) (refile index now entry) := by
  by_cases stale : (table.resized index size).Stale index entry
  · exact underway.next_stale filed waiting stale
  · exact underway.next_kept waiting stale

theorem run {after : TypeTable} (rekeys : Rekeys index pending now after) : table.Underway index size [] after := by
  induction rekeys with
  | done => exact underway
  | next pending entry now after waiting _ hyp => exact hyp (underway.next filed waiting)
  | again pending entry now after met present _ hyp => exact hyp (underway.again met present)

end

section

variable {table : TypeTable} {index : Nat} {size : Int} {now : TypeTable} (settled : table.Underway index size [] now)

include settled

theorem find_same (settled' : table.Underway index size [] other) (key : ArrayKey) :
    now.find? key = other.find? key := by
  refine Option.ext fun i => ?_
  rw [now.find_iff settled.keys, other.find_iff settled'.keys, settled.mem, settled'.mem]

theorem filed (filed : table.Filed) : now.Filed := by
  have grounded := table.resized_grounded index size filed.grounded
  refine ⟨?_, settled.keys, fun entry mem => ?_⟩
  · intro i c found j inner
    rw [settled.cells] at found
    exact grounded i c found j inner
  · suffices fits : (table.resized index size).Fits entry from fits.moved settled.cells
    rcases (settled.mem entry).mp mem with ⟨old, waiting | kept⟩ | ⟨source, old, _, _, _, rfl⟩
    · exact absurd waiting not_mem_nil
    · have fits := filed.fits entry old
      obtain ⟨chain, root⟩ := table.resized_same index size filed.grounded (.cell entry.2) fits.present
      refine ⟨by rw [resized_size]; exact fits.present, by rw [root]; exact fits.scalar,
        by rw [chain]; exact fits.dims, ?_⟩
      intro shape same
      by_cases within : index ∈ (table.resized index size).chain (.cell entry.2)
      · by_contra other
        refine kept ⟨by simp [same], ?_, within⟩
        rw [same]
        exact fun equal => other (Option.some.inj equal)
      · rw [chain] at within
        rw [table.resized_away index size filed.grounded (.cell entry.2) fits.present within]
        exact fits.shape shape same
    · have fits := filed.fits source old
      obtain ⟨chain, root⟩ := table.resized_same index size filed.grounded (.cell source.2) fits.present
      exact
        { present := by rw [resized_size]; exact fits.present
          scalar := by rw [TypeTable.current, root]; exact fits.scalar
          dims := by rw [TypeTable.current, chain]; exact fits.dims
          shape := fun shape same => (Option.some.inj same).symm }

end

end Underway

inductive Reachable : TypeTable → Prop
  | empty : Reachable {}
  | array (table after : TypeTable) (p : Primitive) (dims : Int) (t : TypeRef) (reached : Reachable table)
      (made : table.array (.primitive p) dims = .ok (t, after)) : Reachable after
  | sized (table after : TypeTable) (p : Primitive) (sizes : List Int) (t : TypeRef) (reached : Reachable table)
      (made : table.sized (.primitive p) sizes = .ok (t, after)) : Reachable after
  | parse (table after : TypeTable) (text : String) (t : TypeRef) (reached : Reachable table)
      (made : table.parse text = .ok (t, after)) : Reachable after
  | setDimension (table after : TypeTable) (t : TypeRef) (dim size : Int) (reached : Reachable table)
      (made : table.setDimension t dim size = .ok after) : Reachable after

theorem set_dimension_ok (table : TypeTable) {dim : Int} (size : Int) (found : table.dimension t dim = .ok index) :
    table.setDimension t dim size = .ok (table.entries.foldl (refile index) (table.resized index size)) := by
  rw [setDimension, found]
  rfl

theorem Filed.settled (filed : table.Filed) {size : Int} {after : TypeTable}
    (rekeys : Rekeys index table.entries (table.resized index size) after) : table.Underway index size [] after :=
  (table.start_underway filed index size).run filed rekeys

theorem reachable_filed (table : TypeTable) (reached : Reachable table) : table.Filed := by
  induction reached with
  | empty => exact empty_filed
  | array table after p dims t _ made hyp =>
    unfold array at made
    split at made
    · cases made
    · have made := Except.ok.inj made
      have filed := (table.array_of_makes hyp p dims.toNat).filed
      rw [made] at filed
      exact filed
  | sized table after p sizes t _ made hyp =>
    unfold sized at made
    split at made
    · cases made
    · have made := Except.ok.inj made
      have filed := (table.sized_of_makes hyp p sizes).1.filed
      rw [made] at filed
      exact filed
  | parse table after text t _ made hyp =>
    unfold parse at made
    cases spec : TypeSpec.parse text with
    | error fault =>
      rw [spec] at made
      cases made
    | ok spec' =>
      rw [spec] at made
      have made : table.sizedOf (.primitive spec'.scalar) spec'.sizes = (t, after) := Except.ok.inj made
      have filed := (table.sized_of_makes hyp spec'.scalar spec'.sizes).1.filed
      rw [made] at filed
      exact filed
  | setDimension table after t dim size _ made hyp =>
    cases found : table.dimension t dim with
    | error fault =>
      rw [setDimension, found] at made
      cases made
    | ok index =>
      rw [table.set_dimension_ok size found] at made
      rw [← Except.ok.inj made]
      exact (hyp.settled (foldl_rekeys index _ _)).filed hyp

theorem sizes_at (table : TypeTable) (grounded : table.Grounded) (present : table.Present t) (place : Nat) :
    (table.sizes t)[place]? = (table.chain t)[place]?.map fun index => (table.cells[index]?.map (·.size)).getD 0 := by
  refine table.present_induction grounded (fun t => ∀ place : Nat, (table.sizes t)[place]? =
    (table.chain t)[place]?.map fun index => (table.cells[index]?.map (·.size)).getD 0) ?_ ?_ present place
  · intro p place
    simp
  · intro i c found hyp place
    rw [table.chain_cell grounded found, table.sizes_cell grounded found]
    cases place with
    | zero => simp [found]
    | succ place => exact hyp place

theorem get_dimension_sizes (grounded : table.Grounded) (present : table.Present t) (place : Nat) :
    table.getDimension t (place + 1) =
      match (table.sizes t)[place]? with
      | some size => .ok size
      | none => .error .dimensionTooLarge := by
  rw [getDimension, dimension, if_neg (by omega), show ((place : Int) + 1).toNat - 1 = place by omega,
    table.sizes_at grounded present place]
  cases (table.chain t)[place]? <;> rfl

-- A table in order: keys say what is filed under them, a shape asked for is the shape given, and resizing
-- has one outcome whichever entries are met first.
structure Consistent (table : TypeTable) : Prop where
  keyed : ∀ entry ∈ table.entries, ∀ shape, entry.1.shape = some shape →
    shape = table.sizes (.cell entry.2) ∧ entry.1.dims = (table.chain (.cell entry.2)).length ∧
      entry.1.scalar = .primitive (table.root (.cell entry.2))
  sized : ∀ (p : Primitive) (sizes : List Int), sizes ≠ [] → ∃ t after, table.sized (.primitive p) sizes = .ok
    (t, after) ∧ ∀ place : Nat, after.getDimension t (place + 1) = match sizes[place]? with
      | some size => .ok size
      | none => .error .dimensionTooLarge
  resized : ∀ (t : TypeRef) (dim size : Int) (index : Nat), table.dimension t dim = .ok index →
    ∃ after, table.setDimension t dim size = .ok after ∧ Rekeys index table.entries (table.resized index size) after ∧
      ∀ other, Rekeys index table.entries (table.resized index size) other →
        other.cells = after.cells ∧ other.entries.Perm after.entries ∧ ∀ key, other.find? key = after.find? key

theorem reachable_consistent (table : TypeTable) (reached : Reachable table) : table.Consistent := by
  have filed := table.reachable_filed reached
  refine ⟨?_, ?_, ?_⟩
  · intro entry member shape same
    have fits := filed.fits entry member
    exact ⟨fits.shape shape same, fits.dims, fits.scalar⟩
  · intro p sizes some
    obtain ⟨made, same⟩ := table.sized_of_makes filed p sizes
    refine ⟨_, _, by rw [TypeTable.sized, if_neg (by simpa using some)], fun place => ?_⟩
    rw [get_dimension_sizes made.filed.grounded made.present, same]
  · intro t dim size index found
    have rekeys := foldl_rekeys index table.entries (table.resized index size)
    have settled := filed.settled rekeys
    refine ⟨_, table.set_dimension_ok size found, rekeys, fun other rekeys' => ?_⟩
    have settled' := filed.settled rekeys'
    refine ⟨settled'.cells.trans settled.cells.symm, ?_, settled'.find_same settled⟩
    refine (perm_ext_iff_of_nodup (settled'.keys.of_map _) (settled.keys.of_map _)).mpr fun entry => ?_
    rw [settled'.mem, settled.mem]

def sharedRows : TypeTable where
  cells := #[⟨.primitive .int, 3⟩, ⟨.cell 0, 2⟩, ⟨.cell 0, 4⟩, ⟨.primitive .int, 5⟩, ⟨.cell 3, 2⟩]
  entries :=
    [(⟨.primitive .int, 1, some [3]⟩, 0), (⟨.primitive .int, 2, some [2, 3]⟩, 1),
      (⟨.primitive .int, 2, some [4, 3]⟩, 2),
      (⟨.primitive .int, 1, some [5]⟩, 3), (⟨.primitive .int, 2, some [2, 5]⟩, 4)]

theorem shared_rows_reachable : Reachable sharedRows :=
  .sized _ _ .int [2, 5] (.cell 4)
    (.sized _ _ .int [4, 3] (.cell 2) (.sized _ _ .int [2, 3] (.cell 1) .empty rfl) rfl) rfl

theorem shared_rows_resized :
    ∃ table, sharedRows.setDimension (.cell 1) 2 5 = .ok table ∧
      table.entries.map (fun entry => (entry.1.shape, entry.2)) =
        [(some [5], 3), (some [2, 5], 4), (some [4, 5], 2)] ∧ table.Consistent :=
  ⟨_, rfl, by decide, reachable_consistent _ (.setDimension sharedRows _ (.cell 1) 2 5 shared_rows_reachable rfl)⟩

end TypeTable

end Blockwork
