import Blockwork.Proofs.Positions
import Blockwork.Proofs.ReadingChains
import Mathlib

set_option autoImplicit false

namespace Blockwork

open List

namespace Markup

-- The second node says what the first one says, in whatever order the pairs of the mappings in it are written, and at
-- places of its own.
inductive Node.Rearranged (places : Place → Prop) : Node → Node → Prop
  | scalar (place place' : Place) (s : Scalar) (stands : places place') :
      Rearranged places (.scalar place s) (.scalar place' s)
  | list (place place' : Place) (items items' : NodeList) (stands : places place')
      (same : List.Forall₂ (Rearranged places) items.toList items'.toList) :
      Rearranged places (.list place items) (.list place' items')
  | mapping (place place' : Place) (entries entries' : EntryList) (stands : places place') (pairs : List (Node × Node))
      (order : entries'.toList.Perm pairs)
      (keys : List.Forall₂ (fun p q => Rearranged places p.1 q.1) entries.toList pairs)
      (values : List.Forall₂ (fun p q => Rearranged places p.2 q.2) entries.toList pairs) :
      Rearranged places (.mapping place entries) (.mapping place' entries')
  | alias (place place' : Place) (name : String) (target : Option Scalar) (stands : places place') :
      Rearranged places (.alias place name target) (.alias place' name target)

namespace Node

variable {places : Place → Prop}

section Readings

variable {n n' : Node} (same : n.Rearranged places n')

include same

theorem null_rearranged : n.isNull = n'.isNull := by cases same <;> rfl

theorem own_text_rearranged : n.ownText = n'.ownText := by cases same <;> rfl

theorem truth_rearranged : n.truth? = n'.truth? := by cases same <;> rfl

theorem stands_rearranged : places n'.place := by cases same <;> assumption

theorem integer_rearranged : n.integer? = n'.integer? := by cases same <;> rfl

end Readings

def depthOfPairs (pairs : List (Node × Node)) : Nat := (pairs.map fun p => max p.1.depth p.2.depth).foldr max 0

theorem depth_of_pairs (entries : EntryList) : depthOfEntries entries = depthOfPairs entries.toList := by
  cases entries with
  | nil => rfl
  | cons key value rest => exact congrArg (max (max key.depth value.depth)) (depth_of_pairs rest)

theorem depth_of_order {pairs pairs' : List (Node × Node)} (order : pairs.Perm pairs') :
    depthOfPairs pairs = depthOfPairs pairs' := (order.map _).foldr_eq 0

mutual

theorem depth_rearranged {n n' : Node} (same : n.Rearranged places n') : n.depth = n'.depth := by
  cases n with
  | list place items =>
    cases same with
    | list _ place' _ items' _ same => exact congrArg (· + 1) (depth_all_rearranged same)
  | mapping place entries =>
    cases same with
    | mapping _ place' _ entries' _ pairs order keys values =>
      rw [depth, depth, depth_entries_rearranged keys values, depth_of_pairs entries', depth_of_order order]
  | _ =>
    cases same
    rfl

theorem depth_all_rearranged {items items' : NodeList}
    (same : List.Forall₂ (Rearranged places) items.toList items'.toList) :
    depthOfAll items = depthOfAll items' := by
  cases items with
  | nil =>
    cases items' with
    | nil => rfl
    | cons => cases same
  | cons head tail =>
    cases items' with
    | nil => cases same
    | cons head' tail' =>
      obtain ⟨first, rest⟩ := forall₂_cons.mp same
      rw [depthOfAll, depthOfAll, depth_rearranged first, depth_all_rearranged rest]

theorem depth_entries_rearranged {entries : EntryList} {pairs : List (Node × Node)}
    (keys : List.Forall₂ (fun p q => Rearranged places p.1 q.1) entries.toList pairs)
    (values : List.Forall₂ (fun p q => Rearranged places p.2 q.2) entries.toList pairs) :
    depthOfEntries entries = depthOfPairs pairs := by
  cases entries with
  | nil => cases keys; rfl
  | cons key value rest =>
    cases pairs with
    | nil => cases keys
    | cons p pairs =>
      obtain ⟨first, keys⟩ := forall₂_cons.mp keys
      obtain ⟨second, values⟩ := forall₂_cons.mp values
      rw [depthOfEntries, depth_entries_rearranged keys values, depth_rearranged first,
        depth_rearranged second]
      rfl

end

mutual

theorem rearranged_unplaced (n : Node) : n.Rearranged (· = {}) n.unplaced := by
  cases n with
  | list place items => exact .list place {} items _ rfl (rearranged_all_unplaced items)
  | mapping place entries =>
    have same := rearranged_entries_unplaced entries
    exact .mapping place {} entries _ rfl _ (.refl _) (same.imp fun _ _ => And.left) (same.imp fun _ _ => And.right)
  | _ => exact by constructor; rfl

theorem rearranged_all_unplaced (items : NodeList) :
    List.Forall₂ (Rearranged (· = {})) items.toList items.unplaced.toList := by
  cases items with
  | nil => exact .nil
  | cons head tail => exact .cons (rearranged_unplaced head) (rearranged_all_unplaced tail)

theorem rearranged_entries_unplaced (entries : EntryList) :
    List.Forall₂ (fun p q => Rearranged (· = {}) p.1 q.1 ∧ Rearranged (· = {}) p.2 q.2) entries.toList
      entries.unplaced.toList := by
  cases entries with
  | nil => exact .nil
  | cons key value rest =>
    exact .cons ⟨rearranged_unplaced key, rearranged_unplaced value⟩ (rearranged_entries_unplaced rest)

end

end Node

end Markup

open Markup (Place Node NodeList EntryList Scalar)

namespace Document

variable {places : Place → Prop}

structure Field.Alike (places : Place → Prop) (f f' : Field) : Prop where
  name : f.name = f'.name
  value : f.value.Rearranged places f'.value
  stands : places f'.key.place

def Fields.Alike (places : Place → Prop) (fs fs' : Fields) : Prop :=
  (fs.map Field.name).Nodup ∧ ∃ ordered, fs'.Perm ordered ∧ List.Forall₂ (Field.Alike places) fs ordered

namespace Fields

theorem get_iff (fs : Fields) (apart : (fs.map Field.name).Nodup) (name : String) (f : Field) :
    fs.get? name = some f ↔ f ∈ fs ∧ f.name = name := by
  constructor
  · intro found
    exact ⟨mem_of_find?_eq_some found, by simpa using find?_some found⟩
  · rintro ⟨mem, rfl⟩
    induction fs with
    | nil => cases mem
    | cons first rest hyp =>
      obtain ⟨fresh, apart⟩ := nodup_cons.mp apart
      rcases mem_cons.mp mem with rfl | mem
      · simp [get?]
      · have other : first.name ≠ f.name := fun same => fresh (same ▸ mem_map_of_mem mem)
        simpa [get?, other] using hyp apart mem

theorem get_none_iff (fs : Fields) (name : String) : fs.get? name = none ↔ ∀ f ∈ fs, f.name ≠ name := by
  simp [get?]

theorem alike_names {fs ordered : Fields} (same : List.Forall₂ (Field.Alike places) fs ordered) :
    fs.map Field.name = ordered.map Field.name :=
  forall₂_eq_eq_eq ▸ forall₂_map_left_iff.mpr (forall₂_map_right_iff.mpr (same.imp fun _ _ => Field.Alike.name))

variable {fs fs' : Fields} (alike : fs.Alike places fs')

include alike

theorem Alike.apart : (fs'.map Field.name).Nodup := by
  obtain ⟨apart, ordered, order, same⟩ := alike
  rwa [(order.map Field.name).nodup_iff, ← alike_names same]

theorem Alike.length_eq : fs.length = fs'.length := by
  obtain ⟨-, ordered, order, same⟩ := alike
  exact same.length_eq.trans order.length_eq.symm

theorem Alike.forth (f : Field) (mem : f ∈ fs) : ∃ f' ∈ fs', f.Alike places f' := by
  obtain ⟨-, ordered, order, same⟩ := alike
  obtain ⟨length, each⟩ := forall₂_iff_get.mp same
  obtain ⟨i, bound, rfl⟩ := getElem_of_mem mem
  exact ⟨_, order.mem_iff.mpr (getElem_mem (length ▸ bound)), each i bound (length ▸ bound)⟩

theorem Alike.back {f' : Field} (mem : f' ∈ fs') : ∃ f ∈ fs, f.Alike places f' := by
  obtain ⟨-, ordered, order, same⟩ := alike
  obtain ⟨length, each⟩ := forall₂_iff_get.mp same
  obtain ⟨i, bound, rfl⟩ := getElem_of_mem (order.mem_iff.mp mem)
  exact ⟨_, getElem_mem (length ▸ bound), each i (length ▸ bound) bound⟩

theorem Alike.get (name : String) :
    fs.get? name = none ∧ fs'.get? name = none ∨ ∃ f f', fs.get? name = some f ∧ fs'.get? name = some f' ∧
      f.Alike places f' := by
  cases found : fs.get? name with
  | none =>
    refine .inl ⟨rfl, (fs'.get_none_iff name).mpr fun f' mem named => ?_⟩
    obtain ⟨f, inside, same⟩ := alike.back mem
    exact (fs.get_none_iff name).mp found f inside (same.name.trans named)
  | some f =>
    obtain ⟨mem, named⟩ := (fs.get_iff alike.1 name f).mp found
    obtain ⟨f', inside, same⟩ := alike.forth f mem
    exact .inr ⟨f, f', rfl, (fs'.get_iff alike.apart name f').mpr ⟨inside, same.name ▸ named⟩, same⟩

theorem Alike.has (name : String) : fs.has name = fs'.has name := by
  unfold Fields.has
  rcases alike.get name with ⟨none, none'⟩ | ⟨f, f', found, found', -⟩
  · rw [none, none']
  · rw [found, found']
    rfl

end Fields

def Field.IsOf (p : Node × Node) (f : Field) : Prop := ∃ place s, p.1 = .scalar place s ∧ f = ⟨p.1, s.text, p.2⟩

theorem fields_from_ok (entries : EntryList) (seen fs : Fields) (apart : (seen.map Field.name).Nodup) :
    fieldsFrom seen entries = .ok fs ↔
      ∃ own, List.Forall₂ Field.IsOf entries.toList own ∧ fs = seen ++ own ∧ (fs.map Field.name).Nodup := by
  cases entries with
  | nil =>
    rw [fieldsFrom]
    constructor
    · intro read
      cases read
      exact ⟨[], .nil, (append_nil seen).symm, apart⟩
    · rintro ⟨own, same, rfl, -⟩
      cases same
      rw [append_nil]
  | cons key value rest =>
    have refused : (∀ place s, key ≠ .scalar place s) →
      ¬ ∃ own, List.Forall₂ Field.IsOf (EntryList.cons key value rest).toList own ∧
        fs = seen ++ own ∧ (fs.map Field.name).Nodup := by
      rintro other ⟨own, same, -, -⟩
      cases same with
      | cons first _ =>
        obtain ⟨place, s, scalar, -⟩ := first
        exact other place s scalar
    cases key with
    | scalar place s =>
      have own : Field.IsOf (.scalar place s, value) ⟨.scalar place s, s.text, value⟩ := ⟨place, s, rfl, rfl⟩
      rw [fieldsFrom]
      split_ifs with present
      · refine iff_of_false (by simp) ?_
        rintro ⟨fields, same, rfl, apart'⟩
        cases same with
        | cons first _ =>
          obtain ⟨_, _, scalar, rfl⟩ := first
          cases scalar
          obtain ⟨f, found⟩ := Option.isSome_iff_exists.mp present
          obtain ⟨mem, named⟩ := (seen.get_iff apart s.text f).mp found
          rw [map_append, nodup_append] at apart'
          exact apart'.2.2 f.name (mem_map_of_mem mem) s.text (by simp) named
      · have fresh : ((seen ++ [⟨.scalar place s, s.text, value⟩] : Fields).map Field.name).Nodup := by
          rw [map_append, map_singleton, nodup_append_comm]
          refine nodup_cons.mpr ⟨fun mem => ?_, by simpa using apart⟩
          obtain ⟨f, inside, named⟩ := mem_map.mp (by simpa using mem)
          exact present (Option.isSome_iff_exists.mpr ⟨f, (seen.get_iff apart s.text f).mpr ⟨inside, named⟩⟩)
        rw [fields_from_ok rest _ fs fresh]
        constructor
        · rintro ⟨more, same, rfl, apart'⟩
          exact ⟨_ :: more, .cons own same, by simp, apart'⟩
        · rintro ⟨all, same, rfl, apart'⟩
          cases same with
          | cons first others =>
            obtain ⟨_, _, scalar, rfl⟩ := first
            cases scalar
            exact ⟨_, others, by simp, apart'⟩
    | _ => exact iff_of_false (by simp [fieldsFrom]) (refused (by simp))

theorem forall_transfer {α β γ δ : Type} {R : α → β → Prop} {P : α → γ → Prop} {Q : β → δ → Prop} {S : γ → δ → Prop}
    (step : ∀ a b c, R a b → P a c → ∃ d, Q b d ∧ S c d) (as : List α) (bs : List β) (cs : List γ)
    (related : List.Forall₂ R as bs) (holds : List.Forall₂ P as cs) :
    ∃ ds, List.Forall₂ Q bs ds ∧ List.Forall₂ S cs ds := by
  induction related generalizing cs with
  | nil =>
    cases holds
    exact ⟨[], .nil, .nil⟩
  | cons first _ hyp =>
    cases holds with
    | cons own rest =>
      obtain ⟨ds, found, same⟩ := hyp _ rest
      obtain ⟨d, found', same'⟩ := step _ _ _ first own
      exact ⟨d :: ds, .cons found' found, .cons same' same⟩

theorem field_forth (p q : Node × Node) (f : Field) (same : p.1.Rearranged places q.1 ∧ p.2.Rearranged places q.2)
    (own : Field.IsOf p f) :
    ∃ f', Field.IsOf q f' ∧ f.Alike places f' := by
  obtain ⟨place, s, scalar, rfl⟩ := own
  obtain ⟨key, value⟩ := p
  obtain ⟨key', value'⟩ := q
  obtain ⟨keys, values⟩ := same
  cases scalar
  cases keys with
  | scalar _ place' _ stands => exact ⟨_, ⟨place', s, rfl, rfl⟩, rfl, values, stands⟩

theorem field_back (p q : Node × Node) (f' : Field) (same : p.1.Rearranged places q.1 ∧ p.2.Rearranged places q.2)
    (own : Field.IsOf q f') :
    ∃ f, Field.IsOf p f ∧ f.Alike places f' := by
  obtain ⟨place, s, scalar, rfl⟩ := own
  obtain ⟨key, value⟩ := p
  obtain ⟨key', value'⟩ := q
  obtain ⟨keys, values⟩ := same
  cases scalar
  cases keys with
  | scalar place' _ _ stands => exact ⟨_, ⟨place', s, rfl, rfl⟩, rfl, values, stands⟩

variable {entries entries' : EntryList} {g g' : Graph} {block : BlockId} {b : Block} {slot : Slot} {n n' : Node}
  {fault fault' : NodeFault} {f : Block → Block} {kind : Kind} {fs fs' : Fields} {k : String × List String}
  {name : String} {depth : Nat}

-- The pairs of a mapping can be read in every order or in none.
theorem fields_rearranged {pairs : List (Node × Node)} (order : entries'.toList.Perm pairs)
    (same : List.Forall₂ (fun p q => p.1.Rearranged places q.1 ∧ p.2.Rearranged places q.2) entries.toList pairs) :
    (∃ fault fault', fieldsFrom [] entries = .error fault ∧ fieldsFrom [] entries' = .error fault') ∨
      ∃ fs fs', fieldsFrom [] entries = .ok fs ∧ fieldsFrom [] entries' = .ok fs' ∧ fs.Alike places fs' := by
  have forth : ∀ fs, fieldsFrom [] entries = .ok fs → ∃ fs', fieldsFrom [] entries' = .ok fs' ∧
      fs.Alike places fs' := by
    intro fs read
    obtain ⟨_, each, rfl, apart⟩ := (fields_from_ok entries [] fs .nil).mp read
    obtain ⟨ordered, there, alike⟩ := forall_transfer field_forth _ _ _ same each
    obtain ⟨fs', here, reordered⟩ := perm_comp_forall₂ order there
    have result : Fields.Alike places fs fs' := ⟨apart, ordered, reordered, alike⟩
    exact ⟨fs', (fields_from_ok entries' [] fs' .nil).mpr ⟨fs', here, rfl, result.apart⟩, result⟩
  have back : ∀ fs', fieldsFrom [] entries' = .ok fs' → ∃ fs, fieldsFrom [] entries = .ok fs := by
    intro fs' read
    obtain ⟨_, each, rfl, apart⟩ := (fields_from_ok entries' [] fs' .nil).mp read
    obtain ⟨ordered, there, reordered⟩ := perm_comp_forall₂ order.symm each
    obtain ⟨fs, here, alike⟩ := forall_transfer (S := fun f' f : Field => f.Alike places f')
      (fun q p f' => field_back p q f') _ _ ordered same.flip there
    refine ⟨fs, (fields_from_ok entries [] fs .nil).mpr ⟨fs, here, rfl, ?_⟩⟩
    rw [Fields.alike_names alike.flip, (reordered.map Field.name).nodup_iff]
    exact apart
  cases read : fieldsFrom [] entries with
  | ok fs =>
    obtain ⟨fs', read', alike⟩ := forth fs read
    exact .inr ⟨fs, fs', rfl, read', alike⟩
  | error fault =>
    cases read' : fieldsFrom [] entries' with
    | error fault' => exact .inl ⟨fault, fault', rfl, rfl⟩
    | ok fs' =>
      obtain ⟨fs, found⟩ := back fs' read'
      rw [read] at found
      cases found

-- A fault that is at one of the places. A slot is at fault only for what is put into it.
def At (places : Place → Prop) : DocumentFault → Prop
  | .node place _ | .type place _ | .undeclared place _ | .slot place (.wrongFamily ..) => places place
  | _ => False

theorem fields_located {entries : EntryList} (stand : ∀ p ∈ entries.toList, places p.1.place) {seen : Fields}
    {fault : DocumentFault} (failed : fieldsFrom seen entries = .error fault) : At places fault := by
  cases entries with
  | nil => cases failed
  | cons key value rest =>
    have here : places key.place := stand (key, value) mem_cons_self
    unfold fieldsFrom at failed
    cases key with
    | scalar place s =>
      dsimp only at failed
      split_ifs at failed
      · cases failed
        exact here
      · exact fields_located (fun p mem => stand p (mem_cons_of_mem _ mem)) failed
    | _ =>
      cases failed
      exact here

-- Two graphs that differ in places only. If there is just one place, all blocks of the second stand there.
def Moved (places : Place → Prop) (g g' : Graph) : Prop :=
  g.unplaced = g'.unplaced ∧ ((∀ place, places place → place = {}) → g'.unplaced = g')

theorem moved_free (moved : Moved places g g') (f : Graph → Graph) (free : ∀ g, (f g).unplaced = f g.unplaced) :
    Moved places (f g) (f g') := by
  refine ⟨by rw [free, free, moved.1], fun only => ?_⟩
  rw [free, moved.2 only]

theorem moved_add (moved : Moved places g g') (kind : Kind) (n n' : Node) (stands : places n'.place)
    (f : Block → Block) :
    Moved places (g.add kind fun b => { f b with line := n.place.line + 1, column := n.place.column + 1 }).2
      (g'.add kind fun b => { f b with line := n'.place.line + 1, column := n'.place.column + 1 }).2 := by
  refine ⟨?_, fun only => ?_⟩
  · rw [Graph.add_unplaced, Graph.add_unplaced, moved.1]
    rfl
  · rw [Graph.add_unplaced, moved.2 only, only _ stands]
    rfl

theorem set_slot_ends (found : g.block? block = some b) (offers : (b.kind.accepts? slot).isSome = true)
    (child : BlockId) :
    (∃ kind accepts got, g.setSlot block slot child = .error (.wrongFamily child kind slot accepts got)) ∨
      ∃ h, g.setSlot block slot child = .ok h ∧ g.Keeps h := by
  obtain ⟨family, accepts⟩ := Option.isSome_iff_exists.mp offers
  unfold Graph.setSlot
  simp only [found, accepts]
  cases g.block? child with
  | none => exact .inr ⟨_, rfl, g.keeps_modify _ _ fun _ => rfl⟩
  | some c =>
    dsimp only
    split_ifs
    · exact .inl ⟨_, _, _, rfl⟩
    · exact .inr ⟨_, rfl, g.keeps_modify _ _ fun _ => rfl⟩

theorem moved_set_slot (moved : Moved places g g') (found : g'.block? block = some b)
    (offers : (b.kind.accepts? slot).isSome = true) (child : BlockId) :
    (∃ fault kind accepts got, g.setSlot block slot child = .error fault ∧
      g'.setSlot block slot child = .error (.wrongFamily child kind slot accepts got)) ∨
    ∃ h h', g.setSlot block slot child = .ok h ∧ g'.setSlot block slot child = .ok h' ∧ Moved places h h' ∧
      g'.Keeps h' := by
  have set : (g.setSlot block slot child).map Graph.unplaced = (g'.setSlot block slot child).map Graph.unplaced := by
    rw [← Graph.set_slot_unplaced, moved.1, Graph.set_slot_unplaced]
  have kept := g'.set_slot_unplaced block slot child
  rcases set_slot_ends found offers child with ⟨kind, accepts, got, second⟩ | ⟨h', second, keeps⟩ <;>
    rw [second] at set kept <;>
    cases first : g.setSlot block slot child <;> rw [first] at set
  · exact .inl ⟨_, kind, accepts, got, rfl, second⟩
  · cases set
  · cases set
  · refine .inr ⟨_, h', rfl, second, ⟨Except.ok.inj set, fun only => ?_⟩, keeps⟩
    rw [moved.2 only, second] at kept
    exact (Except.ok.inj kept).symm

theorem moved_chain (moved : Moved places g g') (ids : List BlockId) :
    ∃ first h h', g.chain ids = (first, h) ∧ g'.chain ids = (first, h') ∧ Moved places h h' ∧ g'.Keeps h' := by
  have linked := congrArg (fun g => Graph.chain g ids) moved.1
  simp only [Graph.chain_unplaced, Prod.mk.injEq] at linked
  refine ⟨_, (g.chain ids).2, (g'.chain ids).2, rfl, Prod.ext linked.1.symm rfl, ⟨linked.2, fun only => ?_⟩,
    g'.keeps_chain ids⟩
  have kept := g'.chain_unplaced ids
  rw [moved.2 only] at kept
  exact (congrArg Prod.snd kept).symm

structure LoadState.Moved (places : Place → Prop) (s s' : LoadState) : Prop where
  graph : Document.Moved places s.graph s'.graph
  frames : s.frames = s'.frames
  declared : s.declared = s'.declared

theorem LoadState.Moved.unplaced_eq {s s' : LoadState} (moved : s.Moved places s') : s.unplaced = s'.unplaced := by
  simp only [LoadState.unplaced, moved.graph.1, moved.frames, moved.declared]

def Kinds (known : List (BlockId × Kind)) (g : Graph) : Prop :=
  ∀ id kind, (id, kind) ∈ known → ∃ b, g.block? id = some b ∧ b.kind = kind

theorem Kinds.keeps {known : List (BlockId × Kind)} (held : Kinds known g) (keeps : g.Keeps g') : Kinds known g' := by
  intro id kind mem
  obtain ⟨b, found, rfl⟩ := held id kind mem
  obtain ⟨b', found', same⟩ := keeps id b found
  exact ⟨b', found', congrArg Entry.kind same⟩

variable {α β α' β' : Type} {known : List (BlockId × Kind)}

-- How two runs end alike: both fail, the second at one of its places, or both give what belongs together and leave what
-- differs in places only.
inductive Outcome (places : Place → Prop) (g : Graph) (R : α → β → Prop) :
    Except DocumentFault (α × LoadState) → Except DocumentFault (β × LoadState) → Prop
  | failed (fault fault' : DocumentFault) (located : At places fault') :
      Outcome places g R (.error fault) (.error fault')
  | done (a : α) (b : β) (s s' : LoadState) (result : R a b) (state : s.Moved places s') (keeps : g.Keeps s'.graph) :
      Outcome places g R (.ok (a, s)) (.ok (b, s'))

theorem Outcome.behind {R : α → β → Prop} {x : Except DocumentFault (α × LoadState)}
    {y : Except DocumentFault (β × LoadState)} (ends : Outcome places g' R x y) (keeps : g.Keeps g') :
    Outcome places g R x y := by
  cases ends with
  | failed fault fault' located => exact .failed fault fault' located
  | done a b s s' result state kept => exact .done a b s s' result state (keeps.trans kept)

-- Two readings that end alike from all states that have the blocks of the known kinds.
def Likewise (places : Place → Prop) (known : List (BlockId × Kind)) (R : α → β → Prop) (x : Loading α)
    (y : Loading β) : Prop :=
  ∀ s s', s.Moved places s' → Kinds known s'.graph → Outcome places s'.graph R (x.run s) (y.run s')

theorem likewise_bind {R : α → β → Prop} {S : α' → β' → Prop} {x : Loading α} {y : Loading β} {f : α → Loading α'}
    {h : β → Loading β'} (first : Likewise places known R x y)
    (rest : ∀ a b, R a b → Likewise places known S (f a) (h b)) :
    Likewise places known S (x >>= f) (y >>= h) := by
  intro s s' start held
  have now := first s s' start held
  rw [StateT.run_bind, StateT.run_bind]
  generalize x.run s = ended at now ⊢
  generalize y.run s' = ended' at now ⊢
  cases now with
  | failed fault fault' located => exact .failed fault fault' located
  | done a b t t' result state keeps => exact (rest a b result t t' state (held.keeps keeps)).behind keeps

theorem likewise_then {S : α' → β' → Prop} {x y : Loading α} {f : α → Loading α'} {h : α → Loading β'}
    (first : Likewise places known Eq x y) (rest : ∀ a, Likewise places known S (f a) (h a)) :
    Likewise places known S (x >>= f) (y >>= h) := likewise_bind first fun a _ same => same ▸ rest a

theorem likewise_pure {R : α → β → Prop} {a : α} {b : β} (result : R a b) : Likewise places known R (pure a) (pure b) :=
  fun s s' start _ => .done a b s s' result start (.refl)

theorem likewise_same (a : α) : Likewise places known Eq (pure a) (pure a) := likewise_pure rfl

theorem likewise_throw {R : α → β → Prop} {fault fault' : DocumentFault} (located : At places fault') :
    Likewise places known R (throw fault) (throw fault') :=
  fun _ _ _ _ => .failed fault fault' located

theorem likewise_fail {R : α → β → Prop} (stands : places n'.place) :
    Likewise places known R (fail n fault) (fail n' fault') :=
  likewise_throw stands

theorem likewise_stop {R : α' → β' → Prop} {f : α → Loading α'} {h : β → Loading β'} (stands : places n'.place) :
    Likewise places known R (fail n fault >>= f) (fail n' fault' >>= h) :=
  fun _ _ _ _ => .failed _ _ stands

theorem likewise_state {S : α' → β' → Prop} {f : LoadState → Loading α'} {h : LoadState → Loading β'}
    (rest : ∀ s s', s.Moved places s' → Kinds known s'.graph → Outcome places s'.graph S ((f s).run s)
      ((h s').run s')) :
    Likewise places known S (get >>= f) (get >>= h) :=
  rest

theorem likewise_on_graph {f : Graph → Graph} (free : ∀ g, (f g).unplaced = f g.unplaced)
    (keeps : ∀ g : Graph, g.Keeps (f g)) :
    Likewise places known Eq (onGraph f) (onGraph f) :=
  fun _ _ start _ => .done _ _ _ _ rfl ⟨moved_free start.graph f free, start.frames, start.declared⟩ (keeps _)

theorem likewise_modify (block : BlockId) (free : ∀ b, (f b).unplaced = f b.unplaced)
    (same : ∀ b, (f b).entry = b.entry) :
    Likewise places known Eq (onGraph (·.modify block f)) (onGraph (·.modify block f)) :=
  likewise_on_graph (fun g => g.modify_unplaced block f free) fun g => g.keeps_modify block f same

theorem likewise_add (stands : places n'.place) : Likewise places known Eq (add kind n f) (add kind n' f) := by
  intro s s' start _
  have size : s.graph.size = s'.graph.size := by rw [← s.graph.size_unplaced, start.graph.1, s'.graph.size_unplaced]
  have moved := moved_add start.graph kind n n' stands f
  rw [run_add, run_add]
  rw [Graph.add_eq, Graph.add_eq] at moved ⊢
  exact .done _ _ _ _ (congrArg (· + 1) size) ⟨moved, start.frames, start.declared⟩ (s'.graph.keeps_append)

theorem likewise_new {S : α' → β' → Prop} (same : ∀ b, (f b).kind = b.kind) (stands : places n'.place)
    {x : BlockId → Loading α'} {y : BlockId → Loading β'}
    (rest : ∀ block, Likewise places ((block, kind) :: known) S (x block) (y block)) :
    Likewise places known S (add kind n f >>= x) (add kind n' f >>= y) := by
  intro s s' start held
  have now : Outcome places s'.graph Eq ((add kind n f).run s) ((add kind n' f).run s') :=
    likewise_add stands s s' start held
  rw [StateT.run_bind, StateT.run_bind]
  generalize (add kind n f).run s = ended at now ⊢
  generalize run : (add kind n' f).run s' = ended' at now ⊢
  cases now with
  | failed fault fault' located => exact .failed fault fault' located
  | done a b t t' result state keeps =>
    subst result
    refine (rest a t t' state ?_).behind keeps
    rw [run_add, Graph.add_eq] at run
    cases run
    intro id other mem
    rcases mem_cons.mp mem with here | mem
    · cases here
      exact ⟨_, s'.graph.block_head _ [], same _⟩
    · exact held.keeps keeps id other mem

theorem likewise_fields {place place' : Place}
    (same : (Node.mapping place entries).Rearranged places (.mapping place' entries')) :
    Likewise places known (Fields.Alike places) (fields entries) (fields entries') := by
  intro s s' start _
  cases same with
  | mapping _ _ _ _ _ pairs order keys values =>
    have both := keys.mp (S := fun p q : Node × Node => p.1.Rearranged places q.1 ∧ p.2.Rearranged places q.2)
      (fun _ _ => And.intro) values
    have stand := ((forall₂_and_left (p := fun q : Node × Node => places q.1.place) _ _).mp
      (keys.flip.imp fun _ _ same => ⟨Node.stands_rearranged same, same⟩)).1
    unfold fields
    rcases fields_rearranged order both with ⟨fault, fault', read, read'⟩ | ⟨fs, fs', read, read', alike⟩
    · rw [read, read']
      exact .failed fault fault' (fields_located (fun p mem => stand p (order.mem_iff.mp mem)) read')
    · rw [read, read']
      exact .done fs fs' s s' alike start (.refl)

theorem likewise_type (alike : fs.Alike places fs') (stands : places n'.place) :
    Likewise places known Eq (typeOf fs n) (typeOf fs' n') := by
  unfold typeOf
  rcases alike.get "type" with ⟨none, none'⟩ | ⟨f, f', found, found', same⟩
  · rw [none, none']
    exact likewise_fail stands
  · simp only [found, found', ← Node.own_text_rearranged same.value]
    cases ValueType.parse f.value.ownText with
    | error fault => exact likewise_throw (Node.stands_rearranged same.value)
    | ok type => exact likewise_same type

theorem likewise_name (same : n.Rearranged places n') :
    Likewise places known Eq (nameIn n fault) (nameIn n' fault) := by
  have stands := Node.stands_rearranged same
  cases same with
  | scalar place place' s _ =>
    simp only [nameIn]
    split_ifs
    · exact likewise_fail stands
    · exact likewise_same s.text
  | _ => exact likewise_fail stands

theorem likewise_reference (same : n.Rearranged places n') : Likewise places known Eq (reference n) (reference n') := by
  refine likewise_then (likewise_name same) fun name => likewise_state fun s s' states held => ?_
  have found : (s.resolve? name).map Block.unplaced = (s'.resolve? name).map Block.unplaced := by
    rw [← resolve_unplaced, states.unplaced_eq, resolve_unplaced]
  cases first : s.resolve? name with
  | none =>
    rw [first, Option.map_none, eq_comm, Option.map_eq_none_iff] at found
    rw [found]
    exact .failed _ _ (Node.stands_rearranged same)
  | some d =>
    rw [first, Option.map_some, eq_comm, Option.map_eq_some_iff] at found
    obtain ⟨d', second, blocks⟩ := found
    obtain ⟨kind, id, own⟩ : d'.kind = d.kind ∧ d'.id = d.id ∧ d'.name = d.name :=
      ⟨congrArg (fun b => b.kind) blocks, congrArg (fun b => b.id) blocks, congrArg (fun b => b.name) blocks⟩
    simp only [second, kind, id, own]
    exact likewise_add (Node.stands_rearranged same) s s' states held

theorem likewise_literal (type : Option ValueType) (same : n.Rearranged places n') :
    Likewise places known Eq (literal type n) (literal type n') := by
  have stands := Node.stands_rearranged same
  cases same with
  | scalar place place' s _ =>
    simp only [literal]
    cases literalOf type s with
    | error fault => exact likewise_fail stands
    | ok made => exact likewise_add stands
  | _ => exact likewise_fail stands

@[elab_as_elim]
theorem related_items {R : Node → Node → Prop} {P : NodeList → NodeList → Prop} (nil : P .nil .nil)
    (cons : ∀ item item' rest rest', R item item' → P rest rest' → P (.cons item rest) (.cons item' rest'))
    (items items' : NodeList) (same : List.Forall₂ R items.toList items'.toList) : P items items' := by
  cases items <;> cases items' <;> cases same
  · exact nil
  · next first rest => exact cons _ _ _ _ first (related_items nil cons _ _ rest)

-- What is read from a node depends neither on places nor on the order of pairs.
def Even (places : Place → Prop) (read : Node → Loading BlockId) : Prop :=
  ∀ known n n', n.Rearranged places n' → Likewise places known Eq (read n) (read n')

def IsPair (n first second : Node) : Prop := ∃ place, n = .list place (.cons first (.cons second .nil))

theorem pair_iff (items : NodeList) (first second : Node) :
    items = .cons first (.cons second .nil) ↔ items.toList = [first, second] := by
  cases items with
  | nil => simp [NodeList.toList]
  | cons head tail =>
    cases tail with
    | nil => simp [NodeList.toList]
    | cons next rest => cases rest <;> simp [NodeList.toList]

theorem rearranged_pair (same : n.Rearranged places n') :
    (∃ first second first' second', IsPair n first second ∧ IsPair n' first' second' ∧ first.Rearranged places first' ∧
      second.Rearranged places second') ∨
    (¬ ∃ first second, IsPair n first second) ∧ ¬ ∃ first second, IsPair n' first second := by
  cases same with
  | list place place' items items' _ same =>
    have pair : ∀ place items first second, IsPair (.list place items) first second ↔
        items.toList = [first, second] := by
      intro place items first second
      simp [IsPair, pair_iff]
    simp only [pair]
    generalize items.toList = ns at same
    generalize items'.toList = ns' at same
    rcases same with _ | ⟨first, _ | ⟨second, _ | _⟩⟩ <;> simp_all
  | _ => exact .inr ⟨by simp [IsPair], by simp [IsPair]⟩

section Operands

variable (operand : Node → Loading BlockId) (even : Even places operand)

theorem element_other (n arg : Node) (other : ¬ ∃ first second, IsPair arg first second) :
    element operand n arg = fail arg .notElement := by
  unfold element
  split
  · exact absurd ⟨_, _, _, rfl⟩ other
  · rfl

variable {kind : Kind} {slot : Slot} {n n' : Node}

theorem binary_slots {key : String} (found : binaryKind? key = some kind) :
    (kind.accepts? .left).isSome = true ∧ (kind.accepts? .right).isSome = true := by
  have all : ∀ kind ∈ [Kind.add, .sub, .mult, .div, .mod, .and, .or, .eq, .lt, .lte, .gt, .gte],
      (kind.accepts? .left).isSome = true ∧ (kind.accepts? .right).isSome = true := by decide
  exact all kind (mem_of_find?_eq_some found)

include even

theorem likewise_fill {block : BlockId} (held : (block, kind) ∈ known) (offers : (kind.accepts? slot).isSome = true)
    (same : n.Rearranged places n') :
    Likewise places known Eq (fill operand block slot n) (fill operand block slot n') := by
  unfold fill
  rw [Node.null_rearranged same]
  split_ifs
  · exact likewise_same ()
  · refine likewise_then (even _ n n' same) fun child => likewise_state fun s s' states kinds => ?_
    obtain ⟨b, found, rfl⟩ := kinds block kind held
    rcases moved_set_slot states.graph found offers child with ⟨fault, _, _, _, set, set'⟩ |
      ⟨g, g', set, set', moved, keeps⟩
    · rw [set, set']
      exact .failed _ _ (Node.stands_rearranged same)
    · rw [set, set']
      exact .done _ _ _ _ rfl ⟨moved, states.frames, states.declared⟩ keeps

theorem likewise_one (offers : (kind.accepts? slot).isSome = true) (stands : places n'.place) {m m' : Node}
    (same : m.Rearranged places m') {x y : BlockId → Loading BlockId}
    (rest : ∀ block, Likewise places ((block, kind) :: known) Eq (x block) (y block)) :
    Likewise places known Eq (add kind n id >>= fun block => fill operand block slot m >>= fun _ => x block)
      (add kind n' id >>= fun block => fill operand block slot m' >>= fun _ => y block) :=
  likewise_new (fun _ => rfl) stands fun block =>
    likewise_then (likewise_fill operand even mem_cons_self offers same) fun _ => rest block

theorem likewise_element (stands : places n'.place) {arg arg' : Node} (same : arg.Rearranged places arg') :
    Likewise places known Eq (element operand n arg) (element operand n' arg') := by
  rcases rearranged_pair same with ⟨vector, index, vector', index', ⟨_, rfl⟩, ⟨_, rfl⟩, vectors, indices⟩ |
    ⟨other, other'⟩
  · simp only [element]
    refine likewise_one operand even rfl stands vectors fun block => ?_
    have general : Likewise places ((block, .element) :: known) Eq
      (fill operand block .index index >>= fun _ => pure block)
        (fill operand block .index index' >>= fun _ => pure block) :=
      likewise_then (likewise_fill operand even mem_cons_self rfl indices) fun _ => likewise_same block
    have stands := Node.stands_rearranged indices
    cases indices with
    | scalar place place' s _ =>
      dsimp only
      split_ifs
      · cases s.integer? with
        | none => exact likewise_stop stands
        | some i =>
          dsimp only
          split_ifs
          · exact likewise_stop stands
          · exact likewise_then (likewise_modify block (fun _ => rfl) fun _ => rfl) fun _ => likewise_same block
      · exact general
    | _ => exact general
  · rw [element_other operand n arg other, element_other operand n' arg' other']
    exact likewise_fail (Node.stands_rearranged same)

theorem likewise_keyed (stands : places n'.place) {f f' : Field} (same : f.Alike places f') :
    Likewise places known Eq (keyed operand n f) (keyed operand n' f') := by
  obtain ⟨names, values, key⟩ := same
  unfold keyed
  rw [← names]
  split
  · exact likewise_reference values
  · exact likewise_then (likewise_name values) fun _ => likewise_add stands
  · exact likewise_then (likewise_name values) fun _ => likewise_add stands
  · exact likewise_one operand even rfl stands values fun block => likewise_same block
  · exact likewise_element operand even stands values
  · cases found : binaryKind? f.name with
    | none => exact likewise_fail key
    | some kind =>
      obtain ⟨first, second⟩ := binary_slots found
      dsimp only
      rcases rearranged_pair values with ⟨left, right, left', right', ⟨_, pair⟩, ⟨_, pair'⟩, lefts, rights⟩ |
        ⟨other, other'⟩
      · rw [pair, pair']
        exact likewise_one operand even first stands lefts fun block =>
          likewise_then (likewise_fill operand even mem_cons_self second rights) fun _ => likewise_same block
      · split
        · next _ _ _ _ pair => exact absurd ⟨_, _, _, pair⟩ other
        · split
          · next _ _ _ _ pair => exact absurd ⟨_, _, _, pair⟩ other'
          · exact likewise_fail (Node.stands_rearranged values)

theorem likewise_operand_with : Even places (operandWith operand) := by
  intro known n n' same
  have stands := Node.stands_rearranged same
  have whole := same
  cases same with
  | scalar place place' s _ => exact likewise_literal none whole
  | mapping place place' entries entries' =>
    refine likewise_bind (likewise_fields whole) fun fs fs' alike => ?_
    rcases alike.get "lit" with ⟨none, none'⟩ | ⟨f, f', found, found', literals⟩
    · rw [none, none']
      have size := alike.length_eq
      rcases fs with _ | ⟨f, _ | _⟩ <;> rcases fs' with _ | ⟨f', _ | _⟩ <;> try cases size
      · exact likewise_fail stands
      · obtain ⟨f'', mem, fields⟩ := alike.forth f (by simp)
        rw [mem_singleton.mp mem] at fields
        exact likewise_keyed operand even stands fields
      · exact likewise_fail stands
    · simp only [found, found', ← alike.length_eq, ← alike.has]
      split_ifs
      · exact likewise_stop stands
      · exact likewise_then (likewise_type alike stands) fun type => likewise_literal (some type) literals.value
  | _ => exact likewise_fail stands

end Operands

theorem even_operand (fuel : Nat) : Even places (operand fuel) := by
  induction fuel with
  | zero => exact fun _ _ _ same => likewise_fail (Node.stands_rearranged same)
  | succ fuel hyp => exact likewise_operand_with (operand fuel) hyp

theorem keywords_apart (mem : k ∈ statementKeys) (beside : k.2.contains name = true) :
    statementKeys.find? (·.1 = name) = none := by
  have apart : ∀ k ∈ statementKeys, ∀ name ∈ k.2, statementKeys.find? (·.1 = name) = none := by decide
  exact apart k mem name (by simpa using beside)

-- The pair that makes a statement what it is: its name is a keyword, and the keyword allows all other names.
structure Heads (fs : Fields) (f : Field) (k : String × List String) : Prop where
  member : f ∈ fs
  word : statementKeys.find? (·.1 = f.name) = some k
  others : ∀ g ∈ fs, g.name = f.name ∨ k.2.contains g.name = true

theorem keyword_headed (n : Node) (apart : (fs.map Field.name).Nodup) {f : Field} (heads : Heads fs f k) :
    keyword n fs = pure (f.name, f.value) := by
  have first : (fs.findSome? fun f => (statementKeys.find? (·.1 = f.name)).map fun k => (f, k.2)) = some (f, k.2) := by
    cases found : fs.findSome? fun f => (statementKeys.find? (·.1 = f.name)).map fun k => (f, k.2) with
    | none =>
      have absent := findSome?_eq_none_iff.mp found f heads.member
      rw [heads.word] at absent
      cases absent
    | some r =>
      obtain ⟨g, mem, result⟩ := exists_of_findSome?_eq_some found
      obtain ⟨k', word, rfl⟩ := Option.map_eq_some_iff.mp result
      rcases heads.others g mem with named | beside
      · have same : g = f := Option.some.inj
          (((fs.get_iff apart f.name g).mpr ⟨mem, named⟩).symm.trans
            ((fs.get_iff apart f.name f).mpr ⟨heads.member, rfl⟩))
        subst same
        rw [heads.word] at word
        cases word
        rfl
      · rw [keywords_apart (mem_of_find?_eq_some heads.word) beside] at word
        cases word
  have none : (fs.find? fun g => g.name ≠ f.name ∧ ¬ k.2.contains g.name) = none := by
    rw [find?_eq_none]
    intro g mem stray
    rcases heads.others g mem with named | beside
    · simp [named] at stray
    · simp_all
  unfold keyword
  rw [first]
  dsimp only
  rw [none]

theorem keyword_headless (n : Node) (headless : ¬ ∃ f k, Heads fs f k) :
    ∃ m fault, keyword n fs = fail m fault ∧ (m = n ∨ ∃ g ∈ fs, m = g.key) := by
  unfold keyword
  cases found : fs.findSome? fun f => (statementKeys.find? (·.1 = f.name)).map fun k => (f, k.2) with
  | none => exact ⟨_, _, rfl, .inl rfl⟩
  | some r =>
    obtain ⟨f, mem, result⟩ := exists_of_findSome?_eq_some found
    obtain ⟨k, word, rfl⟩ := Option.map_eq_some_iff.mp result
    dsimp only
    cases stray : fs.find? fun g => g.name ≠ f.name ∧ ¬ k.2.contains g.name with
    | some g => exact ⟨_, _, rfl, .inr ⟨g, mem_of_find?_eq_some stray, rfl⟩⟩
    | none =>
      refine absurd ⟨f, k, mem, word, fun g inside => ?_⟩ headless
      have allowed := find?_eq_none.mp stray g inside
      by_cases named : g.name = f.name
      · exact .inl named
      · exact .inr (by simpa [named] using allowed)

theorem likewise_keyword (alike : fs.Alike places fs') (stands : places n'.place) :
    Likewise places known (fun p q : String × Node => p.1 = q.1 ∧ p.2.Rearranged places q.2) (keyword n fs)
      (keyword n' fs') := by
  by_cases headed : ∃ f k, Heads fs f k
  · obtain ⟨f, k, heads⟩ := headed
    obtain ⟨f', mem, same⟩ := alike.forth f heads.member
    have heads' : Heads fs' f' k := by
      refine ⟨mem, same.name ▸ heads.word, fun g' inside => ?_⟩
      obtain ⟨g, inside, names⟩ := alike.back inside
      rw [← names.name, ← same.name]
      exact heads.others g inside
    rw [keyword_headed n alike.1 heads, keyword_headed n' alike.apart heads']
    exact likewise_pure ⟨same.name, same.value⟩
  · have headless : ¬ ∃ f' k, Heads fs' f' k := by
      rintro ⟨f', k, heads⟩
      obtain ⟨f, mem, same⟩ := alike.back heads.member
      refine headed ⟨f, k, mem, same.name ▸ heads.word, fun g inside => ?_⟩
      obtain ⟨g', inside, names⟩ := alike.forth g inside
      rw [names.name, same.name]
      exact heads.others g' inside
    obtain ⟨m, fault, failed, -⟩ := keyword_headless n headed
    obtain ⟨m', fault', failed', rfl | ⟨g', inside, rfl⟩⟩ := keyword_headless n' headless <;> rw [failed, failed']
    · exact likewise_fail stands
    · obtain ⟨_, -, same⟩ := alike.back inside
      exact likewise_fail same.stands

-- A statement is read from its pairs; its node only tells the place.
def EvenStatement (places : Place → Prop) (read : Node → Fields → Loading BlockId) : Prop :=
  ∀ known n n' fs fs', places n'.place → fs.Alike places fs' → Likewise places known Eq (read n fs) (read n' fs')

theorem likewise_declare (block : BlockId) : Likewise places known Eq (declare block) (declare block) :=
  fun _ _ start _ =>
    .done _ _ _ _ rfl ⟨start.graph, by simp only [start.frames], congrArg (block :: ·) start.declared⟩ (.refl)

theorem likewise_frames (f : List (List BlockId) → List (List BlockId)) : Likewise places known Eq
    (modify (fun s => { s with frames := f s.frames }) : Loading PUnit)
      (modify fun s => { s with frames := f s.frames }) :=
  fun _ _ start _ => .done _ _ _ _ rfl ⟨start.graph, congrArg f start.frames, start.declared⟩ (.refl)

theorem likewise_in_body {R : α → β → Prop} {x : Loading α} {y : Loading β} (inner : Likewise places known R x y) :
    Likewise places known R (inBody x) (inBody y) := by
  refine likewise_then (likewise_frames fun frames => [] :: frames) fun _ => likewise_bind inner fun a b result => ?_
  exact likewise_then (likewise_frames fun frames => frames.drop 1) fun _ => likewise_pure result

section Statements

variable (r : Readers) (even : Even places r.operand) (even' : EvenStatement places r.statement)

include even'

theorem likewise_statements {items items' : NodeList}
    (same : List.Forall₂ (Node.Rearranged places) items.toList items'.toList) :
    Likewise places known Eq (statements r items) (statements r items') := by
  refine related_items (likewise_same []) (fun item item' rest rest' same later => ?_) items items' same
  have stands := Node.stands_rearranged same
  have whole := same
  cases same with
  | mapping place place' entries entries' =>
    refine likewise_bind (likewise_fields whole) fun fs fs' alike =>
      likewise_then (even' _ _ _ fs fs' stands alike) fun id => ?_
    exact likewise_then later fun ids => likewise_same (id :: ids)
  | _ => exact likewise_fail stands

theorem likewise_chain {n n' : Node} (same : n.Rearranged places n') :
    Likewise places known Eq (chain r n) (chain r n') := by
  have stands := Node.stands_rearranged same
  unfold chain
  rw [Node.null_rearranged same]
  split_ifs
  · exact likewise_same []
  · cases same with
    | list place place' items items' _ same => exact likewise_statements r even' same
    | _ => exact likewise_fail stands

theorem likewise_body {n n' : Node} (same : n.Rearranged places n') :
    Likewise places known Eq (body r n) (body r n') := by
  refine likewise_in_body
    (likewise_then (likewise_chain r even' same) fun ids => likewise_state fun s s' states _ => ?_)
  obtain ⟨first, g, g', linked, linked', moved, keeps⟩ := moved_chain states.graph ids
  rw [linked, linked']
  exact .done first first _ _ rfl ⟨moved, states.frames, states.declared⟩ keeps

variable {n n' head head' : Node} {fs fs' : Fields} (stands : places n'.place) (heads : head.Rearranged places head')
  (alike : fs.Alike places fs')

include alike

theorem likewise_attach (block : BlockId) (key : String) :
    Likewise places known Eq (attachBody r block fs key) (attachBody r block fs' key) := by
  unfold attachBody
  rcases alike.get key with ⟨none, none'⟩ | ⟨f, f', found, found', same⟩
  · rw [none, none']
    exact likewise_same ()
  · rw [found, found']
    refine likewise_then (likewise_body r even' same.value) fun first => ?_
    exact likewise_on_graph (fun g => g.set_body_unplaced block first) fun g => g.keeps_set_body block first

include even

variable {block : BlockId}

omit even' in
theorem likewise_fill_field {kind : Kind} (held : (block, kind) ∈ known) {slot : Slot}
    (offers : (kind.accepts? slot).isSome = true) (key : String) :
    Likewise places known Eq (fillField r block slot fs key) (fillField r block slot fs' key) := by
  unfold fillField
  rcases alike.get key with ⟨none, none'⟩ | ⟨f, f', found, found', same⟩
  · rw [none, none']
    exact likewise_same ()
  · rw [found, found']
    exact likewise_fill r.operand even held offers same.value

omit even' in
theorem likewise_bounds (held : (block, .forLoop) ∈ known) {iteration : Iteration} (keys : List String) :
    Likewise places known Eq (bounds r block iteration fs keys) (bounds r block iteration fs' keys) := by
  induction keys with
  | nil => exact likewise_same ()
  | cons key rest hyp =>
    unfold bounds
    rcases alike.get key with ⟨none, none'⟩ | ⟨f, f', found, found', same⟩
    · rw [none, none']
      exact hyp
    · simp only [found, found']
      cases bound : boundSlot? iteration key with
      | none => exact likewise_fail same.stands
      | some slot =>
        have offers : (Kind.forLoop.accepts? slot).isSome = true := by
          unfold boundSlot? at bound
          split at bound <;> cases bound <;> rfl
        exact likewise_then (likewise_fill r.operand even held offers same.value) fun _ => hyp

include stands heads

omit even even' in
theorem likewise_variable : Likewise places known Eq (variableDecl n head fs) (variableDecl n' head' fs') := by
  refine likewise_then (likewise_name heads) fun name => likewise_then (likewise_type alike stands) fun type => ?_
  have made : ∀ checked : Bool, Likewise places known Eq
      (add .variableDecl n (fun b => { b with name, type := some type, checked }) >>= fun block => declare block >>=
        fun _ => pure block)
      (add .variableDecl n' (fun b => { b with name, type := some type, checked }) >>= fun block =>
        declare block >>= fun _ => pure block) :=
    fun checked => likewise_then (likewise_add stands) fun block => likewise_then (likewise_declare block) fun _ =>
      likewise_same block
  rcases alike.get "checked" with ⟨none, none'⟩ | ⟨f, f', found, found', same⟩
  · rw [none, none']
    exact made false
  · simp only [found, found', ← Node.truth_rearranged same.value]
    cases f.value.truth? with
    | none => exact likewise_stop (Node.stands_rearranged same.value)
    | some checked => exact made checked

theorem likewise_branch : Likewise places known Eq (branch r n head fs) (branch r n' head' fs') := by
  unfold branch
  rw [← alike.has]
  refine likewise_one r.operand even (by split_ifs <;> rfl) stands heads fun block => ?_
  refine likewise_then (likewise_attach r even' alike block "then") fun _ => ?_
  rcases alike.get "else" with ⟨none, none'⟩ | ⟨f, f', found, found', same⟩
  · rw [none, none']
    exact likewise_same block
  · rw [found, found']
    refine likewise_then (likewise_body r even' same.value) fun first => likewise_then ?_ fun _ => likewise_same block
    exact likewise_on_graph (fun g => g.set_otherwise_unplaced block first) fun g => g.keeps_set_otherwise block first

theorem likewise_for : Likewise places known Eq (forLoop r n head fs) (forLoop r n' head' fs') := by
  have iteration : iterationOf fs = iterationOf fs' := by simp [iterationOf, alike.has]
  have made : ∀ (name : String) (type : ValueType), Likewise places known Eq
      (add .forLoop n (fun b => { b with name, type := some type, iteration := iterationOf fs' }) >>= fun block =>
        inBody (declare block >>= fun _ => bounds r block (iterationOf fs') fs boundKeys >>= fun _ =>
          attachBody r block fs "do") >>= fun _ => pure block)
      (add .forLoop n' (fun b => { b with name, type := some type, iteration := iterationOf fs' }) >>= fun block =>
        inBody (declare block >>= fun _ => bounds r block (iterationOf fs') fs' boundKeys >>= fun _ =>
          attachBody r block fs' "do") >>= fun _ => pure block) := by
    intro name type
    refine likewise_new ?_ stands fun block => likewise_then (likewise_in_body ?_) fun _ => likewise_same block
    · exact fun _ => rfl
    · exact likewise_then (likewise_declare block) fun _ =>
        likewise_then (likewise_bounds r even alike mem_cons_self boundKeys)
        fun _ => likewise_attach r even' alike block "do"
  refine likewise_then (likewise_name heads) fun name => ?_
  rw [alike.has, iteration]
  split_ifs
  · exact likewise_then (likewise_type alike stands) fun type => made name type
  · exact made name .int

theorem likewise_handler : Likewise places known Eq (handler r n head fs) (handler r n' head' fs') := by
  refine likewise_one r.operand even rfl stands heads fun block => ?_
  generalize (block, Kind.when) :: known = known
  have listed : Likewise places known Eq
      (attachBody r block fs "do" >>= fun _ => onGraph (fun g => { g with handlers := g.handlers ++ [block] }) >>=
        fun _ => pure block)
      (attachBody r block fs' "do" >>= fun _ => onGraph (fun g => { g with handlers := g.handlers ++ [block] }) >>=
        fun _ => pure block) :=
    likewise_then (likewise_attach r even' alike block "do") fun _ =>
      likewise_then (likewise_on_graph (fun _ => rfl) fun _ _ b found => ⟨b, found, rfl⟩) fun _ => likewise_same block
  rcases alike.get "times" with ⟨none, none'⟩ | ⟨f, f', found, found', same⟩
  · rw [none, none']
    exact listed
  · simp only [found, found', ← Node.integer_rearranged same.value]
    cases f.value.integer? with
    | none => exact likewise_stop (Node.stands_rearranged same.value)
    | some times =>
      dsimp only
      split_ifs
      · exact likewise_stop (Node.stands_rearranged same.value)
      · exact likewise_then (likewise_modify block (fun _ => rfl) fun _ => rfl) fun _ => listed

omit heads alike stands in
theorem likewise_statement_with (top : Bool) : EvenStatement places (statementWith r top) := by
  intro known n n' fs fs' stands alike
  refine likewise_bind (likewise_keyword alike stands) fun p p' same => ?_
  obtain ⟨word, head⟩ := p
  obtain ⟨word', head'⟩ := p'
  obtain ⟨rfl, heads⟩ : word = word' ∧ head.Rearranged places head' := same
  dsimp only
  split
  · exact likewise_variable stands heads alike
  · exact likewise_one r.operand even rfl stands heads fun block =>
      likewise_then (likewise_fill_field r even alike mem_cons_self rfl "to") fun _ => likewise_same block
  · exact likewise_one r.operand even rfl stands heads fun block => likewise_same block
  · exact likewise_one r.operand even rfl stands heads fun block => likewise_same block
  · exact likewise_branch r even even' stands heads alike
  · exact likewise_one r.operand even rfl stands heads fun block =>
      likewise_then (likewise_attach r even' alike block "do") fun _ => likewise_same block
  · exact likewise_for r even even' stands heads alike
  · split_ifs
    · exact likewise_handler r even even' stands heads alike
    · exact likewise_fail stands

end Statements

theorem even_statement (operand : Node → Loading BlockId) (even : Even places operand) (fuel : Nat) (top : Bool) :
    EvenStatement places (statement operand fuel top) := by
  induction fuel generalizing top with
  | zero => exact fun _ _ _ _ _ stands _ => likewise_fail stands
  | succ fuel hyp => exact likewise_statement_with ⟨operand, statement operand fuel false⟩ even (hyp false) top

theorem even_readers (depth : Nat) : EvenStatement places (readers depth).statement :=
  even_statement (operand depth) (even_operand depth) depth false

theorem likewise_devices (items items' : NodeList)
    (same : List.Forall₂ (Node.Rearranged places) items.toList items'.toList) :
    Likewise places known Eq (devices items) (devices items') := by
  refine related_items (likewise_same ()) (fun item item' rest rest' same later => ?_) items items' same
  have stands := Node.stands_rearranged same
  have whole := same
  cases same with
  | mapping place place' entries entries' =>
    refine likewise_bind (likewise_fields whole) fun fs fs' alike => ?_
    rcases alike.get "name" with ⟨none, none'⟩ | ⟨f, f', found, found', same⟩
    · rw [none, none']
      exact likewise_stop stands
    · rw [found, found']
      obtain ⟨key, own, value⟩ := f
      obtain ⟨key', own', value'⟩ := f'
      obtain ⟨-, values, -⟩ := same
      have named := Node.stands_rearranged values
      cases values with
      | scalar place₁ place₂ s _ =>
        change Likewise places known Eq (if s.text.isEmpty = true then _ else _)
          (if s.text.isEmpty = true then _ else _)
        split_ifs
        · exact likewise_stop stands
        · rw [pure_bind, pure_bind]
          refine likewise_then (likewise_type alike stands) fun type => likewise_state fun t t' states held => ?_
          have listed : t.graph.device? s.text = t'.graph.device? s.text :=
            congrArg (fun t => t.graph.device? s.text) states.unplaced_eq
          dsimp only
          rw [listed]
          split_ifs
          · exact .failed _ _ named
          · refine likewise_then (likewise_on_graph ?_ ?_) (fun _ => later) t t' states held
            · exact fun _ => rfl
            · exact fun _ _ b found => ⟨b, found, rfl⟩
      | _ => exact fun _ _ _ _ => .failed _ _ stands
  | _ => exact likewise_fail stands

theorem likewise_handlers (items items' : NodeList)
    (same : List.Forall₂ (Node.Rearranged places) items.toList items'.toList) :
    Likewise places known Eq (handlers depth items) (handlers depth items') := by
  refine related_items (likewise_same ()) (fun item item' rest rest' same later => ?_) items items' same
  have stands := Node.stands_rearranged same
  have whole := same
  cases same with
  | mapping place place' entries entries' =>
    refine likewise_bind (likewise_fields whole) fun fs fs' alike => ?_
    rw [alike.has]
    dsimp only
    split_ifs
    · exact likewise_stop stands
    · refine likewise_then (likewise_frames fun _ => [[]]) fun _ => ?_
      refine likewise_then (even_statement (operand depth) (even_operand depth) depth true _ _ _ fs fs' stands alike)
        fun _ => later
  | _ => exact likewise_fail stands

theorem likewise_main (f f' : Field) (same : f.Alike places f') :
    Likewise places known Eq (mainChain depth f) (mainChain depth f') := by
  refine likewise_then (likewise_frames fun _ => [[]]) fun _ => ?_
  refine likewise_then (likewise_chain (readers depth) (even_readers depth) same.value) fun ids => ?_
  refine likewise_then (likewise_add same.stands) fun start => likewise_state fun s s' states _ => ?_
  obtain ⟨first, g, g', linked, linked', moved, keeps⟩ := moved_chain states.graph ids
  rw [linked, linked']
  have started :=
    moved_free moved (fun g => { (if first = 0 then g else g.link start first) with main := start }) fun g => by
    split_ifs
    · rfl
    · rw [← Graph.link_unplaced]
      rfl
  refine .done _ _ _ _ rfl ⟨started, states.frames, states.declared⟩ (keeps.trans ?_)
  change g'.Keeps { (if first = 0 then g' else g'.link start first) with main := start }
  split_ifs
  · exact fun _ b found => ⟨b, found, rfl⟩
  · exact g'.keeps_link start first

theorem likewise_check (alike : fs.Alike places fs') : Likewise places known Eq (checkParts fs) (checkParts fs') := by
  have absent : (fs.find? fun f => ¬ ["devices", "main", "handlers"].contains f.name) = none ↔
      (fs'.find? fun f => ¬ ["devices", "main", "handlers"].contains f.name) = none := by
    rw [find?_eq_none, find?_eq_none]
    constructor
    · intro known f' mem
      obtain ⟨f, inside, same⟩ := alike.back mem
      exact same.name ▸ known f inside
    · intro known f mem
      obtain ⟨f', inside, same⟩ := alike.forth f mem
      exact same.name ▸ known f' inside
  unfold checkParts
  cases stray : fs.find? fun f => ¬ ["devices", "main", "handlers"].contains f.name with
  | none =>
    rw [absent.mp stray]
    exact likewise_same ()
  | some f =>
    cases stray' : fs'.find? fun f => ¬ ["devices", "main", "handlers"].contains f.name with
    | none =>
      rw [absent.mpr stray'] at stray
      cases stray
    | some f' =>
      obtain ⟨_, -, same⟩ := alike.back (mem_of_find?_eq_some stray')
      exact likewise_fail same.stands

theorem likewise_part (alike : fs.Alike places fs') {read read' : Field → Loading Unit}
    (each : ∀ f f', f.Alike places f' → Likewise places known Eq (read f) (read' f')) :
    Likewise places known Eq (part fs name read) (part fs' name read') := by
  unfold part
  rcases alike.get name with ⟨none, none'⟩ | ⟨f, f', found, found', same⟩
  · rw [none, none']
    exact likewise_same ()
  · rw [found, found']
    exact each f f' same

theorem likewise_list {read : NodeList → Loading Unit}
    (each : ∀ items items', List.Forall₂ (Node.Rearranged places) items.toList items'.toList →
      Likewise places known Eq (read items) (read items')) (f f' : Field) (same : f.Alike places f') :
    Likewise places known Eq (listPart fault read f) (listPart fault read f') := by
  obtain ⟨key, name, value⟩ := f
  obtain ⟨key', name', value'⟩ := f'
  obtain ⟨-, values, -⟩ := same
  have stands := Node.stands_rearranged values
  cases values with
  | list place place' items items' _ same => exact each items items' same
  | _ => exact likewise_fail stands

theorem likewise_program {root root' : Node} (same : root.Rearranged places root') :
    Likewise places known Eq (program root) (program root') := by
  have depth := Node.depth_rearranged same
  have stands := Node.stands_rearranged same
  have whole := same
  cases same with
  | mapping place place' entries entries' =>
    refine likewise_bind (likewise_fields whole) fun fs fs' alike => ?_
    refine likewise_then (likewise_check alike) fun _ => ?_
    refine likewise_then (likewise_part alike (likewise_list likewise_devices)) fun _ => ?_
    rw [depth]
    refine likewise_then (likewise_part alike (likewise_main)) fun _ => ?_
    exact likewise_part alike (likewise_list (likewise_handlers))
  | _ => exact likewise_fail stands

theorem of_node_rearranged {root root' : Node} (same : root.Rearranged places root') :
    (∃ fault fault', ofNode root = .error fault ∧ ofNode root' = .error fault' ∧ At places fault') ∨
      ∃ g g', ofNode root = .ok g ∧ ofNode root' = .ok g' ∧ Moved places g g' := by
  have held : Kinds [] {} := by simp [Kinds]
  have runs := likewise_program same {} {} ⟨⟨rfl, fun _ => by simp [Graph.unplaced]⟩, rfl, rfl⟩ held
  unfold ofNode
  generalize (program root).run {} = ended at runs ⊢
  generalize (program root').run {} = ended' at runs ⊢
  cases runs with
  | failed fault fault' located => exact .inl ⟨fault, fault', rfl, rfl, located⟩
  | done _ _ s s' _ state => exact .inr ⟨s.graph, s'.graph, rfl, rfl, state.graph⟩

theorem of_node_unplaced (root : Node) :
    (ofNode root.unplaced).toOption = (ofNode root).toOption.map Graph.unplaced := by
  rcases of_node_rearranged root.rearranged_unplaced with ⟨fault, fault', failed, failed', -⟩ |
    ⟨g, g', made, made', same, plain⟩
  · rw [failed, failed']
    rfl
  · rw [made, made']
    exact congrArg some ((plain fun _ here => here).symm.trans same.symm)

-- A program does not depend on the order of the pairs in the mappings of its document, places apart.
theorem key_order_irrelevant (root root' : Node) (same : root.Rearranged (fun _ => True) root') :
    ((∃ g, ofNode root = .ok g) ↔ ∃ g', ofNode root' = .ok g') ∧
      ∀ g g', ofNode root = .ok g → ofNode root' = .ok g' → g.unplaced = g'.unplaced := by
  rcases of_node_rearranged same with ⟨fault, fault', failed, failed', -⟩ | ⟨g, g', made, made', moved⟩
  · rw [failed, failed']
    simp
  · rw [made, made']
    simp only [Except.ok.injEq, exists_eq', true_and]
    rintro _ _ rfl rfl
    exact moved.1

theorem swapped_pairs {key value other item key' value' other' item' : Node}
    (keys : key.Rearranged (fun _ => True) key')
    (values : value.Rearranged (fun _ => True) value') (others : other.Rearranged (fun _ => True) other')
    (items : item.Rearranged (fun _ => True) item') :
    (Node.mapping {} (.cons key value (.cons other item .nil))).Rearranged (fun _ => True)
      (.mapping {} (.cons other' item' (.cons key' value' .nil))) :=
  .mapping {} {} _ _ trivial [(key', value'), (other', item')] (.swap _ _ _) (.cons keys (.cons others .nil))
    (.cons values (.cons items .nil))

def word (text : String) : Node := .scalar {} ⟨.text, text, true⟩

theorem word_rearranged (text : String) : (word text).Rearranged (fun _ => True) (word text) := .scalar _ _ _ trivial

def writtenProgram : Node :=
  .mapping {} (.cons (word "devices")
    (.list {} (.cons (.mapping {} (.cons (word "name") (word "t") (.cons (word "type") (word "int") .nil))) .nil))
    (.cons (word "main")
      (.list {} (.cons (.mapping {} (.cons (word "var") (word "x") (.cons (word "type") (word "bool") .nil)))
      (.cons (.mapping {} (.cons (word "set") (.mapping {} (.cons (word "ref") (word "x") .nil))
        (.cons (word "to") (.mapping {} (.cons (word "lit") (word "yes") (.cons (word "type") (word "bool") .nil)))
          .nil))) .nil))) .nil))

def turnedProgram : Node :=
  .mapping {} (.cons (word "main")
    (.list {} (.cons (.mapping {} (.cons (word "type") (word "bool") (.cons (word "var") (word "x") .nil)))
    (.cons (.mapping {}
      (.cons (word "to") (.mapping {} (.cons (word "type") (word "bool") (.cons (word "lit") (word "yes") .nil)))
      (.cons (word "set") (.mapping {} (.cons (word "ref") (word "x") .nil)) .nil))) .nil)))
    (.cons (word "devices") (.list {}
      (.cons (.mapping {} (.cons (word "type") (word "int") (.cons (word "name") (word "t") .nil))) .nil)) .nil))

theorem turned_program_rearranged : writtenProgram.Rearranged (fun _ => True) turnedProgram := by
  have target : (Node.mapping {} (.cons (word "ref") (word "x") .nil)).Rearranged (fun _ => True)
      (.mapping {} (.cons (word "ref") (word "x") .nil)) :=
    .mapping {} {} _ _ trivial _ (.refl _) (.cons (word_rearranged _) .nil) (.cons (word_rearranged _) .nil)
  have literal := swapped_pairs (word_rearranged "lit") (word_rearranged "yes") (word_rearranged "type")
    (word_rearranged "bool")
  have variable_ := swapped_pairs (word_rearranged "var") (word_rearranged "x") (word_rearranged "type")
    (word_rearranged "bool")
  have device := swapped_pairs (word_rearranged "name") (word_rearranged "t") (word_rearranged "type")
    (word_rearranged "int")
  have assignment := swapped_pairs (word_rearranged "set") target (word_rearranged "to") literal
  exact swapped_pairs (word_rearranged "devices") (.list {} {} _ _ trivial (.cons device .nil)) (word_rearranged "main")
    (.list {} {} _ _ trivial (.cons variable_ (.cons assignment .nil)))

theorem turned_program_unchanged :
    writtenProgram.Rearranged (fun _ => True) turnedProgram ∧ (ofNode turnedProgram).toOption.map Graph.size = some 5 ∧
      ((∃ g, ofNode writtenProgram = .ok g) ↔ ∃ g', ofNode turnedProgram = .ok g') ∧
        ∀ g g', ofNode writtenProgram = .ok g → ofNode turnedProgram = .ok g' → g.unplaced = g'.unplaced :=
  ⟨turned_program_rearranged, by decide +kernel,
    key_order_irrelevant writtenProgram turnedProgram turned_program_rearranged⟩

end Document

end Blockwork
