import Blockwork.Proofs.Visits

set_option autoImplicit false

namespace Blockwork

open List Names

namespace Scopes

def Ordered (scopes : Scopes) : Prop := ∀ j p, scopes.parentOf j = some p → p < j

structure Kept (scope : Nat) (before after : Scopes) : Prop where
  size : before.size ≤ after.size
  parents : ∀ j, j < before.size → after.parentOf j = before.parentOf j
  others : ∀ j, j < before.size → j ≠ scope → after.declaredIn j = before.declaredIn j

theorem Kept.refl (scope : Nat) (scopes : Scopes) : Kept scope scopes scopes :=
  ⟨le_rfl, fun _ _ => rfl, fun _ _ _ => rfl⟩

theorem Kept.trans {scope : Nat} {first second third : Scopes} (before : Kept scope first second)
    (after : Kept scope second third) :
    Kept scope first third where
  size := before.size.trans after.size
  parents := fun j inside => (after.parents j (inside.trans_le before.size)).trans (before.parents j inside)
  others := fun j inside other => (after.others j (inside.trans_le before.size) other).trans
    (before.others j inside other)

section

variable (scopes : Scopes)

theorem enclosing_fuel (ordered : scopes.Ordered) (scope fuel : Nat) (enough : scope ≤ fuel) :
    scopes.enclosingFrom fuel scope = scopes.enclosing scope := by
  unfold enclosing
  induction scope using Nat.strong_induction_on generalizing fuel with
  | _ scope hyp =>
    cases parent : scopes.parentOf scope with
    | none => cases fuel <;> cases scope <;> simp [enclosingFrom, parent]
    | some p =>
      have below := ordered scope p parent
      obtain ⟨fuel, rfl⟩ : ∃ f, fuel = f + 1 := ⟨fuel - 1, by omega⟩
      obtain ⟨scope, rfl⟩ : ∃ f, scope = f + 1 := ⟨scope - 1, by omega⟩
      rw [enclosingFrom, enclosingFrom, parent, Option.elim_some, Option.elim_some, hyp p below fuel (by omega),
        hyp p below scope (by omega)]

theorem enclosing_cons (ordered : scopes.Ordered) (scope : Nat) :
    scopes.enclosing scope = scope :: (scopes.parentOf scope).elim [] scopes.enclosing := by
  rw [← scopes.enclosing_fuel ordered scope (scope + 1) (by omega), enclosingFrom]
  cases parent : scopes.parentOf scope with
  | none => rfl
  | some p =>
    have below := ordered scope p parent
    exact congrArg _ (scopes.enclosing_fuel ordered p scope (by omega))

theorem enclosing_bounded (ordered : scopes.Ordered) {scope : Nat} : ∀ s ∈ scopes.enclosing scope, s ≤ scope := by
  induction scope using Nat.strong_induction_on with
  | _ scope hyp =>
    intro s mem
    rw [scopes.enclosing_cons ordered] at mem
    rcases mem_cons.mp mem with rfl | outer
    · exact le_rfl
    · cases parent : scopes.parentOf scope with
      | none => simp [parent] at outer
      | some p =>
        rw [parent] at outer
        have below := ordered scope p parent
        exact (hyp p below s outer).trans below.le

theorem enclosing_kept {after : Scopes} {other : Nat} (ordered : scopes.Ordered) (ordered' : after.Ordered)
    (kept : Kept other scopes after) {scope : Nat} (inside : scope < scopes.size) :
    after.enclosing scope = scopes.enclosing scope := by
  induction scope using Nat.strong_induction_on with
  | _ scope hyp =>
    rw [scopes.enclosing_cons ordered, after.enclosing_cons ordered', kept.parents scope inside]
    cases parent : scopes.parentOf scope with
    | none => rfl
    | some p =>
      have below := ordered scope p parent
      exact congrArg _ (hyp p below (below.trans inside))

def Visible (scope id : Nat) : Prop := ∃ s ∈ scopes.enclosing scope, id ∈ scopes.declaredIn s

variable (scope id : Nat)

theorem lookup_visible : (scopes.lookup scope id).isSome = true ↔ scopes.Visible scope id := by
  simp [lookup, Visible]

theorem visible_kept {after : Scopes} (ordered : scopes.Ordered) (ordered' : after.Ordered)
    (kept : Kept scopes.size scopes after)
    {scope : Nat} (inside : scope < scopes.size) (id : Nat) : after.Visible scope id ↔ scopes.Visible scope id := by
  unfold Visible
  rw [scopes.enclosing_kept ordered ordered' kept inside]
  refine exists_congr fun s => and_congr_right fun mem => ?_
  have bound := (scopes.enclosing_bounded ordered s mem).trans_lt inside
  rw [kept.others s bound bound.ne]

variable (parent : Option Nat)

theorem opened_parent (j : Nat) :
    (scopes.openScope parent).2.parentOf j = if j = scopes.size then parent else scopes.parentOf j := by
  simp only [openScope, parentOf, Array.getElem?_push]
  split <;> simp

theorem opened_declared (j : Nat) : (scopes.openScope parent).2.declaredIn j = scopes.declaredIn j := by
  simp only [openScope, declaredIn, Array.getElem?_push]
  split
  · next last => simp [last]
  · rfl

theorem opened_size : (scopes.openScope parent).2.size = scopes.size + 1 := by simp [openScope]

theorem opened_ordered (ordered : scopes.Ordered) {scope : Nat} (inside : scope < scopes.size) :
    (scopes.openScope (some scope)).2.Ordered := by
  intro j p parent
  rw [opened_parent] at parent
  split at parent
  · next last =>
      cases parent
      omega
  · exact ordered j p parent

theorem opened_kept (other : Nat) : Kept other scopes (scopes.openScope parent).2 where
  size := by rw [opened_size]; omega
  parents := fun j inside => by rw [opened_parent, if_neg inside.ne]
  others := fun j _ _ => opened_declared scopes parent j

theorem insert_id_mem (id x : Nat) (ids : List Nat) : x ∈ insertId id ids ↔ x = id ∨ x ∈ ids := by
  induction ids with
  | nil => simp [insertId]
  | cons y rest hyp =>
    rw [insertId]
    split_ifs with less same
    · simp
    · subst same
      simp
    · simp only [mem_cons, hyp]
      tauto

theorem declare_parent (scope id j : Nat) : (scopes.declare scope id).parentOf j = scopes.parentOf j := by
  simp only [declare, parentOf, Array.getElem?_modify]
  split
  · cases scopes[j]? <;> rfl
  · rfl

theorem declare_declared {scope j x : Nat} (id : Nat) (inside : scope < scopes.size) :
    x ∈ (scopes.declare scope id).declaredIn j ↔ (j = scope ∧ x = id) ∨ x ∈ scopes.declaredIn j := by
  simp only [declare, declaredIn, Array.getElem?_modify]
  split
  · next here =>
      subst here
      simp [Array.getElem?_eq_getElem inside, insert_id_mem]
  · next other =>
      have apart : j ≠ scope := fun same => other same.symm
      simp [apart]

theorem declare_size : (scopes.declare scope id).size = scopes.size := by simp [declare]

theorem declare_ordered (ordered : scopes.Ordered) (scope id : Nat) : (scopes.declare scope id).Ordered := by
  intro j p parent
  rw [declare_parent] at parent
  exact ordered j p parent

theorem declare_kept : Kept scope scopes (scopes.declare scope id) where
  size := (declare_size scopes scope id).ge
  parents := fun j _ => declare_parent scopes scope id j
  others := fun j _ other => by
    simp only [declare, declaredIn, Array.getElem?_modify, if_neg (Ne.symm other)]

end

end Scopes

namespace Names

def Open (names : Names) (id : Nat) : Prop := ∃ e ∈ names.frames.flatten, e.id = id

theorem open_enter (names : Names) (id : Nat) : names.enter.Open id ↔ names.Open id := by simp [Open, enter]

theorem open_declare (names : Names) (e : Entry) (id : Nat) :
    (names.declare e).Open id ↔ e.id = id ∨ names.Open id := by
  unfold Open declare
  cases names.frames with
  | nil => simp
  | cons frame rest => simp [or_and_right, exists_or]

theorem open_frames {names names' : Names} (same : names'.frames = names.frames) (id : Nat) :
    names'.Open id ↔ names.Open id := by
  unfold Open
  rw [same]

-- The open bodies declare what can be found from a scope.
structure Agrees (names : Names) (scopes : Scopes) (scope : Nat) : Prop where
  opened : names.frames ≠ []
  inside : scope < scopes.size
  ordered : scopes.Ordered
  same : ∀ id, names.Open id ↔ scopes.Visible scope id

section

variable (names : Names) (scopes : Scopes) (scope : Nat) (agrees : names.Agrees scopes scope)

include agrees

theorem agrees_enter : names.enter.Agrees scopes scope where
  opened := cons_ne_nil _ _
  inside := agrees.inside
  ordered := agrees.ordered
  same := fun id => (open_enter names id).trans (agrees.same id)

theorem agrees_declare (e : Entry) : (names.declare e).Agrees (scopes.declare scope e.id) scope where
  opened := by
    unfold declare
    cases names.frames <;> simp
  inside := by
    rw [Scopes.declare_size]
    exact agrees.inside
  ordered := scopes.declare_ordered agrees.ordered scope e.id
  same := by
    intro id
    rw [open_declare, agrees.same, Scopes.Visible, Scopes.Visible,
      scopes.enclosing_kept agrees.ordered (scopes.declare_ordered agrees.ordered scope e.id)
        (scopes.declare_kept scope e.id) agrees.inside]
    simp only [scopes.declare_declared e.id agrees.inside]
    constructor
    · rintro (rfl | ⟨s, enclosing, mem⟩)
      · refine ⟨scope, ?_, .inl ⟨rfl, rfl⟩⟩
        rw [scopes.enclosing_cons agrees.ordered]
        exact mem_cons_self
      · exact ⟨s, enclosing, .inr mem⟩
    · rintro ⟨s, enclosing, ⟨-, rfl⟩ | mem⟩
      · exact .inl rfl
      · exact .inr ⟨s, enclosing, mem⟩

theorem agrees_open_scope : names.Agrees (scopes.openScope (some scope)).2 scopes.size := by
  have ordered := scopes.opened_ordered agrees.ordered agrees.inside
  have kept := scopes.opened_kept (some scope) scopes.size
  refine ⟨agrees.opened, by rw [scopes.opened_size]; omega, ordered, fun id => ?_⟩
  rw [agrees.same, ← scopes.visible_kept agrees.ordered ordered kept agrees.inside]
  have fresh : (scopes.openScope (some scope)).2.declaredIn scopes.size = [] := by
    rw [scopes.opened_declared, Scopes.declaredIn, Array.getElem?_eq_none le_rfl]
    rfl
  unfold Scopes.Visible
  rw [Scopes.enclosing_cons _ ordered scopes.size, scopes.opened_parent, if_pos rfl, Option.elim_some]
  simp [fresh]

theorem agrees_back {names' : Names} {after : Scopes} (same : names'.frames = names.frames) (ordered : after.Ordered)
    (kept : Scopes.Kept scopes.size scopes after) : names'.Agrees after scope where
  opened := by
    rw [same]
    exact agrees.opened
  inside := agrees.inside.trans_le kept.size
  ordered := ordered
  same := fun id => by
    rw [open_frames same, agrees.same, scopes.visible_kept agrees.ordered ordered kept agrees.inside]

end

end Names

theorem Scopes.Kept.below {scope other : Nat} {first second third : Scopes} (before : Kept scope first second)
    (later : first.size ≤ other) (after : Kept other second third) : Kept scope first third where
  size := before.size.trans after.size
  parents := fun j inside => (after.parents j (inside.trans_le before.size)).trans (before.parents j inside)
  others := fun j inside apart =>
    (after.others j (inside.trans_le before.size) (inside.trans_le later).ne).trans (before.others j inside apart)

theorem Scopes.Kept.fresh {scope : Nat} {before after : Scopes} (kept : Kept before.size before after) :
    Kept scope before after := (Kept.refl scope before).below le_rfl kept

structure Scopes.Opened (scopes inner : Scopes) : Prop where
  kept : Kept scopes.size scopes inner
  ordered : inner.Ordered
  size : scopes.size < inner.size

theorem Scopes.opened_plain (scopes : Scopes) {scope : Nat} (ordered : scopes.Ordered) (inside : scope < scopes.size) :
    scopes.Opened (scopes.openScope (some scope)).2 :=
  ⟨scopes.opened_kept _ _, scopes.opened_ordered ordered inside, by rw [opened_size]; omega⟩

theorem Scopes.opened_entered (scopes : Scopes) {scope : Nat} (b : Block) (ordered : scopes.Ordered)
    (inside : scope < scopes.size) :
    scopes.Opened (scopes.entered scope b) := by
  have plain := scopes.opened_plain ordered inside
  unfold entered
  split_ifs
  · refine ⟨plain.kept.trans (declare_kept _ _ _), declare_ordered _ plain.ordered _ _, ?_⟩
    rw [declare_size]
    exact plain.size
  · exact plain

namespace Chain

def bodyScopes (b : Block) (body : Chain) (scopes : Scopes) (scope : Nat) : Scopes :=
  if b.kind.hasBody then body.scopesBehind (scopes.entered scope b) scopes.size else scopes

def otherScopes (b : Block) (otherwise : Chain) (scopes : Scopes) (scope : Nat) : Scopes :=
  if b.kind = .ifElse then otherwise.scopesBehind (scopes.openScope (some scope)).2 scopes.size else scopes

def ownScopes (b : Block) (scopes : Scopes) (scope : Nat) : Scopes :=
  if b.kind = .variableDecl then scopes.declare scope b.id else scopes

variable (b : Block) (body otherwise rest : Chain)

theorem behind_cons (scopes : Scopes) (scope : Nat) :
    (cons b body otherwise rest).scopesBehind scopes scope =
      rest.scopesBehind (ownScopes b (otherScopes b otherwise (bodyScopes b body scopes scope) scope) scope) scope :=
  rfl

def Keeps (c : Chain) : Prop := ∀ (scopes : Scopes) (scope : Nat), scopes.Ordered → scope < scopes.size →
  Scopes.Kept scope scopes (c.scopesBehind scopes scope) ∧ (c.scopesBehind scopes scope).Ordered

section

variable (b : Block) (c : Chain) (keeps : c.Keeps) (scopes : Scopes) (scope : Nat) (ordered : scopes.Ordered)
  (inside : scope < scopes.size)

include keeps ordered inside

theorem body_kept : Scopes.Kept scopes.size scopes (bodyScopes b c scopes scope) ∧
    (bodyScopes b c scopes scope).Ordered := by
  unfold bodyScopes
  split_ifs
  · have opened := scopes.opened_entered b ordered inside
    obtain ⟨kept, ordered⟩ := keeps _ scopes.size opened.ordered opened.size
    exact ⟨opened.kept.trans kept, ordered⟩
  · exact ⟨.refl _ _, ordered⟩

theorem other_kept : Scopes.Kept scopes.size scopes (otherScopes b c scopes scope) ∧
    (otherScopes b c scopes scope).Ordered := by
  unfold otherScopes
  split_ifs
  · have opened := scopes.opened_plain ordered inside
    obtain ⟨kept, ordered⟩ := keeps _ scopes.size opened.ordered opened.size
    exact ⟨opened.kept.trans kept, ordered⟩
  · exact ⟨.refl _ _, ordered⟩

end

theorem bodies_kept {body otherwise : Chain} (keeps : body.Keeps) (keeps' : otherwise.Keeps) {scopes : Scopes}
    {scope : Nat} (ordered : scopes.Ordered) (inside : scope < scopes.size) :
    Scopes.Kept scopes.size scopes (otherScopes b otherwise (bodyScopes b body scopes scope) scope) ∧
      (otherScopes b otherwise (bodyScopes b body scopes scope) scope).Ordered := by
  obtain ⟨kept, ordered⟩ := body_kept b body keeps scopes scope ordered inside
  obtain ⟨kept', ordered⟩ := other_kept b otherwise keeps' _ scope ordered (inside.trans_le kept.size)
  exact ⟨kept.below kept.size kept', ordered⟩

theorem behind_keeps (c : Chain) : c.Keeps := by
  induction c with
  | nil => exact fun scopes scope ordered _ => ⟨.refl scope scopes, ordered⟩
  | cons b body otherwise rest hyp hyp' hyp'' =>
    intro scopes scope ordered inside
    obtain ⟨kept, ordered⟩ := bodies_kept b hyp hyp' ordered inside
    rw [behind_cons]
    generalize otherScopes b otherwise (bodyScopes b body scopes scope) scope = second at kept ordered
    have own : Scopes.Kept scope scopes (ownScopes b second scope) ∧ (ownScopes b second scope).Ordered := by
      unfold ownScopes
      split_ifs
      · exact ⟨kept.fresh.trans (second.declare_kept scope b.id), second.declare_ordered ordered scope b.id⟩
      · exact ⟨kept.fresh, ordered⟩
    obtain ⟨later, ordered⟩ := hyp'' _ scope own.2 (inside.trans_le own.1.size)
    exact ⟨own.1.trans later, ordered⟩

def bodyNames (b : Block) (body : Chain) (names : Names) : Names := (body.after (names.inside b).enter).leave

def otherNames (otherwise : Chain) (names : Names) : Names := (otherwise.after names.enter).leave

theorem after_cons (names : Names) :
    (cons b body otherwise rest).after names = rest.after ((otherNames otherwise (bodyNames b body names)).past b) :=
  rfl

theorem left_frames {c : Chain} {names : Names} {frame : List Entry}
    (grown : (c.after names.enter).frames = frame :: names.enter.frames.drop 1) :
    (c.after names.enter).leave.frames = names.frames := by
  rw [leave, grown]
  rfl

theorem after_frames (c : Chain) (names : Names) (opened : names.frames ≠ []) :
    ∃ frame, (c.after names).frames = frame :: names.frames.drop 1 := by
  induction c generalizing names with
  | nil =>
    obtain ⟨frame, rest, frames⟩ := exists_cons_of_ne_nil opened
    exact ⟨frame, by rw [after, frames]; rfl⟩
  | cons b body otherwise rest hyp hyp' hyp'' =>
    obtain ⟨frame, first⟩ := hyp (names.inside b).enter (cons_ne_nil _ _)
    obtain ⟨frame', second⟩ := hyp' (bodyNames b body names).enter (cons_ne_nil _ _)
    have same : (otherNames otherwise (bodyNames b body names)).frames = (names.inside b).frames :=
      (left_frames second).trans (left_frames first)
    obtain ⟨frame, outer, frames⟩ := exists_cons_of_ne_nil opened
    have past : ∃ frame, ((otherNames otherwise (bodyNames b body names)).past b).frames =
        frame :: names.frames.drop 1 := by
      unfold past
      unfold inside at same
      split_ifs at same ⊢
      · exact ⟨frame, by simp [leave, same, declare, enter, frames]⟩
      · exact ⟨b.entry :: frame, by simp [declare, same, frames]⟩
      · exact ⟨frame, by simp [same, frames]⟩
    obtain ⟨frame, past⟩ := past
    obtain ⟨frame', later⟩ := hyp'' _ (by rw [past]; exact cons_ne_nil _ _)
    exact ⟨frame', by rw [after_cons, later, past]; rfl⟩

theorem body_frames (body : Chain) (names : Names) : (bodyNames b body names).frames = (names.inside b).frames := by
  obtain ⟨frame, grown⟩ := body.after_frames (names.inside b).enter (cons_ne_nil _ _)
  exact left_frames grown

theorem other_frames (otherwise : Chain) {names : Names} : (otherNames otherwise names).frames = names.frames := by
  obtain ⟨frame, grown⟩ := otherwise.after_frames names.enter (cons_ne_nil _ _)
  exact left_frames grown

theorem mem_visits (inHandler : Bool) (names : Names) (scopes : Scopes) (scope : Nat) (v : Visit) :
    v ∈ (cons b body otherwise rest).visits inHandler names scopes scope ↔
      (∃ slot ∈ b.kind.compiledSlots, ⟨b, slot, names, scopes, scope, inHandler⟩ = v) ∨
      (b.kind.hasBody = true ∧ v ∈ body.visits inHandler (names.inside b).enter (scopes.entered scope b) scopes.size) ∨
      (b.kind = .ifElse ∧ v ∈ otherwise.visits inHandler (bodyNames b body names).enter
        ((bodyScopes b body scopes scope).openScope (some scope)).2 (bodyScopes b body scopes scope).size) ∨
      v ∈ rest.visits inHandler ((otherNames otherwise (bodyNames b body names)).past b)
        (ownScopes b (otherScopes b otherwise (bodyScopes b body scopes scope) scope) scope) scope := by
  have whole : (cons b body otherwise rest).visits inHandler names scopes scope =
      (b.kind.compiledSlots.map fun slot => ⟨b, slot, names, scopes, scope, inHandler⟩) ++
      (if b.kind.hasBody then body.visits inHandler (names.inside b).enter
        (scopes.entered scope b) scopes.size else []) ++
      (if b.kind = .ifElse then otherwise.visits inHandler (bodyNames b body names).enter
        ((bodyScopes b body scopes scope).openScope (some scope)).2 (bodyScopes b body scopes scope).size else []) ++
      rest.visits inHandler ((otherNames otherwise (bodyNames b body names)).past b)
        (ownScopes b (otherScopes b otherwise (bodyScopes b body scopes scope) scope) scope) scope := rfl
  rw [whole]
  simp only [mem_append, mem_map, mem_ite_nil_right, or_assoc]

end Chain

theorem Names.agrees_entered (names : Names) {scopes : Scopes} {scope : Nat} (agrees : names.Agrees scopes scope)
    (b : Block) :
    (names.inside b).enter.Agrees (scopes.entered scope b) scopes.size := by
  have opened := agrees_open_scope names scopes scope agrees
  unfold inside Scopes.entered
  split_ifs
  · exact agrees_enter _ _ _ (agrees_declare _ _ _ (agrees_enter _ _ _ opened) b.entry)
  · exact agrees_enter _ _ _ opened

-- What is known in a chain can be found in its scopes, at every slot and behind the chain.
theorem Chain.visits_agree (c : Chain) (inHandler : Bool) (names : Names) (scopes : Scopes) (scope : Nat)
    (agrees : names.Agrees scopes scope) :
    (∀ v ∈ c.visits inHandler names scopes scope, v.names.Agrees v.scopes v.scope) ∧
      (c.after names).Agrees (c.scopesBehind scopes scope) scope := by
  induction c generalizing names scopes scope with
  | nil => exact ⟨by simp [visits], agrees⟩
  | cons b body otherwise rest hyp hyp' hyp'' =>
    obtain ⟨first, -⟩ := hyp _ _ _ (names.agrees_entered agrees b)
    obtain ⟨kept, ordered⟩ := body_kept b body body.behind_keeps scopes scope agrees.ordered agrees.inside
    obtain ⟨kept', ordered'⟩ := bodies_kept b body.behind_keeps otherwise.behind_keeps agrees.ordered agrees.inside
    have last : (otherNames otherwise (bodyNames b body names)).frames = (names.inside b).frames :=
      (other_frames otherwise).trans (body_frames b body names)
    have behind : ((otherNames otherwise (bodyNames b body names)).past b).Agrees
        (ownScopes b (otherScopes b otherwise (bodyScopes b body scopes scope) scope) scope) scope := by
      unfold past ownScopes
      unfold inside at last
      split_ifs at last ⊢ with loop kind
      · exact absurd (loop.symm.trans ‹_›) (by decide)
      · refine agrees_back names scopes scope agrees ?_ ordered' kept'
        simp [leave, last, declare, enter]
      · exact agrees_declare _ _ _ (agrees_back names scopes scope agrees last ordered' kept') b.entry
      · exact agrees_back names scopes scope agrees last ordered' kept'
    obtain ⟨later, after⟩ := hyp'' _ _ _ behind
    refine ⟨fun v mem => ?_, after⟩
    rcases (mem_visits b body otherwise rest inHandler names scopes scope v).mp mem with
      ⟨slot, -, rfl⟩ | ⟨-, mem⟩ | ⟨kind, mem⟩ | mem
    · exact agrees
    · exact first v mem
    · have same : (bodyNames b body names).frames = names.frames := by
        rw [body_frames, inside, if_neg (by simp [kind])]
      have back := agrees_back names scopes scope agrees same ordered kept
      exact (hyp' _ _ _ (agrees_enter _ _ _ (agrees_open_scope _ _ _ back))).1 v mem
    · exact later v mem

structure Scopes.Rooted (scopes : Scopes) : Prop where
  inside : 0 < scopes.size
  ordered : scopes.Ordered
  empty : scopes.declaredIn 0 = []

theorem Scopes.rooted_kept {scopes after : Scopes} {scope : Nat} (rooted : scopes.Rooted) (ordered : after.Ordered)
    (kept : Kept scope scopes after) (other : scope ≠ 0) : after.Rooted where
  inside := rooted.inside.trans_le kept.size
  ordered := ordered
  empty := (kept.others 0 rooted.inside (Ne.symm other)).trans rooted.empty

theorem Names.rooted_agrees (names : Names) {scopes : Scopes} (rooted : scopes.Rooted) :
    names.fresh.Agrees (scopes.openScope (some 0)).2 scopes.size := by
  refine agrees_open_scope names.fresh scopes 0 ⟨cons_ne_nil _ _, rooted.inside, rooted.ordered, fun id => ?_⟩
  have alone : scopes.enclosing 0 = [0] := rfl
  simp [Open, fresh, Scopes.Visible, alone, rooted.empty]

end Blockwork
