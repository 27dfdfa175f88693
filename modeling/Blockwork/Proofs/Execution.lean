import Blockwork.Analysis.Point
import Blockwork.Proofs.Evaluation
import Blockwork.Proofs.Links
import Mathlib

set_option autoImplicit false

namespace Blockwork

variable {b : Block} {name : String} {l r : Expr} {v w : Value}

-- What is fixed while a program runs: arithmetic, the devices, and the values a type has.
structure World where
  arithmetic : Arithmetic
  device : String → Value
  allowed : Option ValueType → Value → Prop

structure Binding where
  name : String
  type : Option ValueType
  value : Value

-- The declarations in force, the innermost and latest first.
abbrev Stack := List Binding

namespace Stack

def binding? (σ : Stack) (name : String) : Option Binding := σ.find? (·.name = name)

-- A name that no declaration has is a device's.
def read (σ : Stack) (device : String → Value) (name : String) : Value :=
  ((σ.binding? name).map (·.value)).getD (device name)

def write (σ : Stack) (name : String) (v : Value) : Stack :=
  match σ with
  | [] => []
  | b :: rest => if b.name = name then { b with value := v } :: rest else b :: write rest name v

def leave (outer inner : Stack) : Stack := inner.drop (inner.length - outer.length)

end Stack

def Quantity.index? : Quantity → Option Nat
  | .finite q => if q.den = 1 ∧ 0 ≤ q.num then some q.num.toNat else none
  | _ => none

def Value.item? : Value → Option Nat → Option Value
  | .array items, some i => items[i]?
  | _, _ => none

def Value.index? : Value → Option Nat
  | .number q => q.index?
  | _ => none

def Payload.value? : Payload → Option Value
  | .number v => v.quantity?.map .number
  | .text s => some (.text s)
  | .truth b => some (.truth b)
  | _ => Option.none

namespace Term

def isText : Term → Bool
  | .missing => false
  | .node b _ _ =>
    match b.kind, b.payload with
    | .literal, .text _ => true
    | _, _ => false

section Evaluation

variable (W : World) (σ : Stack)

-- The value of a term. References are read by name, as the innermost declaration in force.
def value? : Term → Option Value
  | .missing => none
  | .node b first second =>
    match b.kind with
    | .literal => b.payload.value?
    | .varRef | .indexRef => some (σ.read W.device b.name)
    | .deviceRef => some (W.device b.name)
    | .element =>
      first.value?.bind fun v =>
        v.item? (match b.litIndex with
          | some i => some i.toNat
          | none => second.value?.bind Value.index?)
    | kind =>
      kind.operator?.bind fun op =>
        if op.isArithmetic then
          match first.value?, second.value? with
          | some v, some w => Value.combine? W.arithmetic op (v.beside first.isText w) (w.beside second.isText v)
          | _, _ => none
        else none

def order? (l r : Term) : Option Ordering :=
  match l.value? W σ, r.value? W σ with
  | some v, some w => (v.beside l.isText w).order? (w.beside r.isText v)
  | _, _ => none

def truth? : Term → Option Bool
  | .missing => none
  | .node b first second =>
    match b.kind with
    | .literal =>
      match b.payload with
      | .truth t => some t
      | _ => none
    | .not => first.truth?.map (!·)
    | .and =>
      match first.truth? with
      | some true => second.truth?
      | decided => decided
    | .or =>
      match first.truth? with
      | some false => second.truth?
      | decided => decided
    | .eq => (order? W σ first second).map (· == .eq)
    | .lt => (order? W σ first second).map (· == .lt)
    | .gt => (order? W σ first second).map (· == .gt)
    | .lte => (order? W σ first second).map (· != .gt)
    | .gte => (order? W σ first second).map (· != .lt)
    | _ => none

end Evaluation

theorem value_operator (W : World) (σ : Stack) {op : BinaryOp} (first second : Term)
    (operator : b.kind.operator? = some op) :
    (Term.node b first second).value? W σ =
      if op.isArithmetic then
        match first.value? W σ, second.value? W σ with
        | some v, some w => Value.combine? W.arithmetic op (v.beside first.isText w) (w.beside second.isText v)
        | _, _ => none
      else none := by
  cases kind : b.kind <;> simp only [kind, Kind.operator?, Option.some.injEq, reduceCtorEq] at operator
  all_goals
    subst operator
    simp [value?, kind, Kind.operator?]

def root? : Term → Option String
  | .missing => none
  | .node b first _ =>
    if b.kind = .element then first.root? else if b.isReference then some b.name else none

end Term

namespace Graph

-- The values that an assignment or a read may give: a number that is written outright, or any of the type.
def Gives (g : Graph) (W : World) (b : Block) (type : Option ValueType) (v : Value) : Prop :=
  match (if b.kind = .assign then g.slotBlock? b .value else none) with
  | some value =>
    match value.kind, value.number? with
    | .literal, some x => x.quantity?.map .number = some v
    | _, _ => W.allowed type v
  | none => W.allowed type v

inductive Takes (g : Graph) (W : World) (b : Block) : Stack → Exit → Stack → Prop
  | start (σ : Stack) (kind : b.kind = .start) : Takes g W b σ .next σ
  | event (σ : Stack) (kind : b.kind = .when)
      (fires : ∀ c, g.slotBlock? b .cond = some c → c.kind = .interrupt ∨ (g.slotTerm b .cond).truth? W σ = some true) :
      Takes g W b σ .body σ
  | declare (σ : Stack) (v : Value) (kind : b.kind = .variableDecl) (allowed : W.allowed b.type v) :
      Takes g W b σ .next (⟨b.name, b.type, v⟩ :: σ)
  | give (σ : Stack) (t : Block) (x : Binding) (v : Value) (kind : b.kind = .assign ∨ b.kind = .input)
      (target : g.slotBlock? b .var = some t) (reference : t.isReference = true)
      (bound : σ.binding? t.name = some x) (given : g.Gives W b x.type v) : Takes g W b σ .next (σ.write t.name v)
  | giveItem (σ : Stack) (t : Block) (name : String) (x : Binding) (old new : List Value)
      (kind : b.kind = .assign ∨ b.kind = .input) (target : g.slotBlock? b .var = some t)
      (element : t.kind = .element) (root : (g.slotTerm b .var).root? = some name)
      (bound : σ.binding? name = some x) (held : x.value = .array old) :
      Takes g W b σ .next (σ.write name (.array new))
  | print (σ : Stack) (kind : b.kind = .print) : Takes g W b σ .next σ
  | affirm (σ : Stack) (kind : b.kind = .ifThen ∨ b.kind = .ifElse)
      (holds : (g.slotTerm b .cond).truth? W σ = some true) : Takes g W b σ .body σ
  | deny (σ : Stack) (kind : b.kind = .ifThen ∨ b.kind = .ifElse)
      (fails : (g.slotTerm b .cond).truth? W σ = some false) : Takes g W b σ .otherwise σ
  | enter (σ : Stack) (kind : b.kind = .whileLoop) (holds : (g.slotTerm b .cond).truth? W σ = some true) :
      Takes g W b σ .body σ
  | stop (σ : Stack) (kind : b.kind = .whileLoop) (fails : (g.slotTerm b .cond).truth? W σ = some false) :
      Takes g W b σ .next σ
  | count (σ : Stack) (v : Value) (kind : b.kind = .forLoop) (allowed : W.allowed b.type v) :
      Takes g W b σ .body (⟨b.name, b.type, v⟩ :: σ)
  | finish (σ : Stack) (kind : b.kind = .forLoop) : Takes g W b σ .next σ

-- What can be observed of a run: its end, that it comes to a statement, or that it goes over an edge.
inductive Observed where
  | ended (σ : Stack)
  | reached (id : Nat) (σ : Stack)
  | crossed (point next : Nat) (σ : Stack)

def Observed.isEnd : Observed → Bool
  | .ended _ => true
  | _ => false

def Observed.stack : Observed → Stack
  | .ended σ => σ
  | .reached _ σ => σ
  | .crossed _ _ σ => σ

-- Runs from a statement on. When the body of a loop is through, the loop comes again; after a branch comes
-- the statement that follows it.
inductive Runs (g : Graph) (W : World) : Nat → Stack → Observed → Prop
  | ended (id : Nat) (σ : Stack) (none : g.block? id = none) : Runs g W id σ (.ended σ)
  | reached (id : Nat) (σ : Stack) : Runs g W id σ (.reached id σ)
  | crossed (id : Nat) (b : Block) (σ : Stack) (x : Exit) (τ : Stack) (found : g.block? id = some b)
      (takes : g.Takes W b σ x τ) : Runs g W id σ (.crossed id (b.exit x) τ)
  | onward (id : Nat) (b : Block) (σ τ : Stack) (o : Observed) (found : g.block? id = some b)
      (takes : g.Takes W b σ .next τ) (rest : Runs g W b.next τ o) : Runs g W id σ o
  | inside (id : Nat) (b : Block) (σ : Stack) (x : Exit) (τ : Stack) (o : Observed) (found : g.block? id = some b)
      (takes : g.Takes W b σ x τ) (within : Runs g W (b.exit x) τ o) (goes : o.isEnd = false) : Runs g W id σ o
  | joined (id : Nat) (b : Block) (σ : Stack) (x : Exit) (τ ρ : Stack) (o : Observed) (found : g.block? id = some b)
      (kind : b.kind = .ifThen ∨ b.kind = .ifElse) (takes : g.Takes W b σ x τ)
      (within : Runs g W (b.exit x) τ (.ended ρ)) (rest : Runs g W b.next (σ.leave ρ) o) : Runs g W id σ o
  | passed (id : Nat) (b : Block) (σ : Stack) (x : Exit) (τ ρ : Stack) (found : g.block? id = some b)
      (kind : b.kind = .ifThen ∨ b.kind = .ifElse) (takes : g.Takes W b σ x τ)
      (within : Runs g W (b.exit x) τ (.ended ρ)) : Runs g W id σ (.crossed id b.next (σ.leave ρ))
  | repeated (id : Nat) (b : Block) (σ τ ρ : Stack) (o : Observed) (found : g.block? id = some b)
      (kind : b.kind = .whileLoop ∨ b.kind = .forLoop) (takes : g.Takes W b σ .body τ)
      (within : Runs g W b.body τ (.ended ρ)) (rest : Runs g W id (σ.leave ρ) o) : Runs g W id σ o
  | handled (id : Nat) (b : Block) (σ τ ρ : Stack) (found : g.block? id = some b) (kind : b.kind = .when)
      (takes : g.Takes W b σ .body τ) (within : Runs g W b.body τ (.ended ρ)) : Runs g W id σ (.ended (σ.leave ρ))

end Graph

namespace Graph

variable (g : Graph) (W : World) (σ : Stack)

def Apart (σ : Stack) : Prop := ∀ x ∈ σ, g.device? x.name = none

theorem Apart.read_device (apart : g.Apart σ) {d : Device} (found : g.device? name = some d) :
    d.name = name ∧ σ.read W.device d.name = W.device name := by
  have same : d.name = name := by simpa using List.find?_some found
  refine ⟨same, ?_⟩
  have unbound : σ.binding? name = none := by
    refine List.find?_eq_none.mpr fun x mem => ?_
    have := apart x mem
    intro named
    simp_all
  rw [same, Stack.read, unbound, Option.map_none, Option.getD_none]

structure Means (e : Expr) (t : Term) : Prop where
  text : e.isText = t.isText
  value : e.value? W.arithmetic (σ.read W.device) = t.value? W σ
  truth : e.truth? W.arithmetic (σ.read W.device) = t.truth? W σ

variable {e : Expr} {first second : Term}

theorem leaf_means (apart : g.Apart σ) (first second : Term) (composed : g.composeLeaf b = .ok e) :
    Means W σ e (.node b first second) := by
  unfold composeLeaf at composed
  split at composed
  · next literal =>
      split at composed
      · next payload =>
          cases composed
          constructor <;> simp [Expr.isText, Term.isText, Expr.value?, Term.value?, Expr.truth?, Term.truth?, literal,
            payload, Payload.value?]
      · next payload =>
          cases composed
          constructor <;> simp [Expr.isText, Term.isText, Expr.value?, Term.value?, Expr.truth?, Term.truth?, literal,
            payload, Payload.value?]
      · next payload =>
          cases composed
          constructor <;> simp [Expr.isText, Term.isText, Expr.value?, Term.value?, Expr.truth?, Term.truth?, literal,
            payload, Payload.value?]
      · cases composed
  · next kind =>
      cases composed
      constructor <;> simp [Expr.isText, Term.isText, Expr.value?, Term.value?, Expr.truth?, Term.truth?, kind]
  · next kind =>
      cases composed
      constructor <;> simp [Expr.isText, Term.isText, Expr.value?, Term.value?, Expr.truth?, Term.truth?, kind]
  · next kind =>
      split at composed
      · next d found =>
          cases composed
          obtain ⟨same, value⟩ := apart.read_device g W σ found
          constructor <;>
            simp [Expr.isText, Term.isText, Expr.value?, Term.value?, Expr.truth?, Term.truth?, kind, value]
      · cases composed
  · cases composed

theorem compose_cases (composed : g.composeTerm (.node b first second) = .ok e) :
    (∃ l, b.kind = .not ∧ g.composeTerm first = .ok l ∧ e = .neg l) ∨
      (∃ l r, g.composeTerm first = .ok l ∧ g.composeTerm second = .ok r ∧
        (b.kind = .lte ∧ e = .or (.lt l r) (.eq l r) ∨ b.kind = .gte ∧ e = .or (.gt l r) (.eq l r) ∨
          ∃ op, b.kind.operator? = some op ∧ e = .binary op l r)) ∨
      g.composeLeaf b = .ok e := by
  have unwrap : ∀ {t : Term} {x : Expr}, (g.composeTerm t).mapError (·.under b.id) = .ok x →
      g.composeTerm t = .ok x := by
    intro t x wrapped
    cases found : g.composeTerm t with
    | error fault => simp [found, Except.mapError] at wrapped
    | ok y => simpa [found, Except.mapError] using wrapped
  have pair : ∀ (f : Expr → Expr → Expr),
      (((g.composeTerm first).mapError (·.under b.id)).bind fun l =>
        ((g.composeTerm second).mapError (·.under b.id)).map (f l)) = Except.ok e →
      ∃ l r, g.composeTerm first = .ok l ∧ g.composeTerm second = .ok r ∧ e = f l r := by
    intro f both
    cases left : (g.composeTerm first).mapError (·.under b.id) with
    | error fault => simp [left, Except.bind] at both
    | ok l =>
      cases right : (g.composeTerm second).mapError (·.under b.id) with
      | error fault => simp [left, right, Except.bind, Except.map] at both
      | ok r =>
        simp only [left, right, Except.bind, Except.map, Except.ok.injEq] at both
        exact ⟨l, r, unwrap left, unwrap right, both.symm⟩
  rw [composeTerm] at composed
  split at composed
  · next kind =>
      cases left : (g.composeTerm first).mapError (·.under b.id) with
      | error fault => simp [left, Except.map] at composed
      | ok l =>
        simp only [left, Except.map, Except.ok.injEq] at composed
        exact Or.inl ⟨l, kind, unwrap left, composed.symm⟩
  · next kind =>
      obtain ⟨l, r, left, right, same⟩ := pair _ composed
      exact Or.inr (Or.inl ⟨l, r, left, right, Or.inl ⟨kind, same⟩⟩)
  · next kind =>
      obtain ⟨l, r, left, right, same⟩ := pair _ composed
      exact Or.inr (Or.inl ⟨l, r, left, right, Or.inr (Or.inl ⟨kind, same⟩)⟩)
  · split at composed
    · next op operator =>
        obtain ⟨l, r, left, right, same⟩ := pair _ composed
        exact Or.inr (Or.inl ⟨l, r, left, right, Or.inr (Or.inr ⟨op, operator, same⟩)⟩)
    · exact Or.inr (Or.inr composed)

theorem order_means (left : Means W σ l first) (right : Means W σ r second) :
    l.order? W.arithmetic (σ.read W.device) r = first.order? W σ second := by
  cases value : first.value? W σ <;> cases value' : second.value? W σ <;>
    simp only [Expr.order?, Term.order?, left.value, right.value, left.text, right.text, value, value']

theorem operator_means {op : BinaryOp} (operator : b.kind.operator? = some op) (left : Means W σ l first)
    (right : Means W σ r second) : Means W σ (.binary op l r) (.node b first second) := by
  have ordered := order_means W σ left right
  have value : (Expr.binary op l r).value? W.arithmetic (σ.read W.device) = (Term.node b first second).value? W σ := by
    rw [Term.value_operator W σ first second operator]
    cases value : first.value? W σ <;> cases value' : second.value? W σ <;>
      simp only [Expr.value?, left.value, right.value, left.text, right.text, value, value']
  cases kind : b.kind <;> simp only [kind, Kind.operator?, Option.some.injEq, reduceCtorEq] at operator
  all_goals
    subst operator
    refine ⟨by simp [Expr.isText, Term.isText, kind], value, ?_⟩
    -- a conjunction and a disjunction go on by the truth of their first part
    rcases truth : first.truth? W σ with _ | _ | _ <;>
      simp only [Expr.truth?, Term.truth?, kind, BinaryOp.ordering?, Option.bind_some, Option.bind_none, left.truth,
        right.truth, ordered, truth]

theorem compose_means (apart : g.Apart σ) {t : Term} (e : Expr) (composed : g.composeTerm t = .ok e) :
    Means W σ e t := by
  induction t generalizing e with
  | missing => cases composed
  | node b first second hyp₁ hyp₂ =>
    rcases compose_cases g composed with
      ⟨l, kind, left, rfl⟩ | ⟨l, r, left, right, ⟨kind, rfl⟩ | ⟨kind, rfl⟩ | ⟨op, operator, rfl⟩⟩ | leaf
    · have inner := hyp₁ l left
      constructor
      · simp [Expr.isText, Term.isText, kind]
      · simp [Expr.value?, Term.value?, kind, Kind.operator?]
      · simp [Expr.truth?, Term.truth?, kind, inner.truth]
    · have ordered := order_means W σ (hyp₁ l left) (hyp₂ r right)
      constructor
      · simp [Expr.isText, Term.isText, kind]
      · simp [Expr.value?, Term.value?, kind, Kind.operator?, BinaryOp.isArithmetic]
      · simp only [Expr.truth?, Term.truth?, kind, BinaryOp.ordering?, Option.bind_some, ordered]
        cases first.order? W σ second with
        | none => rfl
        | some o => cases o <;> rfl
    · have ordered := order_means W σ (hyp₁ l left) (hyp₂ r right)
      constructor
      · simp [Expr.isText, Term.isText, kind]
      · simp [Expr.value?, Term.value?, kind, Kind.operator?, BinaryOp.isArithmetic]
      · simp only [Expr.truth?, Term.truth?, kind, BinaryOp.ordering?, Option.bind_some, ordered]
        cases first.order? W σ second with
        | none => rfl
        | some o => cases o <;> rfl
    · exact operator_means W σ operator (hyp₁ l left) (hyp₂ r right)
    · exact leaf_means g W σ apart first second leaf

end Graph

-- Conditions do not tell arrays apart.
def Value.Alike (v w : Value) : Prop := v = w ∨ ∃ xs ys, v = .array xs ∧ w = .array ys

namespace Value

theorem Alike.beside (literal : Bool) {v' w' : Value} (first : Alike v v') (second : Alike w w') :
    Alike (v.beside literal w) (v'.beside literal w') := by
  rcases first with rfl | ⟨xs, ys, rfl, rfl⟩
  · rcases second with rfl | ⟨xs, ys, rfl, rfl⟩
    · exact Or.inl rfl
    · cases literal <;> cases v <;> exact Or.inl rfl
  · cases literal <;> exact Or.inr ⟨xs, ys, rfl, rfl⟩

theorem Alike.order {v' w' : Value} (first : Alike v v') (second : Alike w w') : v.order? w = v'.order? w' := by
  rcases first with rfl | ⟨xs, ys, rfl, rfl⟩
  · rcases second with rfl | ⟨xs, ys, rfl, rfl⟩
    · rfl
    · cases v <;> rfl
  · rfl

theorem Alike.combine (A : Arithmetic) (op : BinaryOp) {v' w' : Value} (first : Alike v v') (second : Alike w w') :
    combine? A op v w = combine? A op v' w' := by
  rcases first with rfl | ⟨xs, ys, rfl, rfl⟩
  · rcases second with rfl | ⟨xs, ys, rfl, rfl⟩
    · rfl
    · cases v <;> rfl
  · rfl

end Value

namespace Expr

variable (A : Arithmetic) (env env' : String → Value)

theorem value_alike (e : Expr) (alike : ∀ r ∈ e.occurrences, (env r.name).Alike (env' r.name)) :
    Option.Rel Value.Alike (e.value? A env) (e.value? A env') := by
  match e with
  | .num x =>
    rw [value?, value?]
    cases x.quantity? with
    | none => exact Option.Rel.none
    | some q => exact Option.Rel.some (Or.inl rfl)
  | .text s => exact Option.Rel.some (Or.inl rfl)
  | .ref r => exact Option.Rel.some (alike r (by simp [occurrences]))
  | .truth b => exact Option.Rel.some (Or.inl rfl)
  | .among s => exact Option.Rel.none
  | .neg e => exact Option.Rel.none
  | .binary op l r =>
    have left := value_alike l fun x mem => alike x (by simp [occurrences, mem])
    have right := value_alike r fun x mem => alike x (by simp [occurrences, mem])
    rw [value?, value?]
    generalize l.value? A env = v, l.value? A env' = v' at left ⊢
    generalize r.value? A env = w, r.value? A env' = w' at right ⊢
    split_ifs
    · cases left with
      | none => exact Option.Rel.none
      | some first =>
        cases right with
        | none => exact Option.Rel.none
        | some second =>
          have same := Value.Alike.combine A op (first.beside l.isText second)
            (second.beside r.isText first)
          dsimp only
          rw [same]
          cases Value.combine? A op _ _ with
          | none => exact Option.Rel.none
          | some v => exact Option.Rel.some (Or.inl rfl)
    · exact Option.Rel.none

theorem order_alike (alike : ∀ x ∈ l.occurrences ++ r.occurrences, (env x.name).Alike (env' x.name)) :
    l.order? A env r = l.order? A env' r := by
  have left := value_alike A env env' l fun x mem => alike x (by simp [mem])
  have right := value_alike A env env' r fun x mem => alike x (by simp [mem])
  rw [order?, order?]
  generalize l.value? A env = v, l.value? A env' = v' at left ⊢
  generalize r.value? A env = w, r.value? A env' = w' at right ⊢
  cases left with
  | none => rfl
  | some first =>
    cases right with
    | none => rfl
    | some second =>
      exact Value.Alike.order (first.beside l.isText second)
        (second.beside r.isText first)

theorem truth_alike (e : Expr) (alike : ∀ r ∈ e.occurrences, (env r.name).Alike (env' r.name)) :
    e.truth? A env = e.truth? A env' := by
  match e with
  | .num x => rfl
  | .text s => rfl
  | .ref r => rfl
  | .truth b => rfl
  | .among s => rfl
  | .neg e => rw [truth?, truth?, truth_alike e alike]
  | .binary op l r =>
    have left := truth_alike l fun x mem => alike x (by simp [occurrences, mem])
    have right := truth_alike r fun x mem => alike x (by simp [occurrences, mem])
    have ordered := order_alike A env env' alike
    cases op <;> simp only [truth?, left, right, ordered]

end Expr

namespace Value

theorem Alike.refl : v.Alike v := Or.inl rfl

theorem Alike.trans {u : Value} (first : u.Alike v) (second : v.Alike w) : u.Alike w := by
  rcases first with rfl | ⟨xs, ys, rfl, rfl⟩
  · exact second
  · rcases second with rfl | ⟨ys', zs, -, rfl⟩
    · exact Or.inr ⟨xs, ys, rfl, rfl⟩
    · exact Or.inr ⟨xs, zs, rfl, rfl⟩

end Value

namespace Stack

-- The same declarations, with other values at most for the given names and in arrays.
def Differs (names : String → Prop) (σ τ : Stack) : Prop :=
  List.Forall₂ (fun x y => y.name = x.name ∧ y.type = x.type ∧ (names x.name ∨ x.value.Alike y.value)) σ τ

variable (names : String → Prop)

theorem Differs.refl (σ : Stack) : Differs names σ σ := by
  unfold Differs
  exact List.forall₂_same.mpr fun x _ => ⟨rfl, rfl, Or.inr (Value.Alike.refl)⟩

theorem Differs.trans (σ τ ρ : Stack) (first : Differs names σ τ) (second : Differs names τ ρ) :
    Differs names σ ρ := by
  unfold Differs at first second ⊢
  induction first generalizing ρ with
  | nil => exact second
  | cons step rest hyp =>
    cases second with
    | cons step' rest' =>
      refine List.Forall₂.cons ⟨step'.1.trans step.1, step'.2.1.trans step.2.1, ?_⟩ (hyp _ rest')
      rcases step.2.2 with named | alike
      · exact Or.inl named
      · rcases step'.2.2 with named | alike'
        · rw [step.1] at named
          exact Or.inl named
        · exact Or.inr (alike.trans alike')

variable {σ τ : Stack} {x : Binding}

theorem Differs.mono (wider : String → Prop) (differs : Differs names σ τ) (within : ∀ n, names n → wider n) :
    Differs wider σ τ :=
  List.Forall₂.imp (fun _ _ ⟨name, type, value⟩ => ⟨name, type, value.imp_left (within _)⟩) differs

variable (device : String → Value)

theorem Differs.read (differs : Differs names σ τ) (other : ¬ names name) :
    (σ.read device name).Alike (τ.read device name) := by
  unfold Differs at differs
  induction differs with
  | nil => exact Value.Alike.refl
  | @cons x y σ τ step rest hyp =>
    by_cases same : x.name = name
    · have same' : y.name = name := step.1.trans same
      simp only [Stack.read, binding?, List.find?_cons, same, same', decide_true, Option.map_some, Option.getD_some]
      exact step.2.2.resolve_left (by rwa [same])
    · have other' : y.name ≠ name := by rwa [step.1]
      simpa only [Stack.read, binding?, List.find?_cons, same, other', decide_false] using hyp

theorem differs_write (σ : Stack) (name : String) (v : Value)
    (changed : names name ∨ ∀ x, σ.binding? name = some x → x.value.Alike v) : Differs names σ (σ.write name v) := by
  unfold Differs
  induction σ with
  | nil => exact List.Forall₂.nil
  | cons x rest hyp =>
    rw [write]
    by_cases same : x.name = name
    · rw [if_pos same]
      refine List.Forall₂.cons ⟨rfl, rfl, ?_⟩ (Differs.refl names rest)
      rw [same]
      exact changed.imp_right fun alike => alike x (by simp [binding?, same])
    · rw [if_neg same]
      refine List.Forall₂.cons ⟨rfl, rfl, Or.inr (Value.Alike.refl)⟩ (hyp (changed.imp_right fun alike y found => ?_))
      exact alike y (by simpa [binding?, same] using found)

theorem read_push (σ : Stack) (other : x.name ≠ name) :
    read (x :: σ) device name = σ.read device name := by
  simp [read, binding?, other]

theorem read_write_self (v : Value) (bound : σ.binding? name = some x) :
    (σ.write name v).read device name = v := by
  induction σ with
  | nil => simp [binding?] at bound
  | cons y rest hyp =>
    rw [write]
    by_cases same : y.name = name
    · rw [if_pos same]
      simp [read, binding?, same]
    · rw [if_neg same, read_push device _ same]
      exact hyp (by simpa [binding?, same] using bound)

def Extends (σ τ : Stack) : Prop := ∃ pushed σ', τ = pushed ++ σ' ∧ Differs names σ σ'

theorem Extends.trans {ρ : Stack} (first : Extends names σ τ) (second : Extends names τ ρ) : Extends names σ ρ := by
  obtain ⟨pushed, σ', rfl, differs⟩ := first
  obtain ⟨pushed', τ', rfl, differs'⟩ := second
  have below := List.forall₂_drop pushed.length differs'
  rw [List.drop_left] at below
  refine ⟨pushed' ++ τ'.take pushed.length, τ'.drop pushed.length, ?_, differs.trans names _ _ _ below⟩
  rw [List.append_assoc, List.take_append_drop]

theorem Extends.mono (wider : String → Prop) (extends_ : Extends names σ τ) (within : ∀ n, names n → wider n) :
    Extends wider σ τ := by
  obtain ⟨pushed, σ', same, differs⟩ := extends_
  exact ⟨pushed, σ', same, differs.mono names wider within⟩

theorem Extends.leave (σ τ : Stack) (extends_ : Extends names σ τ) : Differs names σ (σ.leave τ) := by
  obtain ⟨pushed, σ', rfl, differs⟩ := extends_
  have length := differs.length_eq
  have same : σ.leave (pushed ++ σ') = σ' := by
    rw [Stack.leave, List.length_append, length, Nat.add_sub_cancel, List.drop_left]
  rwa [same]

end Stack

namespace Graph

inductive Changes (g : Graph) : Nat → String → Prop
  | here (id : Nat) (b t : Block) (found : g.block? id = some b) (kind : b.kind = .assign ∨ b.kind = .input)
      (target : g.slotBlock? b .var = some t) (reference : t.isReference = true) : Changes g id t.name
  | beyond (id : Nat) (b : Block) (x : Exit) (name : String) (found : g.block? id = some b)
      (rest : Changes g (b.exit x) name) : Changes g id name

variable (g : Graph) (W : World) {id : Nat} {σ τ : Stack} {o : Observed}

theorem Takes.extends {x : Exit} (found : g.block? id = some b) (takes : g.Takes W b σ x τ) :
    Stack.Extends (g.Changes id) σ τ := by
  have same : ∀ σ : Stack, Stack.Extends (g.Changes id) σ σ := fun σ => ⟨[], σ, rfl, Stack.Differs.refl _ σ⟩
  cases takes with
  | start | event | print | affirm | deny | enter | stop | finish => exact same _
  | declare v | count v => exact ⟨[_], σ, rfl, Stack.Differs.refl _ σ⟩
  | give t x v kind target reference bound given =>
    have changed := Changes.here id b t found kind target reference
    exact ⟨[], _, rfl, Stack.differs_write _ σ t.name v (Or.inl changed)⟩
  | giveItem t name x old new kind target element root bound held =>
    refine ⟨[], _, rfl, Stack.differs_write _ σ name _ (Or.inr fun y found => ?_)⟩
    rw [bound] at found
    cases found
    exact Or.inr ⟨old, new, held, rfl⟩

theorem Runs.extends (τ : Stack) (run : g.Runs W id σ o) (ended : o = .ended τ) : Stack.Extends (g.Changes id) σ τ := by
  induction run generalizing τ with
  | ended id σ none =>
    cases ended
    exact ⟨[], _, rfl, Stack.Differs.refl _ _⟩
  | reached | crossed | passed => cases ended
  | inside id b σ x ρ o found takes within goes => simp [ended, Observed.isEnd] at goes
  | onward id b σ ρ o found takes rest hyp =>
    have after := (hyp τ ended).mono _ (g.Changes id) fun n changes => .beyond id b .next n found changes
    exact (takes.extends g W found).trans _ after
  | joined id b σ x ρ μ o found kind takes within rest hyp hyp' =>
    have body := (hyp μ rfl).mono _ (g.Changes id) fun n changes => .beyond id b x n found changes
    have through := ((takes.extends g W found).trans _ body).leave
    have after := (hyp' τ ended).mono _ (g.Changes id) fun n changes => .beyond id b .next n found changes
    exact Stack.Extends.trans _ ⟨[], _, rfl, through⟩ after
  | repeated id b σ ρ μ o found kind takes within rest hyp hyp' =>
    have body := (hyp μ rfl).mono _ (g.Changes id) fun n changes => .beyond id b .body n found changes
    have through := ((takes.extends g W found).trans _ body).leave
    exact Stack.Extends.trans _ ⟨[], _, rfl, through⟩ (hyp' τ ended)
  | handled id b σ ρ μ found kind takes within hyp =>
    cases ended
    have body := (hyp μ rfl).mono _ (g.Changes id) fun n changes => .beyond id b .body n found changes
    exact ⟨[], _, rfl, ((takes.extends g W found).trans _ body).leave⟩

theorem Runs.arrives {root : Nat} (run : g.Runs W root σ o) (id next : Nat) (crosses : o = .crossed id next τ) :
    g.Runs W root σ (.reached next τ) := by
  induction run with
  | ended | reached | handled => cases crosses
  | crossed id b σ x τ found takes =>
    cases crosses
    exact .inside id b σ x τ _ found takes (.reached _ τ) rfl
  | onward id b σ τ o found takes rest hyp => exact .onward id b σ τ _ found takes (hyp crosses)
  | inside id b σ x τ o found takes within goes hyp => exact .inside id b σ x τ _ found takes (hyp crosses) rfl
  | joined id b σ x τ ρ o found kind takes within rest _ hyp =>
    exact .joined id b σ x τ ρ _ found kind takes within (hyp crosses)
  | passed id b σ x τ ρ found kind takes within _ =>
    cases crosses
    exact .joined id b σ x τ ρ _ found kind takes within (.reached _ _)
  | repeated id b σ τ ρ o found kind takes within rest _ hyp =>
    exact .repeated id b σ τ ρ _ found kind takes within (hyp crosses)

theorem Runs.all (P : Binding → Prop)
    (step : ∀ id b σ x τ, g.block? id = some b → g.Takes W b σ x τ → (∀ y ∈ σ, P y) → ∀ y ∈ τ, P y)
    (id : Nat) (σ : Stack) (o : Observed) (run : g.Runs W id σ o) (all : ∀ y ∈ σ, P y) : ∀ y ∈ o.stack, P y := by
  have left : ∀ σ τ : Stack, (∀ y ∈ τ, P y) → ∀ y ∈ σ.leave τ, P y := fun σ τ inner y mem =>
    inner y (List.mem_of_mem_drop mem)
  induction run with
  | ended id σ none => exact all
  | reached id σ => exact all
  | crossed id b σ x τ found takes => exact step id b σ x τ found takes all
  | onward id b σ τ o found takes rest hyp => exact hyp (step id b σ .next τ found takes all)
  | inside id b σ x τ o found takes within goes hyp => exact hyp (step id b σ x τ found takes all)
  | joined id b σ x τ ρ o found kind takes within rest hyp hyp' =>
    exact hyp' (left σ ρ (hyp (step id b σ x τ found takes all)))
  | passed id b σ x τ ρ found kind takes within hyp => exact left σ ρ (hyp (step id b σ x τ found takes all))
  | repeated id b σ τ ρ o found kind takes within rest hyp hyp' =>
    exact hyp' (left σ ρ (hyp (step id b σ .body τ found takes all)))
  | handled id b σ τ ρ found kind takes within hyp => exact left σ ρ (hyp (step id b σ .body τ found takes all))

end Graph

end Blockwork
