import Blockwork.Proofs.AnalysisSound
import Blockwork.Proofs.PolicyRuns
import Blockwork.Proofs.Settled

set_option autoImplicit false

namespace Blockwork

open List Prover Quantity

def Quantity.IsSmall (q : Quantity) : Prop := ∃ n : ℤ, q = .finite n ∧ |n| ≤ 2 ^ 31

theorem Quantity.IsSmall.whole (q : Quantity) (small : q.IsSmall) : q.IsWhole := by
  obtain ⟨n, rfl, bound⟩ := small
  refine ⟨n, rfl, ?_⟩
  rw [maxEnumeration]
  omega

namespace ValueType

def Has (type : ValueType) (n : ℤ) : Prop :=
  ∃ lo hi, Prover.boundsOf? (some type) = some (lo, hi) ∧ lo.AtMost (.finite n) ∧ hi.AtLeast (.finite n)

def IsSmall (type : ValueType) : Prop := type = .byte ∨ type = .int

theorem has_between (type : ValueType) (n lo hi : ℤ)
    (bounds : boundsOf? (some type) = some (Number.ofInt lo, Number.ofInt hi)) (small : |lo| ≤ 2 ^ 53)
    (small' : |hi| ≤ 2 ^ 53) : type.Has n ↔ lo ≤ n ∧ n ≤ hi := by
  have bottom := congrArg Number.quantity? (Number.exact_int lo small)
  have top := congrArg Number.quantity? (Number.exact_int hi small')
  unfold Has
  rw [bounds]
  constructor
  · rintro ⟨_, _, same, above, below⟩
    cases same
    have above := above _ bottom
    have below := below _ top
    rw [finite_le_finite] at above below
    exact_mod_cast And.intro above below
  · rintro ⟨above, below⟩
    refine ⟨_, _, rfl, fun p defined => ?_, fun p defined => ?_⟩
    · cases bottom.symm.trans defined
      exact (finite_le_finite).mpr (by exact_mod_cast above)
    · cases top.symm.trans defined
      exact (finite_le_finite).mpr (by exact_mod_cast below)

theorem byte_has (n : ℤ) : ValueType.byte.Has n ↔ -128 ≤ n ∧ n ≤ 127 :=
  has_between .byte n (-128) 127 rfl (by norm_num) (by norm_num)

theorem int_has (n : ℤ) : ValueType.int.Has n ↔ -2147483648 ≤ n ∧ n ≤ 2147483647 :=
  has_between .int n (-2147483648) 2147483647 rfl (by norm_num) (by norm_num)

theorem has_small (type : ValueType) {n : ℤ} (small : type.IsSmall) (has : type.Has n) : (finite n).IsSmall := by
  refine ⟨n, rfl, abs_le.mpr ?_⟩
  rcases small with rfl | rfl
  · obtain ⟨above, below⟩ := (byte_has n).mp has
    omega
  · obtain ⟨above, below⟩ := (int_has n).mp has
    omega

end ValueType

-- The values of a type whose numbers are integers.
def Value.OfType (type : Option ValueType) (v : Value) : Prop :=
  match type with
  | some t => if t.isNumeric then ∃ n : ℤ, v = .number (.finite n) ∧ t.Has n else ∀ q, v ≠ .number q
  | none => ∀ q, v ≠ .number q

structure Graph.IntegerProgram (g : Graph) : Prop where
  declared : ∀ id b type, g.block? id = some b → b.kind = .variableDecl ∨ b.kind = .forLoop → b.type = some type →
    type.isNumeric = true → type.IsSmall
  devices : ∀ d ∈ g.devices, ∀ type, d.type = some type → type.isNumeric = true → type.IsSmall
  literals : ∀ id b x, g.block? id = some b → b.kind = .literal → b.number? = some x →
    ∃ type, b.type = some type ∧ type.IsSmall ∧ ∃ n : ℤ, x.quantity? = some (.finite n) ∧ type.Has n

structure World.Typed (W : World) (g : Graph) : Prop where
  allowed : ∀ type v, W.allowed type v → v.OfType type
  device : ∀ name, (W.device name).OfType ((g.device? name).bind (·.type))

def BinaryOp.result (op : BinaryOp) (m n : ℤ) : ℤ := if op = .sub then m - n else m + n

namespace Term

def subterms : Term → List Term
  | .missing => []
  | .node b first second => .node b first second :: (first.subterms ++ second.subterms)

-- A number, a name, or a sum or difference of such.
def IsSum : Term → Prop
  | .missing => False
  | .node b first second =>
    match b.kind with
    | .literal => b.number?.isSome = true
    | .varRef | .indexRef | .deviceRef => True
    | .add | .sub => first.IsSum ∧ second.IsSum
    | _ => False

end Term

structure World.ReadsSmall (W : World) (σ : Stack) : Prop where
  names : ∀ name q, σ.read W.device name = .number q → q.IsSmall
  devices : ∀ name q, W.device name = .number q → q.IsSmall

-- Arithmetic is exact: sums and differences are those of the integers, and numbers can hold all that a program asks
-- for.
structure World.ExactFor (W : World) (g : Graph) : Prop where
  sums : ∀ op, op = .add ∨ op = .sub → ∀ (m n : ℤ) (r : Quantity),
    W.arithmetic op (.finite m) (.finite n) = some r → r = .finite (op.result m n)
  held : ∀ id, ∀ t ∈ (g.term id).subterms, t.IsSum → ∀ σ, W.ReadsSmall σ →
    ∀ q, t.value? W σ = some (.number q) → q.IsWhole

theorem Value.OfType.small {type : Option ValueType} {v : Value} (q : Quantity) (typed : v.OfType type)
    (types : ∀ t, type = some t → t.isNumeric = true → t.IsSmall) (number : v = .number q) : q.IsSmall := by
  subst number
  cases type with
  | none => exact absurd rfl (typed q)
  | some t =>
    unfold Value.OfType at typed
    dsimp only at typed
    by_cases numeric : t.isNumeric = true
    · rw [if_pos numeric] at typed
      obtain ⟨n, same, has⟩ := typed
      cases same
      exact t.has_small (types t rfl numeric) has
    · rw [if_neg numeric] at typed
      exact absurd rfl (typed q)

namespace Graph

variable (g : Graph) (W : World)

theorem IntegerProgram.literal_small (integers : g.IntegerProgram) {id : Nat} {b : Block} {x : Number} {q : Quantity}
    (found : g.block? id = some b) (kind : b.kind = .literal) (number : b.number? = some x)
    (defined : x.quantity? = some q) : q.IsSmall := by
  obtain ⟨type, -, small, n, value, has⟩ := integers.literals id b x found kind number
  cases value.symm.trans defined
  exact type.has_small small has

def Holding (x : Binding) : Prop :=
  (∀ t, x.type = some t → t.isNumeric = true → t.IsSmall) ∧ ∀ q, x.value = .number q → q.IsSmall

theorem gives_small (integers : g.IntegerProgram) (typed : W.Typed g) {b : Block} {x : Binding} {v : Value}
    (q : Quantity) (small : ∀ t, x.type = some t → t.isNumeric = true → t.IsSmall) (given : g.Gives W b x.type v)
    (number : v = .number q) : q.IsSmall := by
  have free : W.allowed x.type v → q.IsSmall := fun allowed => (typed.allowed _ v allowed).small q small number
  unfold Gives at given
  split at given
  · next value found =>
      split_ifs at found
      split at given
      · next x kind written =>
          obtain ⟨p, defined, same⟩ := Option.map_eq_some_iff.mp given
          cases same.trans number
          exact integers.literal_small g found kind written defined
      · exact free given
  · exact free given

theorem takes_holding (integers : g.IntegerProgram) (typed : W.Typed g) (id : Nat) (b : Block) (σ : Stack) (x : Exit)
    (τ : Stack) (found : g.block? id = some b) (takes : g.Takes W b σ x τ) (holding : ∀ y ∈ σ, Holding y) :
    ∀ y ∈ τ, Holding y := by
  have fresh : ∀ v, b.kind = .variableDecl ∨ b.kind = .forLoop → W.allowed b.type v →
      ∀ y ∈ (⟨b.name, b.type, v⟩ :: σ : Stack), Holding y := by
    intro v kind allowed
    have small := fun t => integers.declared id b t found kind
    exact forall_mem_cons.mpr ⟨⟨small, fun q => (typed.allowed _ v allowed).small q small⟩, holding⟩
  have written : ∀ name v, (∀ z ∈ σ, σ.binding? name = some z → ∀ q, v = .number q → q.IsSmall) →
      ∀ y ∈ σ.write name v, Holding y := by
    intro name v whole y mem
    obtain ⟨z, inside, rfl | ⟨bound, rfl⟩⟩ := mem_write mem
    · exact holding y inside
    · exact ⟨(holding z inside).1, whole z inside bound⟩
  cases takes with
  | start | event | print | affirm | deny | enter | stop | finish => exact holding
  | declare v kind allowed => exact fresh v (.inl kind) allowed
  | count v kind allowed => exact fresh v (.inr kind) allowed
  | give t y v kind target reference bound given =>
    refine written t.name v fun z inside same q => ?_
    cases bound.symm.trans same
    exact gives_small g W integers typed q (holding _ inside).1 given
  | giveItem => exact written _ _ fun _ _ _ _ same => by cases same

theorem reads_small (integers : g.IntegerProgram) (typed : W.Typed g) {root id : Nat} {σ : Stack}
    (run : g.Runs W root [] (.reached id σ)) : W.ReadsSmall σ := by
  have holding : ∀ y ∈ σ, Holding y :=
    Runs.all g W Holding (takes_holding g W integers typed) root [] _ run fun y absent => by cases absent
  have devices : ∀ name q, W.device name = .number q → q.IsSmall := by
    intro name q read
    refine (typed.device name).small q (fun t found numeric => ?_) read
    obtain ⟨d, device, type⟩ := Option.bind_eq_some_iff.mp found
    exact integers.devices d (mem_of_find?_eq_some device) t type numeric
  refine ⟨fun name q read => ?_, devices⟩
  unfold Stack.read at read
  cases bound : σ.binding? name with
  | some x =>
    rw [bound] at read
    exact (holding x (mem_of_find?_eq_some bound)).2 q read
  | none =>
    rw [bound] at read
    exact devices name q read

theorem reached_apart (names : g.NamesApart) {root id : Nat} {σ : Stack} (run : g.Runs W root [] (.reached id σ)) :
    g.Apart σ :=
  Runs.all g W (fun y => g.device? y.name = none) (fun id b σ x τ found takes =>
    takes_apart g W names found takes) root [] _ run fun y absent => by cases absent

end Graph

namespace Expr

def isSum : Expr → Bool
  | .num _ | .ref _ => true
  | .binary op l r => (op = .add || op = .sub) && l.isSum && r.isSum
  | _ => false

-- The numbers in an expression, and the sums and differences of numbers and names.
def sums : Expr → List Expr
  | .num x => [.num x]
  | .neg e => e.sums
  | .binary op l r => (if (Expr.binary op l r).isSum then [.binary op l r] else []) ++ (l.sums ++ r.sums)
  | _ => []

theorem sums_left (op : BinaryOp) {l s : Expr} (r : Expr) (inside : s ∈ l.sums) : s ∈ (Expr.binary op l r).sums := by
  simp [sums, inside]

theorem sums_right (op : BinaryOp) {r s : Expr} (l : Expr) (inside : s ∈ r.sums) : s ∈ (Expr.binary op l r).sums := by
  simp [sums, inside]

theorem sums_sides (e t : Expr) (side : t ∈ e.sides) {s : Expr} (inside : s ∈ t.sums) : s ∈ e.sums := by
  cases e with
  | neg e => exact sums_sides e t side inside
  | binary op l r =>
    cases op
    case and | or =>
      rcases mem_append.mp side with first | second
      · exact sums_left _ r (sums_sides l t first inside)
      · exact sums_right _ l (sums_sides r t second inside)
    all_goals
      rcases mem_pair.mp side with rfl | rfl
      · exact sums_left _ _ inside
      · exact sums_right _ _ inside
  | _ => cases side

theorem sums_parts (e s : Expr) : s ∈ e.sums ↔ ∃ p ∈ e.parts, s ∈ p.sums := by
  match e with
  | .num y | .text s | .ref r | .truth b | .among s | .neg e => simp [parts, collate]
  | .binary op l r =>
    by_cases conjunction : op = .and
    · subst conjunction
      rw [parts_and, sums, isSum, mem_append, mem_append, sums_parts l s, sums_parts r s]
      simp only [mem_append, or_and_right, exists_or, reduceCtorEq, decide_false, Bool.or_false, Bool.false_and,
        Bool.false_eq_true, if_false, not_mem_nil, false_or]
    · simp [parts, collate, conjunction]

end Expr

def Constraints.Sums (Q : Expr → Prop) (c : Constraints) : Prop :=
  ∀ name k, c.get? name = some k → ∀ s ∈ k.expr.sums, Q s

namespace Constraints

variable (Q : Expr → Prop)

theorem sums_set {c : Constraints} (name : String) {k : Constraint} (sums : c.Sums Q) (fresh : ∀ s ∈ k.expr.sums, Q s) :
    Constraints.Sums Q (c.set name k) := by
  intro other k' found
  by_cases same : other = name
  · rw [same, Named.get_set_self] at found
    cases found
    exact fresh
  · rw [Named.get_set_other _ _ same] at found
    exact sums other k' found

theorem sums_assign (c : Constraints) (name : String) (type : Option ValueType) (sums : c.Sums Q) :
    (c.assign name type).Sums Q := by
  intro other k found s inside
  rw [get_assign] at found
  by_cases same : other = name
  · rw [if_pos same] at found
    cases found
    cases inside
  · rw [if_neg same] at found
    obtain ⟨k', found', rfl⟩ := Option.map_eq_some_iff.mp found
    obtain ⟨p, part, inside⟩ := (Expr.sums_parts _ s).mp inside
    rcases parts_without part with rfl | ⟨part', -⟩
    · cases inside
    · exact sums other k' found' s ((Expr.sums_parts _ s).mpr ⟨p, part', inside⟩)

theorem sums_restrict (c : Constraints) {cond : Expr} (sums : c.Sums Q) (fresh : ∀ s ∈ cond.sums, Q s) :
    (c.restrict cond).Sums Q := by
  unfold restrict
  induction cond.refs generalizing c with
  | nil => exact sums
  | cons r rest hyp =>
    refine hyp _ (sums_set Q r.name sums fun s inside => ?_)
    obtain ⟨p, part, inside⟩ := (Expr.sums_parts _ s).mp inside
    rcases parts_conjoin part with old | new
    · have before := (Expr.sums_parts _ s).mpr ⟨p, old, inside⟩
      cases found : c.get? r.name with
      | none =>
        rw [found] at before
        cases before
      | some k =>
        rw [found] at before
        exact sums r.name k found s before
    · exact fresh s ((Expr.sums_parts _ s).mpr ⟨p, new, inside⟩)

end Constraints

namespace Graph

variable (g : Graph)

theorem leaf_sums {b : Block} (first second : Term) {e : Expr} (composed : g.composeLeaf b = .ok e) :
    (∀ s ∈ e.sums, s = e ∧ s.isSum = true) ∧ (e.isSum = true → (Term.node b first second).IsSum) := by
  unfold composeLeaf at composed
  split at composed
  · next literal =>
      split at composed
      · next v payload =>
          cases composed
          refine ⟨fun s inside => ?_, fun _ => ?_⟩
          · cases mem_singleton.mp inside
            exact ⟨rfl, rfl⟩
          · simp [Term.IsSum, literal, Block.number?, payload, Payload.number?]
      · cases composed
        exact ⟨by simp [Expr.sums], by simp [Expr.isSum]⟩
      · cases composed
        exact ⟨by simp [Expr.sums], by simp [Expr.isSum]⟩
      · cases composed
  · next kind =>
      cases composed
      exact ⟨by simp [Expr.sums], fun _ => by simp [Term.IsSum, kind]⟩
  · next kind =>
      cases composed
      exact ⟨by simp [Expr.sums], fun _ => by simp [Term.IsSum, kind]⟩
  · next kind =>
      split at composed
      · cases composed
        exact ⟨by simp [Expr.sums], fun _ => by simp [Term.IsSum, kind]⟩
      · cases composed
  · cases composed

theorem composed_sum {t : Term} (e : Expr) (composed : g.composeTerm t = .ok e) (sum : e.isSum = true) : t.IsSum := by
  induction t generalizing e with
  | missing => cases composed
  | node b first second hyp hyp' =>
    rcases compose_cases g composed with
      ⟨l, -, -, rfl⟩ | ⟨l, r, left, right, ⟨-, rfl⟩ | ⟨-, rfl⟩ | ⟨op, operator, rfl⟩⟩ | leaf
    · cases sum
    · cases sum
    · cases sum
    · simp only [Expr.isSum, Bool.and_eq_true, Bool.or_eq_true, decide_eq_true_eq] at sum
      obtain ⟨⟨added, sum⟩, sum'⟩ := sum
      have kind : b.kind = .add ∨ b.kind = .sub := by
        cases kind : b.kind <;> simp only [kind, Kind.operator?, Option.some.injEq, reduceCtorEq] at operator
        all_goals
          subst operator
          simp at added ⊢
      rcases kind with kind | kind
      all_goals
        rw [Term.IsSum, kind]
        exact ⟨hyp l left sum, hyp' r right sum'⟩
    · exact (leaf_sums g first second leaf).2 sum

theorem composed_sums {t : Term} (e : Expr) (composed : g.composeTerm t = .ok e) {s : Expr} (inside : s ∈ e.sums) :
    ∃ t' ∈ t.subterms, g.composeTerm t' = .ok s ∧ s.isSum = true := by
  induction t generalizing e with
  | missing => cases composed
  | node b first second hyp hyp' =>
    have left : ∀ l, g.composeTerm first = .ok l → s ∈ l.sums →
        ∃ t' ∈ (Term.node b first second).subterms, g.composeTerm t' = .ok s ∧ s.isSum = true := by
      intro l composed inside
      obtain ⟨t', mem, rest⟩ := hyp l composed inside
      exact ⟨t', by simp [Term.subterms, mem], rest⟩
    have right : ∀ r, g.composeTerm second = .ok r → s ∈ r.sums →
        ∃ t' ∈ (Term.node b first second).subterms, g.composeTerm t' = .ok s ∧ s.isSum = true := by
      intro r composed inside
      obtain ⟨t', mem, rest⟩ := hyp' r composed inside
      exact ⟨t', by simp [Term.subterms, mem], rest⟩
    rcases compose_cases g composed with
      ⟨l, -, inner, rfl⟩ | ⟨l, r, inner, inner', ⟨-, rfl⟩ | ⟨-, rfl⟩ | ⟨op, -, rfl⟩⟩ | leaf
    · exact left l inner inside
    · simp only [Expr.sums, Expr.isSum, reduceCtorEq, decide_false, Bool.or_false, Bool.false_and, Bool.false_eq_true,
        if_false, nil_append, mem_append] at inside
      rcases inside with (inside | inside) | inside | inside
      all_goals first | exact left l inner inside | exact right r inner' inside
    · simp only [Expr.sums, Expr.isSum, reduceCtorEq, decide_false, Bool.or_false, Bool.false_and, Bool.false_eq_true,
        if_false, nil_append, mem_append] at inside
      rcases inside with (inside | inside) | inside | inside
      all_goals first | exact left l inner inside | exact right r inner' inside
    · rw [Expr.sums, mem_append, mem_append] at inside
      rcases inside with whole | inside | inside
      · split_ifs at whole with sum
        · rw [mem_singleton.mp whole]
          exact ⟨_, by simp [Term.subterms], composed, sum⟩
        · cases whole
      · exact left l inner inside
      · exact right r inner' inside
    · obtain ⟨rfl, sum⟩ := (leaf_sums g first second leaf).1 s inside
      exact ⟨_, by simp [Term.subterms], composed, sum⟩

theorem entry_sums (Q : Expr → Prop) (linked : g.Linked)
    (literals : ∀ id b x, g.block? id = some b → b.kind = .literal → b.number? = some x → Q (.num x))
    (terms : ∀ id, ∀ t ∈ (g.term id).subterms, ∀ s, g.composeTerm t = .ok s → s.isSum = true → Q s) {id : Nat}
    {c : Constraints} (analyzed : g.analyzeEntry id = .ok c) : c.Sums Q := by
  have seeded : ∀ (c : Constraints) (name : String) (type : Option ValueType), c.Sums Q →
      Constraints.Sums Q (c.set name ⟨.truth true, type⟩) :=
    fun c name type sums => Constraints.sums_set Q name sums fun s inside => by cases inside
  have start : Constraints.Sums Q [] := fun name k absent => by cases absent
  unfold analyzeEntry at analyzed
  split at analyzed
  · cases analyzed
  · cases analyzed
    exact devices_induction g (Constraints.Sums Q) seeded [] start
  · next point next _ =>
      refine analyze_induction g (Constraints.Sums Q) (Constraints.sums_assign Q) seeded ?_ ?_ linked start
        analyzed
      · intro c name type value v found kind number sums
        refine Constraints.sums_set Q name sums fun s inside => ?_
        cases mem_singleton.mp inside
        exact literals value.id value v found kind number
      · intro c id cond holds composed sums
        refine Constraints.sums_restrict Q c sums fun s inside => ?_
        have written : s ∈ cond.sums := by cases holds <;> exact inside
        obtain ⟨t, mem, composed, sum⟩ := composed_sums g cond composed written
        exact terms _ t mem s composed sum

end Graph

namespace Expr

section Whole

variable (A : Arithmetic) (exact : ∀ op, op = .add ∨ op = .sub → ∀ (m n : ℤ) (r : Quantity),
    A op (.finite m) (.finite n) = some r → r = .finite (op.result m n)) (env : String → Value)
  (whole : ∀ name q, env name = .number q → q.IsWhole) (domain : Option ValueType)

theorem operand_whole (e : Expr) {v : Value} (number : ∀ q, v = .number q → q.IsWhole) : e.Operand domain v :=
  .inr fun _ q same => number q same

theorem covers_free_sum {read : Reference → Value → Prop} {op : BinaryOp} (summed : op = .add ∨ op = .sub) {l r : Expr}
    (left : ∃ u, l.Covers read domain u ∧ ∀ q, u = .number q → q.IsWhole)
    (right : ∃ w, r.Covers read domain w ∧ ∀ q, w = .number q → q.IsWhole)
    (free : (∀ u, l.Covers read domain u) ∨ ∀ w, r.Covers read domain w) (v : Value) :
    (Expr.binary op l r).Covers read domain v := by
  have blank : ∀ e : Expr, e.Operand domain (.text "") := fun e => operand_whole domain e fun q same => by cases same
  rw [covers_sum read domain summed]
  rcases free with free | free
  · obtain ⟨w, covers, number⟩ := right
    exact ⟨.text "", w, free _, covers, blank l, operand_whole domain r number, by cases w <;> trivial⟩
  · obtain ⟨u, covers, number⟩ := left
    exact ⟨u, .text "", covers, free _, operand_whole domain l number, blank r, by cases u <;> trivial⟩

include exact in
theorem exact_whole_sum (op : BinaryOp) (summed : op = .add ∨ op = .sub) (u w v : Value)
    (left : ∀ q, u = .number q → q.IsWhole) (right : ∀ q, w = .number q → q.IsWhole)
    (result : ∀ q, v = .number q → q.IsWhole) (sum : Value.combine? A op u w = some v) : Value.Sum op u w v := by
  cases u <;> cases w <;> simp only [Value.combine?, reduceCtorEq] at sum
  next p q =>
    obtain ⟨r, combined, rfl⟩ := Option.map_eq_some_iff.mp sum
    obtain ⟨m, rfl, -⟩ := left p rfl
    obtain ⟨n, rfl, -⟩ := right q rfl
    obtain rfl := exact op summed m n r combined
    obtain ⟨k, same, bound⟩ := result _ rfl
    cases Int.cast_injective (finite.inj same)
    have small : |op.result m n| ≤ 2 ^ 53 := by omega
    refine ⟨_, ?_, rfl⟩
    rcases summed with rfl | rfl
    · exact add_int m n rfl small
    · exact sub_int m n _ rfl small

include exact whole in
-- A term covers its value, or everything. Only sums of numbers and names are told apart.
theorem whole_covers (e : Expr) (held : ∀ s ∈ e.sums, ∀ q, s.value? A env = some (.number q) → q.IsWhole) (v : Value)
    (value : e.value? A env = some v) :
    (∀ w, e.Covers (Solver.readAll env) domain w) ∨
      e.Covers (Solver.readAll env) domain v ∧ e.isSum = true ∧ ∀ q, v = .number q → q.IsWhole := by
  cases e with
  | num x =>
    have covered := value
    rw [value?, Option.map_eq_some_iff] at covered
    obtain ⟨q, defined, rfl⟩ := covered
    refine .inr ⟨⟨q, defined, rfl⟩, rfl, fun p same => ?_⟩
    cases same
    exact held (.num x) (by simp [sums]) _ value
  | text t => exact .inl fun w => trivial
  | ref r =>
    cases value
    exact .inr ⟨rfl, rfl, whole r.name⟩
  | among s => simp [value?] at value
  | truth b => exact .inl fun w => trivial
  | neg e => simp [value?] at value
  | binary op l r =>
    have combined := value
    rw [value?] at combined
    split_ifs at combined with arithmetic
    by_cases summed : op = .add ∨ op = .sub
    · cases first : l.value? A env with
      | none => simp [first] at combined
      | some u =>
        cases second : r.value? A env with
        | none => simp [first, second] at combined
        | some w =>
          simp only [first, second] at combined
          have left := whole_covers l (fun s inside => held s (sums_left op r inside)) u first
          have right := whole_covers r (fun s inside => held s (sums_right op l inside)) w second
          have some_value : ∀ (e : Expr) (v : Value), (∀ w, e.Covers (Solver.readAll env) domain w) ∨
              e.Covers (Solver.readAll env) domain v ∧ e.isSum = true ∧ (∀ q, v = .number q → q.IsWhole) →
              ∃ u, e.Covers (Solver.readAll env) domain u ∧ ∀ q, u = .number q → q.IsWhole := by
            rintro e v (free | ⟨covers, -, number⟩)
            · exact ⟨.text "", free _, fun q same => by cases same⟩
            · exact ⟨v, covers, number⟩
          have free_sum := covers_free_sum domain summed (some_value l u left) (some_value r w right)
          rcases left with free | ⟨covers, sum, number⟩
          · exact .inl (free_sum (.inl free))
          · rcases right with free | ⟨covers', sum', number'⟩
            · exact .inl (free_sum (.inr free))
            · have plain : ∀ e : Expr, e.isSum = true → e.isText = false := by
                intro e sum
                cases e <;> first | rfl | cases sum
              rw [plain l sum, plain r sum'] at combined
              have total : (Expr.binary op l r).isSum = true := by
                rw [isSum, sum, sum', Bool.and_true, Bool.and_true]
                simpa using summed
              have integer : ∀ q, v = .number q → q.IsWhole := fun q same =>
                held (.binary op l r) (by simp [sums, total]) q (by rw [value, same])
              have sum := exact_whole_sum A exact op summed u w v number number' integer combined
              exact .inr ⟨(covers_sum _ domain summed l r v).mpr ⟨u, w, covers, covers',
                operand_whole domain l number, operand_whole domain r number', sum⟩, total, integer⟩
    · refine .inl fun w => ?_
      rw [Covers, if_neg summed]
      exact arithmetic

end Whole

end Expr

namespace ValueSet

theorem small_sum {op : BinaryOp} (summed : op = .add ∨ op = .sub) {m n : ℤ} (left : (finite m).IsSmall)
    (right : (finite n).IsSmall) :
    Value.Sum op (.number (.finite m)) (.number (.finite n)) (.number (.finite (op.result m n))) := by
  obtain ⟨m, same, bound⟩ := left
  obtain ⟨n, same', bound'⟩ := right
  cases Int.cast_injective (finite.inj same)
  cases Int.cast_injective (finite.inj same')
  rw [abs_le] at bound bound'
  refine ⟨_, ?_, rfl⟩
  rcases summed with rfl | rfl
  · exact add_int m n rfl (abs_le.mpr (by simp only [BinaryOp.result]; omega))
  · exact sub_int m n _ rfl (abs_le.mpr (by simp only [BinaryOp.result]; omega))

section Crossed

variable (domain : Option ValueType) (op : BinaryOp) (summed : op = .add ∨ op = .sub) (a b : ValueSet) (u w : Value)
  (left : a.Admits u) (right : b.Admits w) (small : ∀ q, u = .number q → q.IsSmall)
  (small' : ∀ q, w = .number q → q.IsSmall)

include summed left right small small' in
theorem small_cross_has (v : Value) (sum : Value.Sum op u w v) : (crossAddSub domain op a b).Admits v :=
  cross_has summed left right
    (enumerate_has _ domain (fun _ q same => (small q same).whole) left)
    (enumerate_has _ domain (fun _ q same => (small' q same).whole) right) sum

include small small' in
theorem small_operands : (∃ m n : ℤ, u = .number (.finite m) ∧ w = .number (.finite n)) ∨ ∀ v, Value.Sum op u w v := by
  cases u with
  | number p =>
    cases w with
    | number q =>
      obtain ⟨m, rfl, -⟩ := small p rfl
      obtain ⟨n, rfl, -⟩ := small' q rfl
      exact .inl ⟨m, n, rfl, rfl⟩
    | _ => exact .inr fun v => trivial
  | _ => exact .inr fun v => by cases w <;> trivial

include summed left right small small' in
theorem small_cross_not_empty : (crossAddSub domain op a b).isEmpty = false := by
  have has := small_cross_has domain op summed a b u w left right small small'
  rcases small_operands op u w small small' with ⟨m, n, rfl, rfl⟩ | free
  · exact not_empty_of_has _ (has _ (small_sum summed (small _ rfl) (small' _ rfl)))
  · exact not_empty_of_has _ (has (.text "") (free _))

include summed left right small small' in
theorem small_cross_bounds (fine : a.Defined) (fine' : b.Defined)
    (bounded : (crossAddSub domain op a b).extent.bounded = true) :
    ∃ m n : ℤ, u = .number (.finite m) ∧ w = .number (.finite n) ∧
      (crossAddSub domain op a b).extent.lo ≠ .nan ∧ (crossAddSub domain op a b).extent.hi ≠ .nan ∧
      (crossAddSub domain op a b).extent.lo.AtMost (.finite (op.result m n)) ∧
      (crossAddSub domain op a b).extent.hi.AtLeast (.finite (op.result m n)) := by
  have has := small_cross_has domain op summed a b u w left right small small'
  rcases small_operands op u w small small' with ⟨m, n, rfl, rfl⟩ | free
  · have sum := small_sum summed (small _ rfl) (small' _ rfl)
    obtain ⟨q, same, lower, upper⟩ := extent_bounds _ _ _ (has _ sum) bounded
    cases same
    obtain ⟨low, high⟩ := cross_extent_defined
      (enumerate_has _ domain (fun _ q same => (small q same).whole) left)
      (enumerate_has _ domain (fun _ q same => (small' q same).whole) right) fine fine' bounded
    exact ⟨m, n, rfl, rfl, low, high, lower, upper⟩
  · obtain ⟨q, same, -⟩ := extent_bounds _ _ _ (has (.text "") (free _)) bounded
    cases same

end Crossed

end ValueSet

theorem Number.at_most_below {lo end_ : Number} {q : Quantity} (defined : end_ ≠ .nan) (lower : end_.AtMost q)
    (inside : end_.lt lo = false) : lo.AtMost q := by
  intro p bound
  cases known : end_.quantity? with
  | none => exact absurd (quantity_none known) defined
  | some r =>
    rw [lt_decide known bound, decide_eq_false_iff_not, not_lt] at inside
    exact le_trans inside (lower r known)

theorem Number.at_least_above {hi end_ : Number} {q : Quantity} (defined : end_ ≠ .nan) (upper : end_.AtLeast q)
    (inside : hi.lt end_ = false) : hi.AtLeast q := by
  intro p bound
  cases known : end_.quantity? with
  | none => exact absurd (quantity_none known) defined
  | some r =>
    rw [lt_decide bound known, decide_eq_false_iff_not, not_lt] at inside
    exact le_trans (upper r known) inside

def GuardSite.operator (site : GuardSite) : BinaryOp := if site.op = .sub then .sub else .add

-- What the guard of a site is there to make sure of.
def GuardSite.Passes (g : Graph) (W : World) (σ : Stack) (site : GuardSite) : Prop :=
  match site.kind with
  | .zeroDivisor => σ.read W.device site.operand ≠ .number (.finite 0)
  | .overflow => ∃ type, site.type = some type ∧ ∃ m n : ℤ, (g.term site.left).value? W σ = some (.number (.finite m)) ∧
      (g.term site.right).value? W σ = some (.number (.finite n)) ∧ type.Has (site.operator.result m n)

namespace Graph

variable (g : Graph) (W : World)

theorem estimates_sound (integers : g.IntegerProgram) (typed : W.Typed g) (exact : W.ExactFor g)
    (orderly : g.Orderly) (names : g.NamesApart) (root : Nat) (mem : root ∈ g.roots) (site : GuardSite) (b : Block)
    (σ : Stack) (run : g.Runs W root [] (.reached site.statement σ)) (found : g.block? site.statement = some b)
    (straight : ¬ (b.kind = .whileLoop ∨ b.kind = .forLoop)) (limit : Int) (sets : Estimates)
    (solved : valuesAt limit g site = .ok sets) :
    Solver.Sound (σ.read W.device) sets ∧ ∀ name s, sets.get? name = some s → s.Defined := by
  have reads := reads_small g W integers typed run
  have whole := fun name q read => (reads.names name q read).whole
  unfold valuesAt at solved
  split at solved
  · cases solved
  · next c analyzed =>
      have known := entry_known g W orderly.1 names
        (fun b found => orderly.2.top g root b mem found) run found straight analyzed
      have apart := reached_apart g W names run
      have sums := entry_sums g (fun s => ∀ q, s.value? W.arithmetic (σ.read W.device) = some (.number q) → q.IsWhole)
        orderly.1
        (fun id b x found kind number q value => by
          obtain ⟨p, defined, same⟩ := Option.map_eq_some_iff.mp value
          cases same
          exact (integers.literal_small g found kind number defined).whole)
        (fun id t inside s composed sum q value =>
          exact.held id t inside (composed_sum g s composed sum) σ reads q
            (by rw [← (compose_means g W σ apart s composed).value]; exact value)) analyzed
      refine ⟨?_, Solver.satisfy_defined solved⟩
      refine Solver.satisfy_admits (σ.read W.device) solved (fun name x absent => by cases absent)
        (fun name k _ _ q => whole name q) fun name k filed => ?_
      refine (Expr.normalize_holds W.arithmetic _ _ _ k.expr fun t side v value => ?_).1 (known name k filed)
      rcases Expr.whole_covers W.arithmetic exact.sums _ whole _ t
        (fun s inside => sums name k filed s (k.expr.sums_sides t side inside)) v value with free | covers
      · exact free v
      · exact covers.1

-- A site belongs to a statement of the graph, and what a loop tests it tests again.
theorem site_statement (linked : g.Linked) {d : ProgramDraft} {state : DraftState} (drafted : g.draft = (.ok d, state))
    {site : GuardSite} (met : site ∈ state.sites) :
    ∃ b, g.block? site.statement = some b ∧ (b.kind.isLoop → site.repeated = true) := by
  obtain ⟨new, grown, -, within⟩ := (g.draft_drafts drafted).sites
  rw [grown, nil_append] at met
  obtain ⟨b, mem, statement, again⟩ := within site met
  obtain ⟨id, found⟩ := g.statement_block mem
  have same : b.id = id := linked.numbered _ _ (links_block g found)
  exact ⟨b, by rw [statement, same]; exact found, again⟩

theorem site_operands (linked : g.Linked) {d : ProgramDraft} {state : DraftState} (drafted : g.draft = (.ok d, state))
    {site : GuardSite} (met : site ∈ state.sites) (overflow : site.kind = .overflow) (id : BlockId)
    (operand : id = site.left ∨ id = site.right) : ∃ b, g.block? id = some b ∧ b.kind ≠ .deviceRef := by
  have drafts := g.draft_drafts drafted
  obtain ⟨new, grown, same, -⟩ := drafts.sites
  rw [grown, nil_append, same] at met
  obtain ⟨c, mem, rfl⟩ := met
  obtain ⟨i, b, found, rfl, plain⟩ := (drafts.proper c mem).operands overflow id operand
  have numbered : b.id = i := linked.numbered _ _ (links_block g found)
  exact ⟨b, by rw [numbered]; exact found, plain⟩

theorem term_top {id : BlockId} {b : Block} (found : g.block? id = some b) :
    ∃ first second, g.term id = .node b first second := by
  have bounds := (g.links_defined id).mp ⟨_, links_block g found⟩
  obtain ⟨n, size⟩ : ∃ n, g.size = n + 1 := ⟨g.size - 1, by omega⟩
  rw [term, size, termFrom, found]
  exact ⟨_, _, rfl⟩

section Site

variable (σ : Stack) (sets : Estimates) (sound : Solver.Sound (σ.read W.device) sets)
  (defined : ∀ name s, sets.get? name = some s → s.Defined)
  (small : ∀ name q, σ.read W.device name = .number q → q.IsSmall)

include sound defined in
theorem values_of_sound (name : String) (type : Option ValueType) :
    (valuesOf sets name type).Admits (σ.read W.device name) ∧ (valuesOf sets name type).Defined := by
  unfold valuesOf
  cases found : sets.get? name with
  | none => exact ⟨trivial, trivial⟩
  | some s => exact ⟨sound name s found, defined name s found⟩

include sound defined in
theorem non_zero_sound {site : GuardSite} {reason : String} (proven : nonZero sets site = (true, reason)) :
    σ.read W.device site.operand ≠ .number (.finite 0) := by
  intro zero
  have admits := (values_of_sound W σ sets sound defined site.operand site.type).1
  rw [zero] at admits
  unfold nonZero at proven
  dsimp only at proven
  split_ifs at proven with unknown holds
  · cases proven
  · cases proven
  · rw [Bool.not_eq_true, Bool.not_eq_false'] at unknown
    exact holds ((ValueSet.member_known _ .zero (.finite 0) rfl _ unknown).mpr admits)

include sound defined small in
theorem operand_value (integers : g.IntegerProgram) {id : BlockId} {b : Block} (found : g.block? id = some b)
    (plain : b.kind ≠ .deviceRef) {domain : Option ValueType} {s : ValueSet}
    (estimated : operandSet? g sets id domain = some s) :
    ∃ v, (g.term id).value? W σ = some v ∧ s.Admits v ∧ s.Defined ∧ ∀ q, v = .number q → q.IsSmall := by
  obtain ⟨first, second, top⟩ := term_top g found
  rw [top]
  unfold operandSet? at estimated
  rw [found, Option.bind_some] at estimated
  split at estimated
  · next kind =>
      obtain ⟨x, number, rfl⟩ := Option.map_eq_some_iff.mp estimated
      obtain ⟨type, -, fits, n, value, has⟩ := integers.literals id b x found kind number
      have payload : b.payload = .number x := by
        unfold Block.number? Payload.number? at number
        split at number
        · next written =>
            cases number
            exact written
        · cases number
      refine ⟨.number
        (.finite n), by simp [Term.value?, kind, payload, Payload.value?, value], ?_, ?_, fun q same => ?_⟩
      · exact (ValueSet.has_of_values _ _ _).mpr ⟨x, mem_singleton.mpr rfl, _, value, rfl⟩
      · intro y mem
        rw [mem_singleton.mp (Number.mem_of_distinct mem)]
        rintro rfl
        cases value
      · cases same
        exact type.has_small fits has
  · next kind =>
      cases estimated
      obtain ⟨admits, fine⟩ := values_of_sound W σ sets sound defined b.name _
      exact ⟨σ.read W.device b.name, by simp [Term.value?, kind], admits, fine, small b.name⟩
  · next kind =>
      cases estimated
      obtain ⟨admits, fine⟩ := values_of_sound W σ sets sound defined b.name _
      exact ⟨σ.read W.device b.name, by simp [Term.value?, kind], admits, fine, small b.name⟩
  · next kind => exact absurd kind plain
  · cases estimated

include sound defined small in
theorem in_range_sound (integers : g.IntegerProgram) {site : GuardSite} {reason : String}
    (operands : ∀ id, id = site.left ∨ id = site.right → ∃ b, g.block? id = some b ∧ b.kind ≠ .deviceRef)
    (proven : inRange g sets site = (true, reason)) :
    ∃ type, site.type = some type ∧ ∃ m n : ℤ, (g.term site.left).value? W σ = some (.number (.finite m)) ∧
      (g.term site.right).value? W σ = some (.number (.finite n)) ∧
        type.Has (site.operator.result m n) := by
  obtain ⟨l, found, plain⟩ := operands site.left (.inl rfl)
  obtain ⟨r, found', plain'⟩ := operands site.right (.inr rfl)
  unfold inRange at proven
  dsimp only at proven
  split at proven
  · cases proven
  · next lo hi bounds =>
      split at proven
      · next a b left right =>
          obtain ⟨u, value, admits, fine, int⟩ :=
            operand_value g W σ sets sound defined small integers found plain left
          obtain ⟨w, value', admits', fine', int'⟩ :=
            operand_value g W σ sets sound defined small integers found' plain' right
          have summed : site.operator = .add ∨ site.operator = .sub := by
            unfold GuardSite.operator
            split_ifs <;> simp
          rw [show (if site.op = .sub then BinaryOp.sub else .add) = site.operator from rfl] at proven
          generalize site.operator = op at proven summed ⊢
          rw [ValueSet.small_cross_not_empty site.type op summed a b u w admits admits' int int',
            if_neg Bool.false_ne_true] at proven
          split_ifs at proven with unbounded outside
          · cases proven
          · cases proven
          · rw [Bool.not_eq_true, Bool.not_eq_false'] at unbounded
            rw [Bool.or_eq_true, not_or, Bool.not_eq_true, Bool.not_eq_true] at outside
            obtain ⟨m, n, rfl, rfl, low, high, lower, upper⟩ :=
              ValueSet.small_cross_bounds site.type op summed a b u w admits admits' int int' fine fine' unbounded
            cases typed : site.type with
            | none =>
              rw [typed] at bounds
              cases bounds
            | some type =>
              rw [typed] at bounds low high lower upper outside
              exact ⟨type, rfl, m, n, value, value', lo, hi, bounds, Number.at_most_below low lower outside.1,
                Number.at_least_above high upper outside.2⟩
      · cases proven

end Site

theorem compiled_guards {o : CompileOptions} {p : Program} (compiled : (g.compile o).program = some p) :
    ∃ d state, g.draft = (.ok d, state) ∧ p.guards = state.sites.map (o.policy g) := by
  unfold compile at compiled
  cases made : g.generate o.policy with
  | error fault =>
    rw [made] at compiled
    cases compiled
  | ok p' =>
    rw [made] at compiled
    cases compiled
    obtain ⟨d, state, drafted, guards, -⟩ := g.generated_draft made
    exact ⟨d, state, drafted, guards⟩

end Graph

namespace Prover

theorem decide_site (limit : Int) (g : Graph) (site : GuardSite) : (decide limit g site).site = site := by
  unfold decide
  dsimp only
  split_ifs
  · rfl
  · split
    · rfl
    · split <;> rfl

theorem decide_proven {limit : Int} {g : Graph} {site : GuardSite} (proven : (decide limit g site).status = .proven) :
    site.repeated = false ∧ ∃ sets reason, valuesAt limit g site = .ok sets ∧
      (match site.kind with
        | .zeroDivisor => nonZero sets site
        | .overflow => inRange g sets site) = (true, reason) := by
  unfold decide at proven
  dsimp only at proven
  by_cases again : site.repeated = true
  · rw [if_pos again] at proven
    cases proven
  · rw [if_neg again] at proven
    refine ⟨Bool.eq_false_iff.mpr again, ?_⟩
    split at proven
    · cases proven
    · next sets solved =>
        split at proven
        · next reason answer => exact ⟨sets, reason, solved, answer⟩
        · cases proven

end Prover

namespace Term

variable (W : World) (σ : Stack)

theorem subterms_inside {t t' : Term} (inside : t' ∈ t.subterms) : t'.subterms.Sublist t.subterms := by
  induction t with
  | missing => cases inside
  | node b first second hyp hyp' =>
    rw [subterms, mem_cons, mem_append] at inside
    rcases inside with rfl | inside | inside
    · exact List.Sublist.refl _
    · exact ((hyp inside).trans (sublist_append_left _ _)).cons _
    · exact ((hyp' inside).trans (sublist_append_right _ _)).cons _

theorem sum_plain {t : Term} (sum : t.IsSum) : t.isText = false := by
  cases t with
  | missing => rfl
  | node b first second =>
    cases kind : b.kind <;> simp only [IsSum, kind] at sum <;> simp only [isText, kind]
    cases payload : b.payload <;> simp [Block.number?, payload, Payload.number?] at sum ⊢

theorem sum_bound (exact : ∀ op, op = .add ∨ op = .sub → ∀ (m n : ℤ) (r : Quantity),
      W.arithmetic op (.finite m) (.finite n) = some r →
        r = .finite (op.result m n)) (reads : W.ReadsSmall σ) (t : Term)
    (literals : ∀ b first second, Term.node b first second ∈ t.subterms → b.kind = .literal → ∀ x, b.number? = some x →
      ∀ q, x.quantity? = some q → q.IsSmall) (sum : t.IsSum) (q : Quantity)
    (value : t.value? W σ = some (.number q)) : ∃ n : ℤ, q = .finite n ∧ |n| ≤ t.subterms.length * 2 ^ 31 := by
  induction t generalizing q with
  | missing => cases value
  | node b first second hyp hyp' =>
    have size : (Term.node b first second).subterms.length = first.subterms.length + second.subterms.length + 1 := by
      simp [subterms]
    have leaf : q.IsSmall → ∃ n : ℤ, q = .finite n ∧ |n| ≤ (Term.node b first second).subterms.length * 2 ^ 31 := by
      rintro ⟨n, rfl, bound⟩
      refine ⟨n, rfl, ?_⟩
      rw [size]
      push_cast
      omega
    have combined : ∀ op, op = .add ∨ op = .sub → b.kind.operator? = some op → first.IsSum ∧ second.IsSum →
        ∃ n : ℤ, q = .finite n ∧ |n| ≤ (Term.node b first second).subterms.length * 2 ^ 31 := by
      intro op summed operator sums
      rw [value_operator W σ first second operator, sum_plain sums.1, sum_plain sums.2] at value
      split_ifs at value
      split at value
      · next u w left right =>
          cases u <;> cases w <;> simp only [Value.beside, Value.combine?, reduceCtorEq] at value
          next p p' =>
            obtain ⟨r, sum, same⟩ := Option.map_eq_some_iff.mp value
            cases same
            obtain ⟨m, rfl, below⟩ :=
              hyp (fun b' f s inside => literals b' f s (by simp [subterms, inside])) sums.1 p left
            obtain ⟨n, rfl, below'⟩ :=
              hyp' (fun b' f s inside => literals b' f s (by simp [subterms, inside])) sums.2 p' right
            refine ⟨op.result m n, exact op summed m n q sum, ?_⟩
            have triangle : |op.result m n| ≤ |m| + |n| := by
              unfold BinaryOp.result
              split_ifs
              · exact abs_sub m n
              · exact abs_add_le m n
            rw [size]
            push_cast
            omega
      · cases value
    cases kind : b.kind <;> simp only [IsSum, kind] at sum
    case literal =>
      obtain ⟨x, number⟩ := Option.isSome_iff_exists.mp sum
      have payload : b.payload = .number x := by
        cases payload : b.payload <;> rw [Block.number?, payload] at number <;> cases number
        rfl
      simp only [value?, kind, payload, Payload.value?] at value
      obtain ⟨p, defined, same⟩ := Option.map_eq_some_iff.mp value
      cases same
      exact leaf (literals b first second (by simp [subterms]) kind x number q defined)
    case varRef | indexRef =>
      simp only [value?, kind, Option.some.injEq] at value
      exact leaf (reads.names b.name q value)
    case deviceRef =>
      simp only [value?, kind, Option.some.injEq] at value
      exact leaf (reads.devices b.name q value)
    case add => exact combined .add (.inl rfl) (by rw [kind]; rfl) sum
    case sub => exact combined .sub (.inr rfl) (by rw [kind]; rfl) sum

end Term

namespace Graph

variable (g : Graph) (W : World)

theorem subterm_block {fuel : Nat} (id : BlockId) {b : Block} {first second : Term}
    (inside : Term.node b first second ∈ (g.termFrom fuel id).subterms) : ∃ id', g.block? id' = some b := by
  induction fuel generalizing id with
  | zero => cases inside
  | succ fuel hyp =>
    rw [termFrom] at inside
    split at inside
    · cases inside
    · next b' found =>
        rw [Term.subterms, mem_cons, mem_append] at inside
        rcases inside with same | inside | inside
        · cases same
          exact ⟨id, found⟩
        · exact hyp _ inside
        · exact hyp _ inside

-- A double holds the sum of two million small integers.
theorem IntegerProgram.exact_for (integers : g.IntegerProgram) (sums : ∀ op, op = .add ∨ op = .sub →
      ∀ (m n : ℤ) (r : Quantity), W.arithmetic op (.finite m) (.finite n) = some r → r = .finite (op.result m n))
    (short : ∀ id, (g.term id).subterms.length ≤ 2 ^ 21) : W.ExactFor g := by
  refine ⟨sums, fun id t inside sum σ reads q value => ?_⟩
  have literals : ∀ b first second, Term.node b first second ∈ t.subterms → b.kind = .literal → ∀ x,
      b.number? = some x → ∀ q, x.quantity? = some q → q.IsSmall := by
    intro b first second within kind x number q defined
    obtain ⟨id', found⟩ := g.subterm_block id ((Term.subterms_inside inside).subset within)
    exact integers.literal_small g found kind number defined
  obtain ⟨n, rfl, bound⟩ := t.sum_bound W σ sums reads literals sum q value
  have fewer := (Term.subterms_inside inside).length_le.trans (short id)
  have bound' : |n| ≤ 2 ^ 52 := bound.trans (by
    calc (t.subterms.length : ℤ) * 2 ^ 31 ≤ 2 ^ 21 * 2 ^ 31 := by gcongr; exact_mod_cast fewer
      _ = 2 ^ 52 := by norm_num)
  refine ⟨n, rfl, ?_⟩
  rw [maxEnumeration]
  omega

end Graph

-- A guard that is left out is not missed: whatever an integer program does, whenever it comes to the statement of a
-- guard that was proven, the divisor is not zero, and the exact sum or difference lies inside the bounds of its type.
theorem proven_guard_passes (document : Markup.Node) (g : Graph) (read : Document.ofNode document = .ok g)
    (integers : g.IntegerProgram) (names : g.NamesApart) (o : CompileOptions) (prove : o.prove = true) (p : Program)
    (compiled : (g.compile o).program = some p) (W : World) (typed : W.Typed g) (exact : W.ExactFor g)
    (root : BlockId) (member : root ∈ g.roots) (d : GuardDecision) (decided : d ∈ p.guards)
    (proven : d.status = .proven) (σ : Stack) (run : g.Runs W root [] (.reached d.site.statement σ)) :
    d.site.Passes g W σ := by
  have orderly := Document.orderly_of_node read
  obtain ⟨draft, state, drafted, guards⟩ := g.compiled_guards compiled
  have policy : o.policy = decide o.rounds := if_pos prove
  rw [guards, policy] at decided
  obtain ⟨site, met, rfl⟩ := mem_map.mp decided
  rw [decide_site] at run ⊢
  obtain ⟨once, sets, reason, solved, answer⟩ := decide_proven proven
  obtain ⟨b, found, again⟩ := g.site_statement orderly.1 drafted met
  have straight : ¬ b.kind.isLoop := fun loop => by simp [again loop] at once
  obtain ⟨sound, defined⟩ := g.estimates_sound W integers typed exact orderly names root member site b σ run found
    straight o.rounds sets solved
  have small := (g.reads_small W integers typed run).names
  unfold GuardSite.Passes
  cases kind : site.kind with
  | zeroDivisor =>
    rw [kind] at answer
    exact Graph.non_zero_sound W σ sets sound defined answer
  | overflow =>
    rw [kind] at answer
    exact g.in_range_sound W σ sets sound defined small integers
      (g.site_operands orderly.1 drafted met kind) answer

def Arithmetic.unbounded : Arithmetic
  | .add, .finite a, .finite b => some (.finite (a + b))
  | .sub, .finite a, .finite b => some (.finite (a - b))
  | _, _, _ => none

theorem Arithmetic.unbounded_sum (op : BinaryOp) (summed : op = .add ∨ op = .sub) (m n : ℤ) (r : Quantity)
    (sum : Arithmetic.unbounded op (.finite m) (.finite n) = some r) : r = .finite (op.result m n) := by
  rcases summed with rfl | rfl
  · cases sum
    simp [BinaryOp.result]
  · cases sum
    simp [BinaryOp.result]

theorem rounds_integers : rounds.IntegerProgram := by
  have blocks : ∀ b ∈ rounds.blocks, (b.kind = .variableDecl ∨ b.kind = .forLoop → b.type = some .int) ∧
      (b.kind = .literal → b.type = some .int ∧ ∃ n ∈ [7, 9, 21], b.payload = .number (.finite (n : ℕ))) := by decide
  have found : ∀ id b, rounds.block? id = some b → b ∈ rounds.blocks := by
    intro id b found
    unfold Graph.block? at found
    split_ifs at found
    exact Array.mem_of_getElem? found
  refine ⟨fun id b type block kind same _ => ?_, fun d absent => (by cases absent), fun id b x block kind number => ?_⟩
  · cases ((blocks b (found id b block)).1 kind).symm.trans same
    exact .inr rfl
  · obtain ⟨type, n, few, payload⟩ := (blocks b (found id b block)).2 kind
    rw [Block.number?, payload] at number
    cases number
    refine ⟨.int, type, .inr rfl, n, rfl, (ValueType.int_has n).mpr ?_⟩
    have below : n ≤ 21 := by
      simp only [mem_cons, not_mem_nil, or_false] at few
      omega
    omega

def typedWorld : World := ⟨Arithmetic.unbounded, fun _ => .truth false, fun type v => v.OfType type⟩

set_option maxRecDepth 10000 in
theorem rounds_compiled : ∃ p, (rounds.compile { prove := true }).program = some p ∧
    p.guards.map (fun d => (d.site.statement, d.site.kind, d.site.operand, d.status)) =
      [(9, .zeroDivisor, "x", .proven)] := by
  have shown : (rounds.compile { prove := true }).program.map
      (fun p => p.guards.map fun d => (d.site.statement, d.site.kind, d.site.operand, d.status)) =
        some [(9, .zeroDivisor, "x", .proven)] := by decide +kernel
  exact Option.map_eq_some_iff.mp shown

theorem proven_divisor_in_the_second_round :
    ∃ p d, Document.load roundsText = .ok rounds ∧ rounds.IntegerProgram ∧ rounds.NamesApart ∧
      (rounds.compile { prove := true }).program = some p ∧ typedWorld.Typed rounds ∧ typedWorld.ExactFor rounds ∧
        14 ∈ rounds.roots ∧ d ∈ p.guards ∧ d.status = .proven ∧
          rounds.Runs typedWorld 14 [] (.reached d.site.statement (xIs 7)) ∧
            d.site.Passes rounds typedWorld (xIs 7) := by
  obtain ⟨p, compiled, guards⟩ := rounds_compiled
  obtain ⟨d, decided, same⟩ : ∃ d ∈ p.guards, (d.site.statement, d.site.kind, d.site.operand, d.status) =
      (9, .zeroDivisor, "x", .proven) := by
    rw [← mem_map, guards]
    exact mem_singleton.mpr rfl
  simp only [Prod.mk.injEq] at same
  have typed : typedWorld.Typed rounds := ⟨fun _ _ allowed => allowed, fun name q same => by cases same⟩
  have short : ∀ id, (rounds.term id).subterms.length ≤ 2 ^ 21 := by
    intro (id : Nat)
    have few : ∀ id < 15, (rounds.term id).subterms.length ≤ 2 ^ 21 := by decide
    by_cases inside : id < 15
    · exact few id inside
    · have absent : rounds.block? id = none := by
        have positive : id ≠ 0 := by omega
        have beyond : 14 ≤ id - 1 := by omega
        rw [Graph.block?, if_neg positive]
        exact Array.getElem?_eq_none beyond
      change (rounds.termFrom 14 id).subterms.length ≤ 2 ^ 21
      rw [Graph.termFrom, absent]
      decide
  have exact := rounds_integers.exact_for rounds typedWorld Arithmetic.unbounded_sum short
  have free : ∀ n : Nat, n ≤ 9 → (Value.number (.finite n)).OfType (some .int) := fun n below =>
    ⟨n, rfl, (ValueType.int_has n).mpr (by omega)⟩
  have run : rounds.Runs typedWorld 14 [] (.reached d.site.statement (xIs 7)) := by
    rw [same.1]
    exact (rounds_run typedWorld free).arrives _ _ 6 9 rfl
  obtain ⟨document, -, read⟩ := Document.load_node rounds_loaded
  exact ⟨p, d, rounds_loaded, rounds_integers, rounds_apart, compiled, typed,
    exact, by decide, decided, same.2.2.2, run,
    proven_guard_passes document rounds read rounds_integers rounds_apart _ rfl p compiled typedWorld typed exact
      14 (by decide) d decided same.2.2.2 (xIs 7) run⟩

end Blockwork
