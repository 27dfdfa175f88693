import Blockwork.Proofs.Execution
import Blockwork.Proofs.Forest
import Blockwork.Proofs.SolverSound

set_option autoImplicit false

namespace Blockwork

open Block List

variable {name : String} {cond : Expr} {c c' : Constraints} {σ : Stack} {names : String → Prop} {b : Block}
  {point next : Nat}

namespace Named

variable {α β : Type}

def Distinct (entries : Named α) : Prop := (entries.map (·.1)).Nodup

theorem get_of_mem (entries : Named α) {value : α} (distinct : entries.Distinct) (mem : (name, value) ∈ entries) :
    entries.get? name = some value := by
  induction entries with
  | nil => cases mem
  | cons entry rest hyp =>
    obtain ⟨absent, distinct⟩ := nodup_cons.mp distinct
    rcases mem_cons.mp mem with rfl | mem
    · simp [get?]
    · have unlike : entry.1 ≠ name := by
        rintro rfl
        exact absent (mem_map.mpr ⟨_, mem, rfl⟩)
      simpa [get?, unlike] using hyp distinct mem

theorem mem_keys_set {entries : Named α} {other : String} {value : α}
    (mem : other ∈ (entries.set name value).map (·.1)) : other = name ∨ other ∈ entries.map (·.1) := by
  induction entries with
  | nil => simpa [set] using mem
  | cons entry rest hyp =>
    rw [set] at mem
    split_ifs at mem with same
    · rcases mem_cons.mp mem with rfl | mem
      · exact Or.inl rfl
      · exact Or.inr (mem_cons_of_mem _ mem)
    · rcases mem_cons.mp mem with rfl | mem
      · exact Or.inr (by simp)
      · exact (hyp mem).imp_right (mem_cons_of_mem _)

theorem distinct_set (entries : Named α) (name : String) {value : α} (distinct : entries.Distinct) :
    (entries.set name value).Distinct := by
  induction entries with
  | nil => simp [set, Distinct]
  | cons entry rest hyp =>
    obtain ⟨absent, others⟩ := nodup_cons.mp distinct
    rw [set]
    by_cases same : entry.1 = name
    · rw [if_pos same]
      exact nodup_cons.mpr ⟨same ▸ absent, others⟩
    · rw [if_neg same]
      refine nodup_cons.mpr ⟨fun mem => ?_, hyp others⟩
      rcases mem_keys_set mem with named | mem
      · exact same named
      · exact absent mem

end Named

namespace Expr

abbrev parts (e : Expr) : List Expr := e.collate .and

theorem parts_and (l r : Expr) : (Expr.and l r).parts = l.parts ++ r.parts := by
  rw [parts, collate, if_pos rfl]

theorem truth_parts (A : Arithmetic) (env : String → Value) (e : Expr) :
    e.truth? A env = some true ↔ ∀ p ∈ e.parts, p.truth? A env = some true := by
  match e with
  | .num x => simp [parts, collate]
  | .text s => simp [parts, collate]
  | .ref r => simp [parts, collate]
  | .truth b => simp [parts, collate]
  | .among s => simp [parts, collate]
  | .neg e => simp [parts, collate]
  | .binary op l r =>
    by_cases conjunction : op = .and
    · subst conjunction
      have left := truth_parts A env l
      have right := truth_parts A env r
      have both : (Expr.and l r).truth? A env = some true ↔
          l.truth? A env = some true ∧ r.truth? A env = some true := by
        rw [truth?]
        rcases l.truth? A env with _ | _ | _ <;> simp
      rw [both, left, right, parts_and]
      simp only [mem_append, or_imp, forall_and]
    · simp [parts, collate, conjunction]

theorem parts_part {e p : Expr} (part : p ∈ e.parts) : p.parts = [p] ∧ ∀ r ∈ p.occurrences, r ∈ e.occurrences := by
  match e with
  | .num x | .text s | .ref r | .truth b | .among s | .neg e =>
    cases mem_singleton.mp part
    exact ⟨rfl, fun _ mem => mem⟩
  | .binary op l r =>
    by_cases conjunction : op = .and
    · subst conjunction
      rw [parts_and] at part
      rcases mem_append.mp part with left | right
      · have ⟨single, within⟩ := parts_part left
        exact ⟨single, fun x mem => by simp [occurrences, within x mem]⟩
      · have ⟨single, within⟩ := parts_part right
        exact ⟨single, fun x mem => by simp [occurrences, within x mem]⟩
    · rw [parts, collate, if_neg conjunction] at part
      cases mem_singleton.mp part
      exact ⟨by rw [parts, collate, if_neg conjunction], fun _ mem => mem⟩

theorem mentions_false (e : Expr) (name : String) : e.mentions name = false ↔ ∀ r ∈ e.occurrences, r.name ≠ name := by
  simp [mentions]

end Expr

namespace Constraints

theorem parts_conjoin {known p : Expr} (part : p ∈ (conjoin known cond).parts) : p ∈ known.parts ∨ p ∈ cond.parts := by
  unfold conjoin at part
  split at part
  · exact Or.inr part
  · rw [Expr.parts_and] at part
    exact mem_append.mp part

theorem parts_conjoined {ps : List Expr} (known p : Expr) (part : p ∈ (ps.foldl conjoin known).parts) :
    p ∈ known.parts ∨ ∃ q ∈ ps, p ∈ q.parts := by
  induction ps generalizing known with
  | nil => exact Or.inl part
  | cons q rest hyp =>
    rcases hyp (conjoin known q) part with old | ⟨q', mem, inside⟩
    · rcases parts_conjoin old with old | new
      · exact Or.inl old
      · exact Or.inr ⟨q, by simp, new⟩
    · exact Or.inr ⟨q', by simp [mem], inside⟩

theorem parts_without {e p : Expr} (part : p ∈ (without name e).parts) :
    p = .truth true ∨ p ∈ e.parts ∧ p.mentions name = false := by
  unfold without at part
  split_ifs at part with mentioned
  · rcases parts_conjoined _ p part with start | ⟨q, mem, inside⟩
    · exact Or.inl (mem_singleton.mp start)
    · obtain ⟨kept, other⟩ := mem_filter.mp mem
      have whole := (Expr.parts_part kept).1
      rw [whole] at inside
      cases mem_singleton.mp inside
      exact Or.inr ⟨kept, by simpa using other⟩
  · refine Or.inr ⟨part, (p.mentions_false name).mpr fun r mem => ?_⟩
    have absent := (e.mentions_false name).mp (by simpa using mentioned)
    exact absent r ((Expr.parts_part part).2 r mem)

theorem get_assign (c : Constraints) (name other : String) (type : Option ValueType) :
    (c.assign name type).get? other =
      if other = name then some ⟨.truth true, type⟩
      else (c.get? other).map fun k => { k with expr := without name k.expr } := by
  unfold assign seed
  by_cases same : other = name
  · rw [if_pos same, same, Named.get_set_self]
  · rw [if_neg same, Named.get_set_other _ _ same]
    induction c with
    | nil => rfl
    | cons entry rest hyp =>
      by_cases here : entry.1 = other
      · simp [Named.get?, here, same]
      · simp only [Named.get?, map_cons, find?_cons] at hyp ⊢
        by_cases named : entry.1 = name
        · simpa [named, Ne.symm same] using hyp
        · simpa [named, here] using hyp

variable (W : World)

-- What is known is true, as far as it does not mention certain names.
def TrueBut (names : String → Prop) (c : Constraints) (σ : Stack) : Prop :=
  ∀ name k, c.get? name = some k → ∀ p ∈ k.expr.parts, (∀ n, names n → p.mentions n = false) →
    p.truth? W.arithmetic (σ.read W.device) = some true

def Known (c : Constraints) (σ : Stack) : Prop :=
  ∀ name k, c.get? name = some k → k.expr.truth? W.arithmetic (σ.read W.device) = some true

theorem known_iff (c : Constraints) (σ : Stack) : Known W c σ ↔ TrueBut W (fun _ => False) c σ := by
  constructor
  · intro known name k found p part _
    exact (Expr.truth_parts _ _ _).mp (known name k found) p part
  · intro known name k found
    exact (Expr.truth_parts _ _ _).mpr fun p part => known name k found p part fun _ absurd => absurd.elim

theorem TrueBut.mono (names wider : String → Prop) (known : TrueBut W names c σ) (within : ∀ n, names n → wider n) :
    TrueBut W wider c σ :=
  fun name k found p part free => known name k found p part fun n named => free n (within n named)

theorem Known.true_but (names : String → Prop) (known : Known W c σ) : TrueBut W names c σ :=
  ((known_iff W c σ).mp known).mono W _ names fun _ absurd => absurd.elim

theorem TrueBut.frame (τ : Stack) (known : TrueBut W names c σ)
    (alike : ∀ n, ¬ names n → (σ.read W.device n).Alike (τ.read W.device n)) : TrueBut W names c τ := by
  intro name k found p part free
  rw [← known name k found p part free]
  refine (Expr.truth_alike _ _ _ p fun r mem => alike r.name fun named => ?_).symm
  exact (p.mentions_false r.name).mp (free r.name named) r mem rfl

theorem true_but_assign (names : String → Prop) (c : Constraints) (name : String) (type : Option ValueType)
    (known : TrueBut W (fun n => n = name ∨ names n) c σ) : TrueBut W names (c.assign name type) σ := by
  intro other k found p part free
  rw [get_assign] at found
  split_ifs at found with same
  · cases found
    cases mem_singleton.mp part
    rfl
  · obtain ⟨k', found', rfl⟩ := Option.map_eq_some_iff.mp found
    rcases parts_without part with rfl | ⟨part', absent⟩
    · rfl
    · refine known other k' found' p part' fun n named => ?_
      rcases named with rfl | named
      · exact absent
      · exact free n named

theorem true_but_forget {forgotten : List (String × Option ValueType)} (c : Constraints)
    (known : TrueBut W (fun n => (∃ type, (n, type) ∈ forgotten) ∨ names n) c σ) :
    TrueBut W names (forgotten.foldl (fun c (name, type) => c.assign name type) c) σ := by
  induction forgotten generalizing c with
  | nil =>
    refine known.mono W _ names fun n named => ?_
    rcases named with ⟨type, mem⟩ | named
    · cases mem
    · exact named
  | cons first rest hyp =>
    refine hyp _ (true_but_assign W _ c first.1 first.2 (known.mono W _ _ fun n named => ?_))
    rcases named with ⟨type, mem⟩ | named
    · rcases mem_cons.mp mem with rfl | mem
      · exact Or.inl rfl
      · exact Or.inr (Or.inl ⟨type, mem⟩)
    · exact Or.inr (Or.inr named)

theorem known_set (name : String) {k : Constraint} (known : Known W c σ)
    (holds : k.expr.truth? W.arithmetic (σ.read W.device) = some true) : Known W (c.set name k) σ := by
  intro other k' found
  by_cases same : other = name
  · rw [same, Named.get_set_self] at found
    cases found
    exact holds
  · rw [Named.get_set_other _ _ same] at found
    exact known other k' found

theorem truth_conjoin {A : Arithmetic} {env : String → Value} {e : Expr} (known : e.truth? A env = some true)
    (holds : cond.truth? A env = some true) : (conjoin e cond).truth? A env = some true := by
  unfold conjoin
  split
  · exact holds
  · rw [Expr.truth?, known]
    exact holds

theorem known_restrict (c : Constraints) (known : Known W c σ)
    (holds : cond.truth? W.arithmetic (σ.read W.device) = some true) : Known W (c.restrict cond) σ := by
  unfold restrict
  induction cond.refs generalizing c with
  | nil => exact known
  | cons r rest hyp =>
    refine hyp _ (known_set W r.name known (truth_conjoin ?_ holds))
    cases found : c.get? r.name with
    | none => rfl
    | some k => exact known r.name k found

end Constraints

namespace Graph

open Constraints

variable (g : Graph) (W : World)

def Forgotten (b : Block) (name : String) : Prop :=
  (b.kind = .whileLoop ∨ b.kind = .forLoop) ∧ ∃ type, (name, type) ∈ g.assignedIn b

theorem known_devices (c : Constraints) (σ : Stack) (known : Known W c σ) : Known W (g.seedDevices c) σ := by
  unfold seedDevices
  induction g.devices generalizing c with
  | nil => exact known
  | cons d rest hyp => exact hyp _ (known_set W d.name known rfl)

theorem known_branch (apart : g.Apart σ) {holds : Bool} (branched : g.branchOn c b holds = .ok c')
    (truth : (g.slotTerm b .cond).truth? W σ = some holds) (known : Known W c σ) : Known W c' σ := by
  unfold branchOn at branched
  split at branched
  · cases branched
  · next cond composed =>
      cases branched
      have means := compose_means g W σ apart cond composed
      refine known_restrict W c known ?_
      cases holds with
      | true => exact means.truth.trans truth
      | false =>
        change Option.map _ (cond.truth? W.arithmetic (σ.read W.device)) = _
        rw [means.truth.trans truth]
        rfl

theorem known_reset (known : TrueBut W (fun n => ∃ type, (n, type) ∈ g.assignedIn b) c σ) :
    Known W (g.resetAssigned c b) σ := by
  rw [known_iff]
  exact true_but_forget W c (known.mono W _ _ fun n named => Or.inl named)

theorem true_but_declare (x : Binding) (type : Option ValueType) (known : TrueBut W names c σ) :
    TrueBut W names (c.assign x.name type) (x :: σ) := by
  have wider := known.mono W names (fun n => n = x.name ∨ names n) fun n named => Or.inr named
  refine true_but_assign W names c x.name type (wider.frame W (x :: σ) fun n other => ?_)
  rw [Stack.read_push W.device σ (Ne.symm (not_or.mp other).1)]
  exact Value.Alike.refl

theorem known_write (name : String) (type : Option ValueType) (v : Value) (known : Known W c σ) :
    Known W (c.assign name type) (σ.write name v) := by
  rw [known_iff]
  refine true_but_assign W _ c name type ?_
  have wider := known.true_but W (fun n => n = name ∨ False)
  have differs := Stack.differs_write (fun n => n = name ∨ False) σ name v (Or.inl (Or.inl rfl))
  exact wider.frame W _ fun n other => differs.read _ W.device other

variable {v : Value} {id root : Nat} {x : Exit} {τ : Stack} {o : Observed}

theorem known_given {t : Block} {x : Binding} (kind : b.kind = .assign) (target : g.slotBlock? b .var = some t)
    (reference : t.isReference = true) (bound : σ.binding? t.name = some x) (given : g.Gives W b x.type v)
    (known : Known W c σ) : Known W (g.assigned c b) (σ.write t.name v) := by
  have named : g.target? b = some (t.name, g.refType t) := by
    simp [target?, target, reference]
  have forgotten := known_write W t.name (g.refType t) v known
  rw [assigned, named]
  dsimp only
  split
  · next value found =>
      split
      · next literal number =>
          simp only [Gives, kind, if_true, found, literal, number] at given
          obtain ⟨q, quantity, rfl⟩ := Option.map_eq_some_iff.mp given
          refine known_set W t.name forgotten ?_
          have read := Stack.read_write_self W.device (.number q) bound
          simp [Expr.truth?, BinaryOp.ordering?, Expr.order?, Expr.value?, read, quantity, Value.beside, Expr.isText,
            Value.order?]
      · exact forgotten
  · exact forgotten

theorem Linked.exits_apart (linked : g.Linked) (id : Nat) (b : Block) (x y : Exit) (found : g.block? id = some b)
    (leads : b.exit x ≠ 0) (different : x ≠ y) : b.exit x ≠ b.exit y := by
  intro same
  have links : g.links? id = some b.links := by rw [links?, found, Option.map_some]
  exact different (linked.apart id b.links x y links (by simpa using leads) (by simpa using same))

-- What is known after a statement is true when control leaves it, if what was known before was true.
theorem passed_known (linked : g.Linked) (found : g.block? id = some b) (takes : g.Takes W b σ x τ)
    (leads : b.exit x ≠ 0) (apart : g.Apart σ) (passed : g.passed c b (b.exit x) = .ok c')
    (before : TrueBut W (g.Forgotten b) c σ) : Known W c' τ := by
  -- outside of loops nothing is forgotten
  have straight : ¬ (b.kind = .whileLoop ∨ b.kind = .forLoop) → Known W c σ := fun other =>
    (known_iff W c σ).mpr (before.mono W _ _ fun n forgotten => other forgotten.1)
  have looping : b.kind = .whileLoop ∨ b.kind = .forLoop →
      TrueBut W (fun n => ∃ type, (n, type) ∈ g.assignedIn b) c σ := fun loop =>
    before.mono W _ _ fun n forgotten => forgotten.2
  unfold Graph.passed at passed
  cases takes with
  | start kind =>
    simp only [kind, exit, if_true] at passed
    cases passed
    exact known_devices g W c σ (straight (by simp [kind]))
  | event kind fires =>
    simp only [kind, exit, ne_eq, not_true, if_false] at passed
    have devices := known_devices g W c σ (straight (by simp [kind]))
    split at passed
    · cases passed
      exact devices
    · next cond slot =>
        split_ifs at passed with interrupt
        · cases passed
          exact devices
        · have holds := (fires cond slot).resolve_left interrupt
          exact known_branch g W apart passed holds devices
  | declare v kind allowed =>
    simp only [kind, exit, if_true] at passed
    cases passed
    have known := (known_iff W c σ).mp (straight (by simp [kind]))
    exact (known_iff W _ _).mpr (true_but_declare W ⟨b.name, b.type, v⟩ b.type known)
  | give t y v kind target reference bound given =>
    have known := straight (by rcases kind with kind | kind <;> simp [kind])
    rcases kind with kind | kind
    · simp only [kind, exit, if_true] at passed
      cases passed
      exact known_given g W kind target reference bound given known
    · have named : g.target? b = some (t.name, g.refType t) := by
        simp [target?, target, reference]
      simp only [kind, exit, if_true, named, Option.elim_some] at passed
      cases passed
      exact known_write W t.name _ v known
  | giveItem t name y old new kind target element root bound held =>
    have unnamed : g.target? b = none := by
      simp [target?, target, isReference, element]
    have known := straight (by rcases kind with kind | kind <;> simp [kind])
    have same : c' = c := by
      rcases kind with kind | kind
      · simpa [kind, exit, assigned, unnamed] using passed.symm
      · simpa [kind, exit, unnamed] using passed.symm
    rw [same, known_iff]
    have differs := Stack.differs_write (fun _ => False) σ name (.array new) (Or.inr fun z found => by
      rw [bound] at found
      cases found
      exact Or.inr ⟨old, new, held, rfl⟩)
    exact ((known_iff W c σ).mp known).frame W _ fun n other => differs.read _ W.device other
  | print kind =>
    simp only [kind, exit, if_true] at passed
    cases passed
    exact straight (by simp [kind])
  | affirm kind holds =>
    have known := straight (by rcases kind with kind | kind <;> simp [kind])
    have branched : g.branchOn c b true = .ok c' := by
      rcases kind with kind | kind <;> simpa [kind, exit, show b.body ≠ 0 from leads] using passed
    exact known_branch g W apart branched holds known
  | deny kind fails =>
    have known := straight (by rcases kind with kind | kind <;> simp [kind])
    have unlike := linked.exits_apart g id b .otherwise .body found leads (by simp)
    have branched : g.branchOn c b false = .ok c' := by
      rcases kind with kind | kind <;>
        simpa [kind, exit, show b.otherwise ≠ 0 from leads, show b.otherwise ≠ b.body from unlike] using passed
    exact known_branch g W apart branched fails known
  | enter kind holds =>
    simp only [kind, exit, if_true] at passed
    have known := known_reset g W (looping (Or.inl kind))
    exact known_branch g W apart passed holds known
  | stop kind fails =>
    have unlike : b.next ≠ b.body := linked.exits_apart g id b .next .body found leads (by simp)
    simp only [kind, exit, unlike, if_false, if_true] at passed
    have known := known_reset g W (looping (Or.inl kind))
    exact known_branch g W apart passed fails known
  | count v kind allowed =>
    simp only [kind, exit, if_true] at passed
    cases passed
    exact known_reset g W (true_but_declare W ⟨b.name, b.type, v⟩ b.type (looping (Or.inr kind)))
  | finish kind =>
    have unlike : b.next ≠ b.body := linked.exits_apart g id b .next .body found leads (by simp)
    simp only [kind, exit, unlike, if_false, if_true] at passed
    cases passed
    exact known_reset g W (looping (Or.inr kind))

theorem links_block (found : g.block? id = some b) : g.links? id = some b.links := by
  rw [links?, found, Option.map_some]

theorem Linked.target (linked : g.Linked) (id : Nat) (b : Block) (x : Exit) (found : g.block? id = some b)
    (leads : b.exit x ≠ 0) : ∃ t, g.block? (b.exit x) = some t ∧ t.id = b.exit x ∧ t.parent = id ∧
    t.kind.isTop = false := by
  obtain ⟨l, links, parent, low⟩ := linked.back id b.links x (links_block g found) (by simpa using leads)
  rw [links_exit, links?, Option.map_eq_some_iff] at links
  obtain ⟨t, block, rfl⟩ := links
  exact ⟨t, block, linked.numbered _ _ (links_block g block), parent, low⟩

-- A walk finds everything that a run from the statement may change. Statements are made in order, so that the
-- number of blocks bounds how deep they are.
theorem walk_changes (linked : g.Linked) (changes : g.Changes id name) (fuel : Nat)
    (low : ∀ b, g.block? id = some b → b.kind.isTop = false) (enough : g.size < fuel + id) :
    ∃ b ∈ g.walkFrom (fun _ => true) fuel id,
      (b.kind = .assign ∨ b.kind = .input) ∧ ∃ type, g.target? b = some (name, type) := by
  induction changes generalizing fuel with
  | here id b t found kind target reference =>
    have bounds := (g.links_defined id).mp ⟨_, links_block g found⟩
    obtain ⟨rest, rfl⟩ : ∃ rest, fuel = rest + 1 := ⟨fuel - 1, by omega⟩
    rw [walkFrom, found]
    exact ⟨b, by simp, kind, g.refType t, by simp [target?, target, reference]⟩
  | beyond id b x name found rest hyp =>
    have bounds := (g.links_defined id).mp ⟨_, links_block g found⟩
    obtain ⟨less, rfl⟩ : ∃ less, fuel = less + 1 := ⟨fuel - 1, by omega⟩
    have leads : b.exit x ≠ 0 := by
      intro none
      rw [none] at rest
      cases rest with
      | here _ _ _ found => cases found
      | beyond _ _ _ _ found => cases found
    obtain ⟨t, block, -, -, below⟩ := linked.target g id b x found leads
    have order : id < b.exit x := by
      have later := linked.later id b.links x (links_block g found) (by simpa using leads)
      rw [links_exit] at later
      refine later.resolve_left fun start => ?_
      have kind : b.kind = .start := start
      have := low b found
      rw [kind] at this
      cases this
    obtain ⟨y, mem, found'⟩ := hyp less (fun t' same => by rw [block] at same; cases same; exact below) (by omega)
    refine ⟨y, ?_, found'⟩
    rw [walkFrom, found]
    cases x <;> simp_all [exit]

theorem forgotten_changes (linked : g.Linked) (found : g.block? id = some b)
    (loop : b.kind = .whileLoop ∨ b.kind = .forLoop) (changes : g.Changes b.body name) : g.Forgotten b name := by
  refine ⟨loop, ?_⟩
  have leads : b.body ≠ 0 := by
    intro none
    rw [none] at changes
    cases changes with
    | here _ _ _ found => cases found
    | beyond _ _ _ _ found => cases found
  obtain ⟨t, block, -, -, low⟩ := linked.target g id b .body found leads
  obtain ⟨y, mem, kind, type, named⟩ := walk_changes g linked changes g.size
    (fun t' same => by rw [show b.body = b.exit .body from rfl, block] at same; cases same; exact low)
    (Nat.lt_add_of_pos_right (Nat.pos_of_ne_zero leads))
  exact ⟨type, mem_filterMap.mpr ⟨y, mem, by rw [if_pos kind, named]⟩⟩

-- The way from the start of a chain to a statement, by the exits that lead there.
inductive Way (root : Nat) : Nat → List Step → Prop
  | root : Way root root []
  | step (id : Nat) (b : Block) (x : Exit) (way : List Step) (before : Way root id way)
      (found : g.block? id = some b) (leads : b.exit x ≠ 0) : Way root (b.exit x) (way ++ [⟨b, b.exit x⟩])

theorem along_append (way : List Step) (s : Step) (c : Constraints) :
    g.along (way ++ [s]) c =
      match g.along way c with
      | .error fault => .error fault
      | .ok c' => g.passed c' s.block s.next := by
  induction way generalizing c with
  | nil =>
    simp only [nil_append, along]
    cases g.passed c s.block s.next <;> rfl
  | cons first rest hyp =>
    simp only [cons_append, along]
    cases g.passed c first.block first.next with
    | error fault => rfl
    | ok c' => exact hyp c'

theorem way_found (linked : g.Linked) {way : List Step} (path : g.Way root id way)
    (top : ∀ b, g.block? root = some b → b.kind.isTop = true) (fuel next : Nat) (b : Block) {found : List Step}
    (acc : List Step) (block : g.block? id = some b) (result : g.wayFrom point fuel id next acc = .ok found) :
    found = way ++ ⟨b, next⟩ :: acc := by
  induction path generalizing fuel next b acc with
  | root =>
    cases fuel with
    | zero => cases result
    | succ fuel =>
      simp only [wayFrom, block, top b block, if_true] at result
      split_ifs at result
      cases result
      rfl
  | step id source x way before source_found leads hyp =>
    cases fuel with
    | zero => cases result
    | succ fuel =>
      obtain ⟨t, target, number, parent, low⟩ := linked.target g id source x source_found leads
      rw [target] at block
      cases block
      simp only [wayFrom, target, low, Bool.false_eq_true, if_false] at result
      split_ifs at result with statement hung
      rw [parent, number] at result
      have := hyp fuel _ source _ source_found result
      rw [this]
      simp

def NamesApart : Prop :=
  ∀ id b, g.block? id = some b → b.kind = .variableDecl ∨ b.kind = .forLoop → g.device? b.name = none

theorem mem_write {y : Binding} (mem : y ∈ σ.write name v) :
    ∃ x ∈ σ, y = x ∨ σ.binding? name = some x ∧ y = { x with value := v } := by
  induction σ with
  | nil => cases mem
  | cons x rest hyp =>
    rw [Stack.write] at mem
    by_cases same : x.name = name
    · rw [if_pos same] at mem
      rcases mem_cons.mp mem with rfl | mem
      · exact ⟨x, by simp, Or.inr ⟨by simp [Stack.binding?, same], rfl⟩⟩
      · exact ⟨y, by simp [mem], Or.inl rfl⟩
    · rw [if_neg same] at mem
      rcases mem_cons.mp mem with rfl | mem
      · exact ⟨y, by simp, Or.inl rfl⟩
      · obtain ⟨z, inside, origin⟩ := hyp mem
        exact ⟨z, by simp [inside], by simpa [Stack.binding?, same] using origin⟩

theorem takes_apart (names : g.NamesApart) (found : g.block? id = some b) (takes : g.Takes W b σ x τ)
    (apart : g.Apart σ) : g.Apart τ := by
  have written : ∀ name v, g.Apart (σ.write name v) := by
    intro name v y mem
    obtain ⟨z, inside, rfl | ⟨-, rfl⟩⟩ := mem_write mem
    · exact apart y inside
    · exact apart z inside
  cases takes with
  | start | event | print | affirm | deny | enter | stop | finish => exact apart
  | declare v kind => exact forall_mem_cons.mpr ⟨names id b found (Or.inl kind), apart⟩
  | count v kind => exact forall_mem_cons.mpr ⟨names id b found (Or.inr kind), apart⟩
  | give => exact written _ _
  | giveItem => exact written _ _

-- On the way to a statement, what is known there is true as far as a loop cannot have changed it.
def Ready (root id : Nat) (σ : Stack) : Prop :=
  ∃ way, g.Way root id way ∧ ∀ b c, g.block? id = some b → g.along way [] = .ok c → TrueBut W (g.Forgotten b) c σ

theorem Ready.step (linked : g.Linked) (found : g.block? id = some b) (takes : g.Takes W b σ x τ) (apart : g.Apart σ)
    (leads : b.exit x ≠ 0) (ready : g.Ready W root id σ) : g.Ready W root (b.exit x) τ := by
  obtain ⟨way, path, known⟩ := ready
  refine ⟨way ++ [⟨b, b.exit x⟩], .step id b x way path found leads, fun t c _ known' => ?_⟩
  rw [along_append] at known'
  split at known'
  · cases known'
  · next c₀ before =>
      have after := passed_known g W linked found takes leads apart known' (known b c₀ found before)
      exact after.true_but W _

theorem Linked.branch_unknown (linked : g.Linked) (found : g.block? id = some b)
    (kind : b.kind = .ifThen ∨ b.kind = .ifElse) (leads : b.next ≠ 0) (c c' : Constraints) :
    g.passed c b b.next ≠ .ok c' := by
  have body : b.next ≠ b.body := linked.exits_apart g id b .next .body found leads (by simp)
  have other : b.next ≠ b.otherwise := linked.exits_apart g id b .next .otherwise found leads (by simp)
  rcases kind with kind | kind <;> simp [Graph.passed, kind, body, other]

-- What holds of nothing, and what forgetting, seeding, setting and joining conditions keep, holds of everything that
-- the analysis finds.
section Induction

variable (Q : Constraints → Prop) (assign : ∀ c name type, Q c → Q (c.assign name type))
  (set : ∀ c name type, Q c → Q (c.set name ⟨.truth true, type⟩))
  (literal : ∀ c name type value v, g.block? value.id = some value → value.kind = .literal → value.number? = some v →
    Q c → Q (c.set name ⟨.eq (.ref ⟨name, type⟩) (.num v), type⟩))
  (restrict : ∀ c id cond (holds : Bool), g.compose id = .ok cond → Q c →
    Q (c.restrict (if holds then cond else .neg cond)))

include set in
theorem devices_induction (c : Constraints) (before : Q c) : Q (g.seedDevices c) := by
  unfold seedDevices
  induction g.devices generalizing c with
  | nil => exact before
  | cons d rest hyp => exact hyp _ (set c d.name d.type before)

include assign in
theorem reset_induction (c : Constraints) (b : Block) (before : Q c) : Q (g.resetAssigned c b) := by
  unfold resetAssigned
  induction g.assignedIn b generalizing c with
  | nil => exact before
  | cons first rest hyp => exact hyp _ (assign c first.1 first.2 before)

include restrict in
theorem branch_induction {holds : Bool} (before : Q c) (branched : g.branchOn c b holds = .ok c') : Q c' := by
  unfold branchOn at branched
  split at branched
  · cases branched
  · next cond composed =>
      cases branched
      exact restrict c _ cond holds composed before

include assign literal in
theorem assigned_induction (linked : g.Linked) (b : Block) (before : Q c) : Q (g.assigned c b) := by
  unfold assigned
  split
  · exact before
  · next name type _ =>
      have fresh := assign c name type before
      dsimp only
      split
      · next value found =>
          split
          · next kind number =>
              have same := linked.numbered _ _ (links_block g found)
              exact literal _ name type value _ (by rw [show value.id = b.slot .value from same]; exact found) kind
                number fresh
          · exact fresh
      · exact fresh

include assign set literal restrict

theorem passed_induction (linked : g.Linked) (before : Q c) (passed : g.passed c b next = .ok c') : Q c' := by
  have onward : ∀ c₀ : Constraints, Q c₀ →
      (if next = b.next then Except.ok c₀ else .error (PointFault.unreachable b.id b.kind next)) = Except.ok c' →
      Q c' := by
    intro c₀ fine taken
    split_ifs at taken
    cases taken
    exact fine
  have branching : (if next ≠ 0 ∧ next = b.body then g.branchOn c b true
      else if next ≠ 0 ∧ next = b.otherwise then g.branchOn c b false
      else .error (PointFault.unreachable b.id b.kind next)) = Except.ok c' → Q c' := by
    intro taken
    split_ifs at taken
    · exact branch_induction g Q restrict before taken
    · exact branch_induction g Q restrict before taken
  have devices := devices_induction g Q set c before
  have reset := reset_induction g Q assign c b before
  unfold Graph.passed at passed
  dsimp only at passed
  split at passed
  · exact onward _ devices passed
  · split_ifs at passed
    split at passed
    · cases passed
      exact devices
    · split_ifs at passed
      · cases passed
        exact devices
      · exact branch_induction g Q restrict devices passed
  · exact onward _ (assign c b.name b.type before) passed
  · exact onward _ (assigned_induction g Q assign literal linked b before) passed
  · refine onward _ ?_ passed
    cases g.target? b with
    | none => exact before
    | some target => exact assign c target.1 target.2 before
  · exact onward _ before passed
  · exact branching passed
  · exact branching passed
  · split_ifs at passed
    · exact branch_induction g Q restrict reset passed
    · exact branch_induction g Q restrict reset passed
  · split_ifs at passed
    · cases passed
      exact reset_induction g Q assign _ b (assign c b.name b.type before)
    · cases passed
      exact reset
  · cases passed

theorem analyze_induction (linked : g.Linked) (start : Q []) (analyzed : g.analyze point next = .ok c) : Q c := by
  have steps : ∀ way c c', Q c → g.along way c = .ok c' → Q c' := by
    intro way
    induction way with
    | nil =>
      intro c c' before result
      cases result
      exact before
    | cons s rest hyp =>
      intro c c' before result
      rw [along] at result
      split at result
      · cases result
      · next c₀ passed =>
          exact hyp c₀ c' (passed_induction g Q assign set literal restrict linked before passed)
            result
  unfold analyze at analyzed
  split at analyzed
  · cases analyzed
  · next way _ => exact steps way [] c start analyzed

end Induction

theorem distinct_assign (c : Constraints) (name : String) (type : Option ValueType) (distinct : c.Distinct) :
    (c.assign name type).Distinct := by
  refine Named.distinct_set _ name ?_
  unfold Named.Distinct
  rw [map_map, map_congr_left (g := Prod.fst)]
  · exact distinct
  · intro entry _
    dsimp only [Function.comp]
    split_ifs <;> rfl

theorem distinct_restrict (c : Constraints) (distinct : c.Distinct) : (c.restrict cond).Distinct := by
  unfold restrict
  induction cond.refs generalizing c with
  | nil => exact distinct
  | cons r rest hyp => exact hyp _ (Named.distinct_set c r.name distinct)

theorem distinct_analyze (linked : g.Linked) (analyzed : g.analyze point next = .ok c) : c.Distinct :=
  analyze_induction g Named.Distinct distinct_assign (fun c name _ => Named.distinct_set c name)
    (fun c name _ _ _ _ _ _ => Named.distinct_set c name) (fun c _ _ _ _ => distinct_restrict c) linked
    nodup_nil analyzed

theorem Takes.loop_extends (kind : b.kind = .whileLoop ∨ b.kind = .forLoop) (names : String → Prop)
    (takes : g.Takes W b σ .body τ) : Stack.Extends names σ τ := by
  cases takes with
  | enter => exact ⟨[], σ, rfl, Stack.Differs.refl names σ⟩
  | count v => exact ⟨[_], σ, rfl, Stack.Differs.refl names σ⟩
  | event other => rw [other] at kind; simp at kind
  | affirm other => rcases other with other | other <;> rw [other] at kind <;> simp at kind

theorem runs_none (run : g.Runs W id σ o) (none : g.block? id = none) : o = .ended σ ∨ o = .reached id σ := by
  cases run with
  | ended => exact Or.inl rfl
  | reached => exact Or.inr rfl
  | _ => simp_all

theorem runs_ready (linked : g.Linked) (names : g.NamesApart) (run : g.Runs W id σ o) (ready : g.Ready W root id σ)
    (apart : g.Apart σ) (τ : Stack) (reached : o = .reached point τ) (there : point ≠ 0) :
    g.Ready W root point τ ∧ g.Apart τ := by
  have stays : ∀ id σ o, g.Runs W id σ o → g.Apart σ → g.Apart o.stack :=
    Runs.all g W (fun y => g.device? y.name = none) fun id b σ x τ found takes =>
      takes_apart g W names found takes
  have leaves : ∀ (σ ρ : Stack), g.Apart ρ → g.Apart (σ.leave ρ) := fun σ ρ inner y mem =>
    inner y (mem_of_mem_drop mem)
  -- a run from nowhere comes to no statement
  have beyond : ∀ (m : Nat) (σ : Stack) (o : Observed), g.Runs W m σ o → o = .reached point τ → m ≠ 0 := by
    rintro m σ o run reached rfl
    rcases runs_none g W run rfl with ended | stayed
    · cases ended.symm.trans reached
    · cases stayed.symm.trans reached
      exact there rfl
  induction run with
  | ended id σ none => cases reached
  | crossed id b σ x ρ found takes => cases reached
  | passed id b σ x ρ μ found kind takes within hyp => cases reached
  | handled id b σ ρ μ found kind takes within hyp => cases reached
  | reached id σ =>
    cases reached
    exact ⟨ready, apart⟩
  | onward id b σ ρ o found takes rest hyp =>
    have ready' := ready.step g W linked found takes apart (beyond b.next ρ o rest reached)
    exact hyp ready' (takes_apart g W names found takes apart) reached
  | inside id b σ x ρ o found takes within goes hyp =>
    have ready' := ready.step g W linked found takes apart (beyond _ ρ o within reached)
    exact hyp ready' (takes_apart g W names found takes apart) reached
  | joined id b σ x ρ μ o found kind takes within rest hyp hyp' =>
    have inner := stays _ ρ _ within (takes_apart g W names found takes apart)
    have leads := beyond b.next _ o rest reached
    obtain ⟨way, path, -⟩ := ready
    have onward : g.Way root b.next (way ++ [⟨b, b.next⟩]) := Way.step id b .next way path found leads
    refine hyp' ⟨_, onward, fun t c _ result => ?_⟩ (leaves σ μ inner) reached
    rw [along_append] at result
    split at result
    · cases result
    · next c₀ before => exact absurd result (linked.branch_unknown g found kind leads c₀ c)
  | repeated id b σ ρ μ o found kind takes within rest hyp hyp' =>
    have inner := stays _ ρ _ within (takes_apart g W names found takes apart)
    have body := (within.extends g W μ rfl).mono _ (g.Forgotten b)
      fun n changes => forgotten_changes g linked found kind changes
    have differs := ((takes.loop_extends g W kind (g.Forgotten b)).trans _ body).leave
    obtain ⟨way, path, known⟩ := ready
    refine hyp' ⟨way, path, fun b' c found' result => ?_⟩ (leaves σ μ inner) reached
    cases found.symm.trans found'
    exact (known b c found result).frame W _ fun n other => differs.read _ W.device other

theorem runs_crossed (run : g.Runs W id σ o) (point next : Nat) (τ : Stack) (crossed : o = .crossed point next τ) :
    ∃ b ρ, g.block? point = some b ∧ g.Runs W id σ (.reached point ρ) ∧
      ((∃ x, g.Takes W b ρ x τ ∧ next = b.exit x) ∨ (b.kind = .ifThen ∨ b.kind = .ifElse) ∧ next = b.next) := by
  induction run with
  | ended id σ none => cases crossed
  | reached id σ => cases crossed
  | handled id b σ ρ μ found kind takes within hyp => cases crossed
  | crossed id b σ x ρ found takes =>
    cases crossed
    exact ⟨b, σ, found, .reached _ σ, Or.inl ⟨x, takes, rfl⟩⟩
  | passed id b σ x ρ μ found kind takes within hyp =>
    cases crossed
    exact ⟨b, σ, found, .reached _ σ, Or.inr ⟨kind, rfl⟩⟩
  | onward id b σ ρ o found takes rest hyp =>
    obtain ⟨b', ρ', found', run, way⟩ := hyp crossed
    exact ⟨b', ρ', found', .onward id b σ ρ _ found takes run, way⟩
  | inside id b σ x ρ o found takes within goes hyp =>
    obtain ⟨b', ρ', found', run, way⟩ := hyp crossed
    exact ⟨b', ρ', found', .inside id b σ x ρ _ found takes run rfl, way⟩
  | joined id b σ x ρ μ o found kind takes within rest hyp hyp' =>
    obtain ⟨b', ρ', found', run, way⟩ := hyp' crossed
    exact ⟨b', ρ', found', .joined id b σ x ρ μ _ found kind takes within run, way⟩
  | repeated id b σ ρ μ o found kind takes within rest hyp hyp' =>
    obtain ⟨b', ρ', found', run, way⟩ := hyp' crossed
    exact ⟨b', ρ', found', .repeated id b σ ρ μ _ found kind takes within run, way⟩

theorem ready_root (root : Nat) : g.Ready W root root [] := by
  refine ⟨[], .root, fun b c _ result => ?_⟩
  cases result
  intro name k found
  cases found

theorem analyze_known (linked : g.Linked) (names : g.NamesApart)
    (top : ∀ b, g.block? root = some b → b.kind.isTop = true) (run : g.Runs W root [] (.crossed point next τ))
    (leads : next ≠ 0) (analyzed : g.analyze point next = .ok c) : Known W c τ := by
  obtain ⟨b, ρ, found, reached, way⟩ := runs_crossed g W run point next τ rfl
  have there : point ≠ 0 := by
    rintro rfl
    cases found
  obtain ⟨⟨steps, path, known⟩, apart⟩ :=
    runs_ready g W linked names reached (ready_root g W root) (by simp [Apart]) ρ rfl there
  unfold analyze wayTo at analyzed
  split at analyzed
  · cases analyzed
  · next result traced =>
      rw [way_found g linked path top _ next b [] found traced, along_append] at analyzed
      split at analyzed
      · cases analyzed
      · next c₀ before =>
          rcases way with ⟨x, takes, rfl⟩ | ⟨kind, rfl⟩
          · exact passed_known g W linked found takes leads apart analyzed (known b c₀ found before)
          · exact absurd analyzed (linked.branch_unknown g found kind leads c₀ c)

-- What is known on entry to a statement is true whenever control comes to it; only loops are come to again from
-- within.
theorem entry_known (linked : g.Linked) (names : g.NamesApart) (top : ∀ b, g.block? root = some b → b.kind.isTop = true)
    (run : g.Runs W root [] (.reached id τ)) (found : g.block? id = some b)
    (straight : ¬ (b.kind = .whileLoop ∨ b.kind = .forLoop)) (analyzed : g.analyzeEntry id = .ok c) : Known W c τ := by
  have there : id ≠ 0 := by
    rintro rfl
    cases found
  obtain ⟨⟨way, path, known⟩, -⟩ :=
    runs_ready g W linked names run (ready_root g W root) (by simp [Apart]) τ rfl there
  simp only [analyzeEntry, entryEdge?, found] at analyzed
  by_cases isTop : b.kind.isTop = true
  · simp only [isTop, if_true] at analyzed
    cases analyzed
    exact known_devices g W [] τ fun name k absent => by cases absent
  · rw [Bool.not_eq_true] at isTop
    simp only [isTop, Bool.false_eq_true, if_false] at analyzed
    by_cases unhung : b.parent = 0
    · simp [unhung] at analyzed
    · simp only [unhung, if_false] at analyzed
      cases path with
      | root => exact absurd (top b found) (by simp [isTop])
      | step source s x before_way path source_found leads =>
        obtain ⟨t, target, -, parent, -⟩ := linked.target g source s x source_found leads
        cases found.symm.trans target
        rw [parent] at analyzed
        unfold analyze wayTo at analyzed
        split at analyzed
        · cases analyzed
        · next result traced =>
            rw [way_found g linked path top _ _ s [] source_found traced] at analyzed
            exact (known_iff W c τ).mpr ((known b c found analyzed).mono W _ _ fun n forgotten =>
              straight forgotten.1)

theorem Rooted.top (rooted : g.Rooted) (root : Nat) (b : Block) (mem : root ∈ g.roots)
    (found : g.block? root = some b) : b.kind.isTop = true := by
  have links := links_block g found
  unfold roots at mem
  rcases mem_append.mp mem with main | handler
  · split_ifs at main with none
    · cases main
    · rw [mem_singleton.mp main] at links
      obtain ⟨l, same, kind⟩ := rooted.main.resolve_left none
      rw [links] at same
      cases same
      rw [show b.kind = .start from kind]
      rfl
  · obtain ⟨l, same, kind⟩ := rooted.handlers root handler
    rw [links] at same
    cases same
    rw [show b.kind = .when from kind]
    rfl

end Graph

-- Whatever a program does, on every edge that control goes over what the analysis says is true of the
-- declarations in force.
theorem analyze_true_of_every_run (document : Markup.Node) (g : Graph) (read : Document.ofNode document = .ok g)
    (names : g.NamesApart) (W : World) (root point next : BlockId) (σ : Stack) (member : root ∈ g.roots)
    (run : g.Runs W root [] (.crossed point next σ)) (leads : next ≠ 0) (c : Constraints)
    (analyzed : g.analyze point next = .ok c) :
    ∀ entry ∈ c, entry.2.expr.truth? W.arithmetic (σ.read W.device) = some true := by
  have orderly := Document.orderly_of_node read
  have top := fun b found => orderly.2.top g root b member found
  have distinct := Graph.distinct_analyze g orderly.1 analyzed
  have known := Graph.analyze_known g W orderly.1 names top run leads analyzed
  exact fun entry filed => known entry.1 entry.2 (c.get_of_mem distinct filed)

def roundsText : String :=
  "main:\n- var: x\n  type: int\n  checked: true\n- while: \x7blt: [\x7bref: x\x7d, 9]\x7d\n  do:\n" ++
    "  - set: \x7bref: x\x7d\n    to: 7\n  - set: \x7bref: x\x7d\n    to: \x7bmod: [21, \x7bref: x\x7d]\x7d\n"

def rounds : Graph where
  main := 14
  blocks := #[
    { id := 1, kind := .variableDecl, line := 2, column := 3, parent := 14, next := 2, name := "x", type := some .int,
      checked := true },
    { id := 2, kind := .whileLoop, line := 5, column := 3, parent := 1, body := 6, slots := [(.cond, 3)] },
    { id := 3, kind := .lt, line := 5, column := 10, slots := [(.left, 4), (.right, 5)] },
    { id := 4, kind := .varRef, line := 5, column := 22, name := "x", decl := 1 },
    { id := 5, kind := .literal, line := 5, column := 26, type := some .int, payload := .number (.finite 9) },
    { id := 6, kind := .assign, line := 7, column := 5, parent := 2, next := 9, slots := [(.var, 7), (.value, 8)] },
    { id := 7, kind := .varRef, line := 7, column := 16, name := "x", decl := 1 },
    { id := 8, kind := .literal, line := 8, column := 9, type := some .int, payload := .number (.finite 7) },
    { id := 9, kind := .assign, line := 9, column := 5, parent := 6, slots := [(.var, 10), (.value, 11)] },
    { id := 10, kind := .varRef, line := 9, column := 16, name := "x", decl := 1 },
    { id := 11, kind := .mod, line := 10, column := 9, slots := [(.left, 12), (.right, 13)] },
    { id := 12, kind := .literal, line := 10, column := 16, type := some .int, payload := .number (.finite 21) },
    { id := 13, kind := .varRef, line := 10, column := 26, name := "x", decl := 1 },
    { id := 14, kind := .start, line := 1, column := 1, next := 1 }]

set_option maxRecDepth 10000 in
theorem rounds_loaded : Document.load roundsText = .ok rounds := by
  decide +kernel

theorem rounds_apart : rounds.NamesApart := fun _ _ _ _ => rfl

def xIs (n : Nat) : Stack := [⟨"x", some .int, .number (.finite n)⟩]

theorem rounds_run (W : World) (free : ∀ n : Nat, n ≤ 9 → W.allowed (some .int) (.number (.finite n))) :
    rounds.Runs W 14 [] (.crossed 6 9 (xIs 7)) := by
  have condition : ∀ n : Nat, n < 9 → (rounds.term 3).truth? W (xIs n) = some true := by
    intro n below
    have compared : (rounds.term 3).truth? W (xIs n) = some (cmp (Quantity.finite n) (.finite 9) == .lt) := rfl
    have order : cmp (Quantity.finite n) (.finite 9) = .lt := by
      rw [cmp_eq_lt_iff, Quantity.finite_lt_finite]
      exact_mod_cast below
    rw [compared, order]
    rfl
  have seven : rounds.Gives W (rounds.blocks.getD 5 default) (some .int) (.number (.finite 7)) := by
    change Option.map Value.number (some (Quantity.finite 7)) = some (.number (.finite 7))
    rfl
  have set : ∀ n : Nat, rounds.Takes W (rounds.blocks.getD 5 default) (xIs n) .next (xIs 7) := fun n =>
    .give (xIs n) (rounds.blocks.getD 6 default) ⟨"x", some .int, .number (.finite n)⟩ (.number (.finite 7))
      (Or.inl rfl)
      rfl rfl rfl seven
  have reduce : rounds.Takes W (rounds.blocks.getD 8 default) (xIs 7) .next (xIs 4) :=
    .give (xIs 7) (rounds.blocks.getD 9 default) ⟨"x", some .int, .number (.finite 7)⟩ (.number (.finite 4))
      (Or.inl rfl)
      rfl rfl rfl (free 4 (by decide))
  -- the start, the declaration and a first round
  refine .onward 14 _ [] [] _ rfl (.start [] rfl) ?_
  refine .onward 1 _ [] (xIs 3) _ rfl (.declare [] _ rfl (free 3 (by decide))) ?_
  refine .repeated 2 _ (xIs 3) (xIs 3) (xIs 4) _ rfl (Or.inl rfl) (.enter _ rfl (condition 3 (by decide))) ?_ ?_
  · refine .onward 6 _ _ (xIs 7) _ rfl (set 3) ?_
    refine .onward 9 _ _ (xIs 4) _ rfl reduce ?_
    exact .ended 0 _ rfl
  -- the second round
  · exact .inside 2 _ (xIs 4) .body (xIs 4) _ rfl (.enter _ rfl (condition 4 (by decide)))
      (.crossed 6 _ _ .next (xIs 7) rfl (set 4)) rfl

set_option maxRecDepth 10000 in
theorem rounds_analyzed : ∃ c, rounds.analyze 6 9 = .ok c ∧
    c.map (fun entry => (entry.1, entry.2.expr.operator)) = [("x", .binary .eq)] := by
  have shown : (rounds.analyze 6 9).toOption.map (fun c => c.map fun entry => (entry.1, entry.2.expr.operator)) =
      some [("x", .binary .eq)] := by decide +kernel
  cases analyzed : rounds.analyze 6 9 with
  | error fault =>
    rw [analyzed] at shown
    cases shown
  | ok c =>
    rw [analyzed] at shown
    exact ⟨c, rfl, Option.some.inj shown⟩

def freeWorld : World := ⟨Arithmetic.exact, fun _ => .number (.finite 0), fun _ _ => True⟩

theorem analyze_true_in_the_second_round :
    ∃ c, Document.load roundsText = .ok rounds ∧ rounds.NamesApart ∧ 14 ∈ rounds.roots ∧
      rounds.Runs freeWorld 14 [] (.crossed 6 9 (xIs 7)) ∧ rounds.analyze 6 9 = .ok c ∧
        c.map (fun entry => (entry.1, entry.2.expr.operator)) = [("x", .binary .eq)] ∧
          ∀ entry ∈ c, entry.2.expr.truth? Arithmetic.exact ((xIs 7).read freeWorld.device) = some true := by
  obtain ⟨c, analyzed, shape⟩ := rounds_analyzed
  have member : 14 ∈ rounds.roots := by decide
  have run := rounds_run freeWorld fun _ _ => trivial
  obtain ⟨document, -, read⟩ := Document.load_node rounds_loaded
  exact ⟨c, rounds_loaded, rounds_apart, member, run, analyzed, shape,
    analyze_true_of_every_run document rounds read rounds_apart freeWorld 14 6 9 (xIs 7) member run
      (by decide) c analyzed⟩

end Blockwork
