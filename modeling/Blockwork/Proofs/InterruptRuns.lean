import Blockwork.Proofs.FunctionNames

set_option autoImplicit false

namespace Blockwork

open List

namespace Cpp

def counterName : String := "__isr_exec_ct"

-- A statement without a body. What it writes is an element of a variable, or the variable itself if the path is empty.
inductive Statement where
  | declare (type name : String)
  | assign (name path value : String)
  | print (value : String)
  | complain (message : String)
  | input (name path : String)

namespace Statement

def text : Statement → String
  | .declare type name => type ++ " " ++ name ++ ";"
  | .assign name path value => name ++ path ++ " = " ++ value ++ ";"
  | .print value => "std::cout << " ++ value ++ " << std::endl;"
  | .complain message => "std::cerr << " ++ message ++ " << std::endl;"
  | .input name path => "std::cin >> " ++ (name ++ path) ++ ";"

def target? : Statement → Option String
  | .assign name _ _ | .input name _ => some name
  | _ => none

end Statement

inductive Form where
  | block
  | ifThen (cond : String)
  | ifElse (cond : String)
  | whileLoop (cond : String)
  | forever

namespace Form

def opening : Form → String
  | .block => "\x7b"
  | .ifThen cond | .ifElse cond => "if (" ++ cond ++ ") \x7b"
  | .whileLoop cond => "while (" ++ cond ++ ") \x7b"
  | .forever => "for (;true;) \x7b"

def cond? : Form → Option String
  | .ifThen cond | .ifElse cond | .whileLoop cond => some cond
  | .block | .forever => none

def repeats : Form → Bool
  | .whileLoop _ | .forever => true
  | _ => false

def branches : Form → Bool
  | .ifElse _ => true
  | _ => false

end Form

-- The body of a function up to its end; a second body counts only for a form that branches. Counting has statements of
-- its own, and the last one is not written: it marks where the statements of a handler begin.
inductive Code where
  | done
  | simple (s : Statement) (rest : Code)
  | compound (form : Form) (body other rest : Code)
  | exit (rest : Code)
  | static (rest : Code)
  | stopAt (limit : Int) (rest : Code)
  | count (rest : Code)
  | enter (rest : Code)

namespace Code

def lines : Code → List String
  | .done => []
  | .simple s rest => s.text :: rest.lines
  | .compound form body other rest =>
    form.opening :: (body.lines.map ("    " ++ ·) ++
      (if form.branches then "\x7d else \x7b" :: other.lines.map ("    " ++ ·) else []) ++ "\x7d" :: rest.lines)
  | .exit rest => "return;" :: rest.lines
  | .static rest => "static int __isr_exec_ct = 0;" :: rest.lines
  | .stopAt limit rest => s!"if (__isr_exec_ct >= {limit}) return;" :: rest.lines
  | .count rest => "__isr_exec_ct++;" :: rest.lines
  | .enter rest => rest.lines

-- Neither counts nor, if the counter is visible, writes it.
def Keeps (visible : Bool) : Code → Prop
  | .done => True
  | .simple s rest => (visible = true → s.target? ≠ some counterName) ∧ rest.Keeps visible
  | .compound _ body other rest => body.Keeps visible ∧ other.Keeps visible ∧ rest.Keeps visible
  | .exit rest => rest.Keeps visible
  | .static _ | .stopAt _ _ | .count _ | .enter _ => False

end Code

-- What statements and conditions do to everything but the counter, which they can read where it is visible, and what a
-- statement that writes the counter leaves in it.
structure Machine (σ : Type) where
  effect : String → Option Int → σ → σ
  test : String → Option Int → σ → Bool × σ
  stored : String → Int → σ → Int

namespace Machine

variable {σ : Type} (M : Machine σ) (visible : Bool)

def seen (n : Int) : Option Int := if visible then some n else none

def after (s : Statement) (x : Int × σ) : Int × σ :=
  (if visible = true ∧ s.target? = some counterName then M.stored s.text x.1 x.2 else x.1,
    M.effect s.text (seen visible x.1) x.2)

def holds (form : Form) (x : Int × σ) : Bool × σ :=
  match form.cond? with
  | some cond => M.test cond (seen visible x.1) x.2
  | none => (true, x.2)

-- What a statement with bodies runs, and what it goes on with if that does not return.
def opened (form : Form) (body other rest : Code) (x : Int × σ) : Code × Code :=
  (if (M.holds visible form x).1 then body else if form.branches then other else .done,
    if (M.holds visible form x).1 && form.repeats then .compound form body other rest else rest)

-- A run of code that ends, from a counter and a state to others. It tells how often the mark has been passed and
-- whether the function has returned. A counter at its largest value may become anything.
inductive Runs : Bool → Code → Int × σ → Nat → Bool → Int × σ → Prop
  | done {visible x} : Runs visible .done x 0 false x
  | simple {visible s rest x marks returned y} (next : Runs visible rest (M.after visible s x) marks returned y) :
      Runs visible (.simple s rest) x marks returned y
  | inside {visible form body other rest x marks y}
      (within : Runs visible (M.opened visible form body other rest x).1
        (x.1, (M.holds visible form x).2) marks true y) :
      Runs visible (.compound form body other rest) x marks true y
  | past {visible form body other rest x marks z more returned y}
      (within : Runs visible (M.opened visible form body other rest x).1
        (x.1, (M.holds visible form x).2) marks false z)
      (next : Runs visible (M.opened visible form body other rest x).2 z more returned y) :
      Runs visible (.compound form body other rest) x (marks + more) returned y
  | exit {visible rest x} : Runs visible (.exit rest) x 0 true x
  | static {visible rest x marks returned y} (next : Runs true rest x marks returned y) :
      Runs visible (.static rest) x marks returned y
  | stopped {visible limit rest x} (reached : limit ≤ x.1) : Runs visible (.stopAt limit rest) x 0 true x
  | under {visible limit rest x marks returned y} (less : x.1 < limit) (next : Runs visible rest x marks returned y) :
      Runs visible (.stopAt limit rest) x marks returned y
  | count {visible rest x n marks returned y} (counted : n = x.1 + 1 ∨ 2 ^ 31 ≤ x.1 + 1)
      (next : Runs visible rest (n, x.2) marks returned y) : Runs visible (.count rest) x marks returned y
  | enter {visible rest x marks returned y} (next : Runs visible rest x marks returned y) :
      Runs visible (.enter rest) x (marks + 1) returned y

variable {M visible}

theorem runs_keeps {c : Code} {x y : Int × σ} {marks : Nat} {returned : Bool} (keeps : c.Keeps visible)
    (run : M.Runs visible c x marks returned y) : marks = 0 ∧ y.1 = x.1 := by
  have opens : ∀ {visible form body other rest} {x : Int × σ}, (Code.compound form body other rest).Keeps visible →
      (M.opened visible form body other rest x).1.Keeps visible ∧
        (M.opened visible form body other rest x).2.Keeps visible := by
    intro visible form body other rest x keeps
    unfold opened
    constructor
    · dsimp only
      split_ifs
      · exact keeps.1
      · exact keeps.2.1
      · trivial
    · dsimp only
      split_ifs
      · exact keeps
      · exact keeps.2.2
  induction run with
  | done | exit => exact ⟨rfl, rfl⟩
  | @simple visible s rest x marks returned y next hyp =>
    have same : (M.after visible s x).1 = x.1 := if_neg fun writes => keeps.1 writes.1 writes.2
    rw [same] at hyp
    exact hyp keeps.2
  | inside within hyp => exact hyp (opens keeps).1
  | past within next hyp hyp' =>
    obtain ⟨rfl, same⟩ := hyp (opens keeps).1
    obtain ⟨rfl, same'⟩ := hyp' (opens keeps).2
    exact ⟨rfl, same'.trans same⟩
  | static | stopped | under | count | enter => exact keeps.elim

end Machine

-- A handler: the interrupt that starts it, the guards and the condition it is polled with, its limit, and its
-- statements.
structure Handler where
  interrupt : String
  guards : List (String × String)
  cond : Option String
  times : Int
  body : Code

def guarded : List (String × String) → Code → Code
  | [], rest => rest
  | guard :: others, rest =>
    .compound (.ifThen guard.1) (.simple (.complain guard.2) (.exit .done)) .done (guarded others rest)

def counted (times : Int) (rest : Code) : Code :=
  if times = unbounded then rest else .static (.stopAt times (.count rest))

-- The counter after another start that is triggered, and how often the statements are entered.
def counting (times n : Int) : Int × Nat :=
  if times = unbounded then (n, 1) else if times ≤ n then (n, 0) else (n + 1, 1)

def Machine.passing {σ : Type} (M : Machine σ) : List (String × String) → σ → Option σ
  | [], state => some state
  | guard :: others, state =>
    if (M.test guard.1 none state).1 then none else M.passing others (M.test guard.1 none state).2

namespace Handler

variable {σ : Type} (M : Machine σ) (h : Handler)

def code : Code :=
  match h.cond with
  | none => counted h.times (.enter h.body)
  | some cond => guarded h.guards (.compound (.ifThen cond) (counted h.times (.enter h.body)) .done .done)

def triggered (state : σ) : Bool :=
  match h.cond with
  | none => true
  | some cond => (M.passing h.guards state).any fun behind => (M.test cond none behind).1

def step (state : σ) (n : Int) : Int × Nat := if h.triggered M state then counting h.times n else (n, 0)

def account : List σ → Int → Int × Nat
  | [], n => (n, 0)
  | state :: later, n =>
    ((account later (h.step M state n).1).1, (h.step M state n).2 + (account later (h.step M state n).1).2)

-- How many of so many starts that are triggered enter the statements.
def allowed (starts : Nat) : Nat := if h.times = unbounded then starts else min h.times.toNat starts

-- Its limit fits the counter, and with a limit its statements leave the counter alone.
structure Countable : Prop where
  small : h.times < 2 ^ 31
  keeps : h.body.Keeps (h.times ≠ unbounded)

end Handler

namespace Machine

variable {σ : Type} {M : Machine σ} {x y : Int × σ} {marks : Nat} {returned : Bool} {cond : String}

theorem runs_if {body rest : Code} (run : M.Runs false (.compound (.ifThen cond) body .done rest) x marks returned y) :
    if (M.test cond none x.2).1 = true then
      M.Runs false body (x.1, (M.test cond none x.2).2) marks true y ∨
        ∃ first later between, marks = first + later ∧
          M.Runs false body (x.1, (M.test cond none x.2).2) first false between ∧
          M.Runs false rest between later returned y
    else M.Runs false rest (x.1, (M.test cond none x.2).2) marks returned y := by
  have opened : M.opened false (.ifThen cond) body .done rest x =
      (if (M.test cond none x.2).1 = true then body else .done, rest) := by
    simp [opened, holds, Form.cond?, seen, Form.repeats, Form.branches]
  cases run with
  | inside within =>
    rw [opened] at within
    split_ifs at within ⊢
    · exact .inl within
    · cases within
  | past within next =>
    rw [opened] at within next
    split_ifs at within ⊢
    · exact .inr ⟨_, _, _, rfl, within, next⟩
    · cases within
      rwa [Nat.zero_add]

variable (h : Handler) (countable : h.Countable)

include countable

theorem runs_counted (run : M.Runs false (counted h.times (.enter h.body)) x marks returned y) :
    (y.1, marks) = counting h.times x.1 := by
  have keeps := countable.keeps
  unfold counted at run
  unfold counting
  split_ifs at run ⊢ with free reached
  · rw [decide_eq_false (not_not.mpr free)] at keeps
    cases run with
    | enter next =>
      obtain ⟨rfl, same⟩ := runs_keeps keeps next
      rw [same]
  · cases run with
    | static next =>
      cases next with
      | stopped => rfl
      | under less => omega
  · rw [decide_eq_true free] at keeps
    cases run with
    | static next =>
      cases next with
      | stopped above => omega
      | under less next =>
        cases next with
        | count counted next =>
          have small := countable.small
          obtain rfl : _ = x.1 + 1 := counted.resolve_right (by omega)
          cases next with
          | enter next =>
            obtain ⟨rfl, same⟩ := runs_keeps keeps next
            rw [same]

-- The induction is on the guards: one that returns has entered nothing.
theorem runs_guarded {guards : List (String × String)}
    (run : M.Runs false (guarded guards (.compound (.ifThen cond) (counted h.times (.enter h.body)) .done .done)) x
      marks returned y) :
    (y.1, marks) =
      if (M.passing guards x.2).any (fun behind => (M.test cond none behind).1) = true then counting h.times x.1
      else (x.1, 0) := by
  induction guards generalizing x with
  | nil =>
    have parts := runs_if run
    change (y.1, marks) = if (M.test cond none x.2).1 = true then counting h.times x.1 else (x.1, 0)
    split_ifs at parts ⊢
    · rcases parts with ended | ⟨first, later, between, rfl, ended, next⟩
      · have entered := runs_counted h countable ended
        exact entered
      · cases next
        have entered := runs_counted h countable ended
        exact entered
    · cases parts
      rfl
  | cons guard others hyp =>
    have parts := runs_if run
    by_cases fails : (M.test guard.1 none x.2).1 = true
    · rw [passing, if_pos fails]
      rw [if_pos fails] at parts
      rcases parts with (_ | ⟨⟨⟩⟩) | ⟨first, later, between, -, (_ | ⟨⟨⟩⟩), -⟩
      rfl
    · rw [passing, if_neg fails]
      rw [if_neg fails] at parts
      exact hyp parts

theorem runs_handler (run : M.Runs false h.code x marks returned y) : (y.1, marks) = h.step M x.2 x.1 := by
  rw [Handler.code] at run
  rw [Handler.step, Handler.triggered]
  rcases polled : h.cond with _ | cond
  · rw [polled] at run
    exact runs_counted h countable run
  · rw [polled] at run
    exact runs_guarded h countable run

end Machine

namespace Handler

variable {σ : Type} (M : Machine σ) (h : Handler)

theorem account_append (first later : List σ) (n : Int) :
    h.account M (first ++ later) n =
      ((h.account M later (h.account M first n).1).1,
        (h.account M first n).2 + (h.account M later (h.account M first n).1).2) := by
  induction first generalizing n with
  | nil => simp [account]
  | cons state first hyp => simp [account, hyp, Nat.add_assoc]

theorem account_bounded (limited : h.times ≠ unbounded) (states : List σ) (n : Int) :
    h.account M states n =
      (n + min (h.times - n).toNat (states.countP (h.triggered M)),
        min (h.times - n).toNat (states.countP (h.triggered M))) := by
  induction states generalizing n with
  | nil => simp [account]
  | cons state later hyp =>
    rw [account, hyp, countP_cons]
    unfold step counting
    split_ifs with triggered reached
    · have none_left : (h.times - n).toNat = 0 := by omega
      simp [none_left]
    · have one_less : (h.times - n).toNat = (h.times - (n + 1)).toNat + 1 := by omega
      rw [one_less, Nat.add_min_add_right]
      refine Prod.ext ?_ (Nat.add_comm _ _)
      dsimp only
      push_cast
      omega
    · simp

theorem account_allowed {states : List σ} : (h.account M states 0).2 = h.allowed (states.countP (h.triggered M)) := by
  by_cases free : h.times = unbounded
  · rw [allowed, if_pos free]
    generalize (0 : Int) = n
    induction states generalizing n with
    | nil => rfl
    | cons state later hyp =>
      rw [account, hyp, countP_cons, Nat.add_comm]
      unfold step counting
      split_ifs <;> rfl
  · rw [h.account_bounded M free, sub_zero, allowed, if_neg free]

end Handler

inductive Body where
  | handler (h : Handler)
  | calls (names : List String)

namespace Body

def lines : Body → List String
  | .handler h => h.code.lines
  | .calls names => callLines names

def handler? : Body → Option Handler
  | .handler h => some h
  | .calls _ => none

end Body

def handlerFunctions (interrupt : String) (handlers : List Handler) : List (FunctionDef Body) :=
  interruptFunctions .handler .calls interrupt handlers

def programFunctions (hs : List Handler) : List (FunctionDef Body) :=
  (hs.map (·.interrupt)).eraseDups.flatMap fun i => handlerFunctions i (hs.filter (·.interrupt = i))

structure Start (σ : Type) where
  name : String
  state : σ
  entered : Nat

section

variable {σ : Type} (name : String)

def starts (log : List (Start σ)) : List σ := (log.filter (·.name = name)).map (·.state)

def entries (log : List (Start σ)) : Nat := ((log.filter (·.name = name)).map (·.entered)).sum

@[simp] theorem starts_append (log log' : List (Start σ)) :
    starts name (log ++ log') = starts name log ++ starts name log' := by
  simp [starts]

@[simp] theorem entries_append (log log' : List (Start σ)) :
    entries name (log ++ log') = entries name log + entries name log' := by
  simp [entries]

theorem starts_cons (x : Start σ) (log : List (Start σ)) :
    starts name (x :: log) = if x.name = name then x.state :: starts name log else starts name log := by
  by_cases same : x.name = name <;> simp [starts, same]

theorem entries_cons (x : Start σ) (log : List (Start σ)) :
    entries name (x :: log) = if x.name = name then x.entered + entries name log else entries name log := by
  by_cases same : x.name = name <;> simp [entries, same]

end

namespace Machine

variable {σ : Type} (M : Machine σ) (fs : List (FunctionDef Body))

-- Functions called one after the other. Each has a counter of its own, which no other sees; what returns from a
-- function goes on behind the call.
inductive Calls : List String → (String → Int) → σ → List (Start σ) → (String → Int) → σ → Prop
  | none {counters state} : Calls [] counters state [] counters state
  | handler {f : FunctionDef Body} {h later counters state marks returned n between log counters' state'}
      (defined : f ∈ fs)
      (body : f.body = .handler h) (run : M.Runs false h.code (counters f.name, state) marks returned (n, between))
      (next : Calls later (Function.update counters f.name n) between log counters' state') :
      Calls (f.name :: later) counters state (⟨f.name, state, marks⟩ :: log) counters' state'
  | calls {f : FunctionDef Body} {names later counters state log counters' between log' counters'' state'}
      (defined : f ∈ fs) (body : f.body = .calls names) (run : Calls names counters state log counters' between)
      (next : Calls later counters' between log' counters'' state') :
      Calls (f.name :: later) counters state (log ++ log') counters'' state'

inductive Invoked (interrupts : List String) : List (String × σ) → (String → Int) → List (Start σ) →
  (String → Int) → Prop
  | none {counters} : Invoked interrupts [] counters [] counters
  | one {i state later counters log counters' state' log' counters''} (handled : i ∈ interrupts)
      (run : M.Calls fs [interruptName i] counters state log counters' state')
      (next : Invoked interrupts later counters' log' counters'') :
      Invoked interrupts ((i, state) :: later) counters (log ++ log') counters''

variable {M fs} (distinct : (fs.map (·.name)).Nodup) {names : List String} {counters counters' : String → Int}
  {state state' : σ} {log : List (Start σ)}

include distinct

theorem same_function {f f' : FunctionDef Body} (defined : f ∈ fs) (defined' : f' ∈ fs) (same : f.name = f'.name) :
    f = f' := inj_on_of_nodup_map distinct defined defined' same

theorem calls_account {f : FunctionDef Body} {h : Handler} (defined : f ∈ fs) (own : f.body = .handler h)
    (countable : h.Countable) (run : M.Calls fs names counters state log counters' state') :
    (counters' f.name, entries f.name log) = h.account M (starts f.name log) (counters f.name) := by
  induction run with
  | none => rfl
  | @handler f' h' later counters state marks returned n between log counters' state' defined' own' run next hyp =>
    rw [starts_cons, entries_cons]
    by_cases same : f'.name = f.name
    · obtain rfl := same_function distinct defined' defined same
      obtain rfl := Body.handler.inj (own'.symm.trans own)
      have step := runs_handler h' countable run
      rw [Function.update_self] at hyp
      rw [if_pos same, if_pos same, Handler.account, ← step, ← hyp]
    · rw [Function.update_of_ne (Ne.symm same)] at hyp
      rw [if_neg same, if_neg same, hyp]
  | calls defined' body run next hyp hyp' => rw [starts_append, entries_append, h.account_append, ← hyp, ← hyp']

theorem calls_started (name : String) (handlers : ∀ x ∈ names, ∃ f ∈ fs, ∃ h, f.name = x ∧ f.body = .handler h)
    (run : M.Calls fs names counters state log counters' state') : (starts name log).length = names.count name := by
  induction run with
  | none => rfl
  | @handler f h later counters state marks returned n between log counters' state' defined own run next hyp =>
    have following := hyp fun x mem => handlers x (mem_cons_of_mem _ mem)
    rw [starts_cons, count_cons, ← following]
    by_cases same : f.name = name <;> simp [same]
  | @calls f names later counters state log counters' between log' counters'' state' defined body =>
    obtain ⟨f', defined', h, same, own⟩ := handlers f.name (mem_cons_self ..)
    obtain rfl := same_function distinct defined' defined same
    cases own.symm.trans body

end Machine

def handlerNames (fs : List (FunctionDef Body)) : List String := (fs.filter (·.body.handler?.isSome)).map (·.name)

theorem mem_handler_names {fs : List (FunctionDef Body)} {name : String} :
    name ∈ handlerNames fs ↔ ∃ f ∈ fs, ∃ h, f.name = name ∧ f.body = .handler h := by
  have owned : ∀ body : Body, body.handler?.isSome = true ↔ ∃ h, body = .handler h := by
    intro body
    cases body <;> simp [Body.handler?]
  simp only [handlerNames, mem_map, mem_filter, owned]
  constructor
  · rintro ⟨f, ⟨mem, h, own⟩, rfl⟩
    exact ⟨f, mem, h, rfl, own⟩
  · rintro ⟨f, mem, h, rfl, own⟩
    exact ⟨f, ⟨mem, h, own⟩, rfl⟩

section

variable (interrupt : String) (handlers : List Handler)

theorem interrupt_function : ∃ f ∈ handlerFunctions interrupt handlers, f.name = interruptName interrupt ∧
    (handlerNames (handlerFunctions interrupt handlers) = [f.name] ∨
      f.body = .calls (handlerNames (handlerFunctions interrupt handlers))) := by
  unfold handlerFunctions interruptFunctions
  split_ifs with single
  · obtain ⟨h, rfl⟩ := length_eq_one_iff.mp single
    exact ⟨_, mem_singleton_self _, rfl, .inl rfl⟩
  · refine ⟨_, mem_append_right _ (mem_singleton_self _), rfl, .inr ?_⟩
    rw [← places_range, map_map]
    simp [handlerNames, filter_map, Function.comp_def, Body.handler?]

theorem interrupt_handlers : (handlerFunctions interrupt handlers).filterMap (·.body.handler?) = handlers := by
  unfold handlerFunctions interruptFunctions
  split_ifs <;> simp [filterMap_map, Body.handler?]

end

theorem grouped_perm {α κ : Type} [DecidableEq κ] {key : α → κ} {keys : List κ} (distinct : keys.Nodup) (xs : List α)
    (listed : ∀ x ∈ xs, key x ∈ keys) : (keys.flatMap fun k => xs.filter (key · = k)).Perm xs := by
  induction keys generalizing xs with
  | nil =>
    have empty : xs = [] := eq_nil_iff_forall_not_mem.mpr fun x mem => not_mem_nil (listed x mem)
    rw [empty]
    exact .refl _
  | cons k keys hyp =>
    obtain ⟨fresh, distinct⟩ := nodup_cons.mp distinct
    have others : ∀ k' ∈ keys, xs.filter (key · = k') = (xs.filter fun x => !decide (key x = k)).filter
        (key · = k') := by
      intro k' mem
      have different : k' ≠ k := fun same => fresh (same ▸ mem)
      rw [filter_filter]
      refine filter_congr fun x _ => ?_
      by_cases same : key x = k' <;> simp [same, different]
    have rest := hyp distinct (xs.filter fun x => !decide (key x = k)) fun x mem => by
      obtain ⟨mem, other⟩ := mem_filter.mp mem
      exact (mem_cons.mp (listed x mem)).resolve_left (by simpa using other)
    rw [flatMap_cons, flatMap_congr others]
    exact (rest.append_left _).trans (filter_append_perm (fun x => decide (key x = k)) xs)

namespace Machine

variable {σ : Type} {M : Machine σ} {hs : List Handler} {i : String} {f : FunctionDef Body} {h : Handler}

theorem functions_handlers : ((programFunctions hs).filterMap (·.body.handler?)).Perm hs := by
  have groups : (programFunctions hs).filterMap (·.body.handler?) =
      (hs.map (·.interrupt)).eraseDups.flatMap fun i => hs.filter (·.interrupt = i) := by
    rw [programFunctions, filterMap_flatMap]
    exact flatMap_congr fun i _ => interrupt_handlers i _
  rw [groups]
  exact grouped_perm (nodup_erase_dups _) hs fun h mem => mem_eraseDups.mpr (mem_map_of_mem mem)

theorem mem_functions :
    f ∈ programFunctions hs ↔ ∃ i ∈ hs.map (·.interrupt), f ∈ handlerFunctions i (hs.filter (·.interrupt = i)) := by
  simp only [programFunctions, mem_flatMap, mem_eraseDups]

theorem function_handler (mem : f ∈ handlerFunctions i (hs.filter (·.interrupt = i))) (own : f.body = .handler h) :
    h ∈ hs ∧ h.interrupt = i := by
  have attached : h ∈ hs.filter (·.interrupt = i) := by
    rw [← interrupt_handlers i (hs.filter (·.interrupt = i))]
    exact mem_filterMap.mpr ⟨f, mem, by rw [own]; rfl⟩
  simpa using attached

variable (distinct : ((programFunctions hs).map (·.name)).Nodup)

include distinct

theorem interrupt_started (name : String) (handled : i ∈ hs.map (·.interrupt)) {counters counters' : String → Int}
    {state state' : σ} {log : List (Start σ)}
    (run : M.Calls (programFunctions hs) [interruptName i] counters state log counters' state') :
    (starts name log).length = (handlerNames (handlerFunctions i (hs.filter (·.interrupt = i)))).count name := by
  have within : ∀ x ∈ handlerNames (handlerFunctions i (hs.filter (·.interrupt = i))),
      ∃ f ∈ programFunctions hs, ∃ h, f.name = x ∧ f.body = .handler h := by
    intro x mem
    obtain ⟨f, mem, h, named, body⟩ := (mem_handler_names).mp mem
    exact ⟨f, mem_functions.mpr ⟨i, handled, mem⟩, h, named, body⟩
  obtain ⟨entry, mem, named, only | several⟩ := interrupt_function i (hs.filter (·.interrupt = i))
  · rw [← named, ← only] at run
    exact calls_started distinct name within run
  · have declared : entry ∈ programFunctions hs := mem_functions.mpr ⟨i, handled, mem⟩
    generalize title : interruptName i = called at run
    generalize whole : [called] = calls at run
    cases run with
    | none => cases whole
    | handler defined body =>
      obtain ⟨rfl, -⟩ := List.cons.inj whole
      obtain rfl := same_function distinct defined declared (title.symm.trans named.symm)
      cases several.symm.trans body
    | calls defined body run next =>
      obtain ⟨rfl, rfl⟩ := List.cons.inj whole
      obtain rfl := same_function distinct defined declared (title.symm.trans named.symm)
      obtain rfl := Body.calls.inj (body.symm.trans several)
      cases next
      rw [append_nil]
      exact calls_started distinct name within run

variable (defined : f ∈ programFunctions hs) (own : f.body = .handler h)

include defined own

theorem handler_names_count (handled : i ∈ hs.map (·.interrupt)) :
    (handlerNames (handlerFunctions i (hs.filter (·.interrupt = i)))).count f.name = if i = h.interrupt then 1
      else 0 := by
  have once : (handlerNames (handlerFunctions i (hs.filter (·.interrupt = i)))).Nodup := by
    refine List.Nodup.sublist ?_ distinct
    refine (filter_sublist.map _).trans (List.Sublist.map _ ?_)
    exact sublist_flatten_of_mem (mem_map_of_mem (mem_eraseDups.mpr handled))
  rw [once.count]
  refine if_congr ((mem_handler_names).trans ⟨?_, fun started => ?_⟩) rfl rfl
  · rintro ⟨f', mem, h', named, body⟩
    obtain rfl := same_function distinct (mem_functions.mpr ⟨i, handled, mem⟩) defined named
    obtain rfl := Body.handler.inj (body.symm.trans own)
    exact (function_handler mem body).2.symm
  · obtain ⟨j, -, mem⟩ := mem_functions.mp defined
    obtain rfl := (function_handler mem own).2.symm.trans started.symm
    exact ⟨f, mem, h, rfl, own⟩

variable {calls : List (String × σ)} {counters counters' : String → Int} {log : List (Start σ)}
  (run : M.Invoked (programFunctions hs) (hs.map (·.interrupt)) calls counters log counters')

include run

theorem invoked_started : (starts f.name log).length = (calls.map Prod.fst).count h.interrupt := by
  induction run with
  | none => rfl
  | one handled run next hyp =>
    have first := interrupt_started distinct f.name handled run
    rw [handler_names_count distinct defined own handled] at first
    rw [starts_append, length_append, first, hyp, map_cons, count_cons, Nat.add_comm]
    simp only [beq_iff_eq]

theorem invoked_account (countable : h.Countable) :
    (counters' f.name, entries f.name log) = h.account M (starts f.name log) (counters f.name) := by
  induction run with
  | none => rfl
  | one handled run next hyp =>
    rw [starts_append, entries_append, h.account_append, ← calls_account distinct defined own countable run, ← hyp]

theorem invoked_entries (countable : h.Countable) (fresh : counters f.name = 0) :
    entries f.name log = h.allowed ((starts f.name log).countP (h.triggered M)) := by
  have account := invoked_account distinct defined own run countable
  rw [fresh] at account
  exact (congrArg Prod.snd account).trans (h.account_allowed M)

end Machine

end Cpp

end Blockwork
