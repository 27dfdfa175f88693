import Blockwork.Proofs.InterruptRuns

set_option autoImplicit false

namespace Blockwork

open Cpp List

def Term.holder? : Term → Option Block
  | .missing => none
  | .node b first _ => if b.kind = .element then first.holder? else some b

def Graph.written? (g : Graph) (b : Block) : Option String :=
  if b.kind = .assign ∨ b.kind = .input then ((g.slotTerm b .var).holder?.bind g.decl?).map (·.name) else none

namespace Setting

variable (s : Setting)

def Place (t : Term) (f : Fragment) : Prop :=
  ∃ d path, t.holder?.bind s.graph.decl? = some d ∧ f.code = d.name ++ path ∧
    (f.precedence = .atom ∨ f.precedence = .access)

variable {t : Term} {f : Fragment} {b : Block}

theorem place_bare (place : s.Place t f) : f.within .access false = f.code ∧ f.within .shift true = f.code := by
  obtain ⟨-, -, -, -, bare | bare⟩ := place
  · simp [Fragment.within, bare, Precedence.needsParentheses]
  · simp [Fragment.within, bare, Precedence.needsParentheses, Precedence.level, Precedence.groupsRight]

theorem reference_place (first second : Term) (kind : b.kind = .varRef ∨ b.kind = .indexRef)
    (made : s.reference b = .ok f) : s.Place (.node b first second) f := by
  have other : b.kind ≠ .element := by
    rcases kind with kind | kind <;> rw [kind] <;> decide
  unfold reference at made
  split at made
  · next found =>
      cases made
      refine ⟨_, "", ?_, String.append_empty.symm, .inl rfl⟩
      rw [Term.holder?, if_neg other]
      exact found
  · cases made

theorem element_place {first : Term} (second : Term) {v i : Fragment} (kind : b.kind = .element)
    (made : element b v i = .ok f) (inner : v.assignable = true → s.Place first v) (assignable : f.assignable = true) :
    s.Place (.node b first second) f := by
  unfold element at made
  split at made
  · split_ifs at made
    cases made
    have place := inner assignable
    have bare := (s.place_bare place).1
    obtain ⟨d, path, root, code, -⟩ := place
    refine ⟨d, path ++ "[" ++ i.code ++ "]", ?_, ?_, .inr rfl⟩
    · rwa [Term.holder?, if_pos kind]
    · rw [bare, code]
      simp only [String.append_assoc]
  · cases made

theorem value_no_place {left right : Block} {l r : Fragment} (made : literal b = .ok f ∨ s.device b = .ok f ∨
      s.arithmetic b left right l r = .ok f ∨ s.division b left right l r = .ok f ∨ connective b l r = .ok f ∨
      comparison b l r = .ok f ∨ negation b l = .ok f) : f.assignable = false := by
  rcases made with made | made | made | made | made | made | made
  · grind [literal]
  · grind [device]
  · grind [arithmetic, Fragment.join]
  · grind [division, Fragment.join]
  · grind [connective, Fragment.join]
  · grind [comparison, Fragment.join]
  · grind [negation]

theorem compiles_place (compiled : s.Compiles t f) (assignable : f.assignable = true) : s.Place t f := by
  have none_made : ∀ b left right l r f, literal b = .ok f ∨ s.device b = .ok f ∨
    s.arithmetic b left right l r = .ok f ∨
      s.division b left right l r = .ok f ∨ connective b l r = .ok f ∨ comparison b l r = .ok f ∨ negation b l = .ok f →
      f.assignable = true → False := by
    intro b left right l r f made assignable
    rw [s.value_no_place made] at assignable
    cases assignable
  induction compiled with
  | reference b first second f kind made => exact s.reference_place first second kind made
  | fixedElement b first second i v f kind fixed compiled made hyp =>
    exact s.element_place second kind made hyp assignable
  | element b first second v i f kind free compiled compiled' made hyp hyp' =>
    exact s.element_place second kind made hyp assignable
  | literal b first second f kind made => exact (none_made b b b f f f (by simp [made]) assignable).elim
  | device b first second f kind made => exact (none_made b b b f f f (by simp [made]) assignable).elim
  | arithmetic b first second left right l r f kind top top' compiled compiled' made =>
    exact (none_made b left right l r f (by simp [made]) assignable).elim
  | division b first second left right l r f kind top top' compiled compiled' made =>
    exact (none_made b left right l r f (by simp [made]) assignable).elim
  | connective b first second l r f kind compiled compiled' made =>
    exact (none_made b b b l r f (by simp [made]) assignable).elim
  | comparison b first second l r f kind compiled compiled' made =>
    exact (none_made b b b l r f (by simp [made]) assignable).elim
  | negation b first second l f kind compiled made => exact (none_made b b b l l f (by simp [made]) assignable).elim

end Setting

def pieceLines (keep : GuardSite → Bool) (pieces : List Piece) : List String :=
  (keptPieces keep pieces).flatMap Piece.lines

section

variable (keep : GuardSite → Bool)

@[simp] theorem piece_lines_nil : pieceLines keep [] = [] := rfl

@[simp] theorem piece_lines_append (a b : List Piece) :
    pieceLines keep (a ++ b) = pieceLines keep a ++ pieceLines keep b := by
  rw [pieceLines, kept_pieces_append, flatMap_append]
  rfl

@[simp] theorem piece_lines_line (text : String) (pieces : List Piece) :
    pieceLines keep (.line 0 text :: pieces) = text :: pieceLines keep pieces := by
  simp [pieceLines, Piece.lines, codeIndentation]

@[simp] theorem piece_lines_indented (pieces : List Piece) :
    pieceLines keep (pieces.map (·.indented)) = (pieceLines keep pieces).map ("    " ++ ·) := by
  have deeper : ∀ depth, codeIndentation (depth + 1) = "    " ++ codeIndentation depth := by
    intro depth
    simp [codeIndentation, replicate_succ]
  have each : ∀ x : Piece, x.indented.lines = x.lines.map ("    " ++ ·) := by
    intro x
    cases x <;> simp [Piece.indented, Piece.lines, deeper, String.append_assoc]
  simp only [pieceLines, kept_pieces_indented, flatMap_map, map_flatMap, each]

def Check.Tests (c : Check) (guard : String × String) : Prop := c.lines = guardLines true guard.1 guard.2

variable {checks : List Check}

theorem guarded_lines (guards : ∀ c ∈ checks, ∃ cond message, c.lines = guardLines true cond message) :
    ∃ tests, List.Forall₂ Check.Tests (checks.filter (keep ·.site)) tests ∧
      ∀ rest : Code, (guarded tests rest).lines = pieceLines keep (checks.map (.guard 0)) ++ rest.lines := by
  induction checks with
  | nil => exact ⟨[], .nil, fun _ => rfl⟩
  | cons c checks hyp =>
    obtain ⟨tests, same, text⟩ := hyp fun c mem => guards c (mem_cons_of_mem _ mem)
    obtain ⟨cond, message, lines⟩ := guards c (mem_cons_self ..)
    by_cases kept : keep c.site = true
    · have own : pieceLines keep ((c :: checks).map (.guard 0)) =
          guardLines true cond message ++ pieceLines keep (checks.map (.guard 0)) := by
        rw [pieceLines, kept_pieces_guards, filter_cons, if_pos kept]
        simp [pieceLines, Piece.lines, lines, codeIndentation]
      refine ⟨(cond, message) :: tests, ?_, fun rest => ?_⟩
      · rw [filter_cons, if_pos kept]
        exact .cons lines same
      · rw [own, append_assoc, ← text rest]
        simp [guarded, guardLines, Code.lines, Form.opening, Form.branches, Statement.text, ← String.append_assoc]
    · have own : pieceLines keep ((c :: checks).map (.guard 0)) = pieceLines keep (checks.map (.guard 0)) := by
        rw [pieceLines, kept_pieces_guards, filter_cons, if_neg kept, pieceLines, kept_pieces_guards]
      refine ⟨tests, ?_, fun rest => ?_⟩
      · rwa [filter_cons, if_neg kept]
      · rw [own, text rest]

theorem hoisted_lines (b : Block) (repeated : Bool)
    (guards : ∀ c ∈ checks, ∃ cond message, c.lines = guardLines true cond message) :
    ∀ c ∈ hoisted b repeated checks, ∃ cond message, c.lines = guardLines true cond message := by
  intro c mem
  obtain ⟨c', inside, rfl⟩ := mem_map.mp mem
  exact guards c' inside

theorem counted_lines (times : Int) (rest : Code) :
    (counted times rest).lines = pieceLines keep (counterLines times) ++ rest.lines := by
  unfold counted counterLines
  split_ifs
  · rfl
  · simp [Code.lines]

end

def Cpp.Code.targets : Code → List String
  | .done => []
  | .simple s rest => s.target?.toList ++ rest.targets
  | .compound _ body other rest => body.targets ++ other.targets ++ rest.targets
  | .exit rest | .static rest | .stopAt _ rest | .count rest | .enter rest => rest.targets

theorem Cpp.Code.keeps_unwritten (c : Code) (plain : c.Keeps false) (apart : counterName ∉ c.targets) :
    c.Keeps true := by
  induction c with
  | done => trivial
  | simple s rest hyp =>
    simp only [targets, mem_append, Option.mem_toList, not_or] at apart
    exact ⟨fun _ => apart.1, hyp plain.2 apart.2⟩
  | compound form body other rest hyp hyp' hyp'' =>
    simp only [targets, mem_append, not_or] at apart
    exact ⟨hyp plain.1 apart.1.1, hyp' plain.2.1 apart.1.2, hyp'' plain.2.2 apart.2⟩
  | exit rest hyp => exact hyp plain apart
  | static | stopAt | count | enter => exact plain

theorem guarded_plain (tests : List (String × String)) {rest : Code} (plain : rest.Keeps false) :
    (guarded tests rest).Keeps false ∧ (guarded tests rest).targets = rest.targets := by
  induction tests with
  | nil => exact ⟨plain, rfl⟩
  | cons test tests hyp => exact ⟨⟨⟨nofun, trivial⟩, trivial, hyp.1⟩, hyp.2⟩

def scratchName : String := "__tmp"

def Cpp.Code.Writes (c : Code) (names : String → Prop) : Prop :=
  ∀ name, name ≠ scratchName → (name ∈ c.targets ↔ names name)

-- Pieces that are the text of code which counts nothing and writes some variables, whatever follows.
def Readable (keep : GuardSite → Bool) (pieces : List Piece) (names : String → Prop) : Prop :=
  ∀ rest : Code, rest.Keeps false → ∃ c : Code, c.Keeps false ∧
    c.Writes (fun name => names name ∨ name ∈ rest.targets) ∧ c.lines = pieceLines keep pieces ++ rest.lines

namespace Readable

variable {keep : GuardSite → Bool} {a b : List Piece} {names names' : String → Prop}

theorem congr (read : Readable keep a names) (same : ∀ name, names name ↔ names' name) : Readable keep a names' := by
  have equal : names = names' := funext fun name => propext (same name)
  rwa [← equal]

theorem code (read : Readable keep a names) : ∃ c :
    Code, c.Keeps false ∧ c.Writes names ∧ c.lines = pieceLines keep a := by
  obtain ⟨c, plain, writes, text⟩ := read .done trivial
  exact ⟨c, plain, by simpa [Code.targets] using writes, text.trans (append_nil _)⟩

theorem append (read : Readable keep a names) (read' : Readable keep b names') :
    Readable keep (a ++ b) fun name => names name ∨ names' name := by
  intro rest plain
  obtain ⟨c, plain', writes, text⟩ := read' rest plain
  obtain ⟨c', plain'', writes', text'⟩ := read c plain'
  refine ⟨c', plain'', fun name other => ?_, by rw [text', text, piece_lines_append, append_assoc]⟩
  simp only [writes' name other, writes name other, or_assoc]

theorem statement (s : Cpp.Statement) : Readable keep [.line 0 s.text] fun name => s.target? = some name := by
  intro rest plain
  exact ⟨.simple s rest, ⟨nofun, plain⟩, fun name _ => by simp [Code.targets], by simp [Code.lines]⟩

theorem guards (x : Block) (repeated : Bool) {checks : List Check}
    (guards : ∀ c ∈ checks, ∃ cond message, c.lines = guardLines true cond message) :
    Readable keep (guardPieces x repeated checks) fun _ => False := by
  intro rest plain
  obtain ⟨tests, -, text⟩ := guarded_lines keep (hoisted_lines x repeated guards)
  obtain ⟨plain', same⟩ := guarded_plain tests plain
  exact ⟨guarded tests rest, plain', fun name _ => by simp [same], text rest⟩

theorem compound (form : Form) (single : form.branches = false) (read : Readable keep a names) :
    Readable keep (enclosing [] form.opening a "\x7d") names := by
  intro rest plain
  obtain ⟨body, plain', writes, text⟩ := read.code
  refine ⟨.compound form body .done rest, ⟨plain', trivial, plain⟩, fun name other =>
    ?_, by simp [Code.lines, single, text, enclosing]⟩
  simp [Code.targets, writes name other]

theorem either (cond : String) (read : Readable keep a names) (read' : Readable keep b names') :
    Readable keep
      (enclosing [] (Form.ifElse cond).opening a "\x7d else \x7b" ++ (b.map (·.indented) ++ [Piece.line 0 "\x7d"]))
      fun name => names name ∨ names' name := by
  intro rest plain
  obtain ⟨body, plain', writes, text⟩ := read.code
  obtain ⟨other, plain'', writes', text'⟩ := read'.code
  refine ⟨.compound (.ifElse cond) body other rest, ⟨plain', plain'', plain⟩, fun name apart => ?_,
    by simp [Code.lines, Form.branches, text, text', enclosing]⟩
  simp [Code.targets, writes name apart, writes' name apart, or_assoc]

end Readable

theorem enclosing_guards (guards : List Piece) (opening : String) (body : List Piece) (closing : String) :
    enclosing guards opening body closing = guards ++ enclosing [] opening body closing := by
  simp [enclosing]

variable {b : Block} {f : Fragment} {hs : List Handler}

theorem Graph.compiled_guard_lines (g : Graph) {slot : Slot} (compiled : g.Compiled true b slot f) :
    ∀ c ∈ f.checks, ∃ cond message, c.lines = guardLines true cond message := by
  obtain ⟨scopes, scope, compiled⟩ := compiled
  refine Setting.tested_checks (fun _ => True) (fun b left right l r c _ _ guard => ?_)
    (Setting.compiles_tested compiled)
    fun _ _ => trivial
  rcases guard with guard | guard
  · obtain ⟨w, -, made⟩ := Option.bind_eq_some_iff.mp guard
    obtain ⟨type, -, rfl⟩ := Option.map_eq_some_iff.mp made
    exact ⟨_, _, rfl⟩
  · obtain ⟨d, -, rfl⟩ := Option.map_eq_some_iff.mp guard
    exact ⟨_, _, rfl⟩

theorem Graph.compiled_place (g : Graph) (compiled : g.Compiled true b .var f)
    (kind : b.kind = .assign ∨ b.kind = .input) (assignable : f.assignable = true) :
    ∃ name path, g.written? b = some name ∧ f.code = name ++ path ∧ f.within .shift true = name ++ path := by
  obtain ⟨scopes, scope, compiled⟩ := compiled
  have place := Setting.compiles_place _ compiled assignable
  have bare := (Setting.place_bare _ place).2
  obtain ⟨d, path, root, code, -⟩ := place
  have stored : g.written? b = some d.name := by
    rw [written?, if_pos kind]
    exact Option.map_eq_some_iff.mpr ⟨d, root, rfl⟩
  exact ⟨d.name, path, stored, code, bare.trans code⟩

section

variable {g : Graph} {keep : GuardSite → Bool}

theorem Readable.inputs {name path : String} {target : Fragment} (code : target.code = name ++ path)
    (bare : target.within .shift true = name ++ path) : Readable keep (Drafting.inputLines target) (name = ·) := by
  by_cases byte : target.type = some .byte
  · intro rest plain
    refine ⟨.compound .block (.simple (.declare "int" "__tmp") (.simple (.input "__tmp" "")
      (.simple (.assign name path "(char)__tmp") .done))) .done rest, ?_, fun x other => ?_, ?_⟩
    · exact ⟨⟨nofun, nofun, nofun, trivial⟩, trivial, plain⟩
    · have apart : x ≠ "__tmp" := other
      simp [Code.targets, Statement.target?, apart, eq_comm]
    · rw [Drafting.inputLines, if_pos byte, code]
      simp [pieceLines, Piece.lines, codeIndentation, Code.lines, Form.opening, Form.branches, Statement.text,
        String.append_assoc]
  · rw [Drafting.inputLines, if_neg byte, bare]
    exact (statement (.input name path)).congr fun x => by simp [Statement.target?]

variable {d : Draft} {checks : List Check}

theorem WrittenSimple.readable {b : Block} (written : WrittenSimple g true b d checks) :
    Readable keep d.pieces fun name => g.written? b = some name := by
  cases written with
  | declaration type kind typed =>
    refine (Readable.statement (.declare type.code b.name)).congr fun name => ?_
    simp [Statement.target?, Graph.written?, kind]
  | assignment value target kind compiled compiled' same place =>
    obtain ⟨name, path, stored, code, -⟩ := g.compiled_place compiled' (.inl kind) place
    have guards : Readable keep (guardPieces b false (value.checks ++ target.checks)) fun _ => False :=
      .guards b false fun c mem => (mem_append.mp mem).elim (g.compiled_guard_lines compiled c)
        (g.compiled_guard_lines compiled' c)
    rw [code]
    refine (guards.append (.statement (.assign name path (value.within .assignment true)))).congr fun x => ?_
    simp [Statement.target?, stored]
  | output value kind compiled =>
    refine (Readable.append (.guards b false (g.compiled_guard_lines compiled))
      (.statement (.print (value.within .shift true)))).congr fun x => ?_
    simp [Statement.target?, Graph.written?, kind]
  | input target kind compiled place =>
    obtain ⟨name, path, stored, code, bare⟩ := g.compiled_place compiled (.inr kind) place
    refine (Readable.append (.guards b false (g.compiled_guard_lines compiled))
      (.inputs code bare)).congr fun x => ?_
    simp [stored]

theorem Written.readable {c : Chain} (written : Written g true c d checks) :
    Readable keep d.pieces fun name => ∃ b ∈ c.compiled, g.written? b = some name := by
  -- a statement with bodies stores nothing itself
  have silent : ∀ {b : Block} {name : String}, b.kind = .ifThen ∨ b.kind = .ifElse ∨ b.kind = .whileLoop ∨
    b.kind = .forLoop → g.written? b ≠ some name := by
    rintro b name (kind | kind | kind | kind) <;> simp [Graph.written?, kind]
  induction written with
  | nil => exact fun rest plain => ⟨rest, plain, fun name _ => by simp [Chain.compiled], rfl⟩
  | simple b body otherwise rest first later checks checks' simple following hyp =>
    refine (simple.readable.append hyp).congr fun name => ?_
    have shape : (Chain.cons b body otherwise rest).compiled = b :: rest.compiled := by
      cases simple with
      | declaration _ kind | assignment _ _ kind | output _ kind | input _ kind => simp [Chain.compiled, kind]
    simp [shape]
  | ifThen b body otherwise rest cond affirmed checks later checks' kind compiled inner following hyp hyp' =>
    have guards : Readable keep (guardPieces b false cond.checks) fun _ => False :=
      .guards b false (g.compiled_guard_lines compiled)
    rw [Draft.append, enclosing_guards]
    refine ((guards.append (.compound (.ifThen cond.code) rfl hyp)).append hyp').congr fun name => ?_
    simp [Chain.compiled, kind, silent (.inl kind), or_and_right, exists_or]
  | ifElse b body otherwise rest cond affirmed denied checks checks' later checks'' kind compiled inner other following
    hyp hyp' hyp'' =>
    have guards : Readable keep (guardPieces b false cond.checks) fun _ => False :=
      .guards b false (g.compiled_guard_lines compiled)
    have own := guards.append (.either cond.code hyp hyp')
    rw [← append_assoc, ← append_assoc, ← enclosing_guards] at own
    refine (own.append hyp'').congr fun name => ?_
    simp [Chain.compiled, kind, silent (.inr (.inl kind)), or_and_right, exists_or, or_assoc]
  | whileLoop b body otherwise rest cond repeated checks later checks' kind compiled inner following hyp hyp' =>
    have guards : Readable keep (guardPieces b true cond.checks) fun _ => False :=
      .guards b true (g.compiled_guard_lines compiled)
    rw [Draft.append, enclosing_guards]
    refine ((guards.append (.compound (.whileLoop cond.code) rfl (hyp.append guards))).append hyp').congr fun name => ?_
    simp [Chain.compiled, kind, silent (.inr (.inr (.inl kind))), or_and_right, exists_or]
  | forLoop b body otherwise rest repeated checks later checks' kind inner following hyp hyp' =>
    refine ((Readable.compound .forever rfl hyp).append hyp').congr fun name => ?_
    simp [Chain.compiled, kind, silent (.inr (.inr (.inr kind))), or_and_right, exists_or]

end

namespace Graph

inductive Handles (g : Graph) (keep : GuardSite → Bool) (b : Block) : Handler → Prop
  | attached (trigger : Block) (body : Draft) (checks : List Check) (code : Code)
      (waits : g.slotBlock? b .cond = some trigger) (interrupt : trigger.kind = .interrupt)
      (inner : Written g true (g.chainTree b.body) body checks) (text : code.lines = (body.keeping keep).lines)
      (writes : code.Writes fun name => ∃ s ∈ (g.chainTree b.body).compiled, g.written? s = some name) :
      Handles g keep b ⟨trigger.name, [], none, b.times, code⟩
  | polled (trigger : Block) (cond : Fragment) (guards : List (String × String)) (body : Draft) (checks : List Check)
      (code : Code) (waits : g.slotBlock? b .cond = some trigger) (other : trigger.kind ≠ .interrupt)
      (compiled : g.Compiled true b .cond cond)
      (tests : List.Forall₂ Check.Tests ((hoisted b true cond.checks).filter (keep ·.site)) guards)
      (inner : Written g true (g.chainTree b.body) body checks) (text : code.lines = (body.keeping keep).lines)
      (writes : code.Writes fun name => ∃ s ∈ (g.chainTree b.body).compiled, g.written? s = some name) :
      Handles g keep b ⟨tickName, guards, some cond.code, b.times, code⟩

variable {g : Graph} (keep : GuardSite → Bool) {checks : List Check}

theorem handler_code {b : Block} {d : HandlerDraft} (written : WrittenHandler g b d checks) (small : b.times < 2 ^ 31)
    (apart : b.times ≠ unbounded → ∀ s ∈ (g.chainTree b.body).compiled, g.written? s ≠ some counterName) :
    ∃ h, g.Handles keep b h ∧ h.Countable ∧ h.interrupt = d.interrupt ∧
      h.code.lines = (d.draft.keeping keep).lines := by
  have read : ∀ {body : Draft} {checks : List Check}, Written g true (g.chainTree b.body) body checks →
      ∃ c : Code, c.Keeps (b.times ≠ unbounded) ∧ c.lines = pieceLines keep body.pieces ∧
        c.Writes fun name => ∃ s ∈ (g.chainTree b.body).compiled, g.written? s = some name := by
    intro body checks inner
    obtain ⟨c, plain, writes, text⟩ := inner.readable.code
    refine ⟨c, ?_, text, writes⟩
    by_cases limited : b.times ≠ unbounded
    · rw [decide_eq_true limited]
      refine c.keeps_unwritten plain fun written => ?_
      obtain ⟨s, mem, stored⟩ := (writes counterName (by decide)).mp written
      exact apart limited s mem stored
    · rwa [decide_eq_false limited]
  cases written with
  | attached trigger body checks kind waits interrupt inner =>
    obtain ⟨code, keeps, text, writes⟩ := read inner
    refine ⟨_, .attached trigger body checks code waits interrupt inner text writes, ⟨small, keeps⟩, rfl, ?_⟩
    have entered : (Code.enter code).lines = pieceLines keep body.pieces := text
    exact (counted_lines keep b.times (.enter code)).trans (by rw [entered, ← piece_lines_append]; rfl)
  | polled trigger cond body checks kind waits other compiled inner =>
    obtain ⟨code, keeps, text, writes⟩ := read inner
    obtain ⟨tests, same, guards⟩ := guarded_lines keep
      (hoisted_lines b true (g.compiled_guard_lines compiled))
    refine ⟨_, .polled trigger cond tests body checks code waits other compiled same inner text writes,
      ⟨small, keeps⟩, rfl, ?_⟩
    have entered : (counted b.times (.enter code)).lines = pieceLines keep (counterLines b.times ++ body.pieces) := by
      rw [counted_lines keep, piece_lines_append]
      exact congrArg _ text
    have whole : (Code.compound (.ifThen cond.code) (counted b.times (.enter code)) .done .done).lines =
        pieceLines keep
          (enclosing [] ("if (" ++ cond.code ++ ") \x7b") (counterLines b.times ++ body.pieces) "\x7d") := by
      rw [Code.lines, entered]
      simp [enclosing, Code.lines, Form.opening, Form.branches]
    refine (guards _).trans ?_
    rw [whole, ← piece_lines_append, ← guardPieces, ← enclosing_guards]
    rfl

theorem handlers_code {ids : List BlockId} {ds : List HandlerDraft} (written : WrittenHandlers g ids ds checks)
    (small : ∀ id ∈ ids, ∀ b, g.block? id = some b → b.times < 2 ^ 31)
    (apart : ∀ id ∈ ids, ∀ b, g.block? id = some b → b.times ≠ unbounded →
      ∀ s ∈ (g.chainTree b.body).compiled, g.written? s ≠ some counterName) :
    ∃ hs, List.Forall₂ (fun id h => ∃ b, g.block? id = some b ∧ g.Handles keep b h) ids hs ∧ (∀ h ∈ hs, h.Countable) ∧
      List.Forall₂ (fun d h => h.interrupt = d.interrupt ∧ h.code.lines = (d.draft.keeping keep).lines) ds hs := by
  induction written with
  | nil => exact ⟨[], .nil, nofun, .nil⟩
  | cons id rest b d ds checks checks' found first later hyp =>
    obtain ⟨hs, handles, countable, text⟩ := hyp (fun id mem => small id (mem_cons_of_mem _ mem))
      fun id mem => apart id (mem_cons_of_mem _ mem)
    obtain ⟨h, own, counts, same⟩ := handler_code keep first (small id (mem_cons_self ..) b found)
      (apart id (mem_cons_self ..) b found)
    exact ⟨h :: hs, .cons ⟨b, found, own⟩ handles, forall_mem_cons.mpr ⟨counts, countable⟩, .cons same text⟩

end Graph

theorem same_handlers {xs : List HandlerDraft}
    (text : List.Forall₂ (fun x h => h.interrupt = x.interrupt ∧ h.code.lines = x.draft.lines) xs hs) :
    xs.map (·.interrupt) = hs.map (·.interrupt) ∧ ∀ i,
      (xs.filter (·.interrupt = i)).map (·.draft.lines) = (hs.filter (·.interrupt = i)).map
        (Body.lines ∘ .handler) := by
  induction text with
  | nil => exact ⟨rfl, fun _ => rfl⟩
  | @cons x h xs hs same _ hyp =>
    refine ⟨by rw [map_cons, map_cons, same.1, hyp.1], fun i => ?_⟩
    by_cases own : x.interrupt = i
    · have own' : h.interrupt = i := same.1.trans own
      have first : (Body.lines ∘ .handler) h = x.draft.lines := same.2
      rw [filter_cons, filter_cons, if_pos (decide_eq_true own), if_pos (decide_eq_true own'), map_cons,
        map_cons, first, hyp.2 i]
    · have other : h.interrupt ≠ i := fun own' => own (same.1.symm.trans own')
      rw [filter_cons, filter_cons, if_neg (mt of_decide_eq_true own), if_neg (mt of_decide_eq_true other), hyp.2 i]

theorem ProgramDraft.handler_functions (d : ProgramDraft)
    (text : List.Forall₂ (fun x h => h.interrupt = x.interrupt ∧ h.code.lines = x.draft.lines) d.handlers hs) :
    d.functions = (programFunctions hs).map (·.map Body.lines) ++ [⟨"int", "main", d.main.lines ++ ["return 0;"]⟩] := by
  obtain ⟨started, bodies⟩ := same_handlers text
  rw [functions, programFunctions, interrupts, started, map_flatMap]
  congr 1
  refine flatMap_congr fun i _ => ?_
  rw [handlerFunctions, interrupt_functions_map, interrupt_functions_own, attachedTo, map_map,
    interrupt_functions_own (Body.lines ∘ .handler), ← bodies i]
  rfl

-- Handlers that leave the counter alone count on their own: however often interrupts occur, and whatever the state is
-- then, each handler starts once for each time its interrupt occurs, and its statements are entered for those starts
-- that trigger it, up to its limit.
theorem handlers_count_alone (g : Graph) (P : GuardPolicy) (p : Program) (made : g.generate P = .ok p)
    (distinct : (g.signatures.map Prod.snd).Nodup)
    (small : ∀ id ∈ g.handlers, ∀ b, g.block? id = some b → b.times < 2 ^ 31)
    (apart : ∀ id ∈ g.handlers, ∀ b, g.block? id = some b → b.times ≠ unbounded →
      ∀ s ∈ (g.chainTree b.body).compiled, g.written? s ≠ some counterName) :
    ∃ (keep : GuardSite → Bool) (hs : List Handler) (main : List String),
      List.Forall₂ (fun id h => ∃ b, g.block? id = some b ∧ g.Handles keep b h) g.handlers hs ∧
      p.main = textOfLines
        (p.includes ++ definitions ((programFunctions hs).map (·.map Body.lines) ++ [⟨"int", "main", main⟩])) ∧
      ((programFunctions hs).filterMap (·.body.handler?)).Perm hs ∧
      ∀ (σ : Type) (M : Cpp.Machine σ) (calls : List (String × σ)) (log : List (Start σ)) (counters : String → Int),
        M.Invoked (programFunctions hs) (hs.map (·.interrupt)) calls (fun _ => 0) log counters →
        ∀ f ∈ programFunctions hs, ∀ h, f.body = .handler h →
          (starts f.name log).length = (calls.map Prod.fst).count h.interrupt ∧
          entries f.name log = h.allowed ((starts f.name log).countP (h.triggered M)) := by
  obtain ⟨d, state, drafted, text⟩ := generated_functions P made
  obtain ⟨-, -, checks, -, -, written, -⟩ := Drafting.done_program drafted
  obtain ⟨hs, handles, countable, same⟩ :=
    Graph.handlers_code (fun site => (P g site).emit) written small apart
  have functions := (d.keeping fun site => (P g site).emit).handler_functions (forall₂_map_left_iff.mpr same)
  have signatures := g.draft_signatures drafted fun site => (P g site).emit
  rw [functions] at text signatures
  have names : ((programFunctions hs).map (·.name)).Nodup := by
    rw [← signatures, map_map, map_append, map_map] at distinct
    exact (nodup_append.mp distinct).1
  refine ⟨_, hs, _, handles, text, Machine.functions_handlers, ?_⟩
  intro σ M calls log counters run f defined h own
  have counts : h.Countable := by
    obtain ⟨i, -, member⟩ := Machine.mem_functions.mp defined
    exact countable h (Machine.function_handler member own).1
  exact ⟨Machine.invoked_started names defined own run, Machine.invoked_entries names defined own run counts rfl⟩

def countedText : String :=
  "devices: [\x7bname: t, type: int\x7d]\nmain: []\nhandlers:\n- when: \x7binterrupt: key\x7d\n  times: 2\n" ++
    "  do: [\x7bprint: 1\x7d]\n" ++
    "- when: \x7binterrupt: key\x7d\n  do: [\x7bprint: 2\x7d]\n- when: \x7bgt: [\x7bdevice: t\x7d, 9]\x7d\n" ++
    "  times: 3\n  do:\n  - \x7bvar: x, type: int, checked: true\x7d\n  - input: \x7bref: x\x7d\n" ++
    "  - print: \x7bdiv: [1, \x7bref: x\x7d]\x7d\n"

def Graph.limits (g : Graph) : List (Int × List String) :=
  (g.handlers.filterMap g.block?).map fun b =>
    (b.times, if b.times = unbounded then [] else (g.chainTree b.body).compiled.filterMap g.written?)

theorem Graph.mem_limits (g : Graph) (id : BlockId) (mem : id ∈ g.handlers) (b : Block) (found : g.block? id = some b) :
    (b.times, if b.times = unbounded then [] else (g.chainTree b.body).compiled.filterMap g.written?) ∈ g.limits :=
  mem_map_of_mem (f := fun b => (b.times, if b.times = unbounded then [] else _)) (mem_filterMap.mpr ⟨id, mem, found⟩)

set_option maxRecDepth 10000 in
theorem counted_compiles : ∃ g p, Document.load countedText = .ok g ∧ g.generate .always = .ok p ∧
    g.limits = [(2, []), (-1, []), (3, ["x"])] ∧ (g.signatures.map Prod.snd).Nodup := by
  have shown : (Document.load countedText).toOption.bind (fun g =>
      (g.generate .always).toOption.map fun _ => (g.limits, decide (g.signatures.map Prod.snd).Nodup)) =
        some ([(2, []), (-1, []), (3, ["x"])], true) := by decide +kernel
  obtain ⟨g, loaded, shown⟩ := Option.bind_eq_some_iff.mp shown
  obtain ⟨p, made, shown⟩ := Option.map_eq_some_iff.mp shown
  obtain ⟨limits, distinct⟩ := Prod.mk.inj shown
  exact ⟨g, p, result_ok loaded, result_ok made, limits, of_decide_eq_true distinct⟩

theorem counted_handlers_alone : ∃ g p keep hs main, Document.load countedText = .ok g ∧ g.generate .always = .ok p ∧
    List.Forall₂ (fun id h => ∃ b, g.block? id = some b ∧ g.Handles keep b h) g.handlers hs ∧
      p.main = textOfLines
        (p.includes ++ definitions ((programFunctions hs).map (·.map Body.lines) ++ [⟨"int", "main", main⟩])) ∧
      ((programFunctions hs).filterMap (·.body.handler?)).Perm hs ∧
      ∀ (σ : Type) (M : Cpp.Machine σ) (calls : List (String × σ)) (log : List (Start σ)) (counters : String → Int),
        M.Invoked (programFunctions hs) (hs.map (·.interrupt)) calls (fun _ => 0) log counters →
        ∀ f ∈ programFunctions hs, ∀ h, f.body = .handler h →
          (starts f.name log).length = (calls.map Prod.fst).count h.interrupt ∧
          entries f.name log = h.allowed ((starts f.name log).countP (h.triggered M)) := by
  obtain ⟨g, p, loaded, made, limits, distinct⟩ := counted_compiles
  have listed := g.mem_limits
  rw [limits] at listed
  have each : ∀ x ∈ [((2 : Int), ([] : List String)), (-1, []), (3, ["x"])], x.1 < 2 ^ 31 ∧
    counterName ∉ x.2 := by decide
  obtain ⟨keep, hs, main, counts⟩ := handlers_count_alone g .always p made distinct
    (fun id member b found => (each _ (listed id member b found)).1) fun id member b found limited s inside stored => by
      have apart := (each _ (listed id member b found)).2
      rw [if_neg limited] at apart
      exact apart (mem_filterMap.mpr ⟨s, inside, stored⟩)
  exact ⟨g, p, keep, hs, main, loaded, made, counts⟩

-- The index of a loop is not declared in the program, so the counter of the handler is what it names.
def capturedText : String :=
  "main: []\nhandlers:\n- when: \x7binterrupt: key\x7d\n  times: 1\n  do:\n" ++
    "  - \x7bvar: y, type: int, checked: true\x7d\n" ++
    "  - for: __isr_exec_ct\n    to: 5\n    do:\n    - set: \x7bref: __isr_exec_ct\x7d\n      to: 0\n" ++
    "    - input: \x7bref: y\x7d\n    - print: \x7bdiv: [1, \x7bref: y\x7d]\x7d\n"

-- The statements of its handler, and a machine that stores zero in the counter and reads zero into the divisor.
def capturedBody : Code :=
  .simple (.declare "int" "y") (.compound .forever (.simple (.assign counterName "" "0") (.simple (.input "y" "")
    (.compound (.ifThen "y == 0")
      (.simple (.complain "\"Illegal division by variable 'y' with value 0\"") (.exit .done)) .done
      (.simple (.print "static_cast<double>(1) / y") .done)))) .done .done)

def capturedHandler : Handler := ⟨"key", [], none, 1, capturedBody⟩

def zeroMachine : Cpp.Machine Unit where
  effect _ _ _ := ()
  test _ _ _ := (true, ())
  stored _ _ _ := 0

theorem captured_run : zeroMachine.Runs false capturedHandler.code (0, ()) 1 true (0, ()) :=
  .static (.under (by decide)
    (.count (.inl rfl) (.enter (.simple (.inside (.simple (.simple (.inside (.simple .exit)))))))))

theorem captured_call : zeroMachine.Calls (programFunctions [capturedHandler]) [interruptName "key"] (fun _ => 0) ()
    [⟨interruptName "key", (), 1⟩] (fun _ => 0) () := by
  have only : programFunctions [capturedHandler] = [⟨"void", interruptName "key", .handler capturedHandler⟩] := by rfl
  have again : Function.update (fun _ : String => (0 : Int)) (interruptName "key") 0 = fun _ => 0 :=
    Function.update_eq_self _ _
  rw [only]
  refine .handler (mem_singleton_self _) rfl captured_run ?_
  rw [again]
  exact .none

-- Each of two starts enters the statements of a handler that may enter them once.
set_option maxRecDepth 10000 in
theorem captured_counter_exceeds :
    ((Document.load capturedText).toOption.bind fun g => (g.generate .always).toOption.map Program.main) =
        some (textOfLines (["#include <iostream>", "#include \"devices.h\""] ++
          definitions
            ((programFunctions [capturedHandler]).map (·.map Body.lines) ++ [⟨"int", "main", ["return 0;"]⟩]))) ∧
      ∃ log, zeroMachine.Invoked (programFunctions [capturedHandler]) ["key"] [("key", ()), ("key", ())]
        (fun _ => 0) log
          (fun _ => 0) ∧
        entries "__isr_key" log = 2 ∧ capturedHandler.allowed 2 = 1 := by
  have text : ((Document.load capturedText).toOption.bind fun g => (g.generate .always).toOption.map Program.main) =
      some (textOfLines (["#include <iostream>", "#include \"devices.h\""] ++
        definitions
          ((programFunctions [capturedHandler]).map (·.map Body.lines) ++ [⟨"int", "main", ["return 0;"]⟩]))) := by
    decide +kernel
  have handled : "key" ∈ ["key"] := mem_singleton_self _
  exact ⟨text, _, .one handled captured_call (.one handled captured_call .none), by decide, by decide⟩

end Blockwork
