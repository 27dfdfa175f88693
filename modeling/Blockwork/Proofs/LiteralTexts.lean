import Blockwork.Document.Format
import Blockwork.Markup.Tree
import Blockwork.Proofs.QuotedScalars
import Blockwork.Proofs.ScalarTexts

set_option autoImplicit false

namespace Blockwork

open List

namespace Markup

def plainChars : List Char := "abcdefghijklmnopqrstuvwxyz0123456789.-".toList

theorem plain_char {c : Char} (plain : c ∈ plainChars) :
    isAllowed c = true ∧ isBlank c = false ∧ isBreak c = false ∧ c ≠ ':' ∧ c ≠ '#' ∧ isFlowIndicator c = false ∧
      (c = '-' ∨ Scan.isIndicator c = false) := by
  have all : plainChars.all (fun c => isAllowed c && !isBlank c && !isBreak c && c ≠ ':' && c ≠ '#' &&
      !isFlowIndicator c && (c = '-' || !Scan.isIndicator c)) = true := by decide +kernel
  simpa [and_assoc] using all_eq_true.mp all c plain

theorem digit_plain {c : Char} (digit : c.isDigit = true) : c ∈ plainChars := by
  obtain ⟨least, most⟩ := digit_bounds digit
  have digits : ∀ n ∈ List.range' 48 10, Char.ofNat n ∈ plainChars := by decide
  have own := digits c.toNat (by rw [mem_range'_1]; omega)
  rwa [Char.ofNat_toNat] at own

def Scalar.chars (x : Scalar) : List Char :=
  if x.plain then x.text.toList else '"' :: (Text.escape '"' x.text.toList ++ ['"'])

def Scalar.kind (x : Scalar) : TokenKind := .scalar x.text x.plain

-- A scalar that is read as it is written.
def Scalar.IsWritten (x : Scalar) : Prop :=
  if x.plain then x.text.toList.all plainChars.contains = true ∧ x.text.toList.any (· ≠ '-') = true ∧
    x.tag = plainTag x.text
  else x.tag = .text

theorem plain_of_written {tag : Tag} {text : String} (written : Scalar.IsWritten ⟨tag, text, true⟩) :
    (∀ c ∈ text.toList, c ∈ plainChars) ∧ ∃ c ∈ text.toList, c ≠ '-' := by
  obtain ⟨plain, other, -⟩ := written
  exact ⟨by simpa using plain, by simpa using other⟩

theorem Scalar.IsWritten.allowed {x : Scalar} (written : x.IsWritten) : x.chars.all isAllowed = true := by
  obtain ⟨tag, text, plain⟩ := x
  rw [all_eq_true]
  cases plain with
  | true => exact fun c mem => (plain_char ((plain_of_written written).1 c mem)).1
  | false =>
    have quote : isAllowed '"' = true := by decide
    simp only [chars, Bool.false_eq_true, if_false, mem_cons, mem_append, Text.escape, mem_flatMap,
      not_mem_nil, or_false]
    rintro c (rfl | ⟨d, -, mem⟩ | rfl)
    · exact quote
    · exact all_eq_true.mp (escape_read d).1 c mem
    · exact quote

def Scalar.read (x : Scalar) : Scalar := ⟨Reading.scalarTag "" x.text x.plain, x.text, x.plain⟩

theorem Scalar.IsWritten.read {x : Scalar} (written : x.IsWritten) : x.read = x := by
  obtain ⟨tag, text, plain⟩ := x
  cases plain with
  | true => exact congrArg (Scalar.mk · text true) written.2.2.symm
  | false => exact congrArg (Scalar.mk · text false) (Eq.symm written)

def Ends (depth : Nat) (rest : List Char) : Prop :=
  rest = [] ∨ 0 < depth ∧ ∃ c more, rest = c :: more ∧ c ∈ [',', ']', '}']

variable {c : Char} {text rest : List Char} {at_ : Cursor} {depth : Nat}

theorem plain_run (plain : ∀ c ∈ text, c ∈ plainChars) (ends : Ends depth rest) :
    plainRun (0 < depth) (text ++ rest) = text := by
  induction text with
  | nil =>
    rcases ends with rfl | ⟨deep, d, more, rfl, either⟩
    · rfl
    · exact if_pos (by fin_cases either <;> simp [deep, isFlowIndicator])
  | cons c text hyp =>
    obtain ⟨-, blank, whole, colon, -, flow, -⟩ := plain_char (plain c (mem_cons_self ..))
    rw [cons_append, plainRun, if_neg (by simp [blank, whole, colon, flow]),
      hyp fun c mem => plain c (mem_cons_of_mem _ mem)]

theorem read_plain (indent : Int) (plain : ∀ c ∈ text, c ∈ plainChars) (some_ : text ≠ [])
    (right : 0 < at_.column) (here : at_.rest = text ++ rest) (ends : Ends depth rest) :
    ∃ stop, readPlain indent (0 < depth) at_ = .ok ⟨text, stop, at_.skip text.length, false⟩ := by
  have run : plainRun (0 < depth) at_.rest = text := here ▸ plain_run plain ends
  have comment : at_.head ≠ some '#' := by
    cases text with
    | nil => exact absurd rfl some_
    | cons c text => simpa [Cursor.head, here] using (plain_char (plain c (mem_cons_self ..))).2.2.2.2.1
  have next : (at_.skip text.length).head = rest.head? := by rw [Cursor.head, Cursor.skip_past here]
  refine ⟨(at_.skip text.length).place, ?_⟩
  rw [readPlain, readPlainFrom, if_neg (by simp [Cursor.no_mark right, comment]), run]
  dsimp only
  rw [next]
  rcases ends with rfl | ⟨-, d, more, rfl, either⟩
  · simp [some_, Gap.folded]
  · fin_cases either <;> simp [some_, Gap.folded, isBlank, isBreak]

namespace Scan

open TokenStream

-- A state on the first line of a text, in the value of a key.
def inside (tokens : List Token) (rest : List Char) (index column depth : Nat) (candidates : List (Option KeyCandidate))
    (keyAllowed : Bool) : Scan :=
  { cursor := { rest, index, line := 0, column := column + 1 }, tokens := tokens.toArray, indent := 0, outer := [-1],
    depth, candidates, keyAllowed }

def begins (c : Char) : Bool := !isBlank c && !isBreak c && c ≠ '#'

def Begins (text : List Char) : Prop := ∃ c more, text = c :: more ∧ begins c = true

theorem Begins.length (starts : Begins text) : 1 ≤ text.length := by
  obtain ⟨c, more, rfl, -⟩ := starts
  exact Nat.succ_pos _

theorem Begins.append (starts : Begins text) : Begins (text ++ rest) := by
  obtain ⟨c, more, rfl, begin_⟩ := starts
  exact ⟨c, more ++ rest, rfl, begin_⟩

def At (kinds : List TokenKind) (rest : List Char) (depth : Nat) (candidates : List (Option KeyCandidate))
    (keyAllowed : Bool) (s : Scan) : Prop :=
  (∃ k, kinds.getLast? = some k ∧ k ≠ .streamEnd) ∧ ∃ (tokens : List Token) (index column : Nat),
    s = inside tokens rest index column depth candidates keyAllowed ∧ tokens.map Token.kind = kinds

def IsLight (k : Option KeyCandidate) : Prop := ∀ c ∈ k, c.required = false

theorem light_none : IsLight none := nofun

variable {tokens : List Token} {last : Token} {more : List Char} {index column : Nat}
  {candidates below : List (Option KeyCandidate)} {keyAllowed : Bool} {s : Scan} {kinds : List TokenKind}

theorem At.elim (start : s.At kinds rest depth candidates keyAllowed) :
    ∃ (tokens : List Token) (last : Token) (index column : Nat),
      s = inside tokens rest index column depth candidates keyAllowed ∧ tokens.map Token.kind = kinds ∧
        tokens ≠ [] ∧ tokens.getLast? = some last ∧ last.kind ≠ .streamEnd := by
  obtain ⟨⟨k, ended, other⟩, tokens, index, column, same, rfl⟩ := start
  rw [getLast?_map, Option.map_eq_some_iff] at ended
  obtain ⟨last, ended, rfl⟩ := ended
  exact ⟨tokens, last, index, column, same, rfl, fun none_ => (by simp [none_] at ended), ended, other⟩

theorem step_inside (begin_ : begins c = true) (filled : tokens ≠ []) :
    (inside tokens (' ' :: c :: more) index column depth candidates keyAllowed).step =
      ((inside tokens (c :: more) (index + 1) (column + 1) depth candidates keyAllowed).tokenAt c).map
        skipLineComment := by
  simp only [begins, isBlank, isBreak, Bool.and_eq_true, Bool.not_eq_true', Bool.or_eq_false_iff,
    decide_eq_false_iff_not, decide_eq_true_eq] at begin_
  have right : ¬ ((column : Int) + 1 + 1 < 0) := by omega
  simp [step, inside, skipToToken, skipToTokenFrom, Cursor.skipWhile, Cursor.head, Cursor.skip, isBreak, closeBlocks,
    closeBlocksFrom, begin_, right, filled]

theorem calm_inside (ends : Ends depth rest) :
    (inside tokens rest index column depth candidates keyAllowed).skipLineComment =
      inside tokens rest index column depth candidates keyAllowed := by
  have calm (at_ : Cursor) (here : at_.rest = rest) : at_.skipLineComment = at_ := by
    obtain ⟨_, _, _, _⟩ := at_
    subst here
    rcases ends with rfl | ⟨-, d, more, rfl, either⟩
    · rfl
    · fin_cases either <;> rfl
  rw [skipLineComment, calm _ rfl]
  exact ite_self _

theorem add_inside (tokens : List Token) (rest : List Char) (index column : Nat) (below : List (Option KeyCandidate))
    (optional : keyAllowed = true → 0 < depth) : ∃ top, IsLight top ∧
      (inside tokens rest index column depth (none :: below) keyAllowed).addCandidate =
        .ok (inside tokens rest index column depth (top :: below) keyAllowed) := by
  cases keyAllowed with
  | false => exact ⟨none, nofun, rfl⟩
  | true =>
    refine ⟨some ⟨tokens.length, false, index, ⟨0, column + 1⟩⟩, by simp [IsLight], ?_⟩
    simp [addCandidate, inside, dropCandidate, Cursor.place, (optional rfl).ne', bind, Except.bind, pure, Except.pure]

theorem token_plain (plain : c ∈ plainChars) (dash : c = '-' → ∃ d ∈ plainChars, s.cursor.peek 1 = some d) :
    s.tokenAt c = s.plainScalar := by
  obtain ⟨-, blank, whole, -, -, -, either⟩ := plain_char plain
  rcases either with rfl | other
  · obtain ⟨d, plain', next⟩ := dash rfl
    obtain ⟨-, blank', whole', -⟩ := plain_char plain'
    simp [tokenAt, next, endsWord, blank', whole', beginsPlain]
  · have starts : s.beginsPlain c = true := by simp [beginsPlain, blank, whole, other]
    simp only [isIndicator, contains_eq_mem, mem_cons, not_mem_nil, or_false, decide_eq_false_iff_not,
      not_or] at other
    simp [tokenAt, other, starts]

variable {x : Scalar} {top : Option KeyCandidate} {kind : TokenKind}

theorem token_scalar {s' : Scan} (written : x.IsWritten) (here : s.cursor.rest = x.chars ++ rest)
    (right : 0 < s.cursor.column) (ends : Ends s.depth rest) (added : s.addCandidate = .ok s')
    (same : s'.cursor = s.cursor ∧ s'.depth = s.depth) : ∃ c more stop, x.chars = c :: more ∧ begins c = true ∧
      s.tokenAt c = .ok (s'.scalar ⟨x.text.toList, stop, s.cursor.skip x.chars.length, false⟩ x.plain false) := by
  obtain ⟨tag, text, plain⟩ := x
  cases plain with
  | true =>
    obtain ⟨plain, d, mem, other⟩ := plain_of_written written
    have some_ : text.toList ≠ [] := ne_nil_of_mem mem
    obtain ⟨stop, read⟩ := read_plain (s'.indent + 1) plain some_ right here ends
    obtain ⟨c, more, shape⟩ := exists_cons_of_ne_nil some_
    have chars : Scalar.chars ⟨tag, text, true⟩ = text.toList := rfl
    have own : c ∈ plainChars := plain c (by simp [shape])
    have dash : c = '-' → ∃ d ∈ plainChars, s.cursor.peek 1 = some d := by
      rintro rfl
      cases more with
      | nil => exact absurd (by simpa [shape] using mem) other
      | cons d more => exact ⟨d, plain d (by simp [shape]), by simp [Cursor.peek, here, chars, shape]⟩
    obtain ⟨-, blank, whole, -, comment, -⟩ := plain_char own
    refine ⟨c, more, stop, shape, by simp [begins, blank, whole, comment], ?_⟩
    rw [token_plain own dash]
    simp [plainScalar, added, same, read, chars, bind, Except.bind, pure, Except.pure]
  | false =>
    have chars : Scalar.chars ⟨tag, text, false⟩ = '"' :: (Text.escape '"' text.toList ++ ['"']) := rfl
    rw [chars, cons_append, append_assoc] at here
    obtain ⟨stop, read⟩ := read_quoted here
    refine ⟨'"', _, stop, rfl, by decide, ?_⟩
    simp [tokenAt, quotedScalar, added, same, read, chars, bind, Except.bind, pure, Except.pure]

-- A text that takes some steps behind a blank and becomes tokens of some kinds, wherever an operand stands.
def Passes (text : List Char) (steps : Nat) (kinds : List TokenKind) : Prop :=
  ∀ {s : Scan} {before : List TokenKind} {rest : List Char} {depth : Nat} {below : List (Option KeyCandidate)}
    {keyAllowed : Bool} (fuel : Nat), s.At before (' ' :: (text ++ rest)) depth (none :: below) keyAllowed →
    (keyAllowed = true → 0 < depth) → Ends depth rest →
    ∃ (s' : Scan) (top : Option KeyCandidate), fromScan (fuel + steps) s = fromScan fuel s' ∧ IsLight top ∧
      s'.At (before ++ kinds) rest depth (top :: below) false

theorem scalar_passes (written : x.IsWritten) : Passes x.chars 1 [x.kind] := by
  intro _ _ rest depth below keyAllowed fuel start optional ends
  obtain ⟨tokens, last, index, column, rfl, rfl, filled, ended, unfinished⟩ := start.elim
  obtain ⟨top, light, added⟩ := add_inside tokens (x.chars ++ rest) (index + 1) (column + 1) below optional
  obtain ⟨c, more, stop, shape, begin_, made⟩ :=
    token_scalar written rfl (Nat.succ_pos (column + 1)) ends added ⟨rfl, rfl⟩
  have after : (inside tokens (x.chars ++ rest) (index + 1) (column + 1) depth (top :: below) keyAllowed).scalar
      ⟨x.text.toList, stop, Cursor.skip ⟨x.chars ++ rest, index + 1, 0, column + 2⟩ x.chars.length, false⟩
        x.plain false =
      inside (tokens ++ [⟨.scalar x.text x.plain, ⟨0, column + 2⟩, stop⟩]) rest (index + 1 + x.chars.length)
        (column + 1 + x.chars.length) depth (top :: below) false := by
    simp [scalar, push, inside, Cursor.skip, Cursor.place, Nat.add_right_comm]
  have open_ : ¬ (inside tokens (' ' :: (x.chars ++ rest)) index column depth (none :: below) keyAllowed).isFinished =
      true := by
    simpa [isFinished, inside, ended] using unfinished
  refine ⟨_, top, ?_, light, by simp [Scalar.kind], _, _, _, after, by simp [Scalar.kind]⟩
  rw [fromScan, if_neg open_, shape, cons_append, step_inside begin_ filled, ← cons_append, ← shape, made]
  exact congrArg (fromScan fuel) ((congrArg skipLineComment after).trans ((calm_inside ends).trans after.symm))

theorem insert_behind {α : Type} (xs ys : List α) (n : Nat) (x : α) :
    (xs ++ ys).insertIdx (xs.length + n) x = xs ++ ys.insertIdx n x := by
  induction xs with
  | nil => simp
  | cons y xs hyp => simp [Nat.succ_add, hyp]

section

attribute [local simp] fromScan isFinished step skipToToken skipToTokenFrom Cursor.skipWhile Cursor.head closeBlocks
  closeBlocksFrom Cursor.skip tokenAt separator dropCandidate addCandidate take push skipLineComment
  Cursor.skipLineComment Cursor.skipBlanks isBlank isBreak Cursor.place openFlow closeFlow plainScalar readPlain
  readPlainFrom plainRun endsWord Cursor.peek Cursor.atDocumentMark Cursor.atTriple beginsPlain isIndicator
  isFlowIndicator Gap.folded scalar value isLive openBlock isByteOrderMark endOfText bind Except.bind pure Except.pure
  Except.map inside insert_behind

variable (fuel : Nat)

theorem typed_opened (starts : Begins text) (optional : keyAllowed = true → 0 < depth)
    (start : s.At kinds (' ' :: '\x7b' :: 'l' :: 'i' :: 't' :: ':' :: ' ' :: text) depth (none :: below) keyAllowed) :
    ∃ (s' : Scan) (top : Option KeyCandidate), fromScan (fuel + 3) s = fromScan fuel s' ∧ IsLight top ∧
      s'.At (kinds ++ [.flowMappingStart, .key, .scalar "lit" true, .value]) (' ' :: text) (depth + 1)
        (none :: top :: below) false := by
  obtain ⟨tokens, last, index, column, rfl, rfl, filled, ended, unfinished⟩ := start.elim
  have right : ¬ ((column : Int) + 1 + 1 < 0) := by omega
  obtain ⟨c, more, rfl, begin_⟩ := starts
  simp [begins] at begin_
  cases keyAllowed with
  | false =>
    refine ⟨?plain, none, ?run, nofun, ?state⟩
    case run =>
      simp [unfinished, right, begin_, ended, filled]
      rfl
    case state => exact ⟨by simp, _, _, _, rfl, by simp⟩
  | true =>
    refine ⟨?next, some ⟨tokens.length, false, index + 1, ⟨0, column + 2⟩⟩, ?run', by simp [IsLight], ?state'⟩
    case run' =>
      simp [unfinished, begin_, ended, filled, (optional rfl).ne']
      rfl
    case state' => exact ⟨by simp, _, _, _, rfl, by simp⟩

theorem typed_between (light : IsLight top) (starts : Begins text)
    (start : s.At kinds (',' :: ' ' :: 't' :: 'y' :: 'p' :: 'e' :: ':' :: ' ' :: text) (depth + 1)
      (top :: below) false) :
    ∃ s', fromScan (fuel + 3) s = fromScan fuel s' ∧
      s'.At (kinds ++ [.separator, .key, .scalar "type" true, .value]) (' ' :: text) (depth + 1)
        (none :: below) false := by
  obtain ⟨tokens, last, index, column, rfl, rfl, filled, ended, unfinished⟩ := start.elim
  have short : index + 1 + 1 + 4 ≤ index + 1 + 1 + 1024 := by omega
  obtain ⟨c, more, rfl, begin_⟩ := starts
  simp [begins] at begin_
  cases top with
  | none =>
    refine ⟨?plain, ?run, ?state⟩
    case run =>
      simp [unfinished, begin_, ended, filled, short]
      rfl
    case state => exact ⟨by simp, _, _, _, rfl, by simp⟩
  | some k =>
    refine ⟨?next, ?run', ?state'⟩
    case run' =>
      simp [unfinished, begin_, ended, filled, light k rfl]
      rfl
    case state' => exact ⟨by simp, _, _, _, rfl, by simp⟩

theorem closed (light : IsLight top) (ends : Ends depth rest)
    (either : c = ']' ∧ kind = .flowListEnd ∨ c = '\x7d' ∧ kind = .flowMappingEnd)
    (start : s.At kinds (c :: rest) (depth + 1) (top :: candidates) false) :
    ∃ s', fromScan (fuel + 1) s = fromScan fuel s' ∧ s'.At (kinds ++ [kind]) rest depth candidates false := by
  obtain ⟨tokens, last, index, column, rfl, rfl, filled, ended, unfinished⟩ := start.elim
  refine ⟨inside (tokens ++ [⟨kind, ⟨0, column + 1⟩, ⟨0, column + 2⟩⟩]) rest (index + 1)
    (column + 1) depth candidates false, ?_, by rcases either with ⟨-, rfl⟩ | ⟨-, rfl⟩ <;> simp, _, _, _, rfl, by simp⟩
  rw [← calm_inside ends]
  rcases either with ⟨rfl, rfl⟩ | ⟨rfl, rfl⟩
  all_goals
    cases top with
    | none => simp [filled, ended, unfinished, -skipLineComment]
    | some k => simp [filled, ended, unfinished, light k rfl, -skipLineComment]

theorem finished (light : IsLight top) (start : s.At kinds [] 0 [top] false) :
    ∃ tokens : List Token, fromScan (fuel + 1) s = ⟨tokens.toArray, none⟩ ∧
      tokens.map Token.kind = kinds ++ [.blockEnd, .streamEnd] := by
  obtain ⟨tokens, last, index, column, rfl, rfl, filled, ended, unfinished⟩ := start.elim
  have right : ¬ ((column : Int) + 1 < 0) := by omega
  refine ⟨tokens ++ [⟨.blockEnd, ⟨1, 0⟩, ⟨1, 0⟩⟩, ⟨.streamEnd, ⟨1, 0⟩, ⟨1, 0⟩⟩], ?_, by simp⟩
  cases top with
  | none => cases fuel <;> simp [filled, ended, unfinished, right]
  | some k => cases fuel <;> simp [filled, ended, unfinished, right, light k rfl]

theorem value_opened (starts : Begins text) :
    ∃ s, fromScan (fuel + 3) { cursor := { rest := "print: ".toList ++ text } } = fromScan fuel s ∧
      s.At [.streamStart, .blockMappingStart, .key, .scalar "print" true, .value] (' ' :: text) 0 [none] false := by
  obtain ⟨c, more, rfl, begin_⟩ := starts
  simp [begins] at begin_
  refine ⟨?next, ?run, ?state⟩
  case run =>
    simp [begin_]
    rfl
  case state => exact ⟨by simp, _, _, _, rfl, by simp⟩

theorem item_opened (starts : Begins text) :
    ∃ s, fromScan (fuel + 6) { cursor := { rest := "elem: [~, ".toList ++ text } } = fromScan fuel s ∧
      s.At [.streamStart, .blockMappingStart, .key, .scalar "elem" true, .value, .flowListStart, .scalar "~" true,
        .separator] (' ' :: text) 1 [none, none] true := by
  obtain ⟨c, more, rfl, begin_⟩ := starts
  simp [begins] at begin_
  refine ⟨?next, ?run, ?state⟩
  case run =>
    simp [begin_]
    rfl
  case state => exact ⟨by simp, _, _, _, rfl, by simp⟩

end

theorem scalar_begins (written : x.IsWritten) : Begins x.chars := by
  obtain ⟨tag, text, plain⟩ := x
  cases plain with
  | true =>
    obtain ⟨plain, d, mem, -⟩ := plain_of_written written
    obtain ⟨c, more, shape⟩ := exists_cons_of_ne_nil (ne_nil_of_mem mem)
    obtain ⟨-, blank, whole, -, comment, -⟩ := plain_char (plain c (by simp [shape]))
    exact ⟨c, more, shape, by simp [begins, blank, whole, comment]⟩
  | false => exact ⟨'"', _, rfl, by decide⟩

def typedChars (x type : Scalar) : List Char :=
  '\x7b' :: 'l' :: 'i' :: 't' :: ':' :: ' ' ::
    (x.chars ++ ',' :: ' ' :: 't' :: 'y' :: 'p' :: 'e' :: ':' :: ' ' :: (type.chars ++ ['\x7d']))

theorem typed_begins {type : Scalar} : Begins (typedChars x type) := ⟨'\x7b', _, rfl, by decide⟩

def typedKinds (lit x type y : Scalar) : List TokenKind :=
  [.flowMappingStart, .key, lit.kind, .value, x.kind, .separator, .key, type.kind, .value, y.kind, .flowMappingEnd]

theorem typed_passes {type : Scalar} (written : x.IsWritten) (named : type.IsWritten) :
    Passes (typedChars x type) 9 (typedKinds (Markup.plainScalar "lit") x (Markup.plainScalar "type") type) := by
  intro s before rest depth below keyAllowed fuel start optional ends
  simp only [typedChars, cons_append, append_assoc] at start
  obtain ⟨s₁, top, run₁, light, at₁⟩ := typed_opened (fuel + 6) (scalar_begins written).append optional start
  obtain ⟨s₂, top₂, run₂, light₂, at₂⟩ :=
    scalar_passes written (fuel + 5) at₁ nofun (.inr ⟨Nat.succ_pos _, ',', _, rfl, by simp⟩)
  obtain ⟨s₃, run₃, at₃⟩ := typed_between (fuel + 2) light₂ (scalar_begins named).append at₂
  obtain ⟨s₄, top₄, run₄, light₄, at₄⟩ :=
    scalar_passes named (fuel + 1) at₃ nofun (.inr ⟨Nat.succ_pos _, '\x7d', _, rfl, by simp⟩)
  obtain ⟨s₅, run₅, at₅⟩ := closed fuel light₄ ends (.inr ⟨rfl, rfl⟩) at₄
  exact ⟨s₅, top, run₁.trans (run₂.trans (run₃.trans (run₄.trans run₅))),
    light, by simpa [typedKinds, Scalar.kind, Markup.plainScalar] using at₅⟩

end Scan

-- Where the text of an operand stands: it is the value of a key, or comes behind another one in a list.
inductive Spot where
  | value
  | item

namespace Spot

open Scan TokenStream

def opening : Spot → String
  | .value => "print: "
  | .item => "elem: [~, "

def closing : Spot → String
  | .value => ""
  | .item => "]"

def around (spot : Spot) (operand : String) : String := spot.opening ++ operand ++ spot.closing

def node? : Spot → Node → Option Node
  | .value, .mapping _ (.cons _ n .nil) => some n
  | .item, .mapping _ (.cons _ (.list _ (.cons _ (.cons n .nil))) .nil) => some n
  | _, _ => none

def read? (spot : Spot) (operand : String) : Option Node :=
  match readDocument (spot.around operand) with
  | .ok (some root) => spot.node? root
  | _ => none

def before (key other : Scalar) : Spot → List TokenKind
  | .value => [.streamStart, .blockMappingStart, .key, key.kind, .value]
  | .item => [.streamStart, .blockMappingStart, .key, key.kind, .value, .flowListStart, other.kind, .separator]

def after : Spot → List TokenKind
  | .value => [.blockEnd, .streamEnd]
  | .item => [.flowListEnd, .blockEnd, .streamEnd]

variable (spot : Spot)

theorem around_chars (text : List Char) :
    (spot.around (String.ofList text)).toList = spot.opening.toList ++ (text ++ spot.closing.toList) := by
  simp [around]

variable {steps : Nat} {kinds : List TokenKind}

theorem tokens_made (starts : Begins text) (passes : Passes text steps kinds)
    (allowed : text.all isAllowed = true) (few : steps ≤ text.length) :
    ∃ (key other : Scalar) (tokens : List Token),
      ofText (spot.opening.toList ++ (text ++ spot.closing.toList)) = ⟨tokens.toArray, none⟩ ∧
        tokens.map Token.kind = spot.before key other ++ kinds ++ spot.after := by
  obtain ⟨k, length⟩ := Nat.exists_eq_add_of_le few
  have fine : (spot.opening.toList ++ (text ++ spot.closing.toList)).all isAllowed = true := by
    rw [all_append, all_append, allowed]
    cases spot <;> rfl
  refine ⟨⟨.text, match spot with | .value => "print" | .item => "elem", true⟩, ⟨.null, "~", true⟩, ?_⟩
  have unmarked : (spot.opening.toList ++ (text ++ spot.closing.toList)).head?.any isByteOrderMark = false := by
    cases spot <;> rfl
  rw [ofText, unmarked, if_neg Bool.false_ne_true, if_pos fine, length_append,
    length_append, length]
  cases spot with
  | value =>
    obtain ⟨s₁, run₁, at₁⟩ := value_opened (k + 7 + steps) starts
    rw [← append_nil text] at at₁
    obtain ⟨s₂, top, run₂, light, at₂⟩ := passes (k + 7) at₁ nofun (.inl rfl)
    obtain ⟨tokens, run₃, same⟩ := finished (k + 6) light at₂
    refine ⟨tokens, ?_, same⟩
    have fuel : value.opening.toList.length + (steps + k + value.closing.toList.length) + 3 = k + 7 + steps + 3 := by
      rw [show value.opening.toList.length = 7 from rfl, show value.closing.toList.length = 0 from rfl]
      omega
    have nothing : value.closing.toList = [] := rfl
    rw [← run₃, ← run₂, ← run₁, fuel, nothing, append_nil]
    rfl
  | item =>
    obtain ⟨s₁, run₁, at₁⟩ := item_opened (k + 8 + steps) starts.append
    obtain ⟨s₂, top, run₂, light, at₂⟩ :=
      passes (k + 8) at₁ (fun _ => Nat.one_pos) (.inr ⟨Nat.one_pos, ']', [], rfl, by simp⟩)
    obtain ⟨s₃, run₃, at₃⟩ := closed (k + 7) light (.inl rfl) (.inl ⟨rfl, rfl⟩) at₂
    obtain ⟨tokens, run₄, same⟩ := finished (k + 6) light_none at₃
    refine ⟨tokens, ?_, by simpa [before, after, Scalar.kind] using same⟩
    have fuel : item.opening.toList.length + (steps + k + item.closing.toList.length) + 3 = k + 8 + steps + 6 := by
      rw [show item.opening.toList.length = 10 from rfl, show item.closing.toList.length = 1 from rfl]
      omega
    rw [← run₄, ← run₃, ← run₂, ← run₁, fuel]
    rfl

-- The tokens of some kinds, the one with number `i` from `start i` to `stop i`.
def placed (start stop : Nat → Place) : Nat → List TokenKind → List Token
  | _, [] => []
  | i, kind :: kinds => ⟨kind, start i, stop i⟩ :: placed start stop (i + 1) kinds

theorem placed_kinds (tokens : List Token) : ∃ start stop, tokens = placed start stop 0 (tokens.map Token.kind) := by
  have tail (ts : List Token) (i : Nat) (behind : tokens.drop i = ts) :
      ts = placed (fun i => (tokens[i]?.getD default).start) (fun i => (tokens[i]?.getD default).stop) i
        (ts.map Token.kind) := by
    induction ts generalizing i with
    | nil => rfl
    | cons t ts hyp =>
      have here : tokens[i]? = some t := by rw [← head?_drop, behind, head?_cons]
      rw [map_cons, placed, here, ← hyp (i + 1) (by rw [← drop_drop, behind, drop_one, tail_cons])]
      rfl
  exact ⟨_, _, tail tokens 0 rfl⟩

def taken (spot : Spot) (t : TokenStream) : Option Node :=
  match (Reading.document.run t).run {} with
  | .ok (some root, _) => spot.node? root
  | _ => none

theorem read_taken (operand : String) :
    spot.read? operand = spot.taken (ofText (spot.around operand).toList) := by
  unfold read? readDocument taken
  rcases (Reading.document.run (ofText (spot.around operand).toList)).run {} with fault | ⟨_ | root, σ⟩ <;> rfl

section

variable (start stop : Nat → Place) (x key other : Scalar)

-- Only places and scalars are unknown, so reading computes.
set_option maxRecDepth 10000 in
theorem scalar_taken (spot : Spot) : ∃ place,
    spot.taken ⟨(placed start stop 0 (spot.before key other ++ [x.kind] ++ spot.after)).toArray, none⟩ =
      some (.scalar place x.read) := by
  cases spot with
  | value =>
    refine ⟨start 5, ?_⟩
    cbv
  | item =>
    refine ⟨start 8, ?_⟩
    cbv

set_option maxRecDepth 10000 in
theorem typed_taken (lit type y : Scalar) (spot : Spot) : ∃ p q r t u,
    spot.taken ⟨(placed start stop 0 (spot.before key other ++ typedKinds lit x type y ++ spot.after)).toArray, none⟩ =
      some (.mapping p (.cons (.scalar q lit.read) (.scalar r x.read)
        (.cons (.scalar t type.read) (.scalar u y.read) .nil))) := by
  cases spot with
  | value =>
    refine ⟨start 5, start 7, start 9, start 12, start 14, ?_⟩
    cbv
  | item =>
    refine ⟨start 8, start 10, start 12, start 15, start 17, ?_⟩
    cbv

end

variable {x y : Scalar}

theorem reads_scalar (written : x.IsWritten) :
    ∃ place, spot.read? (String.ofList x.chars) = some (.scalar place x) := by
  obtain ⟨key, other, tokens, made, kinds⟩ :=
    spot.tokens_made (scalar_begins written) (scalar_passes written) written.allowed (scalar_begins written).length
  obtain ⟨start, stop, same⟩ := placed_kinds tokens
  obtain ⟨place, taken⟩ := scalar_taken start stop x key other spot
  refine ⟨place, ?_⟩
  rw [read_taken, spot.around_chars, made, same, kinds, taken, written.read]

theorem reads_typed (written : x.IsWritten) (named : y.IsWritten) : ∃ p q r t u,
    spot.read? (String.ofList (typedChars x y)) =
      some (.mapping p (.cons (.scalar q (plainScalar "lit")) (.scalar r x)
        (.cons (.scalar t (plainScalar "type")) (.scalar u y) .nil))) := by
  have allowed : (typedChars x y).all isAllowed = true := by
    simp only [typedChars, all_cons, all_append, written.allowed, named.allowed]
    rfl
  obtain ⟨key, other, tokens, made, kinds⟩ :=
    spot.tokens_made typed_begins (typed_passes written named) allowed (by simp [typedChars]; omega)
  obtain ⟨start, stop, same⟩ := placed_kinds tokens
  obtain ⟨p, q, r, t, u, taken⟩ := typed_taken start stop x key other (plainScalar "lit") (plainScalar "type") y spot
  refine ⟨p, q, r, t, u, ?_⟩
  rw [written.read, named.read] at taken
  rw [read_taken, spot.around_chars, made, same, kinds]
  exact taken

end Spot

end Markup

open Markup (Scalar plainScalar)

namespace Outline

theorem digits_written {text : String} {negative : Bool} {body : List Char}
    (written : text.toList = Markup.sign negative ++ body) (digits : ∀ c ∈ body, c.isDigit = true ∨ c = '.')
    (some_ : body ≠ []) : (plainScalar text).IsWritten := by
  have plain : body.all Markup.plainChars.contains = true := by
    simp only [all_eq_true, contains_eq_mem, decide_eq_true_eq]
    intro c mem
    rcases digits c mem with digit | rfl
    · exact Markup.digit_plain digit
    · decide
  obtain ⟨c, more, rfl⟩ := exists_cons_of_ne_nil some_
  have other : c ≠ '-' := by
    rintro rfl
    exact absurd (digits '-' mem_cons_self) (by decide)
  refine ⟨?_, ?_, rfl⟩
  · rw [show (plainScalar text).text = text from rfl, written, all_append, plain]
    cases negative <;> rfl
  · simp [plainScalar, written, other]

theorem number_written {v : Number} (double : v.IsDouble) : (plainScalar (numberText v)).IsWritten := by
  cases v with
  | finite q =>
    by_cases zero : q = 0
    · subst zero
      exact ⟨by decide, by decide, rfl⟩
    · have exact := double q rfl
      rcases le_or_gt 0 (Decimal.shortest .double |q|).exponent with whole | fraction
      · obtain ⟨n, written, -⟩ := Number.whole_text q zero exact whole
        exact digits_written written (fun c mem => .inl (Markup.all_digits n c mem)) Nat.toDigits_ne_nil
      · obtain ⟨w, f, -, written, digits, -⟩ := Number.fraction_text q zero exact fraction
        refine digits_written written (fun c mem => ?_) (by simp)
        simp only [mem_append, mem_cons] at mem digits
        rcases mem with mem | rfl | mem
        · exact .inl (digits c (.inl mem))
        · exact .inr rfl
        · exact .inl (digits c (.inr mem))
  | _ => exact ⟨by decide, by decide, rfl⟩

theorem double_written {v : Number} (double : v.IsDouble) : (plainScalar (doubleText v)).IsWritten := by
  have written := number_written double
  unfold doubleText
  split
  · exact written
  · have chars : (plainScalar (numberText v ++ ".0")).text.toList = (numberText v).toList ++ ['.', '0'] := by
      simp [plainScalar]
    refine ⟨?_, ?_, rfl⟩
    · rw [chars, all_append, show (numberText v).toList.all _ = true from written.1]
      rfl
    · rw [chars, any_append, show (numberText v).toList.any _ = true from written.2.1]
      rfl

theorem literal_written {b : Block} {payload : Payload} {type : ValueType} {s : Scalar} (holds : b.payload = payload)
    (typed : b.type = some type) (valid : Literal payload type)
    (shown : Outline.literal b = .scalar {} s ∨ Outline.literal b = typedLiteral (.scalar {} s) (some type)) :
    s.IsWritten := by
  unfold Outline.literal at shown
  rw [holds, typed] at shown
  cases valid with
  | text s' =>
    rcases shown with shown | shown <;> cases shown
    rfl
  | truth t =>
    rcases shown with shown | shown <;> cases shown
    cases t <;> exact ⟨by decide, by decide, rfl⟩
  | character s' single =>
    rcases shown with shown | shown <;> cases shown
    rfl
  | number v type numeric double =>
    dsimp only at shown
    by_cases point : type = .double
    · rw [if_pos (by rw [point])] at shown
      rcases shown with shown | shown <;> cases shown
      exact double_written double
    · rw [if_neg (by simpa using point)] at shown
      split_ifs at shown
      all_goals
        rcases shown with shown | shown <;> cases shown
        exact number_written double

theorem type_scalar {payload : Payload} {type : ValueType} (valid : Literal payload type) :
    ∃ y : Scalar, Outline.type (some type) = .scalar {} y ∧ y.IsWritten := by
  obtain ⟨p, rfl⟩ : ∃ p, type = .primitive p := by
    cases type with
    | primitive p => exact ⟨p, rfl⟩
    | array element size =>
      cases valid with
      | number v type numeric double => cases numeric
  refine ⟨plainScalar (ValueType.primitive p).text, rfl, ?_⟩
  cases p <;> exact ⟨by decide, by decide, rfl⟩

theorem scalar_text (place : Markup.Place) (x : Scalar) : flowText (.scalar place x) = String.ofList x.chars := by
  unfold flowText Scalar.chars
  split
  · exact String.ofList_toList.symm
  · rfl

theorem typed_text (x y : Scalar) {type : ValueType} (named : Outline.type (some type) = .scalar {} y) :
    flowText (typedLiteral (.scalar {} x) (some type)) = String.ofList (Markup.Scan.typedChars x y) := by
  rw [typedLiteral, named]
  apply String.toList_inj.mp
  have chars (z : Scalar) : (flowText (.scalar {} z)).toList = z.chars := by rw [scalar_text, String.toList_ofList]
  simp only [flowText] at chars
  simp [flowMapping, flowText, flowPairs, Markup.EntryList.ofList, Markup.Scan.typedChars, plain, chars]

end Outline
end Blockwork
