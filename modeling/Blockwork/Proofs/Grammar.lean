import Mathlib

set_option autoImplicit false

namespace Blockwork.Cpp

open List

inductive Token where
  | word (text : String)
  | literal (text : String)
  | symbol (text : String)
deriving DecidableEq

def isWordStart (c : Char) : Bool := c.isAlpha || c = '_' || 0x80 ≤ c.toNat

def isWordChar (c : Char) : Bool := isWordStart c || c.isDigit

def isBlank (c : Char) : Bool := c = ' ' || c = '\n' || c = '\t'

def joined (c d : Char) : Bool :=
  [('&', '&'), ('|', '|'), ('=', '='), ('!', '='), ('<', '='), ('>', '='), ('<', '<'), ('>', '>'),
    (':', ':'), ('+', '+'),
    ('-', '-'), ('-', '>'), ('+', '='), ('-', '='), ('*', '='), ('/', '='), ('%', '='), ('&', '='),
      ('|', '='), ('^', '='), ('/', '/'), ('/', '*')].contains (c, d)

inductive Pending where
  | none
  | word (cs : List Char)
  | number (cs : List Char)
  | text (quote : Char) (cs : List Char) (escaped : Bool)
  | symbol (c : Char)

structure Scan where
  tokens : List Token := []
  pending : Pending := .none

namespace Scan

def start (tokens : List Token) (c : Char) : Scan :=
  ⟨tokens,
    if isBlank c then .none
    else if isWordStart c then .word [c]
    else if c.isDigit then .number [c]
    else if c = '"' ∨ c = '\'' then .text c [c] false
    else .symbol c⟩

def step (s : Scan) (c : Char) : Scan :=
  match s.pending with
  | .none => start s.tokens c
  | .word cs => if isWordChar c then ⟨s.tokens, .word (cs ++ [c])⟩ else start (s.tokens ++ [.word (.ofList cs)]) c
  | .number cs =>
    if isWordChar c || c = '.' then ⟨s.tokens, .number (cs ++ [c])⟩ else start (s.tokens ++ [.literal (.ofList cs)]) c
  | .text quote cs escaped =>
    if escaped then ⟨s.tokens, .text quote (cs ++ [c]) false⟩
    else if c = '\\' then ⟨s.tokens, .text quote (cs ++ [c]) true⟩
    else if c = quote then ⟨s.tokens ++ [.literal (.ofList (cs ++ [c]))], .none⟩
    else ⟨s.tokens, .text quote (cs ++ [c]) false⟩
  | .symbol d =>
    if joined d c then ⟨s.tokens ++ [Token.symbol (.ofList [d, c])], .none⟩ else start
      (s.tokens ++ [Token.symbol (.ofList [d])]) c

def run (s : Scan) (cs : List Char) : Scan := cs.foldl step s

end Scan

def tokens (code : String) : List Token := (Scan.run {} (code.toList ++ ['\n'])).tokens

inductive Tree where
  | name (text : String)
  | literal (text : String)
  | negative (operand : Tree)
  | not (operand : Tree)
  | cast (operand : Tree)
  | index (vector position : Tree)
  | binary (operator : String) (left right : Tree)
deriving DecidableEq

def keywords : List String :=
  ["alignas", "alignof", "and", "and_eq", "asm", "auto", "bitand", "bitor", "bool", "break", "case", "catch", "char",
    "char16_t", "char32_t", "class", "compl", "const", "constexpr", "const_cast", "continue", "decltype", "default",
    "delete", "do", "double", "dynamic_cast", "else", "enum", "explicit", "export", "extern", "false", "float", "for",
    "friend", "goto", "if", "inline", "int", "long", "mutable", "namespace", "new", "noexcept", "not", "not_eq",
    "nullptr", "operator", "or", "or_eq", "private", "protected", "public", "register", "reinterpret_cast", "return",
    "short", "signed", "sizeof", "static", "static_assert", "static_cast", "struct", "switch", "template", "this",
    "thread_local", "throw", "true", "try", "typedef", "typeid", "typename", "union", "unsigned", "using", "virtual",
    "void", "volatile", "wchar_t", "while", "xor", "xor_eq"]

-- The operators of a level, which group from the left. Levels 0 and 1 are those of subscripts and signs, and the last
-- one, 9, is that of assignments.
def operators : Nat → List String
  | 2 => ["*", "/", "%"]
  | 3 => ["+", "-"]
  | 4 => ["<<", ">>"]
  | 5 => ["<", "<=", ">", ">="]
  | 6 => ["==", "!="]
  | 7 => ["&&"]
  | 8 => ["||"]
  | _ => []

inductive Derives : Nat → List Token → Tree → Prop
  | name (w : String) (free : w ∉ keywords) : Derives 0 [.word w] (.name w)
  | qualified (w v : String) (free : w ∉ keywords) : Derives 0 [.word w, .symbol "::", .word v] (.name (w ++ "::" ++ v))
  | truth (w : String) (either : w = "true" ∨ w = "false") : Derives 0 [.word w] (.literal w)
  | literal (text : String) : Derives 0 [.literal text] (.literal text)
  | group (ts : List Token) (t : Tree) (inner : Derives 9 ts t) :
      Derives 0 (.symbol "(" :: (ts ++ [Token.symbol ")"])) t
  | cast (ts : List Token) (t : Tree) (inner : Derives 9 ts t) :
      Derives 0 (.word "static_cast" :: .symbol "<" :: .word "double" :: .symbol ">" :: .symbol "(" ::
        (ts ++ [Token.symbol ")"]))
        (.cast t)
  | index (ts is : List Token) (t i : Tree) (vector : Derives 0 ts t) (position : Derives 9 is i) :
      Derives 0 (ts ++ Token.symbol "[" :: (is ++ [Token.symbol "]"])) (.index t i)
  | not (ts : List Token) (t : Tree) (operand : Derives 1 ts t) : Derives 1 (.symbol "!" :: ts) (.not t)
  | negative (ts : List Token) (t : Tree) (operand : Derives 1 ts t) : Derives 1 (.symbol "-" :: ts) (.negative t)
  | binary (level : Nat) (op : String) (ls rs : List Token) (l r : Tree) (operator : op ∈ operators (level + 1))
      (left : Derives (level + 1) ls l) (right : Derives level rs r) :
      Derives (level + 1) (ls ++ Token.symbol op :: rs) (.binary op l r)
  | assign (ls rs : List Token) (l r : Tree) (left : Derives 8 ls l) (right : Derives 9 rs r) :
      Derives 9 (ls ++ Token.symbol "=" :: rs) (.binary "=" l r)
  | lift (level : Nat) (ts : List Token) (t : Tree) (below : level < 9) (inner : Derives level ts t) :
      Derives (level + 1) ts t

def expect (text : String) : List Token → Option (List Token)
  | .symbol s :: rest => if s = text then some rest else none
  | _ => none

def expectWord (text : String) : List Token → Option (List Token)
  | .word s :: rest => if s = text then some rest else none
  | _ => none

def next? : List Token → Option String
  | .symbol s :: _ => some s
  | _ => none

@[simp] theorem next_symbol (s : String) (rest : List Token) : next? (.symbol s :: rest) = some s := rfl

def qualified (w : String) : List Token → Tree × List Token
  | .symbol "::" :: .word v :: rest => (.name (w ++ "::" ++ v), rest)
  | rest => (.name w, rest)

mutual

def parseAt : Nat → Nat → List Token → Option (Tree × List Token)
  | 0, _, _ => none
  | fuel + 1, 0, ts => (primary fuel ts).bind fun (t, rest) => subscripts fuel t rest
  | fuel + 1, 1, ts =>
    if next? ts = some "!" then (parseAt fuel 1 ts.tail).map fun (t, rest) => (.not t, rest)
    else if next? ts = some "-" then (parseAt fuel 1 ts.tail).map fun (t, rest) => (.negative t, rest)
    else parseAt fuel 0 ts
  | fuel + 1, level + 2, ts =>
    (parseAt fuel (level + 1) ts).bind fun (l, rest) =>
      if level = 7 then assignment fuel l rest else operations fuel (level + 2) l rest

def primary : Nat → List Token → Option (Tree × List Token)
  | 0, _ => none
  | _ + 1, .literal text :: rest => some (.literal text, rest)
  | fuel + 1, .symbol s :: rest => if s = "(" then enclosed fuel rest else none
  | fuel + 1, .word w :: rest =>
    if w = "static_cast" then
      ((((expect "<" rest).bind (expectWord "double")).bind (expect ">")).bind (expect "(")).bind fun rest =>
        (enclosed fuel rest).map fun (t, rest) => (.cast t, rest)
    else if w = "true" ∨ w = "false" then some (.literal w, rest)
    else if w ∈ keywords then none
    else some (qualified w rest)
  | _ + 1, [] => none

def enclosed : Nat → List Token → Option (Tree × List Token)
  | 0, _ => none
  | fuel + 1, ts => (parseAt fuel 9 ts).bind fun (t, rest) => (expect ")" rest).map fun rest => (t, rest)

def subscripts : Nat → Tree → List Token → Option (Tree × List Token)
  | 0, _, _ => none
  | fuel + 1, t, ts =>
    if next? ts = some "[" then
      (parseAt fuel 9 ts.tail).bind fun (i, rest) => (expect "]" rest).bind fun rest =>
        subscripts fuel (.index t i) rest
    else some (t, ts)

def operations : Nat → Nat → Tree → List Token → Option (Tree × List Token)
  | 0, _, _, _ => none
  | fuel + 1, level, l, ts =>
    match next? ts with
    | some op =>
      if op ∈ operators level then
        (parseAt fuel (level - 1) ts.tail).bind fun (r, rest) => operations fuel level (.binary op l r) rest
      else some (l, ts)
    | none => some (l, ts)

def assignment : Nat → Tree → List Token → Option (Tree × List Token)
  | 0, _, _ => none
  | fuel + 1, l, ts =>
    if next? ts = some "=" then (parseAt fuel 9 ts.tail).map fun (r, rest) => (.binary "=" l r, rest) else some (l, ts)

end

def parseUpTo (ending : List Token) (code : String) : Option Tree :=
  (parseAt (20 * (tokens code).length + 20) 9 (tokens code)).bind fun (t, rest) =>
    if rest = ending then some t else none

def parse (code : String) : Option Tree := parseUpTo [] code

def parseStatement (code : String) : Option Tree := parseUpTo [.symbol ";"] code

example : parse "a - -5 * static_cast<double>(x[i + 1]) < b && !(c == \"]\\\"\")" =
    some (.binary "&&"
      (.binary "<" (.binary "-" (.name "a") (.binary "*" (.negative (.literal "5"))
        (.cast (.index (.name "x") (.binary "+" (.name "i") (.literal "1")))))) (.name "b"))
      (.not (.binary "==" (.name "c") (.literal "\"]\\\"\"")))) := by
  decide +kernel

def takes : Nat → String → Bool
  | 0, s => s = "["
  | 9, s => s = "="
  | level, s => s ∈ operators level

-- No tighter level goes on with what comes next.
def Clear (level : Nat) (rest : List Token) : Prop :=
  ∀ s, next? rest = some s → s ≠ "::" ∧ ∀ k < level, takes k s = false

variable {level : Nat} {rest ts ls rs : List Token} {s op w code : String} {t l r : Tree}

theorem Clear.mono {k : Nat} (clear : Clear level rest) (below : k ≤ level) : Clear k rest :=
  fun s next => ⟨(clear s next).1, fun j tighter => (clear s next).2 j (by omega)⟩

theorem clear_symbol (level : Nat) (rest : List Token) (plain : s ≠ "::") (free : ∀ k < level, takes k s = false) :
    Clear level (.symbol s :: rest) := by
  intro s' same
  cases same
  exact ⟨plain, free⟩

theorem operator_level (operator : op ∈ operators level) : 2 ≤ level ∧ level ≤ 8 := by
  match level with
  | 0 | 1 => cases operator
  | 2 | 3 | 4 | 5 | 6 | 7 | 8 => omega
  | _ + 9 => cases operator

theorem operator_clear (operator : op ∈ operators level) : Clear level (.symbol op :: rest) := by
  have all : ∀ level < 9, ∀ op ∈ operators level, op ≠ "::" ∧ ∀ k < level, takes k op = false := by decide
  have bounds := operator_level operator
  obtain ⟨plain, free⟩ := all level (by omega) op operator
  exact clear_symbol level rest plain free

def goOn : Nat → Nat → Tree → List Token → Option (Tree × List Token)
  | 0, fuel, t, ts => subscripts fuel t ts
  | 1, _, t, ts => some (t, ts)
  | 9, _, t, ts => some (t, ts)
  | level, fuel, t, ts => operations fuel level t ts

theorem go_on_operations (level : Nat) (bounds : 2 ≤ level ∧ level ≤ 8) (fuel : Nat) (t : Tree) (ts : List Token) :
    goOn level fuel t ts = operations fuel level t ts := by
  match level with
  | 0 | 1 => omega
  | 2 | 3 | 4 | 5 | 6 | 7 | 8 => rfl
  | _ + 9 => omega

theorem takes_operators (level : Nat) (bounds : 2 ≤ level ∧ level ≤ 8) (s : String) :
    takes level s = true ↔ s ∈ operators level := by
  match level with
  | 0 | 1 => omega
  | 2 | 3 | 4 | 5 | 6 | 7 | 8 => simp [takes]
  | _ + 9 => omega

theorem go_on_stops {fuel : Nat} (t : Tree) (within : level ≤ 8) (clear : Clear (level + 1) rest) (enough : 1 ≤ fuel) :
    goOn level fuel t rest = some (t, rest) := by
  obtain ⟨fuel, rfl⟩ : ∃ f, fuel = f + 1 := ⟨fuel - 1, by omega⟩
  by_cases low : 2 ≤ level
  · rw [go_on_operations level ⟨low, within⟩, operations]
    cases next : next? rest with
    | none => rfl
    | some s =>
      have free : ¬ s ∈ operators level := by
        rw [← takes_operators level ⟨low, within⟩, (clear s next).2 level (by omega)]
        simp
      exact if_neg free
  · match level with
    | 0 =>
      have free : ¬ next? rest = some "[" := by
        intro next
        have := (clear _ next).2 0 (by omega)
        cases this
      rw [goOn, subscripts, if_neg free]
    | 1 => rfl
    | _ + 2 => omega

theorem derives_head (ts rest : List Token) (derives : Derives 0 ts t) :
    next? (ts ++ rest) ≠ some "!" ∧ next? (ts ++ rest) ≠ some "-" := by
  generalize zero : 0 = level at derives
  induction derives generalizing rest with
  | index ts is t i vector position hyp _ =>
    rw [append_assoc]
    exact hyp _ zero
  | not | negative | binary | assign | lift => cases zero
  | _ => simp [next?]

-- Assignments group from the right: they end only where no other one follows.
def ahead (level : Nat) : Nat := if level = 9 then 10 else level

theorem closing_clear (closing : s = ")" ∨ s = "]" ∨ s = ";") (rest : List Token) : Clear 10 (.symbol s :: rest) := by
  have all : ∀ s ∈ [")", "]", ";"], s ≠ "::" ∧ ∀ k < 10, takes k s = false := by decide
  have listed : s ∈ [")", "]", ";"] := by simpa using closing
  exact clear_symbol 10 rest (all s listed).1 (all s listed).2

-- The parser reads the tokens, whatever follows, and goes on from there.
def Found (level : Nat) (ts : List Token) (t : Tree) : Prop :=
  ∀ spare fuel rest, 1 ≤ spare → spare + 20 * ts.length + level ≤ fuel → Clear (ahead level) rest →
    ∃ left, spare ≤ left ∧ parseAt fuel level (ts ++ rest) = goOn level left t rest

theorem Found.ends (found : Found level ts t) (fuel : Nat) (within : level ≤ 9) (enough : 20 * ts.length + level < fuel)
    (clear : Clear (level + 1) rest) : parseAt fuel level (ts ++ rest) = some (t, rest) := by
  have tight : ahead level ≤ level + 1 := by
    unfold ahead
    split_ifs <;> omega
  obtain ⟨left, positive, read⟩ := found 1 fuel rest le_rfl (by omega) (clear.mono tight)
  rw [read]
  by_cases last : level = 9
  · rw [last]
    rfl
  · exact go_on_stops t (by omega) clear positive

theorem found_primary (t : Tree) (nonempty : 1 ≤ ts.length)
    (read : ∀ fuel rest, 20 * ts.length ≤ fuel + 10 → Clear 0 rest → primary fuel (ts ++ rest) = some (t, rest)) :
    Found 0 ts t := by
  intro spare fuel rest positive enough clear
  obtain ⟨fuel, rfl⟩ : ∃ f, fuel = f + 1 := ⟨fuel - 1, by omega⟩
  refine ⟨fuel, by omega, ?_⟩
  rw [parseAt, read fuel rest (by omega) clear]
  rfl

theorem primary_word (fuel : Nat) (other : ¬ w = "static_cast") : primary (fuel + 1) (.word w :: rest) =
    if w = "true" ∨ w = "false" then some (.literal w, rest)
    else if w ∈ keywords then none else some (qualified w rest) :=
  if_neg other

theorem found_word (w : String)
    (read : ∀ fuel rest, Clear 0 rest → primary (fuel + 1) (.word w :: rest) = some (t, rest)) :
    Found 0 [.word w] t := by
  refine found_primary t (by simp) fun fuel rest enough clear => ?_
  obtain ⟨fuel, rfl⟩ : ∃ f, fuel = f + 1 := ⟨fuel - 1, by simp at enough; omega⟩
  exact read fuel rest clear

theorem found_name (free : w ∉ keywords) : Found 0 [.word w] (.name w) := by
  have cast : ¬ w = "static_cast" := fun same => free (by rw [same]; decide)
  have truth : ¬ (w = "true" ∨ w = "false") :=
    fun either => free (by rcases either with same | same <;> rw [same] <;> decide)
  refine found_word w fun fuel rest clear => ?_
  have alone : qualified w rest = (.name w, rest) := by
    unfold qualified
    split
    · exact absurd rfl (clear _ rfl).1
    · rfl
  rw [primary_word fuel cast, if_neg truth, if_neg free, alone]

theorem found_qualified (w v : String) (free : w ∉ keywords) :
    Found 0 [.word w, .symbol "::", .word v] (.name (w ++ "::" ++ v)) := by
  have cast : ¬ w = "static_cast" := fun same => free (by rw [same]; decide)
  have truth : ¬ (w = "true" ∨ w = "false") :=
    fun either => free (by rcases either with same | same <;> rw [same] <;> decide)
  refine found_primary _ (by simp) fun fuel rest enough _ => ?_
  obtain ⟨fuel, rfl⟩ : ∃ f, fuel = f + 1 := ⟨fuel - 1, by simp at enough; omega⟩
  change primary (fuel + 1) (.word w :: .symbol "::" :: .word v :: rest) = _
  rw [primary_word fuel cast, if_neg truth, if_neg free, qualified]

theorem found_truth (either : w = "true" ∨ w = "false") : Found 0 [.word w] (.literal w) := by
  have cast : ¬ w = "static_cast" := by rcases either with rfl | rfl <;> decide
  refine found_word w fun fuel rest _ => ?_
  rw [primary_word fuel cast, if_pos either]

theorem found_literal (text : String) : Found 0 [.literal text] (.literal text) := by
  refine found_primary _ (by simp) fun fuel rest enough _ => ?_
  obtain ⟨fuel, rfl⟩ : ∃ f, fuel = f + 1 := ⟨fuel - 1, by simp at enough; omega⟩
  rfl

theorem found_enclosed (found : Found 9 ts t) (fuel : Nat) (rest : List Token) (enough : 20 * ts.length + 10 < fuel) :
    enclosed fuel (ts ++ [Token.symbol ")"] ++ rest) = some (t, rest) := by
  obtain ⟨fuel, rfl⟩ : ∃ f, fuel = f + 1 := ⟨fuel - 1, by omega⟩
  have inner := found.ends fuel le_rfl (by omega) (closing_clear (.inl rfl) rest)
  rw [append_assoc, enclosed, singleton_append, inner]
  rfl

theorem found_group (found : Found 9 ts t) : Found 0 (.symbol "(" :: (ts ++ [Token.symbol ")"])) t := by
  refine found_primary _ (by simp) fun fuel rest enough _ => ?_
  simp only [length_cons, length_append, length_nil] at enough
  obtain ⟨fuel, rfl⟩ : ∃ f, fuel = f + 1 := ⟨fuel - 1, by omega⟩
  rw [cons_append, primary, if_pos rfl]
  exact found_enclosed found fuel rest (by omega)

theorem found_cast (found : Found 9 ts t) :
    Found 0 (.word "static_cast" :: .symbol "<" :: .word "double" :: .symbol ">" :: .symbol "(" ::
      (ts ++ [Token.symbol ")"]))
      (.cast t) := by
  refine found_primary _ (by simp) fun fuel rest enough _ => ?_
  simp only [length_cons, length_append, length_nil] at enough
  obtain ⟨fuel, rfl⟩ : ∃ f, fuel = f + 1 := ⟨fuel - 1, by omega⟩
  have inner := found_enclosed found fuel rest (by omega)
  simp only [cons_append, primary, if_true, expect, expectWord, Option.bind_some, inner, Option.map_some]

theorem found_index {is : List Token} {i : Tree} (vector : Found 0 ts t) (position : Found 9 is i) :
    Found 0 (ts ++ Token.symbol "[" :: (is ++ [Token.symbol "]"])) (.index t i) := by
  intro spare fuel rest positive enough _
  simp only [length_append, length_cons, length_nil] at enough
  have opening : Clear 0 (.symbol "[" :: (is ++ [Token.symbol "]"] ++ rest)) := clear_symbol 0 _ (by decide) (by simp)
  obtain ⟨left, least, read⟩ := vector (spare + 20 * is.length + 40) fuel _ (by omega) (by omega) opening
  obtain ⟨left, rfl⟩ : ∃ f, left = f + 1 := ⟨left - 1, by omega⟩
  have inner := position.ends left le_rfl (by omega)
    (closing_clear (.inr (.inl rfl)) rest)
  refine ⟨left, by omega, ?_⟩
  rw [append_assoc, cons_append, read, goOn, subscripts, next_symbol, if_pos rfl, tail_cons,
    append_assoc, singleton_append, inner]
  rfl

theorem found_signed (s : String) (make : Tree → Tree) (operand : Found 1 ts t)
    (read : ∀ fuel rest, parseAt (fuel + 1) 1 (.symbol s :: rest) =
      (parseAt fuel 1 rest).map fun (t, rest) => (make t, rest)) : Found 1 (.symbol s :: ts) (make t) := by
  intro spare fuel rest positive enough clear
  simp only [length_cons] at enough
  obtain ⟨fuel, rfl⟩ : ∃ f, fuel = f + 1 := ⟨fuel - 1, by omega⟩
  obtain ⟨left, least, inner⟩ := operand spare fuel rest positive (by omega) clear
  refine ⟨left, least, ?_⟩
  rw [cons_append, read, inner]
  rfl

theorem found_binary (operator : op ∈ operators (level + 1)) (left : Found (level + 1) ls l)
    (right : Found level rs r) :
    Found (level + 1) (ls ++ Token.symbol op :: rs) (.binary op l r) := by
  have bounds := operator_level operator
  have tight : ahead (level + 1) = level + 1 := if_neg (by omega)
  intro spare fuel rest positive enough clear
  rw [tight] at clear
  simp only [length_append, length_cons] at enough
  have follows : Clear (ahead (level + 1)) (.symbol op :: (rs ++ rest)) := by
    rw [tight]
    exact operator_clear operator
  obtain ⟨f, least, first⟩ := left (spare + 20 * rs.length + 20) fuel _ (by omega) (by omega) follows
  obtain ⟨f, rfl⟩ : ∃ f', f = f' + 1 := ⟨f - 1, by omega⟩
  have second := right.ends f (by omega) (by omega) clear
  refine ⟨f, by omega, ?_⟩
  rw [append_assoc, cons_append, first, go_on_operations _ bounds, go_on_operations _ bounds, operations]
  simp only [next?, operator, if_true, tail_cons, Nat.add_sub_cancel, second, Option.bind_some]

theorem found_assign (left : Found 8 ls l) (right : Found 9 rs r) :
    Found 9 (ls ++ Token.symbol "=" :: rs) (.binary "=" l r) := by
  intro spare fuel rest positive enough clear
  simp only [length_append, length_cons] at enough
  obtain ⟨fuel, rfl⟩ : ∃ f, fuel = f + 1 := ⟨fuel - 1, by omega⟩
  have follows : Clear 9 (.symbol "=" :: (rs ++ rest)) := clear_symbol 9 _ (by decide) (by decide)
  have first := left.ends fuel (by omega) (by omega) follows
  obtain ⟨fuel, rfl⟩ : ∃ f, fuel = f + 1 := ⟨fuel - 1, by omega⟩
  have second := right.ends fuel le_rfl (by omega) clear
  refine ⟨spare, le_rfl, ?_⟩
  rw [append_assoc, cons_append, parseAt, first]
  simp [assignment, second, goOn]

theorem found_lift (below : level < 9) (found : Found level ts t)
    (unsigned : level = 0 → ∀ rest, next? (ts ++ rest) ≠ some "!" ∧ next? (ts ++ rest) ≠ some "-") :
    Found (level + 1) ts t := by
  intro spare fuel rest positive enough clear
  obtain ⟨fuel, rfl⟩ : ∃ f, fuel = f + 1 := ⟨fuel - 1, by omega⟩
  have clear' : Clear (level + 1) rest := clear.mono (by unfold ahead; split_ifs <;> omega)
  have inner := found.ends fuel (by omega) (by omega) clear'
  match level with
  | 0 =>
    refine ⟨spare, le_rfl, ?_⟩
    rw [parseAt, if_neg (unsigned rfl rest).1, if_neg (unsigned rfl rest).2, inner]
    rfl
  | 8 =>
    refine ⟨spare, le_rfl, ?_⟩
    have free : ¬ next? rest = some "=" := by
      intro next
      have := (clear _ next).2 9 (by decide)
      cases this
    obtain ⟨fuel, rfl⟩ : ∃ f, fuel = f + 1 := ⟨fuel - 1, by omega⟩
    rw [parseAt, inner]
    simp [assignment, free, goOn]
  | 1 | 2 | 3 | 4 | 5 | 6 | 7 =>
    refine ⟨fuel, by omega, ?_⟩
    rw [parseAt, inner]
    rfl
  | _ + 9 => omega

-- The parser finds what the grammar derives.
theorem found_derives (derives : Derives level ts t) : Found level ts t := by
  induction derives with
  | name w free => exact found_name free
  | qualified w v free => exact found_qualified w v free
  | truth w either => exact found_truth either
  | literal text => exact found_literal text
  | group ts t inner hyp => exact found_group hyp
  | cast ts t inner hyp => exact found_cast hyp
  | index ts is t i vector position hyp hyp' => exact found_index hyp hyp'
  | not ts t operand hyp =>
    refine found_signed "!" .not hyp fun fuel rest => ?_
    rw [parseAt, next_symbol, if_pos rfl]
    rfl
  | negative ts t operand hyp =>
    refine found_signed "-" .negative hyp fun fuel rest => ?_
    rw [parseAt, next_symbol, if_neg (by decide), if_pos rfl]
    rfl
  | binary level op ls rs l r operator left right hyp hyp' => exact found_binary operator hyp hyp'
  | assign ls rs l r left right hyp hyp' => exact found_assign hyp hyp'
  | lift level ts t below inner hyp =>
    refine found_lift below hyp fun zero rest => ?_
    subst zero
    exact derives_head ts rest inner

theorem parse_up_to_derived {ending : List Token} (whole : tokens code = ts ++ ending) (derives : Derives 9 ts t)
    (clear : Clear 10 ending) : parseUpTo ending code = some t := by
  have shorter : ts.length ≤ (tokens code).length := by
    rw [whole, length_append]
    omega
  have read := (found_derives derives).ends (20 * (tokens code).length + 20) le_rfl (by omega) clear
  rw [← whole] at read
  rw [parseUpTo, read, Option.bind_some]
  exact if_pos rfl

theorem parse_derived (derives : Derives 9 (tokens code) t) : parse code = some t :=
  parse_up_to_derived (append_nil _).symm derives fun s next => by cases next

theorem parse_statement_derived (whole : tokens code = ts ++ [Token.symbol ";"]) (derives : Derives 9 ts t) :
    parseStatement code = some t :=
  parse_up_to_derived whole derives (closing_clear (.inr (.inr rfl)) [])

end Blockwork.Cpp
