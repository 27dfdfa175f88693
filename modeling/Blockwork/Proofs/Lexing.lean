import Blockwork.Proofs.Grammar
import Blockwork.Text.Quoted

set_option autoImplicit false

namespace Blockwork

open List Text

variable {code text : String} {c : Char} {level : Nat}

namespace Cpp

def isEnd (c : Char) : Bool := c = ' ' || c = ')' || c = ']' || c = '[' || c = ';' || c = '\n'

-- The code is these tokens if the right character follows.
def Lexed (ok : Char → Prop) (code : String) (ts : List Token) : Prop :=
  ∀ done c rest, ok c → Scan.run ⟨done, .none⟩ (code.toList ++ c :: rest) = Scan.run ⟨done ++ ts, .none⟩ (c :: rest)

def Begins (ok : Char → Prop) (code : String) : Prop := ∃ c cs, code.toList = c :: cs ∧ ok c

variable {ok ok' : Char → Prop} {a b op : String} {quote : Char}

theorem Begins.mono (begins : Begins ok code) (weaker : ∀ c, ok c → ok' c) : Begins ok' code := by
  obtain ⟨c, cs, shape, holds⟩ := begins
  exact ⟨c, cs, shape, weaker c holds⟩

theorem Begins.append (begins : Begins ok a) : Begins ok (a ++ b) := by
  obtain ⟨c, cs, shape, holds⟩ := begins
  exact ⟨c, cs ++ b.toList, by simp [shape], holds⟩

theorem Lexed.append {ts us : List Token} (first : Lexed ok a ts) (second : Lexed ok' b us) (meets : Begins ok b) :
    Lexed ok' (a ++ b) (ts ++ us) := by
  intro done c rest holds
  obtain ⟨d, ds, shape, fits⟩ := meets
  have split : (a ++ b).toList ++ c :: rest = a.toList ++ d :: (ds ++ c :: rest) := by simp [shape]
  rw [split, first done d _ fits, ← cons_append, ← shape, second _ c rest holds, append_assoc]

theorem Lexed.mono {ts : List Token} (lexed : Lexed ok code ts) (stronger : ∀ c, ok' c → ok c) : Lexed ok' code ts :=
  fun done c rest holds => lexed done c rest (stronger c holds)

namespace Scan

theorem run_cons (s : Scan) (c : Char) (cs : List Char) : run s (c :: cs) = run (s.step c) cs := rfl

variable {done : List Token}

theorem run_gathers (gather : List Char → Pending) {own : Char → Prop} (seen cs rest : List Char)
    (all : ∀ c ∈ cs, own c) (takes : ∀ seen c, own c → step ⟨done, gather seen⟩ c = ⟨done, gather (seen ++ [c])⟩) :
    run ⟨done, gather seen⟩ (cs ++ rest) = run ⟨done, gather (seen ++ cs)⟩ rest := by
  induction cs generalizing seen with
  | nil => rw [append_nil, nil_append]
  | cons c cs hyp =>
    obtain ⟨first, others⟩ := forall_mem_cons.mp all
    rw [cons_append, run_cons, takes seen c first, hyp _ others, append_assoc, singleton_append]

theorem run_word (seen cs rest : List Char) (word : ∀ c ∈ cs, isWordChar c = true) :
    run ⟨done, .word seen⟩ (cs ++ rest) = run ⟨done, .word (seen ++ cs)⟩ rest :=
  run_gathers .word seen cs rest word fun _ _ own => if_pos own

theorem run_number (seen cs rest : List Char) (digits : ∀ c ∈ cs, (isWordChar c || c = '.') = true) :
    run ⟨done, .number seen⟩ (cs ++ rest) = run ⟨done, .number (seen ++ cs)⟩ rest :=
  run_gathers .number seen cs rest digits fun _ _ own => if_pos own

theorem run_text (done : List Token) (quote : Char) (seen cs rest : List Char)
    (plain : ∀ c ∈ cs, c ≠ '\\' ∧ c ≠ quote) :
    run ⟨done, .text quote seen false⟩ (cs ++ rest) = run ⟨done, .text quote (seen ++ cs) false⟩ rest :=
  run_gathers (Pending.text quote · false) seen cs rest plain fun _ _ own => by simp [step, own]

theorem run_symbol {d : Char} {rest : List Char} (apart : joined d c = false) :
    run ⟨done, .symbol d⟩ (c :: rest) = run ⟨done ++ [Token.symbol (.ofList [d])], .none⟩ (c :: rest) := by
  have first : step ⟨done, .symbol d⟩ c = start (done ++ [Token.symbol (.ofList [d])]) c := by simp [step, apart]
  rw [run_cons, first]
  rfl

end Scan

theorem end_cases (ends : isEnd c = true) : c = ' ' ∨ c = ')' ∨ c = ']' ∨ c = '[' ∨ c = ';' ∨ c = '\n' := by
  simpa [isEnd, or_assoc] using ends

theorem end_apart (ends : isEnd c = true) : isWordChar c = false ∧ c ≠ '.' := by
  rcases end_cases ends with rfl | rfl | rfl | rfl | rfl | rfl <;> decide

theorem bracket_apart (d c : Char) (bracket : d = '(' ∨ d = ')' ∨ d = '[' ∨ d = ']' ∨ d = ';') :
    joined d c = false := by
  rcases bracket with rfl | rfl | rfl | rfl | rfl <;> simp [joined]

theorem start_not_blank (c : Char) (starts : isWordStart c = true ∨ c.isDigit = true) : isBlank c = false := by
  refine Bool.eq_false_iff.mpr fun blank => ?_
  have cases : c = ' ' ∨ c = '\n' ∨ c = '\t' := by simpa [isBlank, or_assoc] using blank
  revert starts
  rcases cases with rfl | rfl | rfl <;> decide

theorem digit_not_start (digit : c.isDigit = true) : isWordStart c = false := by
  have range : 48 ≤ c.toNat ∧ c.toNat ≤ 57 := by
    simpa [Char.isDigit, UInt32.le_iff_toNat_le] using digit
  have other : c ≠ '_' := by
    rintro rfl
    simp at range
  simp only [isWordStart, Char.isAlpha, Char.isUpper, Char.isLower, UInt32.le_iff_toNat_le, other, decide_false,
    Bool.or_false, Bool.or_eq_false_iff, Bool.and_eq_false_iff, decide_eq_false_iff_not]
  have := range
  simp
  omega

def isWord (w : String) : Bool :=
  match w.toList with
  | [] => false
  | c :: cs => isWordStart c && cs.all isWordChar

theorem lexed_word (w : String) (word : isWord w = true) : Lexed (isEnd · = true) w [.word w] := by
  intro done c rest ends
  unfold isWord at word
  split at word
  · cases word
  · next d ds shape =>
      rw [Bool.and_eq_true, all_eq_true] at word
      have blank := start_not_blank d (.inl word.1)
      have first : Scan.step ⟨done, .none⟩ d = ⟨done, .word [d]⟩ := by simp [Scan.step, Scan.start, blank, word.1]
      have last : Scan.step ⟨done, .word (d :: ds)⟩ c = Scan.step ⟨done ++ [Token.word w], .none⟩ c := by
        simp [Scan.step, (end_apart ends).1, ← shape]
      rw [shape, cons_append, Scan.run_cons, first, Scan.run_word _ _ _ word.2, Scan.run_cons, singleton_append,
        last]
      rfl

def isNumeral (s : String) : Bool :=
  match s.toList with
  | [] => false
  | c :: cs => c.isDigit && cs.all fun c => isWordChar c || c = '.'

theorem lexed_numeral (numeral : isNumeral text = true) : Lexed (isEnd · = true) text [.literal text] := by
  intro done c rest ends
  unfold isNumeral at numeral
  split at numeral
  · cases numeral
  · next d ds shape =>
      rw [Bool.and_eq_true, all_eq_true] at numeral
      have blank := start_not_blank d (.inr numeral.1)
      have first : Scan.step ⟨done, .none⟩ d = ⟨done, .number [d]⟩ := by
        simp [Scan.step, Scan.start, blank, digit_not_start numeral.1, numeral.1]
      have last : Scan.step ⟨done, .number (d :: ds)⟩ c = Scan.step ⟨done ++ [Token.literal text], .none⟩ c := by
        simp [Scan.step, (end_apart ends).1, (end_apart ends).2, ← shape]
      rw [shape, cons_append, Scan.run_cons, first, Scan.run_number _ _ _ numeral.2, Scan.run_cons,
        singleton_append, last]
      rfl

theorem hex_plain (width n : Nat) (mem : c ∈ hex width n) : c ≠ '\\' ∧ c ≠ '"' ∧ c ≠ '\'' := by
  have digits : ∀ d < 16, hexDigit d ≠ '\\' ∧ hexDigit d ≠ '"' ∧ hexDigit d ≠ '\'' := by decide
  induction width generalizing n with
  | zero => cases mem
  | succ width hyp =>
    rcases mem_append.mp mem with before | last
    · exact hyp _ before
    · rw [mem_singleton.mp last]
      exact digits _ (Nat.mod_lt n (by decide))

theorem run_escaped (done : List Token) (quote c : Char) (quotes : quote = '"' ∨ quote = '\'') (seen rest : List Char) :
    Scan.run ⟨done, .text quote seen false⟩ (escapeChar quote c ++ rest) =
      Scan.run ⟨done, .text quote (seen ++ escapeChar quote c) false⟩ rest := by
  have escape : ∀ d more, (∀ e ∈ more, e ≠ '\\' ∧ e ≠ quote) →
      Scan.run ⟨done, .text quote seen false⟩ ('\\' :: d :: more ++ rest) =
        Scan.run ⟨done, .text quote (seen ++ '\\' :: d :: more) false⟩ rest := by
    intro d more plain
    have first : Scan.step ⟨done, .text quote seen false⟩ '\\' = ⟨done, .text quote (seen ++ ['\\']) true⟩ := by
      simp [Scan.step]
    have second : Scan.step ⟨done, .text quote (seen ++ ['\\']) true⟩ d =
        ⟨done, .text quote (seen ++ ['\\', d]) false⟩ := by
      simp [Scan.step]
    rw [cons_append, cons_append, Scan.run_cons, first, Scan.run_cons, second, Scan.run_text _ _ _ _ _ plain]
    simp
  have digits : ∀ width n, ∀ e ∈ hex width n, e ≠ '\\' ∧ e ≠ quote := by
    intro width n e mem
    obtain ⟨slash, double, single⟩ := hex_plain width n mem
    rcases quotes with rfl | rfl
    · exact ⟨slash, double⟩
    · exact ⟨slash, single⟩
  unfold escapeChar
  by_cases special : c = quote ∨ c = '\\'
  · rw [if_pos special]
    exact escape c [] (by simp)
  · rw [if_neg special]
    by_cases printable : isPrintable c = true
    · rw [if_pos printable]
      refine Scan.run_text done quote seen [c] rest fun e mem => ?_
      rw [mem_singleton.mp mem]
      exact ⟨fun same => special (.inr same), fun same => special (.inl same)⟩
    · rw [if_neg printable]
      split
      · exact escape _ [] (by simp)
      · split_ifs
        · exact escape _ _ (digits 2 _)
        · exact escape _ _ (digits 4 _)
        · exact escape _ _ (digits 8 _)

theorem run_escape (done : List Token) (quotes : quote = '"' ∨ quote = '\'') (cs seen rest : List Char) :
    Scan.run ⟨done, .text quote seen false⟩ (escape quote cs ++ rest) =
      Scan.run ⟨done, .text quote (seen ++ escape quote cs) false⟩ rest := by
  induction cs generalizing seen with
  | nil => simp [escape]
  | cons c cs hyp =>
    have parts : escape quote (c :: cs) = escapeChar quote c ++ escape quote cs := flatMap_cons
    rw [parts, append_assoc, run_escaped done quote c quotes, hyp, append_assoc]

theorem lexed_quoted (quotes : quote = '"' ∨ quote = '\'') (cs : List Char) :
    Lexed (fun _ => True) (.ofList (quote :: escape quote cs ++ [quote]))
      [.literal (.ofList (quote :: escape quote cs ++ [quote]))] := by
  intro done c rest _
  have first : Scan.step ⟨done, .none⟩ quote = ⟨done, .text quote [quote] false⟩ := by
    rcases quotes with rfl | rfl <;> rfl
  have last : Scan.run ⟨done, .text quote ([quote] ++ escape quote cs) false⟩ ([quote] ++ c :: rest) =
      Scan.run ⟨done ++ [Token.literal (.ofList (quote :: escape quote cs ++ [quote]))], .none⟩ (c :: rest) := by
    rw [singleton_append, Scan.run_cons]
    rcases quotes with rfl | rfl <;> rfl
  rw [String.toList_ofList, append_assoc, cons_append, Scan.run_cons, first, run_escape done quotes, last]

theorem lexed_symbol (d : Char) (start : ∀ done, Scan.step ⟨done, .none⟩ d = ⟨done, .symbol d⟩)
    (apart : ∀ c, ok c → joined d c = false) : Lexed ok (.ofList [d]) [.symbol (.ofList [d])] := by
  intro done c rest holds
  rw [String.toList_ofList, singleton_append, Scan.run_cons, start, Scan.run_symbol (apart c holds)]

theorem lexed_blank : Lexed (fun _ => True) " " [] := by
  intro done c rest _
  rw [append_nil]
  rfl

theorem lexed_bracket (d : Char) (bracket : d = '(' ∨ d = ')' ∨ d = '[' ∨ d = ']' ∨ d = ';') :
    Lexed (fun _ => True) (.ofList [d]) [.symbol (.ofList [d])] := by
  refine lexed_symbol d (fun done => ?_) fun c _ => bracket_apart d c bracket
  rcases bracket with rfl | rfl | rfl | rfl | rfl <;> rfl

theorem operator_cases (operator : op ∈ operators level ∨ op = "=") :
    op ∈ ["*", "/", "%", "+", "-", "<<", ">>", "<", "<=", ">", ">=", "==", "!=", "&&", "||", "="] := by
  have all : ∀ level < 9, ∀ op ∈ operators level,
      op ∈ ["*", "/", "%", "+", "-", "<<", ">>", "<", "<=", ">", ">=", "==", "!=", "&&", "||", "="] := by decide
  rcases operator with mem | rfl
  · have := operator_level mem
    exact all level (by omega) op mem
  · simp

theorem lexed_operator (operator : op ∈ operators level ∨ op = "=") :
    Begins (fun _ => True) op ∧ Lexed (· = ' ') op [.symbol op] := by
  have listed := operator_cases operator
  simp only [mem_cons, not_mem_nil, or_false] at listed
  constructor
  · rcases listed with rfl | rfl | rfl | rfl | rfl | rfl | rfl | rfl | rfl | rfl | rfl | rfl | rfl | rfl | rfl | rfl <;>
      exact ⟨_, _, rfl, trivial⟩
  · rintro done _ rest rfl
    rcases listed with rfl | rfl | rfl | rfl | rfl | rfl | rfl | rfl | rfl | rfl | rfl | rfl | rfl | rfl |
      rfl | rfl <;> rfl

theorem lexed_operation {left right : String} (op : String) (level : Nat) (operator : op ∈ operators level ∨ op = "=")
    {ls rs : List Token} (first : Lexed (isEnd · = true) left ls) (second : Lexed (isEnd · = true) right rs)
    (begins : Begins (fun _ => True) right) :
    Lexed (isEnd · = true) (left ++ " " ++ op ++ " " ++ right) (ls ++ Token.symbol op :: rs) := by
  obtain ⟨start, symbol⟩ := lexed_operator operator
  have blank := first.append lexed_blank ⟨' ', [], rfl, rfl⟩
  have operation := blank.append symbol start
  have spaced := operation.append lexed_blank ⟨' ', [], rfl, rfl⟩
  simpa using spaced.append second begins

theorem lexed_qualified {v : String} (either : v = "cout" ∨ v = "endl") :
    Lexed (isEnd · = true) ("std::" ++ v) [.word "std", .symbol "::", .word v] := by
  intro done c rest ends
  have scope : Scan.run ⟨done, .none⟩ ("std::".toList ++ (v.toList ++ c :: rest)) =
      Scan.run ⟨done ++ [Token.word "std"] ++ [Token.symbol "::"], .none⟩ (v.toList ++ c :: rest) := by
    rcases either with rfl | rfl <;> rfl
  have word : isWord v = true := by rcases either with rfl | rfl <;> decide
  rw [String.toList_append, append_assoc, scope, lexed_word v word _ c rest ends]
  simp

-- The code is an expression of the level, namely this one.
structure Means (code : String) (level : Nat) (t : Tree) : Prop where
  begins : Begins (· ≠ '=') code
  derives : ∃ ts, Lexed (isEnd · = true) code ts ∧ Derives level ts t

namespace Means

variable {t : Tree}

theorem lift (k : Nat) (means : Means code level t) (above : level ≤ k) (within : k ≤ 9) : Means code k t := by
  induction k with
  | zero => exact Nat.le_zero.mp above ▸ means
  | succ k hyp =>
    rcases Nat.lt_or_eq_of_le above with less | rfl
    · obtain ⟨begins, ts, lexed, derives⟩ := hyp (by omega) (by omega)
      exact ⟨begins, ts, lexed, .lift k ts t (by omega) derives⟩
    · exact means

theorem name {w : String} (word : isWord w = true) (free : w ∉ keywords) : Means w 0 (.name w) := by
  refine ⟨?_, _, lexed_word w word, .name w free⟩
  unfold isWord at word
  split at word
  · cases word
  · next c cs shape =>
      refine ⟨c, cs, shape, ?_⟩
      rintro rfl
      cases word

theorem truth (b : Bool) : Means (if b then "true" else "false") 0 (.literal (if b then "true" else "false")) := by
  cases b
  · exact ⟨⟨_, _, rfl, by decide⟩, _, lexed_word "false" rfl, .truth _ (.inr rfl)⟩
  · exact ⟨⟨_, _, rfl, by decide⟩, _, lexed_word "true" rfl, .truth _ (.inl rfl)⟩

theorem numeral (numeral : isNumeral text = true) : Means text 0 (.literal text) := by
  refine ⟨?_, _, lexed_numeral numeral, .literal text⟩
  unfold isNumeral at numeral
  split at numeral
  · cases numeral
  · next c cs shape =>
      refine ⟨c, cs, shape, ?_⟩
      rintro rfl
      cases numeral

theorem negative (numeral : isNumeral text = true) : Means ("-" ++ text) 1 (.negative (.literal text)) := by
  have digit : Begins (fun c => c.isDigit = true) text := by
    unfold isNumeral at numeral
    split at numeral
    · cases numeral
    · next c cs shape => exact ⟨c, cs, shape, (Bool.and_eq_true_iff.mp numeral).1⟩
  have minus : Lexed (fun c => c.isDigit = true) "-" [.symbol "-"] := by
    refine lexed_symbol '-' (fun done => rfl) fun c digit => ?_
    refine Bool.eq_false_iff.mpr fun joins => ?_
    have cases : c = '-' ∨ c = '>' ∨ c = '=' := by simpa [joined] using joins
    revert digit
    rcases cases with rfl | rfl | rfl <;> decide
  have begins : Begins (· ≠ '=') "-" := ⟨'-', [], rfl, by decide⟩
  exact ⟨begins.append, _, minus.append (lexed_numeral numeral) digit,
    .negative _ _ (.lift 0 _ _ (by omega) (.literal text))⟩

theorem quoted (quote : Char) (quotes : quote = '"' ∨ quote = '\'') (cs : List Char) :
    Means (.ofList (quote :: escape quote cs ++ [quote])) 0
      (.literal (.ofList (quote :: escape quote cs ++ [quote]))) := by
  refine ⟨⟨quote, _, String.toList_ofList, ?_⟩, _, (lexed_quoted quotes cs).mono fun _ _ => trivial, .literal _⟩
  rcases quotes with rfl | rfl <;> decide

theorem group (means : Means code 9 t) : Means ("(" ++ code ++ ")") 0 t := by
  obtain ⟨begins, ts, lexed, derives⟩ := means
  have opening := (lexed_bracket '(' (.inl rfl)).append lexed (begins.mono fun _ _ => trivial)
  have closed := opening.append (lexed_bracket ')' (.inr (.inl rfl))) ⟨')', [], rfl, rfl⟩
  have start : Begins (· ≠ '=') "(" := ⟨'(', [], rfl, by decide⟩
  exact ⟨(start.append).append, _, closed.mono fun _ _ => trivial, .group ts t derives⟩

theorem cast (means : Means code 9 t) : Means ("static_cast<double>(" ++ code ++ ")") 0 (.cast t) := by
  obtain ⟨begins, ts, lexed, derives⟩ := means
  have words : Lexed (· = '(') "static_cast<double>"
      [.word "static_cast", .symbol "<", .word "double", .symbol ">"] := by
    rintro done _ rest rfl
    have read : Scan.run ⟨done, .none⟩ ("static_cast<double>".toList ++ '(' :: rest) =
        Scan.run ⟨done ++ [Token.word "static_cast"] ++ [Token.symbol "<"] ++ [Token.word "double"] ++
          [Token.symbol ">"], .none⟩ ('(' :: rest) := rfl
    simpa using read
  have opening := words.append (lexed_bracket '(' (.inl rfl)) ⟨'(', [], rfl, rfl⟩
  have inner := opening.append lexed (begins.mono fun _ _ => trivial)
  have closed := inner.append (lexed_bracket ')' (.inr (.inl rfl))) ⟨')', [], rfl, rfl⟩
  have start : Begins (· ≠ '=') "static_cast<double>(" := ⟨'s', _, rfl, by decide⟩
  exact ⟨(start.append).append, _, closed.mono fun _ _ => trivial, .cast ts t derives⟩

theorem index {position : String} {i : Tree} (vector : Means code 0 t) (at_ : Means position 9 i) :
    Means (code ++ "[" ++ position ++ "]") 0 (.index t i) := by
  obtain ⟨begins, ts, lexed, derives⟩ := vector
  obtain ⟨begins', is, lexed', derives'⟩ := at_
  have opening := lexed.append (lexed_bracket '[' (.inr (.inr (.inl rfl)))) ⟨'[', [], rfl, rfl⟩
  have inner := opening.append lexed' (begins'.mono fun _ _ => trivial)
  have closed := inner.append (lexed_bracket ']' (.inr (.inr (.inr (.inl rfl))))) ⟨']', [], rfl, rfl⟩
  refine ⟨((begins.append).append).append, _, closed.mono fun _ _ => trivial, ?_⟩
  simpa using Derives.index ts is t i derives derives'

theorem not (means : Means code 1 t) : Means ("!" ++ code) 1 (.not t) := by
  obtain ⟨begins, ts, lexed, derives⟩ := means
  have bang : Lexed (· ≠ '=') "!" [.symbol "!"] := by
    refine lexed_symbol '!' (fun done => rfl) fun c other => ?_
    simpa [joined] using other
  have start : Begins (· ≠ '=') "!" := ⟨'!', [], rfl, by decide⟩
  exact ⟨start.append, _, bang.append lexed begins, .not ts t derives⟩

theorem qualified (v : String) (either : v = "cout" ∨ v = "endl") : Means ("std::" ++ v) 0 (.name ("std::" ++ v)) := by
  have start : Begins (· ≠ '=') "std::" := ⟨'s', _, rfl, by decide⟩
  exact ⟨start.append, _, lexed_qualified either, .qualified "std" v (by decide)⟩

theorem binary (op left right : String) (level : Nat) (l r : Tree) (operator : op ∈ operators (level + 1))
    (first : Means left (level + 1) l) (second : Means right level r) :
    Means (left ++ " " ++ op ++ " " ++ right) (level + 1) (.binary op l r) := by
  obtain ⟨begins, ls, lexed, derives⟩ := first
  obtain ⟨begins', rs, lexed', derives'⟩ := second
  refine ⟨(((begins.append).append).append).append, _, ?_, .binary level op ls rs l r operator derives derives'⟩
  exact lexed_operation op (level + 1) (.inl operator) lexed lexed' (begins'.mono fun _ _ => trivial)

theorem assign {left right : String} {l r : Tree} (first : Means left 8 l) (second : Means right 9 r) :
    Means (left ++ " " ++ "=" ++ " " ++ right) 9 (.binary "=" l r) := by
  obtain ⟨begins, ls, lexed, derives⟩ := first
  obtain ⟨begins', rs, lexed', derives'⟩ := second
  refine ⟨(((begins.append).append).append).append, _, ?_, .assign ls rs l r derives derives'⟩
  exact lexed_operation "=" 9 (.inr rfl) lexed lexed' (begins'.mono fun _ _ => trivial)

theorem derives_whole (means : Means code 9 t) : Derives 9 (tokens code) t := by
  obtain ⟨-, ts, lexed, derives⟩ := means
  have whole : tokens code = ts := by
    have read := lexed [] '\n' [] rfl
    exact congrArg Scan.tokens read
  exact whole ▸ derives

theorem parse (means : Means code 9 t) : Cpp.parse code = some t :=
  parse_derived (means.derives_whole)

theorem parseStatement (means : Means code 9 t) : Cpp.parseStatement (code ++ ";") = some t := by
  obtain ⟨-, ts, lexed, derives⟩ := means
  have ended := lexed.append (lexed_bracket ';' (by simp)) ⟨';', [], rfl, rfl⟩
  have whole : tokens (code ++ ";") = ts ++ [Token.symbol ";"] := by
    have read := ended [] '\n' [] trivial
    exact congrArg Scan.tokens read
  exact parse_statement_derived whole derives

end Means

end Cpp

end Blockwork
