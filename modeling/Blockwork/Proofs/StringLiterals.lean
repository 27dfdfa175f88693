import Blockwork.Document.Load
import Blockwork.Proofs.Drafting
import Blockwork.Proofs.Links

set_option autoImplicit false

namespace Blockwork

open List Text

variable {c : Char}

namespace Cpp

-- What has been read last of a literal: characters that stand for themselves, a backslash, digits of an escape, or its
-- closing quote.
inductive Position where
  | plain
  | escape
  | hex (value : Option Nat)
  | named (left value : Nat)
  | closed

def simpleEscape? (c : Char) : Option Char :=
  [('\'', '\''), ('"', '"'), ('?', '?'), ('\\', '\\'), ('a', '\x07'), ('b', '\x08'), ('f', '\x0c'), ('n', '\n'),
    ('r', '\r'), ('t', '\t'), ('v', '\x0b')].lookup c

def hexValue? (c : Char) : Option Nat :=
  if '0' ≤ c ∧ c ≤ '9' then some (c.toNat - 48)
  else if 'a' ≤ c ∧ c ≤ 'f' then some (c.toNat - 87)
  else if 'A' ≤ c ∧ c ≤ 'F' then some (c.toNat - 55)
  else none

namespace Position

def outside (quote c : Char) (rest : Position → Option (List UInt8)) : Option (List UInt8) :=
  if c = quote then rest .closed
  else if c = '\\' then rest .escape
  else if c = '\n' then none
  else (rest .plain).map (String.utf8EncodeChar c ++ ·)

def codePoint (value : Nat) (rest : Position → Option (List UInt8)) : Option (List UInt8) :=
  if value.isValidChar then (rest .plain).map (String.utf8EncodeChar (Char.ofNat value) ++ ·) else none

-- The bytes from a character on, given those of what follows it. A hexadecimal escape goes on as long as there are
-- digits and has to fit a byte; the name of a code point has four or eight digits.
def step (quote c : Char) (rest : Position → Option (List UInt8)) : Position → Option (List UInt8)
  | .plain => outside quote c rest
  | .escape =>
    if c = 'x' then rest (.hex none)
    else if c = 'u' then rest (.named 4 0)
    else if c = 'U' then rest (.named 8 0)
    else (simpleEscape? c).bind fun d => (rest .plain).map (String.utf8EncodeChar d ++ ·)
  | .hex value =>
    match hexValue? c with
    | some d => rest (.hex (some (value.getD 0 * 16 + d)))
    | none =>
      value.bind fun v => if v < 256 then (outside quote c rest).map (UInt8.ofNat v :: ·) else none
  | .named left value =>
    (hexValue? c).bind fun d =>
      if left ≤ 1 then codePoint (value * 16 + d) rest else rest (.named (left - 1) (value * 16 + d))
  | .closed => none

end Position

def bytesFrom (quote : Char) : List Char → Position → Option (List UInt8)
  | [], .closed => some []
  | [], _ => none
  | c :: rest, position => position.step quote c (bytesFrom quote rest)

def literalBytes? (code : String) : Option (List UInt8) :=
  match code.toList with
  | quote :: rest => if quote = '"' ∨ quote = '\'' then bytesFrom quote rest .plain else none
  | [] => none

def isNumbered (c : Char) : Bool := (c.toNat < 0x20 || c.toNat = 0x7f) && (Text.escapeLetter? c).isNone

-- A digit behind a character that is written by its number would be read as part of the number.
def Apart (c d : Char) : Prop := ¬ (isNumbered c = true ∧ (hexValue? d).isSome = true)

instance (c d : Char) : Decidable (Apart c d) := inferInstanceAs (Decidable (¬ _))

theorem ascii_printable (c : Char) (ascii : c.toNat < 0x80) :
    isPrintable c = !(c.toNat < 0x20 || c.toNat = 0x7f) := by
  have ranges : printableRanges.toList = (0x20, 0x7e) :: printableRanges.toList.tail := rfl
  have far : ∀ r ∈ printableRanges.toList.tail, 0x80 ≤ r.1 := by decide +kernel
  have none : (printableRanges.toList.tail.any fun r => r.1 ≤ c.toNat && c.toNat ≤ r.2) = false := by
    rw [any_eq_false]
    intro r mem
    have := far r mem
    simp
    omega
  rw [isPrintable, ← Array.any_toList, ranges, any_cons, none, Bool.or_false, Bool.eq_iff_iff]
  simp
  omega

theorem ascii_bytes (ascii : c.toNat < 0x80) : String.utf8EncodeChar c = [UInt8.ofNat c.toNat] := by
  have small : c.toNat ≤ 127 := by omega
  simp [String.utf8EncodeChar, small]

theorem numbered_ascii (numbered : isNumbered c = true) : c.toNat < 0x80 := by
  rw [isNumbered, Bool.and_eq_true, Bool.or_eq_true, decide_eq_true_eq, decide_eq_true_eq] at numbered
  omega

theorem hex_digit_value (d : Nat) (digit : d < 16) : hexValue? (hexDigit d) = some d := by
  have all : ∀ d < 16, hexValue? (hexDigit d) = some d := by decide
  exact all d digit

section

variable (quote : Char) (rest : List Char)

theorem hex_split (width n : Nat) : n % 16 ^ (width + 1) = n / 16 % 16 ^ width * 16 + n % 16 := by
  rw [pow_succ', Nat.mod_mul, Nat.add_comm, Nat.mul_comm]

theorem bytes_hex (width n : Nat) (value : Option Nat) :
    bytesFrom quote (hex (width + 1) n ++ rest) (.hex value) =
      bytesFrom quote rest (.hex (some (value.getD 0 * 16 ^ (width + 1) + n % 16 ^ (width + 1)))) := by
  induction width generalizing n rest with
  | zero =>
    have digit := hex_digit_value (n % 16) (Nat.mod_lt n (by decide))
    simp [hex, bytesFrom, Position.step, digit]
  | succ width hyp =>
    have digit := hex_digit_value (n % 16) (Nat.mod_lt n (by decide))
    rw [hex, append_assoc, hyp, hex_split (width + 1)]
    simp only [singleton_append, bytesFrom, Position.step, digit, Option.getD_some]
    congr 3
    ring

theorem bytes_named (width n left v : Nat) :
    bytesFrom quote (hex width n ++ rest) (.named (left + 1 + width) v) =
      bytesFrom quote rest (.named (left + 1) (v * 16 ^ width + n % 16 ^ width)) := by
  induction width generalizing n rest left with
  | zero => simp [hex, Nat.mod_one]
  | succ width hyp =>
    have digit := hex_digit_value (n % 16) (Nat.mod_lt n (by decide))
    have more : ¬ left + 1 + 1 ≤ 1 := by omega
    have regroup : left + 1 + (width + 1) = left + 1 + 1 + width := by omega
    rw [hex, append_assoc, regroup, hyp, hex_split]
    simp only [singleton_append, bytesFrom, Position.step, digit, Option.bind_some, if_neg more, Nat.add_sub_cancel]
    congr 2
    ring

theorem bytes_code_point {width : Nat} (fits : c.toNat < 16 ^ (width + 1)) :
    bytesFrom quote (hex (width + 1) c.toNat ++ rest) (.named (width + 1) 0) =
      (bytesFrom quote rest .plain).map (String.utf8EncodeChar c ++ ·) := by
  have digit := hex_digit_value (c.toNat % 16) (Nat.mod_lt _ (by decide))
  have short : c.toNat / 16 % 16 ^ width = c.toNat / 16 := by
    refine Nat.mod_eq_of_lt (Nat.div_lt_of_lt_mul ?_)
    rwa [← pow_succ']
  have value : c.toNat / 16 * 16 + c.toNat % 16 = c.toNat := by omega
  have valid : c.toNat.isValidChar := c.valid
  rw [hex, append_assoc, show width + 1 = 0 + 1 + width by omega, bytes_named, short]
  simp [bytesFrom, Position.step, digit, Position.codePoint, value, valid]

theorem escape_numbered (c : Char) (numbered : isNumbered c = true) (special : c ≠ quote ∧ c ≠ '\\') :
    escapeChar quote c = '\\' :: 'x' :: hex 2 c.toNat := by
  have ascii := numbered_ascii numbered
  rw [isNumbered, Bool.and_eq_true, Option.isNone_iff_eq_none] at numbered
  obtain ⟨control, letter⟩ := numbered
  simp [escapeChar, special.1, special.2, ascii_printable c ascii, control, letter, ascii]

theorem escape_begins (c : Char) : ∃ d more, escapeChar quote c = d :: more ∧ (d = '\\' ∨ d = c) := by
  unfold escapeChar
  split_ifs
  · exact ⟨_, _, rfl, .inl rfl⟩
  · exact ⟨_, _, rfl, .inr rfl⟩
  all_goals
    split
    · exact ⟨_, _, rfl, .inl rfl⟩
    · exact ⟨_, _, rfl, .inl rfl⟩

def Bounded (s : List Char) (position : Position) (most : Nat) (condition : Prop) : Prop :=
  ∀ bytes, bytesFrom quote (Text.escape quote s ++ [quote]) position = some bytes →
    bytes.length ≤ most ∧ (bytes.length = most → condition)

end

section

variable (quote : Char) (quotes : quote = '"' ∨ quote = '\'')

include quotes

theorem numbered_apart (numbered : isNumbered c = true) : c ≠ quote ∧ c ≠ '\\' := by
  constructor
  · rintro rfl
    rcases quotes with rfl | rfl <;> cases numbered
  · rintro rfl
    cases numbered

variable {rest s : List Char}

theorem bytes_numbered (numbered : isNumbered c = true) :
    bytesFrom quote (escapeChar quote c ++ rest) .plain = bytesFrom quote rest (.hex (some c.toNat)) := by
  have short : c.toNat % 16 ^ 2 = c.toNat := Nat.mod_eq_of_lt (by have := numbered_ascii numbered; omega)
  have slash : ¬ '\\' = quote := by rcases quotes with rfl | rfl <;> decide
  have digits := bytes_hex quote rest 1 c.toNat none
  rw [Option.getD_none, Nat.zero_mul, Nat.zero_add, short] at digits
  rw [escape_numbered quote c numbered (numbered_apart quote quotes numbered), ← digits]
  simp [bytesFrom, Position.step, Position.outside, slash]

theorem bytes_char (other : isNumbered c = false) :
    bytesFrom quote (escapeChar quote c ++ rest) .plain =
      (bytesFrom quote rest .plain).map (String.utf8EncodeChar c ++ ·) := by
  have slash : ¬ '\\' = quote := by rcases quotes with rfl | rfl <;> decide
  have simple : ∀ d, d ≠ 'x' → d ≠ 'u' → d ≠ 'U' → simpleEscape? d = some c →
      bytesFrom quote ('\\' :: d :: rest) .plain = (bytesFrom quote rest .plain).map
        (String.utf8EncodeChar c ++ ·) := by
    intro d notX notU notLong means
    simp [bytesFrom, Position.step, Position.outside, slash, notX, notU, notLong, means]
  have coded : ∀ d width, (d = 'u' ∧ width = 3 ∨ d = 'U' ∧ width = 7) → c.toNat < 16 ^ (width + 1) →
      bytesFrom quote ('\\' :: d :: hex (width + 1) c.toNat ++ rest) .plain =
        (bytesFrom quote rest .plain).map (String.utf8EncodeChar c ++ ·) := by
    intro d width form fits
    rw [← bytes_code_point quote rest fits]
    rcases form with ⟨rfl, rfl⟩ | ⟨rfl, rfl⟩ <;> simp [bytesFrom, Position.step, Position.outside, slash]
  unfold escapeChar
  by_cases special : c = quote ∨ c = '\\'
  · rw [if_pos special]
    refine simple c ?_ ?_ ?_ ?_
    all_goals
      rcases special with rfl | rfl
      · rcases quotes with rfl | rfl <;> decide
      · decide
  · rw [if_neg special]
    by_cases printable : isPrintable c = true
    · have line : c ≠ '\n' := by
        rintro rfl
        rw [ascii_printable '\n' (by decide)] at printable
        cases printable
      rw [not_or] at special
      simp [printable, bytesFrom, Position.step, Position.outside, special.1, special.2, line]
    · rw [if_neg printable]
      cases letter : escapeLetter? c with
      | some d =>
        have known : d ≠ 'x' ∧ d ≠ 'u' ∧ d ≠ 'U' ∧ simpleEscape? d = some c := by
          unfold escapeLetter? at letter
          split at letter <;> cases letter <;> decide
        exact simple d known.1 known.2.1 known.2.2.1 known.2.2.2
      | none =>
        dsimp only
        have high : ¬ c.toNat < 0x80 := by
          intro ascii
          rw [ascii_printable c ascii] at printable
          simp [isNumbered, letter] at other printable
          omega
        have most : c.toNat < 16 ^ 8 := by
          rcases c.valid with low | ⟨-, high⟩ <;> simp only [Char.toNat] at * <;> omega
        rw [if_neg high]
        split_ifs with short
        · exact coded 'u' 3 (.inl ⟨rfl, rfl⟩) (by omega)
        · exact coded 'U' 7 (.inr ⟨rfl, rfl⟩) most

theorem escape_digit (c : Char) (v : Nat) (digit : hexValue? c = some v) :
    escapeChar quote c = [c] ∧ (String.utf8EncodeChar c).length = 1 := by
  have range : 0x30 ≤ c.toNat ∧ c.toNat ≤ 0x39 ∨ 0x61 ≤ c.toNat ∧ c.toNat ≤ 0x66 ∨ 0x41 ≤ c.toNat ∧ c.toNat ≤ 0x46 := by
    unfold hexValue? at digit
    split_ifs at digit with decimal lower upper
    · exact .inl decimal
    · exact .inr (.inl lower)
    · exact .inr (.inr upper)
  have ascii : c.toNat < 0x80 := by omega
  have plain : c ≠ quote ∧ c ≠ '\\' := by
    constructor
    · rintro rfl
      rcases quotes with rfl | rfl <;> cases digit
    · rintro rfl
      cases digit
  have printable : isPrintable c = true := by
    rw [ascii_printable c ascii]
    simp
    omega
  exact ⟨by simp [escapeChar, plain, printable], by rw [ascii_bytes ascii, length_singleton]⟩

-- A number ends before a character that is no digit, and before the closing quote.
theorem bytes_number_ends (v : Nat) (ends : ∀ c ∈ s.head?, hexValue? c = none) :
    bytesFrom quote (escape quote s ++ [quote]) (.hex (some v)) =
      if v < 256 then (bytesFrom quote (escape quote s ++ [quote]) .plain).map (UInt8.ofNat v :: ·) else none := by
  have other : ∀ d rest, hexValue? d = none → bytesFrom quote (d :: rest) (.hex (some v)) =
      if v < 256 then (bytesFrom quote (d :: rest) .plain).map (UInt8.ofNat v :: ·) else none := by
    intro d rest none
    simp [bytesFrom, Position.step, none]
  cases s with
  | nil =>
    refine other quote [] ?_
    rcases quotes with rfl | rfl <;> decide
  | cons c s =>
    obtain ⟨d, more, shape, begins⟩ := escape_begins quote c
    have none : hexValue? d = none := by
      rcases begins with rfl | rfl
      · decide
      · exact ends d rfl
    rw [escape, flatMap_cons, shape]
    exact other d _ none

theorem bytes_apart (s : List Char) (apart : s.IsChain Apart) :
    bytesFrom quote (escape quote s ++ [quote]) .plain = some (s.flatMap String.utf8EncodeChar) := by
  induction s with
  | nil => simp [escape, bytesFrom, Position.step, Position.outside]
  | cons c s hyp =>
    have later := hyp apart.tail
    rw [escape, flatMap_cons, append_assoc]
    cases numbered : isNumbered c with
    | false =>
      rw [bytes_char quote quotes numbered]
      simpa [escape] using congrArg (Option.map (String.utf8EncodeChar c ++ ·)) later
    | true =>
      have ends : ∀ d ∈ s.head?, hexValue? d = none := by
        intro d first
        have next := (isChain_cons.mp apart).1 d first
        simpa [Apart, numbered] using next
      have ascii := numbered_ascii numbered
      have ended := bytes_number_ends quote quotes c.toNat ends
      rw [if_pos (by omega), later] at ended
      rw [bytes_numbered quote quotes numbered, flatMap_cons, ascii_bytes ascii]
      exact ended

theorem bounded_ended (most v : Nat) (ends : ∀ c ∈ s.head?, hexValue? c = none)
    (plain : Bounded quote s .plain most (s.IsChain Apart)) :
    Bounded quote s (.hex (some v)) (most + 1) (s.IsChain Apart ∧ ∀ c ∈ s.head?, hexValue? c = none) := by
  intro bytes read
  rw [bytes_number_ends quote quotes v ends] at read
  split_ifs at read
  obtain ⟨later, behind, rfl⟩ := Option.map_eq_some_iff.mp read
  obtain ⟨fewer, equal⟩ := plain later behind
  exact ⟨Nat.succ_le_succ fewer, fun same => ⟨equal (Nat.succ.inj same), ends⟩⟩

theorem bytes_bounded (s : List Char) :
    Bounded quote s .plain (s.flatMap String.utf8EncodeChar).length (s.IsChain Apart) ∧
      ∀ v, Bounded quote s (.hex (some v)) ((s.flatMap String.utf8EncodeChar).length + 1)
        (s.IsChain Apart ∧ ∀ c ∈ s.head?, hexValue? c = none) := by
  induction s with
  | nil =>
    have plain : Bounded quote [] .plain 0 (([] : List Char).IsChain Apart) := by
      intro bytes read
      rw [bytes_apart quote quotes [] .nil] at read
      cases read
      exact ⟨le_rfl, fun _ => .nil⟩
    exact ⟨plain, fun v => bounded_ended quote quotes 0 v (by simp) plain⟩
  | cons c s hyp =>
    obtain ⟨plain, number⟩ := hyp
    have parts : escape quote (c :: s) ++ [quote] = escapeChar quote c ++ (escape quote s ++ [quote]) := by
      simp [escape]
    rw [flatMap_cons, length_append]
    have whole : Bounded quote (c :: s) .plain
        ((String.utf8EncodeChar c).length + (s.flatMap String.utf8EncodeChar).length) ((c :: s).IsChain Apart) := by
      intro bytes read
      rw [parts] at read
      cases numbered : isNumbered c with
      | false =>
        rw [bytes_char quote quotes numbered] at read
        obtain ⟨later, behind, rfl⟩ := Option.map_eq_some_iff.mp read
        obtain ⟨fewer, equal⟩ := plain later behind
        rw [length_append]
        refine ⟨by omega, fun same => isChain_cons.mpr ⟨fun d _ => ?_, equal (by omega)⟩⟩
        simp [Apart, numbered]
      | true =>
        rw [bytes_numbered quote quotes numbered] at read
        obtain ⟨fewer, equal⟩ := number _ _ read
        rw [ascii_bytes (numbered_ascii numbered), length_singleton]
        refine ⟨by omega, fun same => ?_⟩
        obtain ⟨chain, ends⟩ := equal (by omega)
        exact isChain_cons.mpr ⟨fun d first => by simp [Apart, ends d first], chain⟩
    refine ⟨whole, fun v => ?_⟩
    cases digit : hexValue? c with
    | none => exact bounded_ended quote quotes _ v (by simp [digit]) whole
    | some d =>
      intro bytes read
      obtain ⟨own, single⟩ := escape_digit quote quotes c d digit
      rw [parts, own] at read
      have inner : bytesFrom quote (escape quote s ++ [quote]) (.hex (some (v * 16 + d))) = some bytes := by
        simpa [bytesFrom, Position.step, digit] using read
      obtain ⟨fewer, -⟩ := number _ _ inner
      rw [single]
      exact ⟨by omega, fun same => by omega⟩

theorem quoted_bytes (s : List Char) :
    bytesFrom quote (escape quote s ++ [quote]) .plain = some (s.flatMap String.utf8EncodeChar) ↔ s.IsChain Apart :=
  ⟨fun read => ((bytes_bounded quote quotes s).1 _ read).2 rfl, bytes_apart quote quotes s⟩

end

theorem literal_bytes (quote : Char) (quotes : quote = '"' ∨ quote = '\'') (t : String) :
    literalBytes? (String.ofList (quote :: escape quote t.toList ++ [quote])) = some t.toUTF8.data.toList ↔
      t.toList.IsChain Apart := by
  have encoded : t.toUTF8.data.toList = t.toList.flatMap String.utf8EncodeChar := by
    obtain ⟨l, rfl⟩ : ∃ l, t = String.ofList l := ⟨t.toList, String.ofList_toList.symm⟩
    rw [String.toUTF8, String.toByteArray_ofList, String.toList_ofList, List.utf8Encode, data_toByteArray]
  rw [encoded, ← quoted_bytes quote quotes]
  simp [literalBytes?, quotes]

end Cpp

-- The code of a text is a single literal, which is never put into parentheses. Read by the rules of C++ it has the
-- bytes of the text exactly if no hexadecimal digit follows a control character that is written by its number: such a
-- number goes on with the digit.
theorem text_literal_read_back (s : Setting) (absent : ProgramFault) (b : Block) (first second : Term) (t : String)
    (kind : b.kind = .literal) (payload : b.payload = .text t) :
    ∃ f, s.compile absent (.node b first second) = .ok f ∧ (∀ outer onRight, f.within outer onRight = f.code) ∧
      (Cpp.literalBytes? f.code = some t.toUTF8.data.toList ↔ t.toList.IsChain Cpp.Apart) := by
  have double := Cpp.literal_bytes '"' (.inl rfl) t
  have single := Cpp.literal_bytes '\'' (.inr rfl) t
  simp only [Setting.compile, kind, Setting.literal, payload]
  split
  · rename_i c one
    split_ifs
    · rw [one] at single
      exact ⟨_, rfl, fun _ _ => rfl, by simpa [quotedChar, escape, one] using single⟩
    · exact ⟨_, rfl, fun _ _ => rfl, double⟩
  · exact ⟨_, rfl, fun _ _ => rfl, double⟩

def mixedText : String := "\x00\x07\x1bg\"\\\u00e9\u2028\n\x1b"

def mixedLiteral : Block := { (default : Block) with kind := .literal, payload := .text mixedText }

theorem mixed_text_read_back :
    ∃ f, (Setting.mk default default 0 true).compile (mixedLiteral.fault .missingPrinted)
      (.node mixedLiteral .missing .missing) = .ok f ∧ Cpp.literalBytes? f.code = some mixedText.toUTF8.data.toList ∧
        mixedText.toUTF8.data.toList =
          [0x00, 0x07, 0x1b, 0x67, 0x22, 0x5c, 0xc3, 0xa9, 0xe2, 0x80, 0xa8, 0x0a, 0x1b] := by
  have apart : mixedText.toList.IsChain Cpp.Apart := by decide
  obtain ⟨f, compiled, -, reads⟩ := text_literal_read_back (Setting.mk default default 0 true)
    (mixedLiteral.fault .missingPrinted) mixedLiteral .missing .missing mixedText rfl rfl
  exact ⟨f, compiled, reads.mpr apart, by decide⟩

-- The digit behind a control character is taken for a part of its number, and two characters are read as one.
theorem digit_joins_number : ∃ g b, Document.load "main:\n- print: \"\\x01f\"\n" = .ok g ∧ b ∈ g.blocks.toList ∧
    b.kind = .literal ∧
    b.payload = .text "\x01f" ∧ Setting.literal b = .ok { code := "\"\\x01f\"", type := some .string } ∧
      Cpp.literalBytes? "\"\\x01f\"" = some [0x1f] ∧ "\x01f".toUTF8.data.toList = [0x01, 0x66] := by
  have shown : (Document.load "main:\n- print: \"\\x01f\"\n").toOption.map (fun g =>
      decide (∃ b ∈ g.blocks.toList, b.kind = .literal ∧ b.payload = .text "\x01f")) = some true := by decide +kernel
  obtain ⟨g, loaded, shown⟩ := Option.map_eq_some_iff.mp shown
  obtain ⟨b, member, kind, payload⟩ := of_decide_eq_true shown
  have digit : escapeChar '"' 'f' = ['f'] := (Cpp.escape_digit '"' (.inl rfl) 'f' 15 rfl).1
  have number : escapeChar '"' '\x01' = ['\\', 'x', '0', '1'] := Cpp.escape_numbered '"' '\x01' rfl (by decide)
  have chars : "\x01f".toList = ['\x01', 'f'] := by decide
  have code : quoted "\x01f" = "\"\\x01f\"" := by
    rw [quoted, chars, escape, flatMap_cons, flatMap_singleton, number, digit]
    decide
  refine ⟨g, b, result_ok loaded, member, kind, payload, ?_, by decide, by decide⟩
  simp [Setting.literal, payload, chars, code]

end Blockwork
