import Blockwork.Markup.ScalarText
import Blockwork.Text.Quoted
import Mathlib.Tactic

set_option autoImplicit false

namespace Blockwork.Markup

open List Text

variable {c : Char} {cs rest : List Char} {at_ : Cursor}

namespace Cursor

@[simp] theorem rest_skip (n : Nat) : (at_.skip n).rest = at_.rest.drop n := rfl

@[simp] theorem skip_zero : at_.skip 0 = at_ := by simp [skip]

@[simp] theorem skip_skip (m n : Nat) : (at_.skip m).skip n = at_.skip (m + n) := by
  simp [skip, Nat.add_assoc]

@[simp] theorem column_skip (n : Nat) : (at_.skip n).column = at_.column + n := rfl

theorem skip_past (here : at_.rest = cs ++ rest) : (at_.skip cs.length).rest = rest := by
  rw [rest_skip, here, drop_left]

theorem no_mark (right : 0 < at_.column) : at_.atDocumentMark = false := by
  simp [atDocumentMark, Nat.pos_iff_ne_zero.mp right]

end Cursor

theorem printable_plain (printable : isPrintable c = true) : isAllowed c = true ∧ isBreak c = false ∧ c ≠ '\t' := by
  have ranges : ∀ r ∈ printableRanges.toList, 0x20 ≤ r.1 ∧ r.2 ≤ 0x7e ∨ 0xa1 ≤ r.1 ∧ r.2 ≤ 0x2027 ∨
      0x2030 ≤ r.1 ∧ r.2 ≤ 0xd7ff ∨ 0xe000 ≤ r.1 ∧ r.2 ≤ 0xfffd ∨ 0x10000 ≤ r.1 := by decide +kernel
  rw [isPrintable, ← Array.any_toList, any_eq_true] at printable
  obtain ⟨r, member, inside⟩ := printable
  rw [Bool.and_eq_true, decide_eq_true_eq, decide_eq_true_eq] at inside
  have bounds := ranges r member
  refine ⟨?_, ?_, ?_⟩
  · simp only [isAllowed, Bool.or_eq_true, Bool.and_eq_true, decide_eq_true_eq]
    omega
  · have breaks : c ≠ '\n' ∧ c ≠ '\r' := by
      refine ⟨?_, ?_⟩ <;> rintro rfl <;> simp at inside <;> omega
    simp only [isBreak, breaks.1, breaks.2, decide_false, Bool.false_or, Bool.or_eq_false_iff, decide_eq_false_iff_not]
    omega
  · rintro rfl
    simp at inside
    omega

theorem space_printable : isPrintable ' ' = true := by decide +kernel

theorem hex_read (width n : Nat) : (hex width n).length = width ∧
    hexValue? (hex width n) = some (n % 16 ^ width) ∧ (hex width n).all isAllowed = true := by
  have digits : ∀ d < 16, hexDigit? (hexDigit d) = some d ∧ isAllowed (hexDigit d) = true := by decide
  induction width generalizing n with
  | zero => exact ⟨rfl, by simp [hexValue?, hex, Nat.mod_one], rfl⟩
  | succ width hyp =>
    obtain ⟨long, value, allowed⟩ := hyp (n / 16)
    obtain ⟨digit, own⟩ := digits (n % 16) (Nat.mod_lt n (by decide))
    refine ⟨by simp [hex, long], ?_, by simp [hex, allowed, own]⟩
    rw [hex, hexValue?, foldl_append, ← hexValue?, value]
    simp [digit, pow_succ', Nat.mod_mul, Nat.add_comm]

-- A character that is written by its number is read by it.
theorem numbered_read {letter : Char} {width : Nat} (other : simpleEscape? letter = none)
    (digits : escapeDigits? letter = some width) (fits : c.toNat < 16 ^ width) :
    readEscape (letter :: hex width c.toNat ++ rest) = .ok (c, width + 1) := by
  obtain ⟨long, value, -⟩ := hex_read width c.toNat
  rw [Nat.mod_eq_of_lt fits] at value
  have taken : (hex width c.toNat ++ rest).take width = hex width c.toNat := take_left' long
  have valid : ¬ ((0xd800 ≤ c.toNat && c.toNat ≤ 0xdfff) || 0x10ffff < c.toNat) = true := by
    have scalar := c.valid
    simp [UInt32.isValidChar, Nat.isValidChar] at scalar ⊢
    omega
  simp only [cons_append, readEscape, other, digits, taken, long, lt_irrefl, if_false, value, if_neg valid,
    Char.ofNat_toNat, Nat.add_comm]

-- A character is written as itself, or as an escape that is read back.
theorem escape_read (c : Char) : (escapeChar '"' c).all isAllowed = true ∧
    (escapeChar '"' c = [c] ∧ isBreak c = false ∧ c ≠ '\t' ∧ c ≠ '"' ∧ c ≠ '\\' ∨
      ∃ tail, escapeChar '"' c = '\\' :: tail ∧ tail.head?.any isBreak = false ∧
        ∀ rest, readEscape (tail ++ rest) = .ok (c, tail.length)) := by
  by_cases special : c = '"' ∨ c = '\\'
  · rcases special with rfl | rfl <;> exact ⟨by decide, .inr ⟨_, rfl, by decide, fun _ => rfl⟩⟩
  · obtain ⟨quote, slash⟩ := not_or.mp special
    rw [escapeChar, if_neg special]
    by_cases printable : isPrintable c = true
    · obtain ⟨allowed, solid, tab⟩ := printable_plain printable
      rw [if_pos printable]
      exact ⟨by simpa using allowed, .inl ⟨rfl, solid, tab, quote, slash⟩⟩
    · rw [if_neg printable]
      cases letter : escapeLetter? c with
      | some l =>
        unfold escapeLetter? at letter
        split at letter <;> cases letter <;> exact ⟨by decide, .inr ⟨_, rfl, by decide, fun _ => rfl⟩⟩
      | none =>
        have small : c.toNat < 2 ^ 32 := c.val.toNat_lt
        have allowed (width : Nat) := (hex_read width c.toNat).2.2
        have long (width : Nat) := (hex_read width c.toNat).1
        dsimp only
        split_ifs
        all_goals
          refine ⟨by rw [all_cons, all_cons, allowed]; rfl, .inr ⟨_, rfl, rfl, fun _ => ?_⟩⟩
          rw [numbered_read rfl rfl (by omega), length_cons, long]

theorem escape_cons : escape '"' (c :: cs) = escapeChar '"' c ++ escape '"' cs := flatMap_cons

theorem quoted_run (text : List Char) (fuel : Nat) (solid : ' ' ∉ cs) (enough : cs.length < fuel)
    (here : at_.rest = escape '"' cs ++ rest) (ends : rest.head? = some '"' ∨ rest.head? = some ' ') :
    quotedRun '"' fuel at_ text = .ok (text ++ cs, at_.skip (escape '"' cs).length, false) := by
  induction cs generalizing at_ text fuel with
  | nil =>
    obtain ⟨fuel, rfl⟩ := Nat.exists_eq_add_one.mpr enough
    rw [escape, flatMap_nil, nil_append] at here
    cases rest with
    | nil => simp at ends
    | cons d more =>
      simp only [quotedRun, here]
      rcases ends with same | same <;> cases same <;> simp [isBlank, isBreak, escape]
  | cons c cs hyp =>
    obtain ⟨fuel, rfl⟩ := Nat.exists_eq_add_one.mpr (Nat.zero_lt_of_lt enough)
    rw [mem_cons, not_or] at solid
    rw [escape_cons, append_assoc] at here
    have next := hyp (text ++ [c]) fuel solid.2 (by simpa using enough) (Cursor.skip_past here)
    rw [Cursor.skip_skip, append_assoc, singleton_append, ← length_append, ← escape_cons] at next
    rw [← next]
    rcases (escape_read c).2 with ⟨own, whole, tab, quote, slash⟩ | ⟨tail, own, whole, read⟩
    · rw [own, singleton_append] at here
      simp [quotedRun, here, own, isBlank, whole, tab, quote, slash, Ne.symm solid.1]
    · rw [own, cons_append] at here
      have first : (tail ++ (escape '"' cs ++ rest)).head?.any isBreak = false := by
        cases tail with
        | nil =>
          have short := read []
          simp [readEscape] at short
        | cons d more => exact whole
      simp [quotedRun, here, own, first, read, isBlank, isBreak, Nat.add_comm, -head?_append]

theorem read_gap_spaces (limit : Int) (n : Nat) (here : at_.rest = List.replicate n ' ' ++ rest)
    (solid : ∀ c ∈ rest.head?, isBlank c = false ∧ isBreak c = false) :
    readGap limit at_ {} = .ok ({ blanks := List.replicate n ' ' }, at_.skip n) := by
  have run : ∀ (n fuel : Nat) (at_ : Cursor) (seen : List Char), n ≤ fuel → at_.rest = List.replicate n ' ' ++ rest →
      at_.rest.length ≤ fuel → readGapFrom limit fuel at_ { blanks := seen } =
        .ok ({ blanks := seen ++ List.replicate n ' ' }, at_.skip n) := by
    intro n
    induction n with
    | zero =>
      intro fuel at_ seen _ here long
      rw [replicate_zero, nil_append] at here
      cases fuel with
      | zero => simp [readGapFrom]
      | succ fuel =>
        cases rest with
        | nil => simp [readGapFrom, Cursor.head, here]
        | cons d more => simp [readGapFrom, Cursor.head, here, solid d rfl]
    | succ n hyp =>
      intro fuel at_ seen enough here long
      obtain ⟨fuel, rfl⟩ := Nat.exists_eq_add_one.mpr (Nat.zero_lt_of_lt enough)
      rw [replicate_succ, cons_append] at here
      have next := hyp fuel (at_.skip 1) (seen ++ [' ']) (by omega) (by simp [here]) (by simpa [here] using long)
      rw [Cursor.skip_skip, Nat.add_comm 1 n] at next
      simp [readGapFrom, Cursor.head, here, isBlank, next, replicate_succ]
  have whole := run n at_.rest.length at_ [] (by simp [here]) here le_rfl
  exact whole

theorem escape_append (xs ys : List Char) : escape '"' (xs ++ ys) = escape '"' xs ++ escape '"' ys :=
  flatMap_append

theorem escape_spaces (n : Nat) : escape '"' (List.replicate n ' ') = List.replicate n ' ' := by
  have own : escapeChar '"' ' ' = [' '] := by rw [escapeChar, if_neg (by decide), if_pos space_printable]
  induction n with
  | zero => rfl
  | succ n hyp => rw [replicate_succ, escape_cons, own, hyp, singleton_append]

theorem escape_starts (solid : cs.head? ≠ some ' ') :
    ∀ d ∈ (escape '"' cs ++ '"' :: rest).head?, isBlank d = false ∧ isBreak d = false := by
  cases cs with
  | nil => simp [escape, isBlank, isBreak]
  | cons c cs =>
    rw [escape_cons]
    rcases (escape_read c).2 with ⟨own, whole, tab, -, -⟩ | ⟨tail, own, -, -⟩
    · rw [own]
      simpa [isBlank, whole, tab] using solid
    · rw [own]
      simp [isBlank, isBreak]

theorem spaces_split (cs : List Char) : ∃ n more, cs = List.replicate n ' ' ++ more ∧ more.head? ≠ some ' ' := by
  induction cs with
  | nil => exact ⟨0, [], rfl, by simp⟩
  | cons c cs hyp =>
    by_cases space : c = ' '
    · obtain ⟨n, more, rfl, solid⟩ := hyp
      exact ⟨n + 1, more, by rw [space, replicate_succ, cons_append], solid⟩
    · exact ⟨0, c :: cs, rfl, by simpa using space⟩

theorem escape_length (cs : List Char) : cs.length ≤ (escape '"' cs).length := by
  induction cs with
  | nil => exact le_rfl
  | cons c cs hyp =>
    have one : 0 < (escapeChar '"' c).length := by
      rcases (escape_read c).2 with ⟨own, -⟩ | ⟨tail, own, -⟩ <;> simp [own]
    simp only [escape_cons, length_append, length_cons]
    omega

-- Text between quotes is read by turns: a run without spaces, and the spaces behind it.
theorem read_quoted_from (text : List Char) (fuel : Nat) (enough : cs.length < fuel) (right : 0 < at_.column)
    (here : at_.rest = escape '"' cs ++ '"' :: rest) : readQuotedFrom '"' fuel at_ text =
      .ok ⟨text ++ cs, (at_.skip ((escape '"' cs).length + 1)).place,
        at_.skip ((escape '"' cs).length + 1), false⟩ := by
  induction fuel generalizing cs at_ text with
  | zero => cases enough
  | succ fuel hyp =>
    have filled : at_.rest.isEmpty = false := by simp [here]
    by_cases space : ' ' ∈ cs
    · obtain ⟨run, behind, rfl, solid⟩ := eq_append_cons_of_mem space
      obtain ⟨n, more, rfl, stops⟩ := spaces_split behind
      have spaces : ' ' :: (List.replicate n ' ' ++ more) = List.replicate (n + 1) ' ' ++ more := rfl
      rw [spaces] at enough here ⊢
      rw [escape_append, escape_append, escape_spaces, append_assoc, append_assoc] at here
      have fits := escape_length run
      have first := quoted_run [] at_.rest.length solid (by simp [here]; omega) here (.inr rfl)
      have left := Cursor.skip_past here
      have held : (at_.skip (escape '"' run).length).head ≠ some '"' := by
        rw [Cursor.head, left]
        simp [replicate_succ]
      have gap := read_gap_spaces (-1) (n + 1) left (escape_starts stops)
      have later := hyp (text ++ run ++ List.replicate (n + 1) ' ') (by simp at enough; omega)
        (by simp) (Cursor.skip_past left)
      rw [length_replicate] at later
      simp only [readQuotedFrom, Cursor.no_mark right, filled, first, held, gap, Gap.folded]
      simpa [escape_append, escape_spaces, Nat.add_assoc] using later
    · have fits := escape_length cs
      have first := quoted_run [] at_.rest.length space (by simp [here]; omega) here (.inl rfl)
      have held : (at_.skip (escape '"' cs).length).head = some '"' := by rw [Cursor.head, Cursor.skip_past here]; rfl
      simp [readQuotedFrom, Cursor.no_mark right, filled, first, held]

theorem read_quoted (here : at_.rest = '"' :: (escape '"' cs ++ '"' :: rest)) :
    ∃ stop, readQuoted '"' at_ = .ok ⟨cs, stop, at_.skip ((escape '"' cs).length + 2), false⟩ := by
  have fits := escape_length cs
  have inside : (at_.skip 1).rest = escape '"' cs ++ '"' :: rest := by simp [here]
  have read := read_quoted_from [] (at_.rest.length + 1) (by simp [here]; omega) (by simp) inside
  rw [nil_append, Cursor.skip_skip, Nat.add_comm 1] at read
  exact ⟨_, read⟩

end Blockwork.Markup
