import Blockwork.Document.Outline
import Blockwork.Proofs.Decimals
import Blockwork.Proofs.Shortest

set_option autoImplicit false

namespace Blockwork

open List Markup Nat Number Precision

variable {v : Number} {n : ℕ}

namespace Markup

variable {c : Char} {ds cs : List Char} {negative : Bool}

theorem digit_bounds (digit : c.isDigit = true) : 48 ≤ c.toNat ∧ c.toNat ≤ 57 := by
  simp only [Char.isDigit, ge_iff_le, Bool.and_eq_true, decide_eq_true_eq, UInt32.le_iff_toNat_le] at digit
  exact digit

theorem digit_of_digit (digit : c.isDigit = true) : digitOf? 10 c = some (c.toNat - '0'.toNat) := by
  have bounds := digit_bounds digit
  have zero : '0' ≤ c := by
    rw [Char.le_def, UInt32.le_iff_toNat_le]
    exact bounds.1
  have nine : c ≤ '9' := by
    rw [Char.le_def, UInt32.le_iff_toNat_le]
    exact bounds.2
  have small : c.toNat - 48 < 10 := by omega
  simp [digitOf?, zero, nine, small]

theorem natural_digits (digits : ∀ c ∈ ds, c.isDigit = true) : naturalIn? 10 ds = some (decimalValue ds) := by
  have each : ∀ n : ℕ, ds.foldl (fun acc c => acc.bind fun n => (digitOf? 10 c).map (10 * n + ·)) (some n) =
      some (ds.foldl (fun n d => 10 * n + (d.toNat - '0'.toNat)) n) := by
    induction ds with
    | nil => exact fun _ => rfl
    | cons c rest hyp =>
      intro n
      rw [foldl_cons, foldl_cons, Option.bind_some, digit_of_digit (digits c mem_cons_self)]
      exact hyp (fun d mem => digits d (mem_cons_of_mem c mem)) _
  exact each 0

theorem natural_other {base : ℕ} (mem : c ∈ ds) (other : digitOf? base c = none) : naturalIn? base ds = none := by
  have stuck : ∀ ds : List Char, ds.foldl (fun acc c => acc.bind fun n => (digitOf? base c).map (base * n + ·))
      none = none := by
    intro ds
    induction ds with
    | nil => rfl
    | cons d rest hyp => exact hyp
  obtain ⟨before, after, rfl⟩ := append_of_mem mem
  unfold naturalIn?
  rw [foldl_append, foldl_cons, other]
  cases (before.foldl (fun acc c => acc.bind fun n => (digitOf? base c).map (base * n + ·)) (some 0)) <;>
    exact stuck after

theorem leading_digit (n : ℕ) (positive : 0 < n) :
    ∃ c cs, Nat.toDigits 10 n = c :: cs ∧ c.isDigit = true ∧ c ≠ '0' := by
  induction n using Nat.strongRecOn with
  | _ n hyp =>
    by_cases single : n < 10
    · rw [toDigits_of_lt_base single]
      refine ⟨n.digitChar, [], rfl, ?_⟩
      interval_cases n <;> decide
    · obtain ⟨c, cs, split, digit, nonzero⟩ := hyp (n / 10) (by omega) (by omega)
      rw [toDigits_of_base_le (by omega) (by omega), split]
      exact ⟨c, _, rfl, digit, nonzero⟩

theorem unsigned_digits (n : ℕ) : unsigned? (Nat.toDigits 10 n) = some n := by
  have all : naturalIn? 10 (Nat.toDigits 10 n) = some n := by
    rw [natural_digits fun c mem => isDigit_of_mem_toDigits (by omega) (by omega) mem]
    exact congrArg some ofDigitChars_ten_toDigits
  by_cases zero : n = 0
  · rw [zero]
    rfl
  · obtain ⟨c, cs, split, -, nonzero⟩ := leading_digit n (by omega)
    rw [split] at all ⊢
    unfold unsigned?
    split
    all_goals first | exact all | simp_all

theorem unsigned_point (cs : List Char) (point : '.' ∈ cs) : unsigned? cs = none := by
  have none : ∀ base, digitOf? base '.' = none := fun _ => rfl
  unfold unsigned?
  split
  · cases point
  · simp at point
  all_goals exact natural_other (by simpa using point) (none _)

def sign (negative : Bool) : List Char := if negative then ['-'] else []

theorem split_sign (negative : Bool) (cs : List Char) (digit : c.isDigit = true) :
    splitSign (sign negative ++ c :: cs) = (negative, c :: cs) := by
  cases negative with
  | true => rfl
  | false =>
    unfold splitSign
    split
    all_goals simp_all [sign]

theorem take_digits (rest : List Char) (digits : ∀ c ∈ ds, c.isDigit = true)
    (stop : ∀ c ∈ rest.head?, c.isDigit = false) : (ds ++ rest).takeWhile Char.isDigit = ds := by
  rw [takeWhile_append_of_pos digits]
  cases rest with
  | nil => simp
  | cons c cs =>
    have other : c.isDigit = false := stop c rfl
    simp [other]

theorem decimal_whole (negative : Bool) {w : List Char} (digits : ∀ c ∈ w, c.isDigit = true) (some_ : w ≠ []) :
    decimalText? (sign negative ++ w) = some ⟨negative, w, [], 0⟩ := by
  obtain ⟨c, cs, rfl⟩ := exists_cons_of_ne_nil some_
  unfold decimalText?
  rw [split_sign negative cs (digits c mem_cons_self)]
  dsimp only
  have whole := take_digits [] digits (by simp)
  rw [append_nil] at whole
  rw [whole]
  simp [exponentText?]

theorem decimal_point (negative : Bool) (w f : List Char) (digits : ∀ c ∈ w, c.isDigit = true) (some_ : w ≠ [])
    (digits' : ∀ c ∈ f, c.isDigit = true) : decimalText? (sign negative ++ (w ++ '.' :: f)) = some
    ⟨negative, w, f, 0⟩ := by
  obtain ⟨c, cs, rfl⟩ := exists_cons_of_ne_nil some_
  unfold decimalText?
  rw [cons_append, split_sign negative (cs ++ '.' :: f) (digits c mem_cons_self), ← cons_append]
  dsimp only
  rw [take_digits ('.' :: f) digits (by simp), drop_left]
  have whole := take_digits [] digits' (by simp)
  rw [append_nil] at whole
  simp [whole, exponentText?]

theorem decimal_number (w f : List Char) (x q : ℚ) (value : x = decimalValue (w ++ f) / 10 ^ f.length)
    (least : (10 : ℚ) ^ (-330 : ℤ) ≤ x) (most : x < 10 ^ 310) (rounds : ofRat x = .finite q) :
    (DecimalText.mk negative w f 0).number? = some (if negative then (finite q).neg else .finite q) := by
  have power : (0 : ℚ) < 10 ^ f.length := by positivity
  have xPos : 0 < x := lt_of_lt_of_le (by positivity) least
  generalize total : decimalValue (w ++ f) = n at value
  have product : x * 10 ^ f.length = n := by
    rw [value, div_mul_cancel₀ _ power.ne']
  have nonzero : n ≠ 0 := by
    rintro rfl
    rw [cast_zero] at product
    exact (mul_pos xPos power).ne' product
  have few : n.repr.length ≤ f.length + 310 := by
    rw [← String.length_toList, toList_repr, length_toDigits_le_iff (by omega) (by omega)]
    have : (n : ℚ) < 10 ^ (f.length + 310) := by
      rw [← product, pow_add, mul_comm]
      exact mul_lt_mul_of_pos_left most power
    exact_mod_cast this
  have many : f.length < n.repr.length + 330 := by
    by_contra short
    have bound : n.repr.length ≤ f.length - 330 := by omega
    have some : 0 < n.repr.length := by
      rw [← String.length_toList, toList_repr]
      exact length_toDigits_pos
    rw [← String.length_toList, toList_repr, length_toDigits_le_iff (by omega) (by omega)] at bound
    have small : (n : ℚ) < 10 ^ (f.length - 330) := by exact_mod_cast bound
    have large : (10 : ℚ) ^ (f.length - 330) ≤ n := by
      rw [← product]
      calc (10 : ℚ) ^ (f.length - 330) = 10 ^ (-330 : ℤ) * 10 ^ f.length := by
            rw [← zpow_natCast, ← zpow_natCast, ← zpow_add₀ (by norm_num)]
            congr 1
            omega
        _ ≤ x * 10 ^ f.length := mul_le_mul_of_nonneg_right least power.le
    linarith
  have same : (if (0 : ℤ) ≤ 0 - (f.length : ℤ) then ((n * Nat.pow 10 (0 - (f.length : ℤ)).toNat : ℕ) : ℚ)
      else mkRat n (Nat.pow 10 (-(0 - (f.length : ℤ))).toNat)) = x := by
    split_ifs with none
    · have empty : f.length = 0 := by omega
      rw [value, empty]
      simp
    · rw [Rat.mkRat_eq_div, value]
      simp
  unfold DecimalText.number?
  dsimp only
  rw [total, same, rounds]
  have reach : ¬ ((n.repr.length : ℤ) + (0 - (f.length : ℤ)) < -400) := by omega
  have reach' : ¬ (400 < (n.repr.length : ℤ) + (0 - (f.length : ℤ))) := by omega
  rw [if_neg (by simp only [Bool.or_eq_true, decide_eq_true_eq, not_or]; exact ⟨nonzero, reach⟩), if_neg reach']
  rfl

theorem not_timestamp (negative : Bool) (plain : ∀ c ∈ cs, c.isDigit = true ∨ c = '.') :
    isTimestamp (sign negative ++ cs) = false := by
  have none : date? (sign negative ++ cs) = none := by
    have hyphen : '-' ∉ cs := fun mem => by simpa using plain '-' mem
    have after : ∀ ds : List Char, '-' ∉ ds → after? '-' ds = none := by
      intro ds other
      cases ds with
      | nil => rfl
      | cons d rest =>
        rw [after?, if_neg]
        rintro rfl
        exact other mem_cons_self
    unfold date?
    cases negative with
    | false =>
      simp [sign, after _ fun mem => hyphen (mem_of_mem_drop mem)]
    | true => simp [sign]
  unfold isTimestamp
  rw [none]

theorem word_none {text : String} (split : text.toList = sign negative ++ c :: cs) (digit : c.isDigit = true) :
    wordValue? text = none := by
  have listed : wordValue? text = none ∨
    text ∈ ["true", "True", "TRUE", "false", "False", "FALSE", "", "~", "null", "Null", "NULL",
      ".nan", ".NaN", ".NAN", ".inf", ".Inf", ".INF", "+.inf", "+.Inf", "+.INF", "-.inf", "-.Inf", "-.INF"] := by
    unfold wordValue?
    split <;> simp
  have other : ∀ w ∈ ["true", "True", "TRUE", "false", "False", "FALSE", "", "~", "null", "Null", "NULL",
      ".nan", ".NaN", ".NAN", ".inf", ".Inf", ".INF", "+.inf", "+.Inf", "+.INF", "-.inf", "-.Inf", "-.INF"],
      (w.toList.head?.any Char.isDigit || (w.toList.head? = some '-' && (w.toList[1]?).any Char.isDigit)) =
        false := by decide
  refine listed.resolve_right fun mem => ?_
  have plain := other text mem
  rw [split] at plain
  cases negative <;> simp [sign, digit] at plain

section

variable (dates : Bool) (text : String) (negative : Bool) (c : Char) (cs : List Char)
  (written : text.toList = sign negative ++ c :: cs) (digit : c.isDigit = true)
  (plain : ∀ d ∈ cs, d.isDigit = true ∨ d = '.')

include written digit plain

theorem plain_numeric {value : ScalarValue}
    (read : (match integer? (sign negative ++ c :: cs), decimal? (sign negative ++ c :: cs) with
      | some n, _ => some (ScalarValue.integer n)
      | none, some v => some (ScalarValue.number v)
      | none, none => (innerSigned?
        (sign negative ++ c :: cs)).map ScalarValue.integer) = some value) : plainValue dates text = value := by
  have all : ∀ d ∈ c :: cs, d.isDigit = true ∨ d = '.' := by
    intro d mem
    rcases mem_cons.mp mem with rfl | mem
    · exact .inl digit
    · exact plain d mem
  have ungrouped : (sign negative ++ c :: cs).filter (· ≠ '_') = sign negative ++ c :: cs := by
    rw [filter_eq_self]
    intro d mem
    rcases mem_append.mp mem with mark | mem
    · cases negative <;> simp [sign] at mark
      rw [mark]
      rfl
    · rcases all d mem with digit | rfl
      · have := digit_bounds digit
        have : d ≠ '_' := by
          rintro rfl
          simp at this
        simpa using this
      · rfl
  have numeric : numericValue? dates (sign negative ++ c :: cs) = some value := by
    unfold numericValue?
    rw [not_timestamp negative all, Bool.and_false, if_neg (by simp), ungrouped]
    exact read
  unfold plainValue
  rw [written, word_none written digit]
  cases negative with
  | false =>
    have begins : (c.isDigit || decide (c = '+') || decide (c = '-')) = true := by simp [digit]
    simp only [sign, Bool.false_eq_true, if_false, nil_append, begins, if_true] at numeric ⊢
    rw [numeric]
    rfl
  | true =>
    change ((numericValue? dates (sign true ++ c :: cs))).getD (.text text) = value
    rw [numeric]
    rfl

theorem plain_integer {n : ℤ} (read : integer? (sign negative ++ c :: cs) = some n) :
    plainValue dates text = .integer n := plain_numeric dates text negative c cs written digit plain (by rw [read])

theorem plain_decimal (other : integer? (sign negative ++ c :: cs) = none)
    (read : decimal? (sign negative ++ c :: cs) = some v) : plainValue dates text = .number v :=
  plain_numeric dates text negative c cs written digit plain (by rw [other, read])

end

theorem integer_signed (negative : Bool) (n : ℕ) : integer? (sign negative ++ Nat.toDigits 10 n) =
    if negative then (if n ≤ 2 ^ 63 then some (-(n : ℤ)) else none) else
      (if n < 2 ^ 64 then some (n : ℤ) else none) := by
  cases negative with
  | true =>
    change (unsigned? (Nat.toDigits 10 n)).bind _ = _
    rw [unsigned_digits]
    rfl
  | false =>
    have first : ∃ c cs, Nat.toDigits 10 n = c :: cs ∧ c.isDigit = true := by
      obtain ⟨c, cs, split⟩ := exists_cons_of_ne_nil (toDigits_ne_nil (n := n) (b := 10))
      exact ⟨c, cs, split, isDigit_of_mem_toDigits (by omega) (by omega) (split ▸ mem_cons_self)⟩
    obtain ⟨c, cs, split, digit⟩ := first
    have read := unsigned_digits n
    unfold integer?
    rw [sign, if_neg (by simp), nil_append]
    rw [split] at read ⊢
    split
    · simp_all
    · simp_all
    · rw [read]
      rfl

theorem integer_point (negative : Bool) (w f : List Char) (begins : w = c :: cs) (digit : c.isDigit = true) :
    integer? (sign negative ++ (w ++ '.' :: f)) = none := by
  subst begins
  cases negative with
  | true =>
    change (unsigned? (c :: cs ++ '.' :: f)).bind _ = none
    rw [unsigned_point _ (by simp)]
    rfl
  | false =>
    have read := unsigned_point (c :: cs ++ '.' :: f) (by simp)
    unfold integer?
    rw [sign, if_neg (by simp), nil_append]
    split
    · simp_all
    · simp_all
    · rw [read]
      rfl

end Markup

theorem Number.nearest_exact (q : ℚ) (exact : IsExact q) : double.nearest q = q ∧ |q| < twoPow double.limit := by
  have rounded := rounded_exact q exact
  unfold Number.rounded clamp at rounded
  split_ifs at rounded with above below
  have nearest : double.nearest q = q := Quantity.finite.inj rounded
  rw [nearest] at above below
  exact ⟨nearest, abs_lt.mpr ⟨not_le.mp below, not_le.mp above⟩⟩

theorem Number.rounds_of_nearest (x q : ℚ) (nearest : Precision.double.nearest x = q) (nonzero : q ≠ 0)
    (exact : IsExact q) :
    ofRat x = .finite q := by
  obtain ⟨-, small⟩ := nearest_exact q exact
  obtain ⟨below, above⟩ := abs_lt.mp small
  have some : x ≠ 0 := by
    rintro rfl
    rw [Precision.nearest, if_pos rfl] at nearest
    exact nonzero nearest.symm
  have step : twoPow (Precision.double.stepExponent x) * roundHalfEven
      (x / twoPow (Precision.double.stepExponent x)) = q := by
    rw [← nearest, Precision.nearest, if_neg some]
  unfold ofRat Precision.round
  simp only [if_neg some, step, if_neg nonzero]
  rw [if_neg (not_le.mpr above), if_neg (not_le.mpr below)]

namespace Decimal

theorem shortest_inside {q : ℚ} (positive : 0 < q) (exact : Number.IsExact q) :
    (RoundingInterval.around .double q).contains (shortest .double q).value = true := by
  obtain ⟨fixed, -⟩ := nearest_exact q exact
  obtain ⟨m, -, d, -, inside, found⟩ := shortest_found (by omega) (grid_hit positive fixed)
  rw [found, strip_value]
  exact inside

theorem shortest_nearest (q : ℚ) (positive : 0 < q) (exact : Number.IsExact q) :
    double.nearest (shortest .double q).value = q :=
  contains_rounds (by decide) positive (nearest_exact q exact).1 (shortest_inside positive exact)

theorem shortest_bounds (q : ℚ) (positive : 0 < q) (exact : Number.IsExact q) :
    (10 : ℚ) ^ (-330 : ℤ) ≤ (shortest .double q).value ∧ (shortest .double q).value < 10 ^ 310 := by
  obtain ⟨fixed, small⟩ := nearest_exact q exact
  obtain ⟨m, value, mPos, -, -⟩ := mantissa_spec (by decide) positive fixed
  obtain ⟨low, high, -⟩ := around_bounds value (shortest_inside positive exact)
  generalize (shortest .double q).value = x at low high
  have one : (1 : ℚ) ≤ m := by exact_mod_cast mPos
  have stepPos := two_pow_pos (double.stepExponent q)
  have coarse : (2 : ℚ) ^ (-1074 : ℤ) ≤ twoPow (double.stepExponent q) := by
    rw [two_pow_eq]
    exact zpow_le_zpow_right₀ (by norm_num) (le_max_left _ _)
  rw [abs_of_pos positive] at small
  generalize twoPow (double.stepExponent q) = step at *
  have least : step ≤ q := by nlinarith
  constructor
  · have tiny : (10 : ℚ) ^ (-330 : ℤ) ≤ 2 ^ (-1074 : ℤ) / 2 := by
      have powers : (2 : ℕ) ^ 1075 ≤ 10 ^ 330 := by decide +kernel
      have powers : (2 : ℚ) ^ 1075 ≤ 10 ^ 330 := by exact_mod_cast powers
      have half : (2 : ℚ) ^ (-1074 : ℤ) / 2 = (2 ^ 1075)⁻¹ := by
        rw [pow_succ, mul_inv, div_eq_mul_inv, zpow_neg]
        rfl
      rw [half, zpow_neg]
      exact inv_anti₀ (by positivity) powers
    linarith
  · have huge : 2 * twoPow double.limit ≤ 10 ^ 310 := by
      have powers : (2 : ℕ) * 2 ^ 1024 ≤ 10 ^ 310 := by decide +kernel
      have powers : (2 : ℚ) * 2 ^ 1024 ≤ 10 ^ 310 := by exact_mod_cast powers
      rw [two_pow_eq, show ((double.limit : ℕ) : ℤ) = (1024 : ℕ) from rfl, zpow_natCast]
      exact powers
    exact (show x < 2 * twoPow double.limit by linarith).trans_le huge

theorem shortest_whole (positive : 0 < n) (exact : Number.IsExact n) : 0 ≤ (shortest .double n).exponent := by
  have some : (0 : ℚ) < n := by exact_mod_cast positive
  have scaled := scale_integer positive
  have found : ∃ m : ℕ, (m : ℤ) + 1 ≤ scale n ∧ ∃ d : Decimal, d.exponent = scale n - (m + 1 : ℕ) ∧
      shortest .double n = d.stripZeros := by
    by_cases few : (digitsOf n).length ≤ 17
    · obtain ⟨m, early, d, exponent, -, found⟩ := shortest_found (by omega) (integer_hit positive)
      have := integer_digits positive
      exact ⟨m, by omega, d, exponent, found⟩
    · obtain ⟨m, early, d, exponent, -, found⟩ := shortest_found (by omega)
        (grid_hit some (nearest_exact n exact).1)
      exact ⟨m, by omega, d, exponent, found⟩
  obtain ⟨m, early, d, exponent, found⟩ := found
  obtain ⟨t, shift, -⟩ := d.strip_shift
  rw [found, shift, exponent]
  omega

theorem plain_parts (d : Decimal) (fraction : d.exponent < 0) : ∃ w f : List Char, d.layPlain = w ++ '.' :: f ∧
    (∀ c ∈ w ++ f, c.isDigit = true) ∧ w ≠ [] ∧ (f.length : ℤ) = -d.exponent ∧ decimalValue (w ++ f) = d.digits := by
  have digits : ∀ c ∈ padLeft ((-d.exponent).toNat + 1) d.digitChars, c.isDigit = true := by
    intro c mem
    rw [digit_chars_repr, padLeft] at mem
    rcases mem_append.mp mem with zero | digit
    · rw [eq_of_mem_replicate zero]
      rfl
    · exact isDigit_of_mem_toDigits (by omega) (by omega) digit
  have total : decimalValue (padLeft ((-d.exponent).toNat + 1) d.digitChars) = d.digits := by
    change Nat.ofDigitChars 10 _ 0 = _
    rw [digit_chars_repr, padLeft, ofDigitChars_append, ofDigitChars_replicate_zero, mul_zero]
    exact ofDigitChars_ten_toDigits
  have long : (-d.exponent).toNat + 1 ≤ (padLeft ((-d.exponent).toNat + 1) d.digitChars).length := by
    rw [padLeft, length_append, length_replicate]
    omega
  unfold layPlain
  rw [if_neg (by omega)]
  dsimp only
  generalize padLeft ((-d.exponent).toNat + 1) d.digitChars = padded at digits total long
  refine ⟨_, _, rfl, ?_, ?_, ?_, ?_⟩
  · rw [take_append_drop]
    exact digits
  · rw [ne_eq, take_eq_nil_iff]
    rintro (none | rfl)
    · omega
    · simp at long
  · rw [length_drop]
    omega
  · rw [take_append_drop]
    exact total

end Decimal

namespace Markup

def plainScalar (text : String) : Scalar := ⟨plainTag text, text, true⟩

theorem plain_scalar (text : String) (value : ScalarValue) (read : ∀ dates, plainValue dates text = value)
    (kind : value.tag = .integer ∨ value.tag = .number) :
    (plainScalar text).tag = value.tag ∧ (plainScalar text).value? = some value := by
  have tag : plainTag text = value.tag := by
    unfold plainTag
    rw [read true, if_neg]
    rintro rfl
    rw [← read true] at kind
    revert kind
    decide
  refine ⟨tag, ?_⟩
  unfold Scalar.value? plainScalar
  dsimp only
  rw [tag]
  rcases kind with kind | kind <;> simp [kind, read]

end Markup

namespace Number

variable {q : ℚ}

theorem plain_text_chars (nonzero : q ≠ 0) :
    (finite q).plainText.toList = sign (decide (q < 0)) ++ (Decimal.shortest .double |q|).layPlain := by
  rw [plainText, write, if_neg nonzero]
  have magnitude : (if q < 0 then -q else q) = |q| := by
    split_ifs with negative
    · exact (abs_of_neg negative).symm
    · exact (abs_of_nonneg (not_lt.mp negative)).symm
  dsimp only
  rw [magnitude, String.toList_ofList]
  by_cases negative : q < 0 <;> simp [negative, sign, Decimal.lay, Layout.positional]

theorem exact_abs (q : ℚ) (exact : IsExact q) : IsExact |q| := by
  rcases abs_choice q with same | same
  · rw [same]
    exact exact
  · obtain ⟨fixed, small⟩ := nearest_exact q exact
    rw [same]
    exact exact_of_nearest (-q) (by rw [nearest_neg, fixed]) (by rwa [abs_neg])

theorem signed_abs (nonzero : q ≠ 0) :
    (if decide (q < 0) = true then (finite |q|).neg else .finite |q|) = .finite q := by
  by_cases negative : q < 0
  · simp [negative, neg, nonzero, abs_of_neg negative]
  · simp [negative, abs_of_nonneg (not_lt.mp negative)]

section

variable (q : ℚ) (nonzero : q ≠ 0) (exact : IsExact q)

include nonzero exact

theorem whole_text (whole : 0 ≤ (Decimal.shortest .double |q|).exponent) : ∃ n : ℕ,
    (finite q).plainText.toList = sign (decide (q < 0)) ++ Nat.toDigits 10 n ∧ double.nearest n = |q| ∧
      (10 : ℚ) ^ (-330 : ℤ) ≤ n ∧ (n : ℚ) < 10 ^ 310 := by
  have positive := abs_pos.mpr nonzero
  have nearest := Decimal.shortest_nearest |q| positive (exact_abs q exact)
  obtain ⟨least, most⟩ := Decimal.shortest_bounds |q| positive (exact_abs q exact)
  rw [plain_text_chars nonzero]
  generalize Decimal.shortest .double |q| = d at *
  rw [d.value_whole whole] at nearest least most
  have some : 0 < d.digits := by
    by_contra none
    rw [show d.digits = 0 by omega, zero_mul, cast_zero] at least
    exact absurd least (not_le.mpr (by positivity))
  exact ⟨_, by rw [Decimal.plain_whole some whole], nearest, least, most⟩

theorem fraction_text (fraction : (Decimal.shortest .double |q|).exponent < 0) : ∃ (w f : List Char) (x : ℚ),
    (finite q).plainText.toList = sign (decide (q < 0)) ++ (w ++ '.' :: f) ∧ (∀ c ∈ w ++ f, c.isDigit = true) ∧ w ≠ [] ∧
      x = decimalValue (w ++ f) / 10 ^ f.length ∧ double.nearest x = |q| ∧
      (10 : ℚ) ^ (-330 : ℤ) ≤ x ∧ x < 10 ^ 310 := by
  have positive := abs_pos.mpr nonzero
  have nearest := Decimal.shortest_nearest |q| positive (exact_abs q exact)
  obtain ⟨least, most⟩ := Decimal.shortest_bounds |q| positive (exact_abs q exact)
  rw [plain_text_chars nonzero]
  generalize Decimal.shortest .double |q| = d at *
  obtain ⟨w, f, written, digits, some, places, total⟩ := d.plain_parts fraction
  refine ⟨w, f, d.value, by rw [written], digits, some, ?_, nearest, least, most⟩
  rw [total, Decimal.value, Decimal.ten_pow_eq,
    show d.exponent = -(f.length : ℤ) by omega, zpow_neg, zpow_natCast, div_eq_mul_inv]

theorem digits_decimal (w f : List Char) (x : ℚ) (value : x = decimalValue (w ++ f) / 10 ^ f.length)
    (nearest : double.nearest x = |q|) (least : (10 : ℚ) ^ (-330 : ℤ) ≤ x) (most : x < 10 ^ 310) :
    (Markup.DecimalText.mk (decide (q < 0)) w f 0).number? = some (.finite q) := by
  have rounds := rounds_of_nearest x |q| nearest (abs_ne_zero.mpr nonzero) (exact_abs q exact)
  rw [decimal_number w f x |q| value least most rounds, signed_abs nonzero]

theorem whole_integer (n : ℕ) (nearest : double.nearest n = |q|) :
    ofInt (if decide (q < 0) = true then -(n : ℤ) else n) = .finite q := by
  refine rounds_of_nearest _ q ?_ nonzero exact
  by_cases negative : q < 0
  · simp [negative, nearest_neg, nearest, abs_of_neg negative]
  · simp [negative, nearest, abs_of_nonneg (not_lt.mp negative)]

end

end Number

namespace Markup

section

variable (text : String) (negative : Bool)

theorem all_digits (n : ℕ) : ∀ c ∈ Nat.toDigits 10 n, c.isDigit = true :=
  fun _ mem => isDigit_of_mem_toDigits (by omega) (by omega) mem

theorem whole_value (n : ℕ) : (n : ℚ) = decimalValue (Nat.toDigits 10 n ++ []) / 10 ^ ([] : List Char).length := by
  rw [append_nil, show decimalValue (Nat.toDigits 10 n) = n from ofDigitChars_ten_toDigits]
  simp

theorem pointed_value (n : ℕ) : (n : ℚ) = decimalValue (Nat.toDigits 10 n ++ ['0']) / 10 ^ ['0'].length := by
  have shifted : decimalValue (Nat.toDigits 10 n ++ ['0']) = 10 * n := by
    unfold decimalValue
    rw [foldl_append]
    exact congrArg (10 * · + 0) (ofDigitChars_ten_toDigits (n := n))
  rw [shifted]
  push_cast
  norm_num

theorem integer_scalar {z : ℤ} (written : text.toList = sign negative ++ Nat.toDigits 10 n)
    (read : integer? (sign negative ++ Nat.toDigits 10 n) = some z) :
    (plainScalar text).tag = .integer ∧ (plainScalar text).value? = some (.integer z) := by
  obtain ⟨c, cs, begins⟩ := exists_cons_of_ne_nil (toDigits_ne_nil (n := n) (b := 10))
  have digits := all_digits n
  rw [begins] at written read digits
  refine plain_scalar text (.integer z) (fun dates => ?_) (.inl rfl)
  exact plain_integer dates text negative c cs written (digits c mem_cons_self)
    (fun d mem => .inl (digits d (mem_cons_of_mem c mem))) read

theorem large_scalar (written : text.toList = sign negative ++ Nat.toDigits 10 n)
    (large : integer? (sign negative ++ Nat.toDigits 10 n) = none)
    (read : (DecimalText.mk negative (Nat.toDigits 10 n) [] 0).number? = some v) :
    (plainScalar text).tag = .number ∧ (plainScalar text).value? = some (.number v) := by
  have decimal : decimal? (sign negative ++ Nat.toDigits 10 n) = some v := by
    rw [decimal?, decimal_whole negative (all_digits n) toDigits_ne_nil]
    exact read
  obtain ⟨c, cs, begins⟩ := exists_cons_of_ne_nil (toDigits_ne_nil (n := n) (b := 10))
  have digits := all_digits n
  rw [begins] at written large decimal digits
  refine plain_scalar text (.number v) (fun dates => ?_) (.inr rfl)
  exact plain_decimal dates text negative c cs written (digits c mem_cons_self)
    (fun d mem => .inl (digits d (mem_cons_of_mem c mem))) large decimal

theorem point_scalar {w f : List Char} (digits : ∀ c ∈ w ++ f, c.isDigit = true) (some_ : w ≠ [])
    (written : text.toList = sign negative ++ (w ++ '.' :: f))
    (read : (DecimalText.mk negative w f 0).number? = some v) :
    (plainScalar text).tag = .number ∧ (plainScalar text).value? = some (.number v) := by
  have decimal : decimal? (sign negative ++ (w ++ '.' :: f)) = some v := by
    rw [decimal?, decimal_point negative w f (fun c mem => digits c (mem_append_left f mem)) some_
      fun c mem => digits c (mem_append_right w mem)]
    exact read
  obtain ⟨c, cs, begins⟩ := exists_cons_of_ne_nil some_
  have first : c.isDigit = true := digits c (by simp [begins])
  have other := integer_point negative w f begins first
  subst begins
  refine plain_scalar text (.number v) (fun dates => ?_) (.inr rfl)
  refine plain_decimal dates text negative c (cs ++ '.' :: f) written first (fun d mem => ?_) other decimal
  rcases mem_append.mp mem with whole | fraction
  · exact .inl (digits d (by simp [whole]))
  · rcases mem_cons.mp fraction with rfl | fraction
    · exact .inr rfl
    · exact .inl (digits d (by simp [fraction]))

end

end Markup

namespace Outline

theorem number_text_finite (q : ℚ) : numberText (.finite q) = (finite q).plainText := rfl

-- What is written for a number is read as that number.
theorem number_reads (double : v.IsDouble) (unsigned : v ≠ .negZero) :
    (plainScalar (numberText v)).number? = some v ∧ (plainScalar (numberText v)).tag ≠ .text := by
  cases v with
  | nan => decide
  | posInf => decide
  | negInf => decide
  | negZero => exact absurd rfl unsigned
  | finite q =>
    have exact := double q rfl
    by_cases zero : q = 0
    · subst zero
      decide
    rw [number_text_finite]
    rcases lt_or_ge (Decimal.shortest .double |q|).exponent 0 with fraction | whole
    · obtain ⟨w, f, x, written, digits, some_, value, nearest, least, most⟩ := fraction_text q zero exact fraction
      obtain ⟨tag, read⟩ := point_scalar _ _ digits some_ written
        (digits_decimal q zero exact w f x value nearest least most)
      simp [Markup.Scalar.number?, read, tag]
    · obtain ⟨n, written, nearest, least, most⟩ := whole_text q zero exact whole
      cases fits : integer? (sign (decide (q < 0)) ++ Nat.toDigits 10 n) with
      | none =>
        obtain ⟨tag, read⟩ := large_scalar _ _ written fits
          (digits_decimal q zero exact _ [] n (whole_value n) nearest least most)
        simp [Markup.Scalar.number?, read, tag]
      | some z =>
        obtain ⟨tag, read⟩ := integer_scalar _ _ written fits
        have same : z = if decide (q < 0) = true then -(n : ℤ) else n := by
          rw [integer_signed] at fits
          split_ifs at fits ⊢ <;> simpa using fits.symm
        have value := whole_integer q zero exact n nearest
        rw [← same] at value
        simp [Markup.Scalar.number?, read, tag, value]

def doubleText (v : Number) : String := if (numberText v).contains '.' then numberText v else numberText v ++ ".0"

theorem double_reads (double : v.IsDouble) :
    (plainScalar (doubleText v)).tag = .number ∧ (plainScalar (doubleText v)).number? = some v := by
  unfold doubleText
  rw [String.contains_char_eq]
  cases v with
  | nan => decide
  | posInf => decide
  | negInf => decide
  | negZero => decide
  | finite q =>
    have exact := double q rfl
    by_cases zero : q = 0
    · subst zero
      decide
    rw [number_text_finite]
    rcases lt_or_ge (Decimal.shortest .double |q|).exponent 0 with fraction | whole
    · obtain ⟨w, f, x, written, digits, some_, value, nearest, least, most⟩ := fraction_text q zero exact fraction
      obtain ⟨tag, read⟩ := point_scalar _ _ digits some_ written
        (digits_decimal q zero exact w f x value nearest least most)
      rw [if_pos (by simp [written])]
      exact ⟨tag, by simp [Markup.Scalar.number?, read]⟩
    · obtain ⟨n, written, nearest, least, most⟩ := whole_text q zero exact whole
      have bare : '.' ∉ (finite q).plainText.toList := by
        rw [written, mem_append, not_or]
        refine ⟨fun mark => ?_, fun mem => by simpa using all_digits n '.' mem⟩
        unfold sign at mark
        split_ifs at mark <;> simp at mark
      rw [if_neg (by simpa using bare)]
      obtain ⟨tag, read⟩ := point_scalar ((finite q).plainText ++ ".0") (decide (q < 0))
        (by
          intro c mem
          rcases mem_append.mp mem with whole | last
          · exact all_digits n c whole
          · rw [mem_singleton.mp last]
            rfl)
        toDigits_ne_nil (by rw [String.toList_append, written, append_assoc]; rfl)
        (digits_decimal q zero exact _ ['0'] n (pointed_value n) nearest least most)
      exact ⟨tag, by simp [Markup.Scalar.number?, read]⟩

theorem nearest_int (n : ℤ) (small : |n| ≤ 2 ^ 53) : double.nearest n = n :=
  (nearest_exact n (exact_int n small)).1

theorem whole_reads {q : ℚ} (exact : Number.IsExact q) (whole : q.den = 1) (least : -2 ^ 63 < q) (most : q < 2 ^ 63) :
    ∃ n : ℤ, (plainScalar (numberText (.finite q))).tag = .integer ∧
      (plainScalar (numberText (.finite q))).integer? = some n ∧ ofInt n = .finite q ∧ double.nearest n = q := by
  by_cases zero : q = 0
  · subst zero
    exact ⟨0, by decide⟩
  have magnitude : |q| = (q.num.natAbs : ℕ) := by
    rw [← Rat.coe_int_num_of_den_eq_one whole]
    simp [cast_natAbs]
  have positive : 0 < q.num.natAbs := by
    have := Rat.num_ne_zero.mpr zero
    omega
  have exponent := Decimal.shortest_whole positive (magnitude ▸ exact_abs q exact)
  rw [← magnitude] at exponent
  obtain ⟨n, written, nearest, -, -⟩ := whole_text q zero exact exponent
  have small : n < 2 ^ 63 := by
    by_contra large
    have bound : double.nearest ((2 : ℚ) ^ 63) ≤ double.nearest n :=
      nearest_mono _ (by decide) _ _ (by exact_mod_cast not_lt.mp large)
    have fixed : double.nearest ((2 : ℚ) ^ 63) = 2 ^ 63 := by decide +kernel
    rw [fixed, nearest] at bound
    exact absurd (abs_lt.mpr ⟨least, most⟩) (not_lt.mpr bound)
  have fits : integer? (sign (decide (q < 0)) ++ Nat.toDigits 10 n) =
      some (if decide (q < 0) = true then -(n : ℤ) else n) := by
    rw [integer_signed]
    split_ifs <;> first | rfl | omega
  obtain ⟨tag, read⟩ := integer_scalar _ _ written fits
  refine ⟨_, tag, ?_, whole_integer q zero exact n nearest, ?_⟩
  · have below : (if decide (q < 0) = true then -(n : ℤ) else n) < 2 ^ 63 := by
      split_ifs <;> omega
    rw [number_text_finite, Markup.Scalar.integer?, read]
    exact if_pos below
  · by_cases negative : q < 0
    · simp [negative, nearest_neg, nearest, abs_of_neg negative]
    · simp [negative, nearest, abs_of_nonneg (not_lt.mp negative)]

end Outline

end Blockwork
