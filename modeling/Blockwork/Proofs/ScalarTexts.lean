import Blockwork.Document.Load
import Blockwork.Proofs.Blueprint
import Blockwork.Proofs.NumberTexts

set_option autoImplicit false

namespace Blockwork

open List ValueType

theorem of_map_ok {ε α β : Type} {f : α → β} {x : Except ε α} {b : β} (made : x.map f = .ok b) :
    ∃ a, x = .ok a ∧ f a = b := by
  cases x with
  | error fault => cases made
  | ok a => exact ⟨a, rfl, Except.ok.inj made⟩

namespace Text

variable {c : Char}

theorem digit_of_char (digit : c.isDigit = true) : isDigit c = true := by
  have bounds := Markup.digit_bounds digit
  have zero : '0' ≤ c := by
    rw [Char.le_def, UInt32.le_iff_toNat_le]
    exact bounds.1
  have nine : c ≤ '9' := by
    rw [Char.le_def, UInt32.le_iff_toNat_le]
    exact bounds.2
  simp [isDigit, zero, nine]

theorem natural_to_digits (n : ℕ) : natural? (Nat.toDigits 10 n) = some n := by
  have value : digitsValue (Nat.toDigits 10 n) = n := by
    have same : digitsValue (Nat.toDigits 10 n) = Markup.decimalValue (Nat.toDigits 10 n) := by
      unfold digitsValue Markup.decimalValue
      simp only [Nat.mul_comm _ 10]
      rfl
    rw [same]
    exact Nat.ofDigitChars_ten_toDigits
  have all : (Nat.toDigits 10 n).all isDigit = true :=
    all_eq_true.mpr fun c mem => digit_of_char (Markup.all_digits n c mem)
  have some_ : (Nat.toDigits 10 n).isEmpty = false := by simp [Nat.toDigits_ne_nil]
  rw [natural?, all, some_, value]
  rfl

theorem integer_to_digits {n : ℕ} (small : n < 2 ^ 63) : integer? (Nat.toDigits 10 n) = some (n : ℤ) := by
  have fits : fitsWord n = true := by
    simp only [fitsWord, Bool.and_eq_true, decide_eq_true_eq]
    omega
  have read := natural_to_digits n
  obtain ⟨c, cs, begins⟩ := exists_cons_of_ne_nil (Nat.toDigits_ne_nil (n := n) (b := 10))
  have digit : c.isDigit = true := Markup.all_digits n c (by simp [begins])
  rw [begins] at read ⊢
  unfold integer?
  dsimp only
  split
  · simp_all
  · simp_all
  · rw [read]
    simp [Option.filter, fits]

theorem trim_tight (s : List Char) (tight : ∀ c ∈ s, isBlank c = false) : trimList s = s := by
  have whole : ∀ s : List Char, (∀ c ∈ s, isBlank c = false) → s.dropWhile isBlank = s := by
    intro s tight
    cases s with
    | nil => rfl
    | cons c cs => rw [dropWhile_cons_of_neg (by simp [tight c mem_cons_self])]
  rw [trimList, whole s tight, whole s.reverse fun c mem => tight c (mem_reverse.mp mem), reverse_reverse]

theorem digit_not_blank (digit : c.isDigit = true) : isBlank c = false := by
  have bounds := Markup.digit_bounds digit
  simp only [isBlank, Bool.or_eq_false_iff, Bool.and_eq_false_iff, decide_eq_false_iff_not, beq_eq_false_iff_ne]
  omega

end Text

namespace ValueType

def sizeChars (ns : List ℤ) : List Char := ns.flatMap fun n => '[' :: (toString n).toList ++ [']']

theorem size_digits (n : ℤ) (positive : 0 ≤ n) : (toString n).toList = Nat.toDigits 10 n.toNat := by
  obtain ⟨k, rfl⟩ := Int.eq_ofNat_of_zero_le positive
  exact Nat.toList_repr

theorem text_chars (t : ValueType) : t.text.toList = t.root.name.toList ++ sizeChars t.sizes := by
  have each : ∀ ns : List ℤ, (String.join (ns.map fun n => s!"[{n}]")).toList = sizeChars ns := by
    intro ns
    induction ns with
    | nil => rfl
    | cons n ns hyp =>
      rw [map_cons, String.join_cons, String.toList_append, hyp, sizeChars, sizeChars, flatMap_cons]
      congr 1
      rw [String.toList_append, String.toList_append]
      rfl
  rw [text, String.toList_append, each]

theorem sized_root {t : ValueType} : sized (.primitive t.root) t.sizes = t := by
  induction t with
  | primitive p => rfl
  | array element size hyp => rw [root, sizes, sized, hyp]

theorem root_sized (p : Primitive) (ns : List ℤ) : (sized (.primitive p) ns).root = p := by
  induction ns with
  | nil => rfl
  | cons n ns hyp => rw [sized, root, hyp]

theorem sizes_sized (p : Primitive) (ns : List ℤ) : (sized (.primitive p) ns).sizes = ns := by
  induction ns with
  | nil => rfl
  | cons n ns hyp => rw [sized, sizes, hyp]

end ValueType

namespace TypeSpec

inductive Dimensions : List Char → List ℤ → Prop
  | none : Dimensions [] []
  | more (digits rest : List Char) (n : ℤ) (ns : List ℤ) (closed : ']' ∉ digits) (value : Text.integer? digits = some n)
      (positive : 1 ≤ n) (others : Dimensions rest ns) : Dimensions ('[' :: (digits ++ ']' :: rest)) (n :: ns)

-- What a text says: the name of a scalar with the sizes of the dimensions behind it, and blanks around them.
def Names (text : String) (p : Primitive) (ns : List ℤ) : Prop :=
  ∃ dims, Text.trimList text.toList = p.name.toList ++ dims ∧ Dimensions dims ns

variable {ns : List ℤ}

theorem dimension_bounds {cs : List Char} (dims : Dimensions cs ns) : ∀ n ∈ ns, 1 ≤ n ∧ n < 2 ^ 63 := by
  induction dims with
  | none => simp
  | more digits rest n ns closed value positive others hyp =>
    have fits := (Option.filter_eq_some_iff.mp value).2
    simp only [Text.fitsWord, Bool.and_eq_true, decide_eq_true_eq] at fits
    exact forall_mem_cons.mpr ⟨⟨positive, fits.2⟩, hyp⟩

theorem bracket_taken {digits : List Char} (rest : List Char) (closed : ']' ∉ digits) :
    (digits ++ ']' :: rest).takeWhile (· ≠ ']') = digits ∧ (digits ++ ']' :: rest).dropWhile (· ≠ ']') =
      ']' :: rest := by
  have plain : ∀ c ∈ digits, decide (c ≠ ']') = true := fun c mem => decide_eq_true (ne_of_mem_of_not_mem mem closed)
  rw [takeWhile_append_of_pos plain, dropWhile_append_of_pos plain]
  simp

theorem read_sizes_iff {spec : String} (fuel : ℕ) (cs : List Char) (ns : List ℤ) (enough : cs.length ≤ fuel) :
    readSizes spec fuel cs = .ok ns ↔ Dimensions cs ns := by
  constructor
  · intro read
    induction fuel generalizing cs ns with
    | zero =>
      obtain rfl := length_eq_zero_iff.mp (Nat.le_zero.mp enough)
      cases read
      exact .none
    | succ fuel hyp =>
      cases cs with
      | nil =>
        cases read
        exact .none
      | cons c rest =>
        unfold readSizes at read
        split_ifs at read with other
        obtain ⟨rfl, closed⟩ : c = '[' ∧ ']' ∈ rest := by simpa [not_or] using other
        obtain ⟨digits, later, rfl, absent⟩ := eq_append_cons_of_mem closed
        rw [(bracket_taken later absent).1, (bracket_taken later absent).2] at read
        split at read
        · next n value =>
            split_ifs at read with small
            obtain ⟨others, rest, rfl⟩ := of_map_ok read
            simp only [length_cons, length_append] at enough
            exact .more digits later n others absent value (by omega) (hyp later others (by omega) rest)
        · cases read
  · intro dims
    induction dims generalizing fuel with
    | none => cases fuel <;> rfl
    | more digits rest n ns closed value positive others hyp =>
      simp only [length_cons, length_append] at enough
      obtain ⟨fuel, rfl⟩ : ∃ f, fuel = f + 1 := ⟨fuel - 1, by omega⟩
      rw [readSizes, if_neg (by simp), (bracket_taken rest closed).1, value]
      dsimp only
      rw [if_neg (by omega), (bracket_taken rest closed).2, drop_one, tail_cons, hyp fuel (by omega)]
      rfl

theorem name_plain (p : Primitive) :
    (∀ c ∈ p.name.toList, Text.isBlank c = false ∧ c ≠ '[') ∧ Primitive.named? p.name = some p := by
  have named : p.name.toList.all (fun c => !Text.isBlank c && c ≠ '[') = true ∧ Primitive.named? p.name = some p := by
    cases p <;> decide
  exact ⟨fun c mem => by simpa using all_eq_true.mp named.1 c mem, named.2⟩

theorem name_taken (p : Primitive) {dims : List Char} (read : Dimensions dims ns) :
    (p.name.toList ++ dims).takeWhile (· ≠ '[') = p.name.toList ∧
      (p.name.toList ++ dims).dropWhile (· ≠ '[') = dims := by
  have plain : ∀ c ∈ p.name.toList, decide (c ≠ '[') = true := fun c mem => decide_eq_true ((name_plain p).1 c mem).2
  rw [takeWhile_append_of_pos plain, dropWhile_append_of_pos plain]
  cases read <;> simp

theorem parse_iff (text : String) (p : Primitive) (ns : List ℤ) :
    TypeSpec.parse text = .ok ⟨p, ns⟩ ↔ Names text p ns := by
  unfold TypeSpec.parse Names
  dsimp only
  generalize Text.trimList text.toList = chars
  constructor
  · intro parsed
    split at parsed
    · cases parsed
    · next scalar found =>
        obtain ⟨sizes, read, same⟩ := of_map_ok parsed
        cases same
        have name : p.name = String.ofList (chars.takeWhile (· ≠ '[')) := by simpa using find?_some found
        refine ⟨chars.dropWhile (· ≠ '['), ?_, (read_sizes_iff _ _ _ le_rfl).mp read⟩
        rw [name, String.toList_ofList, takeWhile_append_dropWhile]
  · rintro ⟨dims, rfl, read⟩
    obtain ⟨taken, dropped⟩ := name_taken p read
    rw [taken, dropped, String.ofList_toList, (name_plain p).2]
    dsimp only
    rw [(read_sizes_iff _ _ _ le_rfl).mpr read]
    rfl

theorem sizes_dimensions (bounds : ∀ n ∈ ns, 1 ≤ n ∧ n < 2 ^ 63) : Dimensions (sizeChars ns) ns := by
  induction ns with
  | nil => exact .none
  | cons n ns hyp =>
    obtain ⟨⟨least, most⟩, others⟩ := forall_mem_cons.mp bounds
    have shape : sizeChars (n :: ns) = '[' :: (Nat.toDigits 10 n.toNat ++ ']' :: sizeChars ns) := by
      rw [sizeChars, flatMap_cons, size_digits n (by omega)]
      simp [sizeChars]
    rw [shape]
    refine .more _ _ n ns (fun mem => ?_) ?_ least (hyp others)
    · cases Markup.all_digits _ _ mem
    · rw [Text.integer_to_digits (by omega), Int.toNat_of_nonneg (by omega)]

theorem names_text (t : ValueType) (bounds : ∀ n ∈ t.sizes, 1 ≤ n ∧ n < 2 ^ 63) : Names t.text t.root t.sizes := by
  refine ⟨sizeChars t.sizes, ?_, sizes_dimensions bounds⟩
  rw [Text.trim_tight, t.text_chars]
  intro c mem
  rw [t.text_chars] at mem
  rcases mem_append.mp mem with name | size
  · exact ((name_plain t.root).1 c name).1
  · obtain ⟨n, inside, mem⟩ := mem_flatMap.mp size
    obtain ⟨least, -⟩ := bounds n inside
    rw [size_digits n (by omega)] at mem
    simp only [cons_append, mem_cons, mem_append, not_mem_nil, or_false] at mem
    rcases mem with rfl | digit | rfl
    · rfl
    · exact Text.digit_not_blank (Markup.all_digits _ c digit)
    · rfl

end TypeSpec

namespace ValueType

theorem parse_text (t : ValueType) (readable : ∃ text, parse text = .ok t) : parse t.text = .ok t := by
  obtain ⟨text, parsed⟩ := readable
  obtain ⟨⟨p, ns⟩, spec, rfl⟩ := of_map_ok parsed
  obtain ⟨dims, -, read⟩ := (TypeSpec.parse_iff text p ns).mp spec
  have bounds := TypeSpec.dimension_bounds read
  rw [parse, (TypeSpec.parse_iff _ _ _).mpr (TypeSpec.names_text _ (by rwa [sizes_sized]))]
  exact congrArg Except.ok (sized_root)

end ValueType

namespace Outline

open Markup (Node Scalar plainScalar)
open Document (literalOf)

theorem inferred_whole (q : ℚ) (whole : q.den = 1) :
    inferred (.finite q) = if q < -2 ^ 31 ∨ 2 ^ 31 - 1 < q then .long else .int := by
  have least : Number.ofInt (-0x80000000) = .finite (-2 ^ 31) := by decide +kernel
  have most : Number.ofInt 0x7fffffff = .finite (2 ^ 31 - 1) := by decide +kernel
  unfold inferred
  rw [least, most]
  simp [Number.isWhole, whole, Number.isInfinite, Number.lt]

theorem rounded_sides {n : ℤ} {q : ℚ} (nearest : Precision.double.nearest n = q) :
    (q < -2 ^ 31 ∨ 2 ^ 31 - 1 < q) ↔ (n < -0x80000000 ∨ 0x80000000 ≤ n) := by
  have fixed : ∀ m : ℤ, |m| ≤ 2 ^ 53 → (m ≤ n → (m : ℚ) ≤ q) ∧ (n ≤ m → q ≤ m) := by
    intro m small
    have own := nearest_int m small
    refine ⟨fun order => ?_, fun order => ?_⟩
    · have above := Precision.nearest_mono .double (by decide) (m : ℚ) n (by exact_mod_cast order)
      rwa [own, nearest] at above
    · have below := Precision.nearest_mono .double (by decide) (n : ℚ) m (by exact_mod_cast order)
      rwa [own, nearest] at below
  obtain ⟨least, -⟩ := fixed (-2 ^ 31) (by norm_num)
  obtain ⟨-, below⟩ := fixed (-2 ^ 31 - 1) (by norm_num)
  obtain ⟨-, most⟩ := fixed (2 ^ 31 - 1) (by norm_num)
  obtain ⟨above, -⟩ := fixed (2 ^ 31) (by norm_num)
  norm_num at least below most above ⊢
  constructor
  · rintro (small | large)
    · left
      by_contra other
      linarith [least (not_lt.mp other)]
    · right
      by_contra other
      linarith [most (by omega)]
  · rintro (small | large)
    · left
      linarith [below (by omega)]
    · right
      linarith [above large]

end Outline

-- Numbers that keep their type and their value when they are written: only a `double` has a zero with a sign, and
-- digits of a `long` are those of one.
def Payload.Writable (type : ValueType) : Payload → Prop
  | .number v => (v = .negZero → type = .double) ∧ (type = .long → (Number.ofInt (-2 ^ 63)).lt v = true ∧
    v.lt (.ofInt (2 ^ 63)) = true)
  | _ => True

-- All that this takes: infinities and fractions are no integers of a `long`, and are written with their type.
def Payload.Kept (type : ValueType) : Payload → Prop
  | .number v => (v = .negZero → type = .double) ∧ (type = .long → ∀ z : ℤ, v = .finite z → -2 ^ 63 < z ∧ z < 2 ^ 63)
  | _ => True

theorem Payload.Writable.kept {payload : Payload} {type : ValueType} (writable : payload.Writable type) :
    payload.Kept type := by
  cases payload with
  | number v =>
    refine ⟨writable.1, fun long z whole => ?_⟩
    obtain ⟨least, most⟩ := writable.2 long
    have low : Number.ofInt (-2 ^ 63) = .finite (-2 ^ 63) := by decide +kernel
    have high : Number.ofInt (2 ^ 63) = .finite (2 ^ 63) := by decide +kernel
    rw [low, whole] at least
    rw [high, whole] at most
    exact ⟨by exact_mod_cast of_decide_eq_true least, by exact_mod_cast of_decide_eq_true most⟩
  | _ => trivial

namespace Outline

open Markup (Node Scalar plainScalar)
open Document (literalOf)

theorem inferred_reads {v : Number} (double : v.IsDouble) (kept : (Payload.number v).Kept (inferred v))
    (other : inferred v ≠ .double) :
    literalOf none (plainScalar (numberText v)) = .ok (.number v, inferred v) := by
  obtain ⟨unsigned, long⟩ := kept
  cases v with
  | nan => exact absurd rfl other
  | posInf => exact absurd rfl other
  | negInf => exact absurd rfl other
  | negZero => exact absurd (unsigned rfl) other
  | finite q =>
    by_cases whole : q.den = 1
    · have kind := inferred_whole q whole
      have inside : -2 ^ 63 < q ∧ q < 2 ^ 63 := by
        by_cases outside : q < -2 ^ 31 ∨ 2 ^ 31 - 1 < q
        · rw [if_pos outside] at kind
          have integer := Rat.coe_int_num_of_den_eq_one whole
          obtain ⟨least, most⟩ := long kind q.num (by rw [integer])
          rw [← integer]
          exact ⟨by exact_mod_cast least, by exact_mod_cast most⟩
        · rw [not_or, not_lt, not_lt] at outside
          exact ⟨by linarith, by linarith⟩
      obtain ⟨n, tag, read, value, nearest⟩ := whole_reads (double q rfl) whole inside.1 inside.2
      unfold literalOf
      dsimp only
      rw [tag]
      dsimp only
      rw [read]
      dsimp only
      rw [value, kind]
      simp only [rounded_sides nearest]
    · refine absurd ?_ other
      unfold inferred
      rw [if_pos (by simp [Number.isWhole, whole])]

theorem literal_reads {b : Block} {payload : Payload} {type : ValueType} (holds : b.payload = payload)
    (typed : b.type = some type) (valid : Literal payload type) (kept : payload.Kept type) :
    ∃ s : Scalar, Outline.literal b = .scalar {} s ∧ literalOf none s = .ok (payload, type) ∨
      Outline.literal b = typedLiteral (.scalar {} s) (some type) ∧ literalOf (some type) s = .ok (payload, type) := by
  unfold Outline.literal
  rw [holds, typed]
  cases valid with
  | text s => exact ⟨_, .inl ⟨rfl, rfl⟩⟩
  | truth t =>
    refine ⟨plainScalar (if t then "true" else "false"), .inl ⟨rfl, ?_⟩⟩
    have word : (plainScalar (if t then "true" else "false")).tag = .truth ∧
        (plainScalar (if t then "true" else "false")).truth? = some t := by
      cases t <;> decide
    unfold literalOf
    dsimp only
    rw [word.1]
    dsimp only
    rw [word.2]
  | character s single =>
    refine ⟨⟨.text, s, false⟩, .inr ⟨rfl, ?_⟩⟩
    simp [literalOf, single]
  | number v type numeric double =>
    dsimp only
    by_cases point : type = .double
    · subst point
      obtain ⟨tag, read⟩ := double_reads double
      refine ⟨plainScalar (doubleText v), .inl ⟨rfl, ?_⟩⟩
      unfold literalOf
      dsimp only
      rw [tag]
      dsimp only
      rw [read]
    · rw [if_neg (by simpa using point)]
      by_cases own : type = inferred v
      · rw [if_pos (by rw [own])]
        refine ⟨plainScalar (numberText v), .inl ⟨rfl, ?_⟩⟩
        subst own
        exact inferred_reads double kept point
      · rw [if_neg (by simpa using own)]
        refine ⟨plainScalar (numberText v), .inr ⟨rfl, ?_⟩⟩
        obtain ⟨read, tag⟩ := number_reads double fun zero => point (kept.1 zero)
        have scalar : type ≠ .string ∧ type ≠ .bool := by
          refine ⟨?_, ?_⟩ <;> rintro rfl <;> cases numeric
        unfold literalOf
        dsimp only
        rw [if_neg scalar.1, if_neg scalar.2, if_neg (fun both => tag both.2), if_pos numeric, read]

end Outline

end Blockwork
