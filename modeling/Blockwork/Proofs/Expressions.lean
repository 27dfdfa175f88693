import Blockwork.Proofs.Drafting
import Blockwork.Proofs.Lexing

set_option autoImplicit false

namespace Blockwork

open List

variable {v : Number} {f l r value : Fragment} {t : Cpp.Tree} {type : Option ValueType} {b : Block}

open Cpp (Means isNumeral isWordChar)

theorem numeral_of_digits (digits more : List Char) (some : digits ≠ []) (each : ∀ c ∈ digits, c.isDigit = true)
    (rest : ∀ c ∈ more, (isWordChar c || c = '.') = true) : isNumeral (.ofList (digits ++ more)) = true := by
  cases digits with
  | nil => exact absurd rfl some
  | cons d ds =>
    have tail : ∀ c ∈ ds ++ more, (isWordChar c || c = '.') = true := by
      intro c mem
      rcases mem_append.mp mem with inside | behind
      · simp [isWordChar, each c (mem_cons_of_mem d inside)]
      · exact rest c behind
    simp only [isNumeral, String.toList_ofList, cons_append, each d mem_cons_self, Bool.true_and]
    exact all_eq_true.mpr tail

namespace Decimal

theorem digits_of_small {n d : Nat} (mem : d ∈ digitsOf n) : d < 10 := by
  induction n using Nat.strongRecOn with
  | _ n hyp =>
    rw [digitsOf] at mem
    by_cases zero : n = 0
    · simp [zero] at mem
    · rw [if_neg zero] at mem
      rcases mem_append.mp mem with before | last
      · exact hyp (n / 10) (by omega) before
      · rw [mem_singleton.mp last]
        omega

theorem digit_chars (d : Decimal) : d.digitChars ≠ [] ∧ ∀ c ∈ d.digitChars, c.isDigit = true := by
  unfold digitChars
  by_cases zero : d.digits = 0
  · rw [if_pos zero]
    simp
  · rw [if_neg zero]
    constructor
    · rw [digitsOf, if_neg zero]
      simp
    · intro c mem
      obtain ⟨digit, inside, rfl⟩ := mem_map.mp mem
      have small := digits_of_small inside
      interval_cases digit <;> decide

theorem plain_numeral {d : Decimal} : isNumeral (.ofList d.layPlain) = true := by
  obtain ⟨some, digits⟩ := d.digit_chars
  have zeros : ∀ n, ∀ c ∈ List.replicate n '0', c.isDigit = true := by
    intro n c mem
    rw [(mem_replicate.mp mem).2]
    decide
  have within : ∀ c : Char, c.isDigit = true → (isWordChar c || c = '.') = true := by
    intro c digit
    simp [isWordChar, digit]
  unfold layPlain
  by_cases whole : 0 ≤ d.exponent
  · simp only [if_pos whole]
    exact numeral_of_digits _ _ some digits fun c mem => within c (zeros _ c mem)
  · simp only [if_neg whole]
    generalize places : (-d.exponent).toNat = n
    have padded : ∀ c ∈ padLeft (n + 1) d.digitChars, c.isDigit = true := by
      intro c mem
      exact (mem_append.mp mem).elim (zeros _ c) (digits c)
    have long : n < (padLeft (n + 1) d.digitChars).length := by
      simp only [padLeft, length_append, length_replicate]
      omega
    apply numeral_of_digits
    · intro none
      have length := congrArg List.length none
      rw [length_take, length_nil] at length
      omega
    · exact fun c mem => padded c (mem_of_mem_take mem)
    · intro c mem
      rcases mem_cons.mp mem with rfl | behind
      · decide
      · exact within c (padded c (mem_of_mem_drop behind))

end Decimal

namespace Number

theorem plain_text_numeral (v : Number) (finite : v.toRat?.isSome = true) (positive : v.isNegative = false) :
    isNumeral v.plainText = true := by
  cases v with
  | finite q =>
    have above : ¬ q < 0 := by simpa [isNegative] using positive
    simp only [plainText, write]
    by_cases zero : q = 0
    · rw [if_pos zero]
      decide
    · rw [if_neg zero]
      simp only [if_neg above, Decimal.lay, Layout.positional, if_true]
      exact Decimal.plain_numeral
  | negZero => cases positive
  | _ => cases finite

theorem plain_text_negative (v : Number) (finite : v.toRat?.isSome = true) (negative : v.isNegative = true) :
    v.plainText = "-" ++ v.neg.plainText := by
  cases v with
  | finite q =>
    have below : q < 0 := by simpa [isNegative] using negative
    have nonzero : q ≠ 0 := by grind
    have above : ¬ -q < 0 := by grind
    have flipped : -q ≠ 0 := by grind
    simp only [plainText, write, neg, if_neg nonzero, if_neg flipped, if_pos below, if_neg above]
    rw [← String.toList_inj]
    simp
  | negZero => rfl
  | _ => cases finite

end Number

theorem number_code_numeral (type : ValueType) (finite : v.toRat?.isSome = true) (positive : v.isNegative = false) :
    isNumeral (numberCode v type) = true := by
  have plain := v.plain_text_numeral finite positive
  have extended : ∀ (s suffix : String), isNumeral s = true →
      (suffix.toList.all fun c => isWordChar c || c = '.') = true → isNumeral (s ++ suffix) = true := by
    intro s suffix numeral fits
    unfold isNumeral at numeral ⊢
    rw [String.toList_append]
    cases shape : s.toList with
    | nil => simp [shape] at numeral
    | cons c cs =>
      simp only [shape, Bool.and_eq_true] at numeral
      simp only [cons_append, numeral.1, Bool.true_and, all_append, numeral.2]
      exact fits
  have pointed : isNumeral (if v.plainText.contains '.' then v.plainText else v.plainText ++ ".0") = true := by
    by_cases point : v.plainText.contains '.' = true
    · rw [if_pos point]
      exact plain
    · rw [if_neg point]
      exact extended _ _ plain (by decide)
  unfold numberCode
  by_cases whole : type.isIntegral = true
  · rw [if_pos whole]
    exact plain
  · simp only [if_neg whole]
    by_cases single : type = .float
    · rw [if_pos single]
      exact extended _ _ pointed (by decide)
    · rw [if_neg single]
      exact pointed

theorem number_code_negative (type : ValueType) (finite : v.toRat?.isSome = true) (negative : v.isNegative = true) :
    numberCode v type = "-" ++ numberCode v.neg type := by
  have same : ("-" ++ v.neg.plainText).contains '.' = v.neg.plainText.contains '.' := by simp [String.contains_char_eq]
  unfold numberCode
  rw [v.plain_text_negative finite negative]
  simp only [same]
  split_ifs <;> simp [String.append_assoc]

namespace Precedence

-- The level of the grammar at which the operators of a precedence stand.
def depth : Precedence → Nat
  | .atom | .scope | .access => 0
  | .unary => 1
  | .multiplicative => 2
  | .additive => 3
  | .shift => 4
  | .relational => 5
  | .equality => 6
  | .conjunction => 7
  | .disjunction => 8
  | .assignment => 9
  | .comma => 10

-- The level that an operand may have without parentheses.
def reach (outer : Precedence) (onRight : Bool) : Nat :=
  if onRight = outer.groupsRight then outer.depth else outer.depth - 1

theorem bare_operand {inner outer : Precedence} {onRight : Bool} (bare : inner.needsParentheses outer onRight = false) :
    inner.depth ≤ outer.reach onRight := by
  revert bare
  cases inner <;> cases outer <;> cases onRight <;> decide

end Precedence

namespace Fragment

theorem within_means (means : Means f.code f.precedence.depth t) (usual : f.precedence.depth ≤ 9) {outer : Precedence}
    {onRight : Bool} (limit : outer.reach onRight ≤ 9) : Means (f.within outer onRight) (outer.reach onRight) t := by
  unfold within
  by_cases parentheses : f.precedence.needsParentheses outer onRight = true
  · rw [if_pos parentheses]
    exact (Means.group (means.lift 9 usual (Nat.le_refl 9))).lift _ (Nat.zero_le _) limit
  · rw [if_neg parentheses]
    exact means.lift _ (Precedence.bare_operand (Bool.eq_false_iff.mpr parentheses)) limit

structure Spells (f : Fragment) (t : Cpp.Tree) (type : Option ValueType) : Prop where
  code : Means f.code f.precedence.depth t
  usual : f.precedence.depth ≤ 8
  type : f.type = type

theorem Spells.within (spells : f.Spells t type) (outer : Precedence) (onRight : Bool)
    (limit : outer.reach onRight ≤ 9) :
    Means (f.within outer onRight) (outer.reach onRight) t :=
  within_means spells.code (Nat.le_trans spells.usual (by decide)) limit

theorem Spells.whole (spells : f.Spells t type) : Means f.code 9 t :=
  spells.code.lift 9 (Nat.le_trans spells.usual (by decide)) (Nat.le_refl 9)

end Fragment

theorem Kind.operator_level (kind : Kind) (operation : kind.spelling.precedence ≠ .atom) :
    ∃ level < 8, kind.spelling.precedence.depth = level + 1 ∧ kind.spelling.precedence.groupsRight = false ∧
      kind.spelling.code ∈ Cpp.operators (level + 1) := by
  cases kind <;> first | decide | exact absurd rfl operation

theorem Fragment.Spells.join (kind : Kind) {lt rt : Cpp.Tree} (a b type : Option ValueType)
    (operation : kind.spelling.precedence ≠ .atom) (left : l.Spells lt a) (right : r.Spells rt b) :
    (Fragment.join kind.spelling l r type).Spells (.binary kind.spelling.code lt rt) type := by
  obtain ⟨level, low, depth, groups, operator⟩ := kind.operator_level operation
  have first : kind.spelling.precedence.reach false = level + 1 := by simp [Precedence.reach, groups, depth]
  have second : kind.spelling.precedence.reach true = level := by simp [Precedence.reach, groups, depth]
  refine ⟨?_, ?_, rfl⟩
  · simp only [Fragment.join, depth]
    apply Means.binary
    · exact operator
    · exact first ▸ left.within _ false (by omega)
    · exact second ▸ right.within _ true (by omega)
  · simp only [Fragment.join, depth]
    omega

namespace Setting

def numberTree (v : Number) (type : ValueType) : Cpp.Tree :=
  if v.isNegative then .negative (.literal (numberCode v.neg type)) else .literal (numberCode v type)

def indexTree (i : Int) : Cpp.Tree :=
  if i < 0 then .negative (.literal (toString i.natAbs)) else .literal (toString i.natAbs)

def character? (b : Block) (t : String) : Option Char :=
  match t.toList with
  | [c] => if b.type = some .byte ∧ c.toNat < 128 then some c else none
  | _ => none

def literalTree (b : Block) : Cpp.Tree :=
  match b.payload with
  | .number v => numberTree v (literalType v b.type)
  | .text t => .literal ((character? b t).elim (Text.quoted t) Text.quotedChar)
  | .truth t => .literal (if t then "true" else "false")
  | _ => .literal ""

def elementType : Option ValueType → Option ValueType
  | some (.array type _) => some type
  | _ => none

def valueType (s : Setting) : Term → Option ValueType
  | .missing => none
  | .node b first second =>
    let both := (s.valueType first).bind fun l => (s.valueType second).bind l.promote?
    match b.kind with
    | .literal =>
      match b.payload with
      | .number v => some (literalType v b.type)
      | .text t => some (if (character? b t).isSome then .byte else .string)
      | .truth _ => some .bool
      | _ => none
    | .varRef | .indexRef => (s.graph.decl? b).bind (·.type)
    | .deviceRef => (s.graph.device? b.name).bind (·.type)
    | .add | .sub | .mult | .mod => both
    | .div =>
      if (s.valueType first).any (·.isIntegral) && (s.valueType second).any (·.isIntegral) then some .double else both
    | .element => elementType (s.valueType first)
    | _ => some .bool

-- The expression that a term stands for. Integers are divided as numbers in general.
def tree (s : Setting) : Term → Cpp.Tree
  | .missing => .name ""
  | .node b first second =>
    let binary (operator : String) : Cpp.Tree := .binary operator (s.tree first) (s.tree second)
    match b.kind with
    | .literal => literalTree b
    | .varRef | .indexRef => .name ((s.graph.decl? b).elim "" Block.name)
    | .deviceRef => .name b.name
    | .not => .not (s.tree first)
    | .element => .index (s.tree first) (b.litIndex.elim (s.tree second) indexTree)
    | .div =>
      if (s.valueType first).any (·.isIntegral) && (s.valueType second).any (·.isIntegral) then
        .binary "/" (.cast (s.tree first)) (s.tree second)
      else binary "/"
    | .add => binary "+"
    | .sub => binary "-"
    | .mult => binary "*"
    | .mod => binary "%"
    | .and => binary "&&"
    | .or => binary "||"
    | .eq => binary "=="
    | .lt => binary "<"
    | .lte => binary "<="
    | .gt => binary ">"
    | .gte => binary ">="
    | _ => .name ""

theorem arithmetic_type (s : Setting) (first second : Term) (kind : b.kind = .add ∨ b.kind = .sub ∨ b.kind = .mult) :
    s.valueType (.node b first second) = (s.valueType first).bind fun l => (s.valueType second).bind l.promote? := by
  rcases kind with kind | kind | kind <;> simp only [valueType, kind]

theorem tree_operation (s : Setting) (first second : Term) (operation : b.kind.spelling.precedence ≠ .atom)
    (other : b.kind ≠ .div) :
    s.tree (.node b first second) = .binary b.kind.spelling.code (s.tree first) (s.tree second) := by
  cases kind : b.kind <;> simp_all [tree, Kind.spelling]

def isIdentifier (name : String) : Bool := Cpp.isWord name && !Cpp.keywords.contains name

def isPlain (s : Setting) (b : Block) : Bool :=
  match b.kind with
  | .varRef | .indexRef => (s.graph.decl? b).all fun d => isIdentifier d.name
  | .deviceRef => isIdentifier b.name
  | .literal => b.number?.all fun v => v.toRat?.isSome
  | _ => true

theorem identifier_means (name : String) (identifier : isIdentifier name = true) : Means name 0 (.name name) := by
  obtain ⟨word, free⟩ := Bool.and_eq_true_iff.mp identifier
  exact Means.name word (by simpa using free)

theorem number_means {type : ValueType} (finite : v.toRat?.isSome = true) :
    Means (numberCode v type) 1 (numberTree v type) := by
  unfold numberTree
  by_cases negative : v.isNegative = true
  · rw [if_pos negative, number_code_negative type finite negative]
    have opposite : v.neg.toRat?.isSome = true ∧ v.neg.isNegative = false := by
      cases v with
      | finite q =>
        have below : q < 0 := by simpa [Number.isNegative] using negative
        have nonzero : q ≠ 0 := by grind
        simp only [Number.neg, if_neg nonzero, Number.toRat?, Number.isNegative, Option.isSome_some, true_and]
        grind
      | negZero => decide
      | _ => cases finite
    exact Means.negative (number_code_numeral _ opposite.1 opposite.2)
  · rw [if_neg negative]
    exact (Means.numeral (number_code_numeral type finite (Bool.eq_false_iff.mpr negative))).lift 1
      (by decide) (by decide)

theorem index_means (i : Int) : Means (toString i) 9 (indexTree i) := by
  have numeral : ∀ n : Nat, isNumeral (toString n) = true := by
    intro n
    have digits := numeral_of_digits (Nat.toDigits 10 n) [] Nat.toDigits_ne_nil
      (fun c mem => Nat.isDigit_of_mem_toDigits (by decide) (by decide) mem) (by simp)
    rw [append_nil] at digits
    exact digits
  unfold indexTree
  cases i with
  | ofNat n =>
    rw [if_neg (by simp)]
    exact (Means.numeral (numeral n)).lift 9 (by decide) (by decide)
  | negSucc n =>
    rw [if_pos (by simp)]
    exact (Means.negative (numeral (n + 1))).lift 9 (by decide) (by decide)

variable {s : Setting} {first second : Term}

theorem literal_spells (kind : b.kind = .literal) (plain : s.isPlain b = true) (made : literal b = .ok f)
    (first second : Term) : f.Spells (s.tree (.node b first second)) (s.valueType (.node b first second)) := by
  have quoted : ∀ t : String, Means (Text.quoted t) 0 (.literal (Text.quoted t)) :=
    fun t => Means.quoted '"' (.inl rfl) t.toList
  have single : ∀ c : Char, Means (Text.quotedChar c) 0 (.literal (Text.quotedChar c)) := by
    intro c
    simpa [Text.quotedChar, Text.escape] using Means.quoted '\'' (.inr rfl) [c]
  unfold literal at made
  simp only [tree, valueType, kind, literalTree]
  cases payload : b.payload with
  | number v =>
    rw [payload] at made
    have finite : v.toRat?.isSome = true := by
      simpa [isPlain, kind, Block.number?, payload, Payload.number?] using plain
    dsimp only at made
    split_ifs at made
    cases made
    exact ⟨number_means finite, (by decide : 1 ≤ 8), rfl⟩
  | text t =>
    rw [payload] at made
    dsimp only at made ⊢
    split at made
    · next c shape =>
        have character : character? b t = if b.type = some .byte ∧ c.toNat < 128 then some c else none := by
          simp only [character?, shape]
        by_cases written : b.type = some .byte ∧ c.toNat < 128
        · rw [if_pos written] at made
          cases made
          rw [character, if_pos written]
          exact ⟨single c, Nat.zero_le 8, rfl⟩
        · rw [if_neg written] at made
          cases made
          rw [character, if_neg written]
          exact ⟨quoted t, Nat.zero_le 8, rfl⟩
    · next other =>
        cases made
        have character : character? b t = none := by
          unfold character?
          split
          · next c shape => exact absurd shape (other c)
          · rfl
        rw [character]
        exact ⟨quoted t, Nat.zero_le 8, rfl⟩
  | truth t =>
    rw [payload] at made
    cases made
    exact ⟨Means.truth t, Nat.zero_le 8, rfl⟩
  | _ =>
    rw [payload] at made
    cases made

theorem reference_spells (kind : b.kind = .varRef ∨ b.kind = .indexRef) (plain : s.isPlain b = true)
    (made : s.reference b = .ok f) (first second : Term) :
    f.Spells (s.tree (.node b first second)) (s.valueType (.node b first second)) := by
  unfold reference at made
  split at made
  · next d _ found =>
      cases made
      have means : Means d.name 0 (.name d.name) := by
        apply identifier_means
        rcases kind with kind | kind <;> simpa [isPlain, kind, found] using plain
      rcases kind with kind | kind
      all_goals
        simp only [tree, valueType, kind, found]
        exact ⟨means, Nat.zero_le 8, rfl⟩
  · cases made

theorem device_spells (kind : b.kind = .deviceRef) (plain : s.isPlain b = true) (made : s.device b = .ok f)
    (first second : Term) : f.Spells (s.tree (.node b first second)) (s.valueType (.node b first second)) := by
  unfold device at made
  split at made
  · next d found =>
      cases made
      have named : d.name = b.name := by simpa using find?_some found
      have identifier : isIdentifier b.name = true := by simpa [isPlain, kind] using plain
      simp only [tree, valueType, kind, found, named]
      exact ⟨identifier_means b.name identifier, Nat.zero_le 8, rfl⟩
  · cases made

theorem promoted_type (own : l.type = s.valueType first) (own' : r.type = s.valueType second) :
    promoted l r = (s.valueType first).bind fun l => (s.valueType second).bind l.promote? := by
  unfold promoted
  rw [own, own']
  cases s.valueType first <;> cases s.valueType second <;> rfl

theorem arithmetic_spells {left right : Block} (kind : b.kind = .add ∨ b.kind = .sub ∨ b.kind = .mult)
    (made : s.arithmetic b left right l r = .ok f) (spells : l.Spells (s.tree first) (s.valueType first))
    (spells' : r.Spells (s.tree second) (s.valueType second)) :
    f.Spells (s.tree (.node b first second)) (s.valueType (.node b first second)) := by
  have operation : b.kind.spelling.precedence ≠ .atom := by rcases kind with kind | kind | kind <;> rw [kind] <;> decide
  have type : s.valueType (.node b first second) = promoted l r :=
    (s.arithmetic_type first second kind).trans (promoted_type spells.type spells'.type).symm
  rw [type, tree_operation s first second operation (by rcases kind with kind | kind | kind <;> rw [kind] <;> decide)]
  unfold arithmetic at made
  by_cases strange : (!l.isNumeric || !r.isNumeric) = true
  · rw [if_pos strange] at made
    cases made
  · rw [if_neg strange] at made
    cases made
    obtain ⟨code, usual, own⟩ := Fragment.Spells.join b.kind _ _ (promoted l r) operation spells spells'
    exact ⟨code, usual, own⟩

theorem division_spells {left right : Block} (kind : b.kind = .div ∨ b.kind = .mod)
    (made : s.division b left right l r = .ok f) (spells : l.Spells (s.tree first) (s.valueType first))
    (spells' : r.Spells (s.tree second) (s.valueType second)) :
    f.Spells (s.tree (.node b first second)) (s.valueType (.node b first second)) := by
  have operation : b.kind.spelling.precedence ≠ .atom := by rcases kind with kind | kind <;> rw [kind] <;> decide
  have type := promoted_type spells.type spells'.type
  have both : (l.isIntegral && r.isIntegral) =
      ((s.valueType first).any (·.isIntegral) && (s.valueType second).any (·.isIntegral)) := by
    rw [Fragment.isIntegral, Fragment.isIntegral, spells.type, spells'.type]
  have cast : Fragment.Spells { l with code := "static_cast<double>(" ++ l.code ++ ")", precedence := .access }
      (.cast (s.tree first)) l.type := ⟨Means.cast (spells.whole), Nat.zero_le 8, rfl⟩
  have truncated := Fragment.Spells.join b.kind _ _ (promoted l r) operation spells spells'
  have quotient := Fragment.Spells.join b.kind _ _ (some .double) operation cast spells'
  simp only [division] at made
  split_ifs at made with _ strange casts
  · cases made
    obtain ⟨isDiv, integral⟩ := Bool.and_eq_true_iff.mp casts
    have isDiv : b.kind = .div := of_decide_eq_true isDiv
    rw [both] at integral
    simp only [tree, valueType, isDiv, integral, if_true]
    rw [isDiv] at quotient
    exact ⟨quotient.code, quotient.usual, quotient.type⟩
  · cases made
    rcases kind with kind | kind
    · have broken : ((s.valueType first).any (·.isIntegral) && (s.valueType second).any (·.isIntegral)) = false := by
        simpa [kind, ← both] using casts
      simp only [tree, valueType, kind, broken, Bool.false_eq_true, if_false, ← type]
      rw [kind] at truncated
      exact ⟨truncated.code, truncated.usual, truncated.type⟩
    · simp only [tree, valueType, kind, ← type]
      rw [kind] at truncated
      exact ⟨truncated.code, truncated.usual, truncated.type⟩

theorem element_means {v i : Fragment} {u : Cpp.Tree} (made : element b v i = .ok f) (spells : v.Spells t type)
    (index : Means i.code 9 u) : f.Spells (.index t u) (elementType type) := by
  rw [← spells.type]
  unfold element at made
  split at made
  · next element size own =>
      split_ifs at made
      cases made
      exact ⟨Means.index (spells.within .access false (by decide)) index, Nat.zero_le 8, by rw [own]; rfl⟩
  · cases made

-- The code of an expression reads as the tree of its blocks.
theorem compiled_spells (s : Setting) {t : Term} (plain : t.blocks.all s.isPlain = true) (compiled : s.Compiles t f) :
    f.Spells (s.tree t) (s.valueType t) := by
  have within : ∀ (b : Block) (first second : Term), (Term.node b first second).blocks.all s.isPlain = true →
      s.isPlain b = true ∧ first.blocks.all s.isPlain = true ∧ second.blocks.all s.isPlain = true := by
    intro b first second plain
    simpa [Term.blocks] using plain
  induction compiled with
  | literal b first second f kind made => exact literal_spells kind (within b first second plain).1 made first second
  | reference b first second f kind made =>
    exact reference_spells kind (within b first second plain).1 made first second
  | device b first second f kind made => exact device_spells kind (within b first second plain).1 made first second
  | arithmetic b first second left right l r f kind top top' compiled compiled' made hyp hyp' =>
    obtain ⟨-, inFirst, inSecond⟩ := within b first second plain
    exact arithmetic_spells kind made (hyp inFirst) (hyp' inSecond)
  | division b first second left right l r f kind top top' compiled compiled' made hyp hyp' =>
    obtain ⟨-, inFirst, inSecond⟩ := within b first second plain
    exact division_spells kind made (hyp inFirst) (hyp' inSecond)
  | connective b first second l r f kind compiled compiled' made hyp hyp' =>
    obtain ⟨-, inFirst, inSecond⟩ := within b first second plain
    have joined :=
      Fragment.Spells.join b.kind _ _ (some .bool) (by rcases kind with kind | kind <;> rw [kind] <;> decide)
      (hyp inFirst) (hyp' inSecond)
    unfold connective at made
    split_ifs at made
    cases made
    rcases kind with kind | kind
    all_goals
      simp only [tree, valueType, kind] at joined ⊢
      exact joined
  | comparison b first second l r f kind compiled compiled' made hyp hyp' =>
    obtain ⟨-, inFirst, inSecond⟩ := within b first second plain
    have joined := Fragment.Spells.join b.kind _ _ (some .bool)
      (by rcases kind with kind | kind | kind | kind | kind <;> rw [kind] <;> decide) (hyp inFirst) (hyp' inSecond)
    unfold comparison at made
    split_ifs at made
    cases made
    rcases kind with kind | kind | kind | kind | kind
    all_goals
      simp only [tree, valueType, kind] at joined ⊢
      exact joined
  | negation b first second l f kind compiled made hyp =>
    have spells := hyp (within b first second plain).2.1
    unfold negation at made
    split_ifs at made
    cases made
    simp only [tree, valueType, kind]
    exact ⟨Means.not (spells.within .unary true (by decide)), (by decide : 1 ≤ 8), rfl⟩
  | fixedElement b first second i v f kind fixed compiled made hyp =>
    simp only [tree, valueType, kind, fixed]
    exact element_means made (hyp (within b first second plain).2.1) (index_means i)
  | element b first second v i f kind free compiled compiled' made hyp hyp' =>
    obtain ⟨-, inFirst, inSecond⟩ := within b first second plain
    simp only [tree, valueType, kind, free]
    exact element_means made (hyp inFirst) ((hyp' inSecond).whole)

end Setting

namespace Drafting

variable {g : Graph} {policy : GuardPolicy} {inHandler : Bool} {scope : Nat} {s s' : DraftState} {d : Draft}

theorem assignment_line (done : Done (assignment g policy inHandler scope b) s d s') :
    ∃ (value target : Fragment) (checks : List Check),
      Setting.Compiles ⟨g, s.scopes, scope, inHandler⟩ (g.slotTerm b .value) value ∧
      Setting.Compiles ⟨g, s.scopes, scope, inHandler⟩ (g.slotTerm b .var) target ∧
      d.pieces = checks.map
        (.guard 0) ++ [Piece.line 0 (target.code ++ " = " ++ value.within .assignment true ++ ";")] := by
  obtain ⟨value, target, compiled, compiled', -, -, rfl, -⟩ := done_assignment done
  exact ⟨value, target, _, compiled, compiled', rfl⟩

theorem output_line (done : Done (output g policy inHandler scope b) s d s') :
    ∃ (value : Fragment) (checks : List Check),
      Setting.Compiles ⟨g, s.scopes, scope, inHandler⟩ (g.slotTerm b .value) value ∧
      d.pieces = checks.map
        (.guard 0) ++ [Piece.line 0 ("std::cout << " ++ value.within .shift true ++ " << std::endl;")] := by
  obtain ⟨value, compiled, rfl, -⟩ := done_output done
  exact ⟨value, _, compiled, rfl⟩

end Drafting

theorem assigned_means {target : Fragment} {u : Cpp.Tree} {type' : Option ValueType} (spells : value.Spells t type)
    (spells' : target.Spells u type') :
    Cpp.parseStatement (target.code ++ " = " ++ value.within .assignment true ++ ";") = some (.binary "=" u t) := by
  have place := spells'.code.lift 8 spells'.usual (by decide)
  have means := Means.assign place (spells.within .assignment true (by decide))
  have spaced : target.code ++ " = " ++ value.within .assignment true =
      target.code ++ " " ++ "=" ++ " " ++ value.within .assignment true := by
    simp only [String.append_assoc]
    rfl
  rw [spaced]
  exact means.parseStatement

theorem printed_means (spells : value.Spells t type) :
    Cpp.parseStatement ("std::cout << " ++ value.within .shift true ++ " << std::endl;") =
      some (.binary "<<" (.binary "<<" (.name "std::cout") t) (.name "std::endl")) := by
  have stream := (Means.qualified "cout" (.inl rfl)).lift 4 (by decide) (by decide)
  have ending := (Means.qualified "endl" (.inr rfl)).lift 3 (by decide) (by decide)
  have shown := Means.binary "<<" _ _ 3 _ t (by decide) stream (spells.within .shift true (by decide))
  have means := Means.binary "<<" _ _ 3 _ _ (by decide) shown ending
  have spaced : "std::cout << " ++ value.within .shift true ++ " << std::endl;" =
      "std::" ++ "cout" ++ " " ++ "<<" ++ " " ++ value.within .shift true ++ " " ++ "<<" ++ " " ++
        ("std::" ++ "endl") ++ ";" := by
    simp only [String.append_assoc]
    rfl
  rw [spaced]
  exact (means.lift 9 (by decide) (by decide)).parseStatement

-- Code is read back as the blocks it was written for, also where it is assigned or printed.
theorem expressions_read_back (s : Setting) (policy : GuardPolicy) (sites : List GuardSite)
    (guards : List GuardDecision) (warnings : Diagnostics) :
    (∀ (t : Term) (absent : ProgramFault) (f : Fragment), t.blocks.all s.isPlain = true → s.compile absent t = .ok f →
      Cpp.Derives 9 (Cpp.tokens f.code) (s.tree t) ∧ Cpp.parse f.code = some (s.tree t)) ∧
    (∀ (b : Block) (d : Draft) (after : DraftState), (s.graph.slotTerm b .var).blocks.all s.isPlain = true →
      (s.graph.slotTerm b .value).blocks.all s.isPlain = true →
      Drafting.Done (Drafting.assignment s.graph policy s.inHandler s.scope b)
        ⟨s.scopes, sites, guards, warnings⟩ d after →
      ∃ (checks : List Check) (line : String), d.pieces = checks.map (.guard 0) ++ [Piece.line 0 line] ∧
        Cpp.parseStatement line =
          some (.binary "=" (s.tree (s.graph.slotTerm b .var)) (s.tree (s.graph.slotTerm b .value)))) ∧
    (∀ (b : Block) (d : Draft) (after : DraftState), (s.graph.slotTerm b .value).blocks.all s.isPlain = true →
      Drafting.Done (Drafting.output s.graph policy s.inHandler s.scope b)
        ⟨s.scopes, sites, guards, warnings⟩ d after →
      ∃ (checks : List Check) (line : String), d.pieces = checks.map (.guard 0) ++ [Piece.line 0 line] ∧
        Cpp.parseStatement line =
          some (.binary "<<" (.binary "<<" (.name "std::cout") (s.tree (s.graph.slotTerm b .value)))
            (.name "std::endl"))) := by
  refine ⟨?_, ?_, ?_⟩
  · intro t absent f plain made
    have means := (s.compiled_spells plain (s.compile_compiles absent f made)).whole
    exact ⟨means.derives_whole, means.parse⟩
  · intro b d after plain plain' done
    obtain ⟨value, target, checks, compiled, compiled', pieces⟩ := Drafting.assignment_line done
    exact ⟨checks, _, pieces, assigned_means (s.compiled_spells plain' compiled)
      (s.compiled_spells plain compiled')⟩
  · intro b d after plain done
    obtain ⟨value, checks, compiled, pieces⟩ := Drafting.output_line done
    exact ⟨checks, _, pieces, printed_means (s.compiled_spells plain compiled)⟩

def differencesShown : Block := { id := 3, kind := .print, slots := [(.value, 4)] }

def differencesSet : Block := { id := 9, kind := .assign, slots := [(.var, 10), (.value, 11)] }

def differences : Graph :=
  let reference (id decl : Nat) (name : String) : Block := { id, kind := .varRef, name, decl }
  let operation (id : Nat) (kind : Kind) (left right : Nat) : Block :=
    { id, kind, slots := [(.left, left), (.right, right)] }
  { blocks :=
      #[{ id := 1, kind := .variableDecl, name := "a", type := some .int },
        { id := 2, kind := .variableDecl, name := "b", type := some .int },
        differencesShown, operation 4 .div 5 6, reference 5 1 "a", operation 6 .sub 7 8,
        reference 7 2 "b", { id := 8, kind := .literal, payload := .number (.finite (-3)) },
        differencesSet, reference 10 1 "a", operation 11 .sub 12 13,
        reference 12 2 "b", operation 13 .sub 14 15, reference 14 1 "a", reference 15 2 "b"] }

def differencesSetting : Setting := ⟨differences, #[{ parent := none, declared := [1, 2] }], 0, false⟩

theorem differences_read_back :
    (∃ f, differencesSetting.compile .noStart (differences.term 4) = .ok f ∧ Cpp.parse f.code =
      some (.binary "/" (.cast (.name "a"))
        (.binary "-" (.name "b") (.negative (.literal (numberCode (.finite 3) .int)))))) ∧
    (∃ d after, Drafting.Done (Drafting.assignment differences .always false 0 differencesSet)
      ⟨differencesSetting.scopes, [], [], []⟩ d after ∧
      ∃ checks line, d.pieces = List.map (.guard 0) checks ++ [Piece.line 0 line] ∧
        Cpp.parseStatement line = some
          (.binary "=" (.name "a") (.binary "-" (.name "b") (.binary "-" (.name "a") (.name "b"))))) ∧
    (∃ d after, Drafting.Done (Drafting.output differences .always false 0 differencesShown)
      ⟨differencesSetting.scopes, [], [], []⟩ d after ∧
      ∃ checks line, d.pieces = List.map (.guard 0) checks ++ [Piece.line 0 line] ∧
        Cpp.parseStatement line =
          some (.binary "<<"
            (.binary "<<" (.name "std::cout")
              (.binary "/" (.cast (.name "a"))
                (.binary "-" (.name "b") (.negative (.literal (numberCode (.finite 3) .int))))))
            (.name "std::endl"))) := by
  obtain ⟨expression, assigned, printed⟩ := expressions_read_back differencesSetting .always [] [] []
  have sets : ∃ d after, Drafting.Done (Drafting.assignment differences .always false 0 differencesSet)
      ⟨differencesSetting.scopes, [], [], []⟩ d after := ⟨_, _, rfl⟩
  have shows : ∃ d after, Drafting.Done (Drafting.output differences .always false 0 differencesShown)
      ⟨differencesSetting.scopes, [], [], []⟩ d after := ⟨_, _, rfl⟩
  obtain ⟨d, after, done⟩ := sets
  obtain ⟨d', after', done'⟩ := shows
  refine ⟨⟨_, rfl, (expression (differences.term 4) .noStart _ (by decide) rfl).2⟩, ⟨d, after, done, ?_⟩, d',
    after', done', ?_⟩
  · exact assigned differencesSet d after (by decide) (by decide) done
  · exact printed differencesShown d' after' (by decide) done'

end Blockwork
