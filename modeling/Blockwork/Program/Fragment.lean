import Blockwork.Block.Scope
import Blockwork.Block.Tree
import Blockwork.Guard.Site
import Blockwork.Program.Fault
import Blockwork.Program.Precedence
import Blockwork.Text.Quoted

set_option autoImplicit false

namespace Blockwork

inductive Header where
  | system (name : String)
  | bundled (name : String)
deriving DecidableEq, Repr, Inhabited

structure Check where
  lines : List String
  headers : List Header
  site : GuardSite
deriving DecidableEq, Repr, Inhabited

structure Fragment where
  code : String
  precedence : Precedence := .atom
  checks : List Check := []
  assignable : Bool := false
  type : Option ValueType
deriving Inhabited

namespace Fragment

def within (f : Fragment) (outer : Precedence) (onRight : Bool) : String :=
  if f.precedence.needsParentheses outer onRight then "(" ++ f.code ++ ")" else f.code

def isNumeric (f : Fragment) : Bool := f.type.any (·.isNumeric)

def isIntegral (f : Fragment) : Bool := f.type.any (·.isIntegral)

def join (op : OperatorSpelling) (l r : Fragment) (type : Option ValueType) : Fragment :=
  { code := l.within op.precedence false ++ " " ++ op.code ++ " " ++ r.within op.precedence true,
    precedence := op.precedence, checks := l.checks ++ r.checks, type }

end Fragment

structure Setting where
  graph : Graph
  scopes : Scopes
  scope : Nat
  inHandler : Bool

def numberCode (v : Number) (type : ValueType) : String :=
  let s := v.plainText
  if type.isIntegral then s
  else
    let s := if s.contains '.' then s else s ++ ".0"
    if type = .float then s ++ "f" else s

def guardLines (inHandler : Bool) (cond message : String) : List String :=
  ["if (" ++ cond ++ ") \x7b",
    "    std::cerr << " ++ message ++ " << std::endl;",
    if inHandler then "    return;" else "    return 1;",
    "\x7d"]

def valueCode (name : String) (type : Option ValueType) : String :=
  if type = some .byte then "(int)" ++ name else name

namespace Setting

def checkedDecl? (s : Setting) (b : Block) : Option Block :=
  if b.kind ≠ .varRef then none
  else (s.graph.decl? b).bind fun d => if d.kind = .variableDecl ∧ d.checked then some d else none

end Setting

inductive Partner where
  | literal (v : Number)
  | reference (type : Option ValueType)

structure Guardable where
  decl : Block
  onLeft : Bool
  other : String
  partner : Partner

namespace Guardable

-- A guarded operation has a checked variable beside a number or another reference. The left operand is the
-- checked variable if it can be.
def of? (s : Setting) (left right : Block) (l r : Fragment) : Option Guardable :=
  let literal? (b : Block) := if b.kind = .literal then b.number? else none
  match s.checkedDecl? left, literal? right with
  | some d, some v => some ⟨d, true, r.code, .literal v⟩
  | some d, none => if right.isReference then some ⟨d, true, r.code, .reference r.type⟩ else none
  | none, _ =>
    match s.checkedDecl? right, literal? left with
    | some d, some v => some ⟨d, false, l.code, .literal v⟩
    | some d, none => if left.isReference then some ⟨d, false, l.code, .reference l.type⟩ else none
    | none, _ => none

def condition (w : Guardable) (isSum : Bool) (type : ValueType) : String :=
  let x := w.decl.name
  let family := (if isSum then "lellib::addition<" else "lellib::subtraction<") ++ type.code ++ ">::"
  let bound (relation name : String) (v : Number) :=
    x ++ relation ++ family ++ name ++ "<" ++ numberCode v type ++ ">()"
  let overflows (l r : String) := "!" ++ family ++ "safe(" ++ l ++ ", " ++ r ++ ")"
  match w.partner, isSum with
  | .reference _, true => overflows x w.other
  | .literal v, true =>
    if !type.isIntegral || !v.isWhole then overflows x (numberCode v type)
    else if v.lt .zero then bound " < " "minNegative" v
    else bound " > " "maxPositive" v
  | partner, false =>
    match partner, w.onLeft && type.isIntegral with
    | .literal v, true =>
      if !v.isWhole then overflows x w.other
      else if v.lt .zero then bound " > " "maxNegative" v
      else bound " < " "minPositive" v
    | _, _ => if w.onLeft then overflows x w.other else overflows w.other x

def message (w : Guardable) (isSum : Bool) (type : ValueType) : String :=
  let x := w.decl.name
  let shown := "\"Variable '" ++ x ++ "' (value \" << " ++ valueCode x (some type) ++ " << \")"
  match w.partner, isSum with
  | .reference t, true =>
    shown ++ " would overflow upon adding '" ++ w.other ++ "' (value \" << " ++ valueCode w.other t ++ " << \")\""
  | .literal v, true => shown ++ " would overflow upon adding " ++ numberCode v type ++ "\""
  | partner, false =>
    match partner, w.onLeft && type.isIntegral with
    | .literal v, true =>
      shown ++ " would overflow upon subtracting " ++
        (if v.isWhole then numberCode v type else w.other) ++ "\""
    | _, _ =>
      if w.onLeft then shown ++ " would overflow upon subtracting " ++ w.other ++ "\""
      else shown ++ " would overflow when subtracted from " ++ w.other ++ "\""

end Guardable

namespace Setting

def overflowCheck? (s : Setting) (b left right : Block) (l r : Fragment) : Option Check :=
  (Guardable.of? s left right l r).bind fun w =>
    w.decl.type.map fun type =>
      let isSum := b.kind = .add
      { lines := guardLines s.inHandler (w.condition isSum type) (w.message isSum type),
        headers := [.bundled "RangeChecks", .system "iostream"],
        site :=
          { kind := .overflow, op := b.kind, block := b.id, statement := 0, operand := w.decl.name,
            other := w.other, type := w.decl.type, left := left.id, right := right.id, repeated := false } }

def zeroCheck? (s : Setting) (b left right : Block) : Option Check :=
  (s.checkedDecl? right).map fun d =>
    let operation := if b.kind = .mod then "modulus" else "division"
    { lines :=
        guardLines s.inHandler (d.name ++ " == 0")
          ("\"Illegal " ++ operation ++ " by variable '" ++ d.name ++ "' with value 0\""),
      headers := [.system "iostream"],
      site :=
        { kind := .zeroDivisor, op := b.kind, block := b.id, statement := 0, operand := d.name, other := "",
          type := d.type, left := left.id, right := right.id, repeated := false } }

def literalType (v : Number) (type : Option ValueType) : ValueType :=
  type.getD (if v.isWhole then .int else .double)

def literal (b : Block) : Except ProgramFault Fragment :=
  match b.payload with
  | .number v =>
    let type := literalType v b.type
    if !type.isNumeric then .error (b.fault (.literalType v type))
    else if type.isIntegral && !v.isWhole then .error (b.fault (.literalFraction v))
    else .ok { code := numberCode v type, precedence := .unary, type := some type }
  | .text t =>
    match t.toList with
    | [c] =>
      if b.type = some .byte ∧ c.toNat < 128 then .ok { code := Text.quotedChar c, type := some .byte }
      else .ok { code := Text.quoted t, type := some .string }
    | _ => .ok { code := Text.quoted t, type := some .string }
  | .truth t => .ok { code := if t then "true" else "false", type := some .bool }
  | p => .error (b.fault (.strangeLiteral p.show))

def reference (s : Setting) (b : Block) : Except ProgramFault Fragment :=
  match s.scopes.lookup s.scope b.decl, s.graph.decl? b with
  | some _, some d => .ok { code := d.name, assignable := true, type := d.type }
  | _, _ => .error (b.fault (.outOfScope b.name))

def device (s : Setting) (b : Block) : Except ProgramFault Fragment :=
  match s.graph.device? b.name with
  | some d => .ok { code := d.name, type := d.type }
  | none => .error (b.fault (.undeclaredDevice b.name))

def promoted (l r : Fragment) : Option ValueType :=
  match l.type, r.type with
  | some a, some b => a.promote? b
  | _, _ => none

def arithmetic (s : Setting) (b left right : Block) (l r : Fragment) : Except ProgramFault Fragment :=
  let op := b.kind.spelling
  if !l.isNumeric || !r.isNumeric then .error (b.fault (.needsNumbers op.symbol))
  else
    let whole := Fragment.join op l r (promoted l r)
    let check := if b.kind = .mult then none else s.overflowCheck? b left right l r
    .ok { whole with checks := whole.checks ++ check.toList }

-- A quotient or remainder. The quotient of integers is not an integer.
def division (s : Setting) (b left right : Block) (l r : Fragment) : Except ProgramFault Fragment :=
  let op := b.kind.spelling
  let integral := l.isIntegral && r.isIntegral
  if !l.isNumeric || !r.isNumeric then .error (b.fault (.needsNumbers op.symbol))
  else if b.kind = .mod && !integral then .error (b.fault (.needsIntegers op.symbol))
  else
    let whole :=
      if b.kind = .div && integral then
        Fragment.join op
          { l with code := "static_cast<double>(" ++ l.code ++ ")", precedence := .access } r (some .double)
      else Fragment.join op l r (promoted l r)
    .ok { whole with checks := whole.checks ++ (s.zeroCheck? b left right).toList }

def element (b : Block) (v i : Fragment) : Except ProgramFault Fragment :=
  match v.type with
  | some (.array type _) =>
    if !i.isIntegral then .error (b.fault .indexType)
    else
      .ok { code := v.within .access false ++ "[" ++ i.code ++ "]", precedence := .access,
            checks := v.checks ++ i.checks, assignable := v.assignable, type := some type }
  | _ => .error (b.fault .notArray)

def connective (b : Block) (l r : Fragment) : Except ProgramFault Fragment :=
  if l.type ≠ some .bool ∨ r.type ≠ some .bool then .error (b.fault (.needsTruths b.kind.spelling.symbol))
  else .ok (Fragment.join b.kind.spelling l r (some .bool))

def negation (b : Block) (f : Fragment) : Except ProgramFault Fragment :=
  if f.type ≠ some .bool then .error (b.fault .negatesNoTruth)
  else
    .ok { code := "!" ++ f.within .unary true, precedence := .unary, checks := f.checks, type := some .bool }

def comparison (b : Block) (l r : Fragment) : Except ProgramFault Fragment :=
  if !(l.isNumeric && r.isNumeric) && (l.type.isNone || l.type ≠ r.type) then
    .error (b.fault (.incomparable l.type r.type))
  else .ok (Fragment.join b.kind.spelling l r (some .bool))

def operands (noLeft noRight : ProgramFault) (first second : Term) (l r : Except ProgramFault Fragment)
    (make : Block → Block → Fragment → Fragment → Except ProgramFault Fragment) : Except ProgramFault Fragment :=
  match first.block?, second.block? with
  | none, _ => .error noLeft
  | _, none => .error noRight
  | some left, some right => do make left right (← l) (← r)

def compile (s : Setting) (absent : ProgramFault) : Term → Except ProgramFault Fragment
  | .missing => .error absent
  | .node b first second =>
    let noLeft := b.fault (.missingLeft b.kind.spelling.symbol)
    let noRight := b.fault (.missingRight b.kind.spelling.symbol)
    let both (make : Block → Block → Fragment → Fragment → Except ProgramFault Fragment) :=
      operands noLeft noRight first second (s.compile noLeft first) (s.compile noRight second) make
    match b.kind with
    | .literal => literal b
    | .varRef | .indexRef => s.reference b
    | .deviceRef => s.device b
    | .add | .sub | .mult => both (s.arithmetic b)
    | .div | .mod => both (s.division b)
    | .and | .or => both fun _ _ => connective b
    | .eq | .lt | .lte | .gt | .gte => both fun _ _ => comparison b
    | .not => do
      let f ← s.compile (b.fault .missingNegated) first
      negation b f
    | .element =>
      if first.isMissing then .error (b.fault .missingVector)
      else
        match b.litIndex with
        | some i => do
          let v ← s.compile (b.fault .missingVector) first
          element b v { code := toString i, type := some .long }
        | none =>
          if second.isMissing then .error (b.fault .missingIndex)
          else do
            let v ← s.compile (b.fault .missingVector) first
            let i ← s.compile (b.fault .missingIndex) second
            element b v i
    | .interrupt => .error (b.fault (.strayInterrupt b.name))
    | kind => .error (b.fault (.notExpression kind))

end Setting

end Blockwork
