import Blockwork.Constraint.Expr
import Blockwork.Number.Layout
import Blockwork.Text.Quoted

set_option autoImplicit false

namespace Blockwork

def Number.mathText : Number → String
  | .posInf => "∞"
  | .negInf => "-∞"
  | v => v.text

def Interval.text (i : Interval) : String :=
  let opening := if i.loExclusive || i.lo = .negInf then "(" else "["
  let closing := if i.hiExclusive || i.hi = .posInf then ")" else "]"
  s!"{opening}{i.lo.mathText}, {i.hi.mathText}{closing}"

def joinMembers (separator : String) (texts : List String) : String :=
  if texts.isEmpty then "∅" else s!"({separator.intercalate texts})"

mutual

def Expr.show : Expr → String
  | .num v => v.mathText
  | .text s => Text.quoted s
  | .ref r => r.name
  | .among s => s.show
  | .truth b => if b then "true" else "false"
  | .neg e => s!"~({e.show})"
  | .binary op l r => s!"({l.show} {op.symbol} {r.show})"

def ValueSet.show : ValueSet → String
  | .universal none => "U"
  | .universal (some t) => s!"U<{t.text}>"
  | .empty => "∅"
  | .values [v] => v.mathText
  | .values vs => "\x7b" ++ ", ".intercalate (vs.map Number.mathText) ++ "\x7d"
  | .interval i => i.text
  | .union ms => joinMembers " ∪ " (ValueSet.showAll ms)
  | .inter ms => joinMembers " ∩ " (ValueSet.showAll ms)
  | .solutions e =>
    let name := (e.firstRef?.map (·.name)).getD "_"
    "\x7b " ++ name ++ " | " ++ e.show ++ " \x7d"

def ValueSet.showAll : List ValueSet → List String
  | [] => []
  | m :: ms => m.show :: ValueSet.showAll ms

end

end Blockwork
