import Blockwork.Document.Outline

set_option autoImplicit false

namespace Blockwork

open Markup (Node NodeList EntryList)

mutual

def flowText : Node → String
  | .scalar _ s => if s.plain then s.text else Text.quoted s.text
  | .list _ items => "[" ++ ", ".intercalate (flowTexts items) ++ "]"
  | .mapping _ entries => "\x7b" ++ ", ".intercalate (flowPairs entries) ++ "\x7d"
  | .alias _ name _ => "*" ++ name

def flowTexts : NodeList → List String
  | .nil => []
  | .cons head tail => flowText head :: flowTexts tail

def flowPairs : EntryList → List String
  | .nil => []
  | .cons key value tail => (flowText key ++ ": " ++ flowText value) :: flowPairs tail

end

def hang (lines : List String) : List String :=
  match lines with
  | [] => []
  | first :: rest => ("- " ++ first) :: rest.map ("  " ++ ·)

namespace Outline

mutual

def lines : Outline → List String
  | .flow n => [flowText n]
  | .list items => itemLines items
  | .mapping entries => entryLines entries

def itemLines : OutlineList → List String
  | .nil => []
  | .cons head tail => hang head.lines ++ itemLines tail

def entryLines : OutlineEntries → List String
  | .nil => []
  | .cons key (.flow n) tail => (key ++ ": " ++ flowText n) :: entryLines tail
  | .cons key (.list items) tail => (key ++ ":") :: ((itemLines items).map ("  " ++ ·) ++ entryLines tail)
  | .cons key (.mapping entries) tail => (key ++ ":") :: ((entryLines entries).map ("  " ++ ·) ++ entryLines tail)

end

end Outline

def Graph.format (g : Graph) : String := String.join ((Outline.ofGraph g).lines.map (· ++ "\n"))

end Blockwork
