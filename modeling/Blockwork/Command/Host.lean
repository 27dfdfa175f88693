import Blockwork.Files.Tree
import Blockwork.Log.Layout

set_option autoImplicit false

namespace Blockwork

class Host (m : Type → Type) where
  readFile : String → m (Except FileFault String)
  writeFile : String → String → m (Except FileFault Unit)
  appendFile : String → String → m (Except FileFault Unit)
  makeFolders : String → m (Except FileFault Unit)
  readLine : m (Option String)
  print : String → m Unit
  printError : String → m Unit
  home : m String
  clock : m String

namespace LineInput

def capacity : Nat := 4096

def fitting (bytes : Nat) : List Char → List Char
  | [] => []
  | c :: rest => if c.utf8Size ≤ bytes then c :: fitting (bytes - c.utf8Size) rest else []

def byteCount (cs : List Char) : Nat := cs.foldr (fun c n => c.utf8Size + n) 0

def endsWithReturn (cs : List Char) : Bool := cs.getLast? = some '\r'

def withoutReturn (cs : List Char) : List Char := if endsWithReturn cs then cs.dropLast else cs

def overlong (input : List Char) : Bool := capacity ≤ byteCount (input.takeWhile (· ≠ '\n'))

def take? (input : List Char) : Option (List Char × List Char) :=
  if input.isEmpty then none
  else if overlong input then
    let piece := withoutReturn (fitting capacity input)
    some (piece, input.drop piece.length)
  else
    match input.span (· ≠ '\n') with
    | (line, []) => some (line, [])
    | (line, _ :: rest) => some (withoutReturn line, rest)

def linesWithin : Nat → List Char → List String
  | 0, _ => []
  | fuel + 1, text =>
    if overlong text then []
    else
      match take? text with
      | none => []
      | some (line, rest) => String.ofList line :: linesWithin fuel rest

def lines (text : String) : List String := linesWithin (text.length + 1) text.toList

end LineInput

structure Machine where
  tree : FileTree := {}
  input : List Char := []
  output : String := ""
  errors : String := ""
  home : String := ""
  clock : String := ""
deriving Inhabited

namespace Machine

def change (f : FileTree → Except FileFault FileTree) : StateM Machine (Except FileFault Unit) :=
  fun machine =>
    match f machine.tree with
    | .ok tree => (.ok (), { machine with tree })
    | .error fault => (.error fault, machine)

def nextLine : StateM Machine (Option String) := fun machine =>
  match LineInput.take? machine.input with
  | none => (none, machine)
  | some (line, rest) => (some (String.ofList line), { machine with input := rest })

instance : Host (StateM Machine) where
  readFile path := fun machine => (machine.tree.readFile path, machine)
  writeFile path text := change (·.writeFile path text)
  appendFile path text := change (·.appendFile path text)
  makeFolders path := change (·.makeFolders path)
  readLine := nextLine
  print text := modify fun machine => { machine with output := machine.output ++ text }
  printError text := modify fun machine => { machine with errors := machine.errors ++ text }
  home := fun machine => (machine.home, machine)
  clock := fun machine => (machine.clock, machine)

end Machine

end Blockwork
