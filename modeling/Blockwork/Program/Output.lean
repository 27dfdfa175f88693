import Blockwork.Program.Draft

set_option autoImplicit false

namespace Blockwork

def codeIndentation (depth : Nat) : String := String.join (List.replicate depth "    ")

def Piece.lines : Piece → List String
  | .line depth text => [codeIndentation depth ++ text]
  | .guard depth check => check.lines.map (codeIndentation depth ++ ·)

def Piece.headers : Piece → List Header
  | .line _ _ => []
  | .guard _ check => check.headers

namespace Draft

def lines (d : Draft) : List String := d.pieces.flatMap Piece.lines

def allHeaders (d : Draft) : List Header := d.headers ++ d.pieces.flatMap Piece.headers

end Draft

def sortedNames (names : List String) : List String := names.eraseDups.mergeSort fun a b => a ≤ b

namespace Header

def systemNames (hs : List Header) : List String :=
  sortedNames (hs.filterMap fun h => match h with | .system name => some name | .bundled _ => none)

def bundledNames (hs : List Header) : List String :=
  sortedNames (hs.filterMap fun h => match h with | .bundled name => some name | .system _ => none)

end Header

namespace ProgramDraft

def headers (d : ProgramDraft) : List Header :=
  d.main.allHeaders ++ d.handlers.flatMap (·.draft.allHeaders)

def interrupts (d : ProgramDraft) : List String := (d.handlers.map (·.interrupt)).eraseDups

def attachedTo (d : ProgramDraft) (interrupt : String) : List Draft :=
  (d.handlers.filter (·.interrupt = interrupt)).map (·.draft)

end ProgramDraft

def devicesHeader : String := "devices.h"

def functionLines (opening : String) (body : List String) : List String :=
  (opening ++ "() \x7b") :: (body.map ("    " ++ ·) ++ ["\x7d", ""])

-- The function of an interrupt. Several handlers are functions of their own, so that each counts for itself.
def interruptLines (interrupt : String) (bodies : List (List String)) : List String :=
  match bodies with
  | [body] => functionLines s!"void __isr_{interrupt}" body
  | bodies =>
    bodies.zipIdx.flatMap (fun (body, i) => functionLines s!"static void __isr_{interrupt}_{i}" body) ++
      functionLines s!"void __isr_{interrupt}" (bodies.zipIdx.map fun (_, i) => s!"__isr_{interrupt}_{i}();")

def textOfLines (lines : List String) : String := String.join (lines.map (· ++ "\n"))

def includesDevices (devices : List Device) (interrupts : List String) : Bool :=
  !devices.isEmpty || !interrupts.isEmpty

def ProgramDraft.mainText (devices : List Device) (d : ProgramDraft) : String :=
  textOfLines <|
    (Header.systemNames d.headers).map (fun name => s!"#include <{name}>") ++
      (Header.bundledNames d.headers).map (fun name => s!"#include \"lib/{name}.h\"") ++
      (if includesDevices devices d.interrupts then [s!"#include \"{devicesHeader}\""] else []) ++ [""] ++
      d.interrupts.flatMap (fun i => interruptLines i ((d.attachedTo i).map (·.lines))) ++
      ["int main() \x7b"] ++ (d.main.lines ++ ["return 0;"]).map ("    " ++ ·) ++ ["\x7d"]

def capitalName (name : String) : String :=
  (Text.upper name).map fun c => if ('A' ≤ c && c ≤ 'Z') || ('0' ≤ c && c ≤ '9') then c else '_'

def headerText (devices : List Device) (interrupts : List String) : String :=
  let needed := sortedNames (devices.flatMap fun d => (d.type.map (·.headers)).getD [])
  textOfLines <|
    ["#pragma once"] ++
      (if needed.isEmpty then [] else "" :: needed.map fun name => s!"#include <{name}>") ++
      (if devices.isEmpty then []
       else "" :: devices.map fun d =>
         let type := (d.type.map (·.code)).getD ""
         s!"extern {type} {d.name};") ++
      interrupts.flatMap fun i => ["", s!"#define BLOCKC_USES_ISR_{capitalName i} 1", s!"void __isr_{i}();"]

end Blockwork
