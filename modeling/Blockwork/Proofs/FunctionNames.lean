import Blockwork.Document.Load
import Blockwork.Proofs.GuardRemoval

set_option autoImplicit false

namespace Blockwork

open List

namespace Cpp

structure FunctionDef (β : Type) where
  type : String
  name : String
  body : β

namespace FunctionDef

def map {β γ : Type} (f : β → γ) (x : FunctionDef β) : FunctionDef γ := ⟨x.type, x.name, f x.body⟩

def signature {β : Type} (x : FunctionDef β) : String × String := (x.type, x.name)

def lines (x : FunctionDef (List String)) : List String :=
  (x.type ++ " " ++ x.name ++ "() \x7b") :: (x.body.map ("    " ++ ·) ++ ["\x7d"])

end FunctionDef

def definitions (xs : List (FunctionDef (List String))) : List String := xs.flatMap fun x => "" :: x.lines

def callLines (names : List String) : List String := names.map (· ++ "();")

end Cpp

open Cpp

def interruptName (interrupt : String) : String := "__isr_" ++ interrupt

def numbered (name : String) (n : Nat) : String := name ++ "_" ++ toString n

-- The functions of an interrupt with so many handlers: that of its only handler, or one for each of them and one that
-- calls them in turn.
def interruptSignatures (interrupt : String) (n : Nat) : List (String × String) :=
  (if n = 1 then [] else (List.range n).map fun k => ("static void", interruptName (numbered interrupt k))) ++
    [("void", interruptName interrupt)]

theorem places_range {α : Type} (xs : List α) : xs.zipIdx.map Prod.snd = List.range xs.length := by
  rw [zipIdx_map_snd, range_eq_range']

section

variable {α β γ : Type} (own : α → β) (calls : List String → β) (interrupt : String)

def interruptFunctions (handlers : List α) : List (FunctionDef β) :=
  if handlers.length = 1 then handlers.map fun h => ⟨"void", interruptName interrupt, own h⟩
  else
    handlers.zipIdx.map (fun h => ⟨"static void", interruptName (numbered interrupt h.2), own h.1⟩) ++
      [⟨"void", interruptName interrupt,
        calls ((List.range handlers.length).map fun k => interruptName (numbered interrupt k))⟩]

theorem interrupt_functions_map (f : β → γ) (handlers : List α) :
    (interruptFunctions own calls interrupt handlers).map (·.map f) =
      interruptFunctions (f ∘ own) (f ∘ calls) interrupt handlers := by
  unfold interruptFunctions
  split_ifs <;> simp [FunctionDef.map, Function.comp_def]

theorem interrupt_functions_own (handlers : List α) :
    interruptFunctions own calls interrupt handlers = interruptFunctions id calls interrupt (handlers.map own) := by
  simp [interruptFunctions, zipIdx_map, Function.comp_def]

theorem interrupt_functions_signatures (handlers : List α) :
    (interruptFunctions own calls interrupt handlers).map (·.signature) =
      interruptSignatures interrupt handlers.length := by
  unfold interruptFunctions interruptSignatures
  split_ifs with single
  · obtain ⟨h, rfl⟩ := length_eq_one_iff.mp single
    rfl
  · simp only [← places_range handlers, map_append, map_map]
    rfl

end

theorem function_lines_text (type name : String) (body : List String) :
    functionLines (type ++ " " ++ name) body = (FunctionDef.mk type name body).lines ++ [""] := by
  simp [functionLines, FunctionDef.lines]

theorem interrupt_lines_text (interrupt : String) (bodies : List (List String)) :
    interruptLines interrupt bodies = (interruptFunctions id callLines interrupt bodies).flatMap fun x =>
      x.lines ++ [""] := by
  have whole : functionLines s!"void __isr_{interrupt}" = functionLines ("void" ++ " " ++ interruptName interrupt) := by
    simp [interruptName, toString, ← String.append_assoc]
  have part : ∀ k : Nat, functionLines s!"static void __isr_{interrupt}_{k}" =
      functionLines ("static void" ++ " " ++ interruptName (numbered interrupt k)) := by
    intro k
    simp [interruptName, numbered, toString, ← String.append_assoc]
  have call : ∀ k : Nat, s!"__isr_{interrupt}_{k}();" = interruptName (numbered interrupt k) ++ "();" := by
    intro k
    simp [interruptName, numbered, toString, ← String.append_assoc]
  unfold interruptFunctions
  split_ifs with single
  · obtain ⟨body, rfl⟩ := length_eq_one_iff.mp single
    rw [interruptLines, whole, function_lines_text]
    simp
  · have several : interruptLines interrupt bodies =
        (bodies.zipIdx.flatMap fun x => functionLines s!"static void __isr_{interrupt}_{x.2}" x.1) ++
          functionLines s!"void __isr_{interrupt}" (bodies.zipIdx.map fun x => s!"__isr_{interrupt}_{x.2}();") :=
      interruptLines.eq_2 interrupt bodies fun body only => single (by rw [only, length_singleton])
    have places : (bodies.zipIdx.map fun x => interruptName (numbered interrupt x.2) ++ "();") =
        callLines ((List.range bodies.length).map fun k => interruptName (numbered interrupt k)) := by
      rw [← places_range, callLines, map_map, map_map]
      rfl
    simp only [several, whole, part, call, places, function_lines_text]
    simp [flatMap_map]

namespace ProgramDraft

def functions (d : ProgramDraft) : List (FunctionDef (List String)) :=
  d.interrupts.flatMap (fun i => interruptFunctions Draft.lines callLines i (d.attachedTo i)) ++
    [⟨"int", "main", d.main.lines ++ ["return 0;"]⟩]

theorem main_functions (devices : List Device) (d : ProgramDraft) :
    d.mainText devices = textOfLines
      ((Header.systemNames d.headers).map (fun name => s!"#include <{name}>") ++
        (Header.bundledNames d.headers).map (fun name => s!"#include \"lib/{name}.h\"") ++
        (if includesDevices devices d.interrupts then [s!"#include \"{devicesHeader}\""] else []) ++
        definitions d.functions) := by
  -- the empty line behind each definition is the one before the next
  have shift : ∀ (xs : List (FunctionDef (List String))) (last : List String),
      "" :: (xs.flatMap (fun x => x.lines ++ [""]) ++ last) = definitions xs ++ "" :: last := by
    intro xs last
    induction xs with
    | nil => rfl
    | cons x xs hyp => simpa [definitions] using hyp
  have handlers : ∀ i, interruptLines i ((d.attachedTo i).map Draft.lines) =
      (interruptFunctions Draft.lines callLines i (d.attachedTo i)).flatMap fun x => x.lines ++ [""] := by
    intro i
    rw [interrupt_lines_text, interrupt_functions_own Draft.lines]
  have split := shift (d.interrupts.flatMap fun i => interruptFunctions Draft.lines callLines i (d.attachedTo i))
    (FunctionDef.mk "int" "main" (d.main.lines ++ ["return 0;"])).lines
  have parts : definitions d.functions = definitions (d.interrupts.flatMap fun i =>
      interruptFunctions Draft.lines callLines i (d.attachedTo i)) ++
        "" :: (FunctionDef.mk "int" "main" (d.main.lines ++ ["return 0;"])).lines := by
    simp [functions, definitions]
  rw [parts, ← split]
  simp [mainText, handlers, FunctionDef.lines, flatMap_assoc]

end ProgramDraft

namespace Graph

variable (g : Graph)

-- The interrupt that starts a handler; one with a condition of its own is polled.
def interruptOf (id : BlockId) : String :=
  match (g.block? id).bind (g.slotBlock? · .cond) with
  | some trigger => if trigger.kind = .interrupt then trigger.name else tickName
  | none => tickName

def startedBy : List String := g.handlers.map g.interruptOf

def signatures : List (String × String) :=
  g.startedBy.eraseDups.flatMap (fun i => interruptSignatures i (g.startedBy.count i)) ++ [("int", "main")]

theorem written_started {ids : List BlockId} {hs : List HandlerDraft} {checks : List Check}
    (written : WrittenHandlers g ids hs checks) :
    hs.map (·.interrupt) = ids.map g.interruptOf := by
  induction written with
  | nil => rfl
  | cons id rest b h hs checks checks' found first later hyp =>
    rw [map_cons, map_cons, hyp]
    congr 1
    cases first with
    | attached trigger body checks kind waits interrupt inner =>
      rw [interruptOf, found, Option.bind_some, waits]
      exact (if_pos interrupt).symm
    | polled trigger cond body checks kind waits other compiled inner =>
      rw [interruptOf, found, Option.bind_some, waits]
      exact (if_neg other).symm

variable {d : ProgramDraft} {state : DraftState}

theorem draft_started (drafted : g.draft = (.ok d, state)) : d.handlers.map (·.interrupt) = g.startedBy := by
  obtain ⟨-, -, checks, -, -, handlers, -⟩ := Drafting.done_program drafted
  exact g.written_started handlers

theorem draft_signatures (drafted : g.draft = (.ok d, state)) (keep : GuardSite → Bool) :
    (d.keeping keep).functions.map (·.signature) = g.signatures := by
  have started := g.draft_started drafted
  have many : ∀ i, ((d.keeping keep).attachedTo i).length = g.startedBy.count i := by
    intro i
    rw [d.attached_keeping, length_map, ProgramDraft.attachedTo, length_map, ← started, count_eq_length_filter,
      filter_map, length_map]
    congr 1
  rw [ProgramDraft.functions, signatures, map_append, map_flatMap, d.interrupts_keeping,
    ProgramDraft.interrupts, started]
  simp only [interrupt_functions_signatures, many]
  rfl

end Graph

theorem generated_functions {g : Graph} (P : GuardPolicy) {p : Program} (made : g.generate P = .ok p) :
    ∃ d state, g.draft = (.ok d, state) ∧ p.main = textOfLines
      (p.includes ++ definitions (d.keeping fun site => (P g site).emit).functions) := by
  rcases drafted : g.draft with ⟨fault | d, state⟩
  · rw [g.generate_draft, drafted] at made
    cases made
  · rw [g.generate_draft, drafted] at made
    cases made
    exact ⟨d, state, rfl, ProgramDraft.main_functions g.devices _⟩

theorem numbered_injective {i j : String} {k l : Nat} (same : numbered i k = numbered j l) : i = j ∧ k = l := by
  have digits : ∀ n : Nat, '_' ∉ (toString n).toList := by
    intro n mem
    rw [Nat.toString_eq_ofList_toDigits, String.toList_ofList] at mem
    have digit := Nat.isDigit_of_mem_toDigits (by decide) (by decide) mem
    cases digit
  have chars : i.toList ++ '_' :: (toString k).toList = j.toList ++ '_' :: (toString l).toList := by
    have whole := congrArg String.toList same
    simp only [numbered, String.toList_append, append_assoc] at whole
    exact whole
  have parts : i.toList = j.toList ∧ (toString k).toList = (toString l).toList := by
    rcases append_eq_append_iff.mp chars with ⟨between, longer, rest⟩ | ⟨between, longer, rest⟩
    · cases between with
      | nil => exact ⟨by simpa using longer.symm, (List.cons.inj rest).2⟩
      | cons c between => exact absurd ((List.cons.inj rest).2 ▸ by simp) (digits k)
    · cases between with
      | nil => exact ⟨by simpa using longer, (List.cons.inj rest).2.symm⟩
      | cons c between => exact absurd ((List.cons.inj rest).2 ▸ by simp) (digits l)
  refine ⟨String.toList_injective parts.1, ?_⟩
  have value := congrArg (fun ds => Nat.ofDigitChars 10 ds 0) parts.2
  simpa [Nat.toString_eq_ofList_toDigits] using value

theorem numbered_longer (i : String) (k : Nat) : numbered i k ≠ i := by
  intro same
  have length := congrArg String.length same
  have one : "_".length = 1 := rfl
  rw [numbered, String.length_append, String.length_append, one] at length
  omega

-- How the names of the functions of an interrupt go on, one of all that start handlers.
def nameEndings (started : List String) (i : String) : List String :=
  (if started.count i = 1 then [] else (List.range (started.count i)).map (numbered i)) ++ [i]

-- No interrupt is named like one of several handlers of an interrupt.
def NamedApart (started : List String) : Prop :=
  ∀ i k, 2 ≤ started.count i → k < started.count i → numbered i k ∉ started

theorem mem_endings {started : List String} (i name : String) (used : i ∈ started) :
    name ∈ nameEndings started i ↔ name = i ∨ 2 ≤ started.count i ∧ ∃ k < started.count i, name = numbered i k := by
  have some_ := count_pos_iff.mpr used
  rw [nameEndings, mem_append, mem_singleton, or_comm]
  refine or_congr_right ?_
  split_ifs with single
  · simp [single]
  · have several : 2 ≤ started.count i := by omega
    simp [several, eq_comm]

theorem endings_nodup (started : List String) :
    (started.eraseDups.flatMap (nameEndings started)).Nodup ↔ NamedApart started := by
  rw [nodup_flatMap]
  constructor
  · rintro ⟨-, apart⟩ i k several below taken
    have used : i ∈ started := count_pos_iff.mp (by omega)
    have symmetric : Std.Symm (Function.onFun List.Disjoint (nameEndings started)) := ⟨fun _ _ => List.Disjoint.symm⟩
    exact apart.forall (mem_eraseDups.mpr used) (mem_eraseDups.mpr taken) (numbered_longer i k).symm
      ((mem_endings i _ used).mpr (.inr ⟨several, k, below, rfl⟩))
      ((mem_endings _ _ taken).mpr (.inl rfl))
  · intro apart
    constructor
    · intro i _
      unfold nameEndings
      split_ifs
      · exact nodup_singleton i
      · refine nodup_append.mpr ⟨nodup_range.map fun k l same => (numbered_injective same).2,
          nodup_singleton i, ?_⟩
        intro name mem last own
        obtain ⟨k, -, rfl⟩ := mem_map.mp mem
        exact fun same => numbered_longer i k (same.trans (mem_singleton.mp own))
    · refine (nodup_erase_dups started).imp_of_mem fun {i j} used used' different => ?_
      have used := mem_eraseDups.mp used
      have used' := mem_eraseDups.mp used'
      intro name mem mem'
      rcases (mem_endings i name used).mp mem with rfl | ⟨several, k, below, rfl⟩
      · rcases (mem_endings j _ used').mp mem' with rfl | ⟨several, k, below, rfl⟩
        · exact different rfl
        · exact apart j k several below used
      · rcases (mem_endings j _ used').mp mem' with same | ⟨-, l, -, same⟩
        · exact apart i k several below (same ▸ used')
        · exact different (numbered_injective same).1

theorem Graph.names_nodup (g : Graph) : (g.signatures.map Prod.snd).Nodup ↔ NamedApart g.startedBy := by
  have names : g.signatures.map Prod.snd = (g.startedBy.eraseDups.flatMap (nameEndings g.startedBy)).map
      interruptName ++ ["main"] := by
    rw [signatures, map_append, map_flatMap, map_flatMap]
    congr 1
    refine flatMap_congr fun i _ => ?_
    rw [interruptSignatures, nameEndings]
    split_ifs <;> simp [Function.comp_def]
  have begins : ∀ name, interruptName name ≠ "main" := by
    intro name same
    have first := congrArg (·.toList.head?) same
    simp [interruptName] at first
  have injective : Function.Injective interruptName := by
    intro name name' same
    have chars := congrArg String.toList same
    simp only [interruptName, String.toList_append] at chars
    exact String.toList_injective (append_cancel_left chars)
  rw [← endings_nodup, names, nodup_append, nodup_map_iff injective]
  constructor
  · exact fun parts => parts.1
  · intro distinct
    refine ⟨distinct, nodup_singleton _, ?_⟩
    intro name mem last own
    obtain ⟨ending, -, rfl⟩ := mem_map.mp mem
    rw [mem_singleton.mp own]
    exact begins ending

-- The functions that the program defines have different names exactly if no interrupt is named like one of several
-- handlers of an interrupt.
theorem function_names_distinct (g : Graph) (P : GuardPolicy) (p : Program) (made : g.generate P = .ok p) :
    ∃ functions : List (FunctionDef (List String)), p.main = textOfLines (p.includes ++ definitions functions) ∧
      functions.map (·.signature) = g.signatures ∧
        ((functions.map (·.name)).Nodup ↔
          ∀ i k, 2 ≤ g.startedBy.count i → k < g.startedBy.count i → s!"{i}_{k}" ∉ g.startedBy) := by
  obtain ⟨d, state, drafted, text⟩ := generated_functions P made
  have signatures := g.draft_signatures drafted fun site => (P g site).emit
  have names := g.names_nodup
  rw [← signatures, map_map] at names
  exact ⟨_, text, signatures, names⟩

def apartText : String :=
  "devices: [\x7bname: t, type: int\x7d]\nmain: []\nhandlers:\n- when: \x7binterrupt: key\x7d\n" ++
    "  do: [\x7bprint: 1\x7d]\n" ++
    "- when: \x7binterrupt: key_2\x7d\n  do: [\x7bprint: 2\x7d]\n- when: \x7binterrupt: key\x7d\n" ++
    "  do: [\x7bprint: 3\x7d]\n- when: \x7bgt: [\x7bdevice: t\x7d, 9]\x7d\n  times: 2\n  do: [\x7bprint: 4\x7d]\n"

set_option maxRecDepth 10000 in
theorem apart_compiles : ∃ g p, Document.load apartText = .ok g ∧ g.generate .always = .ok p ∧
    g.startedBy = ["key", "key_2", "key", "tick"] := by
  have shown : (Document.load apartText).toOption.bind
    (fun g => (g.generate .always).toOption.map fun _ => g.startedBy) =
      some ["key", "key_2", "key", "tick"] := by decide +kernel
  obtain ⟨g, loaded, shown⟩ := Option.bind_eq_some_iff.mp shown
  obtain ⟨p, made, started⟩ := Option.map_eq_some_iff.mp shown
  exact ⟨g, p, result_ok loaded, result_ok made, started⟩

theorem apart_names_distinct : ∃ g p functions, Document.load apartText = .ok g ∧ g.generate .always = .ok p ∧
    p.main = textOfLines (p.includes ++ definitions functions) ∧
      functions.map (·.name) = ["__isr_key_0", "__isr_key_1", "__isr_key", "__isr_key_2", "__isr_tick", "main"] ∧
        (functions.map (·.name)).Nodup := by
  obtain ⟨g, p, loaded, made, started⟩ := apart_compiles
  obtain ⟨functions, text, signatures, distinct⟩ := function_names_distinct g .always p made
  have names := congrArg (List.map Prod.snd) signatures
  rw [Graph.signatures, started, map_map] at names
  refine ⟨g, p, functions, loaded, made, text, names.trans (by decide +kernel), distinct.mpr ?_⟩
  have each : ∀ i ∈ ["key", "key_2", "key", "tick"], ∀ k < ["key", "key_2", "key", "tick"].count i,
      2 ≤ ["key", "key_2", "key", "tick"].count i → s!"{i}_{k}" ∉ ["key", "key_2", "key", "tick"] := by decide +kernel
  rw [started]
  exact fun i k several below => each i (count_pos_iff.mp (by omega)) k below several

-- The second function of the name is that of an interrupt, the first one that of a handler of another.
def clashText : String :=
  "main: []\nhandlers:\n- when: \x7binterrupt: key\x7d\n  do: [\x7bprint: 1\x7d]\n" ++
    "- when: \x7binterrupt: key\x7d\n  do: [\x7bprint: 2\x7d]\n- when: \x7binterrupt: key_0\x7d\n" ++
    "  do: [\x7bprint: 3\x7d]\n"

set_option maxRecDepth 10000 in
theorem key_handler_clashes :
    ((Document.load clashText).toOption.bind fun g => (g.generate .always).toOption.map Program.main) =
      some (textOfLines (["#include <iostream>", "#include \"devices.h\""] ++ definitions
        [⟨"static void", "__isr_key_0", ["std::cout << 1 << std::endl;"]⟩,
          ⟨"static void", "__isr_key_1", ["std::cout << 2 << std::endl;"]⟩,
          ⟨"void", "__isr_key", ["__isr_key_0();", "__isr_key_1();"]⟩,
          ⟨"void", "__isr_key_0", ["std::cout << 3 << std::endl;"]⟩,
          ⟨"int", "main", ["return 0;"]⟩])) := by
  decide +kernel

end Blockwork
