import Blockwork.Proofs.PolicyRuns

set_option autoImplicit false

namespace Blockwork

open Header List

inductive Passage where
  | line (text : String)
  | guard (site : GuardSite) (lines : List String)

namespace Passage

def lines (keep : GuardSite → Bool) : Passage → List String
  | .line text => [text]
  | .guard site lines => if keep site then lines else []

def further : Passage → Passage
  | .line text => .line ("    " ++ text)
  | .guard site lines => .guard site (lines.map ("    " ++ ·))

def site? : Passage → Option GuardSite
  | .line _ => none
  | .guard site _ => some site

@[simp] theorem further_line (text : String) : (Passage.line text).further = .line ("    " ++ text) := rfl

@[simp] theorem site_further (x : Passage) : x.further.site? = x.site? := by cases x <;> rfl

theorem lines_further (keep : GuardSite → Bool) (x : Passage) :
    x.further.lines keep = (x.lines keep).map ("    " ++ ·) := by
  cases x with
  | line text => rfl
  | guard site lines =>
    by_cases kept : keep site = true
    · simp [further, Passage.lines, kept]
    · simp [further, Passage.lines, kept]

end Passage

def keptLines (keep : GuardSite → Bool) (xs : List Passage) : List String := xs.flatMap (·.lines keep)

variable (keep : GuardSite → Bool)

@[simp] theorem kept_nil : keptLines keep [] = [] := rfl

@[simp] theorem kept_line (text : String) (xs : List Passage) :
    keptLines keep (.line text :: xs) = text :: keptLines keep xs := rfl

@[simp] theorem kept_append (xs ys : List Passage) :
    keptLines keep (xs ++ ys) = keptLines keep xs ++ keptLines keep ys :=
  flatMap_append

@[simp] theorem kept_lines (texts : List String) : keptLines keep (texts.map .line) = texts := by
  induction texts with
  | nil => rfl
  | cons text rest hyp => simpa using hyp

@[simp] theorem kept_further (xs : List Passage) :
    keptLines keep (xs.map (·.further)) = (keptLines keep xs).map ("    " ++ ·) := by
  simp only [keptLines, flatMap_map, map_flatMap, Passage.lines_further]

theorem kept_flat {α : Type} (f : α → List Passage) (xs : List α) :
    keptLines keep (xs.flatMap f) = xs.flatMap fun x => keptLines keep (f x) :=
  flatMap_assoc

def sitesOf (xs : List Passage) : List GuardSite := xs.filterMap (·.site?)

@[simp] theorem sites_nil : sitesOf [] = [] := rfl

@[simp] theorem sites_line (text : String) (xs : List Passage) : sitesOf (.line text :: xs) = sitesOf xs := rfl

@[simp] theorem sites_further (xs : List Passage) : sitesOf (xs.map (·.further)) = sitesOf xs := by
  rw [sitesOf, filterMap_map]
  exact filterMap_congr fun x _ => x.site_further

namespace Piece

def passage : Piece → Passage
  | .line depth text => .line (codeIndentation depth ++ text)
  | .guard depth check => .guard check.site (check.lines.map (codeIndentation depth ++ ·))

theorem lines_passage (keep : GuardSite → Bool) (x : Piece) :
    (if x.isKept keep then x.lines else []) = x.passage.lines keep := by
  cases x <;> rfl

end Piece

namespace Draft

def passages (d : Draft) : List Passage := d.pieces.map (·.passage)

theorem lines_passages (keep : GuardSite → Bool) (d : Draft) : (d.keeping keep).lines = keptLines keep d.passages := by
  rw [lines, keeping, kept_pieces_flat, keptLines, passages, flatMap_map]
  exact flatMap_congr fun x _ => x.lines_passage keep

end Draft

def functionPassages (opening : String) (body : List Passage) : List Passage :=
  .line (opening ++ "() \x7b") :: (body.map (·.further) ++ [Passage.line "\x7d", .line ""])

variable {opening : String}

theorem function_lines (body : List Passage) :
    functionLines opening (keptLines keep body) = keptLines keep (functionPassages opening body) := by
  simp [functionPassages, functionLines]

def interruptPassages (interrupt : String) (bodies : List (List Passage)) : List Passage :=
  match bodies with
  | [body] => functionPassages s!"void __isr_{interrupt}" body
  | bodies =>
    bodies.zipIdx.flatMap (fun (body, i) => functionPassages s!"static void __isr_{interrupt}_{i}" body) ++
      functionPassages s!"void __isr_{interrupt}"
        ((bodies.zipIdx.map fun (_, i) => s!"__isr_{interrupt}_{i}();").map .line)

theorem interrupt_lines (interrupt : String) (bodies : List (List Passage)) :
    interruptLines interrupt (bodies.map (keptLines keep)) = keptLines keep (interruptPassages interrupt bodies) := by
  have several : ∀ bodies : List (List Passage),
      ((bodies.map (keptLines keep)).zipIdx.flatMap fun x =>
        functionLines s!"static void __isr_{interrupt}_{x.2}" x.1) ++ functionLines s!"void __isr_{interrupt}"
          ((bodies.map (keptLines keep)).zipIdx.map fun x => s!"__isr_{interrupt}_{x.2}();") =
      keptLines keep (bodies.zipIdx.flatMap (fun x => functionPassages s!"static void __isr_{interrupt}_{x.2}" x.1) ++
        functionPassages s!"void __isr_{interrupt}"
          ((bodies.zipIdx.map fun x => s!"__isr_{interrupt}_{x.2}();").map .line)) := by
    intro bodies
    rw [kept_append, kept_flat, ← function_lines, kept_lines, zipIdx_map, flatMap_map, map_map]
    congr 1
    exact flatMap_congr fun x _ => function_lines keep x.1
  rcases bodies with _ | ⟨body, _ | ⟨second, rest⟩⟩
  · exact several []
  · exact function_lines keep body
  · exact several (body :: second :: rest)

def Program.includes (p : Program) : List String :=
  p.requires.map (fun name => s!"#include <{name}>") ++ p.libraries.map (fun name => s!"#include \"lib/{name}.h\"") ++
    if p.needsHeader then [s!"#include \"{devicesHeader}\""] else []

namespace ProgramDraft

def passages (d : ProgramDraft) : List Passage :=
  .line "" :: (d.interrupts.flatMap (fun i => interruptPassages i ((d.attachedTo i).map (·.passages))) ++
    Passage.line "int main() \x7b" ::
      ((d.main.passages ++ [Passage.line "return 0;"]).map Passage.further ++ [Passage.line "\x7d"]))

theorem attached (d : ProgramDraft) (draft : Draft) :
    (∃ i ∈ d.interrupts, draft ∈ d.attachedTo i) ↔ ∃ h ∈ d.handlers, h.draft = draft := by
  constructor
  · rintro ⟨i, -, mem⟩
    obtain ⟨h, inside, rfl⟩ := mem_map.mp mem
    exact ⟨h, (mem_filter.mp inside).1, rfl⟩
  · rintro ⟨h, mem, rfl⟩
    refine ⟨h.interrupt, ?_, ?_⟩
    · rw [interrupts, mem_eraseDups]
      exact mem_map.mpr ⟨h, mem, rfl⟩
    · exact mem_map.mpr ⟨h, mem_filter.mpr ⟨mem, decide_eq_true rfl⟩, rfl⟩

-- Handlers stay attached to what starts them, whatever guards they lose.
@[simp] theorem interrupts_keeping (keep : GuardSite → Bool) (d : ProgramDraft) :
    (d.keeping keep).interrupts = d.interrupts := by
  simp [interrupts, keeping, HandlerDraft.keeping, Function.comp_def]

theorem attached_keeping (keep : GuardSite → Bool) (d : ProgramDraft) (i : String) :
    (d.keeping keep).attachedTo i = (d.attachedTo i).map (·.keeping keep) := by
  simp [attachedTo, keeping, HandlerDraft.keeping, filter_map, Function.comp_def]

theorem main_text (keep : GuardSite → Bool) (devices : List Device) (d : ProgramDraft) :
    (d.keeping keep).mainText devices = textOfLines
      ((systemNames (d.keeping keep).headers).map (fun name => s!"#include <{name}>") ++
        (bundledNames (d.keeping keep).headers).map (fun name => s!"#include \"lib/{name}.h\"") ++
        (if includesDevices devices d.interrupts then [s!"#include \"{devicesHeader}\""] else []) ++
        keptLines keep d.passages) := by
  have handlers : ∀ i, interruptLines i ((d.attachedTo i).map fun draft => keptLines keep draft.passages) =
      keptLines keep (interruptPassages i ((d.attachedTo i).map (·.passages))) := by
    intro i
    rw [← interrupt_lines, map_map]
    rfl
  have main : (d.keeping keep).main = d.main.keeping keep := rfl
  simp [mainText, passages, handlers, kept_flat, attached_keeping, main, Draft.lines_passages, Function.comp_def]

end ProgramDraft

theorem nodup_erase_dups (xs : List String) : xs.eraseDups.Nodup := by
  induction h : xs.length using Nat.strong_induction_on generalizing xs with
  | _ n hyp =>
    cases xs with
    | nil => exact nodup_nil
    | cons x rest =>
      rw [eraseDups_cons, nodup_cons]
      refine ⟨fun again => ?_, hyp _ ?_ _ rfl⟩
      · simp at again
      · have shorter := length_filter_le (fun y => !y == x) rest
        rw [← h, length_cons]
        omega

namespace Header

variable {hs : List Header}

end Header

def GuardKind.headers : GuardKind → List Header
  | .overflow => [.bundled "RangeChecks", .system "iostream"]
  | .zeroDivisor => [.system "iostream"]

namespace Graph

variable (g : Graph)

section Drafted

variable (d : ProgramDraft) (state : DraftState) (drafted : g.draft = (.ok d, state)) (P : GuardPolicy)

include drafted

end Drafted

end Graph

end Blockwork
