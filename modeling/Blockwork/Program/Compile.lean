import Blockwork.Guard.Prover
import Blockwork.Guard.Report
import Blockwork.Program.Output

set_option autoImplicit false

namespace Blockwork

structure Program where
  main : String
  header : String
  requires : List String
  libraries : List String
  interrupts : List String
  devices : List Device
  guards : List GuardDecision
  scopes : Scopes
  warnings : Diagnostics
deriving Inhabited

def Program.needsHeader (p : Program) : Bool := includesDevices p.devices p.interrupts

def ProgramDraft.program (devices : List Device) (d : ProgramDraft) (state : DraftState) : Program :=
  { main := d.mainText devices, header := headerText devices d.interrupts,
    requires := Header.systemNames d.headers, libraries := Header.bundledNames d.headers,
    interrupts := d.interrupts, devices, guards := state.guards, scopes := state.scopes,
    warnings := state.warnings }

namespace Graph

def draftUnder (g : Graph) (policy : GuardPolicy) : Except ProgramFault ProgramDraft × DraftState :=
  (Drafting.program g policy).run.run {}

def generate (g : Graph) (policy : GuardPolicy) : Except ProgramFault Program :=
  match g.draftUnder policy with
  | (.error fault, _) => .error fault
  | (.ok d, state) => .ok (d.program g.devices state)

end Graph

structure CompileOptions where
  prove : Bool := false
  rounds : Int := Solver.defaultLimit
deriving DecidableEq, Repr, Inhabited

namespace CompileOptions

def policy (o : CompileOptions) : GuardPolicy := if o.prove then Prover.decide o.rounds else .always

def events (o : CompileOptions) (g : Graph) (site : GuardSite) : List Event :=
  (if o.prove then Prover.events o.rounds g site else []) ++ [(o.policy g site).event]

end CompileOptions

structure Compilation where
  diagnostics : Diagnostics
  program : Option Program
deriving Inhabited

namespace Compilation

def failed (c : Compilation) : Bool := c.diagnostics.hasErrors

def ofFailure (f : Failure) : Compilation := ⟨[.ofFailure f], none⟩

end Compilation

namespace Graph

def compile (g : Graph) (o : CompileOptions) : Compilation :=
  match g.generate o.policy with
  | .error fault => .ofFailure fault.failure
  | .ok p => ⟨p.warnings, some p⟩

def generateEvents (g : Graph) (o : CompileOptions) : List Event :=
  (g.draftUnder o.policy).2.sites.flatMap (o.events g) ++
    match (g.draftUnder o.policy).1 with
    | .error _ => []
    | .ok d => [.handlersGrouped d.handlers.length d.interrupts.length]

def compileEvents (g : Graph) (o : CompileOptions) : List Event :=
  .phaseStarted "codegen" :: g.generateEvents o ++
    match g.generate o.policy with
    | .error fault => [.generationFailed fault.failure.message]
    | .ok p =>
      let summary := GuardSummary.of p.guards
      [.phaseCompleted "codegen"
        [.attr "guards" (.count summary.total), .attr "elided" (.count summary.proven),
          .attr "isrs" (.count p.interrupts.length)]]

def check (g : Graph) : Diagnostics := (g.compile {}).diagnostics

end Graph

end Blockwork
