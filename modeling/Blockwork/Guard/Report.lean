import Blockwork.Guard.Site

set_option autoImplicit false

namespace Blockwork

structure GuardSummary where
  proven : Nat := 0
  guarded : Nat := 0
  errors : Nat := 0
deriving DecidableEq, Repr, Inhabited

namespace GuardSummary

def total (s : GuardSummary) : Nat := s.proven + s.guarded + s.errors

def count (s : GuardSummary) (d : GuardDecision) : GuardSummary :=
  match d.status with
  | .proven => { s with proven := s.proven + 1 }
  | .error => { s with errors := s.errors + 1 }
  | _ => { s with guarded := s.guarded + 1 }

def of (ds : List GuardDecision) : GuardSummary := ds.foldl count {}

end GuardSummary

namespace GuardReport

def worst (ds : List GuardDecision) : GuardStatus :=
  ds.foldl (fun w d => if w.rank < d.status.rank then d.status else w) .proven

def padRight (width : Nat) (s : String) : String := s ++ String.ofList (List.replicate (width - s.length) ' ')

def entry (d : GuardDecision) : List String :=
  let site := padRight 32 s!"#{d.site.block} {d.site.kind.name} {d.site.operand}"
  let head := s!"  {site} {Text.upper d.status.name}"
  if d.reason.isEmpty then [head] else [head, s!"      {d.reason}"]

def status (s : GuardSummary) : String :=
  if s.proven = s.total then s!"Status: all {s.total} guards proven and elided"
  else s!"Status: {s.proven} of {s.total} guards proven and elided"

def format (ds : List GuardDecision) : String :=
  if ds.isEmpty then ""
  else
    let lines :=
      ["Guard Verification Report", "=========================", ""] ++ ds.flatMap entry ++
        ["", status (.of ds)]
    String.join (lines.map (· ++ "\n"))

end GuardReport

end Blockwork
