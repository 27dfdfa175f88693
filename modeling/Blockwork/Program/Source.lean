import Blockwork.Document.Load
import Blockwork.Program.Compile

set_option autoImplicit false

namespace Blockwork

def compileText (text : String) (o : CompileOptions) : Compilation :=
  match Document.load text with
  | .error fault => .ofFailure fault.failure
  | .ok g => g.compile o

def compileTextEvents (text : String) (o : CompileOptions) : List Event :=
  Event.phaseStarted "load" ::
    match Document.load text with
    | .error _ => []
    | .ok g =>
      .phaseCompleted "load" [.attr "nodes" (.count g.size), .attr "handlers" (.count g.handlers.length)] ::
        g.compileEvents o

end Blockwork
