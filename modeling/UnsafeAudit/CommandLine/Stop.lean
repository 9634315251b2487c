import UnsafeAudit.CommandLine.Arguments
import UnsafeAudit.Config.Load
import UnsafeAudit.Text.Markup

/-!
# Stops

A command that does not finish stops for a reason, which has an exit code. The
reason is told to the user in a message with markup; a message that cannot be
shown for its markup is a reason of its own.
-/

namespace UnsafeAudit.CommandLine

inductive Stop
  | usage (e : UsageError)
  | failed (e : AuditError)
  | aborted (reason : String)
  | crashed (fault : Fault)
  | unshown (e : Text.Markup.Unmatched)
  deriving DecidableEq, Repr

namespace Stop

def exitCode : Stop → Nat
  | .usage _ => 2
  | .failed e => e.exitCode
  | .aborted _ | .crashed _ | .unshown _ => 1

def message : Stop → String
  | .usage e => e.message
  | .failed e => e.message
  | .aborted reason => reason
  | .crashed fault => fault.message
  | .unshown e => e.message

def told (stop : Stop) : Stop :=
  match Text.Markup.check s!"[red]Error:[/red] {stop.message}" with
  | .ok () => stop
  | .error e => .unshown e

end Stop

/-- Whether a fault lies in what the user named: a file that is missing or a value that is not
allowed. -/
def isInputFault : Fault → Bool
  | .os e => e.cause = .noSuchFile
  | .unresolved (.refused e) => e.cause = .noSuchFile
  | .unresolved .nullName => true
  | .undecodable _ | .invalid _ | .badValue _ => true
  | _ => false

namespace Stop

def ofFailure : Failure → Stop
  | .audit e => told (.failed e)
  | .fault fault => if isInputFault fault then told (.aborted fault.message) else .crashed fault

def ofConfigError : ConfigError → Stop
  | .unanswered e => .crashed (.os e)
  | e => told (.aborted e.message)

end Stop

end UnsafeAudit.CommandLine
