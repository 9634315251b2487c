import UnsafeAudit.FileSystem.Error
import UnsafeAudit.Json.Decode
import UnsafeAudit.Path.Basic
import UnsafeAudit.Report.Pattern
import UnsafeAudit.Text.Utf8

/-!
# Failures

A failure is either one that the audit reports, with an exit code of its own,
or a fault: something that no part of the audit answers for, such as a value
of the wrong type in the input or an error of the caller's own making.
-/

namespace UnsafeAudit

inductive Fault
  | os (e : OsError)
  | unresolved (e : ResolveError)
  | undecodable (m : Text.Utf8.Malformed)
  | missingKey (shown : String)
  | wrongType
  | noAttribute
  | invalid (issues : List Issue)
  | badValue (message : String)
  /-- An error of a kind that a collaborator chose. -/
  | raised (kind message : String)
  deriving DecidableEq, Repr

def Fault.message : Fault → String
  | .os e => e.message
  | .unresolved e => e.message
  | .undecodable m => m.message
  | .missingKey shown => shown
  | .wrongType | .noAttribute => ""
  | .invalid _ => ""
  | .badValue message => message
  | .raised _ message => message

def Fault.quotedText : Fault → String
  | .raised kind message => s!"{kind}({Text.quoted message})"
  | fault => Text.quoted fault.message

def Checked.orFault (c : Checked α) : Except Fault α := c.toExcept.mapError .invalid

inductive HandleRefusal
  | cloneReleased
  | lockReleased
  | drainReleased
  | drained
  | stillShared (owners : Nat)
  deriving DecidableEq, Repr

def HandleRefusal.message : HandleRefusal → String
  | .cloneReleased => "Cannot clone a released context handle"
  | .lockReleased => "Cannot lock through a released context handle"
  | .drainReleased => "Cannot drain through a released context handle"
  | .drained => "Interceptor context was already drained"
  | .stillShared owners =>
    s!"Interceptor context still has {owners} owners; expected exactly one"

inductive MetadataError
  | noResolve
  | unparsable
  | illTyped
  | missingKey (shown : String)
  | unreadable (path : Path) (e : OsError)
  | cargoFailed (stderr : String)
  | cargoMissing (cargo : String)
  | unknownId (id : String)
  | virtualWorkspace
  | notFound (spec : String)
  | ambiguous (spec : String) (candidates : List PackageId)
  deriving DecidableEq, Repr

/-- The text of an error, up to the words of a reader of JSON or of a check of values where these
are the cause. -/
def MetadataError.message : MetadataError → String
  | .noResolve => "cargo metadata output has no resolve section (was --no-deps used?)"
  | .unparsable | .illTyped => "Invalid cargo metadata JSON"
  | .missingKey shown => s!"Invalid cargo metadata JSON: {shown}"
  | .unreadable path e => s!"Cannot read metadata file {path}: {e.message}"
  | .cargoFailed stderr => s!"cargo metadata failed:\n{stderr}"
  | .cargoMissing cargo => s!"Cargo executable not found: {cargo}"
  | .unknownId id => s!"Unknown package id in resolve: {id}"
  | .virtualWorkspace => "Manifest is a virtual workspace; select a package with --package"
  | .notFound spec => s!"Package not found: {spec}"
  | .ambiguous spec candidates =>
    let shown := Text.joinWith ", " (candidates.map fun id => s!"{id.name}@{id.version}")
    s!"Package spec {spec} is ambiguous: {shown}"

inductive AuditError
  | buildFailed (summary diagnostics : String)
  | corruptRecord (record : String) (cause : Fault)
  | contextOwnership (refusal : HandleRefusal)
  /-- The context was used after a fault while its lock was held. -/
  | lockAbandoned (shown : String)
  /-- The build itself failed after a fault while the lock was held. -/
  | recordingFailed (shown : String)
  | dependencyFile (reason : String) (path : Path)
  | pathResolution (path : Path) (cause : ResolveError)
  | directoryWalk (path : Path) (cause : OsError)
  | metadata (e : MetadataError)
  | scan (path : Path) (reason : String)
  | pattern (e : PatternError)
  /-- An error that a build driver chose to report as one of the audit's own. -/
  | reported (kind : String) (code : Nat) (text : String)
  deriving DecidableEq, Repr

namespace AuditError

/-- The text of an error. For a corrupt record it ends before the path of the record and the words
of the check that refused it. -/
def message : AuditError → String
  | .buildFailed summary diagnostics =>
    if (Text.trim diagnostics.toList).isEmpty then summary
    else s!"{summary}\n{String.ofList (Text.trimRight diagnostics.toList)}"
  | .corruptRecord _ _ => "Corrupt invocation record"
  | .contextOwnership refusal => refusal.message
  | .lockAbandoned shown => s!"Interceptor context lock was abandoned: {shown}"
  | .recordingFailed shown =>
    s!"A compiler invocation failed while holding the context lock: {shown}"
  | .dependencyFile reason path => s!"{reason} ({path})"
  | .pathResolution path cause => s!"Cannot resolve {path}: {cause.message}"
  | .directoryWalk path cause => s!"Failed to walk {path}: {cause.message}"
  | .metadata e => e.message
  | .scan path reason => s!"Failed to scan {path}: {reason}"
  | .pattern e => e.message
  | .reported _ _ text => text

def exitCode : AuditError → Nat
  | .buildFailed .. | .corruptRecord .. => 101
  | .contextOwnership _ => 102
  | .lockAbandoned _ | .recordingFailed _ => 103
  | .dependencyFile .. => 104
  | .pathResolution .. => 105
  | .directoryWalk .. => 106
  | .metadata _ => 107
  | .scan .. => 108
  | .pattern _ => 2
  | .reported _ code _ => code

end AuditError

inductive Failure
  | audit (e : AuditError)
  | fault (f : Fault)
  deriving DecidableEq, Repr

end UnsafeAudit
