import UnsafeAudit.Build.SharedContext

/-!
# Intercepted builds

What a build does to the context that it reports to: it delivers invocations
through a handle, goes on or stops when a delivery fails, may make itself
handles and give them back, and may fail in the end. Draining the context fails
unless everything was recorded and every handle given back.
-/

namespace UnsafeAudit

inductive BuildStep
  | keepHandle
  /-- The build releases a handle that it made. They are numbered in the order in which it made
  them. -/
  | giveBack (kept : Nat)
  /-- The build delivers an invocation; if that fails, it stops unless it swallows the failure. -/
  | deliver (delivery : Delivery) (swallow : Bool)
  deriving Repr

structure BuildScript where
  steps : List BuildStep
  failure : Option Failure
  deriving Repr

namespace BuildScript

def runStep (s : SharedContext) (h : Handle) : BuildStep → SharedContext × Except Failure Unit
  | .keepHandle =>
    match s.clone h with
    | .ok (s, _) => (s, .ok ())
    | .error refusal => (s, .error (.audit (.contextOwnership refusal)))
  | .giveBack kept => (s.release (h + 1 + kept), .ok ())
  | .deliver delivery swallow =>
    let (s, result) := s.record h delivery
    (s, if swallow then .ok () else result)

def runSteps (s : SharedContext) (h : Handle) :
    List BuildStep → SharedContext × Except Failure Unit
  | [] => (s, .ok ())
  | step :: rest =>
    match runStep s h step with
    | (s, .ok ()) => runSteps s h rest
    | (s, .error e) => (s, .error e)

def run (script : BuildScript) (s : SharedContext) (h : Handle) :
    SharedContext × Except Failure Unit :=
  match runSteps s h script.steps, script.failure with
  | (s, .ok ()), some e => (s, .error e)
  | done, _ => done

end BuildScript

/-- What a build that has given back its own handle leaves: the context, or its failure. A fault of
the build is taken for a failed recording if one has poisoned the context. -/
def SharedContext.conclude (s : SharedContext) :
    Except Failure Unit → Except Failure BuildContext
  | .ok () => (s.intoInner firstHandle).2.mapError .audit
  | .error (.audit e) => .error (.audit e)
  | .error (.fault fault) =>
    if s.isPoisoned then .error (.audit (.recordingFailed fault.quotedText))
    else .error (.fault fault)

def BuildScript.context (script : BuildScript) : Except Failure BuildContext :=
  let s := SharedContext.new
  match s.clone SharedContext.firstHandle with
  | .error refusal => .error (.audit (.contextOwnership refusal))
  | .ok (s, h) =>
    let (s, result) := script.run s h
    (s.release h).conclude result

end UnsafeAudit
