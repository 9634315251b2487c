import UnsafeAudit.Build.Invocation
import UnsafeAudit.Failure

/-!
# The shared build context

What a build's invocations add up to is kept in one context that many workers
share. Each worker has a handle. A handle is an owner until it is released; the
context is drained by its only owner, once. Whoever holds the lock may fail: the
context is then poisoned, and nobody locks or drains it any more.

The state holds the context, the number of owners and, for each handle ever
made, whether it was released. A refused operation changes nothing.
-/

namespace UnsafeAudit

structure BuildContext where
  sourceRoots : List Path
  outDirs : List Path
  invocationCount : Nat
  deriving DecidableEq, Repr

namespace BuildContext

def empty : BuildContext := ⟨[], [], 0⟩

def addPath (paths : List Path) (path : Path) : List Path :=
  if path ∈ paths then paths else paths ++ [path]

def record (context : BuildContext) (inv : Invocation) : BuildContext :=
  ⟨inv.sourceRoots.foldl addPath context.sourceRoots,
    inv.outDir.toList.foldl addPath context.outDirs,
    context.invocationCount + 1⟩

end BuildContext

/-- An invocation as a worker delivers it: one that is recorded, or one whose recording fails
with the lock held. -/
inductive Delivery
  | invocation (inv : Invocation)
  | failing (fault : Fault)
  deriving DecidableEq, Repr

structure SharedContext where
  /-- `none` once drained. -/
  context : Option BuildContext
  owners : Nat
  /-- The fault that happened with the lock held, as messages show it. -/
  poison : Option String
  released : List Bool
  deriving DecidableEq, Repr

/-- Position of a handle in the order in which handles were made. -/
abbrev Handle := Nat

namespace SharedContext

def start (context : BuildContext) : SharedContext := ⟨some context, 1, none, [false]⟩

def new : SharedContext := start .empty

def firstHandle : Handle := 0

/-- A handle that was never made counts as released. -/
def isReleased (s : SharedContext) (h : Handle) : Bool := s.released.getD h true

def isPoisoned (s : SharedContext) : Bool := s.poison.isSome

def clone (s : SharedContext) (h : Handle) : Except HandleRefusal (SharedContext × Handle) :=
  if s.isReleased h then .error .cloneReleased
  else .ok ({ s with owners := s.owners + 1, released := s.released ++ [false] },
    s.released.length)

/-- Gives up a handle, as does the end of a block that the handle is opened for. A second release
does nothing. -/
def release (s : SharedContext) (h : Handle) : SharedContext :=
  if s.isReleased h then s
  else { s with owners := s.owners - 1, released := s.released.set h true }

def entry (s : SharedContext) (h : Handle) : Except AuditError BuildContext :=
  if s.isReleased h then .error (.contextOwnership .lockReleased)
  else match s.poison with
    | some shown => .error (.lockAbandoned shown)
    | none =>
      match s.context with
      | none => .error (.contextOwnership .drained)
      | some context => .ok context

/-- Runs `body` on the context with the lock held. A fault of the body poisons the context,
which keeps what the body did before. -/
def lock (s : SharedContext) (h : Handle) (body : BuildContext → BuildContext × Except Fault α) :
    SharedContext × Except Failure α :=
  match s.entry h with
  | .error e => (s, .error (.audit e))
  | .ok context =>
    match body context with
    | (context, .ok a) => ({ s with context := some context }, .ok a)
    | (context, .error fault) =>
      ({ s with context := some context, poison := some fault.quotedText },
        .error (.fault fault))

/-- What recording a delivery does with the lock held. A failing one has been counted. -/
def deliver (context : BuildContext) : Delivery → BuildContext × Except Fault Unit
  | .invocation inv => (context.record inv, .ok ())
  | .failing fault =>
    ({ context with invocationCount := context.invocationCount + 1 }, .error fault)

def record (s : SharedContext) (h : Handle) (delivery : Delivery) :
    SharedContext × Except Failure Unit :=
  s.lock h fun context => deliver context delivery

/-- Takes the context out. The handle must be the only owner, and is released. -/
def intoInner (s : SharedContext) (h : Handle) : SharedContext × Except AuditError BuildContext :=
  if s.isReleased h then (s, .error (.contextOwnership .drainReleased))
  else if s.owners ≠ 1 then (s, .error (.contextOwnership (.stillShared s.owners)))
  else match s.entry h with
    | .error e => (s, .error e)
    | .ok context => ({ s with context := none }.release h, .ok context)

end SharedContext

namespace BuildContext

def sorted (paths : List Path) : List String :=
  (paths.map (·.toString)).mergeSort fun a b => a ≤ b

def toJson (context : BuildContext) : Json := .obj [
  ("rs_file_args", Json.strings (sorted context.sourceRoots)),
  ("out_dir_args", Json.strings (sorted context.outDirs)),
  ("invocation_count", .nat context.invocationCount)]

end BuildContext

end UnsafeAudit
