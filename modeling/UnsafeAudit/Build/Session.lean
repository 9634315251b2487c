import UnsafeAudit.Failure
import UnsafeAudit.FileSystem.Basic

/-!
# Sessions

A session is the file system that an audit works on, the command lines that it
has run and the stages that it has announced. Programs are run through a
`Cargo`, which says what they do.
-/

namespace UnsafeAudit

inductive ProgramEnd
  | notFound
  | exited (status : Int) (output diagnostics : String)

/-- What a cargo command line does. A build is given the spool directory, where its compiler runs
leave their records. -/
abbrev Cargo := FileSystem → Option Path → List String → Except Fault (FileSystem × ProgramEnd)

inductive Stage
  | loading
  | building
  | scanning
  | rendering
  | done
  deriving DecidableEq, Repr

namespace Stage

def number : Stage → Nat
  | .loading => 0
  | .building => 1
  | .scanning => 2
  | .rendering => 3
  | .done => 4

def total : Nat := 4

def description : Stage → String
  | .loading => "Loading package graph..."
  | .building => "Building with rustc interception..."
  | .scanning => "Scanning for unsafe code..."
  | .rendering => "Rendering dependency tree..."
  | .done => "Done"

end Stage

structure Session where
  files : FileSystem
  commands : List (List String)
  stages : List Stage

/-- A part of an audit. The session outlives a failure. -/
abbrev Run := ExceptT Failure (StateM Session)

def Session.ofFiles (files : FileSystem) : Session := ⟨files, [], []⟩

namespace Run

def ofExcept (result : Except Failure α) : Run α := ExceptT.mk (pure result)

def fail (failure : Failure) : Run α := ofExcept (.error failure)

def files : Run FileSystem := do return (← get).files

def program (cargo : Cargo) (spool : Option Path) (args : List String) : Run ProgramEnd := do
  modify fun s => { s with commands := s.commands ++ [args] }
  let (files, ended) ← ofExcept ((cargo (← files) spool args).mapError .fault)
  modify fun s => { s with files }
  return ended

def announce (stage : Stage) : Run Unit :=
  modify fun s => { s with stages := s.stages ++ [stage] }

@[simp] theorem run_announce (stage : Stage) (s : Session) :
    (announce stage).run s = (.ok (), { s with stages := s.stages ++ [stage] }) := rfl

@[simp] theorem run_files (s : Session) : files.run s = (.ok s.files, s) := rfl

@[simp] theorem run_ofExcept (result : Except Failure α) (s : Session) :
    (ofExcept result).run s = (result, s) := rfl

@[simp] theorem run_pure (a : α) (s : Session) : (pure a : Run α).run s = (.ok a, s) := rfl

section
variable {part : Run α} {next : α → Run β} {handle : Failure → Run α} {s t : Session}

theorem bind_ok (h : part.run s = (.ok a, t)) : (part >>= next).run s = (next a).run t := by
  show ExceptT.bindCont next (part.run s).1 (part.run s).2 = _
  rw [h]
  rfl

theorem bind_error (h : part.run s = (.error e, t)) : (part >>= next).run s = (.error e, t) := by
  show ExceptT.bindCont next (part.run s).1 (part.run s).2 = _
  rw [h]
  rfl

theorem of_bind_ok (h : ((part >>= next).run s).1 = .ok b) :
    ∃ a t, part.run s = (.ok a, t) ∧ ((next a).run t).1 = .ok b := by
  rcases hp : part.run s with ⟨e | a, t⟩
  · rw [bind_error hp] at h
    cases h
  · rw [bind_ok hp] at h
    exact ⟨a, t, rfl, h⟩

theorem tryCatch_ok (h : part.run s = (.ok a, t)) :
    (tryCatch part handle).run s = (.ok a, t) := by
  unfold tryCatch
  simp only [instMonadExceptOfMonadExceptOf, tryCatchThe, MonadExceptOf.tryCatch, ExceptT.tryCatch]
  show StateT.run (part.run >>= _) s = _
  rw [StateT.run_bind]
  show (part.run s >>= _) = _
  rw [h]
  rfl

theorem tryCatch_error (h : part.run s = (.error e, t)) :
    (tryCatch part handle).run s = (handle e).run t := by
  unfold tryCatch
  simp only [instMonadExceptOfMonadExceptOf, tryCatchThe, MonadExceptOf.tryCatch, ExceptT.tryCatch]
  show StateT.run (part.run >>= _) s = _
  rw [StateT.run_bind]
  show (part.run s >>= _) = _
  rw [h]
  rfl

end

end Run

end UnsafeAudit
