import UnsafeAudit.Build.Driver
import UnsafeAudit.Proofs.Build.Deliveries

/-!
# Courses of a build

What a build does is told without the context that it reports to: which
deliveries it makes, which of its handles it gives back and how it ends
(`Course`). The outcome of an intercepted build follows from its course: the
context comes out exactly if the build returned, everything that it delivered
was recorded and it gave all its handles back (`interceptedBuild_outcome`).
-/

namespace UnsafeAudit

open Delivery (firstFault)

structure Course where
  delivered : List Delivery
  /-- For each handle that the build made, whether it was given back. -/
  givenBack : List Bool
  ending : Except Failure Unit

namespace Course

def start : Course := ⟨[], [], .ok ()⟩

def step (course : Course) : BuildStep → Course
  | .keepHandle => { course with givenBack := course.givenBack ++ [false] }
  | .giveBack kept => { course with givenBack := course.givenBack.set kept true }
  | .deliver delivery swallow =>
    { course with
      delivered := course.delivered ++ [delivery]
      ending := if swallow then .ok () else delivery.outcome course.delivered }

/-- Goes on until a step fails. -/
def follow (course : Course) : List BuildStep → Course
  | [] => course
  | step :: rest =>
    match (course.step step).ending with
    | .ok () => (course.step step).follow rest
    | .error _ => course.step step

def AllGivenBack (course : Course) : Prop := ∀ back ∈ course.givenBack, back = true

end Course

def BuildScript.course (script : BuildScript) : Course :=
  let course := Course.start.follow script.steps
  match course.ending, script.failure with
  | .ok (), some failure => { course with ending := .error failure }
  | _, _ => course

-- ---------------------------------------------------------------------------
-- The context that a build reports to
-- ---------------------------------------------------------------------------

namespace SharedContext

/-- The handle that a build is given. -/
def buildHandle : Handle := 1

/-- A context in the course of a build, which has a handle of its own and those that it made. -/
structure Serves (course : Course) (s : SharedContext) : Prop where
  received : Received course.delivered s
  tallied : s.Tallied
  released_eq : s.released = [false, false] ++ course.givenBack

namespace Serves

variable {s : SharedContext} {course : Course}

theorem build_live (hs : Serves course s) : s.isReleased buildHandle = false := by
  rw [isReleased, hs.released_eq]
  rfl

theorem start : ∃ s, SharedContext.new.clone firstHandle = .ok (s, buildHandle) ∧
    Serves .start s :=
  ⟨_, rfl, ⟨rfl, .empty, rfl, fun _ => .empty⟩, rfl, rfl⟩

theorem step (hs : Serves course s) (hok : course.ending = .ok ()) (step : BuildStep) :
    (BuildScript.runStep s buildHandle step).2 = (course.step step).ending ∧
      Serves (course.step step) (BuildScript.runStep s buildHandle step).1 := by
  have hlive := hs.build_live
  cases step with
  | keepHandle =>
    rw [BuildScript.runStep, clone_ok hlive]
    refine ⟨hok.symm, ⟨hs.received.poison_eq, hs.received.holds⟩, hs.tallied.clone, ?_⟩
    show s.released ++ [false] = _
    rw [hs.released_eq, List.append_assoc]
    rfl
  | giveBack kept =>
    refine ⟨hok.symm, hs.received.release _, hs.tallied.release _, ?_⟩
    show (s.release (buildHandle + 1 + kept)).released = _
    rw [released_release, hs.released_eq, buildHandle, Nat.add_comm]
    rfl
  | deliver delivery swallow =>
    obtain ⟨houtcome, hreceived, howners, hreleased⟩ := hs.received.record hlive delivery
    refine ⟨?_, hreceived, ?_, hreleased.trans hs.released_eq⟩
    · show (if swallow = true then _ else (s.record buildHandle delivery).2) = _
      rw [houtcome]
      rfl
    · show (s.record buildHandle delivery).1.owners =
        (s.record buildHandle delivery).1.released.count false
      rw [howners, hreleased, hs.tallied]

theorem follow (hs : Serves course s) (hok : course.ending = .ok ()) (steps : List BuildStep) :
    (BuildScript.runSteps s buildHandle steps).2 = (course.follow steps).ending ∧
      Serves (course.follow steps) (BuildScript.runSteps s buildHandle steps).1 := by
  induction steps generalizing s course with
  | nil => exact ⟨hok.symm, hs⟩
  | cons step rest ih =>
    obtain ⟨hending, hserves⟩ := hs.step hok step
    rw [BuildScript.runSteps, Course.follow]
    rcases hrun : BuildScript.runStep s buildHandle step with ⟨t, e | u⟩
    · rw [hrun] at hending hserves
      rw [← hending]
      exact ⟨hending, hserves⟩
    · rw [hrun] at hending hserves
      rw [← hending]
      exact ih hserves hending.symm

/-- After a build has given back its own handle, the owners are the handles that it kept and the
one with which the context was made. -/
theorem left (hs : Serves course s) : Received course.delivered (s.release buildHandle) ∧
    (s.release buildHandle).isReleased firstHandle = false ∧
    (s.release buildHandle).owners = course.givenBack.count false + 1 := by
  refine ⟨hs.received.release _, ?_, ?_⟩
  · rw [isReleased, released_release, hs.released_eq]
    rfl
  · rw [hs.tallied.release buildHandle, released_release, hs.released_eq]
    show ([false, true] ++ course.givenBack).count false = _
    rw [List.count_append, Nat.add_comm]
    rfl

end Serves

end SharedContext

open SharedContext (Serves buildHandle)

namespace BuildScript

theorem run_eq (script : BuildScript) (hs : Serves .start s) :
    (script.run s buildHandle).2 = script.course.ending ∧
      Serves script.course (script.run s buildHandle).1 := by
  obtain ⟨hending, hserves⟩ := hs.follow rfl script.steps
  rw [run, course]
  rcases hrun : runSteps s buildHandle script.steps with ⟨t, e | u⟩
  · rw [hrun] at hending hserves
    rw [← hending]
    exact ⟨hending, hserves⟩
  · rw [hrun] at hending hserves
    rw [← hending]
    cases script.failure with
    | none => exact ⟨hending, hserves⟩
    | some failure =>
      exact ⟨rfl, ⟨hserves.received.poison_eq, hserves.received.holds⟩, hserves.tallied,
        hserves.released_eq⟩

theorem exists_context_eq (script : BuildScript) : ∃ s, Serves script.course s ∧
    script.context = (s.release buildHandle).conclude script.course.ending := by
  obtain ⟨s, hclone, hs⟩ := Serves.start
  obtain ⟨hending, hserves⟩ := script.run_eq hs
  refine ⟨_, hserves, ?_⟩
  simp only [context, hclone]
  rw [hending]

end BuildScript

-- ---------------------------------------------------------------------------
-- Outcomes
-- ---------------------------------------------------------------------------

/-- What a build comes to that took a course. -/
structure Course.Concluded (course : Course) (outcome : Except Failure BuildContext) : Prop where
  ok_iff : (∃ context, outcome = .ok context) ↔
    course.ending = .ok () ∧ Delivery.AllRecorded course.delivered ∧ course.AllGivenBack
  gathers : ∀ context, outcome = .ok context →
    context.Gathers (course.delivered.filterMap (·.invocation?)) ∧
      context.invocationCount = course.delivered.length
  of_audit : ∀ e, course.ending = .error (.audit e) → outcome = .error (.audit e)
  of_fault : ∀ fault, course.ending = .error (.fault fault) →
    outcome = if firstFault course.delivered = none then .error (.fault fault)
      else .error (.audit (.recordingFailed fault.quotedText))
  of_kept : course.ending = .ok () → ¬ course.AllGivenBack →
    outcome = .error
      (.audit (.contextOwnership (.stillShared (course.givenBack.count false + 1))))
  of_failed : course.ending = .ok () → course.AllGivenBack →
    ∀ fault, firstFault course.delivered = some fault →
      outcome = .error (.audit (.lockAbandoned fault.quotedText))

theorem Course.allGivenBack_iff {course : Course} :
    course.AllGivenBack ↔ course.givenBack.count false = 0 := by
  rw [List.count_eq_zero]
  constructor
  · intro hall hmem
    cases hall false hmem
  · intro hnone back hmem
    cases back with
    | true => rfl
    | false => exact absurd hmem hnone

theorem Course.concluded {course : Course} (hr : Received course.delivered s)
    (hfirst : s.isReleased SharedContext.firstHandle = false)
    (howners : s.owners = course.givenBack.count false + 1) :
    course.Concluded (s.conclude course.ending) := by
  cases hending : course.ending with
  | error failure =>
    cases failure with
    | audit e =>
      rw [SharedContext.conclude]
      constructor <;> simp [hending]
    | fault fault =>
      rw [hr.conclude_fault]
      cases hf : firstFault course.delivered <;> constructor <;> simp [hending, hf]
  | ok u =>
    by_cases hall : course.AllGivenBack
    · have hone : s.owners = 1 := by rw [howners, allGivenBack_iff.mp hall]
      cases hf : firstFault course.delivered with
      | some fault =>
        rw [hr.conclude_abandoned hfirst hone hf]
        constructor <;> simp [hending, hall, hf, Delivery.allRecorded_iff]
      | none =>
        obtain ⟨context, hok, hgathers⟩ := hr.conclude_recorded hfirst hone hf
        have hcount := hgathers.count_eq.trans (Delivery.length_invocations hf)
        rw [hok]
        constructor <;> simp [hending, hall, hf, Delivery.allRecorded_iff, hgathers, hcount]
    · have hne : s.owners ≠ 1 := by
        rw [howners]
        intro h
        exact hall (allGivenBack_iff.mpr (by omega))
      rw [SharedContext.conclude_shared hfirst hne, howners]
      constructor <;> simp [hending, hall]

theorem BuildScript.context_concluded (script : BuildScript) :
    script.course.Concluded script.context := by
  obtain ⟨s, hs, heq⟩ := script.exists_context_eq
  obtain ⟨hreceived, hfirst, howners⟩ := hs.left
  rw [heq]
  exact Course.concluded hreceived hfirst howners

/-- Swallowing the failure of a recording does not save the build. -/
example (fault : Fault) (inv : Invocation) :
    BuildScript.context ⟨[.deliver (.failing fault) true, .deliver (.invocation inv) true], none⟩ =
      .error (.audit (.lockAbandoned fault.quotedText)) := rfl

/-- A handle that is not given back shows first. -/
example (fault : Fault) :
    BuildScript.context ⟨[.keepHandle, .deliver (.failing fault) true], none⟩ =
      .error (.audit (.contextOwnership (.stillShared 2))) := rfl

-- ---------------------------------------------------------------------------
-- Drivers
-- ---------------------------------------------------------------------------

namespace BuildDriver

/-- What a driver does in a session to build, when it fails before it has delivered anything just
this failure. -/
def scriptIn (driver : BuildDriver) (session : Session) : BuildScript :=
  match (driver.build.run session).1 with
  | .ok script => script
  | .error failure => ⟨[], some failure⟩

theorem interceptedBuild_run (driver : BuildDriver)
    (h : driver.clean.run session = (.ok (), cleaned)) :
    ((interceptedBuild driver).run session).1 = (driver.scriptIn cleaned).context := by
  rw [interceptedBuild, Run.bind_ok h, scriptIn]
  rcases hb : driver.build.run cleaned with ⟨failure | script, built⟩
  · rw [Run.bind_ok (Run.tryCatch_error hb)]
    rfl
  · rw [Run.bind_ok (Run.tryCatch_ok hb)]
    rfl

/-- The outcome of an intercepted build. If cleaning fails, that is its failure, the session is as
cleaning has left it, and how the driver builds does not matter. Otherwise the outcome is what the
course of the build comes to. -/
theorem interceptedBuild_outcome (driver : BuildDriver) (session : Session) :
    match driver.clean.run session with
    | (.error e, cleaned) => ∀ build : Run BuildScript,
      (interceptedBuild { driver with build }).run session = (.error e, cleaned)
    | (.ok (), cleaned) =>
      (driver.scriptIn cleaned).course.Concluded ((interceptedBuild driver).run session).1 := by
  rcases h : driver.clean.run session with ⟨e | u, cleaned⟩
  · intro build
    exact Run.bind_error h
  · show Course.Concluded _ _
    rw [driver.interceptedBuild_run h]
    exact BuildScript.context_concluded _

end BuildDriver

end UnsafeAudit
