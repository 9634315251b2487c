import UnsafeAudit.Build.Script
import UnsafeAudit.Proofs.Build.Gathered
import UnsafeAudit.Proofs.Build.Handles

/-!
# Deliveries to a context

What comes of a delivery follows from the deliveries before it: after the first
recording that failed, all are refused. A context that has received deliveries
is poisoned by that first failure, and holds all that was delivered if there was
none (`Received`). What is concluded from a build follows from that.
-/

namespace UnsafeAudit

namespace Delivery

def fault? : Delivery → Option Fault
  | .invocation _ => none
  | .failing fault => some fault

def invocation? : Delivery → Option Invocation
  | .invocation inv => some inv
  | .failing _ => none

def firstFault (delivered : List Delivery) : Option Fault := delivered.findSome? fault?

/-- What comes of a delivery that is made after others. -/
def outcome (earlier : List Delivery) (delivery : Delivery) : Except Failure Unit :=
  match firstFault earlier, delivery with
  | some fault, _ => .error (.audit (.lockAbandoned fault.quotedText))
  | none, .failing fault => .error (.fault fault)
  | none, .invocation _ => .ok ()

/-- Every delivery was recorded, each after those before it. -/
def AllRecorded (delivered : List Delivery) : Prop :=
  ∀ earlier delivery later, delivered = earlier ++ delivery :: later →
    delivery.outcome earlier = .ok ()

variable {delivered earlier : List Delivery} {delivery : Delivery}

theorem firstFault_eq_none_iff :
    firstFault delivered = none ↔ ∀ delivery ∈ delivered, delivery.fault? = none :=
  List.findSome?_eq_none_iff

theorem firstFault_concat (delivered : List Delivery) (delivery : Delivery) :
    firstFault (delivered ++ [delivery]) = (firstFault delivered).or delivery.fault? := by
  rw [firstFault, List.findSome?_append, firstFault, List.findSome?_cons]
  cases delivery <;> rfl

theorem outcome_refused (hf : firstFault earlier = some fault) (delivery : Delivery) :
    delivery.outcome earlier = .error (.audit (.lockAbandoned fault.quotedText)) := by
  simp only [outcome, hf]

theorem outcome_invocation (hf : firstFault earlier = none) (inv : Invocation) :
    (invocation inv).outcome earlier = .ok () := by
  simp only [outcome, hf]

theorem outcome_failing (hf : firstFault earlier = none) (fault : Fault) :
    (failing fault).outcome earlier = .error (.fault fault) := by
  simp only [outcome, hf]

theorem outcome_eq_ok_iff :
    delivery.outcome earlier = .ok () ↔ firstFault (earlier ++ [delivery]) = none := by
  rw [firstFault_concat]
  cases hf : firstFault earlier with
  | some fault => simp [outcome_refused hf]
  | none =>
    cases delivery with
    | invocation inv => simp [outcome_invocation hf, fault?]
    | failing fault => simp [outcome_failing hf, fault?]

theorem allRecorded_iff : AllRecorded delivered ↔ firstFault delivered = none := by
  constructor
  · intro hall
    by_contra hne
    obtain ⟨delivery, hmem, hfault⟩ : ∃ delivery ∈ delivered, delivery.fault? ≠ none := by
      simpa [firstFault_eq_none_iff] using hne
    obtain ⟨earlier, later, heq⟩ := List.append_of_mem hmem
    have hok := outcome_eq_ok_iff.mp (hall earlier delivery later heq)
    exact hfault (firstFault_eq_none_iff.mp hok delivery (by simp))
  · rintro hnone earlier delivery later rfl
    rw [outcome_eq_ok_iff, firstFault_eq_none_iff]
    intro d hd
    refine firstFault_eq_none_iff.mp hnone d ?_
    rcases List.mem_append.mp hd with hd | hd
    · exact List.mem_append_left _ hd
    · rw [List.mem_singleton.mp hd]
      simp

theorem length_invocations (hnone : firstFault delivered = none) :
    (delivered.filterMap invocation?).length = delivered.length := by
  refine List.filterMap_length_eq_length.mpr fun delivery hd => ?_
  have hfault := firstFault_eq_none_iff.mp hnone delivery hd
  cases delivery with
  | invocation => rfl
  | failing => cases hfault

end Delivery

open Delivery (firstFault)

-- ---------------------------------------------------------------------------
-- Receiving
-- ---------------------------------------------------------------------------

/-- A context to which some deliveries were made. -/
structure Received (delivered : List Delivery) (s : SharedContext) : Prop where
  poison_eq : s.poison = (firstFault delivered).map (·.quotedText)
  holds : ∃ context, s.context = some context ∧
    (firstFault delivered = none → context.Gathers (delivered.filterMap (·.invocation?)))

namespace Received

variable {s : SharedContext} {h : Handle} {delivered : List Delivery}

theorem isPoisoned_eq (hr : Received delivered s) :
    s.isPoisoned = (firstFault delivered).isSome := by
  rw [SharedContext.isPoisoned, hr.poison_eq, Option.isSome_map]

theorem record (hr : Received delivered s) (hh : s.isReleased h = false) (delivery : Delivery) :
    (s.record h delivery).2 = delivery.outcome delivered ∧
      Received (delivered ++ [delivery]) (s.record h delivery).1 ∧
      (s.record h delivery).1.owners = s.owners ∧
      (s.record h delivery).1.released = s.released := by
  obtain ⟨context, hc, hgathers⟩ := hr.holds
  cases hf : firstFault delivered with
  | some fault =>
    have hp : s.poison = some fault.quotedText := by rw [hr.poison_eq, hf]; rfl
    rw [SharedContext.record, SharedContext.lock_refused (SharedContext.entry_poisoned hh hp)]
    refine ⟨(Delivery.outcome_refused hf delivery).symm, ⟨?_, context, hc, ?_⟩, rfl, rfl⟩
    · rw [Delivery.firstFault_concat, hf, hp]
      rfl
    · rw [Delivery.firstFault_concat, hf]
      rintro ⟨⟩
  | none =>
    have hp : s.poison = none := by rw [hr.poison_eq, hf]; rfl
    have he := SharedContext.entry_eq_ok_iff.mpr ⟨hh, hp, hc⟩
    rw [SharedContext.record, SharedContext.lock_entered he]
    cases delivery with
    | invocation inv =>
      refine ⟨(Delivery.outcome_invocation hf inv).symm, ⟨?_, _, rfl, fun _ => ?_⟩, rfl, rfl⟩
      · rw [Delivery.firstFault_concat, hf]
        rfl
      · rw [List.filterMap_append]
        exact (hgathers hf).record inv
    | failing fault =>
      refine ⟨(Delivery.outcome_failing hf fault).symm, ⟨?_, _, rfl, ?_⟩, rfl, rfl⟩
      · rw [Delivery.firstFault_concat, hf]
        rfl
      · rw [Delivery.firstFault_concat, hf]
        rintro ⟨⟩

theorem release (hr : Received delivered s) (h : Handle) : Received delivered (s.release h) := by
  constructor
  · rw [SharedContext.release_poison]
    exact hr.poison_eq
  · rw [SharedContext.release_context]
    exact hr.holds

end Received

-- ---------------------------------------------------------------------------
-- Concluding
-- ---------------------------------------------------------------------------

section
open SharedContext (firstHandle)
variable {s : SharedContext} {delivered : List Delivery}

theorem SharedContext.conclude_shared (hh : s.isReleased firstHandle = false) (ho : s.owners ≠ 1) :
    s.conclude (.ok ()) = .error (.audit (.contextOwnership (.stillShared s.owners))) := by
  rw [conclude, intoInner_shared hh ho]
  rfl

namespace Received

theorem conclude_abandoned (hr : Received delivered s) (hh : s.isReleased firstHandle = false)
    (ho : s.owners = 1) (hf : firstFault delivered = some fault) :
    s.conclude (.ok ()) = .error (.audit (.lockAbandoned fault.quotedText)) := by
  have hp : s.poison = some fault.quotedText := by rw [hr.poison_eq, hf]; rfl
  rw [SharedContext.conclude, SharedContext.intoInner_alone hh ho,
    SharedContext.entry_poisoned hh hp]
  rfl

theorem conclude_recorded (hr : Received delivered s) (hh : s.isReleased firstHandle = false)
    (ho : s.owners = 1) (hf : firstFault delivered = none) :
    ∃ context, s.conclude (.ok ()) = .ok context ∧
      context.Gathers (delivered.filterMap (·.invocation?)) := by
  obtain ⟨context, hc, hgathers⟩ := hr.holds
  have hp : s.poison = none := by rw [hr.poison_eq, hf]; rfl
  refine ⟨context, ?_, hgathers hf⟩
  rw [SharedContext.conclude, SharedContext.intoInner_alone hh ho,
    SharedContext.entry_eq_ok_iff.mpr ⟨hh, hp, hc⟩]
  rfl

theorem conclude_fault (hr : Received delivered s) (fault : Fault) :
    s.conclude (.error (.fault fault)) =
      if firstFault delivered = none then .error (.fault fault)
      else .error (.audit (.recordingFailed fault.quotedText)) := by
  rw [SharedContext.conclude, hr.isPoisoned_eq]
  cases firstFault delivered <;> rfl

end Received

end

end UnsafeAudit
