import Mathlib.Logic.Relation
import UnsafeAudit.Proofs.Build.Courses

/-!
# Workers of a build

A build may have its deliveries made by a pool of workers. They take them in
order, each makes one delivery at a time, and the deliveries reach the context
in whichever order the workers come to make them. The caller meets the failures
in the order of the list, stops at the first and cancels what nobody has taken.
Whether a recording fails is part of its delivery: where it fails in one
schedule only, these are schedules of two lists.

No schedule of the pool changes what the build comes to (`Pool.leaves_outcome`):
every one ends with the context that a build without workers leaves, or, if a
recording fails, with an abandoned lock.
-/

namespace UnsafeAudit

open Delivery (firstFault)
open SharedContext (Serves buildHandle firstHandle)

inductive Progress
  | waiting
  | running
  | done (result : Except Failure Unit)
  | cancelled

namespace Progress

def isWaiting : Progress → Bool
  | waiting => true
  | _ => false

def isRunning : Progress → Bool
  | running => true
  | _ => false

def isEnded : Progress → Bool
  | waiting | running => false
  | done _ | cancelled => true

end Progress

structure Task where
  delivery : Delivery
  progress : Progress

namespace Task

def made? (task : Task) : Option Delivery :=
  match task.progress with
  | .done _ => some task.delivery
  | _ => none

def failure? (task : Task) : Option Failure :=
  match task.progress with
  | .done (.error failure) => some failure
  | _ => none

end Task

structure Pool where
  shared : SharedContext
  /-- In the order in which they were handed over. -/
  tasks : List Task

namespace Pool

def start (s : SharedContext) (deliveries : List Delivery) : Pool :=
  ⟨s, deliveries.map (⟨·, .waiting⟩)⟩

def busy (tasks : List Task) : Nat := tasks.countP (·.progress.isRunning)

inductive Step (workers : Nat) (h : Handle) : Pool → Pool → Prop
  /-- A free worker takes the first task that waits. -/
  | take {s before delivery after}
      (hfirst : ∀ task ∈ before, task.progress.isWaiting = false)
      (hfree : busy (before ++ after) < workers) :
      Step workers h ⟨s, before ++ ⟨delivery, .waiting⟩ :: after⟩
        ⟨s, before ++ ⟨delivery, .running⟩ :: after⟩
  /-- A worker makes its delivery, holding the lock from the beginning to the end. -/
  | deliver {s before delivery after} :
      Step workers h ⟨s, before ++ ⟨delivery, .running⟩ :: after⟩
        ⟨(s.record h delivery).1, before ++ ⟨delivery, .done (s.record h delivery).2⟩ :: after⟩
  /-- The caller has met a failure and cancels a task behind it. -/
  | cancel {s before failed e between delivery after}
      (hmet : ∀ task ∈ before, task.progress = .done (.ok ())) :
      Step workers h
        ⟨s, before ++ ⟨failed, .done (.error e)⟩ :: (between ++ ⟨delivery, .waiting⟩ :: after)⟩
        ⟨s, before ++ ⟨failed, .done (.error e)⟩ :: (between ++ ⟨delivery, .cancelled⟩ :: after)⟩

/-- What a number of workers may come to, in one schedule or another. -/
abbrev Reaches (workers : Nat) (h : Handle) : Pool → Pool → Prop :=
  Relation.ReflTransGen (Step workers h)

def Ended (pool : Pool) : Prop := ∀ task ∈ pool.tasks, task.progress.isEnded = true

/-- What the caller meets: the first failure in the order of the tasks. -/
def ending (pool : Pool) : Except Failure Unit :=
  match pool.tasks.findSome? (·.failure?) with
  | some failure => .error failure
  | none => .ok ()

/-- An outcome of a build whose deliveries to a new context are made by a pool, in some
schedule. -/
def Leaves (workers : Nat) (deliveries : List Delivery)
    (outcome : Except Failure BuildContext) : Prop :=
  ∃ s h pool, SharedContext.new.clone firstHandle = .ok (s, h) ∧
    Reaches workers h (start s deliveries) pool ∧ pool.Ended ∧
    outcome = (pool.shared.release h).conclude pool.ending

variable {workers : Nat} {h : Handle} {pool next : Pool} {deliveries delivered : List Delivery}
  {delivery : Delivery} {failure : Failure}

-- ---------------------------------------------------------------------------
-- Every schedule ends
-- ---------------------------------------------------------------------------

/-- How many steps a pool may still take: two for a task that waits and one for a running one. -/
def stepsLeft (pool : Pool) : Nat :=
  2 * pool.tasks.countP (·.progress.isWaiting) + busy pool.tasks

theorem Step.stepsLeft_lt (hstep : Step workers h pool next) : next.stepsLeft < pool.stepsLeft := by
  cases hstep <;>
    simp only [stepsLeft, busy, List.countP_append, List.countP_cons, Progress.isWaiting,
      Progress.isRunning, if_true, Bool.false_eq_true, if_false] <;>
    omega

/-- No schedule goes on forever. -/
theorem wellFounded_step (workers : Nat) (h : Handle) :
    WellFounded fun next pool => Step workers h pool next :=
  Subrelation.wf Step.stepsLeft_lt (measure stepsLeft).wf

/-- No schedule gets stuck. -/
theorem exists_step (hw : 0 < workers) (hgoing : ¬ pool.Ended) :
    ∃ next, Step workers h pool next := by
  obtain ⟨s, tasks⟩ := pool
  by_cases hbusy : busy tasks = 0
  · obtain ⟨task, hmem, hnot⟩ : ∃ task ∈ tasks, task.progress.isEnded = false := by
      simpa [Ended] using hgoing
    have hwaits : task.progress.isWaiting = true := by
      have hidle := List.countP_eq_zero.mp hbusy task hmem
      revert hnot hidle
      cases task.progress <;> simp [Progress.isRunning, Progress.isWaiting, Progress.isEnded]
    obtain ⟨first, hfind⟩ := Option.isSome_iff_exists.mp
      (List.find?_isSome (p := (·.progress.isWaiting)).mpr ⟨task, hmem, hwaits⟩)
    obtain ⟨hfirst, before, after, rfl, hbefore⟩ := List.find?_eq_some_iff_append.mp hfind
    obtain ⟨delivery, progress⟩ := first
    cases progress <;> cases hfirst
    refine ⟨_, .take (by simpa using hbefore) ?_⟩
    have : busy (before ++ after) = 0 := by
      simpa [busy, Progress.isRunning] using hbusy
    omega
  · obtain ⟨⟨delivery, progress⟩, hmem, hruns⟩ :=
      List.countP_pos_iff.mp (Nat.pos_of_ne_zero hbusy)
    obtain ⟨before, after, rfl⟩ := List.append_of_mem hmem
    cases progress <;> cases hruns
    exact ⟨_, .deliver⟩

-- ---------------------------------------------------------------------------
-- What every schedule keeps
-- ---------------------------------------------------------------------------

def OfDelivery : Failure → Prop
  | .fault _ => True
  | .audit e => ∃ shown, e = .lockAbandoned shown

/-- A pool in the course of a schedule that made deliveries in this order. -/
structure Follows (deliveries delivered : List Delivery) (pool : Pool) : Prop where
  serves : Serves ⟨delivered, [], .ok ()⟩ pool.shared
  deliveries_eq : pool.tasks.map (·.delivery) = deliveries
  made : delivered.Perm (pool.tasks.filterMap (·.made?))
  failed : ∀ task ∈ pool.tasks, ∀ failure, task.failure? = some failure →
    OfDelivery failure ∧ firstFault delivered ≠ none
  cancelled : ∀ task ∈ pool.tasks, task.progress = .cancelled → firstFault delivered ≠ none

theorem ofDelivery_of_outcome (h : delivery.outcome delivered = .error failure) :
    OfDelivery failure ∧ firstFault (delivered ++ [delivery]) ≠ none := by
  constructor
  · cases hf : firstFault delivered with
    | some fault =>
      rw [Delivery.outcome_refused hf] at h
      cases h
      exact ⟨_, rfl⟩
    | none =>
      cases delivery with
      | invocation inv => rw [Delivery.outcome_invocation hf] at h; cases h
      | failing fault => rw [Delivery.outcome_failing hf] at h; cases h; trivial
  · intro hnone
    rw [Delivery.outcome_eq_ok_iff.mpr hnone] at h
    cases h

theorem firstFault_concat_ne_none (hne : firstFault delivered ≠ none) (delivery : Delivery) :
    firstFault (delivered ++ [delivery]) ≠ none := by
  obtain ⟨fault, hfault⟩ := Option.ne_none_iff_exists'.mp hne
  rw [Delivery.firstFault_concat, hfault]
  exact Option.some_ne_none _

theorem mem_of_mem_replaced {task new old : Task} (h : task ∈ before ++ new :: after) :
    task = new ∨ task ∈ before ++ old :: after := by
  rw [List.mem_append, List.mem_cons] at h
  rw [List.mem_append, List.mem_cons]
  rcases h with h | h | h
  · exact .inr (.inl h)
  · exact .inl h
  · exact .inr (.inr (.inr h))

theorem record_serves (hs : Serves ⟨delivered, [], .ok ()⟩ s) (delivery : Delivery) :
    (s.record buildHandle delivery).2 = delivery.outcome delivered ∧
      Serves ⟨delivered ++ [delivery], [], .ok ()⟩ (s.record buildHandle delivery).1 :=
  ⟨(hs.received.record hs.build_live delivery).1, (hs.step rfl (.deliver delivery true)).2⟩

namespace Follows

theorem start (hs : Serves .start s) (deliveries : List Delivery) :
    Follows deliveries [] (start s deliveries) := by
  constructor
  case serves => exact hs
  all_goals simp [Pool.start, Function.comp_def, Task.made?, Task.failure?]

theorem step (hf : Follows deliveries delivered pool) (hstep : Step workers buildHandle pool next) :
    ∃ delivered, Follows deliveries delivered next := by
  cases hstep with
  | take =>
    refine ⟨delivered, hf.serves, ?_, ?_, ?_, ?_⟩
    · simpa using hf.deliveries_eq
    · simpa [Task.made?] using hf.made
    · simpa [Task.failure?, or_imp, forall_and] using hf.failed
    · simpa [or_imp, forall_and] using hf.cancelled
  | @deliver s before delivery after =>
    obtain ⟨houtcome, hserves⟩ := record_serves hf.serves delivery
    rw [houtcome]
    refine ⟨delivered ++ [delivery], hserves, ?_, ?_, ?_, ?_⟩
    · simpa using hf.deliveries_eq
    · have hmade : delivered.Perm (before.filterMap (·.made?) ++ after.filterMap (·.made?)) := by
        simpa [Task.made?] using hf.made
      simp only [List.filterMap_append, List.filterMap_cons, Task.made?]
      exact (List.perm_append_singleton _ _).trans ((hmade.cons _).trans List.perm_middle.symm)
    · intro task ht failure hfailure
      rcases mem_of_mem_replaced ht with rfl | ht
      · refine ofDelivery_of_outcome ?_
        revert hfailure
        simp only [Task.failure?]
        split <;> simp_all
      · exact (hf.failed task ht failure hfailure).imp_right (firstFault_concat_ne_none · delivery)
    · intro task ht hc
      rcases mem_of_mem_replaced ht with rfl | ht
      · cases hc
      · exact firstFault_concat_ne_none (hf.cancelled task ht hc) delivery
  | @cancel s before failed e between delivery after =>
    have hmem : ⟨failed, .done (.error e)⟩ ∈
        before ++ ⟨failed, .done (.error e)⟩ :: (between ++ ⟨delivery, .waiting⟩ :: after) := by
      simp
    refine ⟨delivered, hf.serves, ?_, ?_, ?_, fun _ _ _ => (hf.failed _ hmem e rfl).2⟩
    · simpa using hf.deliveries_eq
    · simpa [Task.made?] using hf.made
    · simpa [Task.failure?, or_imp, forall_and] using hf.failed

theorem of_reaches (hs : Serves .start s)
    (hreaches : Reaches workers buildHandle (Pool.start s deliveries) pool) :
    ∃ delivered, Follows deliveries delivered pool := by
  induction hreaches with
  | refl => exact ⟨_, start hs deliveries⟩
  | tail _ hstep ih =>
    obtain ⟨delivered, hf⟩ := ih
    exact hf.step hstep

theorem mem_deliveries (hf : Follows deliveries delivered pool) (hmem : delivery ∈ delivered) :
    delivery ∈ deliveries := by
  obtain ⟨task, ht, hmade⟩ := List.mem_filterMap.mp (hf.made.mem_iff.mp hmem)
  rw [← hf.deliveries_eq]
  refine List.mem_map.mpr ⟨task, ht, ?_⟩
  revert hmade
  simp only [Task.made?]
  split <;> simp

theorem perm_deliveries (hf : Follows deliveries delivered pool) (hended : pool.Ended)
    (hnone : firstFault delivered = none) : delivered.Perm deliveries := by
  have hdone : ∀ task ∈ pool.tasks, task.made? = some task.delivery := by
    intro task ht
    have hover := hended task ht
    have hkept := hf.cancelled task ht
    simp only [Task.made?]
    cases hp : task.progress with
    | done result => rfl
    | cancelled => exact absurd hnone (hkept hp)
    | waiting => rw [hp] at hover; cases hover
    | running => rw [hp] at hover; cases hover
  have hmade := hf.made
  rw [List.filterMap_congr hdone, List.filterMap_eq_map', hf.deliveries_eq] at hmade
  exact hmade

theorem ending_ok (hf : Follows deliveries delivered pool) (hnone : firstFault delivered = none) :
    pool.ending = .ok () := by
  have hno : pool.tasks.findSome? (·.failure?) = none := by
    refine List.findSome?_eq_none_iff.mpr fun task ht => ?_
    by_contra hne
    obtain ⟨failure, hfailure⟩ := Option.ne_none_iff_exists'.mp hne
    exact (hf.failed task ht failure hfailure).2 hnone
  rw [ending, hno]

theorem ofDelivery_ending (hf : Follows deliveries delivered pool)
    (herror : pool.ending = .error failure) : OfDelivery failure := by
  rw [ending] at herror
  cases hfind : pool.tasks.findSome? (·.failure?) with
  | none => rw [hfind] at herror; cases herror
  | some first =>
    rw [hfind] at herror
    cases herror
    obtain ⟨task, ht, hfailure⟩ := List.exists_of_findSome?_eq_some hfind
    exact (hf.failed task ht failure hfailure).1

end Follows

theorem Leaves.concluded (hl : Leaves workers deliveries outcome) :
    ∃ delivered pool, Follows deliveries delivered pool ∧ pool.Ended ∧
      Course.Concluded ⟨delivered, [], pool.ending⟩ outcome := by
  obtain ⟨s, h, pool, hclone, hreaches, hended, rfl⟩ := hl
  obtain ⟨t, hstart, hs⟩ := Serves.start
  rw [hstart] at hclone
  cases hclone
  obtain ⟨delivered, hf⟩ := Follows.of_reaches hs hreaches
  obtain ⟨hreceived, hfirst, howners⟩ := hf.serves.left
  exact ⟨delivered, pool, hf, hended, Course.concluded hreceived hfirst howners⟩

-- ---------------------------------------------------------------------------
-- The schedule without a pool
-- ---------------------------------------------------------------------------

end Pool

namespace BuildScript

/-- The build that makes deliveries itself, one after the other. -/
def inOrder (deliveries : List Delivery) : BuildScript := ⟨deliveries.map (.deliver · false), none⟩

variable {s t : SharedContext} {h : Handle} {delivery : Delivery} {rest : List BuildStep}

theorem runSteps_deliver_ok (hrecord : s.record h delivery = (t, .ok ())) :
    runSteps s h (.deliver delivery false :: rest) = runSteps t h rest := by
  have hstep : runStep s h (.deliver delivery false) = (t, .ok ()) := hrecord
  rw [runSteps, hstep]

theorem runSteps_deliver_error (hrecord : s.record h delivery = (t, .error e)) :
    runSteps s h (.deliver delivery false :: rest) = (t, .error e) := by
  have hstep : runStep s h (.deliver delivery false) = (t, .error e) := hrecord
  rw [runSteps, hstep]

end BuildScript

namespace Pool

theorem findSome?_made {before : List Task}
    (hmade : ∀ task ∈ before, task.progress = .done (.ok ())) :
    before.findSome? (·.failure?) = none :=
  List.findSome?_eq_none_iff.mpr fun task ht => by simp only [Task.failure?, hmade task ht]

theorem cancelled_reached (hmet : ∀ task ∈ before, task.progress = .done (.ok ()))
    (cancelled waiting : List Delivery) :
    Reaches workers h
      ⟨s, before ++ ⟨failed, .done (.error e)⟩ ::
        (cancelled.map (⟨·, .cancelled⟩) ++ waiting.map (⟨·, .waiting⟩))⟩
      ⟨s, before ++ ⟨failed, .done (.error e)⟩ ::
        (cancelled ++ waiting).map (⟨·, .cancelled⟩)⟩ := by
  induction waiting generalizing cancelled with
  | nil => simp only [List.map_nil, List.append_nil]; exact .refl
  | cons delivery rest ih =>
    have hrest := ih (cancelled ++ [delivery])
    simp only [List.map_append, List.map_cons, List.map_nil, List.append_assoc,
      List.singleton_append] at hrest ⊢
    exact .head (.cancel hmet) hrest

/-- Some schedule makes the deliveries one after the other, up to the first that fails. -/
theorem inOrder_reached (hw : 0 < workers) (before : List Task)
    (hmade : ∀ task ∈ before, task.progress = .done (.ok ())) (s : SharedContext)
    (deliveries : List Delivery) :
    ∃ pool, Reaches workers h ⟨s, before ++ deliveries.map (⟨·, .waiting⟩)⟩ pool ∧ pool.Ended ∧
      BuildScript.runSteps s h (deliveries.map (.deliver · false)) =
        (pool.shared, pool.ending) := by
  induction deliveries generalizing s before with
  | nil =>
    refine ⟨_, .refl, ?_, ?_⟩
    · intro task ht
      rw [hmade task (by simpa using ht)]
      rfl
    · simp [BuildScript.runSteps, ending, findSome?_made hmade]
  | cons delivery rest ih =>
    have htaken : Reaches workers h
        ⟨s, before ++ (delivery :: rest).map (⟨·, .waiting⟩)⟩
        ⟨(s.record h delivery).1,
          before ++ ⟨delivery, .done (s.record h delivery).2⟩ :: rest.map (⟨·, .waiting⟩)⟩ := by
      refine .head (.take ?_ ?_) (.head .deliver .refl)
      · intro task ht
        rw [hmade task ht]
        rfl
      · have hidle : busy (before ++ rest.map (⟨·, .waiting⟩)) = 0 := by
          refine List.countP_eq_zero.mpr fun task ht => ?_
          rcases List.mem_append.mp ht with ht | ht
          · rw [hmade task ht]
            exact Bool.false_ne_true
          · obtain ⟨_, -, rfl⟩ := List.mem_map.mp ht
            exact Bool.false_ne_true
        omega
    rcases hrecord : s.record h delivery with ⟨t, e | u⟩
    · rw [hrecord] at htaken
      refine ⟨_, htaken.trans (cancelled_reached hmade [] rest), ?_, ?_⟩
      · intro task ht
        simp only [List.mem_append, List.mem_cons, List.mem_map] at ht
        rcases ht with ht | rfl | ⟨_, -, rfl⟩
        · rw [hmade task ht]
          rfl
        · rfl
        · rfl
      · refine (BuildScript.runSteps_deliver_error hrecord).trans ?_
        simp only [ending, List.findSome?_append, findSome?_made hmade, List.findSome?_cons]
        rfl
    · rw [hrecord] at htaken
      obtain ⟨pool, hreaches, hended, hrun⟩ := ih (before ++ [⟨delivery, .done (.ok ())⟩])
        (by simpa [or_imp, forall_and] using hmade) t
      refine ⟨pool, htaken.trans ?_, hended, ?_⟩
      · simpa using hreaches
      · exact (BuildScript.runSteps_deliver_ok hrecord).trans hrun

theorem leaves_inOrder (hw : 0 < workers) (deliveries : List Delivery) :
    Leaves workers deliveries (BuildScript.inOrder deliveries).context := by
  obtain ⟨s, hclone, -⟩ := Serves.start
  obtain ⟨pool, hreaches, hended, hrun⟩ :=
    inOrder_reached (h := buildHandle) hw [] (by simp) s deliveries
  refine ⟨s, buildHandle, pool, hclone, hreaches, hended, ?_⟩
  simp only [BuildScript.context, hclone, BuildScript.run, BuildScript.inOrder, hrun]
  cases pool.ending <;> rfl

-- ---------------------------------------------------------------------------
-- Outcomes
-- ---------------------------------------------------------------------------

theorem Leaves.recorded (hl : Leaves workers deliveries outcome)
    (hnone : firstFault deliveries = none) :
    ∃ context, outcome = .ok context ∧
      context.Gathers (deliveries.filterMap (·.invocation?)) ∧
      context.invocationCount = deliveries.length := by
  obtain ⟨delivered, pool, hf, hended, hconcluded⟩ := hl.concluded
  have hnone' : firstFault delivered = none := by
    rw [Delivery.firstFault_eq_none_iff] at hnone ⊢
    exact fun delivery hmem => hnone delivery (hf.mem_deliveries hmem)
  obtain ⟨context, hok⟩ := hconcluded.ok_iff.mpr
    ⟨hf.ending_ok hnone', Delivery.allRecorded_iff.mpr hnone', nofun⟩
  obtain ⟨hgathers, hcount⟩ := hconcluded.gathers context hok
  have hperm := hf.perm_deliveries hended hnone'
  exact ⟨context, hok, hgathers.perm (hperm.filterMap _), hcount.trans hperm.length_eq⟩

theorem Leaves.abandoned (hl : Leaves workers deliveries outcome)
    (hfault : firstFault deliveries ≠ none) :
    ∃ shown, outcome = .error (.audit (.lockAbandoned shown)) ∨
      outcome = .error (.audit (.recordingFailed shown)) := by
  obtain ⟨delivered, pool, hf, hended, hconcluded⟩ := hl.concluded
  cases hfirst : firstFault delivered with
  | none =>
    -- Then all was made, the failing delivery too.
    have hperm := hf.perm_deliveries hended hfirst
    refine absurd (Delivery.firstFault_eq_none_iff.mpr fun delivery hmem => ?_) hfault
    exact Delivery.firstFault_eq_none_iff.mp hfirst delivery (hperm.mem_iff.mpr hmem)
  | some fault =>
    cases hending : pool.ending with
    | ok u => exact ⟨_, .inl (hconcluded.of_failed hending nofun fault hfirst)⟩
    | error failure =>
      have hkind := hf.ofDelivery_ending hending
      cases failure with
      | audit e =>
        obtain ⟨shown, rfl⟩ := hkind
        exact ⟨shown, .inl (hconcluded.of_audit _ hending)⟩
      | fault raised =>
        refine ⟨raised.quotedText, .inr ((hconcluded.of_fault raised hending).trans (if_neg ?_))⟩
        rw [hfirst]
        exact Option.some_ne_none fault

section
variable (a b : Invocation) (fault : Fault)

/-- The second of two workers is done first. The first delivery is then refused, and that is the
failure that the caller meets. -/
theorem leaves_overtaken : Leaves 2 [.invocation a, .failing fault, .invocation b]
    (.error (.audit (.lockAbandoned fault.quotedText))) := by
  let s : SharedContext := ⟨some ⟨[], [], 1⟩, 2, some fault.quotedText, [false, false]⟩
  refine ⟨_, 1, ⟨s, [⟨.invocation a, .done (.error (.audit (.lockAbandoned fault.quotedText)))⟩,
    ⟨.failing fault, .done (.error (.fault fault))⟩, ⟨.invocation b, .cancelled⟩]⟩,
    rfl, ?_, ?_, rfl⟩
  · refine .head (@Step.take 2 1 _ [] _ [_, _] (by simp) ?_) ?_
    · simp [busy, Progress.isRunning]
    refine .head (@Step.take 2 1 _ [_] _ [_] (by simp [Progress.isWaiting]) ?_) ?_
    · simp [busy, Progress.isRunning]
    refine .head (@Step.deliver 2 1 _ [_] _ [_]) ?_
    refine .head (@Step.deliver 2 1 _ [] _ [_, _]) ?_
    exact .head (@Step.cancel 2 1 _ [] _ _ [_] _ [] (by simp)) .refl
  · simp [Ended, Progress.isEnded]

end

/-- What a build comes to does not depend on how its workers are scheduled, nor on their number:
every schedule ends, and with the outcome of the build that makes the deliveries in order. That is
a context in which all is recorded, or an abandoned lock if one of the recordings fails. -/
theorem leaves_outcome (hw : 0 < workers) (deliveries : List Delivery) :
    (∀ s h pool, Reaches workers h (start s deliveries) pool →
      Acc (fun next pool => Step workers h pool next) pool ∧
        (pool.Ended ∨ ∃ next, Step workers h pool next)) ∧
    Leaves workers deliveries (BuildScript.inOrder deliveries).context ∧
    ∀ outcome, Leaves workers deliveries outcome →
      ((∀ fault, .failing fault ∉ deliveries) →
        ∃ context reference, outcome = .ok context ∧
          (BuildScript.inOrder deliveries).context = .ok reference ∧ context.Alike reference ∧
          context.Gathers (deliveries.filterMap (·.invocation?)) ∧
          context.invocationCount = deliveries.length) ∧
      (∀ fault, .failing fault ∈ deliveries →
        ∃ shown, outcome = .error (.audit (.lockAbandoned shown)) ∨
          outcome = .error (.audit (.recordingFailed shown))) := by
  have hinOrder := leaves_inOrder hw deliveries
  refine ⟨fun s h pool _ => ?_, hinOrder, fun outcome hl => ⟨fun hnone => ?_, fun fault hmem => ?_⟩⟩
  · refine ⟨(wellFounded_step workers h).apply pool, ?_⟩
    by_cases hended : pool.Ended
    · exact .inl hended
    · exact .inr (exists_step hw hended)
  · have hfirst : firstFault deliveries = none :=
      Delivery.firstFault_eq_none_iff.mpr fun delivery hmem => by
        cases delivery with
        | invocation inv => rfl
        | failing fault => exact absurd hmem (hnone fault)
    obtain ⟨context, hok, hgathers, hcount⟩ := hl.recorded hfirst
    obtain ⟨reference, hreference, hothers, -⟩ := hinOrder.recorded hfirst
    exact ⟨context, reference, hok, hreference, hgathers.alike hothers, hgathers, hcount⟩
  · refine hl.abandoned fun hfirst => ?_
    cases Delivery.firstFault_eq_none_iff.mp hfirst _ hmem

/-- Two workers, once with nothing that fails and once with a delivery that may be overtaken. -/
theorem leaves_outcome_two_workers :
    let a : Delivery := .invocation ⟨.atRoot [], [.atRoot ["a.rs"]], none, none, [], false⟩
    let b : Delivery := .invocation ⟨.atRoot [], [.atRoot ["b.rs"]], none, none, [], false⟩
    let failing : Delivery := .failing (.raised "RuntimeError" "full")
    0 < 2 ∧
    (∃ outcome, Leaves 2 [a, b] outcome) ∧
    (∀ outcome, Leaves 2 [a, b] outcome →
      ∃ context, outcome = .ok context ∧ context.invocationCount = 2) ∧
    (∃ outcome, Leaves 2 [a, failing, b] outcome) ∧
    (∀ outcome, Leaves 2 [a, failing, b] outcome →
      ∃ shown, outcome = .error (.audit (.lockAbandoned shown)) ∨
        outcome = .error (.audit (.recordingFailed shown))) := by
  intro a b failing
  refine ⟨by decide, ⟨_, (leaves_outcome (by decide) [a, b]).2.1⟩, fun outcome hl => ?_,
    ⟨_, leaves_overtaken _ _ _⟩, fun outcome hl => ?_⟩
  · obtain ⟨context, -, hok, -, -, -, hcount⟩ :=
      ((leaves_outcome (by decide) [a, b]).2.2 outcome hl).1 (by simp [a, b])
    exact ⟨context, hok, hcount⟩
  · exact ((leaves_outcome (by decide) [a, failing, b]).2.2 outcome hl).2 _
      (List.mem_cons_of_mem _ List.mem_cons_self)

end Pool

namespace BuildDriver

variable {cargo : Cargo} {config : BuildConfig} {manifest : Path} {session cleaned : Session}
  {script : BuildScript}

theorem ofCargo_inOrder (h : ((ofCargo cargo config manifest).build.run session).1 = .ok script) :
    ∃ invs : List Invocation, script = .inOrder (invs.map .invocation) := by
  obtain ⟨_, _, -, h⟩ := Run.of_bind_ok h
  obtain ⟨_, _, -, h⟩ := Run.of_bind_ok h
  obtain ⟨_, _, -, h⟩ := Run.of_bind_ok h
  obtain ⟨invs, _, -, h⟩ := Run.of_bind_ok h
  cases h
  exact ⟨invs, by simp [BuildScript.inOrder, Function.comp_def]⟩

theorem interceptedBuild_leaves {workers : Nat} (hw : 0 < workers)
    (hclean : (ofCargo cargo config manifest).clean.run session = (.ok (), cleaned))
    (hbuild : ((ofCargo cargo config manifest).build.run cleaned).1 = .ok script) :
    ∃ invs : List Invocation, Pool.Leaves workers (invs.map .invocation)
      ((interceptedBuild (ofCargo cargo config manifest)).run session).1 := by
  obtain ⟨invs, hscript⟩ := ofCargo_inOrder hbuild
  refine ⟨invs, ?_⟩
  rw [interceptedBuild_run _ hclean, scriptIn, hbuild, hscript]
  exact Pool.leaves_inOrder hw _

end BuildDriver

end UnsafeAudit
