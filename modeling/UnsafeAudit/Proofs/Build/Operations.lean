import UnsafeAudit.Proofs.Build.Handles

/-!
# Runs of operations on handles

Handles of one context are made, released, locked and drained in any order. At
all times there is an owner for each handle that was not released, and the
context holds what the bodies run under its lock have made of it. It is drained
by its only owner and once; then no handle is left. Once poisoned it is neither
locked nor drained any more (`run_guards_context`).
-/

namespace UnsafeAudit.SharedContext

/-- What someone who holds the lock does with the context. -/
abbrev Body := BuildContext → BuildContext × Except Fault Unit

/-- A whole operation on one of the handles of a context. -/
inductive Operation
  | clone (h : Handle)
  | release (h : Handle)
  /-- Leaves a block that the handle was opened for. -/
  | leave (h : Handle)
  | lock (h : Handle) (body : Body)
  | drain (h : Handle)

inductive Answer
  | done
  | made (h : Handle)
  | drained (context : BuildContext)

def perform (s : SharedContext) : Operation → SharedContext × Except Failure Answer
  | .clone h =>
    match s.clone h with
    | .ok (s, made) => (s, .ok (.made made))
    | .error refusal => (s, .error (.audit (.contextOwnership refusal)))
  | .release h | .leave h => (s.release h, .ok .done)
  | .lock h body =>
    let (s, result) := s.lock h body
    (s, result.map fun () => .done)
  | .drain h =>
    let (s, result) := s.intoInner h
    (s, (result.map .drained).mapError .audit)

def run (s : SharedContext) (ops : List Operation) : SharedContext :=
  ops.foldl (fun s op => (s.perform op).1) s

/-- The body that an operation runs, if it is one that locks the context and if the lock opens. -/
def entered (s : SharedContext) : Operation → List Body
  | .lock h body =>
    match s.entry h with
    | .ok _ => [body]
    | .error _ => []
  | _ => []

def bodies (s : SharedContext) : List Operation → List Body
  | [] => []
  | op :: rest => s.entered op ++ (s.perform op).1.bodies rest

def drainedBy : Except Failure Answer → List BuildContext
  | .ok (.drained context) => [context]
  | _ => []

def drains (s : SharedContext) : List Operation → List BuildContext
  | [] => []
  | op :: rest => drainedBy (s.perform op).2 ++ (s.perform op).1.drains rest

/-- What bodies make of a context, one after the other, whether or not they fail in the end. -/
def afterBodies (initial : BuildContext) (bodies : List Body) : BuildContext :=
  bodies.foldl (fun context body => (body context).1) initial

/-- What an operation can do to a context and its handles, and what it answers. -/
inductive Effect (s : SharedContext) : Operation → SharedContext → Except Failure Answer → Prop
  | refused (e : AuditError) (hnone : s.entered op = []) : Effect s op s (.error (.audit e))
  | made (hh : s.isReleased h = false) : Effect s (.clone h)
      { s with owners := s.owners + 1, released := s.released ++ [false] }
      (.ok (.made s.released.length))
  | gaveBack (hop : op = .release h ∨ op = .leave h) : Effect s op (s.release h) (.ok .done)
  | locked (body : Body) (he : s.entry h = .ok held) : Effect s (.lock h body)
      { s with context := some (body held).1, poison := poisonOf (body held).2 }
      (((body held).2.mapError .fault).map fun () => .done)
  | drained (ho : s.owners = 1) (he : s.entry h = .ok held) : Effect s (.drain h)
      ({ s with context := none }.release h) (.ok (.drained held))

variable {s : SharedContext} {op : Operation} {failure : Failure} {initial : BuildContext}

theorem run_append (s : SharedContext) (ops later : List Operation) :
    s.run (ops ++ later) = (s.run ops).run later := List.foldl_append

theorem drains_append (s : SharedContext) (ops later : List Operation) :
    s.drains (ops ++ later) = s.drains ops ++ (s.run ops).drains later := by
  induction ops generalizing s with
  | nil => rfl
  | cons op rest ih =>
    rw [List.cons_append, drains, drains, ih, List.append_assoc]
    rfl

-- ---------------------------------------------------------------------------
-- One operation
-- ---------------------------------------------------------------------------

theorem perform_effect (s : SharedContext) (op : Operation) :
    Effect s op (s.perform op).1 (s.perform op).2 := by
  cases op with
  | clone h =>
    cases hh : s.isReleased h with
    | true =>
      rw [perform, clone_refused hh]
      exact .refused _ rfl
    | false =>
      rw [perform, clone_ok hh]
      exact .made hh
  | release h => exact .gaveBack (.inl rfl)
  | leave h => exact .gaveBack (.inr rfl)
  | lock h body =>
    cases he : s.entry h with
    | error e =>
      rw [perform, lock_refused he]
      exact .refused e (by rw [entered, he])
    | ok context =>
      rw [perform, lock_entered he]
      exact .locked body he
  | drain h =>
    cases hh : s.isReleased h with
    | true =>
      rw [perform, intoInner_released hh]
      exact .refused _ rfl
    | false =>
      by_cases ho : s.owners = 1
      · rw [perform, intoInner_alone hh ho]
        cases he : s.entry h with
        | error e => exact .refused e rfl
        | ok context => exact .drained ho he
      · rw [perform, intoInner_shared hh ho]
        exact .refused _ rfl

theorem perform_error (hf : (s.perform op).2 = .error failure) (hnone : s.entered op = []) :
    (s.perform op).1 = s := by
  have heffect := s.perform_effect op
  rw [hf] at heffect
  generalize (s.perform op).1 = t at heffect
  generalize hresult : Except.error failure = result at heffect
  cases heffect with
  | refused => rfl
  | locked body he => simp [entered, he] at hnone
  | made | gaveBack | drained => cases hresult

/-- Poison stays, and keeps everybody from locking and draining. -/
theorem perform_poisoned (hp : s.isPoisoned = true) (op : Operation) :
    (s.perform op).1.isPoisoned = true ∧ s.entered op = [] ∧ drainedBy (s.perform op).2 = [] := by
  have hclosed : ∀ h context, s.entry h ≠ .ok context := by
    intro h context he
    rw [isPoisoned, (entry_eq_ok_iff.mp he).2.1] at hp
    cases hp
  have heffect := s.perform_effect op
  generalize (s.perform op).1 = t at heffect
  generalize (s.perform op).2 = result at heffect
  cases heffect with
  | refused e hnone => exact ⟨hp, hnone, rfl⟩
  | made => exact ⟨hp, rfl, rfl⟩
  | gaveBack hop =>
    refine ⟨by rw [isPoisoned, release_poison]; exact hp, ?_, rfl⟩
    rcases hop with rfl | rfl <;> rfl
  | locked body he => exact absurd he (hclosed _ _)
  | drained ho he => exact absurd he (hclosed _ _)

-- ---------------------------------------------------------------------------
-- All operations
-- ---------------------------------------------------------------------------

/-- What holds of a context after some bodies were run and some contexts taken out: it holds what
the bodies have made of it, or just this was taken out and nobody owns it. -/
structure Kept (initial : BuildContext) (bodies : List Body) (drains : List BuildContext)
    (s : SharedContext) : Prop where
  tallied : s.Tallied
  holds : s.context = some (afterBodies initial bodies) ∧ drains = [] ∨
    s.context = none ∧ drains = [afterBodies initial bodies] ∧ s.owners = 0

namespace Kept

variable {bodies : List Body} {drains : List BuildContext}

theorem start (initial : BuildContext) : Kept initial [] [] (start initial) :=
  ⟨rfl, .inl ⟨rfl, rfl⟩⟩

theorem step (hk : Kept initial bodies drains s) (op : Operation) :
    Kept initial (bodies ++ s.entered op) (drains ++ drainedBy (s.perform op).2)
      (s.perform op).1 := by
  have heffect := s.perform_effect op
  generalize (s.perform op).1 = t at heffect ⊢
  generalize (s.perform op).2 = result at heffect ⊢
  cases heffect with
  | refused e hnone =>
    rw [hnone, drainedBy, List.append_nil, List.append_nil]
    · exact hk
    · rintro context ⟨⟩
  | made hh =>
    simp only [entered, drainedBy, List.append_nil]
    refine ⟨hk.tallied.clone, hk.holds.imp_right ?_⟩
    rintro ⟨-, -, h0⟩
    exact absurd (hk.tallied.pos hh) (by omega)
  | @gaveBack _ h hop =>
    have hnone : s.entered op = [] := by rcases hop with rfl | rfl <;> rfl
    simp only [hnone, drainedBy, List.append_nil]
    refine ⟨hk.tallied.release h, ?_⟩
    rw [release_context]
    refine hk.holds.imp_right ?_
    rintro ⟨hc, hd, h0⟩
    rw [release_released (hk.tallied.released h0 h)]
    exact ⟨hc, hd, h0⟩
  | @locked h context body he =>
    have hopen := (entry_eq_ok_iff.mp he).2.2
    have hentered : s.entered (.lock h body) = [body] := by rw [entered, he]
    have hdrained : drainedBy (((body context).2.mapError .fault).map fun () => .done) = [] := by
      cases (body context).2 <;> rfl
    rw [hentered, hdrained, List.append_nil]
    refine ⟨hk.tallied, ?_⟩
    rcases hk.holds with ⟨hc, hd⟩ | ⟨hc, -, -⟩
    · rw [hc, Option.some.injEq] at hopen
      refine .inl ⟨?_, hd⟩
      rw [afterBodies, List.foldl_append, ← hopen]
      rfl
    · rw [hc] at hopen
      cases hopen
  | @drained h context ho he =>
    obtain ⟨hh, -, hopen⟩ := entry_eq_ok_iff.mp he
    simp only [entered, drainedBy, List.append_nil]
    refine ⟨Tallied.release (s := { s with context := none }) hk.tallied h, .inr ⟨?_, ?_, ?_⟩⟩
    · rw [release_context]
    · rcases hk.holds with ⟨hc, hd⟩ | ⟨hc, -, -⟩
      · rw [hc, Option.some.injEq] at hopen
        rw [hd, hopen]
        rfl
      · rw [hc] at hopen
        cases hopen
    · rw [release_live (s := { s with context := none }) hh]
      show s.owners - 1 = 0
      omega

theorem run (hk : Kept initial bodies drains s) (ops : List Operation) :
    Kept initial (bodies ++ s.bodies ops) (drains ++ s.drains ops) (s.run ops) := by
  induction ops generalizing s bodies drains with
  | nil => simpa [SharedContext.bodies, SharedContext.drains, SharedContext.run] using hk
  | cons op rest ih =>
    rw [SharedContext.bodies, SharedContext.drains, ← List.append_assoc, ← List.append_assoc]
    exact ih (hk.step op)

theorem intoInner_ok_iff (hk : Kept initial bodies drains s) (h : Handle) :
    (∃ context, (s.intoInner h).2 = .ok context) ↔
      s.isReleased h = false ∧ (∀ g, s.isReleased g = false → g = h) ∧
        s.isPoisoned = false ∧ drains = [] := by
  cases hh : s.isReleased h with
  | true => simp [intoInner_released hh]
  | false =>
    rw [← hk.tallied.owners_eq_one_iff hh]
    by_cases ho : s.owners = 1
    · rw [intoInner_alone hh ho]
      have hopen : (∃ context, s.entry h = .ok context) ↔ s.isPoisoned = false ∧ drains = [] := by
        rcases hk.holds with ⟨hc, hd⟩ | ⟨-, -, h0⟩
        · simp [entry_eq_ok_iff, hh, hc, hd, isPoisoned]
        · omega
      rw [← hopen]
      cases s.entry h <;> simp [ho]
    · simp [intoInner_shared hh ho, ho]

theorem released_of_drained (hk : Kept initial bodies drains s) (hd : drains ≠ []) (h : Handle) :
    s.isReleased h = true := by
  rcases hk.holds with ⟨-, hd'⟩ | ⟨-, -, h0⟩
  · exact absurd hd' hd
  · exact hk.tallied.released h0 h

end Kept

theorem run_poisoned (hp : s.isPoisoned = true) (later : List Operation) :
    (s.run later).isPoisoned = true ∧ s.bodies later = [] ∧ s.drains later = [] := by
  induction later generalizing s with
  | nil => exact ⟨hp, rfl, rfl⟩
  | cons op rest ih =>
    obtain ⟨hp', hentered, hdrained⟩ := perform_poisoned hp op
    obtain ⟨hrun, hbodies, hdrains⟩ := ih hp'
    rw [bodies, drains, hentered, hdrained, hbodies, hdrains]
    exact ⟨hrun, rfl, rfl⟩

/-- After any operations on the handles of a context: the owners are the handles that were not
released; the context can be taken out exactly by its only owner, unless it is poisoned or was taken
out before; an operation that fails without having run a body changes nothing; at most one context
was taken out, and it holds the work of all bodies that were run; if one was, all handles are
released for good and refuse everything; and poison lasts, no body is run and no context taken out
any more. -/
theorem run_guards_context (initial : BuildContext) (ops : List Operation) :
    let s := (start initial).run ops
    let drains := (start initial).drains ops
    s.owners = s.released.count false ∧
    (∀ h, (∃ context, (s.intoInner h).2 = .ok context) ↔ s.isReleased h = false ∧
      (∀ g, s.isReleased g = false → g = h) ∧ s.isPoisoned = false ∧ drains = []) ∧
    (∀ op failure, (s.perform op).2 = .error failure → s.entered op = [] →
      (s.perform op).1 = s) ∧
    (drains = [] ∨ drains = [afterBodies initial ((start initial).bodies ops)]) ∧
    (drains ≠ [] → ∀ later h (body : Body), let t := s.run later
      t.isReleased h = true ∧ t.clone h = .error .cloneReleased ∧
      t.lock h body = (t, .error (.audit (.contextOwnership .lockReleased))) ∧
      t.intoInner h = (t, .error (.contextOwnership .drainReleased))) ∧
    (s.isPoisoned = true → ∀ later,
      (s.run later).isPoisoned = true ∧ s.bodies later = [] ∧ s.drains later = []) := by
  intro s drains
  have hk : Kept initial ((start initial).bodies ops) drains s := by
    simpa using (Kept.start initial).run ops
  refine ⟨hk.tallied, hk.intoInner_ok_iff, fun _ _ => perform_error, ?_, ?_, run_poisoned⟩
  · rcases hk.holds with ⟨-, hd⟩ | ⟨-, hd, -⟩
    · exact .inl hd
    · exact .inr hd
  · intro hd later h body t
    have hk' := (Kept.start initial).run (ops ++ later)
    rw [List.nil_append, List.nil_append, run_append] at hk'
    have hd' : (start initial).drains (ops ++ later) ≠ [] := by
      rw [drains_append]
      exact fun hnil => hd (List.append_eq_nil_iff.mp hnil).1
    have hh := hk'.released_of_drained hd' h
    exact ⟨hh, clone_refused hh, lock_refused (entry_released hh) body, intoInner_released hh⟩

section
variable (inv : Invocation) (fault : Fault)

/-- A handle is made, locked and left, and the first one takes out the context, once. -/
example : (start .empty).drains [.clone 0, .lock 1 fun context => (context.record inv, .ok ()),
    .leave 1, .drain 0, .drain 0] = [BuildContext.empty.record inv] := rfl

/-- What a failing body did is in the context, which nobody takes out. -/
example : (start .empty).drains [.lock 0 fun context => (context.record inv, .error fault),
    .drain 0] = [] := rfl

end

end UnsafeAudit.SharedContext
