import Mathlib.Data.List.Count
import UnsafeAudit.Build.SharedContext

/-!
# Operations on handles

What a single operation on a handle does, refused or not. The number of owners
is the number of handles that were not released (`Tallied`), and what opens the
context is the same for locking and for draining it (`entry_eq_ok_iff`).
-/

namespace UnsafeAudit.SharedContext

variable {s : SharedContext} {g h : Handle} {context : BuildContext} {e : AuditError}

-- ---------------------------------------------------------------------------
-- Owners
-- ---------------------------------------------------------------------------

theorem isReleased_eq_false_iff : s.isReleased h = false ↔ s.released[h]? = some false := by
  rw [isReleased, List.getD_eq_getElem?_getD]
  cases s.released[h]? <;> simp

def Tallied (s : SharedContext) : Prop := s.owners = s.released.count false

theorem count_set_released {released : List Bool} (hh : released[h]? = some false) :
    (released.set h true).count false + 1 = released.count false := by
  obtain ⟨hlt, hv⟩ := List.getElem?_eq_some_iff.mp hh
  have hpos : 0 < released.count false := List.count_pos_iff.mpr (List.mem_of_getElem? hh)
  rw [List.count_set hlt, hv]
  show released.count false - 1 + 0 + 1 = _
  omega

namespace Tallied

theorem pos (ht : s.Tallied) (hh : s.isReleased h = false) : 0 < s.owners := by
  rw [ht]
  exact List.count_pos_iff.mpr (List.mem_of_getElem? (isReleased_eq_false_iff.mp hh))

theorem released (ht : s.Tallied) (h0 : s.owners = 0) (h : Handle) : s.isReleased h = true := by
  cases hh : s.isReleased h with
  | true => rfl
  | false => exact absurd (ht.pos hh) (by omega)

/-- A handle is the only owner if and only if every other one was released. -/
theorem owners_eq_one_iff (ht : s.Tallied) (hh : s.isReleased h = false) :
    s.owners = 1 ↔ ∀ g, s.isReleased g = false → g = h := by
  have hh' := isReleased_eq_false_iff.mp hh
  have hcount := count_set_released hh'
  rw [ht]
  constructor
  · intro hone g hg
    by_contra hne
    have hmem : false ∈ s.released.set h true := by
      refine List.mem_of_getElem? (i := g) ?_
      rw [List.getElem?_set_ne (Ne.symm hne)]
      exact isReleased_eq_false_iff.mp hg
    have := List.count_pos_iff.mpr hmem
    omega
  · intro honly
    have hnone : false ∉ s.released.set h true := by
      intro hmem
      obtain ⟨g, hg⟩ := List.mem_iff_getElem?.mp hmem
      by_cases hgh : h = g
      · subst hgh
        obtain ⟨hlt, -⟩ := List.getElem?_eq_some_iff.mp hh'
        rw [List.getElem?_set_self hlt] at hg
        cases hg
      · rw [List.getElem?_set_ne hgh] at hg
        exact hgh (honly g (isReleased_eq_false_iff.mpr hg)).symm
    have := List.count_eq_zero.mpr hnone
    omega

end Tallied

-- ---------------------------------------------------------------------------
-- Making and releasing handles
-- ---------------------------------------------------------------------------

theorem clone_refused (hh : s.isReleased h = true) : s.clone h = .error .cloneReleased := if_pos hh

theorem clone_ok (hh : s.isReleased h = false) : s.clone h =
    .ok ({ s with owners := s.owners + 1, released := s.released ++ [false] },
      s.released.length) := by
  rw [clone, hh]
  rfl

theorem Tallied.clone (ht : s.Tallied) :
    Tallied { s with owners := s.owners + 1, released := s.released ++ [false] } := by
  show s.owners + 1 = (s.released ++ [false]).count false
  rw [List.count_append, ht]
  rfl

theorem release_released (hh : s.isReleased h = true) : s.release h = s := if_pos hh

theorem release_live (hh : s.isReleased h = false) : s.release h =
    { s with owners := s.owners - 1, released := s.released.set h true } := by
  rw [release, hh]
  rfl

theorem released_release (s : SharedContext) (h : Handle) :
    (s.release h).released = s.released.set h true := by
  cases hh : s.isReleased h with
  | false => rw [release_live hh]
  | true =>
    rw [release_released hh]
    rw [isReleased, List.getD_eq_getElem?_getD] at hh
    refine List.ext_getElem? fun g => ?_
    rw [List.getElem?_set]
    split
    · rename_i heq
      subst heq
      cases hv : s.released[h]? with
      | none => rw [if_neg (by simpa using hv)]
      | some back =>
        rw [hv] at hh
        rw [if_pos (List.getElem?_eq_some_iff.mp hv).1, ← hh]
        rfl
    · rfl

theorem Tallied.release (ht : s.Tallied) (h : Handle) : (s.release h).Tallied := by
  cases hh : s.isReleased h with
  | true => rwa [release_released hh]
  | false =>
    rw [release_live hh]
    show s.owners - 1 = (s.released.set h true).count false
    rw [ht, ← count_set_released (isReleased_eq_false_iff.mp hh), Nat.add_sub_cancel]

@[simp] theorem release_context (s : SharedContext) (h : Handle) :
    (s.release h).context = s.context := by
  unfold release; split <;> rfl

@[simp] theorem release_poison (s : SharedContext) (h : Handle) :
    (s.release h).poison = s.poison := by
  unfold release; split <;> rfl

-- ---------------------------------------------------------------------------
-- Opening the context
-- ---------------------------------------------------------------------------

theorem entry_eq_ok_iff : s.entry h = .ok context ↔
    s.isReleased h = false ∧ s.poison = none ∧ s.context = some context := by
  unfold entry
  cases s.isReleased h <;> cases s.poison <;> cases s.context <;> simp

theorem entry_released (hh : s.isReleased h = true) :
    s.entry h = .error (.contextOwnership .lockReleased) := if_pos hh

theorem entry_poisoned (hh : s.isReleased h = false) (hp : s.poison = some shown) :
    s.entry h = .error (.lockAbandoned shown) := by
  rw [entry, hh, hp]
  rfl

def poisonOf : Except Fault α → Option String
  | .ok _ => none
  | .error fault => some fault.quotedText

theorem lock_refused (he : s.entry h = .error e)
    (body : BuildContext → BuildContext × Except Fault α) :
    s.lock h body = (s, .error (.audit e)) := by
  rw [lock, he]

theorem lock_entered (he : s.entry h = .ok context)
    (body : BuildContext → BuildContext × Except Fault α) :
    s.lock h body = ({ s with context := some (body context).1, poison := poisonOf (body context).2 },
      (body context).2.mapError .fault) := by
  have hp := (entry_eq_ok_iff.mp he).2.1
  rw [lock, he]
  dsimp only
  generalize body context = result
  obtain ⟨after, fault | a⟩ := result
  · rfl
  · show ({ s with context := some after }, Except.ok a) =
      ({ s with context := some after, poison := none }, Except.ok a)
    rw [← hp]

theorem intoInner_released (hh : s.isReleased h = true) :
    s.intoInner h = (s, .error (.contextOwnership .drainReleased)) := if_pos hh

theorem intoInner_shared (hh : s.isReleased h = false) (ho : s.owners ≠ 1) :
    s.intoInner h = (s, .error (.contextOwnership (.stillShared s.owners))) := by
  rw [intoInner, hh]
  exact if_pos ho

theorem intoInner_alone (hh : s.isReleased h = false) (ho : s.owners = 1) :
    s.intoInner h = match s.entry h with
      | .error e => (s, .error e)
      | .ok context => ({ s with context := none }.release h, .ok context) := by
  rw [intoInner, hh]
  exact if_neg (not_not_intro ho)

end UnsafeAudit.SharedContext
