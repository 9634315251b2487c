import Mathlib.Data.List.Induction
import UnsafeAudit.Proofs.Build.Recorded

/-!
# Option positions of a command line

Whether an argument is an option or the value of one depends on all that stands
before it. Reading stops at the option positions and nowhere else: a list says
what it says at these (`settings_eq_filterMap`), and every other argument is the
value of the option before it (`position_or_value`, `OptionPosition.not_value`).
-/

namespace UnsafeAudit.Invocation

/-- The positions at which reading an argument list goes on: behind an argument that is read alone,
and behind the value of an option. -/
inductive OptionPosition (args : List String) : Nat → Prop
  | start : OptionPosition args 0
  | alone {i arg} : OptionPosition args i → args[i]? = some arg → bare? arg = none →
    OptionPosition args (i + 1)
  | pair {i} {which : ValueOption} {text} : OptionPosition args i →
    args[i]? = some which.spelling → args[i + 1]? = some text → OptionPosition args (i + 2)

def ValuePosition (args : List String) (i : Nat) : Prop :=
  ∃ j, ∃ which : ValueOption, i = j + 1 ∧ OptionPosition args j ∧ args[j]? = some which.spelling

/-- The last argument is an option whose value is still to come. -/
def Waiting (args : List String) : Prop := ValuePosition args args.length

variable {args other a b rest : List String} {arg text : String} {i j : Nat} {which : ValueOption}

-- ---------------------------------------------------------------------------
-- One argument
-- ---------------------------------------------------------------------------

theorem bare?_eq_some_iff : bare? arg = some which ↔ arg = which.spelling := by
  constructor
  · intro h
    rw [bare?] at h
    have hfound := List.find?_some h
    exact (beq_iff_eq.mp hfound).symm
  · rintro rfl
    cases which <;> rfl

@[simp] theorem bare?_spelling (which : ValueOption) : bare? which.spelling = some which :=
  bare?_eq_some_iff.mpr rfl

theorem bare?_eq_none_iff : bare? arg = none ↔ ∀ which : ValueOption, arg ≠ which.spelling := by
  rw [Option.eq_none_iff_forall_ne_some]
  exact forall_congr' fun which => not_congr bare?_eq_some_iff

theorem joined?_eq_some_iff :
    joined? arg = some (which, text) ↔ arg = which.spelling ++ "=" ++ text := by
  constructor
  · intro h
    obtain ⟨found, -, h⟩ := List.exists_of_findSome?_eq_some h
    simp only at h
    split at h
    · rename_i hstart
      obtain ⟨tail, htail⟩ := List.isPrefixOf_iff_prefix.mp hstart
      cases h
      rw [← String.toList_inj, ← htail, List.drop_left]
      simp
    · cases h
  · rintro rfl
    cases which <;> simp [joined?, ValueOption.all, ValueOption.spelling, String.toList_append]

theorem bare?_joined (which : ValueOption) (text : String) :
    bare? (which.spelling ++ "=" ++ text) = none := by
  rw [bare?_eq_none_iff]
  intro other h
  have h := congrArg String.toList h
  cases which <;> cases other <;> simp [ValueOption.spelling, String.toList_append] at h

/-- What an argument says that is no option waiting for its value. -/
def alone? (arg : String) : Option Setting :=
  match joined? arg with
  | some (which, text) => some (.value which (some text))
  | none => plain? arg

theorem alone?_joined (which : ValueOption) (text : String) :
    alone? (which.spelling ++ "=" ++ text) = some (.value which (some text)) := by
  rw [alone?, joined?_eq_some_iff.mpr rfl]

theorem settings_alone (h : bare? arg = none) :
    settings (arg :: rest) = (alone? arg).toList ++ settings rest := by
  rw [settings.eq_def]
  simp only [h, alone?]
  cases joined? arg <;> rfl

theorem settings_pair (which : ValueOption) (text : String) (rest : List String) :
    settings (which.spelling :: text :: rest) = .value which (some text) :: settings rest := by
  rw [settings, bare?_spelling]

theorem settings_last (which : ValueOption) :
    settings [which.spelling] = [.value which none] := by
  rw [settings, bare?_spelling]

/-- An argument list is read from its front: an argument alone, or an option and its value. -/
@[elab_as_elim]
theorem reading_induction {motive : List String → Prop} (nil : motive [])
    (alone : ∀ arg rest, bare? arg = none → motive rest → motive (arg :: rest))
    (last : ∀ which : ValueOption, motive [which.spelling])
    (pair : ∀ (which : ValueOption) text rest, motive rest →
      motive (which.spelling :: text :: rest)) (args : List String) : motive args := by
  fun_induction settings args with
  | case1 => exact nil
  | case2 arg which h => exact bare?_eq_some_iff.mp h ▸ last which
  | case3 arg which h text rest ih => exact bare?_eq_some_iff.mp h ▸ pair which text rest ih
  | case4 arg rest h _ _ _ ih => exact alone arg rest h ih
  | case5 arg rest h _ ih => exact alone arg rest h ih

-- ---------------------------------------------------------------------------
-- Option positions
-- ---------------------------------------------------------------------------

namespace OptionPosition

theorem congr (h : OptionPosition args i) (hsame : ∀ j < i, other[j]? = args[j]?) :
    OptionPosition other i := by
  induction h with
  | start => exact .start
  | @alone i arg _ harg hbare ih =>
    exact (ih fun j hj => hsame j (by omega)).alone ((hsame i (by omega)).trans harg) hbare
  | @pair i which text _ harg htext ih =>
    exact (ih fun j hj => hsame j (by omega)).pair ((hsame i (by omega)).trans harg)
      ((hsame (i + 1) (by omega)).trans htext)

theorem le_length (h : OptionPosition args i) : i ≤ args.length := by
  cases h with
  | start => exact Nat.zero_le _
  | alone _ harg _ => exact (List.getElem?_eq_some_iff.mp harg).1
  | pair _ _ htext => exact (List.getElem?_eq_some_iff.mp htext).1

theorem cons_alone_iff (hbare : bare? arg = none) :
    OptionPosition (arg :: rest) (i + 1) ↔ OptionPosition rest i := by
  constructor
  · have hall : ∀ k, OptionPosition (arg :: rest) k → k = 0 ∨ OptionPosition rest (k - 1) := by
      intro k h
      induction h with
      | start => exact .inl rfl
      | @alone k other _ hother hnone ih =>
        cases k with
        | zero => exact .inr .start
        | succ k => exact .inr ((ih.resolve_left (by omega)).alone hother hnone)
      | @pair k which text _ hother htext ih =>
        cases k with
        | zero =>
          cases hother
          rw [bare?_spelling] at hbare
          cases hbare
        | succ k => exact .inr ((ih.resolve_left (by omega)).pair hother htext)
    exact fun h => (hall _ h).resolve_left (by omega)
  · intro h
    induction h with
    | start => exact OptionPosition.start.alone rfl hbare
    | alone _ hother hnone ih => exact ih.alone hother hnone
    | pair _ hother htext ih => exact ih.pair hother htext

theorem cons_pair_iff : OptionPosition (which.spelling :: text :: rest) (i + 2) ↔
    OptionPosition rest i := by
  constructor
  · have hall : ∀ k, OptionPosition (which.spelling :: text :: rest) k →
        k = 0 ∨ 2 ≤ k ∧ OptionPosition rest (k - 2) := by
      intro k h
      induction h with
      | start => exact .inl rfl
      | @alone k other _ hother hnone ih =>
        rcases ih with rfl | ⟨hk, ih⟩
        · cases hother
          rw [bare?_spelling] at hnone
          cases hnone
        · obtain ⟨k, rfl⟩ := Nat.exists_eq_add_of_le' hk
          exact .inr ⟨by omega, ih.alone hother hnone⟩
      | @pair k other text _ hother htext ih =>
        rcases ih with rfl | ⟨hk, ih⟩
        · exact .inr ⟨by omega, .start⟩
        · obtain ⟨k, rfl⟩ := Nat.exists_eq_add_of_le' hk
          exact .inr ⟨by omega, ih.pair hother htext⟩
    exact fun h => ((hall _ h).resolve_left (by omega)).2
  · intro h
    induction h with
    | start => exact OptionPosition.start.pair rfl rfl
    | alone _ hother hnone ih => exact ih.alone hother hnone
    | pair _ hother htext ih => exact ih.pair hother htext

theorem not_value (h : OptionPosition args i) : ¬ ValuePosition args i := by
  induction i using Nat.strongRecOn with
  | ind i ih =>
    rintro ⟨j, which, rfl, hj, harg⟩
    cases h with
    | alone _ hother hnone =>
      rw [Option.some.inj (hother.symm.trans harg), bare?_spelling] at hnone
      cases hnone
    | @pair i _ _ hi hother _ => exact ih (i + 1) (by omega) hj ⟨i, _, rfl, hi, hother⟩

end OptionPosition

theorem position_or_value (h : i ≤ args.length) : OptionPosition args i ∨ ValuePosition args i := by
  induction i with
  | zero => exact .inl .start
  | succ i ih =>
    have harg : args[i]? = some args[i] := List.getElem?_eq_getElem h
    rcases ih (by omega) with hi | ⟨j, which, rfl, hj, hoption⟩
    · cases hbare : bare? args[i] with
      | none => exact .inl (hi.alone harg hbare)
      | some which => exact .inr ⟨i, which, rfl, hi, bare?_eq_some_iff.mp hbare ▸ harg⟩
    · exact .inl (hj.pair hoption harg)

theorem valuePosition_iff (h : i ≤ args.length) : ValuePosition args i ↔ ¬ OptionPosition args i :=
  ⟨fun hvalue hi => hi.not_value hvalue, (position_or_value h).resolve_left⟩

theorem not_waiting_iff : ¬ Waiting args ↔ OptionPosition args args.length := by
  rw [Waiting, valuePosition_iff (Nat.le_refl _), not_not]

-- ---------------------------------------------------------------------------
-- What is read
-- ---------------------------------------------------------------------------

theorem settings_append (ha : ¬ Waiting a) (b : List String) :
    settings (a ++ b) = settings a ++ settings b := by
  rw [not_waiting_iff] at ha
  induction a using reading_induction with
  | nil => rfl
  | alone arg rest hbare ih =>
    rw [List.cons_append, settings_alone hbare, settings_alone hbare, List.append_assoc,
      ih ((OptionPosition.cons_alone_iff hbare).mp ha)]
  | last which => exact absurd ⟨0, which, rfl, .start, rfl⟩ ha.not_value
  | pair which text rest ih =>
    rw [List.cons_append, List.cons_append, settings_pair, settings_pair, List.cons_append,
      ih (OptionPosition.cons_pair_iff.mp ha)]

theorem OptionPosition.not_waiting_take (h : OptionPosition args i) : ¬ Waiting (args.take i) := by
  rw [not_waiting_iff, List.length_take, Nat.min_eq_left h.le_length]
  exact h.congr fun j hj => List.getElem?_take_of_lt hj

theorem settings_split (h : OptionPosition args i) :
    settings args = settings (args.take i) ++ settings (args.drop i) := by
  rw [← settings_append h.not_waiting_take, List.take_append_drop]

/-- What an argument list says at a position: the argument there, and behind an option without a
value the next argument, if there is one. -/
def settingAt? (args : List String) (i : Nat) : Option Setting :=
  args[i]?.bind fun arg =>
    match bare? arg with
    | some which => some (.value which args[i + 1]?)
    | none => alone? arg

theorem filter_range_succ (p : Nat → Bool) (n : Nat) : (List.range (n + 1)).filter p =
    (if p 0 then [0] else []) ++ ((List.range n).filter fun i => p (i + 1)).map (· + 1) := by
  rw [List.range_succ_eq_map, List.filter_cons, List.filter_map]
  split <;> rfl

open Classical in
noncomputable def optionPositions (args : List String) : List Nat :=
  (List.range args.length).filter (OptionPosition args ·)

theorem mem_optionPositions :
    i ∈ optionPositions args ↔ i < args.length ∧ OptionPosition args i := by
  simp [optionPositions]

open Classical in
theorem optionPositions_alone (hbare : bare? arg = none) :
    optionPositions (arg :: rest) = 0 :: (optionPositions rest).map (· + 1) := by
  rw [optionPositions, List.length_cons, filter_range_succ, if_pos (decide_eq_true .start)]
  simp only [OptionPosition.cons_alone_iff hbare]
  rfl

open Classical in
theorem optionPositions_last (which : ValueOption) : optionPositions [which.spelling] = [0] := by
  rw [optionPositions, List.length_singleton, filter_range_succ, if_pos (decide_eq_true .start)]
  rfl

open Classical in
theorem optionPositions_pair (which : ValueOption) (text : String) (rest : List String) :
    optionPositions (which.spelling :: text :: rest) = 0 :: (optionPositions rest).map (· + 2) := by
  have hvalue : ¬ OptionPosition (which.spelling :: text :: rest) (0 + 1) :=
    fun h => h.not_value ⟨0, which, rfl, .start, rfl⟩
  rw [optionPositions, List.length_cons, List.length_cons, filter_range_succ, filter_range_succ,
    if_pos (decide_eq_true .start), if_neg (by simpa using hvalue), List.nil_append, List.map_map]
  simp only [OptionPosition.cons_pair_iff]
  rfl

theorem settings_eq_filterMap (args : List String) :
    settings args = (optionPositions args).filterMap (settingAt? args) := by
  induction args using reading_induction with
  | nil => rfl
  | alone arg rest hbare ih =>
    have hfirst : settingAt? (arg :: rest) 0 = alone? arg := by simp [settingAt?, hbare]
    rw [settings_alone hbare, ih, optionPositions_alone hbare, List.filterMap_cons, hfirst,
      List.filterMap_map]
    cases alone? arg <;> rfl
  | last which =>
    rw [settings_last, optionPositions_last]
    simp [settingAt?]
  | pair which text rest ih =>
    have hfirst : settingAt? (which.spelling :: text :: rest) 0 =
        some (.value which (some text)) := by simp [settingAt?]
    rw [settings_pair, ih, optionPositions_pair, List.filterMap_cons, hfirst, List.filterMap_map]
    rfl

end UnsafeAudit.Invocation
