/-!
# Loops that may fail

A loop over a list succeeds exactly if all its steps do, and its results are
those of the steps, in order.
-/

namespace UnsafeAudit

theorem of_bind_ok {part : Except ε α} {next : α → Except ε β} (h : part >>= next = .ok b) :
    ∃ a, part = .ok a ∧ next a = .ok b := by
  cases part with
  | error e => cases h
  | ok a => exact ⟨a, rfl, h⟩

theorem bind_eq_error_iff {part : Except ε α} {next : α → Except ε β} {e : ε} :
    part >>= next = .error e ↔ part = .error e ∨ ∃ a, part = .ok a ∧ next a = .error e := by
  cases part <;> simp [bind, Except.bind]

def failure? : Except ε α → Option ε
  | .error e => some e
  | .ok _ => none

theorem failure?_eq_some_iff {result : Except ε α} {e : ε} :
    failure? result = some e ↔ result = .error e := by
  cases result <;> simp [failure?]

theorem failure?_eq_none_iff {result : Except ε α} :
    failure? result = none ↔ ∃ a, result = .ok a := by
  cases result <;> simp [failure?]

theorem map_eq_error_iff {result : Except ε α} {f : α → β} {e : ε} :
    result.map f = .error e ↔ result = .error e := by
  cases result <;> simp [Except.map]

@[simp] theorem mapError_ok (f : ε → δ) (a : α) :
    (Except.ok a : Except ε α).mapError f = .ok a := rfl

@[simp] theorem mapError_error (f : ε → δ) (e : ε) :
    (Except.error e : Except ε α).mapError f = .error (f e) := rfl

theorem mapError_eq_error_iff {result : Except ε α} {f : ε → δ} {e : δ} :
    result.mapError f = .error e ↔ ∃ cause, result = .error cause ∧ f cause = e := by
  cases result <;> simp

theorem of_mapError_ok {result : Except ε α} {f : ε → δ} (h : result.mapError f = .ok a) :
    result = .ok a := by
  cases result with
  | error e => cases h
  | ok b => cases h; rfl

theorem exists_of_map_ok {result : Except ε α} {f : α → β} (h : result.map f = .ok b) :
    ∃ a, result = .ok a := by
  cases result with
  | error e => cases h
  | ok a => exact ⟨a, rfl⟩

theorem mapM_ok {f : α → Except ε β} {g : α → β} {l : List α} (h : ∀ a ∈ l, f a = .ok (g a)) :
    l.mapM f = .ok (l.map g) := by
  induction l with
  | nil => rfl
  | cons a rest ih =>
    rw [List.mapM_cons, h a List.mem_cons_self, ih fun b hb => h b (List.mem_cons_of_mem _ hb)]
    rfl

theorem optionMapM_some_ok_iff {f : α → Except ε β} {b? : Option β} :
    (some a).mapM f = .ok b? ↔ ∃ b, f a = .ok b ∧ b? = some b := by
  show some <$> f a = .ok b? ↔ _
  cases f a with
  | error e => exact ⟨nofun, nofun⟩
  | ok b =>
    constructor
    · rintro ⟨⟩
      exact ⟨b, rfl, rfl⟩
    · rintro ⟨_, ⟨⟩, rfl⟩
      rfl

theorem optionMapM_some_error_iff {f : α → Except ε β} {e : ε} :
    (some a).mapM f = .error e ↔ f a = .error e := map_eq_error_iff

theorem filterMapM_ok {f : α → Except ε (Option β)} {g : α → Option β} {l : List α}
    (h : ∀ a ∈ l, f a = .ok (g a)) : l.filterMapM f = .ok (l.filterMap g) := by
  induction l with
  | nil => rfl
  | cons a rest ih =>
    have ih := ih fun b hb => h b (List.mem_cons_of_mem _ hb)
    rw [List.filterMapM_cons, h a List.mem_cons_self, List.filterMap_cons]
    cases hg : g a with
    | none => exact ih
    | some b => simp only [ih]; rfl

theorem filterM_ok {p : α → Except ε Bool} {q : α → Bool} {l : List α}
    (h : ∀ a ∈ l, p a = .ok (q a)) : l.filterM p = .ok (l.filter q) := by
  have haux : ∀ acc, l.filterAuxM p acc = .ok ((l.filter q).reverse ++ acc) := by
    induction l with
    | nil => exact fun _ => rfl
    | cons a rest ih =>
      intro acc
      have ih := ih fun b hb => h b (List.mem_cons_of_mem _ hb)
      rw [List.filterAuxM, h a List.mem_cons_self, List.filter_cons]
      cases hq : q a
      · exact ih acc
      · rw [if_pos rfl, List.reverse_cons, List.append_assoc]
        exact ih (a :: acc)
  rw [List.filterM, haux, List.append_nil]
  exact congrArg Except.ok (List.reverse_reverse _)

-- ---------------------------------------------------------------------------
-- Loops that have succeeded
-- ---------------------------------------------------------------------------

section
variable {f : α → Except ε β} {l : List α} {bs : List β}

theorem of_mapM_cons_ok (h : (a :: l).mapM f = .ok bs) :
    ∃ b rest, f a = .ok b ∧ l.mapM f = .ok rest ∧ bs = b :: rest := by
  rw [List.mapM_cons] at h
  obtain ⟨b, hb, h⟩ := of_bind_ok h
  obtain ⟨rest, hrest, h⟩ := of_bind_ok h
  cases h
  exact ⟨b, rest, hb, hrest, rfl⟩

theorem mapM_nil_ok_iff : ([] : List α).mapM f = .ok bs ↔ bs = [] := by
  rw [List.mapM_nil]
  exact ⟨fun h => by cases h; rfl, fun h => by rw [h]; rfl⟩

theorem exists_mapM_ok_iff : (∃ bs, l.mapM f = .ok bs) ↔ ∀ a ∈ l, ∃ b, f a = .ok b := by
  induction l with
  | nil => exact ⟨nofun, fun _ => ⟨[], rfl⟩⟩
  | cons a rest ih =>
    rw [List.forall_mem_cons, ← ih]
    constructor
    · rintro ⟨_, h⟩
      obtain ⟨b, bs, hb, hbs, -⟩ := of_mapM_cons_ok h
      exact ⟨⟨b, hb⟩, bs, hbs⟩
    · rintro ⟨⟨b, hb⟩, bs, hbs⟩
      refine ⟨b :: bs, ?_⟩
      rw [List.mapM_cons, hb, hbs]
      rfl

theorem mem_of_mapM_ok (h : l.mapM f = .ok bs) : b ∈ bs ↔ ∃ a ∈ l, f a = .ok b := by
  induction l generalizing bs with
  | nil => simp [mapM_nil_ok_iff.mp h]
  | cons a rest ih =>
    obtain ⟨c, cs, hc, hcs, rfl⟩ := of_mapM_cons_ok h
    simp only [List.mem_cons, ih hcs, exists_eq_or_imp, hc, Except.ok.injEq]
    rw [eq_comm]

/-- The order of a list shows in the order of the results only. -/
theorem exists_mapM_of_perm {l' : List α} {bs' : List β} (hp : l.Perm l')
    (h : l'.mapM f = .ok bs') : ∃ bs, l.mapM f = .ok bs ∧ bs.Perm bs' := by
  induction hp generalizing bs' with
  | nil => exact ⟨bs', h, .refl _⟩
  | cons a _ ih =>
    obtain ⟨b, rest, hb, hrest, rfl⟩ := of_mapM_cons_ok h
    obtain ⟨bs, hbs, hperm⟩ := ih hrest
    exact ⟨b :: bs, by rw [List.mapM_cons, hb, hbs]; rfl, hperm.cons b⟩
  | swap a a' l =>
    obtain ⟨b, _, hb, hmore, rfl⟩ := of_mapM_cons_ok h
    obtain ⟨b', rest, hb', hrest, rfl⟩ := of_mapM_cons_ok hmore
    refine ⟨b' :: b :: rest, ?_, .swap ..⟩
    rw [List.mapM_cons, List.mapM_cons, hb, hb', hrest]
    rfl
  | trans _ _ ih ih' =>
    obtain ⟨bs, hbs, hperm⟩ := ih' h
    obtain ⟨bs'', hbs'', hperm'⟩ := ih hbs
    exact ⟨bs'', hbs'', hperm'.trans hperm⟩

theorem map_of_mapM_ok {g : β → γ} {k : α → γ} (h : l.mapM f = .ok bs)
    (hf : ∀ a b, f a = .ok b → g b = k a) : bs.map g = l.map k := by
  induction l generalizing bs with
  | nil => simp [mapM_nil_ok_iff.mp h]
  | cons a rest ih =>
    obtain ⟨c, cs, hc, hcs, rfl⟩ := of_mapM_cons_ok h
    rw [List.map_cons, List.map_cons, hf a c hc, ih hcs]

/-- A loop fails as the first of its steps that fails. -/
theorem mapM_eq_error_iff {e : ε} :
    l.mapM f = .error e ↔ l.findSome? (fun a => failure? (f a)) = some e := by
  induction l with
  | nil => exact ⟨nofun, nofun⟩
  | cons a rest ih =>
    rw [List.mapM_cons, List.findSome?_cons]
    cases f a with
    | error first => simp [failure?, bind, Except.bind]
    | ok b =>
      show _ ↔ rest.findSome? _ = some e
      rw [← ih]
      cases rest.mapM f with
      | error first => exact Iff.rfl
      | ok bs => simp [bind, Except.bind, pure, Except.pure]

theorem mapM_eq_error_iff_split {e : ε} : l.mapM f = .error e ↔
    ∃ before a after, l = before ++ a :: after ∧ f a = .error e ∧
      ∀ b ∈ before, ∃ c, f b = .ok c := by
  rw [mapM_eq_error_iff, List.findSome?_eq_some_iff]
  simp only [failure?_eq_some_iff, failure?_eq_none_iff]

theorem exists_of_mapM_error {e : ε} (h : l.mapM f = .error e) : ∃ a ∈ l, f a = .error e := by
  obtain ⟨before, a, after, rfl, ha, -⟩ := mapM_eq_error_iff_split.mp h
  exact ⟨a, by simp, ha⟩

theorem mapM_map_result (f : α → Except ε β) (g : β → γ) (l : List α) :
    l.mapM (fun a => (f a).map g) = (l.mapM f).map (·.map g) := by
  induction l with
  | nil => rfl
  | cons a rest ih =>
    rw [List.mapM_cons, List.mapM_cons, ih]
    cases f a with
    | error e => rfl
    | ok b => cases rest.mapM f <;> rfl

/-- A loop that takes the results of its steps into account one by one. -/
theorem foldlM_eq_map_mapM (f : α → Except ε β) (g : γ → β → γ) (l : List α) (start : γ) :
    l.foldlM (fun done a => do return g done (← f a)) start =
      (l.mapM f).map (·.foldl g start) := by
  induction l generalizing start with
  | nil => rfl
  | cons a rest ih =>
    rw [List.foldlM_cons, List.mapM_cons]
    cases f a with
    | error e => rfl
    | ok b =>
      show rest.foldlM _ (g start b) = _
      rw [ih]
      cases rest.mapM f <;> rfl

theorem split_of_mapM_ok (h : l.mapM f = .ok (before ++ b :: after)) :
    ∃ left a right, l = left ++ a :: right ∧ f a = .ok b ∧
      left.mapM f = .ok before ∧ right.mapM f = .ok after := by
  induction before generalizing l with
  | nil =>
    cases l with
    | nil => cases mapM_nil_ok_iff.mp h
    | cons a rest =>
      obtain ⟨c, cs, hc, hcs, heq⟩ := of_mapM_cons_ok h
      cases heq
      exact ⟨[], a, rest, rfl, hc, rfl, hcs⟩
  | cons d before ih =>
    cases l with
    | nil => cases mapM_nil_ok_iff.mp h
    | cons a rest =>
      obtain ⟨c, cs, hc, hcs, heq⟩ := of_mapM_cons_ok h
      cases heq
      obtain ⟨left, a', right, rfl, ha, hleft, hright⟩ := ih hcs
      refine ⟨a :: left, a', right, rfl, ha, ?_, hright⟩
      rw [List.mapM_cons, hc, hleft]
      rfl

end

section
variable {f : α → Except ε (Option β)} {l : List α} {bs : List β}

theorem of_filterMapM_cons_ok (h : (a :: l).filterMapM f = .ok bs) :
    ∃ b? rest, f a = .ok b? ∧ l.filterMapM f = .ok rest ∧ bs = b?.toList ++ rest := by
  rw [List.filterMapM_cons] at h
  obtain ⟨b?, hb, h⟩ := of_bind_ok h
  cases b? with
  | none => exact ⟨none, bs, hb, h, rfl⟩
  | some b =>
    obtain ⟨rest, hrest, h⟩ := of_bind_ok h
    cases h
    exact ⟨some b, rest, hb, hrest, rfl⟩

theorem of_filterMapM_ok (h : l.filterMapM f = .ok bs) : ∀ a ∈ l, ∃ b?, f a = .ok b? := by
  induction l generalizing bs with
  | nil => exact nofun
  | cons a l ih =>
    obtain ⟨b?, rest, hb, hrest, -⟩ := of_filterMapM_cons_ok h
    exact List.forall_mem_cons.mpr ⟨⟨b?, hb⟩, ih hrest⟩

theorem mem_of_filterMapM_ok (h : l.filterMapM f = .ok bs) :
    b ∈ bs ↔ ∃ a ∈ l, f a = .ok (some b) := by
  induction l generalizing bs with
  | nil =>
    cases h
    simp
  | cons a l ih =>
    obtain ⟨b?, rest, hb, hrest, rfl⟩ := of_filterMapM_cons_ok h
    simp only [List.mem_append, Option.mem_toList, ih hrest, List.mem_cons, exists_eq_or_imp, hb,
      Except.ok.injEq]

end

end UnsafeAudit
