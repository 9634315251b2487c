import Mathlib.Data.List.Nodup
import Mathlib.Data.List.Induction

/-!
# First occurrences

`List.eraseDups` keeps the first occurrence of each member. Two lists with the
same first occurrences can stand for each other below `append`, `filter` and
`flatMap`.
-/

namespace UnsafeAudit

variable [BEq α] [LawfulBEq α] [BEq β] [LawfulBEq β]

theorem eraseDups_concat (l : List α) (a : α) :
    (l ++ [a]).eraseDups = if a ∈ l then l.eraseDups else l.eraseDups ++ [a] := by
  rw [List.eraseDups_append]
  by_cases h : a ∈ l <;> simp [List.removeAll, List.eraseDups_cons, h]

theorem nodup_eraseDups (l : List α) : l.eraseDups.Nodup := by
  induction l using List.reverseRecOn with
  | nil => simp
  | append_singleton l a ih =>
    rw [eraseDups_concat]
    split
    · exact ih
    · rename_i h
      exact List.nodup_append.mpr ⟨ih, by simp, by simp; rintro b hb rfl; exact h hb⟩

/-- What is kept comes in the order of the list: of those kept behind a member none stands before
its first occurrence. -/
theorem pairwise_eraseDups (l : List α) : l.eraseDups.Pairwise fun a b =>
    ∃ front back, l = front ++ a :: back ∧ b ∉ front ++ [a] := by
  induction l using List.reverseRecOn with
  | nil => simp
  | append_singleton l c ih =>
    have hgrown : l.eraseDups.Pairwise fun a b =>
        ∃ front back, l ++ [c] = front ++ a :: back ∧ b ∉ front ++ [a] := by
      refine ih.imp ?_
      rintro a b ⟨front, back, rfl, hb⟩
      exact ⟨front, back ++ [c], by simp, hb⟩
    rw [eraseDups_concat]
    split
    · exact hgrown
    · rename_i hnew
      refine List.pairwise_append.mpr ⟨hgrown, List.pairwise_singleton _ _, fun a ha b hb => ?_⟩
      obtain rfl := List.mem_singleton.mp hb
      obtain ⟨front, back, rfl⟩ := List.append_of_mem (List.mem_eraseDups.mp ha)
      refine ⟨front, back ++ [b], by simp, fun hmem => hnew ?_⟩
      simp only [List.mem_append, List.mem_cons, List.not_mem_nil, or_false] at hmem ⊢
      exact hmem.imp_right .inl

theorem eraseDups_of_nodup {l : List α} (h : l.Nodup) : l.eraseDups = l := by
  induction l using List.reverseRecOn with
  | nil => rfl
  | append_singleton l a ih =>
    obtain ⟨hl, -, hd⟩ := List.nodup_append.mp h
    rw [eraseDups_concat, if_neg fun ha => hd a ha a (by simp) rfl, ih hl]

theorem filter_eraseDups (p : α → Bool) (l : List α) :
    l.eraseDups.filter p = (l.filter p).eraseDups := by
  induction l using List.reverseRecOn with
  | nil => rfl
  | append_singleton l a ih =>
    rw [eraseDups_concat, List.filter_append, List.filter_singleton]
    cases hp : p a
    · split <;> simp [ih, hp]
    · by_cases h : a ∈ l <;> simp [eraseDups_concat, ih, h, hp]

theorem map_eraseDups {f : α → β} {l : List α} (hf : ∀ a ∈ l, ∀ b ∈ l, f a = f b → a = b) :
    (l.map f).eraseDups = l.eraseDups.map f := by
  induction l using List.reverseRecOn with
  | nil => rfl
  | append_singleton l a ih =>
    have hl := ih fun b hb c hc => hf b (by simp [hb]) c (by simp [hc])
    have ha : f a ∈ l.map f ↔ a ∈ l := by
      constructor
      · intro h
        obtain ⟨b, hb, hba⟩ := List.mem_map.mp h
        exact hf b (by simp [hb]) a (by simp) hba ▸ hb
      · exact List.mem_map_of_mem
    rw [List.map_append, List.map_singleton, eraseDups_concat, eraseDups_concat, hl]
    by_cases h : a ∈ l <;> simp only [ha, h, if_true, if_false, List.map_append, List.map_singleton]

theorem mem_iff_of_eraseDups_eq {l m : List α} (h : l.eraseDups = m.eraseDups) (a : α) :
    a ∈ l ↔ a ∈ m := by
  rw [← List.mem_eraseDups, h, List.mem_eraseDups]

theorem eraseDups_append_filter (l m : List α) :
    (l ++ m).eraseDups = l.eraseDups ++ m.eraseDups.filter (· ∉ l) := by
  rw [List.eraseDups_append, filter_eraseDups]
  simp [List.removeAll]

theorem eraseDups_append_congr {l l' m m' : List α} (hl : l.eraseDups = l'.eraseDups)
    (hm : m.eraseDups = m'.eraseDups) : (l ++ m).eraseDups = (l' ++ m').eraseDups := by
  rw [eraseDups_append_filter, eraseDups_append_filter, hl, hm]
  simp only [mem_iff_of_eraseDups_eq hl]

theorem eraseDups_append_of_subset {l m : List α} (h : m ⊆ l) :
    (l ++ m).eraseDups = l.eraseDups := by
  have hnone : m.eraseDups.filter (· ∉ l) = [] :=
    List.filter_eq_nil_iff.mpr fun a ha => by simpa using h (List.mem_eraseDups.mp ha)
  rw [eraseDups_append_filter, hnone, List.append_nil]

/-- Of a list what is not among `seen` comes once: the head if it is new, which is then seen. -/
theorem eraseDups_filter_cons (a : α) (l seen : List α) :
    ((a :: l).filter (· ∉ seen)).eraseDups =
      if a ∈ seen then (l.filter (· ∉ seen)).eraseDups
      else a :: (l.filter (· ∉ seen ++ [a])).eraseDups := by
  by_cases h : a ∈ seen
  · simp [h]
  · have hrest : (l.filter (· ∉ seen)).filter (!· == a) = l.filter (· ∉ seen ++ [a]) := by
      rw [List.filter_filter]
      refine List.filter_congr fun b _ => ?_
      by_cases hb : b = a <;> simp [hb]
    rw [if_neg h, List.filter_cons, if_pos (by simpa using h), List.eraseDups_cons, hrest]

theorem eraseDups_map_const {l : List γ} (h : l ≠ []) (a : α) :
    (l.map fun _ => a).eraseDups = [a] := by
  obtain ⟨first, rest, rfl⟩ := List.exists_cons_of_ne_nil h
  simp [List.eraseDups_cons]

theorem eraseDups_eraseDups (l : List α) : l.eraseDups.eraseDups = l.eraseDups :=
  eraseDups_of_nodup (nodup_eraseDups l)

theorem eraseDups_flatMap_congr {f g : γ → List α} {l : List γ}
    (h : ∀ c ∈ l, (f c).eraseDups = (g c).eraseDups) :
    (l.flatMap f).eraseDups = (l.flatMap g).eraseDups := by
  induction l with
  | nil => rfl
  | cons c l ih =>
    rw [List.flatMap_cons, List.flatMap_cons]
    exact eraseDups_append_congr (h c (by simp)) (ih fun d hd => h d (by simp [hd]))

end UnsafeAudit
