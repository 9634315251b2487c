import UnsafeAudit.Proofs.Search.FirstOccurrences
import UnsafeAudit.Table

/-!
# Tables by key

Where entries are the same if they have the same key, a table has every key
once, in the order in which the keys first came, and for each the last entry
that was put.
-/

namespace UnsafeAudit.Table

variable {κ : Type v} [DecidableEq κ] {key : α → κ} {same : α → α → Bool} {entry e : α}
  {entries : List α}

def Keyed (same : α → α → Bool) (key : α → κ) (entries : List α) : Prop :=
  ∀ a ∈ entries, ∀ b ∈ entries, same a b = decide (key a = key b)

theorem mem_put (h : e ∈ put same entry entries) : e = entry ∨ e ∈ entries := by
  induction entries with
  | nil => simpa [put] using h
  | cons a rest ih =>
    rw [put] at h
    split at h
    · rcases List.mem_cons.mp h with rfl | h
      · exact .inl rfl
      · exact .inr (List.mem_cons_of_mem _ h)
    · rcases List.mem_cons.mp h with rfl | h
      · exact .inr List.mem_cons_self
      · exact (ih h).imp_right (List.mem_cons_of_mem _)

theorem map_key_put (h : ∀ a ∈ entries, same a entry = decide (key a = key entry)) :
    (put same entry entries).map key =
      if key entry ∈ entries.map key then entries.map key
      else entries.map key ++ [key entry] := by
  induction entries with
  | nil => rfl
  | cons a rest ih =>
    have ih := ih fun b hb => h b (List.mem_cons_of_mem _ hb)
    rw [put, h a List.mem_cons_self]
    by_cases ha : key a = key entry
    · simp [ha]
    · have ha' : ¬ key entry = key a := fun h => ha h.symm
      simp only [ha, decide_false, Bool.false_eq_true, if_false, List.map_cons, ih, List.mem_cons,
        ha', false_or]
      split <;> rfl

theorem find?_put (h : ∀ a ∈ entries, same a entry = decide (key a = key entry)) (k : κ) :
    (put same entry entries).find? (key · = k) =
      if key entry = k then some entry else entries.find? (key · = k) := by
  induction entries with
  | nil => by_cases hk : key entry = k <;> simp [put, hk]
  | cons a rest ih =>
    have ih := ih fun b hb => h b (List.mem_cons_of_mem _ hb)
    rw [put, h a List.mem_cons_self]
    by_cases ha : key a = key entry
    · by_cases hk : key entry = k <;> simp [ha, hk]
    · by_cases hk : key a = k
      · subst hk
        have hne : ¬ key entry = key a := fun he => ha he.symm
        simp [ha, hne]
      · simp [ha, hk, ih]

-- ---------------------------------------------------------------------------
-- The table of a list
-- ---------------------------------------------------------------------------

theorem ofList_concat (same : α → α → Bool) (entries : List α) (entry : α) :
    ofList same (entries ++ [entry]) = put same entry (ofList same entries) := by
  simp [ofList]

theorem put_map (same : β → β → Bool) (f : α → β) (entry : α) (entries : List α) :
    put same (f entry) (entries.map f) =
      (put (fun a b => same (f a) (f b)) entry entries).map f := by
  induction entries with
  | nil => rfl
  | cons a rest ih =>
    rw [List.map_cons, put, put, ih]
    split <;> rfl

theorem ofList_map (same : β → β → Bool) (f : α → β) (entries : List α) :
    ofList same (entries.map f) = (ofList (fun a b => same (f a) (f b)) entries).map f := by
  induction entries using List.reverseRecOn with
  | nil => rfl
  | append_singleton rest a ih =>
    rw [List.map_append, List.map_singleton, ofList_concat, ofList_concat, ih, put_map]

theorem mem_of_mem_ofList (h : e ∈ ofList same entries) : e ∈ entries := by
  induction entries using List.reverseRecOn with
  | nil => simp [ofList] at h
  | append_singleton rest a ih =>
    rw [ofList_concat] at h
    rcases mem_put h with rfl | h
    · simp
    · exact List.mem_append_left _ (ih h)

theorem Keyed.left (h : Keyed same key (entries ++ [entry])) : Keyed same key entries :=
  fun a ha b hb => h a (List.mem_append_left _ ha) b (List.mem_append_left _ hb)

theorem Keyed.same_last (h : Keyed same key (entries ++ [entry])) :
    ∀ a ∈ ofList same entries, same a entry = decide (key a = key entry) :=
  fun a ha => h a (List.mem_append_left _ (mem_of_mem_ofList ha)) entry (by simp)

theorem map_key_ofList (h : Keyed same key entries) :
    (ofList same entries).map key = (entries.map key).eraseDups := by
  induction entries using List.reverseRecOn with
  | nil => rfl
  | append_singleton rest a ih =>
    rw [ofList_concat, map_key_put h.same_last, ih h.left, List.map_append, List.map_singleton,
      eraseDups_concat]
    simp only [List.mem_eraseDups]

theorem find?_ofList (h : Keyed same key entries) (k : κ) :
    (ofList same entries).find? (key · = k) = (entries.filter (key · = k)).getLast? := by
  induction entries using List.reverseRecOn with
  | nil => rfl
  | append_singleton rest a ih =>
    rw [ofList_concat, find?_put h.same_last, ih h.left, List.filter_append]
    by_cases hk : key a = k <;> simp [hk]

theorem find?_of_mem_ofList (h : Keyed same key entries) (he : e ∈ ofList same entries) :
    (ofList same entries).find? (key · = key e) = some e := by
  have hn : ((ofList same entries).map key).Nodup := map_key_ofList h ▸ nodup_eraseDups _
  generalize ofList same entries = table at he hn
  induction table with
  | nil => cases he
  | cons a rest ih =>
    obtain ⟨hnew, hn⟩ := List.nodup_cons.mp hn
    rcases List.mem_cons.mp he with rfl | he
    · simp
    · have ha : key a ≠ key e := fun heq => hnew (heq ▸ List.mem_map_of_mem he)
      rw [List.find?_cons, decide_eq_false ha]
      exact ih he hn

theorem put_of_not_mem (h : ∀ a ∈ entries, same a entry = decide (key a = key entry))
    (hn : key entry ∉ entries.map key) : put same entry entries = entries ++ [entry] := by
  induction entries with
  | nil => rfl
  | cons a rest ih =>
    rw [List.map_cons, List.mem_cons, not_or] at hn
    have ha : key a ≠ key entry := fun heq => hn.1 heq.symm
    rw [put, h a List.mem_cons_self, decide_eq_false ha,
      ih (fun b hb => h b (List.mem_cons_of_mem _ hb)) hn.2]
    rfl

theorem ofList_of_nodup (h : Keyed same key entries) (hn : (entries.map key).Nodup) :
    ofList same entries = entries := by
  induction entries using List.reverseRecOn with
  | nil => rfl
  | append_singleton rest a ih =>
    rw [List.map_append, List.nodup_append] at hn
    obtain ⟨hrest, -, hnew⟩ := hn
    have hlast := h.same_last
    rw [ih h.left hrest] at hlast
    rw [ofList_concat, ih h.left hrest, put_of_not_mem hlast]
    exact fun ha => hnew _ ha _ (by simp) rfl

end UnsafeAudit.Table
