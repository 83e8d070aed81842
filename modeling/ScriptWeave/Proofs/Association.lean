import Mathlib.Data.List.Basic

/-!
Lists of entries by key. The first entry of a key counts.
-/

namespace ScriptWeave

variable {α β : Type}

/-- A value that is looked up stands in the list. -/
theorem mem_of_lookup [BEq α] [LawfulBEq α] {a : α} {b : β} {entries : List (α × β)}
    (h : entries.lookup a = some b) : (a, b) ∈ entries := by
  obtain ⟨before, after, rfl, _⟩ := List.lookup_eq_some_iff.1 h
  exact List.mem_append_right before List.mem_cons_self

/-- Looking up finds some value under a key that occurs. -/
theorem exists_lookup_of_mem [BEq α] [LawfulBEq α] {a : α} {b : β} {entries : List (α × β)}
    (h : (a, b) ∈ entries) : ∃ b', entries.lookup a = some b' := by
  cases hfound : entries.lookup a with
  | some b' => exact ⟨b', rfl⟩
  | none => simpa using List.lookup_eq_none_iff.1 hfound _ h

variable [DecidableEq α]

theorem lookup_filter_ne (entries : List (α × β)) (key k : α) :
    (entries.filter fun entry => entry.1 ≠ key).lookup k =
      if k = key then none else entries.lookup k := by
  induction entries with
  | nil => simp
  | cons entry entries ih =>
      by_cases hentry : entry.1 = key
      · rw [List.filter_cons_of_neg (by simp [hentry]), ih, List.lookup_cons, hentry]
        by_cases hk : k = key
        · simp [hk]
        · simp [hk, beq_eq_false_iff_ne.2 hk]
      · rw [List.filter_cons_of_pos (by simp [hentry]), List.lookup_cons, List.lookup_cons, ih]
        by_cases hk : k = entry.1
        · simp [hk, hentry]
        · simp [beq_eq_false_iff_ne.2 hk]

/-- Changing entries without changing their keys. -/
theorem lookup_map (entries : List (α × β)) {change : α × β → α × β}
    (hkey : ∀ entry, (change entry).1 = entry.1) (k : α) :
    (entries.map change).lookup k = (entries.lookup k).map fun b => (change (k, b)).2 := by
  induction entries with
  | nil => rfl
  | cons entry entries ih =>
      rw [List.map_cons, List.lookup_cons, List.lookup_cons, ih, hkey]
      by_cases hk : k = entry.1
      · simp [hk]
      · simp [beq_eq_false_iff_ne.2 hk]

end ScriptWeave
