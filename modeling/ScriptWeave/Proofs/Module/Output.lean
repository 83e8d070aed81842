import Mathlib.Data.List.Nodup
import ScriptWeave.Module.Output

/-!
Output sets as maps from ids to modules with an order. Looking up an id is the same as finding a
module of that id in the set; putting modules keeps the places of the ids that are there and appends
the others.
-/

namespace ScriptWeave
namespace OutputSet

variable {Tree : Type}

theorem get?_eq_some_iff (s : OutputSet Tree) (id : ModuleId) (m : EmittedModule Tree) :
    s.get? id = some m ↔ m ∈ s.modules ∧ m.id = id := by
  constructor
  · intro h
    have hid := List.find?_some h
    exact ⟨List.mem_of_find?_eq_some h, of_decide_eq_true hid⟩
  · intro h
    obtain ⟨hm, rfl⟩ := h
    have hsome : (s.get? m.id).isSome := List.find?_isSome.2 ⟨m, hm, decide_eq_true rfl⟩
    obtain ⟨m', hm'⟩ := Option.isSome_iff_exists.1 hsome
    have hid := List.find?_some hm'
    rw [decide_eq_true_eq] at hid
    rw [hm', List.inj_on_of_nodup_map s.nodup_ids (List.mem_of_find?_eq_some hm') hm hid]

theorem mem_ids_iff (s : OutputSet Tree) (id : ModuleId) :
    id ∈ s.ids ↔ ∃ m, s.get? id = some m := by
  simp only [ids, List.mem_map, get?_eq_some_iff]

theorem mem_ids_of_mem {s : OutputSet Tree} {m : EmittedModule Tree} (h : m ∈ s.modules) :
    m.id ∈ s.ids :=
  List.mem_map.2 ⟨m, h, rfl⟩

theorem ids_put (s : OutputSet Tree) (m : EmittedModule Tree) :
    (s.put m).ids = if m.id ∈ s.ids then s.ids else s.ids ++ [m.id] := by
  rw [put]
  split
  · next h =>
      rw [if_pos ((s.has_iff_mem_ids _).1 h), ids, List.map_map,
        show (·.id) ∘ m.replace = (·.id) from funext m.replace_id]
      rfl
  · next h =>
      rw [if_neg fun hm => h ((s.has_iff_mem_ids _).2 hm), ids, List.map_append]
      rfl

theorem mem_modules_put (s : OutputSet Tree) (m x : EmittedModule Tree) :
    x ∈ (s.put m).modules ↔ x = m ∨ x ∈ s.modules ∧ x.id ≠ m.id := by
  rw [put]
  split
  · next h =>
      obtain ⟨old, hold, hid⟩ := List.mem_map.1 ((s.has_iff_mem_ids _).1 h)
      simp only [List.mem_map]
      constructor
      · intro h
        obtain ⟨y, hy, rfl⟩ := h
        by_cases hym : y.id = m.id
        · exact Or.inl (if_pos hym)
        · have hsame : m.replace y = y := if_neg hym
          exact Or.inr ⟨hsame.symm ▸ hy, hsame.symm ▸ hym⟩
      · intro h
        obtain rfl | ⟨hx, hne⟩ := h
        · exact ⟨old, hold, if_pos hid⟩
        · exact ⟨x, hx, if_neg hne⟩
  · next h =>
      have hfresh : m.id ∉ s.ids := fun hm => h ((s.has_iff_mem_ids _).2 hm)
      simp only [List.mem_append, List.mem_singleton]
      constructor
      · intro h
        obtain hx | rfl := h
        · exact Or.inr ⟨hx, fun hid => hfresh (hid ▸ mem_ids_of_mem hx)⟩
        · exact Or.inl rfl
      · intro h
        obtain rfl | ⟨hx, _⟩ := h
        · exact Or.inr rfl
        · exact Or.inl hx

theorem mem_of_mem_putAll {s : OutputSet Tree} {ms : List (EmittedModule Tree)}
    {x : EmittedModule Tree} (h : x ∈ (s.putAll ms).modules) : x ∈ ms ∨ x ∈ s.modules := by
  rw [putAll] at h
  induction ms generalizing s with
  | nil => exact Or.inr h
  | cons m ms ih =>
      cases ih h with
      | inl hx => exact Or.inl (List.mem_cons_of_mem _ hx)
      | inr hx =>
          obtain rfl | ⟨hx, _⟩ := (s.mem_modules_put m x).1 hx
          · exact Or.inl List.mem_cons_self
          · exact Or.inr hx

theorem mem_ids_putAll (s : OutputSet Tree) (ms : List (EmittedModule Tree)) (id : ModuleId) :
    id ∈ (s.putAll ms).ids ↔ id ∈ s.ids ∨ id ∈ ms.map (·.id) := by
  rw [putAll]
  induction ms generalizing s with
  | nil => simp
  | cons m ms ih =>
      have hput : id ∈ (s.put m).ids ↔ id ∈ s.ids ∨ id = m.id := by
        rw [ids_put]
        split
        · next hm => exact ⟨Or.inl, fun h => h.elim (fun h => h) fun h => h ▸ hm⟩
        · rw [List.mem_append, List.mem_singleton]
      rw [List.foldl_cons, ih, hput, List.map_cons, List.mem_cons, or_assoc]

/-- Modules of distinct ids are all in the set after they were put, over those of the same ids. -/
theorem mem_modules_putAll (s : OutputSet Tree) {ms : List (EmittedModule Tree)}
    (h : (ms.map (·.id)).Nodup) (x : EmittedModule Tree) :
    x ∈ (s.putAll ms).modules ↔ x ∈ ms ∨ x ∈ s.modules ∧ x.id ∉ ms.map (·.id) := by
  rw [putAll]
  induction ms generalizing s with
  | nil => simp
  | cons m ms ih =>
      obtain ⟨hfresh, hnodup⟩ := List.nodup_cons.1 h
      rw [List.foldl_cons, ih _ hnodup, mem_modules_put, List.map_cons, List.mem_cons,
        List.mem_cons, not_or]
      constructor
      · intro h
        obtain hx | ⟨rfl | ⟨hx, hne⟩, hnot⟩ := h
        · exact Or.inl (Or.inr hx)
        · exact Or.inl (Or.inl rfl)
        · exact Or.inr ⟨hx, hne, hnot⟩
      · intro h
        obtain (rfl | hx) | ⟨hx, hne, hnot⟩ := h
        · exact Or.inr ⟨Or.inl rfl, hfresh⟩
        · exact Or.inl hx
        · exact Or.inr ⟨Or.inr ⟨hx, hne⟩, hnot⟩

/-- Ids that are in the set keep their places, and the others follow in the order of the modules. -/
theorem ids_putAll (s : OutputSet Tree) {ms : List (EmittedModule Tree)}
    (h : (ms.map (·.id)).Nodup) :
    (s.putAll ms).ids = s.ids ++ (ms.map (·.id)).filter (· ∉ s.ids) := by
  rw [putAll]
  induction ms generalizing s with
  | nil => simp
  | cons m ms ih =>
      obtain ⟨hfresh, hnodup⟩ := List.nodup_cons.1 h
      rw [List.foldl_cons, ih _ hnodup, ids_put, List.map_cons, List.filter_cons]
      by_cases hm : m.id ∈ s.ids
      · simp [hm]
      · have hrest : (ms.map (·.id)).filter (· ∉ s.ids ++ [m.id]) =
            (ms.map (·.id)).filter (· ∉ s.ids) := by
          refine List.filter_congr fun id hid => ?_
          have hne : id ≠ m.id := by
            intro heq
            subst heq
            exact hfresh hid
          simp [hne]
        simp only [hm, if_false, not_false_eq_true, decide_true, if_true, hrest,
          List.append_assoc, List.singleton_append]

theorem get?_putAll_of_mem (s : OutputSet Tree) {ms : List (EmittedModule Tree)}
    (h : (ms.map (·.id)).Nodup) {m : EmittedModule Tree} (hm : m ∈ ms) :
    (s.putAll ms).get? m.id = some m :=
  (get?_eq_some_iff _ _ _).2 ⟨(s.mem_modules_putAll h m).2 (Or.inl hm), rfl⟩

theorem get?_putAll_of_not_mem (s : OutputSet Tree) {ms : List (EmittedModule Tree)}
    (h : (ms.map (·.id)).Nodup) {id : ModuleId} (hid : id ∉ ms.map (·.id)) :
    (s.putAll ms).get? id = s.get? id := by
  refine Option.ext fun m => ?_
  rw [get?_eq_some_iff, get?_eq_some_iff, mem_modules_putAll s h]
  constructor
  · intro h
    obtain ⟨hm | ⟨hm, _⟩, rfl⟩ := h
    · exact absurd (List.mem_map.2 ⟨m, hm, rfl⟩) hid
    · exact ⟨hm, rfl⟩
  · intro h
    obtain ⟨hm, rfl⟩ := h
    exact ⟨Or.inr ⟨hm, hid⟩, rfl⟩

end OutputSet
end ScriptWeave
