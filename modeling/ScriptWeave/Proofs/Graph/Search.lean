import Mathlib.Logic.Relation
import ScriptWeave.Graph.Components

/-!
Tarjan's search. The invariant speaks of the modules whose search is still going on, the path. The
stack lists indexes in descending order; a stacked module reaches all above it, and it reaches one
of the path that is not above it. Complete components lead to complete components only. While the
successors of a module are examined, its low index is attained by a module that it reaches, and it
bounds all edges from the new part of the stack to the old one. So if it is the module's own index,
no such edge exists, and the new part of the stack is a component.
-/

namespace ScriptWeave
namespace Tarjan

open Relation (ReflTransGen)

variable {successors : ModuleId → List ModuleId} {vertices path seen : List ModuleId}
  {r s t t' : State} {u v w : ModuleId}

/-- A path, possibly of no edge, along the successors. -/
abbrev Reach (successors : ModuleId → List ModuleId) : ModuleId → ModuleId → Prop :=
  ReflTransGen fun a b => b ∈ successors a

theorem assign_self {α : Type} (table : ModuleId → α) (v : ModuleId) (entry : α) :
    assign table v entry v = entry := if_pos rfl

theorem assign_of_ne {α : Type} (table : ModuleId → α) (entry : α) (h : u ≠ v) :
    assign table v entry u = table u := if_neg h

/-- A module has been met. -/
def State.Met (s : State) (v : ModuleId) : Prop := s.index v ≠ none

/-- The index of a module that has been met. -/
def State.rank (s : State) (v : ModuleId) : Nat := (s.index v).getD 0

/-- A module belongs to a complete component. -/
def State.Done (s : State) (v : ModuleId) : Prop := ∃ group ∈ s.groups, v ∈ group

/-- What holds while the modules of the path are searched. -/
structure Sound (successors : ModuleId → List ModuleId) (vertices path : List ModuleId)
    (s : State) : Prop where
  known : ∀ v, s.Met v → v ∈ vertices
  met_iff : ∀ v, s.Met v ↔ v ∈ s.stack ∨ s.Done v
  not_done : ∀ v ∈ s.stack, ¬ s.Done v
  onStack_iff : ∀ v, s.onStack v = true ↔ v ∈ s.stack
  rank_lt : ∀ v, s.Met v → s.rank v < s.next
  descending : s.stack.Pairwise fun a b => s.rank b < s.rank a
  path_stacked : ∀ v ∈ path, v ∈ s.stack
  examined : ∀ v, s.Met v → v ∉ path → ∀ w ∈ successors v, s.Met w
  upward : ∀ u ∈ s.stack, ∀ v ∈ s.stack, s.rank u ≤ s.rank v → Reach successors u v
  to_path : ∀ v ∈ s.stack, ∃ u ∈ path, s.rank u ≤ s.rank v ∧ Reach successors v u
  strong : ∀ group ∈ s.groups, ∃ v ∈ group, ∀ u,
    u ∈ group ↔ Reach successors u v ∧ Reach successors v u
  done_closed : ∀ v, s.Done v → ∀ w ∈ successors v, s.Done w
  ordered : s.groups.Pairwise fun early late =>
    ∀ u ∈ early, u ∉ late ∧ ∀ w ∈ late, w ∉ successors u

theorem Sound.met (h : Sound successors vertices path s) (hv : v ∈ s.stack) : s.Met v :=
  (h.met_iff v).2 (Or.inl hv)

theorem Sound.nodup (h : Sound successors vertices path s) : s.stack.Nodup :=
  h.descending.imp fun hlt heq => by
    rw [heq] at hlt
    exact Nat.lt_irrefl _ hlt

theorem Sound.start : Sound successors vertices [] .start where
  known v hv := absurd rfl hv
  met_iff v := by simp [State.Met, State.Done, State.start]
  not_done v hv := absurd hv List.not_mem_nil
  onStack_iff v := by simp [State.start]
  rank_lt v hv := absurd rfl hv
  descending := .nil
  path_stacked v hv := absurd hv List.not_mem_nil
  examined v hv := absurd rfl hv
  upward u hu := absurd hu List.not_mem_nil
  to_path v hv := absurd hv List.not_mem_nil
  strong group hgroup := absurd hgroup List.not_mem_nil
  done_closed v hv := by
    obtain ⟨group, hgroup, _⟩ := hv
    exact absurd hgroup List.not_mem_nil
  ordered := .nil

/-- A later state of the search keeps what an earlier one holds. -/
structure Extends (s t : State) : Prop where
  stack : s.stack <:+ t.stack
  index : ∀ v, s.Met v → t.index v = s.index v
  low : ∀ v, s.Met v → t.low v = s.low v
  next : s.next ≤ t.next

theorem Extends.refl (s : State) : Extends s s :=
  ⟨List.suffix_rfl, fun _ _ => rfl, fun _ _ => rfl, Nat.le_refl _⟩

theorem Extends.rank (h : Extends s t) (hv : s.Met v) : t.rank v = s.rank v := by
  rw [State.rank, h.index v hv, State.rank]

theorem Extends.met (h : Extends s t) (hv : s.Met v) : t.Met v := by
  rw [State.Met, h.index v hv]
  exact hv

theorem Extends.trans (h : Extends r s) (h' : Extends s t) : Extends r t where
  stack := h.stack.trans h'.stack
  index v hv := (h'.index v (h.met hv)).trans (h.index v hv)
  low v hv := (h'.low v (h.met hv)).trans (h.low v hv)
  next := Nat.le_trans h.next h'.next

/-- What the search from a module leaves behind. -/
structure Searched (successors : ModuleId → List ModuleId) (vertices path : List ModuleId)
    (s : State) (v : ModuleId) (t : State) : Prop where
  sound : Sound successors vertices path t
  later : Extends s t
  met : t.Met v
  bound : ∀ u ∈ t.stack, u ∉ s.stack → ∀ w ∈ successors u, w ∈ s.stack → t.low v ≤ s.rank w
  attained : s.next ≤ t.low v ∨ ∃ w ∈ s.stack, s.rank w = t.low v ∧ Reach successors v w

/-- The state while the successors of a module are examined, when those listed have been. -/
structure Examining (successors : ModuleId → List ModuleId) (vertices path : List ModuleId)
    (s : State) (v : ModuleId) (seen : List ModuleId) (t : State) : Prop where
  sound : Sound successors vertices (v :: path) t
  later : Extends s t
  entered : t.index v = some s.next
  stack : ∃ new, t.stack = new ++ v :: s.stack
  seen_met : ∀ w ∈ seen, t.Met w
  bound : ∀ u ∈ t.stack, u ∉ s.stack → ∀ w ∈ successors u, w ∈ s.stack →
    (u = v → w ∈ seen) → t.low v ≤ s.rank w
  attained : t.low v = s.next ∨ ∃ w ∈ s.stack, s.rank w = t.low v ∧ Reach successors v w

section Enter

variable (hs : Sound successors vertices path s) (hnew : s.index v = none)

theorem State.met_enter (s : State) (u v : ModuleId) : (s.enter v).Met u ↔ u = v ∨ s.Met u := by
  by_cases h : u = v
  · subst h
    simp [State.Met, State.enter, assign_self]
  · simp [State.Met, State.enter, assign_of_ne, h]

theorem State.index_enter_self (s : State) (v : ModuleId) :
    (s.enter v).index v = some s.next := assign_self _ _ _

theorem State.low_enter_self (s : State) (v : ModuleId) : (s.enter v).low v = s.next :=
  assign_self _ _ _

theorem State.rank_enter_self (s : State) (v : ModuleId) : (s.enter v).rank v = s.next := by
  rw [State.rank, State.index_enter_self]
  rfl

theorem Extends.enter (hnew : s.index v = none) : Extends s (s.enter v) where
  stack := List.suffix_cons v s.stack
  index _ hu := assign_of_ne _ _ fun h => hu (h ▸ hnew)
  low _ hu := assign_of_ne _ _ fun h => hu (h ▸ hnew)
  next := Nat.le_succ s.next

include hs hnew

theorem Sound.not_mem_stack : v ∉ s.stack := fun hv => hs.met hv hnew

theorem Sound.not_done_of_new : ¬ s.Done v := fun hv => (hs.met_iff v).2 (Or.inr hv) hnew

theorem Sound.rank_enter (hu : u ∈ s.stack) : (s.enter v).rank u = s.rank u :=
  (Extends.enter hnew).rank (hs.met hu)

theorem Sound.enter (hv : v ∈ vertices) (hpath : ∀ u ∈ path, Reach successors u v) :
    Sound successors vertices (v :: path) (s.enter v) := by
  have hlt : ∀ u ∈ s.stack, s.rank u < s.next := fun u hu => hs.rank_lt u (hs.met hu)
  have hrank : ∀ u ∈ s.stack, (s.enter v).rank u = s.rank u := fun u hu => hs.rank_enter hnew hu
  refine ⟨?_, ?_, ?_, ?_, ?_, ?_, ?_, ?_, ?_, ?_, hs.strong, hs.done_closed, hs.ordered⟩
  · intro u hu
    obtain rfl | hu := (s.met_enter u v).1 hu
    · exact hv
    · exact hs.known u hu
  · intro u
    rw [State.met_enter, hs.met_iff, ← or_assoc]
    exact or_congr List.mem_cons.symm Iff.rfl
  · intro u hu
    obtain rfl | hu := List.mem_cons.1 hu
    · exact hs.not_done_of_new hnew
    · exact hs.not_done u hu
  · intro u
    by_cases h : u = v
    · subst h
      simp [State.enter, assign_self]
    · simp [State.enter, assign_of_ne, h, hs.onStack_iff]
  · intro u hu
    obtain rfl | hu := (s.met_enter u v).1 hu
    · rw [State.rank_enter_self]
      exact Nat.lt_succ_self _
    · rw [(Extends.enter hnew).rank hu]
      exact Nat.lt_succ_of_lt (hs.rank_lt u hu)
  · refine List.pairwise_cons.2 ⟨?_, ?_⟩
    · intro u hu
      rw [State.rank_enter_self, hrank u hu]
      exact hlt u hu
    · exact hs.descending.imp_of_mem fun ha hb hab => by rwa [hrank _ ha, hrank _ hb]
  · intro u hu
    obtain rfl | hu := List.mem_cons.1 hu
    · exact List.mem_cons_self
    · exact List.mem_cons_of_mem _ (hs.path_stacked u hu)
  · intro u hu hnot w hw
    obtain rfl | hu := (s.met_enter u v).1 hu
    · exact absurd List.mem_cons_self hnot
    · have hmet := hs.examined u hu (fun h => hnot (List.mem_cons_of_mem _ h)) w hw
      exact (Extends.enter hnew).met hmet
  · intro u hu w hw hle
    obtain rfl | hu' := List.mem_cons.1 hu
    · obtain rfl | hw := List.mem_cons.1 hw
      · exact .refl
      · rw [State.rank_enter_self, hrank w hw] at hle
        exact absurd (hlt w hw) (Nat.not_lt.2 hle)
    · obtain rfl | hw := List.mem_cons.1 hw
      · obtain ⟨x, hx, _, hreach⟩ := hs.to_path u hu'
        exact hreach.trans (hpath x hx)
      · rw [hrank u hu', hrank w hw] at hle
        exact hs.upward u hu' w hw hle
  · intro u hu
    obtain rfl | hu := List.mem_cons.1 hu
    · exact ⟨u, List.mem_cons_self, Nat.le_refl _, .refl⟩
    · obtain ⟨x, hx, hle, hreach⟩ := hs.to_path u hu
      refine ⟨x, List.mem_cons_of_mem _ hx, ?_, hreach⟩
      rwa [hrank u hu, hrank x (hs.path_stacked x hx)]

theorem Examining.enter (hv : v ∈ vertices) (hpath : ∀ u ∈ path, Reach successors u v) :
    Examining successors vertices path s v [] (s.enter v) where
  sound := hs.enter hnew hv hpath
  later := .enter hnew
  entered := s.index_enter_self v
  stack := ⟨[], rfl⟩
  seen_met w hw := absurd hw List.not_mem_nil
  bound u hu hnot w _ _ hseen := by
    obtain rfl | hu := List.mem_cons.1 hu
    · exact absurd (hseen rfl) List.not_mem_nil
    · exact absurd hu hnot
  attained := Or.inl (s.low_enter_self v)

end Enter

theorem Sound.lower (h : Sound successors vertices path s) (v : ModuleId) (i : Nat) :
    Sound successors vertices path (s.lower v i) :=
  ⟨h.known, h.met_iff, h.not_done, h.onStack_iff, h.rank_lt, h.descending, h.path_stacked,
    h.examined, h.upward, h.to_path, h.strong, h.done_closed, h.ordered⟩

theorem State.low_lower_self (s : State) (v : ModuleId) (i : Nat) :
    (s.lower v i).low v = min (s.low v) i := assign_self _ _ _

theorem Extends.lower (h : Extends s t) (hnew : s.index v = none) (i : Nat) :
    Extends s (t.lower v i) where
  stack := h.stack
  index := h.index
  low u hu := by
    have hne : u ≠ v := fun heq => hu (heq ▸ hnew)
    exact (assign_of_ne t.low _ hne).trans (h.low u hu)
  next := h.next

section Examine

variable (hs : Sound successors vertices path s) (hnew : s.index v = none)
  (h : Examining successors vertices path s v seen t)

include h in
theorem Examining.met_self : t.Met v := by
  rw [State.Met, h.entered]
  exact Option.some_ne_none _

include h in
theorem Examining.rank_self : t.rank v = s.next := by
  rw [State.rank, h.entered]
  rfl

include h in
theorem Examining.mem_stack_self : v ∈ t.stack := by
  obtain ⟨new, hstack⟩ := h.stack
  rw [hstack]
  exact List.mem_append_right _ List.mem_cons_self

include h in
/-- What was put on the stack since the module was met has an index from its own on. -/
theorem Examining.le_rank (hu : u ∈ t.stack) (hnot : u ∉ s.stack) : s.next ≤ t.rank u := by
  obtain ⟨new, hstack⟩ := h.stack
  have hdescending := h.sound.descending
  rw [hstack] at hu hdescending
  rw [← h.rank_self]
  obtain hu | hu := List.mem_append.1 hu
  · exact Nat.le_of_lt ((List.pairwise_append.1 hdescending).2.2 u hu v List.mem_cons_self)
  · obtain rfl | hu := List.mem_cons.1 hu
    · exact Nat.le_refl _
    · exact absurd hu hnot

include hs h in
theorem Examining.rank_lt (hu : u ∈ s.stack) : t.rank u < s.next := by
  rw [h.later.rank (hs.met hu)]
  exact hs.rank_lt u (hs.met hu)

include hs h in
theorem Examining.low_le : t.low v ≤ s.next := by
  obtain heq | ⟨w, hw, heq, _⟩ := h.attained
  · exact Nat.le_of_eq heq
  · rw [← heq]
    exact Nat.le_of_lt (hs.rank_lt w (hs.met hw))

include hs h in
/-- A low index that is lowered to an index that the module reaches is attained again. -/
theorem Examining.attained_min {i : Nat}
    (hi : s.next ≤ i ∨ ∃ w ∈ t.stack, t.rank w = i ∧ Reach successors v w) :
    min (t.low v) i = s.next ∨
      ∃ w ∈ s.stack, s.rank w = min (t.low v) i ∧ Reach successors v w := by
  by_cases hle : t.low v ≤ i
  · rw [Nat.min_eq_left hle]
    exact h.attained
  · have hlt := h.low_le hs
    obtain hi | ⟨w, hw, rfl, hreach⟩ := hi
    · omega
    · by_cases hold : w ∈ s.stack
      · rw [Nat.min_eq_right (by omega), h.later.rank (hs.met hold)]
        exact Or.inr ⟨w, hold, rfl, hreach⟩
      · have := h.le_rank hw hold
        omega

include h in
/-- The edge leads to a module of a complete component. -/
theorem Examining.skip (hw : t.Met w) (hnot : w ∉ t.stack) :
    Examining successors vertices path s v (seen ++ [w]) t := by
  refine ⟨h.sound, h.later, h.entered, h.stack, ?_, ?_, h.attained⟩
  · intro x hx
    obtain hx | hx := List.mem_append.1 hx
    · exact h.seen_met x hx
    · exact List.mem_singleton.1 hx ▸ hw
  · intro u hu hnew x hx hold hseen
    refine h.bound u hu hnew x hx hold fun huv => ?_
    obtain hx | hx := List.mem_append.1 (hseen huv)
    · exact hx
    · exact absurd (h.later.stack.subset hold) (List.mem_singleton.1 hx ▸ hnot)

include hs hnew h in
/-- The edge leads back to a stacked module. -/
theorem Examining.back (hw : w ∈ t.stack) (hedge : w ∈ successors v) :
    Examining successors vertices path s v (seen ++ [w]) (t.lower v (t.rank w)) := by
  refine ⟨h.sound.lower v _, h.later.lower hnew _, h.entered, h.stack, ?_, ?_, ?_⟩
  · intro x hx
    obtain hx | hx := List.mem_append.1 hx
    · exact h.seen_met x hx
    · rw [List.mem_singleton.1 hx]
      exact h.sound.met hw
  · intro u hu hnot x hx hold hseen
    rw [State.low_lower_self]
    by_cases hxw : x = w
    · subst hxw
      rw [← h.later.rank (hs.met hold)]
      exact Nat.min_le_right _ _
    · refine Nat.le_trans (Nat.min_le_left _ _) (h.bound u hu hnot x hx hold fun huv => ?_)
      exact (List.mem_append.1 (hseen huv)).resolve_right fun hx => hxw (List.mem_singleton.1 hx)
  · rw [State.low_lower_self]
    exact h.attained_min hs (Or.inr ⟨w, hw, rfl, .single hedge⟩)

include hs hnew h in
/-- The edge leads to a new module, which is searched. -/
theorem Examining.child (hwnew : t.index w = none) (hedge : w ∈ successors v)
    (hw : Searched successors vertices (v :: path) t w t') :
    Examining successors vertices path s v (seen ++ [w]) (t'.lower v (t'.low w)) := by
  have hlow : t'.low v = t.low v := hw.later.low v h.met_self
  refine ⟨hw.sound.lower v _, (h.later.trans hw.later).lower hnew _, ?_, ?_, ?_, ?_, ?_⟩
  · exact (hw.later.index v h.met_self).trans h.entered
  · obtain ⟨new, hstack⟩ := h.stack
    obtain ⟨newer, hstack'⟩ := hw.later.stack
    refine ⟨newer ++ new, ?_⟩
    rw [List.append_assoc, ← hstack, hstack']
    rfl
  · intro x hx
    obtain hx | hx := List.mem_append.1 hx
    · exact hw.later.met (h.seen_met x hx)
    · exact List.mem_singleton.1 hx ▸ hw.met
  · intro u hu hnot x hx hold hseen
    have hxmet := h.later.met (hs.met hold)
    rw [State.low_lower_self, hlow]
    by_cases hut : u ∈ t.stack
    · refine Nat.le_trans (Nat.min_le_left _ _) (h.bound u hut hnot x hx hold fun huv => ?_)
      obtain hx | hx := List.mem_append.1 (hseen huv)
      · exact hx
      · exact absurd hwnew (List.mem_singleton.1 hx ▸ hxmet)
    · have hle := hw.bound u hu hut x hx (h.later.stack.subset hold)
      rw [h.later.rank (hs.met hold)] at hle
      exact Nat.le_trans (Nat.min_le_right _ _) hle
  · rw [State.low_lower_self, hlow]
    apply h.attained_min hs
    obtain hle | ⟨x, hx, hrank, hreach⟩ := hw.attained
    · exact Or.inl (Nat.le_trans h.later.next hle)
    · exact Or.inr ⟨x, hx, hrank, .head hedge hreach⟩

end Examine

section Leave

variable (hs : Sound successors vertices path s) (hnew : s.index v = none)
  (hpath : ∀ u ∈ path, Reach successors u v)
  (h : Examining successors vertices path s v (successors v) t)

theorem popTo_append (new rest : List ModuleId) (h : v ∉ new) :
    popTo v (new ++ v :: rest) = (new ++ [v], rest) := by
  induction new with
  | nil => simp [popTo]
  | cons w new ih =>
      rw [List.mem_cons, not_or] at h
      simp [popTo, Ne.symm h.1, ih h.2]

theorem foldl_assign_false (group : List ModuleId) (onStack : ModuleId → Bool) (u : ModuleId) :
    group.foldl (fun onStack w => assign onStack w false) onStack u = true ↔
      onStack u = true ∧ u ∉ group := by
  induction group generalizing onStack with
  | nil => simp
  | cons w group ih =>
      rw [List.foldl_cons, ih, List.mem_cons, not_or]
      by_cases h : u = w
      · subst h
        simp [assign_self]
      · simp [assign_of_ne, h]

include h in
theorem Examining.all_examined (hu : t.Met u) (hnot : u ∉ path) :
    ∀ w ∈ successors u, t.Met w := by
  by_cases huv : u = v
  · subst huv
    exact h.seen_met
  · refine h.sound.examined u hu fun hmem => ?_
    obtain rfl | hmem := List.mem_cons.1 hmem
    · exact huv rfl
    · exact hnot hmem

include hs hnew h in
/-- The module reaches an older one on the stack, so that its component is not complete. -/
theorem Examining.keep (hlow : t.low v ≠ s.next) :
    Searched successors vertices path s v t := by
  obtain ⟨w, hw, hrank, hreach⟩ := h.attained.resolve_left hlow
  refine ⟨⟨h.sound.known, h.sound.met_iff, h.sound.not_done, h.sound.onStack_iff, h.sound.rank_lt,
    h.sound.descending, ?_, ?_, h.sound.upward, ?_, h.sound.strong, h.sound.done_closed,
    h.sound.ordered⟩, h.later, h.met_self, ?_, Or.inr ⟨w, hw, hrank, hreach⟩⟩
  · exact fun u hu => h.sound.path_stacked u (List.mem_cons_of_mem _ hu)
  · exact fun u hu hnot => h.all_examined hu hnot
  · intro u hu
    obtain ⟨x, hx, hle, hux⟩ := h.sound.to_path u hu
    obtain rfl | hx := List.mem_cons.1 hx
    · obtain ⟨y, hy, hyw, hwy⟩ := hs.to_path w hw
      have hlt := h.rank_lt hs (hs.path_stacked y hy)
      rw [h.rank_self] at hle
      exact ⟨y, hy, by omega, hux.trans (hreach.trans hwy)⟩
    · exact ⟨x, hx, hle, hux⟩
  · intro u hu hnot x hx hold
    exact h.bound u hu hnot x hx hold fun huv => huv ▸ hx

include hs h in
theorem Examining.new_closed (hlow : t.low v = s.next) (hu : u ∈ t.stack) (hnot : u ∉ s.stack)
    (hw : w ∈ successors u) : (w ∈ t.stack ∧ w ∉ s.stack) ∨ t.Done w := by
  have hfresh : u ∉ path := fun hmem => hnot (hs.path_stacked u hmem)
  obtain hstacked | hdone := (h.sound.met_iff w).1 (h.all_examined (h.sound.met hu) hfresh w hw)
  · refine Or.inl ⟨hstacked, fun hold => ?_⟩
    have hle := h.bound u hu hnot w hw hold fun huv => huv ▸ hw
    have hlt := hs.rank_lt w (hs.met hold)
    omega
  · exact Or.inr hdone

include hs hnew hpath h in
/-- When the low index of a module is its own, what was put on the stack since the module was met is
the component of the module. -/
theorem Examining.mutual_iff (hlow : t.low v = s.next) (u : ModuleId) :
    (u ∈ t.stack ∧ u ∉ s.stack) ↔ Reach successors u v ∧ Reach successors v u := by
  have hself := h.mem_stack_self
  constructor
  · intro hu
    obtain ⟨hu, hnot⟩ := hu
    refine ⟨?_, h.sound.upward v hself u hu (h.rank_self ▸ h.le_rank hu hnot)⟩
    obtain ⟨x, hx, _, hreach⟩ := h.sound.to_path u hu
    obtain rfl | hx := List.mem_cons.1 hx
    · exact hreach
    · exact hreach.trans (hpath x hx)
  · intro hmutual
    obtain ⟨hback, hto⟩ := hmutual
    have hdone : ∀ {a b}, Reach successors a b → t.Done a → t.Done b := by
      intro a b hab ha
      induction hab with
      | refl => exact ha
      | tail _ hstep ih => exact h.sound.done_closed _ ih _ hstep
    have hreached : (u ∈ t.stack ∧ u ∉ s.stack) ∨ t.Done u := by
      clear hback
      induction hto with
      | refl => exact Or.inl ⟨hself, hs.not_mem_stack hnew⟩
      | tail _ hstep ih =>
          obtain hin | hin := ih
          · exact h.new_closed hs hlow hin.1 hin.2 hstep
          · exact Or.inr (h.sound.done_closed _ hin _ hstep)
    exact hreached.resolve_right fun hu => h.sound.not_done v hself (hdone hback hu)

theorem State.done_complete (s : State) (group rest : List ModuleId) (u : ModuleId) :
    (s.complete group rest).Done u ↔ s.Done u ∨ u ∈ group := by
  simp only [State.Done, State.complete, List.mem_append, List.mem_singleton, or_and_right,
    exists_or, exists_eq_left]

include hs hnew hpath h in
theorem Examining.sound_complete (hlow : t.low v = s.next) {group : List ModuleId}
    (hgroup : ∀ u, u ∈ group ↔ u ∈ t.stack ∧ u ∉ s.stack) :
    Sound successors vertices path (t.complete group s.stack) := by
  have hmutual := h.mutual_iff hs hnew hpath hlow
  have hself : v ∈ group := (hgroup v).2 ⟨h.mem_stack_self, hs.not_mem_stack hnew⟩
  have hdone := t.done_complete group s.stack
  have hold : ∀ u ∈ s.stack, u ∈ t.stack := fun u hu => h.later.stack.subset hu
  have hsplit : ∀ u, u ∈ t.stack ↔ u ∈ s.stack ∨ u ∈ group := by
    intro u
    rw [hgroup]
    by_cases hu : u ∈ s.stack
    · exact iff_of_true (hold u hu) (Or.inl hu)
    · simp [hu]
  have hapart : ∀ u, t.Done u → u ∉ group := fun u hu hmem =>
    h.sound.not_done u ((hgroup u).1 hmem).1 hu
  refine ⟨h.sound.known, ?_, ?_, ?_, h.sound.rank_lt, ?_, hs.path_stacked, ?_, ?_, ?_, ?_, ?_, ?_⟩
  · intro u
    have hmet : t.Met u ↔ (u ∈ s.stack ∨ u ∈ group) ∨ t.Done u := by
      rw [← hsplit]
      exact h.sound.met_iff u
    rw [hdone]
    exact hmet.trans (by rw [or_assoc, or_comm (a := u ∈ group)]; rfl)
  · intro u hu hmem
    obtain hmem | hmem := (hdone u).1 hmem
    · exact h.sound.not_done u (hold u hu) hmem
    · exact ((hgroup u).1 hmem).2 hu
  · intro u
    rw [State.complete, foldl_assign_false, h.sound.onStack_iff, hgroup]
    by_cases hu : u ∈ s.stack
    · simp [hu, hold u hu]
    · simp [hu]
  · exact h.sound.descending.sublist h.later.stack.sublist
  · exact fun u hu hnot => h.all_examined hu hnot
  · exact fun u hu w hw hle => h.sound.upward u (hold u hu) w (hold w hw) hle
  · intro u hu
    obtain ⟨x, hx, hle, hreach⟩ := hs.to_path u hu
    refine ⟨x, hx, ?_, hreach⟩
    have hrank : ∀ y ∈ s.stack, (t.complete group s.stack).rank y = s.rank y :=
      fun y hy => h.later.rank (hs.met hy)
    rwa [hrank u hu, hrank x (hs.path_stacked x hx)]
  · intro group' hmem
    obtain hmem | hmem := List.mem_append.1 hmem
    · exact h.sound.strong group' hmem
    · rw [List.mem_singleton.1 hmem]
      exact ⟨v, hself, fun u => (hgroup u).trans (hmutual u)⟩
  · intro u hu w hw
    rw [hdone]
    obtain hu | hu := (hdone u).1 hu
    · exact Or.inl (h.sound.done_closed u hu w hw)
    · obtain ⟨hstacked, hnot⟩ := (hgroup u).1 hu
      obtain hin | hin := h.new_closed hs hlow hstacked hnot hw
      · exact Or.inr ((hgroup w).2 hin)
      · exact Or.inl hin
  · refine List.pairwise_append.2 ⟨h.sound.ordered, List.pairwise_singleton _ _, ?_⟩
    intro early hearly late hlate u hu
    rw [List.mem_singleton.1 hlate]
    refine ⟨hapart u ⟨early, hearly, hu⟩, fun w hw hedge => ?_⟩
    exact hapart w (h.sound.done_closed u ⟨early, hearly, hu⟩ w hedge) hw

include hs hnew hpath h in
/-- The search of a module ends: its component is complete, or an older module on the stack is
reached. -/
theorem Examining.leave : Searched successors vertices path s v (t.leave v) := by
  by_cases hlow : t.low v = s.next
  · obtain ⟨new, hstack⟩ := h.stack
    have hnodup : (new ++ v :: s.stack).Nodup := hstack ▸ h.sound.nodup
    obtain ⟨_, _, hapart⟩ := List.nodup_append.1 hnodup
    have hnot : v ∉ new := fun hv => hapart v hv v List.mem_cons_self rfl
    have hgroup : ∀ u, u ∈ new ++ [v] ↔ u ∈ t.stack ∧ u ∉ s.stack := by
      intro u
      rw [hstack, List.append_cons new v s.stack]
      constructor
      · intro hu
        refine ⟨List.mem_append_left _ hu, fun hold => ?_⟩
        obtain hu | hu := List.mem_append.1 hu
        · exact hapart u hu u (List.mem_cons_of_mem _ hold) rfl
        · exact hs.not_mem_stack hnew (List.mem_singleton.1 hu ▸ hold)
      · exact fun hu => (List.mem_append.1 hu.1).resolve_right hu.2
    have hleave : t.leave v = t.complete (new ++ [v]) s.stack := by
      rw [State.leave, if_pos (by rw [h.entered, hlow]), hstack, popTo_append new s.stack hnot]
    rw [hleave]
    refine ⟨h.sound_complete hs hnew hpath hlow hgroup, ?_, h.met_self, ?_, ?_⟩
    · exact ⟨List.suffix_rfl, h.later.index, h.later.low, h.later.next⟩
    · exact fun u hu hnot => absurd hu hnot
    · exact Or.inl (Nat.le_of_eq hlow.symm)
  · have hleave : t.leave v = t := by
      rw [State.leave, if_neg]
      rw [h.entered]
      exact fun heq => hlow (Option.some.inj heq).symm
    rw [hleave]
    exact h.keep hs hnew hlow

end Leave

/-- How many of the vertices have not been met. -/
def unmet (vertices : List ModuleId) (s : State) : Nat := vertices.countP (s.index · = none)

theorem unmet_le (vertices : List ModuleId) (h : Extends s t) :
    unmet vertices t ≤ unmet vertices s := by
  refine List.countP_mono_left fun v _ hv => ?_
  rw [decide_eq_true_eq] at hv ⊢
  exact Decidable.byContradiction fun hmet => h.met hmet hv

theorem unmet_enter_lt (hv : v ∈ vertices) (hnew : s.index v = none) :
    unmet vertices (s.enter v) < unmet vertices s := by
  obtain ⟨before, after, rfl⟩ := List.append_of_mem hv
  have hbefore := unmet_le before (Extends.enter hnew)
  have hafter := unmet_le after (Extends.enter hnew)
  simp only [unmet, List.countP_append, List.countP_cons, hnew, s.index_enter_self] at *
  simp
  omega

section Search

variable (hsuccessors : ∀ v, ∀ w ∈ successors v, w ∈ vertices)
include hsuccessors

/-- If the search of new modules is right for some fuel, the successors are examined rightly. -/
theorem Examining.foldl {search : State → ModuleId → State} {fuel : Nat}
    (hs : Sound successors vertices path s) (hnew : s.index v = none)
    (hpath : ∀ u ∈ path, Reach successors u v)
    (hsearch : ∀ t w, Sound successors vertices (v :: path) t → t.index w = none → w ∈ vertices →
      (∀ u ∈ v :: path, Reach successors u w) → unmet vertices t ≤ fuel →
      Searched successors vertices (v :: path) t w (search t w))
    (ws : List ModuleId) :
    ∀ seen t, Examining successors vertices path s v seen t → (∀ w ∈ ws, w ∈ successors v) →
      unmet vertices t ≤ fuel →
      Examining successors vertices path s v (seen ++ ws) (ws.foldl (examine search v) t) := by
  induction ws with
  | nil =>
      intro seen t h _ _
      rwa [List.append_nil]
  | cons w ws ih =>
      intro seen t h hedges hfuel
      have hedge := hedges w List.mem_cons_self
      suffices hnext : Examining successors vertices path s v (seen ++ [w]) (examine search v t w) ∧
          unmet vertices (examine search v t w) ≤ fuel by
        rw [List.foldl_cons, List.append_cons]
        exact ih _ _ hnext.1 (fun x hx => hedges x (List.mem_cons_of_mem _ hx)) hnext.2
      rw [examine]
      split
      · next hwnew =>
          have hreach : ∀ u ∈ v :: path, Reach successors u w := by
            intro u hu
            obtain rfl | hu := List.mem_cons.1 hu
            · exact .single hedge
            · exact (hpath u hu).tail hedge
          have hw := hsearch t w h.sound hwnew (hsuccessors v w hedge) hreach hfuel
          have hle : unmet vertices (search t w) ≤ fuel :=
            Nat.le_trans (unmet_le vertices hw.later) hfuel
          exact ⟨h.child hs hnew hwnew hedge hw, hle⟩
      · next i hi =>
          have hmet : t.Met w := by
            rw [State.Met, hi]
            exact Option.some_ne_none i
          split
          · next hon =>
              have hrank : t.rank w = i := by
                rw [State.rank, hi]
                rfl
              have hback := h.back hs hnew ((h.sound.onStack_iff w).1 hon) hedge
              exact ⟨hrank ▸ hback, hfuel⟩
          · next hoff =>
              exact ⟨h.skip hmet fun hw => hoff ((h.sound.onStack_iff w).2 hw), hfuel⟩

/-- The search from a new module, with fuel for every module that has not been met. -/
theorem connect_searched (fuel : Nat) :
    ∀ (path : List ModuleId) (s : State) (v : ModuleId), Sound successors vertices path s →
      s.index v = none → v ∈ vertices → (∀ u ∈ path, Reach successors u v) →
      unmet vertices s ≤ fuel →
      Searched successors vertices path s v (connect successors fuel s v) := by
  induction fuel with
  | zero =>
      intro path s v _ hnew hv _ hfuel
      have hlt := unmet_enter_lt hv hnew
      omega
  | succ fuel ih =>
      intro path s v hs hnew hv hpath hfuel
      have hlt := unmet_enter_lt hv hnew
      have hexamined := Examining.foldl hsuccessors hs hnew hpath (ih (v :: path)) (successors v)
        [] (s.enter v) (.enter hs hnew hv hpath) (fun _ => id) (by omega)
      exact hexamined.leave hs hnew hpath

theorem visit_sound {fuel : Nat} (hs : Sound successors vertices [] s) (hv : v ∈ vertices)
    (hfuel : unmet vertices s ≤ fuel) :
    Sound successors vertices [] (visit successors fuel s v) ∧
      Extends s (visit successors fuel s v) ∧ (visit successors fuel s v).Met v := by
  rw [visit]
  split
  · next hnew =>
      have h := connect_searched hsuccessors fuel [] s v hs hnew hv (by simp) hfuel
      exact ⟨h.sound, h.later, h.met⟩
  · next hmet => exact ⟨hs, .refl s, hmet⟩

/-- The searches from modules one after another meet all of them. -/
theorem foldl_visit_sound (fuel : Nat) (vs : List ModuleId) :
    ∀ s, Sound successors vertices [] s → (∀ v ∈ vs, v ∈ vertices) → unmet vertices s ≤ fuel →
      Sound successors vertices [] (vs.foldl (visit successors fuel) s) ∧
      Extends s (vs.foldl (visit successors fuel) s) ∧
      ∀ v ∈ vs, (vs.foldl (visit successors fuel) s).Met v := by
  induction vs with
  | nil => exact fun s hs _ _ => ⟨hs, .refl s, by simp⟩
  | cons v vs ih =>
      intro s hs hvs hfuel
      obtain ⟨hsound, hlater, hmet⟩ := visit_sound hsuccessors hs (hvs v List.mem_cons_self) hfuel
      obtain ⟨hsound', hlater', hmet'⟩ := ih _ hsound
        (fun w hw => hvs w (List.mem_cons_of_mem _ hw))
        (Nat.le_trans (unmet_le vertices hlater) hfuel)
      refine ⟨hsound', hlater.trans hlater', fun w hw => ?_⟩
      obtain rfl | hw := List.mem_cons.1 hw
      · exact hlater'.met hmet
      · exact hmet' w hw

/-- After the searches from all modules each belongs to a complete component. -/
theorem search_complete (hv : v ∈ vertices) :
    (vertices.foldl (visit successors vertices.length) .start).Done v := by
  obtain ⟨hsound, _, hmet⟩ := foldl_visit_sound hsuccessors vertices.length vertices .start .start
    (fun _ => id) List.countP_le_length
  obtain hstacked | hdone := (hsound.met_iff v).1 (hmet v hv)
  · obtain ⟨u, hu, _⟩ := hsound.to_path v hstacked
    exact absurd hu List.not_mem_nil
  · exact hdone

end Search

end Tarjan
end ScriptWeave
