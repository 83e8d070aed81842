import Mathlib.Data.List.Basic
import Mathlib.Data.List.Nodup
import ScriptWeave.Proofs.Graph.Components

/-!
The order of loading. Every vertex has a place, the position of its component; edges lead to the
same place or an earlier one, and the load order lists the vertices by place. In a graph without
cycles no component is cyclic and the load order lists each vertex after all that it leads to.
-/

namespace ScriptWeave
namespace DependencyGraph

open Relation (ReflTransGen TransGen)

/-- The position of the component of a vertex. -/
def place (g : DependencyGraph) (v : ModuleId) : Nat :=
  g.components.findIdx fun c => v ∈ c.members

theorem place_eq (g : DependencyGraph) {k : Nat} {c : Component} {v : ModuleId}
    (h : g.components[k]? = some c) (hv : v ∈ c.members) : g.place v = k := by
  obtain ⟨hk, hc⟩ := List.getElem?_eq_some_iff.1 h
  have hlt : g.place v < g.components.length :=
    List.findIdx_lt_length_of_exists ⟨c, List.mem_of_getElem? h, decide_eq_true hv⟩
  have hfound := List.findIdx_getElem (w := hlt)
  exact g.component_unique (List.getElem?_eq_getElem hlt) h (of_decide_eq_true hfound) hv

theorem exists_component_at_place (g : DependencyGraph) {v : ModuleId} (hv : v ∈ g.vertices) :
    ∃ c, g.components[g.place v]? = some c ∧ v ∈ c.members := by
  obtain ⟨k, c, hc, hmem⟩ := g.exists_component_of_vertex hv
  exact ⟨c, (g.place_eq hc hmem).symm ▸ hc, hmem⟩

theorem Leads.place_le {g : DependencyGraph} {u v : ModuleId} (h : g.Leads u v) :
    g.place v ≤ g.place u := by
  obtain ⟨a, ha, hu⟩ := g.exists_component_at_place h.source_mem
  obtain ⟨b, hb, hv⟩ := g.exists_component_at_place h.target_mem
  exact g.component_le_of_leads ha hb hu hv h

theorem mutual_of_place_eq (g : DependencyGraph) {u v : ModuleId} (hu : u ∈ g.vertices)
    (hv : v ∈ g.vertices) (h : g.place u = g.place v) : g.Mutual u v := by
  obtain ⟨a, ha, hua⟩ := g.exists_component_at_place hu
  obtain ⟨b, hb, hvb⟩ := g.exists_component_at_place hv
  rw [h, hb] at ha
  cases ha
  exact (g.mem_members_iff_mutual (List.mem_of_getElem? hb) hua).1 hvb

theorem mem_loadOrder (g : DependencyGraph) (v : ModuleId) :
    v ∈ g.loadOrder ↔ v ∈ g.vertices := by
  rw [loadOrder, List.mem_flatMap]
  constructor
  · intro h
    obtain ⟨c, hc, hv⟩ := h
    exact (g.members_sublist hc).subset hv
  · intro hv
    obtain ⟨k, c, hc, hmem⟩ := g.exists_component_of_vertex hv
    exact ⟨c, List.mem_of_getElem? hc, hmem⟩

theorem nodup_loadOrder (g : DependencyGraph) : g.loadOrder.Nodup := by
  rw [loadOrder, List.nodup_flatMap]
  refine ⟨fun c hc => g.members_nodup hc, ?_⟩
  exact g.components_disjoint.imp fun hdisjoint v hva hvb => hdisjoint.2 v hva hvb

theorem loadOrder_perm_vertices (g : DependencyGraph) : g.loadOrder.Perm g.vertices :=
  (List.perm_ext_iff_of_nodup g.nodup_loadOrder g.nodup_vertices).2 g.mem_loadOrder

/-- A vertex of an earlier place is listed before one of a later place. -/
theorem idxOf_loadOrder_lt (g : DependencyGraph) {u v : ModuleId} (hv : v ∈ g.vertices)
    (h : g.place v < g.place u) : g.loadOrder.idxOf v < g.loadOrder.idxOf u := by
  obtain ⟨c, hc, hmem⟩ := g.exists_component_at_place hv
  let early := (g.components.take (g.place u)).flatMap (·.members)
  let late := (g.components.drop (g.place u)).flatMap (·.members)
  have hsplit : g.loadOrder = early ++ late := by
    rw [loadOrder, ← List.flatMap_append, List.take_append_drop]
  have hvEarly : v ∈ early := by
    refine List.mem_flatMap.2 ⟨c, ?_, hmem⟩
    exact List.mem_of_getElem? ((List.getElem?_take_of_lt h).trans hc)
  have huLate : u ∉ early := by
    intro hu
    obtain ⟨d, hd, hmemd⟩ := List.mem_flatMap.1 hu
    obtain ⟨k, hk⟩ := List.mem_iff_getElem?.1 hd
    have hlt : k < g.place u := by
      by_contra hle
      rw [List.getElem?_take_eq_none (Nat.le_of_not_lt hle)] at hk
      cases hk
    rw [List.getElem?_take_of_lt hlt] at hk
    exact absurd (g.place_eq hk hmemd) (Nat.ne_of_gt hlt)
  rw [hsplit, List.idxOf_append_of_mem hvEarly, List.idxOf_append_of_notMem huLate]
  exact Nat.lt_of_lt_of_le (List.idxOf_lt_length_of_mem hvEarly) (Nat.le_add_right _ _)

theorem index_lt_of_leads (g : DependencyGraph) {a b : Component} {u v : ModuleId}
    (ha : a ∈ g.components) (hb : b ∈ g.components) (hu : u ∈ a.members) (hv : v ∈ b.members)
    (hne : a ≠ b) (h : g.Leads u v) : b.index < a.index := by
  obtain ⟨i, hi⟩ := List.mem_iff_getElem?.1 ha
  obtain ⟨j, hj⟩ := List.mem_iff_getElem?.1 hb
  have hle : j ≤ i := g.component_le_of_leads hi hj hu hv h
  have hij : j ≠ i := by
    intro heq
    rw [heq, hi] at hj
    exact hne (Option.some.inj hj)
  rw [g.index_eq hi, g.index_eq hj]
  omega

theorem shared_or_place_lt (g : DependencyGraph) {u v : ModuleId} (h : g.Leads u v) :
    (∃ c ∈ g.components, u ∈ c.members ∧ v ∈ c.members) ∨ g.place v < g.place u := by
  by_cases heq : g.place v = g.place u
  · obtain ⟨c, hc, hu⟩ := g.exists_component_at_place h.source_mem
    obtain ⟨d, hd, hv⟩ := g.exists_component_at_place h.target_mem
    rw [heq, hc] at hd
    cases hd
    exact Or.inl ⟨c, List.mem_of_getElem? hc, hu, hv⟩
  · exact Or.inr (Nat.lt_of_le_of_ne h.place_le heq)

/-- An edge between two components leads to the one with the smaller number, and the load order
lists every vertex once, after all vertices that it leads to outside of its component. -/
theorem dependencies_first (g : DependencyGraph) :
    (∀ a ∈ g.components, ∀ b ∈ g.components, ∀ u ∈ a.members, ∀ v ∈ b.members,
      a ≠ b → g.Leads u v → b.index < a.index) ∧
    g.loadOrder.Perm g.vertices ∧
    ∀ u v, g.Leads u v → (¬ ∃ c ∈ g.components, u ∈ c.members ∧ v ∈ c.members) →
      g.loadOrder.idxOf v < g.loadOrder.idxOf u := by
  refine ⟨?_, g.loadOrder_perm_vertices, ?_⟩
  · intro a ha b hb u hu v hv hne h
    exact g.index_lt_of_leads ha hb hu hv hne h
  · intro u v h hapart
    have hplace := (g.shared_or_place_lt h).resolve_left hapart
    exact g.idxOf_loadOrder_lt h.target_mem hplace

/-- An application and a library that need each other, on top of a base. -/
def layeredGraph : DependencyGraph :=
  ofChanges [.vertex ⟨"app.js"⟩, .vertex ⟨"lib.js"⟩, .vertex ⟨"base.js"⟩,
    .edge ⟨"app.js"⟩ ⟨"lib.js"⟩ 1, .edge ⟨"lib.js"⟩ ⟨"app.js"⟩ 2, .edge ⟨"lib.js"⟩ ⟨"base.js"⟩ 0]

theorem dependencies_first_layered :
    layeredGraph.Leads ⟨"lib.js"⟩ ⟨"base.js"⟩ ∧
    (¬ ∃ c ∈ layeredGraph.components, ⟨"lib.js"⟩ ∈ c.members ∧ ⟨"base.js"⟩ ∈ c.members) ∧
    layeredGraph.loadOrder.idxOf ⟨"base.js"⟩ < layeredGraph.loadOrder.idxOf ⟨"lib.js"⟩ := by
  have hleads : layeredGraph.Leads ⟨"lib.js"⟩ ⟨"base.js"⟩ :=
    (layeredGraph.hasEdge_iff _ _).1 (by decide)
  have hapart : ¬ ∃ c ∈ layeredGraph.components,
      ⟨"lib.js"⟩ ∈ c.members ∧ ⟨"base.js"⟩ ∈ c.members := by decide
  exact ⟨hleads, hapart, (dependencies_first layeredGraph).2.2 _ _ hleads hapart⟩

theorem acyclic_of_rank (g : DependencyGraph) (rank : ModuleId → Nat)
    (hrank : ∀ u v, g.Leads u v → rank v < rank u) (v : ModuleId) : ¬ TransGen g.Leads v v := by
  have hpath : ∀ {a b : ModuleId}, TransGen g.Leads a b → rank b < rank a := by
    intro a b h
    induction h with
    | single hstep => exact hrank _ _ hstep
    | tail _ hstep ih => exact Nat.lt_trans (hrank _ _ hstep) ih
  exact fun h => Nat.lt_irrefl _ (hpath h)

theorem not_cyclic_of_acyclic (g : DependencyGraph) (h : ∀ v, ¬ TransGen g.Leads v v)
    {c : Component} (hc : c ∈ g.components) : c.cyclic = false := by
  rw [← Bool.not_eq_true, g.cyclic_iff hc]
  intro h
  obtain hlength | ⟨v, _, hself⟩ := h
  · match hmembers : c.members, hlength with
    | u :: v :: rest, _ =>
        have hu : u ∈ c.members := by simp [hmembers]
        have hv : v ∈ c.members := by simp [hmembers]
        have hne : u ≠ v := by
          have hnodup := g.members_nodup hc
          rw [hmembers] at hnodup
          exact fun heq => (List.nodup_cons.1 hnodup).1 (heq ▸ List.mem_cons_self)
        obtain ⟨huv, hvu⟩ := (g.mem_members_iff_mutual hc hu).1 hv
        have hpath := (Relation.reflTransGen_iff_eq_or_transGen.1 huv).resolve_left hne.symm
        exact h u (hpath.trans_left hvu)
  · exact h v (.single hself)

/-- Without cycles, every module is listed after the modules that it depends on. -/
theorem idxOf_loadOrder_lt_of_leads (g : DependencyGraph) (h : ∀ v, ¬ TransGen g.Leads v v)
    {u v : ModuleId} (huv : g.Leads u v) : g.loadOrder.idxOf v < g.loadOrder.idxOf u := by
  refine g.idxOf_loadOrder_lt huv.target_mem (Nat.lt_of_le_of_ne huv.place_le fun heq => ?_)
  have hback := (g.mutual_of_place_eq huv.target_mem huv.source_mem heq).1
  exact h u (TransGen.head' huv hback)

end DependencyGraph
end ScriptWeave
