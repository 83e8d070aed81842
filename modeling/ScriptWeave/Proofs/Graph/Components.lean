import ScriptWeave.Proofs.Graph.Reach
import ScriptWeave.Proofs.Graph.Search

/-!
The components of a dependency graph are its strongly connected components, in whatever way the
graph was built. Their numbers follow the order in which the search completes them, so that edges
between components lead from larger numbers to smaller ones.
-/

namespace ScriptWeave
namespace DependencyGraph

open Relation (ReflTransGen)

/-- Each of two modules reaches the other. -/
def Mutual (g : DependencyGraph) (u v : ModuleId) : Prop := g.Reaches u v ∧ g.Reaches v u

theorem Mutual.refl (g : DependencyGraph) (v : ModuleId) : g.Mutual v v := ⟨.refl, .refl⟩

theorem Mutual.symm {g : DependencyGraph} {u v : ModuleId} (h : g.Mutual u v) : g.Mutual v u :=
  ⟨h.2, h.1⟩

theorem Mutual.trans {g : DependencyGraph} {u v w : ModuleId} (h : g.Mutual u v)
    (h' : g.Mutual v w) : g.Mutual u w :=
  ⟨h.1.trans h'.1, h'.2.trans h.2⟩

/-- What the groups of the components are. -/
structure Grouped (g : DependencyGraph) (groups : List (List ModuleId)) : Prop where
  strong : ∀ group ∈ groups, ∃ v ∈ g.vertices, ∀ u, u ∈ group ↔ g.Mutual u v
  covers : ∀ v ∈ g.vertices, ∃ group ∈ groups, v ∈ group
  ordered : groups.Pairwise fun early late => ∀ u ∈ early, u ∉ late ∧ ∀ w ∈ late, ¬ g.Leads u w

theorem groups_grouped (g : DependencyGraph) : Grouped g g.groups := by
  have hleads : (fun u v => v ∈ g.successors u) = g.Leads := by
    funext u v
    exact propext (g.mem_successors u v)
  have hsuccessors : ∀ v, ∀ w ∈ g.successors v, w ∈ g.vertices := fun v w hw =>
    ((g.mem_successors v w).1 hw).target_mem
  obtain ⟨hsound, _, _⟩ := Tarjan.foldl_visit_sound hsuccessors g.vertices.length g.vertices .start
    .start (fun _ => id) List.countP_le_length
  refine ⟨?_, fun v hv => Tarjan.search_complete hsuccessors hv, ?_⟩
  · intro group hgroup
    obtain ⟨v, hv, hmutual⟩ := hsound.strong group hgroup
    have hknown := hsound.known v ((hsound.met_iff v).2 (Or.inr ⟨group, hgroup, hv⟩))
    refine ⟨v, hknown, fun u => ?_⟩
    rw [hmutual, Mutual, Tarjan.Reach, hleads]
  · refine hsound.ordered.imp fun h u hu => ⟨(h u hu).1, fun w hw hlead => ?_⟩
    exact (h u hu).2 w hw ((g.mem_successors u w).2 hlead)

theorem getElem?_components (g : DependencyGraph) (k : Nat) :
    g.components[k]? = g.groups[k]?.map fun group => g.componentOf group k := by
  rw [components, List.getElem?_map, List.getElem?_zipIdx]
  cases g.groups[k]? with
  | none => rfl
  | some group => simp

theorem mem_members_componentOf (g : DependencyGraph) {group : List ModuleId}
    (hgroup : group ∈ g.groups) (k : Nat) (v : ModuleId) :
    v ∈ (g.componentOf group k).members ↔ v ∈ group := by
  simp only [componentOf, List.mem_filter, List.contains_eq_mem, decide_eq_true_eq]
  refine ⟨fun h => h.2, fun h => ⟨?_, h⟩⟩
  obtain ⟨w, hw, hmutual⟩ := g.groups_grouped.strong group hgroup
  exact Reaches.mem ((hmutual v).1 h).2 hw

/-- A component stems from a group, and has its members. -/
theorem exists_group_of_getElem? (g : DependencyGraph) {k : Nat} {c : Component}
    (h : g.components[k]? = some c) :
    ∃ group ∈ g.groups, g.groups[k]? = some group ∧ c = g.componentOf group k ∧
      ∀ v, v ∈ c.members ↔ v ∈ group := by
  rw [getElem?_components] at h
  obtain ⟨group, hgroup, rfl⟩ := Option.map_eq_some_iff.1 h
  have hmem : group ∈ g.groups := List.mem_of_getElem? hgroup
  exact ⟨group, hmem, hgroup, rfl, g.mem_members_componentOf hmem k⟩

theorem exists_group_of_mem (g : DependencyGraph) {c : Component} (h : c ∈ g.components) :
    ∃ group ∈ g.groups, ∃ k, c = g.componentOf group k ∧ ∀ v, v ∈ c.members ↔ v ∈ group := by
  obtain ⟨k, hk⟩ := List.mem_iff_getElem?.1 h
  obtain ⟨group, hgroup, _, hc, hmembers⟩ := g.exists_group_of_getElem? hk
  exact ⟨group, hgroup, k, hc, hmembers⟩

/-- The members of a component are exactly the modules that reach any one of them and are reached
from it. -/
theorem mem_members_iff_mutual (g : DependencyGraph) {c : Component} (h : c ∈ g.components)
    {u v : ModuleId} (hu : u ∈ c.members) : v ∈ c.members ↔ g.Mutual u v := by
  obtain ⟨group, hgroup, _, _, hmembers⟩ := g.exists_group_of_mem h
  obtain ⟨w, _, hmutual⟩ := g.groups_grouped.strong group hgroup
  rw [hmembers] at hu
  rw [hmembers, hmutual]
  have huw := (hmutual u).1 hu
  exact ⟨fun hvw => huw.trans hvw.symm, fun huv => huv.symm.trans huw⟩

theorem exists_component_of_vertex (g : DependencyGraph) {v : ModuleId} (hv : v ∈ g.vertices) :
    ∃ (k : Nat) (c : Component), g.components[k]? = some c ∧ v ∈ c.members := by
  obtain ⟨group, hgroup, hmem⟩ := g.groups_grouped.covers v hv
  obtain ⟨k, hk⟩ := List.mem_iff_getElem?.1 hgroup
  refine ⟨k, g.componentOf group k, ?_, (g.mem_members_componentOf hgroup k v).2 hmem⟩
  rw [getElem?_components, hk]
  rfl

/-- Between components edges lead only from later to earlier ones, and no module is in two. -/
theorem components_pairwise (g : DependencyGraph) {i j : Nat} {a b : Component} (hij : i < j)
    (ha : g.components[i]? = some a) (hb : g.components[j]? = some b) :
    ∀ u ∈ a.members, u ∉ b.members ∧ ∀ w ∈ b.members, ¬ g.Leads u w := by
  obtain ⟨early, _, hi, _, hearly⟩ := g.exists_group_of_getElem? ha
  obtain ⟨late, _, hj, _, hlate⟩ := g.exists_group_of_getElem? hb
  have hordered := g.groups_grouped.ordered
  obtain ⟨hi', hi⟩ := List.getElem?_eq_some_iff.1 hi
  obtain ⟨hj', hj⟩ := List.getElem?_eq_some_iff.1 hj
  have hpair := List.pairwise_iff_getElem.1 hordered i j hi' hj' hij
  rw [hi, hj] at hpair
  intro u hu
  obtain ⟨hnot, hnone⟩ := hpair u ((hearly u).1 hu)
  exact ⟨fun h => hnot ((hlate u).1 h), fun w hw => hnone w ((hlate w).1 hw)⟩

theorem component_unique (g : DependencyGraph) {i j : Nat} {a b : Component} {v : ModuleId}
    (ha : g.components[i]? = some a) (hb : g.components[j]? = some b)
    (hva : v ∈ a.members) (hvb : v ∈ b.members) : i = j := by
  obtain hij | hij | hij := Nat.lt_trichotomy i j
  · exact absurd hvb (g.components_pairwise hij ha hb v hva).1
  · exact hij
  · exact absurd hva (g.components_pairwise hij hb ha v hvb).1

theorem component_eq_of_mem (g : DependencyGraph) {a b : Component} {v : ModuleId}
    (ha : a ∈ g.components) (hb : b ∈ g.components) (hva : v ∈ a.members)
    (hvb : v ∈ b.members) : a = b := by
  obtain ⟨i, hi⟩ := List.mem_iff_getElem?.1 ha
  obtain ⟨j, hj⟩ := List.mem_iff_getElem?.1 hb
  have hij := g.component_unique hi hj hva hvb
  rw [hij, hj] at hi
  exact (Option.some.inj hi).symm

/-- An edge stays in its component or leads to an earlier one. -/
theorem component_le_of_leads (g : DependencyGraph) {i j : Nat} {a b : Component}
    {u v : ModuleId} (ha : g.components[i]? = some a) (hb : g.components[j]? = some b)
    (hu : u ∈ a.members) (hv : v ∈ b.members) (h : g.Leads u v) : j ≤ i := by
  by_contra hlt
  exact (g.components_pairwise (Nat.lt_of_not_le hlt) ha hb u hu).2 v hv h

theorem index_eq (g : DependencyGraph) {k : Nat} {c : Component}
    (h : g.components[k]? = some c) : c.index = k := by
  obtain ⟨group, _, _, rfl, _⟩ := g.exists_group_of_getElem? h
  rfl

theorem component_eq_of_index_eq (g : DependencyGraph) {a b : Component} (ha : a ∈ g.components)
    (hb : b ∈ g.components) (h : a.index = b.index) : a = b := by
  obtain ⟨i, hi⟩ := List.mem_iff_getElem?.1 ha
  obtain ⟨j, hj⟩ := List.mem_iff_getElem?.1 hb
  rw [g.index_eq hi, g.index_eq hj] at h
  rw [Int.ofNat.inj h, hj] at hi
  exact (Option.some.inj hi).symm

/-- No two components share an index or a member. -/
theorem components_disjoint (g : DependencyGraph) :
    g.components.Pairwise fun a b => a.index ≠ b.index ∧ ∀ v ∈ a.members, v ∉ b.members := by
  rw [List.pairwise_iff_getElem]
  intro i j hi hj hij
  have ha := List.getElem?_eq_getElem hi
  have hb := List.getElem?_eq_getElem hj
  refine ⟨?_, fun v hv => (g.components_pairwise hij ha hb v hv).1⟩
  rw [g.index_eq ha, g.index_eq hb]
  exact fun h => Nat.ne_of_lt hij (Int.ofNat.inj h)

theorem members_sublist (g : DependencyGraph) {c : Component} (h : c ∈ g.components) :
    c.members.Sublist g.vertices := by
  obtain ⟨group, _, _, rfl, _⟩ := g.exists_group_of_mem h
  exact List.filter_sublist

theorem members_nodup (g : DependencyGraph) {c : Component} (h : c ∈ g.components) :
    c.members.Nodup :=
  (g.members_sublist h).nodup g.nodup_vertices

theorem members_ne_nil (g : DependencyGraph) {c : Component} (h : c ∈ g.components) :
    c.members ≠ [] := by
  obtain ⟨group, hgroup, _, _, hmembers⟩ := g.exists_group_of_mem h
  obtain ⟨v, _, hmutual⟩ := g.groups_grouped.strong group hgroup
  exact List.ne_nil_of_mem ((hmembers v).2 ((hmutual v).2 (.refl g v)))

theorem cyclic_iff (g : DependencyGraph) {c : Component} (h : c ∈ g.components) :
    c.cyclic = true ↔ 1 < c.members.length ∨ ∃ v, c.members = [v] ∧ g.Leads v v := by
  obtain ⟨group, _, k, hc, _⟩ := g.exists_group_of_mem h
  have hcyclic : c.cyclic = (decide (c.members.length > 1) || c.members.any g.hasSelfEdge) := by
    rw [hc]
    rfl
  rw [hcyclic, Bool.or_eq_true, decide_eq_true_eq]
  refine or_congr_right' fun hshort => ?_
  obtain ⟨v, hv⟩ : ∃ v, c.members = [v] := by
    have hne := List.length_pos_iff.2 (g.members_ne_nil h)
    exact List.length_eq_one_iff.1 (by omega)
  simp [hv, hasSelfEdge, hasEdge_iff]

/-- A list of components is the list of strongly connected components of the graph with the given
vertices and edges, numbered by place. -/
structure StronglyConnected (vertices : List ModuleId) (leads : ModuleId → ModuleId → Prop)
    (components : List Component) : Prop where
  exactly_one : ∀ v ∈ vertices,
    ∃! k : Nat, ∃ c : Component, components[k]? = some c ∧ v ∈ c.members
  shared_iff : ∀ u ∈ vertices, ∀ v ∈ vertices,
    (∃ c ∈ components, u ∈ c.members ∧ v ∈ c.members) ↔
      ReflTransGen leads u v ∧ ReflTransGen leads v u
  index_eq : ∀ (k : Nat) (c : Component), components[k]? = some c → c.index = k
  members_ne_nil : ∀ c ∈ components, c.members ≠ []
  members_sublist : ∀ c ∈ components, c.members.Sublist vertices
  members_nodup : ∀ c ∈ components, c.members.Nodup
  cyclic_iff : ∀ c ∈ components, c.cyclic = true ↔
    1 < c.members.length ∨ ∃ v, c.members = [v] ∧ leads v v

theorem components_stronglyConnected (g : DependencyGraph) :
    StronglyConnected g.vertices g.Leads g.components where
  exactly_one := by
    intro v hv
    obtain ⟨k, c, hc, hmem⟩ := g.exists_component_of_vertex hv
    refine ⟨k, ⟨c, hc, hmem⟩, ?_⟩
    intro j h
    obtain ⟨d, hd, hmem'⟩ := h
    exact g.component_unique hd hc hmem' hmem
  shared_iff := by
    intro u hu v _
    constructor
    · intro h
      obtain ⟨c, hc, huc, hvc⟩ := h
      exact (g.mem_members_iff_mutual hc huc).1 hvc
    · intro huv
      obtain ⟨k, c, hk, hmem⟩ := g.exists_component_of_vertex hu
      have hc := List.mem_of_getElem? hk
      exact ⟨c, hc, hmem, (g.mem_members_iff_mutual hc hmem).2 huv⟩
  index_eq := fun _ _ => g.index_eq
  members_ne_nil := fun _ => g.members_ne_nil
  members_sublist := fun _ => g.members_sublist
  members_nodup := fun _ => g.members_nodup
  cyclic_iff := fun _ => g.cyclic_iff

/-- However a graph is built, its components are its strongly connected components: with respect to
the edges that were recorded, and to the order in which the vertices were inserted. -/
theorem components_ofChanges (changes : List Change) :
    StronglyConnected (insertions changes) (Recorded changes) (ofChanges changes).components := by
  have hleads : (ofChanges changes).Leads = Recorded changes := by
    funext u v
    exact propext (leads_ofChanges changes u v)
  rw [← vertices_ofChanges, ← hleads]
  exact (ofChanges changes).components_stronglyConnected

end DependencyGraph
end ScriptWeave
