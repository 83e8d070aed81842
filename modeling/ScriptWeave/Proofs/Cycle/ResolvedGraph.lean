import ScriptWeave.Proofs.Cycle.Resolution
import ScriptWeave.Proofs.Graph.LoadOrder

/-!
The graph of the emitted modules. Its edges are the edges of the source modules, leaving the merged
module in place of a member and without those inside of a merged module, and one edge from each
redirect to its target. Members rank by the place of their component and a merged module just below
its members, so every edge leads to a lower rank and the graph has no cycle.
-/

namespace ScriptWeave
namespace Cycle

open Relation (TransGen)

variable {Tree : Type} {base out : OutputSet Tree} {g : DependencyGraph}

/-- The edge of `u` that an edge between source modules becomes: it leaves the owner of its source
instead, unless its target has the same owner. -/
def Carried (out : OutputSet Tree) (source target u : ModuleId) : Prop :=
  match owner? out source with
  | none => u = source
  | some owner => u = owner ∧ (owner? out target).getD ⟨""⟩ ≠ owner

theorem owner?_eq_some_iff (out : OutputSet Tree) (id target : ModuleId) :
    owner? out id = some target ↔ ∃ key, out.get? id = some (.redirect id target key) := by
  rw [owner?]
  split
  · next found target' key hget =>
      have hfound : found = id := ((out.get?_eq_some_iff _ _).1 hget).2
      subst hfound
      rw [hget]
      simp
  · next hnone =>
      constructor
      · intro h
        cases h
      · intro h
        obtain ⟨key, hget⟩ := h
        exact absurd hget (hnone _ _ _)

theorem vertices_carryEdge (out : OutputSet Tree) (g : DependencyGraph) (e : Edge) :
    (carryEdge out g e).vertices = g.vertices := by
  rw [carryEdge]
  split
  · exact g.vertices_includeEdge _ _ _
  · split
    · rfl
    · exact g.vertices_includeEdge _ _ _

theorem leads_carryEdge (out : OutputSet Tree) (g : DependencyGraph) (e : Edge) (u v : ModuleId) :
    (carryEdge out g e).Leads u v ↔ g.Leads u v ∨
      (Carried out e.source e.target u ∧ v = e.target) ∧ u ∈ g.vertices ∧ v ∈ g.vertices := by
  rw [carryEdge, Carried]
  cases owner? out e.source with
  | none =>
      rw [g.leads_includeEdge, Prod.mk.injEq]
      constructor
      · intro h
        obtain h | ⟨⟨rfl, rfl⟩, hends⟩ := h
        · exact Or.inl h
        · exact Or.inr ⟨⟨rfl, rfl⟩, hends⟩
      · intro h
        obtain h | ⟨⟨rfl, rfl⟩, hends⟩ := h
        · exact Or.inl h
        · exact Or.inr ⟨⟨rfl, rfl⟩, hends⟩
  | some owner =>
      by_cases hsame : (owner? out e.target).getD ⟨""⟩ = owner
      · simp [hsame]
      · simp only [hsame, if_false, g.leads_includeEdge, Prod.mk.injEq, ne_eq, not_false_eq_true,
          and_true]
        constructor
        · intro h
          obtain h | ⟨⟨rfl, rfl⟩, hends⟩ := h
          · exact Or.inl h
          · exact Or.inr ⟨⟨rfl, rfl⟩, hends⟩
        · intro h
          obtain h | ⟨⟨rfl, rfl⟩, hends⟩ := h
          · exact Or.inl h
          · exact Or.inr ⟨⟨rfl, rfl⟩, hends⟩

theorem vertices_redirectEdge (g : DependencyGraph) (m : EmittedModule Tree) :
    (redirectEdge g m).vertices = g.vertices := by
  cases m with
  | direct _ _ | merged _ => rfl
  | redirect id target key => exact g.vertices_includeEdge _ _ _

theorem leads_redirectEdge (g : DependencyGraph) (m : EmittedModule Tree) (u v : ModuleId) :
    (redirectEdge g m).Leads u v ↔ g.Leads u v ∨
      (∃ key, m = .redirect u v key) ∧ u ∈ g.vertices ∧ v ∈ g.vertices := by
  cases m with
  | direct _ _ | merged _ => simp [redirectEdge]
  | redirect id target key =>
      rw [redirectEdge, g.leads_includeEdge, Prod.mk.injEq]
      constructor
      · intro h
        obtain h | ⟨⟨rfl, rfl⟩, hends⟩ := h
        · exact Or.inl h
        · exact Or.inr ⟨⟨key, rfl⟩, hends⟩
      · intro h
        obtain h | ⟨⟨_, heq⟩, hends⟩ := h
        · exact Or.inl h
        · cases heq
          exact Or.inr ⟨⟨rfl, rfl⟩, hends⟩

theorem mem_vertices_resolvedGraph (g : DependencyGraph) (out : OutputSet Tree) (id : ModuleId) :
    id ∈ (resolvedGraph g out).vertices ↔ id ∈ out.ids := by
  rw [resolvedGraph, DependencyGraph.vertices_foldl vertices_redirectEdge,
    DependencyGraph.vertices_foldl (vertices_carryEdge out), DependencyGraph.mem_vertices_ofIds]

/-- The edges of the resolved graph. -/
theorem leads_resolvedGraph (g : DependencyGraph) (out : OutputSet Tree) (u v : ModuleId) :
    (resolvedGraph g out).Leads u v ↔
      ((∃ source, g.Leads source v ∧ Carried out source v u) ∨ owner? out u = some v) ∧
        u ∈ out.ids ∧ v ∈ out.ids := by
  have hcarried : (∃ e ∈ g.orderedEdges, Carried out e.source e.target u ∧ v = e.target) ↔
      ∃ source, g.Leads source v ∧ Carried out source v u := by
    constructor
    · intro h
      obtain ⟨e, he, hcarried, rfl⟩ := h
      exact ⟨e.source, (g.exists_orderedEdge_iff _ _).1 ⟨e, he, rfl, rfl⟩, hcarried⟩
    · intro h
      obtain ⟨source, hleads, hcarried⟩ := h
      obtain ⟨e, he, rfl, rfl⟩ := (g.exists_orderedEdge_iff _ _).2 hleads
      exact ⟨e, he, hcarried, rfl⟩
  have hredirect : (∃ m ∈ out.modules, ∃ key, m = .redirect u v key) ↔ owner? out u = some v := by
    rw [owner?_eq_some_iff]
    constructor
    · intro h
      obtain ⟨m, hm, key, rfl⟩ := h
      exact ⟨key, (out.get?_eq_some_iff _ _).2 ⟨hm, rfl⟩⟩
    · intro h
      obtain ⟨key, hget⟩ := h
      exact ⟨_, ((out.get?_eq_some_iff _ _).1 hget).1, key, rfl⟩
  rw [resolvedGraph, DependencyGraph.leads_foldl vertices_redirectEdge leads_redirectEdge,
    DependencyGraph.leads_foldl (vertices_carryEdge out) (leads_carryEdge out),
    DependencyGraph.vertices_foldl (vertices_carryEdge out), DependencyGraph.mem_vertices_ofIds,
    DependencyGraph.mem_vertices_ofIds, hcarried, hredirect,
    or_iff_right (DependencyGraph.not_leads_ofIds _ _ _), ← or_and_right]

/-- Members of a component rank by its place, and a merged module just below its members. -/
def rank (g : DependencyGraph) (id : ModuleId) : Nat :=
  if id ∈ g.vertices then 2 * g.place id + 1
  else 2 * g.components.findIdx fun c => mergedId c.index = id

theorem rank_of_vertex {id : ModuleId} (h : id ∈ g.vertices) : rank g id = 2 * g.place id + 1 :=
  if_pos h

theorem rank_mergedId {k : Nat} {c : Component} (hc : g.components[k]? = some c)
    (hfresh : mergedId c.index ∉ g.vertices) : rank g (mergedId c.index) = 2 * k := by
  rw [rank, if_neg hfresh]
  have hlt : (g.components.findIdx fun d => mergedId d.index = mergedId c.index) <
      g.components.length :=
    List.findIdx_lt_length_of_exists ⟨c, List.mem_of_getElem? hc, decide_eq_true rfl⟩
  have hfound := of_decide_eq_true (List.findIdx_getElem (w := hlt))
  have hplace := g.index_eq (List.getElem?_eq_getElem hlt)
  have hindex := hplace.symm.trans ((mergedId_injective hfound).trans (g.index_eq hc))
  rw [Int.ofNat.inj hindex]

/-- What a source module has become: itself, when no cycle runs through its component, and a
redirect to the merged module of its component otherwise. -/
theorem Resolved.vertex_cases (h : Resolved base g out)
    (hdirect : ∀ m ∈ base.modules, m.kind = .direct) {id : ModuleId} (hid : id ∈ g.vertices) :
    ∃ c, g.components[g.place id]? = some c ∧ id ∈ c.members ∧
      (c.cyclic = false ∧ owner? out id = none ∨
        c.cyclic = true ∧ ∀ v ∈ c.members, owner? out v = some (mergedId c.index)) := by
  obtain ⟨c, hc, hmem⟩ := g.exists_component_at_place hid
  have hcMem := List.mem_of_getElem? hc
  refine ⟨c, hc, hmem, ?_⟩
  cases hcyclic : c.cyclic with
  | false =>
      refine Or.inl ⟨rfl, ?_⟩
      rw [Option.eq_none_iff_forall_ne_some]
      intro target howner
      obtain ⟨key, hget⟩ := (owner?_eq_some_iff out id target).1 howner
      rw [h.kept c hcMem hcyclic id hmem] at hget
      have hkind := hdirect _ ((base.get?_eq_some_iff _ _).1 hget).1
      simp [EmittedModule.kind] at hkind
  | true =>
      refine Or.inr ⟨rfl, fun v hv => ?_⟩
      obtain ⟨m, hm, _, hredirects⟩ := h.merged c hcMem hcyclic
      rw [← hm.member_ids] at hv
      obtain ⟨x, hx, rfl⟩ := List.mem_map.1 hv
      exact (owner?_eq_some_iff out _ _).2 ⟨x.key, hm.id_eq ▸ hredirects x hx⟩

theorem Resolved.mergedId_fresh (h : Resolved base g out)
    (hids : ∀ id ∈ g.vertices, id ∈ base.ids) {c : Component} (hc : c ∈ g.components)
    (hcyclic : c.cyclic = true) : mergedId c.index ∉ g.vertices := by
  obtain ⟨m, hm, _⟩ := h.merged c hc hcyclic
  exact fun hv => hm.fresh (hm.id_eq ▸ hids _ hv)

/-- An edge of a module that is not on a cycle leads to an earlier place. -/
theorem place_lt_of_not_cyclic {u v : ModuleId} {c : Component}
    (hc : g.components[g.place u]? = some c) (hu : u ∈ c.members) (hcyclic : c.cyclic = false)
    (hleads : g.Leads u v) : g.place v < g.place u := by
  refine Nat.lt_of_le_of_ne hleads.place_le fun heq => ?_
  have hcMem := List.mem_of_getElem? hc
  have hmutual := g.mutual_of_place_eq hleads.source_mem hleads.target_mem heq.symm
  have hv := (g.mem_members_iff_mutual hcMem hu).2 hmutual
  have hself : c.cyclic = true := by
    rw [g.cyclic_iff hcMem]
    by_cases hlength : 1 < c.members.length
    · exact Or.inl hlength
    · have hpos := List.length_pos_of_mem hu
      obtain ⟨w, hw⟩ := List.length_eq_one_iff.1 (show c.members.length = 1 by omega)
      rw [hw, List.mem_singleton] at hu hv
      subst hu hv
      exact Or.inr ⟨_, hw, hleads⟩
  rw [hcyclic] at hself
  exact Bool.false_ne_true hself

/-- Every edge of the resolved graph leads to a lower rank. -/
theorem Resolved.rank_lt (h : Resolved base g out)
    (hdirect : ∀ m ∈ base.modules, m.kind = .direct) (hids : ∀ id, id ∈ g.vertices ↔ id ∈ base.ids)
    {u v : ModuleId} (huv : (resolvedGraph g out).Leads u v) : rank g v < rank g u := by
  have hvertices : ∀ id ∈ g.vertices, id ∈ base.ids := fun id => (hids id).1
  obtain ⟨hedge, hu, _⟩ := (leads_resolvedGraph g out u v).1 huv
  obtain ⟨source, hleads, hcarried⟩ | howner := hedge
  · obtain ⟨c, hc, hmem, ⟨hcyclic, hnone⟩ | ⟨hcyclic, hall⟩⟩ :=
      h.vertex_cases hdirect hleads.source_mem
    · rw [Carried, hnone] at hcarried
      subst hcarried
      have hlt := place_lt_of_not_cyclic hc hmem hcyclic hleads
      rw [rank_of_vertex hleads.source_mem, rank_of_vertex hleads.target_mem]
      omega
    · rw [Carried, hall source hmem] at hcarried
      obtain ⟨rfl, hother⟩ := hcarried
      have hne : g.place v ≠ g.place source := by
        intro heq
        have hmutual := g.mutual_of_place_eq hleads.source_mem hleads.target_mem heq.symm
        have hv := (g.mem_members_iff_mutual (List.mem_of_getElem? hc) hmem).2 hmutual
        exact hother (by rw [hall v hv, Option.getD_some])
      have hle := hleads.place_le
      rw [rank_of_vertex hleads.target_mem,
        rank_mergedId hc (h.mergedId_fresh hvertices (List.mem_of_getElem? hc) hcyclic)]
      omega
  · rw [h.ids_eq, List.mem_append] at hu
    obtain hu | hu := hu
    · have hvertex := (hids u).2 hu
      obtain ⟨c, hc, hmem, ⟨_, hnone⟩ | ⟨hcyclic, hall⟩⟩ := h.vertex_cases hdirect hvertex
      · rw [hnone] at howner
        cases howner
      · rw [hall u hmem] at howner
        cases howner
        rw [rank_of_vertex hvertex,
          rank_mergedId hc (h.mergedId_fresh hvertices (List.mem_of_getElem? hc) hcyclic)]
        omega
    · obtain ⟨c, hc, rfl⟩ := List.mem_map.1 hu
      obtain ⟨hcMem, hcyclic⟩ := List.mem_filter.1 hc
      obtain ⟨m, hm, hget, _⟩ := h.merged c hcMem hcyclic
      obtain ⟨key, hredirect⟩ := (owner?_eq_some_iff out _ _).1 howner
      rw [← hm.id_eq, hget] at hredirect
      cases hredirect

/-- After the cycles of a graph over direct modules were resolved, the graph of the emitted modules
has no cycle and no self-edge, no component of it is cyclic, and its load order lists every emitted
module exactly once and after all modules that it depends on. -/
theorem resolvedGraph_acyclic (base : OutputSet Tree) (g : DependencyGraph) (r : Resolution Tree)
    (hdirect : ∀ m ∈ base.modules, m.kind = .direct)
    (hids : ∀ id, id ∈ g.vertices ↔ id ∈ base.ids) (h : resolve base g.components = .ok r) :
    (∀ id, ¬ TransGen (resolvedGraph g r.output).Leads id id) ∧
      (∀ id, (resolvedGraph g r.output).hasSelfEdge id = false) ∧
      (∀ c ∈ (resolvedGraph g r.output).components, c.cyclic = false) ∧
      (resolvedGraph g r.output).loadOrder.Perm r.output.ids ∧
      ∀ u v, (resolvedGraph g r.output).Leads u v →
        (resolvedGraph g r.output).loadOrder.idxOf v <
          (resolvedGraph g r.output).loadOrder.idxOf u := by
  have hresolved := resolve_resolved (fun id => (hids id).1) h
  have hacyclic := (resolvedGraph g r.output).acyclic_of_rank (rank g) fun u v =>
    hresolved.rank_lt hdirect hids
  refine ⟨hacyclic, ?_, fun c => DependencyGraph.not_cyclic_of_acyclic _ hacyclic, ?_, ?_⟩
  · intro id
    rw [← Bool.not_eq_true, DependencyGraph.hasSelfEdge, DependencyGraph.hasEdge_iff]
    exact fun hself => hacyclic id (.single hself)
  · refine (DependencyGraph.loadOrder_perm_vertices _).trans ?_
    exact (List.perm_ext_iff_of_nodup (DependencyGraph.nodup_vertices _) r.output.nodup_ids).2
      (mem_vertices_resolvedGraph g r.output)
  · intro u v huv
    exact DependencyGraph.idxOf_loadOrder_lt_of_leads _ hacyclic huv

theorem resolvedGraph_acyclic_pair :
    ∃ r, resolve pairBase pairGraph.components = .ok r ∧
      (∀ c ∈ (resolvedGraph pairGraph r.output).components, c.cyclic = false) ∧
      (resolvedGraph pairGraph r.output).loadOrder.Perm r.output.ids := by
  obtain ⟨r, hr⟩ := exists_resolve_pair
  obtain ⟨_, _, hcyclic, hperm, _⟩ :=
    resolvedGraph_acyclic pairBase pairGraph r pairBase_direct mem_pairGraph_iff hr
  exact ⟨r, hr, hcyclic, hperm⟩

end Cycle
end ScriptWeave
