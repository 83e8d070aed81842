import Mathlib.Data.List.Nodup
import Mathlib.Data.List.Perm.Basic
import ScriptWeave.Proofs.Graph.Components

/-!
Graphs that differ only in the order of their vertices and edges. Recorded weights add up, and
adding machine words does not depend on the order, so the order in which edges are recorded does not
matter either. Graphs that agree have the same components, each with the same members and as cyclic
as before.
-/

namespace ScriptWeave

namespace Edge

/-- The weight of the edge with the given ends, zero when there is none. -/
def weightIn (edges : List Edge) (ends : ModuleId × ModuleId) : Int64 :=
  ((edges.find? fun e => e.ends = ends).map (·.weight)).getD 0

theorem weightIn_cons (d : Edge) (edges : List Edge) (p : ModuleId × ModuleId) :
    weightIn (d :: edges) p = if d.ends = p then d.weight else weightIn edges p := by
  rw [weightIn, List.find?_cons]
  by_cases h : d.ends = p
  · simp [h]
  · simp [h, weightIn]

theorem weightIn_accumulate (edges : List Edge) (e : Edge) (p : ModuleId × ModuleId) :
    weightIn (accumulate edges e) p = weightIn edges p + if e.ends = p then e.weight else 0 := by
  induction edges with
  | nil =>
      rw [accumulate, weightIn_cons]
      exact (Int64.zero_add _).symm
  | cons d edges ih =>
      rw [accumulate]
      by_cases hd : d.ends = e.ends
      · rw [if_pos hd, weightIn_cons, weightIn_cons, ← hd]
        change (if d.ends = p then d.weight + e.weight else weightIn edges p) = _
        by_cases hp : d.ends = p
        · rw [if_pos hp, if_pos hp, if_pos hp]
        · rw [if_neg hp, if_neg hp, if_neg hp, Int64.add_zero]
      · rw [if_neg hd, weightIn_cons, weightIn_cons, ih]
        by_cases hp : d.ends = p
        · have hne : e.ends ≠ p := fun h => hd (hp.trans h.symm)
          rw [if_pos hp, if_pos hp, if_neg hne, Int64.add_zero]
        · rw [if_neg hp, if_neg hp]

end Edge

namespace DependencyGraph

theorem weight_includeEdge (g : DependencyGraph) (source target : ModuleId) (w : Int64)
    (u v : ModuleId) :
    (g.includeEdge source target w).weight u v = g.weight u v +
      if (source, target) = (u, v) ∧ u ∈ g.vertices ∧ v ∈ g.vertices then w else 0 := by
  by_cases hknown : source ∈ g.vertices ∧ target ∈ g.vertices
  · have hweight : (g.includeEdge source target w).weight u v =
        g.weight u v + if (source, target) = (u, v) then w else 0 := by
      simp only [includeEdge, addEdge, hknown.1, hknown.2, dite_true]
      exact Edge.weightIn_accumulate g.edges ⟨source, target, w⟩ (u, v)
    rw [hweight]
    by_cases hends : (source, target) = (u, v)
    · cases hends
      rw [if_pos rfl, if_pos ⟨rfl, hknown⟩]
    · rw [if_neg hends, if_neg fun h => hends h.1]
  · have hsame : g.includeEdge source target w = g := by
      rw [includeEdge, addEdge]
      by_cases hs : source ∈ g.vertices
      · have ht : target ∉ g.vertices := fun ht => hknown ⟨hs, ht⟩
        simp [hs, ht]
      · simp [hs]
    rw [hsame, if_neg, Int64.add_zero]
    intro h
    obtain ⟨hends, hknown'⟩ := h
    cases hends
    exact hknown hknown'

/-- Records edges one after another, leaving out those with an end that is no vertex. -/
def includeAll (g : DependencyGraph) (edges : List Edge) : DependencyGraph :=
  edges.foldl (fun g e => g.includeEdge e.source e.target e.weight) g

theorem vertices_includeAll (g : DependencyGraph) (edges : List Edge) :
    (g.includeAll edges).vertices = g.vertices := by
  rw [includeAll]
  apply vertices_foldl
  intro g e
  exact g.vertices_includeEdge e.source e.target e.weight

theorem leads_includeAll (g : DependencyGraph) (edges : List Edge) (u v : ModuleId) :
    (g.includeAll edges).Leads u v ↔
      g.Leads u v ∨ (∃ e ∈ edges, e.ends = (u, v)) ∧ u ∈ g.vertices ∧ v ∈ g.vertices := by
  have hone : ∀ (g : DependencyGraph) (e : Edge) (u v : ModuleId),
      (g.includeEdge e.source e.target e.weight).Leads u v ↔
        g.Leads u v ∨ e.ends = (u, v) ∧ u ∈ g.vertices ∧ v ∈ g.vertices := by
    intro g e u v
    rw [leads_includeEdge]
    apply or_congr_right
    constructor
    · intro h
      obtain ⟨hends, hknown⟩ := h
      cases hends
      exact ⟨rfl, hknown⟩
    · intro h
      obtain ⟨hends, hknown⟩ := h
      cases hends
      exact ⟨rfl, hknown⟩
  exact leads_foldl (fun g e => g.vertices_includeEdge e.source e.target e.weight) hone edges g u v

theorem weight_includeAll (g : DependencyGraph) (edges : List Edge) (u v : ModuleId) :
    (g.includeAll edges).weight u v = edges.foldl (fun w e =>
      w + if e.ends = (u, v) ∧ u ∈ g.vertices ∧ v ∈ g.vertices then e.weight else 0)
        (g.weight u v) := by
  rw [includeAll]
  induction edges generalizing g with
  | nil => rfl
  | cons e edges ih =>
      rw [List.foldl_cons, List.foldl_cons, ih, vertices_includeEdge, weight_includeEdge]
      rfl

theorem weight_of_mem {g : DependencyGraph} {e : Edge} (h : e ∈ g.edges) :
    g.weight e.source e.target = e.weight := by
  obtain ⟨found, hfound⟩ : ∃ found, g.edge? e.source e.target = some found :=
    Option.isSome_iff_exists.1 (List.find?_isSome.2 ⟨e, h, decide_eq_true rfl⟩)
  have hends : found.ends = (e.source, e.target) := by simpa using List.find?_some hfound
  have heq := List.inj_on_of_nodup_map g.nodup_ends (List.mem_of_find?_eq_some hfound) h hends
  rw [weight, hfound, heq]
  rfl

theorem mem_edges_iff (g : DependencyGraph) (e : Edge) :
    e ∈ g.edges ↔ g.Leads e.source e.target ∧ g.weight e.source e.target = e.weight := by
  constructor
  · intro h
    exact ⟨⟨e.weight, h⟩, weight_of_mem h⟩
  · intro h
    obtain ⟨⟨w, hmem⟩, hweight⟩ := h
    have hw : w = e.weight := (weight_of_mem hmem).symm.trans hweight
    subst hw
    exact hmem

/-- Two graphs with the same vertices and the same edges of the same weights, in whatever order. -/
structure Agrees (g g' : DependencyGraph) : Prop where
  vertices : g.vertices.Perm g'.vertices
  edges : g.edges.Perm g'.edges

theorem Agrees.symm {g g' : DependencyGraph} (h : g.Agrees g') : g'.Agrees g :=
  ⟨h.vertices.symm, h.edges.symm⟩

theorem nodup_edges (g : DependencyGraph) : g.edges.Nodup :=
  List.Nodup.of_map _ g.nodup_ends

theorem agrees_of_leads {g g' : DependencyGraph} (hvertices : g.vertices.Perm g'.vertices)
    (hleads : ∀ u v, g.Leads u v ↔ g'.Leads u v)
    (hweight : ∀ u v, g.weight u v = g'.weight u v) : g.Agrees g' := by
  refine ⟨hvertices, (List.perm_ext_iff_of_nodup g.nodup_edges g'.nodup_edges).2 ?_⟩
  intro e
  rw [mem_edges_iff, mem_edges_iff, hleads, hweight]

theorem edges_addVertices (g : DependencyGraph) (ids : List ModuleId) :
    (g.addVertices ids).edges = g.edges := by
  rw [addVertices]
  induction ids generalizing g with
  | nil => rfl
  | cons id ids ih =>
      rw [List.foldl_cons, ih, addVertex]
      split
      · rfl
      · rfl

theorem vertices_addVertices_perm {ids ids' : List ModuleId} (h : ids.Perm ids') :
    (empty.addVertices ids).vertices.Perm (empty.addVertices ids').vertices := by
  apply (List.perm_ext_iff_of_nodup (nodup_vertices _) (nodup_vertices _)).2
  intro v
  rw [mem_vertices_addVertices, mem_vertices_addVertices, h.mem_iff]

/-- The same vertices and edges in another order make a graph that agrees. -/
theorem agrees_includeAll {ids ids' : List ModuleId} (hids : ids.Perm ids')
    {edges edges' : List Edge} (hedges : edges.Perm edges') :
    ((empty.addVertices ids).includeAll edges).Agrees
      ((empty.addVertices ids').includeAll edges') := by
  have hvertices := vertices_addVertices_perm hids
  apply agrees_of_leads
  · rw [vertices_includeAll, vertices_includeAll]
    exact hvertices
  · intro u v
    simp only [leads_includeAll, leads_addVertices, hedges.mem_iff, hvertices.mem_iff]
  · intro u v
    have hnone : (empty.addVertices ids).weight u v = (empty.addVertices ids').weight u v := by
      rw [weight, weight, edge?, edge?, edges_addVertices, edges_addVertices]
    rw [weight_includeAll, weight_includeAll, hnone]
    simp only [hvertices.mem_iff]
    apply hedges.foldl_eq'
    intro e _ d _ w
    rw [Int64.add_assoc, Int64.add_assoc, Int64.add_comm (ite _ _ _)]

section

variable {g g' : DependencyGraph} (h : g.Agrees g')
include h

theorem Agrees.leads (u v : ModuleId) : g.Leads u v ↔ g'.Leads u v := by
  rw [leads_iff_mem_ends, leads_iff_mem_ends, (h.edges.map Edge.ends).mem_iff]

theorem Agrees.mutual (u v : ModuleId) : g.Mutual u v ↔ g'.Mutual u v := by
  have hleads : g.Leads = g'.Leads := by
    funext u v
    exact propext (h.leads u v)
  rw [Mutual, Mutual, Reaches, Reaches, hleads]

/-- Every component of one graph is a component of the other, up to its number. -/
theorem Agrees.exists_component {c : Component} (hc : c ∈ g.components) :
    ∃ c' ∈ g'.components, c.members.Perm c'.members ∧ c.cyclic = c'.cyclic := by
  obtain ⟨v, hv⟩ := List.exists_mem_of_ne_nil _ (g.members_ne_nil hc)
  have hvertex : v ∈ g'.vertices := h.vertices.mem_iff.1 ((g.members_sublist hc).subset hv)
  obtain ⟨k, c', hk, hv'⟩ := g'.exists_component_of_vertex hvertex
  have hc' := List.mem_of_getElem? hk
  have hmembers : c.members.Perm c'.members := by
    apply (List.perm_ext_iff_of_nodup (g.members_nodup hc) (g'.members_nodup hc')).2
    intro u
    rw [g.mem_members_iff_mutual hc hv, g'.mem_members_iff_mutual hc' hv', h.mutual]
  refine ⟨c', hc', hmembers, ?_⟩
  rw [Bool.eq_iff_iff, g.cyclic_iff hc, g'.cyclic_iff hc', hmembers.length_eq]
  apply or_congr_right
  constructor
  · intro hsingle
    obtain ⟨u, hu, hleads⟩ := hsingle
    rw [hu] at hmembers
    exact ⟨u, List.perm_singleton.1 hmembers.symm, (h.leads u u).1 hleads⟩
  · intro hsingle
    obtain ⟨u, hu, hleads⟩ := hsingle
    rw [hu] at hmembers
    exact ⟨u, List.perm_singleton.1 hmembers, (h.leads u u).2 hleads⟩

end

end DependencyGraph
end ScriptWeave
