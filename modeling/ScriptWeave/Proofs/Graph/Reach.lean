import Mathlib.Data.List.Induction
import Mathlib.Logic.Relation
import ScriptWeave.Graph.Basic

/-!
Edges and paths of dependency graphs. An edge counts whatever its weight, so an edge that was
recorded with weight zero leads like any other; what a change does to a graph is said in these
terms.
-/

namespace ScriptWeave
namespace DependencyGraph

open Relation (ReflTransGen)

/-- An edge leads from one module to another, of whatever weight. -/
def Leads (g : DependencyGraph) (u v : ModuleId) : Prop :=
  ∃ weight, (⟨u, v, weight⟩ : Edge) ∈ g.edges

/-- A path, possibly of no edge, leads from one module to another. -/
abbrev Reaches (g : DependencyGraph) : ModuleId → ModuleId → Prop := ReflTransGen g.Leads

theorem leads_iff_mem_ends (g : DependencyGraph) (u v : ModuleId) :
    g.Leads u v ↔ (u, v) ∈ g.edges.map Edge.ends := by
  constructor
  · intro h
    obtain ⟨weight, h⟩ := h
    exact List.mem_map.2 ⟨_, h, rfl⟩
  · intro h
    obtain ⟨⟨source, target, weight⟩, he, hends⟩ := List.mem_map.1 h
    cases hends
    exact ⟨weight, he⟩

theorem hasEdge_iff (g : DependencyGraph) (u v : ModuleId) :
    g.hasEdge u v = true ↔ g.Leads u v := by
  rw [leads_iff_mem_ends]
  simp only [hasEdge, List.any_eq_true, decide_eq_true_eq, List.mem_map]

theorem Leads.source_mem {g : DependencyGraph} {u v : ModuleId} (h : g.Leads u v) :
    u ∈ g.vertices :=
  (g.ends_mem _ ((g.leads_iff_mem_ends u v).1 h)).1

theorem Leads.target_mem {g : DependencyGraph} {u v : ModuleId} (h : g.Leads u v) :
    v ∈ g.vertices :=
  (g.ends_mem _ ((g.leads_iff_mem_ends u v).1 h)).2

theorem mem_successors (g : DependencyGraph) (u v : ModuleId) :
    v ∈ g.successors u ↔ g.Leads u v := by
  simp only [successors, List.mem_filter, hasEdge_iff]
  exact ⟨fun h => h.2, fun h => ⟨h.target_mem, h⟩⟩

theorem Reaches.mem {g : DependencyGraph} {u v : ModuleId} (h : g.Reaches u v)
    (hu : u ∈ g.vertices) : v ∈ g.vertices := by
  cases h with
  | refl => exact hu
  | tail _ hlast => exact hlast.target_mem

theorem mem_vertices_addVertex (g : DependencyGraph) (id v : ModuleId) :
    v ∈ (g.addVertex id).vertices ↔ v ∈ g.vertices ∨ v = id := by
  rw [addVertex]
  split
  · next h =>
      constructor
      · exact Or.inl
      · intro h
        obtain hv | rfl := h
        · exact hv
        · exact h
  · simp

theorem leads_addVertex (g : DependencyGraph) (id u v : ModuleId) :
    (g.addVertex id).Leads u v ↔ g.Leads u v := by
  rw [addVertex, Leads]
  split <;> rfl

theorem mem_vertices_addVertices (g : DependencyGraph) (ids : List ModuleId) (v : ModuleId) :
    v ∈ (g.addVertices ids).vertices ↔ v ∈ g.vertices ∨ v ∈ ids := by
  rw [addVertices]
  induction ids generalizing g with
  | nil => simp
  | cons id ids ih =>
      rw [List.foldl_cons, ih, mem_vertices_addVertex, List.mem_cons, or_assoc]

theorem leads_addVertices (g : DependencyGraph) (ids : List ModuleId) (u v : ModuleId) :
    (g.addVertices ids).Leads u v ↔ g.Leads u v := by
  rw [addVertices]
  induction ids generalizing g with
  | nil => rfl
  | cons id ids ih => rw [List.foldl_cons, ih, leads_addVertex]

theorem not_leads_empty (u v : ModuleId) : ¬ empty.Leads u v := by
  intro h
  obtain ⟨weight, h⟩ := h
  exact absurd h List.not_mem_nil

theorem mem_vertices_ofIds (ids : List ModuleId) (v : ModuleId) :
    v ∈ (empty.addVertices ids).vertices ↔ v ∈ ids := by
  rw [mem_vertices_addVertices]
  simp [empty]

theorem not_leads_ofIds (ids : List ModuleId) (u v : ModuleId) :
    ¬ (empty.addVertices ids).Leads u v := by
  rw [leads_addVertices]
  exact not_leads_empty u v

theorem vertices_includeEdge (g : DependencyGraph) (source target : ModuleId) (weight : Int64) :
    (g.includeEdge source target weight).vertices = g.vertices := by
  rw [includeEdge, addEdge]
  split <;> rename_i h <;> split at h
  · split at h
    · cases h
      rfl
    · cases h
  · cases h
  · rfl
  · rfl

theorem leads_includeEdge (g : DependencyGraph) (source target : ModuleId) (weight : Int64)
    (u v : ModuleId) :
    (g.includeEdge source target weight).Leads u v ↔
      g.Leads u v ∨ (u, v) = (source, target) ∧ source ∈ g.vertices ∧ target ∈ g.vertices := by
  rw [includeEdge, addEdge]
  by_cases hs : source ∈ g.vertices
  · by_cases ht : target ∈ g.vertices
    · simp only [hs, ht, dite_true, and_true, leads_iff_mem_ends, Edge.mem_ends_accumulate]
      rfl
    · simp [hs, ht]
  · simp [hs]

/-- A fold of steps that each may add some edges between vertices adds what some step adds. -/
theorem leads_foldl {α : Type} {step : DependencyGraph → α → DependencyGraph}
    {added : α → ModuleId → ModuleId → Prop}
    (hvertices : ∀ g a, (step g a).vertices = g.vertices)
    (hleads : ∀ g a u v, (step g a).Leads u v ↔
      g.Leads u v ∨ added a u v ∧ u ∈ g.vertices ∧ v ∈ g.vertices)
    (as : List α) (g : DependencyGraph) (u v : ModuleId) :
    (as.foldl step g).Leads u v ↔
      g.Leads u v ∨ (∃ a ∈ as, added a u v) ∧ u ∈ g.vertices ∧ v ∈ g.vertices := by
  induction as generalizing g with
  | nil => simp
  | cons a as ih =>
      rw [List.foldl_cons, ih, hleads, hvertices]
      have hcons : (∃ b ∈ a :: as, added b u v) ↔ added a u v ∨ ∃ b ∈ as, added b u v := by
        simp only [List.mem_cons, exists_eq_or_imp]
      rw [hcons, or_and_right, or_assoc]

theorem vertices_foldl {α : Type} {step : DependencyGraph → α → DependencyGraph}
    (hvertices : ∀ g a, (step g a).vertices = g.vertices) (as : List α) (g : DependencyGraph) :
    (as.foldl step g).vertices = g.vertices := by
  induction as generalizing g with
  | nil => rfl
  | cons a as ih => rw [List.foldl_cons, ih, hvertices]

theorem exists_orderedEdge_iff (g : DependencyGraph) (u v : ModuleId) :
    (∃ e ∈ g.orderedEdges, e.source = u ∧ e.target = v) ↔ g.Leads u v := by
  simp only [orderedEdges, List.mem_flatMap, List.mem_map, mem_successors]
  constructor
  · intro h
    obtain ⟨e, ⟨source, _, target, hleads, rfl⟩, rfl, rfl⟩ := h
    exact hleads
  · intro h
    exact ⟨_, ⟨u, h.source_mem, v, h, rfl⟩, rfl, rfl⟩

/-- One step of building a graph: a vertex, or an edge between vertices that are there already. -/
inductive Change where
  | vertex (id : ModuleId)
  | edge (source target : ModuleId) (weight : Int64)

def Change.vertex? : Change → Option ModuleId
  | vertex id => some id
  | edge _ _ _ => none

def change (g : DependencyGraph) : Change → DependencyGraph
  | .vertex id => g.addVertex id
  | .edge source target weight => g.includeEdge source target weight

/-- The graph after a sequence of changes; an edge that is refused changes nothing. -/
def ofChanges (changes : List Change) : DependencyGraph := changes.foldl change empty

/-- The vertices of a sequence of changes in the order of their insertion. -/
def insertions (changes : List Change) : List ModuleId :=
  (changes.filterMap Change.vertex?).eraseDups

/-- An edge of the sequence of changes, of whatever weight, whose ends were inserted before. -/
def Recorded (changes : List Change) (u v : ModuleId) : Prop :=
  ∃ before weight after, changes = before ++ .edge u v weight :: after ∧
    u ∈ insertions before ∧ v ∈ insertions before

theorem vertices_addVertex (g : DependencyGraph) (id : ModuleId) :
    (g.addVertex id).vertices = if id ∈ g.vertices then g.vertices else g.vertices ++ [id] := by
  rw [addVertex]
  split <;> rfl

theorem ofChanges_append (changes : List Change) (c : Change) :
    ofChanges (changes ++ [c]) = (ofChanges changes).change c := by
  simp [ofChanges]

theorem eraseDups_append_singleton (ids : List ModuleId) (id : ModuleId) :
    (ids ++ [id]).eraseDups = if id ∈ ids then ids.eraseDups else ids.eraseDups ++ [id] := by
  rw [List.eraseDups_append]
  by_cases h : id ∈ ids
  · have hnone : List.removeAll [id] ids = [] := by
      simp only [List.removeAll, List.filter_cons, List.elem_eq_mem, h]
      rfl
    simp [hnone, h]
  · have hall : List.removeAll [id] ids = [id] := by
      simp only [List.removeAll, List.filter_cons, List.elem_eq_mem, h]
      rfl
    simp [hall, h, List.eraseDups_cons]

theorem vertices_ofChanges (changes : List Change) :
    (ofChanges changes).vertices = insertions changes := by
  induction changes using List.reverseRecOn with
  | nil => rfl
  | append_singleton changes c ih =>
      rw [ofChanges_append, insertions, List.filterMap_append]
      cases c with
      | vertex id =>
          have hsingle : [Change.vertex id].filterMap Change.vertex? = [id] := rfl
          rw [change, vertices_addVertex, ih, hsingle, eraseDups_append_singleton, insertions]
          simp only [List.mem_eraseDups]
      | edge source target weight =>
          have hnone : [Change.edge source target weight].filterMap Change.vertex? = [] := rfl
          rw [change, vertices_includeEdge, ih, hnone, List.append_nil, insertions]

theorem vertices_ofIds (ids : List ModuleId) :
    (empty.addVertices ids).vertices = ids.eraseDups := by
  have hchanges : empty.addVertices ids = ofChanges (ids.map .vertex) := by
    rw [ofChanges, List.foldl_map]
    rfl
  have hinserted : (ids.map Change.vertex).filterMap Change.vertex? = ids := by
    rw [List.filterMap_map]
    exact List.filterMap_some
  rw [hchanges, vertices_ofChanges, insertions, hinserted]

theorem recorded_append (changes : List Change) (c : Change) (u v : ModuleId) :
    Recorded (changes ++ [c]) u v ↔ Recorded changes u v ∨
      (∃ weight, c = .edge u v weight) ∧ u ∈ insertions changes ∧ v ∈ insertions changes := by
  constructor
  · intro h
    obtain ⟨before, weight, after, heq, hu, hv⟩ := h
    obtain rfl | ⟨init, last, rfl⟩ := List.eq_nil_or_concat after
    · obtain ⟨rfl, hlast⟩ := List.append_inj' heq rfl
      exact Or.inr ⟨⟨weight, List.head_eq_of_cons_eq hlast⟩, hu, hv⟩
    · have heq' : changes ++ [c] = (before ++ .edge u v weight :: init) ++ [last] := by
        simpa using heq
      exact Or.inl ⟨before, weight, init, (List.append_inj' heq' rfl).1, hu, hv⟩
  · intro h
    obtain ⟨before, weight, after, rfl, hu, hv⟩ | ⟨⟨weight, rfl⟩, hu, hv⟩ := h
    · exact ⟨before, weight, after ++ [c], by simp, hu, hv⟩
    · exact ⟨changes, weight, [], rfl, hu, hv⟩

/-- The edges of a graph are those that were recorded while it was built. -/
theorem leads_ofChanges (changes : List Change) (u v : ModuleId) :
    (ofChanges changes).Leads u v ↔ Recorded changes u v := by
  induction changes using List.reverseRecOn with
  | nil =>
      constructor
      · exact fun h => absurd h (not_leads_empty u v)
      · intro h
        obtain ⟨before, weight, after, heq, _⟩ := h
        exact absurd heq.symm (by simp)
  | append_singleton changes c ih =>
      rw [ofChanges_append, recorded_append, ← ih]
      cases c with
      | vertex id => simp [change, leads_addVertex]
      | edge source target weight =>
          rw [change, leads_includeEdge, vertices_ofChanges]
          simp only [Change.edge.injEq, Prod.mk.injEq]
          constructor
          · intro h
            obtain h | ⟨⟨rfl, rfl⟩, hs, ht⟩ := h
            · exact Or.inl h
            · exact Or.inr ⟨⟨weight, rfl, rfl, rfl⟩, hs, ht⟩
          · intro h
            obtain h | ⟨⟨_, rfl, rfl, _⟩, hs, ht⟩ := h
            · exact Or.inl h
            · exact Or.inr ⟨⟨rfl, rfl⟩, hs, ht⟩

end DependencyGraph
end ScriptWeave
