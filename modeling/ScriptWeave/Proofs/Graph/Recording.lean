import ScriptWeave.Proofs.Graph.Agreement

/-!
Graphs from recorded edges. Recording succeeds as long as every end is a vertex. The edges of the
graph are then the ends that were recorded, each weighing the sum of all that was recorded for it.
-/

namespace ScriptWeave

namespace Edge

/-- The weights that were recorded for the given ends, in order. -/
def portions (edges : List Edge) (ends : ModuleId × ModuleId) : List Int64 :=
  (edges.filter (·.ends = ends)).map (·.weight)

theorem portions_cons (e : Edge) (edges : List Edge) (p : ModuleId × ModuleId) :
    portions (e :: edges) p =
      if e.ends = p then e.weight :: portions edges p else portions edges p := by
  rw [portions, List.filter_cons]
  by_cases h : e.ends = p
  · simp [h, portions]
  · simp [h, portions]

theorem portions_singleton (e : Edge) (p : ModuleId × ModuleId) :
    portions [e] p = if e.ends = p then [e.weight] else [] :=
  portions_cons e [] p

theorem portions_append (edges edges' : List Edge) (p : ModuleId × ModuleId) :
    portions (edges ++ edges') p = portions edges p ++ portions edges' p := by
  rw [portions, List.filter_append, List.map_append]
  rfl

theorem portions_flatMap {α : Type} (as : List α) (f : α → List Edge) (p : ModuleId × ModuleId) :
    portions (as.flatMap f) p = as.flatMap fun a => portions (f a) p := by
  rw [portions, List.filter_flatMap, List.map_flatMap]
  rfl

section

variable {α κ : Type} {key : α → κ} {keyOf : ModuleId × ModuleId → κ} {f : α → List Edge}
  (hf : ∀ a, ∀ e ∈ f a, keyOf e.ends = key a)
include hf

/-- Where the ends of an edge tell the key of the item it comes from, items of other keys have no
portion. -/
theorem portions_eq_nil_of_key {a : α} {p : ModuleId × ModuleId} (h : key a ≠ keyOf p) :
    portions (f a) p = [] := by
  rw [portions, List.map_eq_nil_iff, List.filter_eq_nil_iff]
  intro e he hends
  rw [← of_decide_eq_true hends] at h
  exact h (hf a e he).symm

theorem portions_flatMap_of_not_mem {as : List α} {p : ModuleId × ModuleId}
    (h : keyOf p ∉ as.map key) : portions (as.flatMap f) p = [] := by
  rw [portions_flatMap, List.flatMap_eq_nil_iff]
  intro a ha
  apply portions_eq_nil_of_key hf
  intro hkey
  exact h (List.mem_map.2 ⟨a, ha, hkey⟩)

/-- Where moreover no key occurs twice, the item of the right key has all portions. -/
theorem portions_flatMap_of_mem {as : List α} (hnodup : (as.map key).Nodup) {a : α} (ha : a ∈ as)
    {p : ModuleId × ModuleId} (hp : keyOf p = key a) :
    portions (as.flatMap f) p = portions (f a) p := by
  induction as with
  | nil => cases ha
  | cons b as ih =>
      obtain ⟨hfresh, hnodup⟩ := List.nodup_cons.1 hnodup
      rw [List.flatMap_cons, portions_append]
      obtain rfl | ha := List.mem_cons.1 ha
      · rw [portions_flatMap_of_not_mem hf (hp ▸ hfresh), List.append_nil]
      · have hne : key b ≠ keyOf p := by
          intro hkey
          exact hfresh (hkey.trans hp ▸ List.mem_map.2 ⟨a, ha, rfl⟩)
        rw [portions_eq_nil_of_key hf hne, ih hnodup ha, List.nil_append]

end

theorem portions_ne_nil_iff (edges : List Edge) (p : ModuleId × ModuleId) :
    portions edges p ≠ [] ↔ ∃ e ∈ edges, e.ends = p := by
  simp [portions]

end Edge

namespace DependencyGraph

/-- Records edges one after another; the first end that is no vertex ends the recording. -/
def record (g : DependencyGraph) (edges : List Edge) : Except UnknownModule DependencyGraph :=
  edges.foldlM (fun g e => g.addEdge e.source e.target e.weight) g

theorem addEdge_eq_ok {g : DependencyGraph} {source target : ModuleId} (hs : source ∈ g.vertices)
    (ht : target ∈ g.vertices) (weight : Int64) :
    g.addEdge source target weight = .ok (g.includeEdge source target weight) := by
  simp only [includeEdge, addEdge, hs, ht, dite_true]

theorem includeAll_append (g : DependencyGraph) (edges edges' : List Edge) :
    g.includeAll (edges ++ edges') = (g.includeAll edges).includeAll edges' :=
  List.foldl_append

/-- A pass over items that records at most one edge for each of them. -/
theorem foldl_eq_includeAll {α : Type} {step : DependencyGraph → α → DependencyGraph}
    {f : α → Option Edge} (hstep : ∀ g a, step g a = g.includeAll (f a).toList)
    (g : DependencyGraph) (as : List α) : as.foldl step g = g.includeAll (as.filterMap f) := by
  induction as generalizing g with
  | nil => rfl
  | cons a as ih =>
      rw [List.foldl_cons, ih, hstep, ← includeAll_append, List.filterMap_cons]
      cases f a with
      | none => rfl
      | some e => rfl

/-- All ends of the edges are vertices of the graph. -/
def Joins (g : DependencyGraph) (edges : List Edge) : Prop :=
  ∀ e ∈ edges, e.source ∈ g.vertices ∧ e.target ∈ g.vertices

section

variable {g : DependencyGraph} {e : Edge} {edges : List Edge}

theorem Joins.tail (h : g.Joins (e :: edges)) :
    (g.includeEdge e.source e.target e.weight).Joins edges := by
  intro d hd
  rw [vertices_includeEdge]
  exact h d (List.mem_cons_of_mem _ hd)

theorem record_eq_ok (h : g.Joins edges) : g.record edges = .ok (g.includeAll edges) := by
  rw [record, includeAll]
  induction edges generalizing g with
  | nil => rfl
  | cons e edges ih =>
      obtain ⟨hs, ht⟩ := h e List.mem_cons_self
      rw [List.foldlM_cons, List.foldl_cons, addEdge_eq_ok hs ht]
      exact ih h.tail

theorem weight_includeAll_of_joins (h : g.Joins edges) (u v : ModuleId) :
    (g.includeAll edges).weight u v = g.weight u v + (Edge.portions edges (u, v)).sum := by
  rw [includeAll]
  induction edges generalizing g with
  | nil => exact (Int64.add_zero _).symm
  | cons e edges ih =>
      obtain ⟨hs, ht⟩ := h e List.mem_cons_self
      rw [List.foldl_cons, ih h.tail, weight_includeEdge, Edge.portions_cons]
      by_cases hends : e.ends = (u, v)
      · rw [if_pos hends]
        cases hends
        rw [if_pos ⟨rfl, hs, ht⟩, List.sum_cons, Int64.add_assoc]
      · rw [if_neg fun hknown => hends hknown.1, if_neg hends, Int64.add_zero]

end

theorem weight_ofIds (ids : List ModuleId) (u v : ModuleId) :
    (empty.addVertices ids).weight u v = 0 := by
  rw [weight, edge?, edges_addVertices]
  rfl

section

variable {ids : List ModuleId} {edges : List Edge} (h : (empty.addVertices ids).Joins edges)
include h

theorem weight_recorded (u v : ModuleId) :
    ((empty.addVertices ids).includeAll edges).weight u v = (Edge.portions edges (u, v)).sum := by
  rw [weight_includeAll_of_joins h, weight_ofIds, Int64.zero_add]

theorem leads_recorded (u v : ModuleId) :
    ((empty.addVertices ids).includeAll edges).Leads u v ↔ Edge.portions edges (u, v) ≠ [] := by
  rw [leads_includeAll, or_iff_right (not_leads_ofIds ids u v),
    Edge.portions_ne_nil_iff]
  constructor
  · exact And.left
  · intro hedge
    obtain ⟨e, he, hends⟩ := hedge
    obtain ⟨hs, ht⟩ := h e he
    cases hends
    exact ⟨⟨e, he, rfl⟩, hs, ht⟩

/-- The edges of a graph are what was recorded for their ends, added up. -/
theorem mem_edges_recorded (e : Edge) :
    e ∈ ((empty.addVertices ids).includeAll edges).edges ↔
      Edge.portions edges e.ends ≠ [] ∧ e.weight = (Edge.portions edges e.ends).sum := by
  rw [mem_edges_iff, leads_recorded h, weight_recorded h, eq_comm (a := e.weight)]
  rfl

end

end DependencyGraph
end ScriptWeave
