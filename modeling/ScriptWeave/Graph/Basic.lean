import ScriptWeave.Module.Id

/-!
Dependency graphs over modules. Vertices keep the order of insertion, which also orders successors;
repeated edges between two vertices are one edge whose weight is the sum. Weights are machine words.
-/

namespace ScriptWeave

/-- An edge from a module to one it depends on. -/
structure Edge where
  source : ModuleId
  target : ModuleId
  weight : Int64
deriving DecidableEq, Repr

/-- The end points of an edge. -/
def Edge.ends (e : Edge) : ModuleId × ModuleId := (e.source, e.target)

/-- Adds a weight to the edge with the given end points, or appends that edge. -/
def Edge.accumulate (edges : List Edge) (e : Edge) : List Edge :=
  match edges with
  | [] => [e]
  | d :: ds =>
      if d.ends = e.ends then { d with weight := d.weight + e.weight } :: ds
      else d :: accumulate ds e

theorem Edge.mem_ends_accumulate (edges : List Edge) (e : Edge) (p : ModuleId × ModuleId) :
    p ∈ (accumulate edges e).map ends ↔ p ∈ edges.map ends ∨ p = e.ends := by
  induction edges with
  | nil => simp [accumulate]
  | cons d ds ih =>
      by_cases h : d.ends = e.ends
      · have hends : ({ d with weight := d.weight + e.weight } : Edge).ends = e.ends := h
        simp only [accumulate, h, if_true, List.map_cons, List.mem_cons, hends]
        constructor
        · rintro (rfl | hp)
          · exact Or.inr rfl
          · exact Or.inl (Or.inr hp)
        · rintro ((rfl | hp) | rfl)
          · exact Or.inl rfl
          · exact Or.inr hp
          · exact Or.inl rfl
      · simp only [accumulate, h, if_false, List.map_cons, List.mem_cons, ih, or_assoc]

theorem Edge.nodup_ends_accumulate (edges : List Edge) (e : Edge)
    (h : (edges.map ends).Nodup) : ((accumulate edges e).map ends).Nodup := by
  induction edges with
  | nil => simp [accumulate]
  | cons d ds ih =>
      rw [List.map_cons, List.nodup_cons] at h
      by_cases hd : d.ends = e.ends
      · have hends : ({ d with weight := d.weight + e.weight } : Edge).ends = d.ends := rfl
        simp only [accumulate, hd, if_true, List.map_cons, hends]
        rw [← hd]
        exact List.nodup_cons.2 h
      · simp only [accumulate, hd, if_false, List.map_cons]
        refine List.nodup_cons.2 ⟨?_, ih h.2⟩
        rw [mem_ends_accumulate]
        rintro (hp | hp)
        · exact h.1 hp
        · exact hd hp

/-- A graph: no vertex occurs twice, no two edges share both ends, and edges join vertices. -/
structure DependencyGraph where
  vertices : List ModuleId
  edges : List Edge
  nodup_vertices : vertices.Nodup
  nodup_ends : (edges.map Edge.ends).Nodup
  ends_mem : ∀ p ∈ edges.map Edge.ends, p.1 ∈ vertices ∧ p.2 ∈ vertices

namespace DependencyGraph

def empty : DependencyGraph := ⟨[], [], by simp, by simp, by simp⟩

def hasVertex (g : DependencyGraph) (id : ModuleId) : Bool := g.vertices.contains id

/-- Appends a vertex unless it is there already. -/
def addVertex (g : DependencyGraph) (id : ModuleId) : DependencyGraph :=
  if h : id ∈ g.vertices then g
  else
    { vertices := g.vertices ++ [id]
      edges := g.edges
      nodup_vertices := by
        rw [List.nodup_append]
        exact ⟨g.nodup_vertices, by simp, by
          intro a ha b hb
          rw [List.mem_singleton] at hb
          rintro rfl
          exact h (hb ▸ ha)⟩
      nodup_ends := g.nodup_ends
      ends_mem := fun p hp =>
        ⟨List.mem_append_left _ (g.ends_mem p hp).1, List.mem_append_left _ (g.ends_mem p hp).2⟩ }

def addVertices (g : DependencyGraph) (ids : List ModuleId) : DependencyGraph :=
  ids.foldl addVertex g

/-- The end of a new edge that is no vertex. -/
structure UnknownModule where
  id : ModuleId

def UnknownModule.message (e : UnknownModule) : String := "unknown module " ++ e.id.path

/-- Records that a module depends on another, `weight` times more than before. -/
def addEdge (g : DependencyGraph) (source target : ModuleId) (weight : Int64) :
    Except UnknownModule DependencyGraph :=
  if hs : source ∈ g.vertices then
    if ht : target ∈ g.vertices then
      .ok
        { vertices := g.vertices
          edges := Edge.accumulate g.edges ⟨source, target, weight⟩
          nodup_vertices := g.nodup_vertices
          nodup_ends := Edge.nodup_ends_accumulate _ _ g.nodup_ends
          ends_mem := by
            intro p hp
            rcases (Edge.mem_ends_accumulate _ _ p).1 hp with h | rfl
            · exact g.ends_mem p h
            · exact ⟨hs, ht⟩ }
    else .error ⟨target⟩
  else .error ⟨source⟩

/-- Adds an edge when both ends are vertices, and leaves the graph alone otherwise. -/
def includeEdge (g : DependencyGraph) (source target : ModuleId) (weight : Int64) :
    DependencyGraph :=
  match g.addEdge source target weight with
  | .ok g' => g'
  | .error _ => g

def edge? (g : DependencyGraph) (source target : ModuleId) : Option Edge :=
  g.edges.find? fun e => e.ends = (source, target)

/-- Whether an edge leads from one vertex to another, of whatever weight. -/
def hasEdge (g : DependencyGraph) (source target : ModuleId) : Bool :=
  g.edges.any fun e => e.ends = (source, target)

/-- The weight of an edge, zero when there is none. -/
def weight (g : DependencyGraph) (source target : ModuleId) : Int64 :=
  ((g.edge? source target).map (·.weight)).getD 0

/-- The modules that a module depends on, in vertex order. -/
def successors (g : DependencyGraph) (id : ModuleId) : List ModuleId :=
  g.vertices.filter (g.hasEdge id)

def hasSelfEdge (g : DependencyGraph) (id : ModuleId) : Bool := g.hasEdge id id

/-- The edges by source in vertex order, then by target in vertex order. -/
def orderedEdges (g : DependencyGraph) : List Edge :=
  g.vertices.flatMap fun source =>
    (g.successors source).map fun target => ⟨source, target, g.weight source target⟩

end DependencyGraph
end ScriptWeave
