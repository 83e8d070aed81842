import ScriptWeave.Graph.Basic

/-!
Strongly connected components by Tarjan's search. A module gets its index when the search meets it
and stays on a stack until its component is complete. The least index of a stacked module that is
known to be reached from it is its low index. A module whose low index is its own at the end of its
search completes a component: the stack down to it. Components are completed after everything they
depend on.
-/

namespace ScriptWeave

/-- A component: its number, its members in vertex order, and whether a cycle runs through it. -/
structure Component where
  index : Int
  members : List ModuleId
  cyclic : Bool
deriving DecidableEq, Repr

namespace Tarjan

/-- A table of modules with a new entry for one of them. -/
def assign {α : Type} (table : ModuleId → α) (v : ModuleId) (entry : α) : ModuleId → α :=
  fun u => if u = v then entry else table u

/-- The state of the search: the modules by what is known of them, the stack with its top first, the
next index, and the complete components in the order of completion, each from the top of the stack
down. -/
structure State where
  index : ModuleId → Option Nat
  low : ModuleId → Nat
  onStack : ModuleId → Bool
  stack : List ModuleId
  next : Nat
  groups : List (List ModuleId)

/-- No module is met yet. -/
def State.start : State := ⟨fun _ => none, fun _ => 0, fun _ => false, [], 0, []⟩

/-- Meets a module: it gets the next index and goes on the stack. -/
def State.enter (s : State) (v : ModuleId) : State :=
  { s with
    index := assign s.index v (some s.next)
    low := assign s.low v s.next
    onStack := assign s.onStack v true
    stack := v :: s.stack
    next := s.next + 1 }

/-- Lowers the low index of a module to the given index when that is less. -/
def State.lower (s : State) (v : ModuleId) (i : Nat) : State :=
  { s with low := assign s.low v (min (s.low v) i) }

/-- The modules of a stack down to the given one, and those below it. -/
def popTo (v : ModuleId) : List ModuleId → List ModuleId × List ModuleId
  | [] => ([], [])
  | w :: ws =>
      if w = v then ([w], ws)
      else
        let (group, rest) := popTo v ws
        (w :: group, rest)

/-- Makes a group from the top of the stack a complete component; the rest of the stack stays. -/
def State.complete (s : State) (group rest : List ModuleId) : State :=
  { s with
    onStack := group.foldl (fun onStack w => assign onStack w false) s.onStack
    stack := rest
    groups := s.groups ++ [group] }

/-- Completes a component when the low index of a module is its own. -/
def State.leave (s : State) (v : ModuleId) : State :=
  if s.index v = some (s.low v) then
    let (group, rest) := popTo v s.stack
    s.complete group rest
  else s

/-- Follows an edge from one module to another: a module that is new is searched first. -/
def examine (search : State → ModuleId → State) (v : ModuleId) (s : State) (w : ModuleId) : State :=
  match s.index w with
  | none =>
      let t := search s w
      t.lower v (t.low w)
  | some i => if s.onStack w then s.lower v i else s

/-- Searches from a module that is not met yet. Every nested search meets a new one, so the number
of modules is enough fuel. -/
def connect (successors : ModuleId → List ModuleId) : Nat → State → ModuleId → State
  | 0, s, _ => s
  | fuel + 1, s, v =>
      ((successors v).foldl (examine (connect successors fuel) v) (s.enter v)).leave v

/-- Searches from a module unless it was met. -/
def visit (successors : ModuleId → List ModuleId) (fuel : Nat) (s : State) (v : ModuleId) : State :=
  if s.index v = none then connect successors fuel s v else s

end Tarjan

namespace DependencyGraph

/-- The members of the components in the order in which the search completes them. -/
def groups (g : DependencyGraph) : List (List ModuleId) :=
  (g.vertices.foldl (Tarjan.visit g.successors g.vertices.length) .start).groups

/-- The component of a group of vertices. -/
def componentOf (g : DependencyGraph) (group : List ModuleId) (index : Nat) : Component :=
  let members := g.vertices.filter (group.contains ·)
  { index := index
    members := members
    cyclic := members.length > 1 || members.any g.hasSelfEdge }

/-- The strongly connected components, each after the components it depends on. -/
def components (g : DependencyGraph) : List Component :=
  g.groups.zipIdx.map fun (group, i) => g.componentOf group i

/-- All vertices, each after the vertices it depends on unless they share a component. -/
def loadOrder (g : DependencyGraph) : List ModuleId :=
  g.components.flatMap (·.members)

end DependencyGraph

namespace Component

/-- The components through which a cycle runs. -/
def cyclicOnly (components : List Component) : List Component := components.filter (·.cyclic)

end Component
end ScriptWeave
