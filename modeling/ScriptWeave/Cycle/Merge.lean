import ScriptWeave.Fault.Kinds
import ScriptWeave.Graph.Components
import ScriptWeave.Module.Output

/-!
Removing dependency cycles. Every cyclic component becomes one merged module, and each of its
members a redirect to the member's entry in the merged module; all other modules stay.
-/

namespace ScriptWeave
namespace Cycle

variable {Tree : Type}

/-- The id of the merged module of a component. -/
def mergedId (component : Int) : ModuleId := ⟨s!"merged_{component}{ModuleId.suffix}"⟩

/-- Why a component cannot be merged. -/
inductive Obstacle where
  | idTaken (id : ModuleId)
  | sharedName (first second : ModuleId) (name : String)
  | notEmitted (member : ModuleId)
  | notDirect (member : ModuleId) (kind : ModuleKind)

def Obstacle.message : Obstacle → String
  | idTaken id => s!"merged module id {id.path} collides with an existing module"
  | sharedName first second name =>
      s!"{first.path} and {second.path} share the logical name " ++ Text.quoted name
  | notEmitted member => s!"member {member.path} has no emitted module"
  | notDirect member kind => s!"member {member.path} is already a {kind.name} module"

/-- Adds one module to the members that were gathered before. -/
def gather (base : OutputSet Tree) (members : List (MergedMember Tree)) (id : ModuleId) :
    Except Obstacle (List (MergedMember Tree)) :=
  let name := id.logicalName
  match members.find? (·.key = name) with
  | some earlier => .error (.sharedName earlier.id id name)
  | none =>
      match base.get? id with
      | none => .error (.notEmitted id)
      | some (.direct _ tree) => .ok (members ++ [⟨id, name, tree⟩])
      | some emitted => .error (.notDirect id emitted.kind)

/-- The merged module of a component. -/
def merge (base : OutputSet Tree) (component : Component) :
    Except Obstacle (MergedModule Tree) :=
  let id := mergedId component.index
  if base.has id then .error (.idTaken id)
  else do
    let members ← component.members.foldlM (gather base) []
    return ⟨id, component.index, members⟩

/-- The issue of a component that cannot be merged. -/
def issueOf (component : Component) (obstacle : Obstacle) : Issue :=
  .cycleMerge component.index (component.members.map (·.logicalName)) obstacle.message

/-- A merged module and the redirects to its members. -/
def replacements (merged : MergedModule Tree) : List (EmittedModule Tree) :=
  .merged merged :: merged.members.map fun member => .redirect member.id merged.id member.key

/-- The outcome of merging every cyclic component. -/
structure Resolution (Tree : Type) where
  output : OutputSet Tree
  merged : List (MergedModule Tree)

/-- Merges the components in turn; the issues are collected. -/
def mergeAll (base : OutputSet Tree) :
    List Component → List (MergedModule Tree) × List Issue
  | [] => ([], [])
  | component :: rest =>
      let (modules, issues) := mergeAll base rest
      match merge base component with
      | .ok module => (module :: modules, issues)
      | .error obstacle => (modules, issueOf component obstacle :: issues)

/-- Replaces the cyclic components of an output set by merged modules and redirects. -/
def resolve (base : OutputSet Tree) (components : List Component) :
    Except Fault (Resolution Tree) :=
  let (modules, issues) := mergeAll base (Component.cyclicOnly components)
  if issues.isEmpty then
    .ok ⟨base.putAll (modules.flatMap replacements), modules⟩
  else .error (.several issues)

/-- Where a redirect leads. -/
def owner? (out : OutputSet Tree) (id : ModuleId) : Option ModuleId :=
  match out.get? id with
  | some (.redirect _ target _) => some target
  | _ => none

/-- The edges of the emitted modules that stem from one edge between source modules. An edge that
leaves a merged member leaves the merged module, and it vanishes inside of it. -/
def carryEdge (out : OutputSet Tree) (g : DependencyGraph) (e : Edge) : DependencyGraph :=
  match owner? out e.source with
  | none => g.includeEdge e.source e.target e.weight
  | some owner =>
      if (owner? out e.target).getD ⟨""⟩ = owner then g
      else g.includeEdge owner e.target e.weight

/-- The edge of a redirect to its target. -/
def redirectEdge (g : DependencyGraph) (m : EmittedModule Tree) : DependencyGraph :=
  match m with
  | .redirect id target _ => g.includeEdge id target 1
  | _ => g

/-- The dependency graph of the emitted modules. -/
def resolvedGraph (base : DependencyGraph) (out : OutputSet Tree) : DependencyGraph :=
  let vertices := DependencyGraph.empty.addVertices out.ids
  out.modules.foldl redirectEdge (base.orderedEdges.foldl (carryEdge out) vertices)

end Cycle
end ScriptWeave
