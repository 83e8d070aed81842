import ScriptWeave.Build.Manifest
import ScriptWeave.Text.Json

/-!
The dependency graph of a build for people and for other programs.
-/

namespace ScriptWeave

structure GraphModule where
  id : String
  /-- The modules it depends on with the number of references. -/
  dependencies : List (String × Int64)

structure GraphComponent where
  index : Int
  members : List String
  cyclic : Bool

structure GraphReport where
  runId : String
  modules : List GraphModule
  components : List GraphComponent

namespace GraphComponent

/-- The module that replaces a cyclic component. -/
def merged? (c : GraphComponent) : Option String :=
  if c.cyclic then some (Cycle.mergedId c.index).path else none

end GraphComponent

namespace GraphReport

open Text (Json)

def ofBuild (b : Build) : GraphReport :=
  let g := b.result.graph
  { runId := b.runId
    modules := g.vertices.map fun id =>
      ⟨id.path, (g.successors id).map fun next => (next.path, g.weight id next)⟩
    components := b.result.components.map fun c => ⟨c.index, c.members.map (·.path), c.cyclic⟩ }

def moduleJson (m : GraphModule) : Json :=
  .object [("id", .string m.id),
    ("dependencies", .array (m.dependencies.map fun (id, weight) =>
      .object [("id", .string id), ("weight", .ofInt weight.toInt)]))]

def componentJson (c : GraphComponent) : Json :=
  .object <| [("index", .ofInt c.index), ("members", .ofTexts c.members),
      ("cyclic", .bool c.cyclic)]
    ++ (match c.merged? with
      | some id => [("merged", .string id)]
      | none => [])

def toJson (r : GraphReport) : Json :=
  .object [("run_id", .string r.runId), ("modules", .array (r.modules.map moduleJson)),
    ("components", .array (r.components.map componentJson))]

def moduleText (m : GraphModule) : String :=
  s!"  {m.id}\n" ++
    String.join (m.dependencies.map fun (id, weight) => s!"    -> {id} ({weight.toInt})\n")

/-- The line of a cyclic component. -/
def cycleText? (c : GraphComponent) : Option String :=
  c.merged?.map fun id => "  " ++ id ++ ": " ++ ", ".intercalate c.members ++ "\n"

/-- The report as an indented listing. -/
def text (r : GraphReport) : String :=
  let cycles := r.components.filterMap cycleText?
  "Modules:\n" ++ String.join (r.modules.map moduleText) ++ "\nCycles:\n" ++
    if cycles.isEmpty then "  none\n" else String.join cycles

end GraphReport
end ScriptWeave
