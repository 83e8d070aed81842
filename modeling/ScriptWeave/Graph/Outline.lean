import ScriptWeave.Graph.Components
import ScriptWeave.Module.Output
import ScriptWeave.Module.SymbolTable
import ScriptWeave.Text.Json

/-!
Graphs, symbol tables and output sets as JSON values, for tools that look at a conversion.
-/

namespace ScriptWeave

open Text (Json)

namespace DependencyGraph

def outline (g : DependencyGraph) : Json :=
  .object [("vertices", .ofTexts (g.vertices.map (·.path))), ("len", .ofInt g.vertices.length),
    ("edge_count", .ofInt g.edges.length),
    ("edges", .array (g.orderedEdges.map fun e =>
      .array [.string e.source.path, .string e.target.path, .ofInt e.weight.toInt]))]

end DependencyGraph

namespace Component

def outline (c : Component) : Json :=
  .object [("index", .ofInt c.index), ("members", .ofTexts (c.members.map (·.path))),
    ("cyclic", .bool c.cyclic), ("size", .ofInt c.members.length)]

end Component

namespace SymbolTable

def outline (t : SymbolTable) : Json :=
  .object [("packages", .array (t.packages.map fun p => .object [("package", .string p),
      ("symbols", .ofTexts ((t.symbols p).map fun s => s.name ++ "@" ++ s.exportPath.path))])),
    ("len", .ofInt t.size)]

end SymbolTable

namespace EmittedModule

def outline {Tree : Type} (m : EmittedModule Tree) : Json :=
  .object <| [("id", .string m.id.path), ("kind", .string m.kind.name)] ++
    match m with
    | .direct _ _ => []
    | .merged mm => [("name", .string mm.name), ("component", .ofInt mm.component),
        ("members", .array (mm.members.map fun x => .ofTexts [x.id.path, x.key]))]
    | .redirect _ target key => [("target", .string target.path), ("key", .string key)]

end EmittedModule

namespace OutputSet

def outline {Tree : Type} (s : OutputSet Tree) : Json := .array (s.modules.map (·.outline))

/-- How many modules of each kind there are; kinds without modules are left out. -/
def countsOutline {Tree : Type} (s : OutputSet Tree) : Json :=
  .object ([ModuleKind.direct, .merged, .redirect].filterMap fun kind =>
    if s.count kind = 0 then none else some (kind.name, .ofInt (s.count kind)))

end OutputSet
end ScriptWeave
