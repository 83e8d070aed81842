import ScriptWeave.Cycle.Merge
import ScriptWeave.Pipeline.Frontend
import ScriptWeave.Pipeline.Run

/-!
A whole conversion. All files are parsed, then all exports are registered in the order of the files,
then all references are resolved, then the dependency graph is built and its cycles are merged. A
phase is attempted for every file before its faults end the run.
-/

namespace ScriptWeave
namespace Pipeline

/-- What happens when two exports share a package and a name. -/
inductive ConflictPolicy where
  | lastWins
  | fail
deriving DecidableEq, Repr

structure Options where
  policy : ConflictPolicy
  runId : String
  /-- The order in which the jobs of a phase are performed, for every number of jobs. -/
  order : String → Nat → List Nat
  /-- Every job of a phase is performed, and none twice. -/
  order_perm : ∀ phase n, (order phase n).Perm (List.range n)

/-- The id of every run. -/
def fixedRunId : String := "00000000-0000-4000-8000-000000000000"

/-- Jobs in the order of the files. -/
def Options.sequential (policy : ConflictPolicy) : Options :=
  ⟨policy, fixedRunId, fun _ => List.range, fun _ _ => .refl _⟩

/-- What a conversion produces. -/
structure Result (Tree : Type) where
  runId : String
  table : SymbolTable
  /-- The graph over the modules before cycles are merged. -/
  graph : DependencyGraph
  components : List Component
  merged : List (MergedModule Tree)
  output : OutputSet Tree

variable {α Parsed Tree : Type}

/-- The values of a phase without faults. Faults are reported in the order of the files and end the
run; so does a reporter that signals one, in the phases that ask it. -/
def collect (signals : Signals) (asks : Bool) (phase label : String) (code : FaultCode)
    (results : List (Except Fault α)) : Run (List α) := do
  let faults := results.filterMap fun
    | .ok _ => none
    | .error fault => some fault
  let issues := faults.flatMap (·.toIssues code)
  if faults.isEmpty then
    if asks then
      if ← askReporter signals then
        throw (.phase label
          [.ofMessage code (phase ++ " phase stopped: reporter signalled an error")])
    return results.filterMap Except.toOption
  else
    issues.forM fun issue => tell (.fault phase (.issue issue))
    throw (.phase label issues)

def parseFiles (frontend : Frontend Parsed Tree) (signals : Signals) (options : Options)
    (files : List SourceFile) : Run (List Parsed) := do
  let jobs := files.map fun file =>
    { announcement := some ⟨"parse", "parsing " ++ file.path, .debug,
        some [("filename", .text file.path)]⟩
      result := frontend.parse file : Job Parsed }
  collect signals true "parse" "Parse error" .parse (← each signals options.order "parse" jobs)

/-- Registers one export, as the given module makes it; an export that replaces another one is a
conflict. -/
def registerExport (policy : ConflictPolicy) (id : ModuleId)
    (state : SymbolTable × List Issue) (e : Export) : Run (SymbolTable × List Issue) := do
  let (table, conflicts) := state
  match e.definedBy id with
  | .package name => return (table.declare name, conflicts)
  | .symbol package symbol =>
      let table' := table.insert package symbol
      match table.lookup? package symbol.name with
      | none => return (table', conflicts)
      | some previous =>
          let conflict := Issue.exportConflict package symbol.name previous.exportPath.path id.path
          match policy with
          | .fail =>
              tell (.fault "symbols" (.issue conflict))
              return (table', conflicts ++ [conflict])
          | .lastWins =>
              step "symbols" .warn conflict.text (some [("package", .text package),
                ("name", .text symbol.name), ("kept", .text id.path)])
              return (table', conflicts)

/-- Registers the exports of a file. -/
def registerFile (policy : ConflictPolicy) (state : SymbolTable × List Issue)
    (file : ModuleId × List Export) : Run (SymbolTable × List Issue) :=
  file.2.foldlM (registerExport policy file.1) state

def buildTable (frontend : Frontend Parsed Tree) (signals : Signals) (options : Options)
    (files : List SourceFile) (parsed : List Parsed) : Run SymbolTable := do
  let ids := files.map fun file => ModuleId.ofSource file.path
  let jobs := parsed.map fun tree => (⟨none, frontend.exports tree⟩ : Job _)
  let exports ← collect signals false "symbols" "Export error" .parse
    (← each signals options.order "symbols" jobs)
  let (table, conflicts) ← (ids.zip exports).foldlM (registerFile options.policy) (.empty, [])
  if conflicts.isEmpty then
    step "symbols" .info
      s!"registered {table.size} symbols in {table.packages.length} packages" none
    return table
  else throw (.phase "Export conflict" conflicts)

def resolveFiles (frontend : Frontend Parsed Tree) (signals : Signals) (options : Options)
    (files : List SourceFile) (parsed : List Parsed) (table : SymbolTable) : Run (List Tree) := do
  let jobs := (files.zip parsed).map fun (file, tree) =>
    { announcement := some ⟨"rewrite", "rewriting " ++ file.path, .debug,
        some [("filename", .text file.path)]⟩
      result := frontend.resolve tree table : Job Tree }
  collect signals true "rewrite" "Rewriting error" .resolution
    (← each signals options.order "rewrite" jobs)

/-- Adds an edge; a dependency on an unknown module is only a warning. -/
def addDependency (id : ModuleId) (graph : DependencyGraph) (entry : ModuleId × Int64) :
    Run DependencyGraph := do
  match graph.addEdge id entry.1 entry.2 with
  | .ok graph' => return graph'
  | .error e =>
      step "graph" .warn (id.path ++ ": ignoring dependency: " ++ e.message)
        (some [("from", .text id.path), ("to", .text entry.1.path)])
      return graph

/-- Adds the dependencies of a file in the order of the module paths. -/
def addDependencies (graph : DependencyGraph) (file : ModuleId × List (ModuleId × Int64)) :
    Run DependencyGraph :=
  (file.2.mergeSort fun a b => a.1.path ≤ b.1.path).foldlM (addDependency file.1) graph

def buildGraph (frontend : Frontend Parsed Tree) (signals : Signals) (options : Options)
    (files : List SourceFile) (trees : List Tree) : Run (DependencyGraph × OutputSet Tree) := do
  let ids := files.map fun file => ModuleId.ofSource file.path
  let jobs := trees.map fun tree => (⟨none, frontend.edges tree⟩ : Job _)
  let edges ← collect signals false "graph" "Dependency error" .resolution
    (← each signals options.order "graph" jobs)
  let vertices := DependencyGraph.empty.addVertices ids
  let output := OutputSet.empty.putAll ((ids.zip trees).map fun (id, tree) => .direct id tree)
  let graph ← (ids.zip edges).foldlM addDependencies vertices
  step "graph" .info
    s!"dependency graph has {graph.vertices.length} modules and {graph.edges.length} edges" none
  return (graph, output)

/-- Merges the cycles of the graph. -/
def mergeCycles (components : List Component) (base : OutputSet Tree) :
    Run (Cycle.Resolution Tree) := do
  (Component.cyclicOnly components).forM fun component =>
    step "cycles" .info
      ("resolving circular dependencies in: " ++
        ", ".intercalate (component.members.map (·.path)))
      (some [("component", .number component.index), ("size", .number component.members.length)])
  match Cycle.resolve base components with
  | .ok resolution => return resolution
  | .error fault =>
      let issues := fault.toIssues .cycleMerge
      issues.forM fun issue => tell (.fault "cycles" (.issue issue))
      throw (.phase "Cycle merge error" issues)

/-- The phases of a conversion in order. -/
def convert (frontend : Frontend Parsed Tree) (signals : Signals) (options : Options)
    (files : List SourceFile) : Run (Result Tree) := do
  step "parse" .info s!"converting {files.length} files"
    (some [("run_id", .text options.runId), ("files", .number files.length)])
  let parsed ← parseFiles frontend signals options files
  let table ← buildTable frontend signals options files parsed
  let trees ← resolveFiles frontend signals options files parsed table
  let (graph, base) ← buildGraph frontend signals options files trees
  let components := graph.components
  let resolution ← mergeCycles components base
  let modules := resolution.output.size
  let merged := resolution.merged.length
  step "cycles" .info s!"emitted {modules} modules ({merged} merged)"
    (some [("modules", .number modules), ("merged", .number merged)])
  return ⟨options.runId, table, graph, components, resolution.merged, resolution.output⟩

/-- Runs a conversion from an empty journal. -/
def run (frontend : Frontend Parsed Tree) (signals : Signals) (options : Options)
    (files : List SourceFile) : Except Fault (Result Tree) × Journal :=
  (convert frontend signals options files).run Journal.empty

end Pipeline
end ScriptWeave
