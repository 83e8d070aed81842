import ScriptWeave.Proofs.Graph.Agreement
import ScriptWeave.Proofs.Pipeline.LinkSoundness
import ScriptWeave.Proofs.Pipeline.Schedule
import ScriptWeave.Proofs.Resolve.Tables

/-!
The order of the files does not matter for what they mean. Two conversions of the same parsed files,
no two of which export one name into one package, build tables that agree, resolve every file alike,
and build graphs that agree, with the same components. Only places change: the order of vertices and
symbols, and the numbers of components.
-/

namespace ScriptWeave
namespace Pipeline

/-- The edges that a file asks for, in the order in which they are recorded. -/
def edgesOf (file : ModuleId × List (ModuleId × Int64)) : List Edge :=
  (file.2.mergeSort fun a b => a.1.path ≤ b.1.path).map fun entry => ⟨file.1, entry.1, entry.2⟩

theorem foldl_includeEdges (g : DependencyGraph)
    (files : List (ModuleId × List (ModuleId × Int64))) :
    files.foldl includeEdges g = g.includeAll (files.flatMap edgesOf) := by
  rw [DependencyGraph.includeAll, List.foldl_flatMap]
  congr 1
  funext g file
  rw [includeEdges, edgesOf, List.foldl_map]

/-- The package and the name of every symbol that the files export. -/
def exportKeys (files : List SourceFile) : List (String × String) :=
  (files.filterMap Frontend.actionScript.exports?).flatten.filterMap Export.key?

section

variable {Parsed Tree : Type} {frontend : Frontend Parsed Tree} {files : List SourceFile}

theorem filterMap_toOption_map_ok {α : Type} (as : List α) :
    (as.map (Except.ok : α → Except Fault α)).filterMap Except.toOption = as := by
  rw [List.filterMap_map]
  exact List.filterMap_some

theorem Frontend.passes_of_parse_eq {parsed : List Parsed}
    (h : files.map frontend.parse = parsed.map .ok) :
    frontend.Passes files .parse ∧ parsed = files.filterMap frontend.parsed? := by
  constructor
  · intro file hfile
    have hmem : frontend.parse file ∈ parsed.map .ok := h ▸ List.mem_map.2 ⟨file, hfile, rfl⟩
    obtain ⟨value, _, heq⟩ := List.mem_map.1 hmem
    rw [Frontend.fault?, ← heq]
    rfl
  · rw [← filterMap_toOption_map_ok parsed, ← h, List.filterMap_map]
    rfl

theorem Frontend.table_eq_tableOf (hparse : frontend.Passes files .parse)
    {exports : List (List Export)} {table : SymbolTable}
    (hexports : (files.filterMap frontend.parsed?).map frontend.exports = exports.map .ok)
    (htable : table =
      SymbolTable.empty.registerAll (((idsOf files).zip exports).flatMap ownExports)) :
    table = frontend.tableOf files := by
  have hvalues : exports = files.filterMap frontend.listed? := by
    rw [← filterMap_toOption_map_ok exports, ← hexports]
    exact frontend.exports_answers _
  have hlength : (files.filterMap frontend.listed?).length = files.length := by
    have hlengths := congrArg List.length hexports
    simp only [List.length_map, length_filterMap_eq hparse.parsed?] at hlengths
    rw [← hvalues, ← hlengths]
  rw [htable, hvalues, Frontend.ownExports_listed]
  · rfl
  · intro file hfile
    exact Option.isSome_iff_ne_none.1 (List.filterMap_length_eq_length.1 hlength file hfile)

theorem Frontend.graph_eq_graphOf (hparse : frontend.Passes files .parse) {trees : List Tree}
    {edges : List (List (ModuleId × Int64))} {graph : DependencyGraph}
    (htrees : (files.zip (files.filterMap frontend.parsed?)).map
      (fun p => frontend.resolve p.2 (frontend.tableOf files)) = trees.map .ok)
    (hedges : trees.map frontend.edges = edges.map .ok)
    (hgraph : graph =
      ((idsOf files).zip edges).foldl includeEdges (.addVertices .empty (idsOf files))) :
    graph = frontend.graphOf files := by
  have hresolved : trees = files.filterMap (frontend.tree? (frontend.tableOf files)) := by
    rw [← filterMap_toOption_map_ok trees, ← htrees]
    exact frontend.resolve_answers hparse _ _
  have hvalues : edges = files.filterMap (frontend.edges? (frontend.tableOf files)) := by
    rw [← filterMap_toOption_map_ok edges, ← hedges, hresolved]
    exact frontend.edges_answers _ _
  have hlength : (files.filterMap (frontend.edges? (frontend.tableOf files))).length =
      files.length := by
    have hfirst := congrArg List.length htrees
    have hsecond := congrArg List.length hedges
    simp only [List.length_map, List.length_zip, length_filterMap_eq hparse.parsed?]
      at hfirst hsecond
    rw [← hvalues]
    omega
  rw [hgraph, hvalues, Frontend.graphOf_eq]
  intro file hfile
  exact Option.isSome_iff_ne_none.1 (List.filterMap_length_eq_length.1 hlength file hfile)

end

/-- The phases of a conversion up to its table. -/
def tablePhases (signals : Signals) (options : Options) (files : List SourceFile) :
    Run SymbolTable := do
  let parsed ← parseFiles Frontend.actionScript signals options files
  buildTable Frontend.actionScript signals options files parsed

/-- The phases of a conversion up to its graph. -/
def graphPhases (signals : Signals) (options : Options) (files : List SourceFile) :
    Run (DependencyGraph × OutputSet Resolve.Module) := do
  let parsed ← parseFiles Frontend.actionScript signals options files
  let table ← buildTable Frontend.actionScript signals options files parsed
  let trees ← resolveFiles Frontend.actionScript signals options files parsed table
  buildGraph Frontend.actionScript signals options files trees

/-- Conversions of the files build the table if nothing disturbs them, and never another one. -/
structure Tabulates (files : List SourceFile) (table : SymbolTable) : Prop where
  builds : ∀ signals : Signals, signals.Undisturbed → ∀ options, ∃ jobs,
    Ends (tablePhases signals options files) (.ok table) [] jobs
  only : ∀ signals options built, Yields (tablePhases signals options files) built → built = table

/-- Conversions of the files build the graph if nothing disturbs them, and never another one; their
results hold the table, the graph and its components. -/
structure Charts (files : List SourceFile) (table : SymbolTable) (graph : DependencyGraph) :
    Prop where
  builds : ∀ signals : Signals, signals.Undisturbed → ∀ options, ∃ base jobs,
    Ends (graphPhases signals options files) (.ok (graph, base)) [] jobs
  only : ∀ signals options built base,
    Yields (graphPhases signals options files) (built, base) → built = graph
  result : ∀ signals options result,
    (run Frontend.actionScript signals options files).1 = .ok result →
      result.table = table ∧ result.graph = graph ∧ result.components = graph.components

section

variable {files : List SourceFile}

theorem passes_exports : Frontend.actionScript.Passes files .exports := by
  intro file _
  rw [Frontend.fault?]
  cases Frontend.actionScript.parsed? file with
  | none => rfl
  | some source => rfl

theorem passes_edges : Frontend.actionScript.Passes files .edges := by
  intro file _
  rw [Frontend.fault?]
  cases Frontend.actionScript.tree? (Frontend.actionScript.tableOf files) file with
  | none => rfl
  | some tree => rfl

theorem passes_parse_iff : Frontend.actionScript.Passes files .parse ↔
    ∀ file ∈ files, ∃ source, Frontend.actionScript.parse file = .ok source := by
  apply forall₂_congr
  intro file _
  rw [Frontend.fault?]
  cases Frontend.actionScript.parse file with
  | ok source => simp [faultOf?]
  | error fault => simp [faultOf?]

theorem passes_resolve_iff : Frontend.actionScript.Passes files .resolve ↔
    ∀ file ∈ files, ∀ source, Frontend.actionScript.parse file = .ok source →
      ∃ m, Resolve.run source (Frontend.actionScript.tableOf files) = .ok m := by
  apply forall₂_congr
  intro file _
  rw [Frontend.fault?, Frontend.parsed?]
  cases Frontend.actionScript.parse file with
  | error fault => simp [Except.toOption]
  | ok source =>
      have hresolve : Frontend.actionScript.resolve source (Frontend.actionScript.tableOf files) =
        Resolve.run source (Frontend.actionScript.tableOf files) := rfl
      simp only [Except.toOption, Option.bind_some, hresolve, Except.ok.injEq, forall_eq']
      cases Resolve.run source (Frontend.actionScript.tableOf files) with
      | ok m => simp [faultOf?]
      | error fault => simp [faultOf?]

theorem table_of_yields {signals : Signals} {options : Options} {table : SymbolTable}
    (h : Yields (tablePhases signals options files) table) :
    table = Frontend.actionScript.tableOf files := by
  obtain ⟨parsed, hparsed, htable⟩ := yields_bind h
  obtain ⟨hparse, rfl⟩ := Frontend.passes_of_parse_eq (yields_parseFiles hparsed)
  obtain ⟨exports, hexports, htable⟩ := yields_buildTable htable
  exact Frontend.table_eq_tableOf hparse hexports htable

theorem graph_of_yields {signals : Signals} {options : Options} {graph : DependencyGraph}
    {base : OutputSet Resolve.Module}
    (h : Yields (graphPhases signals options files) (graph, base)) :
    graph = Frontend.actionScript.graphOf files := by
  obtain ⟨parsed, hparsed, hrest⟩ := yields_bind h
  obtain ⟨table, htable, hrest'⟩ := yields_bind hrest
  obtain ⟨trees, htrees, hbuild⟩ := yields_bind hrest'
  obtain ⟨hparse, rfl⟩ := Frontend.passes_of_parse_eq (yields_parseFiles hparsed)
  obtain ⟨exports, hexports, htable⟩ := yields_buildTable htable
  have htable := Frontend.table_eq_tableOf hparse hexports htable
  subst htable
  obtain ⟨edges, hedges, hgraph, _⟩ := yields_buildGraph hbuild
  exact Frontend.graph_eq_graphOf hparse (yields_resolveFiles htrees) hedges hgraph

theorem parts_of_result {signals : Signals} {options : Options} {result : Result Resolve.Module}
    (h : (run Frontend.actionScript signals options files).1 = .ok result) :
    result.table = Frontend.actionScript.tableOf files ∧
      result.graph = Frontend.actionScript.graphOf files ∧
      result.components = (Frontend.actionScript.graphOf files).components := by
  obtain ⟨c⟩ := nonempty_conversion (Prod.ext h rfl)
  obtain ⟨hparse, hparsed⟩ := Frontend.passes_of_parse_eq c.parse_eq
  have hexports := c.exports_eq
  have htrees := c.resolve_eq
  rw [hparsed] at hexports htrees
  have htable := Frontend.table_eq_tableOf hparse hexports c.table_eq
  rw [htable] at htrees
  have hgraph := Frontend.graph_eq_graphOf hparse htrees c.edges_eq c.graph_eq
  exact ⟨htable, hgraph, c.components_eq.trans (congrArg _ hgraph)⟩

variable (hparse : Frontend.actionScript.Passes files .parse) (hkeys : (exportKeys files).Nodup)
include hparse hkeys

theorem tabulates : Tabulates files (Frontend.actionScript.tableOf files) where
  builds := fun _ hsignals options =>
    ⟨_, (ends_parseFiles hsignals options hparse).bind (ends_buildTable hsignals options hparse
      passes_exports (.inr (SymbolTable.unclashing_of_nodup hkeys)))⟩
  only := fun _ _ _ => table_of_yields

theorem charts (hresolve : Frontend.actionScript.Passes files .resolve) :
    Charts files (Frontend.actionScript.tableOf files) (Frontend.actionScript.graphOf files) where
  builds := fun _ hsignals options =>
    ⟨_, _, (ends_parseFiles hsignals options hparse).bind <|
      (ends_buildTable hsignals options hparse passes_exports
        (.inr (SymbolTable.unclashing_of_nodup hkeys))).bind <|
      (ends_resolveFiles hsignals options hparse hresolve).bind <|
      ends_buildGraph hsignals options hparse hresolve passes_edges⟩
  only := fun _ _ _ _ => graph_of_yields
  result := fun _ _ _ => parts_of_result

end

section

variable {files files' : List SourceFile} (hperm : files.Perm files')
  (hkeys : (exportKeys files).Nodup)
include hperm hkeys

theorem agrees_tableOf : (Frontend.actionScript.tableOf files).Agrees
    (Frontend.actionScript.tableOf files') :=
  SymbolTable.agrees_registerAll (hperm.filterMap _).flatten hkeys

theorem agrees_graphOf : (Frontend.actionScript.graphOf files).Agrees
    (Frontend.actionScript.graphOf files') := by
  have hresolve : ∀ source,
      Frontend.actionScript.resolve source (Frontend.actionScript.tableOf files) =
        Frontend.actionScript.resolve source (Frontend.actionScript.tableOf files') :=
    Resolve.run_eq_of_agrees (agrees_tableOf hperm hkeys)
  have hedges : Frontend.actionScript.edges? (Frontend.actionScript.tableOf files) =
      Frontend.actionScript.edges? (Frontend.actionScript.tableOf files') := by
    funext file
    simp only [Frontend.edges?, Frontend.tree?, hresolve]
  rw [Frontend.graphOf, Frontend.graphOf, foldl_includeEdges, foldl_includeEdges, hedges]
  apply DependencyGraph.agrees_includeAll
  · exact hperm.map _
  · exact (hperm.filterMap _).flatMap_right _

end

/-- Permuted files make tables and graphs that agree, and resolve alike one by one. -/
theorem run_file_order_independent {files files' : List SourceFile} (hperm : files.Perm files')
    (hparsed : ∀ file ∈ files, ∃ source, Frontend.actionScript.parse file = .ok source)
    (hkeys : (exportKeys files).Nodup) :
    ∃ table table', Tabulates files table ∧ Tabulates files' table' ∧ table.Agrees table' ∧
      (∀ source, Resolve.run source table = Resolve.run source table') ∧
      ((∀ file ∈ files, ∀ source, Frontend.actionScript.parse file = .ok source →
          ∃ m, Resolve.run source table = .ok m) →
        ∃ graph graph', Charts files table graph ∧ Charts files' table' graph' ∧
          graph.Agrees graph' ∧
          (∀ c ∈ graph.components, ∃ c' ∈ graph'.components,
            c.members.Perm c'.members ∧ c.cyclic = c'.cyclic) ∧
          ∀ c' ∈ graph'.components, ∃ c ∈ graph.components,
            c'.members.Perm c.members ∧ c'.cyclic = c.cyclic) := by
  have hkeys' : (exportKeys files').Nodup :=
    ((hperm.filterMap _).flatten.filterMap _).nodup_iff.1 hkeys
  have hparse := passes_parse_iff.2 hparsed
  have hparse' : Frontend.actionScript.Passes files' .parse :=
    passes_parse_iff.2 fun file hfile => hparsed file (hperm.mem_iff.2 hfile)
  have htables := agrees_tableOf hperm hkeys
  have hresolve := Resolve.run_eq_of_agrees htables
  refine ⟨_, _, tabulates hparse hkeys, tabulates hparse' hkeys', htables, hresolve, ?_⟩
  intro hall
  have hall' : ∀ file ∈ files', ∀ source, Frontend.actionScript.parse file = .ok source →
      ∃ m, Resolve.run source (Frontend.actionScript.tableOf files') = .ok m := by
    intro file hfile source hsource
    rw [← hresolve]
    exact hall file (hperm.mem_iff.2 hfile) source hsource
  have hgraphs := agrees_graphOf hperm hkeys
  exact ⟨_, _, charts hparse hkeys (passes_resolve_iff.2 hall),
    charts hparse' hkeys' (passes_resolve_iff.2 hall'), hgraphs,
    fun c hc => hgraphs.exists_component hc, fun c hc => hgraphs.symm.exists_component hc⟩

theorem run_file_order_independent_loop : ∃ table table' graph graph',
    Tabulates loopFiles table ∧ Tabulates loopFiles.reverse table' ∧ table.Agrees table' ∧
      Charts loopFiles table graph ∧ Charts loopFiles.reverse table' graph' ∧
      graph.Agrees graph' := by
  have hparse : ∀ file ∈ loopFiles, ∃ source, Frontend.actionScript.parse file = .ok source :=
    passes_parse_iff.1 (by
      rw [Frontend.passes_iff, ← List.isEmpty_iff]
      decide +kernel)
  have hresolve : Frontend.actionScript.Passes loopFiles .resolve := by
    rw [Frontend.passes_iff, ← List.isEmpty_iff]
    decide +kernel
  obtain ⟨table, table', htable, htable', htables, _, hgraphs⟩ :=
    run_file_order_independent (List.reverse_perm loopFiles).symm hparse (by decide +kernel)
  obtain ⟨jobs, hends⟩ := htable.builds .quiet undisturbed_quiet (.sequential .fail)
  have hbuilt := table_of_yields hends.yields
  subst hbuilt
  obtain ⟨graph, graph', hgraph, hgraph', hagrees, _⟩ := hgraphs (passes_resolve_iff.1 hresolve)
  exact ⟨_, table', graph, graph', htable, htable', htables, hgraph, hgraph', hagrees⟩

end Pipeline
end ScriptWeave
