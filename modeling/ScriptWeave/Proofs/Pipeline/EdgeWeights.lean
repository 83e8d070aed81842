import ScriptWeave.Proofs.Emit.Bindings
import ScriptWeave.Proofs.Graph.Recording
import ScriptWeave.Proofs.Pipeline.ActionScript
import ScriptWeave.Proofs.Pipeline.Conduct
import ScriptWeave.Proofs.Pipeline.DependencyLists
import ScriptWeave.Proofs.Pipeline.FileOrder

/-!
No conversion of ActionScript files ever warns about a dependency: a symbol leads to the module of
the file that exports it, and all these modules are vertices of the graph.

Weights count references. An edge from one source module to another weighs as much as there are
sites in the file of the one that are bound to symbols of the other, and there is no edge where
there is no such site, whatever the file imports.
-/

namespace ScriptWeave

open Resolve (Module)

namespace Pipeline

variable {α : Type}

/-- The report is a warning of the phase that builds the graph: that a dependency is ignored. -/
def Ignores (report : Report) : Prop :=
  ∃ event, report = .step event ∧ event.phase = "graph" ∧ event.level = .warn

theorem not_ignores_fault (phase : String) (fault : Fault) : ¬ Ignores (.fault phase fault) := by
  intro h
  obtain ⟨event, heq, _⟩ := h
  cases heq

theorem not_ignores_step {event : Event} (h : event.level ≠ .warn) : ¬ Ignores (.step event) := by
  intro hignores
  obtain ⟨_, heq, _, hlevel⟩ := hignores
  cases heq
  exact h hlevel

/-- No dependency is ignored on the way. -/
abbrev Heeds (x : Run α) : Prop := Keeps (¬ Ignores ·) (fun _ => True) x

/-- The other phases say nothing about dependencies. -/
theorem not_ignores_of_phase (phase : String) (h : phase ≠ "graph") (report : Report)
    (hphase : report.phase = phase) : ¬ Ignores report := by
  intro hignores
  obtain ⟨event, rfl, hgraph, _⟩ := hignores
  exact h (hphase.symm.trans hgraph)

section

variable {files : List SourceFile} {signals : Signals} {options : Options}

/-- Whatever a file comes to use stems from a file of the conversion. -/
theorem exportPath_mem_of_yields {parsed : List Source} {table : SymbolTable} {trees : List Module}
    (htable : Yields (buildTable .actionScript signals options files parsed) table)
    (htrees : Yields (resolveFiles .actionScript signals options files parsed table) trees)
    {m : Module} (hm : m ∈ trees) {s : Symbol} (hs : s ∈ m.uses) : s.exportPath ∈ idsOf files := by
  obtain ⟨p, _, hrun⟩ := exists_of_mem_map_ok (yields_resolveFiles htrees) hm
  have hfinds := (Resolve.run_ok hrun).2 s hs
  obtain ⟨exports, _, rfl⟩ := yields_buildTable htable
  obtain ⟨package, hexport⟩ := hfinds.exported
  obtain ⟨⟨id, es⟩, hzip, hmem⟩ := List.mem_flatMap.1 hexport
  rw [exportPath_of_mem_ownExports hmem]
  exact (List.of_mem_zip hzip).1

theorem heeds_addDependency {id : ModuleId} {g : DependencyGraph} {entry : ModuleId × Int64}
    (hid : id ∈ g.vertices) (hentry : entry.1 ∈ g.vertices) : Heeds (addDependency id g entry) := by
  rw [addDependency, DependencyGraph.addEdge_eq_ok hid hentry]
  exact .pure _

theorem heeds_addDependencies {g : DependencyGraph} {file : ModuleId × List (ModuleId × Int64)}
    (hfile : file.1 ∈ g.vertices) (hentries : ∀ entry ∈ file.2, entry.1 ∈ g.vertices) :
    Heeds (addDependencies g file) := by
  refine .foldlM (fun g' => g'.vertices = g.vertices) ?_ rfl
  intro g' hg' entry hentry
  rw [List.mem_mergeSort] at hentry
  refine ⟨heeds_addDependency (hg' ▸ hfile) (hg' ▸ hentries entry hentry), ?_⟩
  intro g'' hyields
  rw [yields_addDependency hyields, DependencyGraph.vertices_includeEdge, hg']

theorem heeds_buildGraph {trees : List Module}
    (huses : ∀ m ∈ trees, ∀ s ∈ m.uses, s.exportPath ∈ idsOf files) :
    Heeds (buildGraph .actionScript signals options files trees) := by
  refine (Keeps.each trivial ?_).bind fun results hresults =>
    (Keeps.collect (not_ignores_fault _) fun _ => trivial).bind fun edges hedges => ?_
  · intro job hjob event hevent
    obtain ⟨m, _, rfl⟩ := List.mem_map.1 hjob
    cases hevent
  · have hvalues := yields_collect hedges
    rw [yields_each options.order_perm hresults, List.map_map] at hvalues
    have hfold : Heeds (((idsOf files).zip edges).foldlM addDependencies
        (DependencyGraph.empty.addVertices (idsOf files))) := by
      refine .foldlM (fun g => ∀ id, id ∈ g.vertices ↔ id ∈ idsOf files) ?_
        (DependencyGraph.mem_vertices_ofIds _)
      intro g hg file hfile
      obtain ⟨hid, hentries⟩ := List.of_mem_zip hfile
      obtain ⟨m, hm, hanswer⟩ := exists_of_mem_map_ok hvalues hentries
      refine ⟨heeds_addDependencies ((hg _).2 hid) ?_, ?_⟩
      · intro entry hentry
        rw [← Except.ok.inj hanswer] at hentry
        obtain ⟨⟨id, n⟩, hedge, rfl⟩ := List.mem_map.1 hentry
        obtain ⟨v, hv, heq⟩ := List.mem_map.1 hedge
        cases heq
        obtain ⟨s, hs, rfl⟩ := Resolve.Module.mem_dependencies.1 hv
        exact (hg _).2 (huses m hm s hs)
      · intro g' hyields
        rw [yields_addDependencies hyields, vertices_includeEdges]
        exact hg
    have hlevel : Level.info ≠ .warn := by decide
    exact hfold.bind fun g _ => (Keeps.tell (not_ignores_step hlevel)).andThen (.pure _)

/-- No conversion of ActionScript files ignores a dependency, whatever its end. -/
theorem heeds_convert : Heeds (convert .actionScript signals options files) := by
  have hparse := not_ignores_of_phase "parse" (by decide)
  have hsymbols := not_ignores_of_phase "symbols" (by decide)
  have hrewrite := not_ignores_of_phase "rewrite" (by decide)
  have hcycles := not_ignores_of_phase "cycles" (by decide)
  have hany (issues : List Issue) : True := trivial
  refine (Keeps.tell (hparse _ rfl)).andThen <|
    (Keeps.parseFiles trivial hparse hany).bind fun parsed _ => ?_
  refine (Keeps.buildTable trivial hsymbols hany hany parsed).bind fun table htable => ?_
  refine (Keeps.resolveFiles trivial hrewrite hany parsed table).bind fun trees htrees => ?_
  refine (heeds_buildGraph fun m hm s hs => exportPath_mem_of_yields htable htrees hm hs).bind ?_
  rintro ⟨graph, base⟩ _
  refine (Keeps.mergeCycles hcycles hany graph.components base).bind fun resolution _ => ?_
  exact (Keeps.tell (hcycles _ rfl)).andThen (.pure _)

end

theorem not_ignores_of_run (signals : Signals) (options : Options) (files : List SourceFile) :
    ∀ report ∈ (run .actionScript signals options files).2.reports, ¬ Ignores report := by
  obtain ⟨⟨new, hnew, hheeds⟩, _⟩ := @heeds_convert files signals options Journal.empty
  rw [run, hnew]
  exact hheeds

end Pipeline

namespace Resolve

open Script (Import ReferenceKey)

/-- Whether a reference means a symbol of the given module. -/
def Binding.leadsTo (b : Binding) (id : ModuleId) : Bool :=
  match b.target with
  | .external s => s.exportPath = id
  | _ => false

/-- The sites of the file that are bound to symbols of the given module. -/
def Module.sitesTo (m : Module) (id : ModuleId) : List ReferenceKey :=
  m.source.file.sites.filter fun key => (m.binding? key).any (·.leadsTo id)

/-- The import makes a symbol of the table known to a file. -/
def Brings (table : SymbolTable) (i : Import) (s : Symbol) : Prop :=
  i.wildcard = false ∧ table.lookup? i.name.qualifier i.name.last = some s ∨
    i.wildcard = true ∧ ∃ name, table.lookup? i.name.dotted name = some s

theorem Module.weight_eq_countP (m : Module) (id : ModuleId) :
    m.weight id = m.links.countP (·.binding.leadsTo id) := by
  rw [weight, uses, List.countP_filterMap]
  apply List.countP_congr
  intro l _
  rw [Link.symbol?, Binding.leadsTo]
  cases l.binding.target <;> simp

/-- In a parsed file the weight of a module is the number of sites that lead to it. -/
theorem Module.length_sitesTo {text : String} {source : Source} {table : SymbolTable} {m : Module}
    (hparse : Script.parse text = .ok source.file) (hrun : run source table = .ok m)
    (id : ModuleId) : (m.sitesTo id).length = m.weight id := by
  have hkeys := keys_links hrun
  have hnodup : (m.links.map (·.reference.key)).Nodup := by
    rw [hkeys, ← source.file.keys_references]
    exact Script.nodup_keys_of_parse hparse
  rw [sitesTo, (run_ok hrun).1, ← hkeys, ← List.countP_eq_length_filter, List.countP_map,
    m.weight_eq_countP]
  apply List.countP_congr
  intro l hl
  rw [Function.comp, m.binding?_of_mem hnodup hl, Option.any_some]

end Resolve

open Resolve (Module)

namespace Pipeline

/-- The dependencies of a module as they are recorded. -/
def weighted (m : Module) : ModuleId × List (ModuleId × Int64) :=
  (m.source.id, m.edges.map fun (id, n) => (id, Int64.ofNat n))

theorem mem_weighted {m : Module} {entry : ModuleId × Int64} :
    entry ∈ (weighted m).2 ↔
      entry.1 ∈ m.dependencies ∧ entry.2 = Int64.ofNat (m.weight entry.1) := by
  rw [weighted, Module.edges, List.map_map, List.mem_map]
  constructor
  · rintro ⟨id, hid, rfl⟩
    exact ⟨hid, rfl⟩
  · rintro ⟨hid, hweight⟩
    exact ⟨entry.1, hid, Prod.ext rfl hweight.symm⟩

theorem weight_eq_zero {m : Module} {id : ModuleId} (h : id ∉ m.dependencies) :
    m.weight id = 0 := by
  rw [Module.weight, List.countP_eq_zero]
  intro s hs hid
  exact h (Resolve.Module.mem_dependencies.2 ⟨s, hs, of_decide_eq_true hid⟩)

/-- A module records its whole weight for each dependency at once. -/
theorem sum_portions_weighted (m : Module) (id : ModuleId) :
    (Edge.portions (edgesOf (weighted m)) (m.source.id, id)).sum = Int64.ofNat (m.weight id) := by
  have hperm := List.mergeSort_perm (weighted m).2 fun a b => a.1.path ≤ b.1.path
  have hkeys : (weighted m).2.map (·.1) = m.dependencies := by
    rw [weighted, Module.edges, List.map_map, List.map_map]
    exact List.map_id _
  have hends : ∀ entry : ModuleId × Int64, ∀ e ∈ [(⟨(weighted m).1, entry.1, entry.2⟩ : Edge)],
      e.ends.2 = entry.1 := by
    intro entry e he
    rw [List.mem_singleton.1 he]
    rfl
  rw [edgesOf, List.map_eq_flatMap]
  by_cases hid : id ∈ m.dependencies
  · have hmem : (id, Int64.ofNat (m.weight id)) ∈ (weighted m).2 := mem_weighted.2 ⟨hid, rfl⟩
    have hnodup := (hperm.map (·.1)).nodup_iff.2 (hkeys ▸ Resolve.nodup_distinct _)
    rw [Edge.portions_flatMap_of_mem hends hnodup (hperm.mem_iff.2 hmem) rfl,
      Edge.portions_singleton]
    simp [Edge.ends, weighted]
  · rw [Edge.portions_flatMap_of_not_mem hends]
    · rw [weight_eq_zero hid]
      rfl
    · rw [(hperm.map _).mem_iff, hkeys]
      exact hid

namespace Conversion

variable {files : List SourceFile} {result : Result Module}
  (c : Conversion .actionScript files result)
include c

theorem graph_eq_includeAll : result.graph =
    (DependencyGraph.empty.addVertices (idsOf files)).includeAll
      (c.trees.flatMap fun m => edgesOf (weighted m)) := by
  rw [c.graph_eq, c.zip_edges, foldl_includeEdges, List.flatMap_map]
  rfl

theorem joins_trees : (DependencyGraph.empty.addVertices (idsOf files)).Joins
    (c.trees.flatMap fun m => edgesOf (weighted m)) := by
  intro e he
  rw [DependencyGraph.mem_vertices_ofIds, DependencyGraph.mem_vertices_ofIds]
  obtain ⟨m, hm, he⟩ := List.mem_flatMap.1 he
  obtain ⟨entry, hentry, rfl⟩ := List.mem_map.1 he
  obtain ⟨hdep, _⟩ := mem_weighted.1 (List.mem_mergeSort.1 hentry)
  obtain ⟨s, hs, hid⟩ := Resolve.Module.mem_dependencies.1 hdep
  refine ⟨?_, hid ▸ c.exportPath_mem_ids hm hs⟩
  rw [c.ids_eq]
  exact List.mem_map.2 ⟨m, hm, rfl⟩

theorem weight_eq (hids : (idsOf files).Nodup) {m : Module} (hm : m ∈ c.trees) (id : ModuleId) :
    result.graph.weight m.source.id id = Int64.ofNat (m.weight id) := by
  have hkeys : ∀ x : Module, ∀ e ∈ edgesOf (weighted x), e.ends.1 = x.source.id := by
    intro x e he
    obtain ⟨entry, _, rfl⟩ := List.mem_map.1 he
    rfl
  rw [c.ids_eq] at hids
  rw [c.graph_eq_includeAll, DependencyGraph.weight_recorded c.joins_trees,
    Edge.portions_flatMap_of_mem hkeys hids hm rfl, sum_portions_weighted]

/-- Every file was parsed and resolved, and is the source of its module. -/
theorem exists_tree {file : SourceFile} (hfile : file ∈ files) :
    ∃ source, ∃ m ∈ c.trees, Frontend.actionScript.parse file = .ok source ∧ m.source = source ∧
      source.id = .ofSource file.path ∧ Script.parse file.text = .ok source.file := by
  have hparsed : Frontend.actionScript.parse file ∈ c.parsed.map .ok :=
    c.parse_eq ▸ List.mem_map.2 ⟨file, hfile, rfl⟩
  obtain ⟨source, hsource, hparse⟩ := List.mem_map.1 hparsed
  rw [← c.map_source_trees] at hsource
  obtain ⟨m, hm, hmsource⟩ := List.mem_map.1 hsource
  refine ⟨source, m, hm, hparse.symm, hmsource, ?_⟩
  simp only [Frontend.actionScript] at hparse
  split at hparse
  · next tree htree =>
      cases hparse
      exact ⟨rfl, htree⟩
  · cases hparse

theorem hasEdge_iff (hids : (idsOf files).Nodup) {m : Module} (hm : m ∈ c.trees) (id : ModuleId) :
    result.graph.hasEdge m.source.id id = true ↔ 0 < m.weight id := by
  rw [DependencyGraph.hasEdge_iff, c.leads_source_iff hids hm, Resolve.Module.mem_dependencies,
    Module.weight, List.countP_pos_iff]
  simp only [decide_eq_true_eq]

end Conversion

/-- In the graph of a conversion the weight of an edge is the number of identifiers, `new` targets
and superclasses in the file of its source that mean symbols of its target. There is an edge exactly
where there are such sites, so what is imported without being used adds none, and no dependency is
ever ignored. -/
theorem edges_count_references (signals : Signals) (options : Options) (files : List SourceFile)
    (hids : (files.map fun file => ModuleId.ofSource file.path).Nodup) {result : Result Module}
    {journal : Journal} (hrun : run .actionScript signals options files = (.ok result, journal)) :
    (∀ file ∈ files, ∃ source m, Frontend.actionScript.parse file = .ok source ∧
        Resolve.run source result.table = .ok m ∧
        (∀ id, result.graph.weight (.ofSource file.path) id = Int64.ofNat (m.sitesTo id).length ∧
          (result.graph.hasEdge (.ofSource file.path) id = true ↔ 0 < (m.sitesTo id).length)) ∧
        ∀ i ∈ source.file.imports, ∀ s, Resolve.Brings result.table i s →
          m.sitesTo s.exportPath = [] →
            result.graph.hasEdge (.ofSource file.path) s.exportPath = false) ∧
      (∀ e ∈ result.graph.edges, ∃ file ∈ files, e.source = .ofSource file.path) ∧
      ∀ report ∈ journal.reports, ¬ Ignores report := by
  obtain ⟨c⟩ := nonempty_conversion hrun
  refine ⟨?_, ?_, ?_⟩
  · intro file hfile
    obtain ⟨source, m, hm, hparse, rfl, hid, htext⟩ := c.exists_tree hfile
    have hresolve := c.run_source hm
    have hcount := Resolve.Module.length_sitesTo htext hresolve
    have hedge : ∀ id, result.graph.hasEdge (.ofSource file.path) id = true ↔
        0 < (m.sitesTo id).length := by
      intro id
      rw [← hid, hcount, c.hasEdge_iff hids hm]
    refine ⟨m.source, m, hparse, hresolve, fun id => ⟨?_, hedge id⟩, ?_⟩
    · rw [← hid, hcount, c.weight_eq hids hm]
    · intro i _ s _ hunused
      rw [← Bool.not_eq_true, hedge, hunused]
      exact Nat.lt_irrefl 0
  · intro e he
    have hsource := DependencyGraph.Leads.source_mem ⟨e.weight, he⟩
    rw [c.mem_vertices_iff] at hsource
    obtain ⟨file, hfile, hid⟩ := List.mem_map.1 hsource
    exact ⟨file, hfile, hid.symm⟩
  · have hheeds := not_ignores_of_run signals options files
    rw [hrun] at hheeds
    exact hheeds

/-- A file with two imports, of which it uses only the first one, and twice. -/
def importingFile : SourceFile :=
  ⟨"d.as", "package p \x7b import q.A; import q.B; class D extends A \x7b var x = new A; \x7d \x7d"⟩

/-- The file with the two that it imports. -/
def importingFiles : List SourceFile :=
  [⟨"a.as", "package q \x7b public class A \x7b \x7d \x7d"⟩,
   ⟨"b.as", "package q \x7b public class B \x7b \x7d \x7d"⟩, importingFile]

theorem edges_count_references_importing : ∃ result journal,
    run .actionScript .quiet (.sequential .fail) importingFiles = (.ok result, journal) ∧
      result.graph.weight ⟨"d.js"⟩ ⟨"a.js"⟩ = 2 ∧
      (∃ source m, Resolve.run source result.table = .ok m ∧
        Int64.ofNat (m.sitesTo ⟨"a.js"⟩).length = 2 ∧ m.sitesTo ⟨"b.js"⟩ = []) ∧
      result.graph.hasEdge ⟨"d.js"⟩ ⟨"b.js"⟩ = false ∧
      ∀ report ∈ journal.reports, ¬ Ignores report := by
  have hcomputed : (run .actionScript .quiet (.sequential .fail) importingFiles).1.toOption.map
      (fun result => (result.graph.weight ⟨"d.js"⟩ ⟨"a.js"⟩,
        result.graph.hasEdge ⟨"d.js"⟩ ⟨"b.js"⟩)) = some (2, false) := by
    decide +kernel
  cases hrun : run .actionScript .quiet (.sequential .fail) importingFiles with
  | mk outcome journal =>
      rw [hrun] at hcomputed
      cases outcome with
      | error fault => cases hcomputed
      | ok result =>
          obtain ⟨hweight, hnone⟩ := Prod.mk.inj (Option.some.inj hcomputed)
          obtain ⟨hfiles, _, hreports⟩ :=
            edges_count_references _ _ importingFiles (by decide) hrun
          obtain ⟨source, m, _, hresolve, hsites, _⟩ :=
            hfiles importingFile (by simp [importingFiles])
          have hid : ModuleId.ofSource importingFile.path = ⟨"d.js"⟩ := by decide
          rw [hid] at hsites
          refine ⟨result, journal, rfl, hweight, ⟨source, m, hresolve, ?_, ?_⟩, hnone, hreports⟩
          · rw [← (hsites _).1, hweight]
          · have hnot : ¬ 0 < (m.sitesTo ⟨"b.js"⟩).length := by
              rw [← (hsites _).2, hnone]
              exact Bool.false_ne_true
            exact List.length_eq_zero_iff.1 (Nat.eq_zero_of_not_pos hnot)

end Pipeline
end ScriptWeave
