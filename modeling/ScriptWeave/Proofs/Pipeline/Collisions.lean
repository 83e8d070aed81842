import ScriptWeave.Proofs.Cycle.Resolution
import ScriptWeave.Proofs.Pipeline.DependencyLists
import ScriptWeave.Proofs.Pipeline.FileOrder

/-!
What can fail once all references are resolved and the graph is built. Files become direct modules
under paths with the suffix, so the one obstacle to merging a cycle is a file whose module has the
id of the merged one. A conversion that meets no such file ends well, and all its modules are
rendered.
-/

namespace ScriptWeave

open Resolve (Module)

namespace Pipeline

/-- The journal in which the first phase of a conversion begins. -/
def begun (options : Options) (files : List SourceFile) : Journal :=
  { Journal.empty with
    reports := [.step ⟨"parse", s!"converting {files.length} files", .info,
      some [("run_id", .text options.runId), ("files", .number files.length)]⟩] }

/-- The cyclic components of a graph whose merged modules would have the id of some file. -/
def collisions (files : List SourceFile) (graph : DependencyGraph) : List Component :=
  (Component.cyclicOnly graph.components).filter fun c =>
    (idsOf files).contains (Cycle.mergedId c.index)

theorem mem_collisions {files : List SourceFile} {graph : DependencyGraph} {c : Component} :
    c ∈ collisions files graph ↔ c ∈ graph.components ∧ c.cyclic = true ∧
      ∃ file ∈ files, ModuleId.ofSource file.path = Cycle.mergedId c.index := by
  simp only [collisions, Component.cyclicOnly, List.mem_filter, List.contains_iff_mem, idsOf,
    List.mem_map, and_assoc]

section

variable {files : List SourceFile} {graph : DependencyGraph} {base : OutputSet Module}
variable {signals : Signals} {options : Options}
  (h : Yields (graphPhases signals options files) (graph, base))
include h

theorem exists_trees_of_yields : ∃ trees : List Module, trees.length = files.length ∧
    base = OutputSet.empty.putAll (((idsOf files).zip trees).map fun p => .direct p.1 p.2) := by
  obtain ⟨parsed, hparsed, hrest⟩ := yields_bind h
  obtain ⟨table, _, hrest'⟩ := yields_bind hrest
  obtain ⟨trees, htrees, hbuild⟩ := yields_bind hrest'
  obtain ⟨_, _, _, hbase⟩ := yields_buildGraph hbuild
  refine ⟨trees, ?_, hbase⟩
  have hfirst := congrArg List.length (yields_parseFiles hparsed)
  have hsecond := congrArg List.length (yields_resolveFiles htrees)
  simp only [List.length_map, List.length_zip] at hfirst hsecond
  omega

theorem mem_vertices_of_yields (id : ModuleId) : id ∈ graph.vertices ↔ id ∈ idsOf files := by
  rw [graph_of_yields h, Frontend.graphOf, DependencyGraph.vertices_foldl vertices_includeEdges,
    DependencyGraph.mem_vertices_ofIds]

theorem mem_base_ids_of_yields (id : ModuleId) : id ∈ base.ids ↔ id ∈ idsOf files := by
  obtain ⟨trees, hlength, rfl⟩ := exists_trees_of_yields h
  have hids : (((idsOf files).zip trees).map fun p => EmittedModule.direct p.1 p.2).map (·.id) =
      idsOf files := by
    rw [List.map_map]
    refine (List.map_congr_left fun p _ => rfl).trans (List.map_fst_zip ?_)
    rw [idsOf, List.length_map, hlength]
  rw [OutputSet.mem_ids_putAll, hids, or_iff_right]
  exact List.not_mem_nil

theorem exists_direct_of_yields {id : ModuleId} (hid : id ∈ idsOf files) :
    ∃ m, base.get? id = some (.direct id m) := by
  obtain ⟨x, hx⟩ := (base.mem_ids_iff id).1 ((mem_base_ids_of_yields h id).2 hid)
  obtain ⟨hmem, rfl⟩ := (base.get?_eq_some_iff _ _).1 hx
  obtain ⟨trees, _, rfl⟩ := exists_trees_of_yields h
  cases OutputSet.mem_of_mem_putAll hmem with
  | inl hput =>
      obtain ⟨p, _, rfl⟩ := List.mem_map.1 hput
      exact ⟨p.2, hx⟩
  | inr hempty => exact absurd hempty List.not_mem_nil

theorem mergeable_of_yields {c : Component} (hc : c ∈ graph.components) :
    Cycle.Mergeable base c := by
  have hids : ∀ id ∈ c.members, id ∈ idsOf files := fun id hid =>
    (mem_vertices_of_yields h id).1 ((graph.members_sublist hc).subset hid)
  refine ⟨fun id hid => exists_direct_of_yields h (hids id hid), ?_, graph.members_nodup hc⟩
  intro id hid
  obtain ⟨file, _, rfl⟩ := List.mem_map.1 (hids id hid)
  exact ModuleId.suffixed_ofSource file.path

theorem taken_eq_collisions :
    Cycle.taken base (Component.cyclicOnly graph.components) = collisions files graph := by
  apply List.filter_congr
  intro c _
  rw [Bool.eq_iff_iff, base.has_iff_mem_ids, mem_base_ids_of_yields h, List.contains_iff_mem]

end

theorem exists_run_forM {α : Type} {f : α → Run Unit}
    (h : ∀ a j, ∃ j', (f a).run j = (.ok (), j')) (as : List α) (j : Journal) :
    ∃ j', (as.forM f).run j = (.ok (), j') := by
  induction as generalizing j with
  | nil => exact ⟨j, rfl⟩
  | cons a as ih =>
      obtain ⟨next, hnext⟩ := h a j
      obtain ⟨last, hlast⟩ := ih next
      exact ⟨last, (run_bind_ok hnext).trans hlast⟩

theorem run_mergeCycles {Tree : Type} (components : List Component) (base : OutputSet Tree)
    (j : Journal) : ∃ j', (mergeCycles components base).run j =
      ((Cycle.resolve base components).mapError fun fault =>
        .phase "Cycle merge error" (fault.toIssues .cycleMerge), j') := by
  rw [mergeCycles]
  obtain ⟨next, hnext⟩ := exists_run_forM (f := fun component : Component =>
    step "cycles" .info
      ("resolving circular dependencies in: " ++
        ", ".intercalate (component.members.map (·.path)))
      (some [("component", .number component.index), ("size", .number component.members.length)]))
    (fun _ _ => ⟨_, rfl⟩) (Component.cyclicOnly components) j
  rw [run_bind_ok hnext]
  cases Cycle.resolve base components with
  | ok resolution => exact ⟨next, rfl⟩
  | error fault =>
      exact ⟨_, run_bind_ok (run_reportIssues "cycles" (fault.toIssues .cycleMerge) next)⟩

/-- A conversion that has built its graph ends as merging the cycles does. -/
theorem run_of_graphPhases {signals : Signals} {options : Options} {files : List SourceFile}
    {graph : DependencyGraph} {base : OutputSet Module} {journal : Journal}
    (h : (graphPhases signals options files).run (begun options files) =
      (.ok (graph, base), journal)) :
    ∃ table, (run .actionScript signals options files).1 =
      ((Cycle.resolve base graph.components).mapError fun fault =>
        .phase "Cycle merge error" (fault.toIssues .cycleMerge)).map fun r =>
          ⟨options.runId, table, graph, graph.components, r.merged, r.output⟩ := by
  obtain ⟨parsed, j₁, hparsed, h⟩ := run_bind_eq_ok h
  obtain ⟨table, j₂, htable, h⟩ := run_bind_eq_ok h
  obtain ⟨trees, j₃, htrees, hbuild⟩ := run_bind_eq_ok h
  obtain ⟨last, hmerge⟩ := run_mergeCycles graph.components base journal
  refine ⟨table, ?_⟩
  have hbegun : (step "parse" .info s!"converting {files.length} files"
      (some [("run_id", .text options.runId), ("files", .number files.length)])).run
      Journal.empty = (.ok (), begun options files) := rfl
  rw [run, convert, run_bind_ok hbegun, run_bind_ok hparsed, run_bind_ok htable,
    run_bind_ok htrees, run_bind_ok hbuild]
  dsimp only
  cases hresolve : Cycle.resolve base graph.components with
  | ok resolution =>
      rw [hresolve] at hmerge
      rw [run_bind_ok hmerge]
      rfl
  | error fault =>
      rw [hresolve] at hmerge
      rw [run_bind_error hmerge]
      rfl

end Pipeline

namespace Emit

/-- Without cancellation all modules of an output set are rendered. -/
theorem exists_generate (out : OutputSet Module) : ∃ texts, generate .ok false out = .ok texts ∧
    List.Forall₂ (fun emitted text => module .ok emitted = .ok text) out.modules texts := by
  have hmodules : ∀ emitted : List (EmittedModule Module), ∃ texts,
      modules .ok emitted = (texts, []) ∧
        List.Forall₂ (fun emitted text => module .ok emitted = .ok text) emitted texts := by
    intro emitted
    induction emitted with
    | nil => exact ⟨[], rfl, .nil⟩
    | cons m rest ih =>
        obtain ⟨texts, hrest, hall⟩ := ih
        obtain ⟨text, htext, _⟩ := exists_demanding m
        refine ⟨text :: texts, ?_, .cons htext hall⟩
        rw [modules, hrest, htext]
  obtain ⟨texts, hmodules, hall⟩ := hmodules out.modules
  refine ⟨texts, ?_, hall⟩
  rw [generate, hmodules]
  rfl

end Emit

namespace Pipeline

/-- When all phases before merging end well, a conversion fails exactly if a file takes the id of
the merged module of some cyclic component; its fault then holds one issue for each such component,
in the order of the components. When it does not fail, all its modules are rendered. -/
theorem run_fails_iff_collision (signals : Signals) (options : Options) (files : List SourceFile)
    {graph : DependencyGraph} {base : OutputSet Module} {journal : Journal}
    (hphases : (graphPhases signals options files).run (begun options files) =
      (.ok (graph, base), journal)) :
    ((∃ fault, (run .actionScript signals options files).1 = .error fault) ↔
        ∃ c ∈ graph.components, c.cyclic = true ∧
          ∃ file ∈ files, ModuleId.ofSource file.path = Cycle.mergedId c.index) ∧
      (∀ fault, (run .actionScript signals options files).1 = .error fault →
        fault = .phase "Cycle merge error" ((collisions files graph).map Cycle.takenIssue)) ∧
      ∀ result, (run .actionScript signals options files).1 = .ok result →
        ∃ texts, Emit.generate .ok false result.output = .ok texts ∧
          List.Forall₂ (fun emitted text => Emit.module .ok emitted = .ok text)
            result.output.modules texts := by
  have hyields : Yields (graphPhases signals options files) (graph, base) := ⟨_, _, hphases⟩
  have hmergeable : ∀ c ∈ Component.cyclicOnly graph.components, Cycle.Mergeable base c :=
    fun c hc => mergeable_of_yields hyields (List.mem_of_mem_filter hc)
  obtain ⟨table, hrun⟩ := run_of_graphPhases hphases
  have hexists : (∃ c ∈ graph.components, c.cyclic = true ∧
      ∃ file ∈ files, ModuleId.ofSource file.path = Cycle.mergedId c.index) ↔
      collisions files graph ≠ [] := by
    simp only [ne_eq, List.eq_nil_iff_forall_not_mem, mem_collisions, not_forall, not_not]
  rw [hexists, hrun, ← taken_eq_collisions hyields]
  by_cases htaken : Cycle.taken base (Component.cyclicOnly graph.components) = []
  · obtain ⟨resolution, hresolve⟩ := Cycle.resolve_of_not_taken hmergeable htaken
    rw [hresolve, htaken]
    refine ⟨by simp [Except.mapError, Except.map], ?_, ?_⟩
    · intro fault hfault
      cases hfault
    · intro result _
      exact Emit.exists_generate result.output
  · rw [Cycle.resolve_of_taken hmergeable htaken]
    refine ⟨by simp [Except.mapError, Except.map, htaken], ?_, ?_⟩
    · intro fault hfault
      cases hfault
      rfl
    · intro result hresult
      cases hresult

/-- Two classes that need each other, and a file under the name of their merged module. -/
def collidingFiles : List SourceFile :=
  [⟨"a.as", "package \x7b public class A \x7b var b = B; \x7d \x7d"⟩,
   ⟨"b.as", "package \x7b class B \x7b var a = A; \x7d \x7d"⟩,
   ⟨"merged_0.as", "package p \x7b var d = A; \x7d"⟩]

theorem run_fails_iff_collision_merged : ∃ graph base journal,
    (graphPhases .quiet (.sequential .fail) collidingFiles).run
        (begun (.sequential .fail) collidingFiles) = (.ok (graph, base), journal) ∧
      (collisions collidingFiles graph).map (·.members) = [[⟨"a.js"⟩, ⟨"b.js"⟩]] ∧
      (run .actionScript .quiet (.sequential .fail) collidingFiles).1 =
        .error (.phase "Cycle merge error"
          ((collisions collidingFiles graph).map Cycle.takenIssue)) := by
  have hcomputed : ((graphPhases .quiet (.sequential .fail) collidingFiles).run
      (begun (.sequential .fail) collidingFiles)).1.toOption.map (fun built =>
        (collisions collidingFiles built.1).map (·.members)) = some [[⟨"a.js"⟩, ⟨"b.js"⟩]] := by
    decide +kernel
  cases hphases : (graphPhases .quiet (.sequential .fail) collidingFiles).run
      (begun (.sequential .fail) collidingFiles) with
  | mk outcome journal =>
      rw [hphases] at hcomputed
      cases outcome with
      | error fault => cases hcomputed
      | ok built =>
          obtain ⟨graph, base⟩ := built
          have hcollisions : (collisions collidingFiles graph).map (·.members) =
              [[⟨"a.js"⟩, ⟨"b.js"⟩]] := Option.some.inj hcomputed
          obtain ⟨hfails, hfault, _⟩ := run_fails_iff_collision _ _ collidingFiles hphases
          refine ⟨graph, base, journal, rfl, hcollisions, ?_⟩
          obtain ⟨c, hc⟩ : ∃ c, c ∈ collisions collidingFiles graph := by
            apply List.exists_mem_of_ne_nil
            intro hnil
            rw [hnil] at hcollisions
            cases hcollisions
          obtain ⟨hcMem, htaken⟩ := mem_collisions.1 hc
          obtain ⟨fault, hrun⟩ := hfails.2 ⟨c, hcMem, htaken⟩
          rw [hrun, hfault fault hrun]

end Pipeline
end ScriptWeave
