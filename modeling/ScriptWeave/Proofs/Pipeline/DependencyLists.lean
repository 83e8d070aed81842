import ScriptWeave.Proofs.Pipeline.LinkSoundness

/-!
Dependency lists against the graph of the emitted modules. The header of a direct or merged module
is computed from the uses of symbols, the graph from weighted edges that are carried over to merged
modules and redirects; both name the same modules.
-/

namespace ScriptWeave

open Resolve (Module)

namespace Cycle

variable {Tree : Type} {base out : OutputSet Tree} {g : DependencyGraph}

/-- Only a member of a cyclic component is a redirect, and it leads to the merged module. -/
theorem Resolved.owner_eq_some (h : Resolved base g out)
    (hdirect : ∀ m ∈ base.modules, m.kind = .direct) (hids : ∀ id, id ∈ g.vertices ↔ id ∈ base.ids)
    {u o : ModuleId} (howner : owner? out u = some o) :
    ∃ c ∈ g.components, c.cyclic = true ∧ u ∈ c.members ∧ o = mergedId c.index := by
  obtain ⟨key, hget⟩ := (owner?_eq_some_iff out u o).1 howner
  have hu := (out.mem_ids_iff u).2 ⟨_, hget⟩
  rw [h.ids_eq, List.mem_append] at hu
  cases hu with
  | inl hu =>
      obtain ⟨c, hc, hmem, ⟨_, hnone⟩ | ⟨hcyclic, hall⟩⟩ := h.vertex_cases hdirect ((hids u).2 hu)
      · rw [hnone] at howner
        cases howner
      · rw [hall u hmem] at howner
        cases howner
        exact ⟨c, List.mem_of_getElem? hc, hcyclic, hmem, rfl⟩
  | inr hu =>
      obtain ⟨c, hc, rfl⟩ := List.mem_map.1 hu
      obtain ⟨hcMem, hcyclic⟩ := List.mem_filter.1 hc
      obtain ⟨m, hm, hmerged, _⟩ := h.merged c hcMem hcyclic
      rw [← hm.id_eq, hmerged] at hget
      cases hget

/-- The redirects to a merged module are the members of its component. -/
theorem Resolved.owner_eq_mergedId_iff (h : Resolved base g out)
    (hdirect : ∀ m ∈ base.modules, m.kind = .direct) (hids : ∀ id, id ∈ g.vertices ↔ id ∈ base.ids)
    {c : Component} (hc : c ∈ g.components) (hcyclic : c.cyclic = true) (u : ModuleId) :
    owner? out u = some (mergedId c.index) ↔ u ∈ c.members := by
  constructor
  · intro howner
    obtain ⟨d, hd, _, hmem, hid⟩ := h.owner_eq_some hdirect hids howner
    rwa [g.component_eq_of_index_eq hc hd (mergedId_injective hid)]
  · intro hu
    obtain ⟨m, hm, _, hredirects⟩ := h.merged c hc hcyclic
    rw [← hm.member_ids] at hu
    obtain ⟨x, hx, rfl⟩ := List.mem_map.1 hu
    exact (owner?_eq_some_iff out _ _).2 ⟨x.key, hm.id_eq ▸ hredirects x hx⟩

theorem Resolved.mem_out_of_vertex (h : Resolved base g out)
    (hids : ∀ id, id ∈ g.vertices ↔ id ∈ base.ids) {v : ModuleId} (hv : v ∈ g.vertices) :
    v ∈ out.ids := by
  rw [h.ids_eq]
  exact List.mem_append_left _ ((hids v).1 hv)

section

variable (h : Resolved base g out) (hdirect : ∀ m ∈ base.modules, m.kind = .direct)
  (hids : ∀ id, id ∈ g.vertices ↔ id ∈ base.ids)
include h hdirect hids

/-- A module that was kept has the edges that it had. -/
theorem Resolved.leads_kept {id v : ModuleId} (hid : id ∈ g.vertices)
    (hnone : owner? out id = none) :
    (resolvedGraph g out).Leads id v ↔ g.Leads id v := by
  rw [leads_resolvedGraph, hnone]
  constructor
  · intro hleads
    obtain ⟨⟨source, hleads, hcarried⟩ | hfalse, _⟩ := hleads
    · rw [Carried] at hcarried
      split at hcarried
      · exact hcarried ▸ hleads
      · next owner howner =>
          obtain ⟨c, hc, hcyclic, _, rfl⟩ := h.owner_eq_some hdirect hids howner
          have hfresh := h.mergedId_fresh (fun id => (hids id).1) hc hcyclic
          exact absurd (hcarried.1 ▸ hid) hfresh
    · cases hfalse
  · intro hleads
    refine ⟨Or.inl ⟨id, hleads, ?_⟩, h.mem_out_of_vertex hids hid,
      h.mem_out_of_vertex hids hleads.target_mem⟩
    rw [Carried, hnone]

/-- A merged module has the edges of its members that lead out of its component. -/
theorem Resolved.leads_mergedId {c : Component} (hc : c ∈ g.components) (hcyclic : c.cyclic = true)
    (v : ModuleId) :
    (resolvedGraph g out).Leads (mergedId c.index) v ↔
      (∃ source ∈ c.members, g.Leads source v) ∧ v ∉ c.members := by
  have hmember := h.owner_eq_mergedId_iff hdirect hids hc hcyclic
  have hfresh := h.mergedId_fresh (fun id => (hids id).1) hc hcyclic
  have hown : owner? out (mergedId c.index) = none := by
    rw [Option.eq_none_iff_forall_ne_some]
    intro o howner
    obtain ⟨d, hd, _, hmem, _⟩ := h.owner_eq_some hdirect hids howner
    exact hfresh ((g.members_sublist hd).subset hmem)
  rw [leads_resolvedGraph, hown]
  constructor
  · intro hleads
    obtain ⟨⟨source, hleads, hcarried⟩ | hfalse, _⟩ := hleads
    · rw [Carried] at hcarried
      split at hcarried
      · exact absurd (hcarried ▸ hleads.source_mem) hfresh
      · next owner howner =>
          obtain ⟨rfl, hother⟩ := hcarried
          rw [Ne, (suffixed_mergedId _).getD_eq_iff, hmember] at hother
          exact ⟨⟨source, (hmember source).1 howner, hleads⟩, hother⟩
    · cases hfalse
  · intro hleads
    obtain ⟨⟨source, hsource, hleads⟩, hother⟩ := hleads
    refine ⟨Or.inl ⟨source, hleads, ?_⟩, ?_, h.mem_out_of_vertex hids hleads.target_mem⟩
    · rw [Carried, (hmember source).2 hsource]
      refine ⟨rfl, ?_⟩
      rw [Ne, (suffixed_mergedId _).getD_eq_iff, hmember]
      exact hother
    · rw [h.ids_eq]
      exact List.mem_append_right _ (List.mem_map.2 ⟨c, List.mem_filter.2 ⟨hc, hcyclic⟩, rfl⟩)

/-- A redirect has one edge, to its target. -/
theorem Resolved.leads_redirect {id target : ModuleId} (howner : owner? out id = some target)
    (v : ModuleId) : (resolvedGraph g out).Leads id v ↔ v = target := by
  obtain ⟨c, hc, hcyclic, hmem, rfl⟩ := h.owner_eq_some hdirect hids howner
  have hid := (g.members_sublist hc).subset hmem
  rw [leads_resolvedGraph, howner]
  constructor
  · intro hleads
    obtain ⟨⟨source, hleads, hcarried⟩ | hedge, _⟩ := hleads
    · rw [Carried] at hcarried
      split at hcarried
      · next hnone =>
          rw [← hcarried, howner] at hnone
          cases hnone
      · next owner howner' =>
          obtain ⟨d, hd, hdcyclic, _, rfl⟩ := h.owner_eq_some hdirect hids howner'
          have hfresh := h.mergedId_fresh (fun id => (hids id).1) hd hdcyclic
          exact absurd (hcarried.1 ▸ hid) hfresh
    · exact (Option.some.inj hedge).symm
  · rintro rfl
    refine ⟨Or.inr rfl, h.mem_out_of_vertex hids hid, ?_⟩
    rw [h.ids_eq]
    exact List.mem_append_right _ (List.mem_map.2 ⟨c, List.mem_filter.2 ⟨hc, hcyclic⟩, rfl⟩)

end

end Cycle

namespace Emit

/-- The modules that an emitted module asks its loader for, in the order of its parameters. -/
def required : EmittedModule Module → List ModuleId
  | .direct id m => Direct.dependencies id m
  | .merged merged => Merged.dependencies merged.members
  | .redirect _ target _ => [target]

/-- The paths in the header of an emitted module. -/
def headerPaths (emitted : EmittedModule Module) : List String :=
  (required emitted).map (·.logicalName)

/-- The comment before the header of an emitted module. -/
def banner : EmittedModule Module → String
  | .direct _ m => "// Code generated by as2amd from " ++ m.source.path ++ ". DO NOT EDIT.\n"
  | .merged merged => "// Code generated by as2amd from " ++ toString merged.members.length
      ++ " mutually dependent modules. DO NOT EDIT.\n"
  | .redirect _ _ _ => "// Code generated by as2amd. DO NOT EDIT.\n"

/-- The beginning of a factory that asks for the paths, in their order. -/
def demand (paths : List String) : String :=
  "define([" ++ ", ".intercalate (paths.map Text.JsonString.literal) ++ "], function ("

/-- After its comment the text asks for the paths and for nothing else. -/
def Demands (emitted : EmittedModule Module) (content : String) (paths : List String) : Prop :=
  ∃ rest, content = banner emitted ++ demand paths ++ rest

theorem map_path_dependencyList (ids : List ModuleId) :
    (dependencyList ids).map (·.path) = ids.map (·.logicalName) := by
  rw [dependencyList, List.map_map]
  conv_rhs => rw [← List.zipIdx_map_fst 0 ids, List.map_map]
  rfl

theorem defineHeader_dependencyList (ids : List ModuleId) :
    defineHeader (dependencyList ids) = demand (ids.map (·.logicalName)) ++
      (", ".intercalate ((dependencyList ids).map (·.var)) ++ ") \x7b\n") := by
  have hpaths : (dependencyList ids).map (fun d => Text.JsonString.literal d.path) =
      (ids.map (·.logicalName)).map Text.JsonString.literal := by
    rw [← map_path_dependencyList, List.map_map]
    rfl
  rw [defineHeader, hpaths, demand]
  simp only [String.append_assoc]

theorem module_eq_of_content {emitted : EmittedModule Module} {text : String}
    (h : content .ok emitted = .ok text) :
    module .ok emitted = .ok ⟨emitted.id, emitted.kind, text⟩ := by
  rw [module, h]

theorem demands_direct (id : ModuleId) (m : Module) :
    Demands (.direct id m) (Direct.render id m) (headerPaths (.direct id m)) := by
  unfold Demands Direct.render DirectData.render banner
  rw [defineHeader_dependencyList]
  simp only [String.append_assoc]
  exact ⟨_, rfl⟩

theorem demands_merged (merged : MergedModule Module) :
    Demands (.merged merged) (Merged.render merged.members) (headerPaths (.merged merged)) := by
  unfold Demands Merged.render MergedData.render banner
  rw [defineHeader_dependencyList, List.length_map]
  simp only [String.append_assoc]
  exact ⟨_, rfl⟩

theorem demands_redirect (id target : ModuleId) (key : String) :
    Demands (.redirect id target key) (RedirectData.render ⟨target.logicalName, key⟩)
      (headerPaths (.redirect id target key)) := by
  have hparameter : "], function (merged) \x7b\n" = "], function (" ++ "merged) \x7b\n" := rfl
  unfold Demands RedirectData.render banner headerPaths required demand
  rw [hparameter, List.map_singleton, List.map_singleton, String.intercalate_singleton]
  simp only [String.append_assoc]
  exact ⟨_, rfl⟩

/-- Every emitted module is rendered, and its text asks for the paths of its header. -/
theorem exists_demanding (emitted : EmittedModule Module) :
    ∃ text, module .ok emitted = .ok text ∧ text.id = emitted.id ∧
      Demands emitted text.content (headerPaths emitted) := by
  cases emitted with
  | direct id m => exact ⟨_, module_eq_of_content rfl, rfl, demands_direct id m⟩
  | merged merged =>
      have hcontent : content .ok (.merged merged) = .ok (Merged.render merged.members) := by
        rw [content, mapM_readMember]
        rfl
      exact ⟨_, module_eq_of_content hcontent, rfl, demands_merged merged⟩
  | redirect id target key =>
      exact ⟨_, module_eq_of_content rfl, rfl, demands_redirect id target key⟩

/-- The header of an emitted module agrees with the graph: it asks for the successors of the module
and for nothing else, all of them are emitted, none is asked for twice, and a direct module neither
asks for itself nor refers to its own exports as to those of another module. -/
structure HeaderAgrees (graph : DependencyGraph) (out : OutputSet Module)
    (emitted : EmittedModule Module) (content : String) : Prop where
  demands : Demands emitted content (headerPaths emitted)
  mem_iff : ∀ path, path ∈ headerPaths emitted ↔
    ∃ v ∈ graph.successors emitted.id, v.logicalName = path
  all_emitted : ∀ path ∈ headerPaths emitted, ∃ id ∈ out.ids, id.logicalName = path
  nodup : (headerPaths emitted).Nodup
  no_self : ∀ id m, emitted = .direct id m →
    id.logicalName ∉ headerPaths emitted ∧ ∀ s ∈ Piece.symbols (Direct.body m), s.exportPath ≠ id

theorem nodup_required (emitted : EmittedModule Module) : (required emitted).Nodup := by
  cases emitted with
  | direct id m => exact (Resolve.nodup_distinct _).filter _
  | merged merged => exact Resolve.nodup_distinct _
  | redirect id target key => exact List.nodup_singleton target

end Emit

namespace Pipeline
namespace Conversion

open ScriptWeave.Cycle (mergedId resolvedGraph)

variable {files : List SourceFile} {result : Result Module}
  (c : Conversion .actionScript files result)
include c

theorem base_direct : ∀ m ∈ c.base.modules, m.kind = .direct := by
  intro m hm
  have hget := (c.base.get?_eq_some_iff m.id m).2 ⟨hm, rfl⟩
  obtain ⟨tree, _, _, heq⟩ := c.exists_tree_of_base_get? hget
  rw [heq]
  rfl

theorem suffixed_of_mem {id : ModuleId} (hid : id ∈ result.output.ids) : id.Suffixed := by
  rw [c.resolved.ids_eq, List.mem_append] at hid
  cases hid with
  | inl hid =>
      rw [c.mem_base_ids_iff] at hid
      obtain ⟨file, _, rfl⟩ := List.mem_map.1 hid
      exact ModuleId.suffixed_ofSource _
  | inr hid =>
      obtain ⟨d, _, rfl⟩ := List.mem_map.1 hid
      exact Cycle.suffixed_mergedId _

variable (hids : (idsOf files).Nodup)
include hids

/-- The edges of a source module are its dependencies. -/
theorem leads_source_iff {m : Module} (hm : m ∈ c.trees) (v : ModuleId) :
    result.graph.Leads m.source.id v ↔ v ∈ m.dependencies := by
  rw [c.leads_iff, Resolve.Module.mem_dependencies]
  constructor
  · intro h
    obtain ⟨x, hx, hid, huse⟩ := h
    rw [← c.tree_eq_of_source_id hids hx hm hid]
    exact huse
  · intro h
    exact ⟨m, hm, rfl, h⟩

theorem required_direct_iff {id : ModuleId} {m : Module}
    (hget : result.output.get? id = some (.direct id m)) (v : ModuleId) :
    v ∈ Emit.Direct.dependencies id m ↔ (resolvedGraph result.graph result.output).Leads id v := by
  obtain ⟨htree, rfl, hother⟩ := c.direct_cases hget
  have hvertex : m.source.id ∈ result.graph.vertices := by
    rw [c.mem_vertices_iff, c.ids_eq]
    exact List.mem_map.2 ⟨m, htree, rfl⟩
  have hnone : Cycle.owner? result.output m.source.id = none := by
    rw [Cycle.owner?, hget]
  rw [c.resolved.leads_kept c.base_direct c.mem_vertices_iff_mem_base hvertex hnone,
    c.leads_source_iff hids htree, Emit.Direct.dependencies, List.mem_filter]
  constructor
  · exact And.left
  · intro hv
    obtain ⟨s, hs, rfl⟩ := Resolve.Module.mem_dependencies.1 hv
    exact ⟨hv, decide_eq_true (hother s hs)⟩

theorem required_merged_iff {id : ModuleId} {merged : MergedModule Module}
    (hget : result.output.get? id = some (.merged merged)) (v : ModuleId) :
    v ∈ Emit.Merged.dependencies merged.members ↔
      (resolvedGraph result.graph result.output).Leads id v := by
  obtain ⟨d, hd, hcyclic, hm⟩ := c.merged_cases hget
  have hid : id = mergedId d.index := by
    rw [← hm.id_eq]
    exact ((result.output.get?_eq_some_iff _ _).1 hget).2.symm
  rw [hid, c.resolved.leads_mergedId c.base_direct c.mem_vertices_iff_mem_base hd hcyclic,
    Emit.Merged.mem_dependencies, ← hm.member_ids]
  refine and_congr ?_ (by simp)
  constructor
  · intro h
    obtain ⟨member, hmember, hv⟩ := h
    obtain ⟨htree, hsource⟩ := c.member_mem_trees hm hmember
    refine ⟨member.id, List.mem_map.2 ⟨member, hmember, rfl⟩, ?_⟩
    rw [← hsource, c.leads_source_iff hids htree]
    exact hv
  · intro h
    obtain ⟨source, hsource, hleads⟩ := h
    obtain ⟨member, hmember, rfl⟩ := List.mem_map.1 hsource
    obtain ⟨htree, hid⟩ := c.member_mem_trees hm hmember
    rw [← hid, c.leads_source_iff hids htree] at hleads
    exact ⟨member, hmember, hleads⟩

theorem mem_required_iff {emitted : EmittedModule Module} (hmem : emitted ∈ result.output.modules)
    (v : ModuleId) : v ∈ Emit.required emitted ↔
      v ∈ (resolvedGraph result.graph result.output).successors emitted.id := by
  have hget := (result.output.get?_eq_some_iff emitted.id emitted).2 ⟨hmem, rfl⟩
  rw [DependencyGraph.mem_successors]
  cases emitted with
  | direct id m => exact c.required_direct_iff hids hget v
  | merged merged => exact c.required_merged_iff hids hget v
  | redirect id target key =>
      have howner := (Cycle.owner?_eq_some_iff result.output id target).2 ⟨key, hget⟩
      rw [Emit.required, List.mem_singleton]
      exact (c.resolved.leads_redirect c.base_direct c.mem_vertices_iff_mem_base howner v).symm

theorem mem_ids_of_mem_required {emitted : EmittedModule Module}
    (hmem : emitted ∈ result.output.modules) {v : ModuleId} (hv : v ∈ Emit.required emitted) :
    v ∈ result.output.ids := by
  rw [c.mem_required_iff hids hmem, DependencyGraph.mem_successors] at hv
  exact ((Cycle.leads_resolvedGraph _ _ _ _).1 hv).2.2

theorem headerAgrees {emitted : EmittedModule Module} (hmem : emitted ∈ result.output.modules)
    {content : String} (hdemands : Emit.Demands emitted content (Emit.headerPaths emitted)) :
    Emit.HeaderAgrees (resolvedGraph result.graph result.output) result.output emitted content := by
  have hsuffixed : ∀ v ∈ Emit.required emitted, v.Suffixed := fun v hv =>
    c.suffixed_of_mem (c.mem_ids_of_mem_required hids hmem hv)
  refine ⟨hdemands, ?_, ?_, ?_, ?_⟩
  · intro path
    rw [Emit.headerPaths, List.mem_map]
    simp only [c.mem_required_iff hids hmem]
  · intro path hpath
    obtain ⟨v, hv, rfl⟩ := List.mem_map.1 hpath
    exact ⟨v, c.mem_ids_of_mem_required hids hmem hv, rfl⟩
  · refine (Emit.nodup_required emitted).map_on ?_
    intro a ha b hb hab
    exact (hsuffixed a ha).eq_of_logicalName_eq (hsuffixed b hb) hab
  · rintro id m rfl
    have hget := (result.output.get?_eq_some_iff id _).2 ⟨hmem, rfl⟩
    obtain ⟨_, _, hother⟩ := c.direct_cases hget
    refine ⟨?_, fun s hs => hother s (Emit.mem_uses_of_mem_symbols hs)⟩
    intro hself
    obtain ⟨v, hv, hname⟩ := List.mem_map.1 hself
    have hid := c.suffixed_of_mem (OutputSet.mem_ids_of_mem hmem)
    have hne := (List.mem_filter.1 hv).2
    exact of_decide_eq_true hne ((hsuffixed v hv).eq_of_logicalName_eq hid hname)

end Conversion

/-- Every module that a conversion emits is rendered, and the dependency list of its text agrees
with the graph of the emitted modules. -/
theorem dependencyLists_agree (signals : Signals) (options : Options) (files : List SourceFile)
    (hids : (files.map fun file => ModuleId.ofSource file.path).Nodup) {result : Result Module}
    {journal : Journal} (hrun : run .actionScript signals options files = (.ok result, journal)) :
    ∀ emitted ∈ result.output.modules, ∃ text, Emit.module .ok emitted = .ok text ∧
      text.id = emitted.id ∧ Emit.HeaderAgrees (Cycle.resolvedGraph result.graph result.output)
        result.output emitted text.content := by
  obtain ⟨c⟩ := nonempty_conversion hrun
  intro emitted hmem
  obtain ⟨text, htext, hid, hdemands⟩ := Emit.exists_demanding emitted
  exact ⟨text, htext, hid, c.headerAgrees hids hmem hdemands⟩

theorem dependencyLists_agree_loop : ∃ result journal texts,
    run .actionScript .quiet (.sequential .fail) loopFiles = (.ok result, journal) ∧
      Emit.generate .ok false result.output = .ok texts ∧
      texts.map (fun text => (text.id.path, text.kind)) =
        [("a.js", .redirect), ("b.js", .redirect), ("d.js", .direct), ("merged_0.js", .merged)] ∧
      ∀ emitted ∈ result.output.modules, ∃ text, Emit.module .ok emitted = .ok text ∧
        text.id = emitted.id ∧ Emit.HeaderAgrees (Cycle.resolvedGraph result.graph result.output)
          result.output emitted text.content := by
  obtain ⟨texts, hsome, htexts⟩ := Option.map_eq_some_iff.1 generated?_loop
  obtain ⟨result, journal, hrun, hgen⟩ := generated?_eq_some hsome
  exact ⟨result, journal, texts, hrun, hgen, htexts,
    dependencyLists_agree _ _ loopFiles (by decide) hrun⟩

end Pipeline
end ScriptWeave
