import ScriptWeave.Proofs.Cycle.ResolvedGraph
import ScriptWeave.Proofs.Emit.Linking
import ScriptWeave.Proofs.Emit.Symbols
import ScriptWeave.Proofs.Pipeline.ActionScript

/-!
Link soundness. Whatever the code of an emitted module reads off a parameter or off the table of a
merged module is exported there: by the file of a source module, or by the member that a redirect
leads to.
-/

namespace ScriptWeave

open Resolve (Module)

/-- Exactly one member has the key, and its file declares the name. -/
def MergedModule.Provides (m : MergedModule Module) (key name : String) : Prop :=
  ∃ member, m.members.filter (·.key = key) = [member] ∧ name ∈ member.tree.exportNames

/-- The module emitted under the id exports the name, by itself or through a redirect. -/
def OutputSet.Exports (out : OutputSet Module) (id : ModuleId) (name : String) : Prop :=
  (∃ m, out.get? id = some (.direct id m) ∧ name ∈ m.exportNames) ∨
    ∃ target key merged, out.get? id = some (.redirect id target key) ∧
      out.get? target = some (.merged merged) ∧ merged.Provides key name

namespace Emit

/-- The content is the text of the emitted module, and every symbol in its code is spelled as a
reference to something that exists: an export of the dependency at the position of the parameter,
or inside of a merged module an export of a member. -/
def Linked (out : OutputSet Module) (content : String) : EmittedModule Module → Prop
  | .direct id m =>
      content = DirectData.render
        { source := m.source.path
          deps := dependencyList (Direct.dependencies id m)
          body := Piece.renderAll (Direct.link id m) (Direct.body m)
          exports := m.exportNames } ∧
      ∀ s ∈ Piece.symbols (Direct.body m),
        ReadsParameter (Direct.dependencies id m) s (Direct.link id m s) ∧
          out.Exports s.exportPath s.name
  | .merged merged =>
      content = MergedData.render
        { deps := dependencyList (Merged.dependencies merged.members)
          members := merged.members.map fun member =>
            { key := member.key
              body := Piece.renderAll (Merged.link merged.members) (Merged.body member.tree)
              exports := member.tree.exportNames } } ∧
      ∀ member ∈ merged.members, ∀ s ∈ Piece.symbols (Merged.body member.tree),
        ReadsParameter (Merged.dependencies merged.members) s (Merged.link merged.members s) ∧
            out.Exports s.exportPath s.name ∨
          ∃ key, Merged.link merged.members s =
              "__merged[" ++ Text.JsonString.literal key ++ "]." ++ s.name ∧
            merged.Provides key s.name
  | .redirect _ target key => content = RedirectData.render ⟨target.logicalName, key⟩

end Emit

namespace Pipeline
namespace Conversion

open ScriptWeave.Cycle (Merges Resolved)
open Emit (Linked)

variable {files : List SourceFile} {result : Result Module}
  (c : Conversion .actionScript files result)
include c

/-- A module outside of all cycles uses nothing of its own through the table. -/
theorem exportPath_ne_of_not_cyclic {m : Module} (hm : m ∈ c.trees) {d : Component}
    (hd : d ∈ result.graph.components) (hcyclic : d.cyclic = false)
    (hmem : m.source.id ∈ d.members) {s : Symbol} (hs : s ∈ m.uses) :
    s.exportPath ≠ m.source.id := by
  intro heq
  have hleads : result.graph.Leads m.source.id m.source.id :=
    (c.leads_iff _ _).2 ⟨m, hm, rfl, s, hs, heq⟩
  obtain ⟨k, hk⟩ := List.mem_iff_getElem?.1 hd
  have hplace := result.graph.place_eq hk hmem
  rw [← hplace] at hk
  have hlt := Cycle.place_lt_of_not_cyclic hk hmem hcyclic hleads
  exact Nat.lt_irrefl _ hlt

theorem mem_vertices_iff_mem_base (id : ModuleId) :
    id ∈ result.graph.vertices ↔ id ∈ c.base.ids := by
  rw [c.mem_vertices_iff, c.mem_base_ids_iff]

theorem resolved : Resolved c.base result.graph result.output :=
  Cycle.resolve_resolved (fun id h => (c.mem_vertices_iff_mem_base id).1 h) c.merge_eq

theorem member_mem_trees {d : Component} {m : MergedModule Module} (hm : Merges c.base d m)
    {x : MergedMember Module} (hx : x ∈ m.members) :
    x.tree ∈ c.trees ∧ x.tree.source.id = x.id := by
  obtain ⟨tree, htree, hid, heq⟩ := c.exists_tree_of_base_get? (hm.standsFor x hx).2
  cases heq
  exact ⟨htree, hid⟩

/-- What a direct module of the output is: a source module outside of all cycles. -/
theorem direct_cases {id : ModuleId} {m : Module}
    (hget : result.output.get? id = some (.direct id m)) :
    m ∈ c.trees ∧ m.source.id = id ∧ ∀ s ∈ m.uses, s.exportPath ≠ id := by
  obtain ⟨d, hd, hcyclic, hmem, hbase⟩ | ⟨d, _, _, merged, _, hx⟩ :=
    c.resolved.get?_cases c.mem_vertices_iff_mem_base hget
  · obtain ⟨tree, htree, hid, heq⟩ := c.exists_tree_of_base_get? hbase
    cases heq
    subst hid
    exact ⟨htree, rfl, fun s hs => c.exportPath_ne_of_not_cyclic htree hd hcyclic hmem hs⟩
  · cases hx with
    | inl hx => cases hx
    | inr hx =>
        obtain ⟨y, _, hx⟩ := hx
        cases hx

theorem merged_cases {id : ModuleId} {merged : MergedModule Module}
    (hget : result.output.get? id = some (.merged merged)) :
    ∃ d ∈ result.graph.components, d.cyclic = true ∧ Cycle.Merges c.base d merged := by
  obtain ⟨d, _, _, _, hbase⟩ | ⟨d, hd, hcyclic, m, hm, hx⟩ :=
    c.resolved.get?_cases c.mem_vertices_iff_mem_base hget
  · obtain ⟨tree, _, _, heq⟩ := c.exists_tree_of_base_get? hbase
    cases heq
  · cases hx with
    | inl hx =>
        cases hx
        exact ⟨d, hd, hcyclic, hm⟩
    | inr hx =>
        obtain ⟨y, _, hx⟩ := hx
        cases hx

variable (hids : (idsOf files).Nodup)
include hids

theorem tree_eq_of_source_id {m x : Module} (hm : m ∈ c.trees) (hx : x ∈ c.trees)
    (h : m.source.id = x.source.id) : m = x := by
  rw [c.ids_eq] at hids
  exact List.inj_on_of_nodup_map hids hm hx h

theorem provides_of_member {d : Component} {m : MergedModule Module} (hm : Merges c.base d m)
    {x : MergedMember Module} (hx : x ∈ m.members) {tree : Module} (htree : tree ∈ c.trees)
    (hid : tree.source.id = x.id) {name : String} (hname : name ∈ tree.exportNames) :
    m.Provides x.key name := by
  obtain ⟨hxtree, hxid⟩ := c.member_mem_trees hm hx
  have hsame := c.tree_eq_of_source_id hids htree hxtree (hid.trans hxid.symm)
  exact ⟨x, Cycle.filter_key_eq_singleton hm.nodup_keys hx, hsame ▸ hname⟩

/-- What a module uses is exported by the module that is emitted under its id. -/
theorem exports_of_mem_uses {m : Module} (hm : m ∈ c.trees) {s : Symbol} (hs : s ∈ m.uses) :
    result.output.Exports s.exportPath s.name := by
  obtain ⟨x, hx, hid, hname⟩ := c.exported_of_mem_uses hm hs
  have hvertex := (c.mem_vertices_iff _).2 (c.exportPath_mem_ids hm hs)
  obtain ⟨k, d, hk, hmem⟩ := result.graph.exists_component_of_vertex hvertex
  have hd := List.mem_of_getElem? hk
  have hresolved := c.resolved
  cases hcyclic : d.cyclic with
  | false =>
      refine Or.inl ⟨x, ?_, hname⟩
      rw [hresolved.kept d hd hcyclic _ hmem]
      exact (c.base_get?_eq_some_iff hids _ _).2 ⟨x, hx, hid, rfl⟩
  | true =>
      obtain ⟨merged, hmerges, hmerged, hredirect⟩ := hresolved.merged d hd hcyclic
      rw [← hmerges.member_ids] at hmem
      obtain ⟨y, hy, hyid⟩ := List.mem_map.1 hmem
      refine Or.inr ⟨merged.id, y.key, merged, ?_, hmerged, ?_⟩
      · rw [← hyid]
        exact hredirect y hy
      · exact c.provides_of_member hids hmerges hy hx (hid.trans hyid.symm) hname

theorem linked_direct {id : ModuleId} {m : Module}
    (hget : result.output.get? id = some (.direct id m)) :
    Linked result.output (Emit.Direct.render id m) (.direct id m) := by
  refine ⟨rfl, ?_⟩
  intro s hs
  have huse := Emit.mem_uses_of_mem_symbols hs
  obtain ⟨htree, _, hother⟩ := c.direct_cases hget
  exact ⟨Emit.Direct.readsParameter_link huse (hother s huse), c.exports_of_mem_uses hids
    htree huse⟩

theorem linked_merged {id : ModuleId} {merged : MergedModule Module}
    (hget : result.output.get? id = some (.merged merged)) :
    Linked result.output (Emit.Merged.render merged.members) (.merged merged) := by
  refine ⟨rfl, ?_⟩
  intro member hmember s hs
  have huse := Emit.mem_uses_of_mem_symbols hs
  obtain ⟨d, _, _, hm⟩ := c.merged_cases hget
  obtain ⟨hmtree, _⟩ := c.member_mem_trees hm hmember
  cases Emit.Merged.reads_link hmember huse with
  | inl hreads => exact Or.inl ⟨hreads, c.exports_of_mem_uses hids hmtree huse⟩
  | inr hreads =>
      obtain ⟨x, hx, hxid, hlink⟩ := hreads
      obtain ⟨tree, htree, hid, hname⟩ := c.exported_of_mem_uses hmtree huse
      refine Or.inr ⟨x.key, hlink, ?_⟩
      exact c.provides_of_member hids hm hx htree (hid.trans hxid.symm) hname

theorem linked_of_content {emitted : EmittedModule Module} {content : String}
    (hmem : emitted ∈ result.output.modules) (h : Emit.content .ok emitted = .ok content) :
    Linked result.output content emitted := by
  have hget := (result.output.get?_eq_some_iff emitted.id emitted).2 ⟨hmem, rfl⟩
  cases emitted with
  | direct id m =>
      cases h
      exact c.linked_direct hids hget
  | merged merged =>
      rw [Emit.content, Emit.mapM_readMember] at h
      cases h
      exact c.linked_merged hids hget
  | redirect id target key => exact (Except.ok.inj h).symm

end Conversion

/-- Every text that is generated for a converted project belongs to one emitted module, and all of
its references to other modules lead to exports. -/
theorem generated_links_sound (signals : Signals) (options : Options) (files : List SourceFile)
    (hids : (files.map fun file => ModuleId.ofSource file.path).Nodup) {result : Result Module}
    {journal : Journal} (hrun : run .actionScript signals options files = (.ok result, journal))
    {cancelled : Bool} {texts : List GeneratedModule}
    (hgen : Emit.generate .ok cancelled result.output = .ok texts) :
    List.Forall₂ (fun emitted text => text.id = emitted.id ∧ text.kind = emitted.kind ∧
      Emit.Linked result.output text.content emitted) result.output.modules texts := by
  obtain ⟨c⟩ := nonempty_conversion hrun
  have hmem : ∀ emitted ∈ result.output.modules, emitted ∈ result.output.modules := fun _ h => h
  have htexts := (List.forall₂_and_left _ _).2 ⟨hmem, Emit.generate_ok hgen⟩
  refine htexts.imp ?_
  intro emitted text h
  obtain ⟨hid, hkind, hcontent⟩ := Emit.module_ok h.2
  exact ⟨hid, hkind, c.linked_of_content hids h.1 hcontent⟩

/-- Two classes that refer to each other, and a variable elsewhere that refers to one of them. -/
def loopFiles : List SourceFile :=
  [⟨"a.as", "package \x7b public class A \x7b var b = B; \x7d \x7d"⟩,
   ⟨"b.as", "package \x7b class B \x7b var a = A; \x7d \x7d"⟩,
   ⟨"d.as", "package p \x7b var d = A; \x7d"⟩]

/-- The modules that are generated for a project, if it converts. -/
def generated? (options : Options) (files : List SourceFile) : Option (List GeneratedModule) := do
  let result ← (run .actionScript .quiet options files).1.toOption
  (Emit.generate .ok false result.output).toOption

theorem generated?_eq_some {options : Options} {files : List SourceFile}
    {texts : List GeneratedModule} (h : generated? options files = some texts) :
    ∃ result journal, run .actionScript .quiet options files = (.ok result, journal) ∧
      Emit.generate .ok false result.output = .ok texts := by
  rw [generated?] at h
  match hrun : run .actionScript .quiet options files with
  | (.error fault, journal) =>
      rw [hrun] at h
      cases h
  | (.ok result, journal) =>
      rw [hrun] at h
      refine ⟨result, journal, rfl, ?_⟩
      match hgen : Emit.generate .ok false result.output with
      | .error fault => simp [hgen, Except.toOption] at h
      | .ok texts' => simpa [hgen, Except.toOption] using h

theorem generated?_loop :
    (generated? (.sequential .fail) loopFiles).map (·.map fun text => (text.id.path, text.kind)) =
      some [("a.js", .redirect), ("b.js", .redirect), ("d.js", .direct),
        ("merged_0.js", .merged)] := by
  decide +kernel

theorem generated_links_sound_loop : ∃ result journal texts,
    run .actionScript .quiet (.sequential .fail) loopFiles = (.ok result, journal) ∧
      Emit.generate .ok false result.output = .ok texts ∧
      texts.map (fun text => (text.id.path, text.kind)) =
        [("a.js", .redirect), ("b.js", .redirect), ("d.js", .direct), ("merged_0.js", .merged)] ∧
      List.Forall₂ (fun emitted text => text.id = emitted.id ∧ text.kind = emitted.kind ∧
        Emit.Linked result.output text.content emitted) result.output.modules texts := by
  obtain ⟨texts, hsome, htexts⟩ := Option.map_eq_some_iff.1 generated?_loop
  obtain ⟨result, journal, hrun, hgen⟩ := generated?_eq_some hsome
  exact ⟨result, journal, texts, hrun, hgen, htexts,
    generated_links_sound _ _ loopFiles (by decide) hrun hgen⟩

end Pipeline
end ScriptWeave
