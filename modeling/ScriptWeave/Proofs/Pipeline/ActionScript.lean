import Mathlib.Data.List.Forall2
import ScriptWeave.Proofs.Graph.Reach
import ScriptWeave.Proofs.Module.Output
import ScriptWeave.Proofs.Pipeline.Phases
import ScriptWeave.Proofs.Resolve.External

/-!
Conversions of ActionScript sources. The resolved modules alone determine the table, the graph and
the output before merging: a module exports what its file declares, and an edge of the graph is a
use of a symbol.
-/

namespace ScriptWeave

open Resolve (Module)

namespace Pipeline

section

variable {α β γ : Type} {f : α → Except Fault β} {as : List α} {bs : List β}

theorem map_eq_of_map_ok (key : β → γ) (key' : α → γ) (h : as.map f = bs.map .ok)
    (hf : ∀ a b, f a = .ok b → key b = key' a) : bs.map key = as.map key' := by
  induction as generalizing bs with
  | nil =>
      cases bs with
      | nil => rfl
      | cons b bs => cases h
  | cons a as ih =>
      cases bs with
      | nil => cases h
      | cons b bs =>
          obtain ⟨hhead, htail⟩ := List.cons.inj h
          rw [List.map_cons, List.map_cons, hf a b hhead, ih htail]

theorem exists_of_mem_map_ok (h : as.map f = bs.map .ok) {b : β} (hb : b ∈ bs) :
    ∃ a ∈ as, f a = .ok b := by
  have hmem : .ok b ∈ as.map f := h ▸ List.mem_map.2 ⟨b, hb, rfl⟩
  exact List.mem_map.1 hmem

end

theorem zip_map_self {α β : Type} (f : α → β) (as : List α) :
    (as.map f).zip as = as.map fun a => (f a, a) := by
  induction as with
  | nil => rfl
  | cons a as ih => rw [List.map_cons, List.zip_cons_cons, ih, List.map_cons]

theorem vertices_includeEdges (g : DependencyGraph) (file : ModuleId × List (ModuleId × Int64)) :
    (includeEdges g file).vertices = g.vertices :=
  DependencyGraph.vertices_foldl (fun g _ => g.vertices_includeEdge _ _ _) _ g

theorem leads_includeEdges (g : DependencyGraph) (file : ModuleId × List (ModuleId × Int64))
    (u v : ModuleId) :
    (includeEdges g file).Leads u v ↔
      g.Leads u v ∨ (u = file.1 ∧ v ∈ file.2.map (·.1)) ∧ u ∈ g.vertices ∧ v ∈ g.vertices := by
  have hstep : ∀ (g : DependencyGraph) (entry : ModuleId × Int64) (u v : ModuleId),
      (g.includeEdge file.1 entry.1 entry.2).Leads u v ↔
        g.Leads u v ∨ (u = file.1 ∧ v = entry.1) ∧ u ∈ g.vertices ∧ v ∈ g.vertices := by
    intro g entry u v
    rw [DependencyGraph.leads_includeEdge, Prod.mk.injEq]
    refine or_congr_right (and_congr_right ?_)
    intro hends
    rw [hends.1, hends.2]
  rw [includeEdges]
  rw [DependencyGraph.leads_foldl (fun g _ => g.vertices_includeEdge _ _ _) hstep]
  refine or_congr_right (and_congr_left' ?_)
  simp only [List.mem_mergeSort, List.mem_map]
  constructor
  · intro h
    obtain ⟨entry, hentry, hu, hv⟩ := h
    exact ⟨hu, entry, hentry, hv.symm⟩
  · intro h
    obtain ⟨hu, entry, hentry, hv⟩ := h
    exact ⟨entry, hentry, hu, hv.symm⟩

namespace Conversion

variable {files : List SourceFile} {result : Result Module}
  (c : Conversion .actionScript files result)
include c

theorem ids_eq_parsed : idsOf files = c.parsed.map (·.id) := by
  symm
  apply map_eq_of_map_ok Source.id (fun file => ModuleId.ofSource file.path) c.parse_eq
  intro file source h
  simp only [Frontend.actionScript] at h
  split at h
  · cases h
    rfl
  · cases h

theorem map_source_trees : c.trees.map (·.source) = c.parsed := by
  have hlength := congrArg List.length c.parse_eq
  rw [List.length_map, List.length_map] at hlength
  have hsource := map_eq_of_map_ok Module.source Prod.snd c.resolve_eq
    fun p m h => (Resolve.run_ok h).1
  rw [hsource, List.map_snd_zip (Nat.le_of_eq hlength.symm)]

theorem ids_eq : idsOf files = c.trees.map (·.source.id) := by
  rw [c.ids_eq_parsed, ← c.map_source_trees, List.map_map]
  rfl

theorem zip_trees : (idsOf files).zip c.trees = c.trees.map fun m => (m.source.id, m) := by
  rw [c.ids_eq, zip_map_self]

theorem parse_source {m : Module} (hm : m ∈ c.trees) :
    ∃ text, Script.parse text = .ok m.source.file := by
  have hparsed : m.source ∈ c.parsed := c.map_source_trees ▸ List.mem_map.2 ⟨m, hm, rfl⟩
  obtain ⟨file, _, hparse⟩ := exists_of_mem_map_ok c.parse_eq hparsed
  refine ⟨file.text, ?_⟩
  simp only [Frontend.actionScript] at hparse
  split at hparse
  · next tree htree => rw [htree, ← Except.ok.inj hparse]
  · cases hparse

theorem run_source {m : Module} (hm : m ∈ c.trees) :
    Resolve.run m.source result.table = .ok m := by
  obtain ⟨p, _, hrun⟩ := exists_of_mem_map_ok c.resolve_eq hm
  change Resolve.run p.2 result.table = .ok m at hrun
  rw [(Resolve.run_ok hrun).1]
  exact hrun

theorem exports_eq_trees :
    c.exports = c.trees.map fun m => m.source.file.exports .unset := by
  have hexports := map_eq_of_map_ok id (fun s : Source => s.file.exports .unset) c.exports_eq (by
    intro s exports h
    exact (Except.ok.inj h).symm)
  rw [List.map_id] at hexports
  rw [hexports, ← c.map_source_trees, List.map_map]
  rfl

theorem table_eq_trees : result.table =
    SymbolTable.empty.registerAll (c.trees.flatMap fun m => m.source.file.exports m.source.id) := by
  have hzip : (idsOf files).zip c.exports =
      c.trees.map fun m => (m.source.id, m.source.file.exports .unset) := by
    rw [c.ids_eq, c.exports_eq_trees, List.zip_map']
  simp only [c.table_eq, hzip, List.flatMap_map, ownExports_exports]

theorem edges_eq_trees :
    c.edges = c.trees.map fun m => m.edges.map fun (id, n) => (id, Int64.ofNat n) := by
  have hedges := map_eq_of_map_ok id
    (fun m : Module => m.edges.map fun (id, n) => (id, Int64.ofNat n)) c.edges_eq (by
      intro m edges h
      exact (Except.ok.inj h).symm)
  rwa [List.map_id] at hedges

theorem zip_edges : (idsOf files).zip c.edges = c.trees.map fun m =>
    (m.source.id, m.edges.map fun (id, n) => (id, Int64.ofNat n)) := by
  rw [c.ids_eq, c.edges_eq_trees, List.zip_map']

/-- A symbol that a module uses is declared by the file of the module that it leads to. -/
theorem exported_of_mem_uses {m : Module} (hm : m ∈ c.trees) {s : Symbol} (hs : s ∈ m.uses) :
    ∃ x ∈ c.trees, x.source.id = s.exportPath ∧ s.name ∈ x.exportNames := by
  have hfinds := (Resolve.run_ok (c.run_source hm)).2 s hs
  rw [c.table_eq_trees] at hfinds
  obtain ⟨package, hexport⟩ := hfinds.exported
  obtain ⟨x, hx, hmem⟩ := List.mem_flatMap.1 hexport
  refine ⟨x, hx, ?_⟩
  cases List.mem_cons.1 hmem with
  | inl hpackage => cases hpackage
  | inr hsymbol =>
      obtain ⟨d, hd, heq⟩ := List.mem_map.1 hsymbol
      cases heq
      exact ⟨rfl, List.mem_map.2 ⟨d, hd, rfl⟩⟩

theorem mem_vertices_iff (v : ModuleId) :
    v ∈ result.graph.vertices ↔ v ∈ idsOf files := by
  rw [c.graph_eq, DependencyGraph.vertices_foldl vertices_includeEdges,
    DependencyGraph.mem_vertices_ofIds]

theorem exportPath_mem_ids {m : Module} (hm : m ∈ c.trees) {s : Symbol} (hs : s ∈ m.uses) :
    s.exportPath ∈ idsOf files := by
  obtain ⟨x, hx, hid, _⟩ := c.exported_of_mem_uses hm hs
  rw [c.ids_eq, ← hid]
  exact List.mem_map.2 ⟨x, hx, rfl⟩

/-- The edges of the graph are the uses of symbols; none is dropped as unknown. -/
theorem leads_iff (u v : ModuleId) :
    result.graph.Leads u v ↔ ∃ m ∈ c.trees, m.source.id = u ∧ ∃ s ∈ m.uses, s.exportPath = v := by
  have htargets : ∀ m : Module,
      v ∈ (m.edges.map fun (id, n) => (id, Int64.ofNat n)).map (·.1) ↔
        ∃ s ∈ m.uses, s.exportPath = v := by
    intro m
    rw [← Resolve.Module.mem_dependencies, Module.edges, List.map_map, List.map_map]
    exact iff_of_eq (congrArg (v ∈ ·) (List.map_id _))
  rw [c.graph_eq, DependencyGraph.leads_foldl vertices_includeEdges leads_includeEdges,
    or_iff_right (DependencyGraph.not_leads_ofIds _ _ _), DependencyGraph.mem_vertices_ofIds,
    DependencyGraph.mem_vertices_ofIds, c.zip_edges]
  constructor
  · intro h
    obtain ⟨⟨p, hp, hu, hv⟩, _⟩ := h
    obtain ⟨m, hm, rfl⟩ := List.mem_map.1 hp
    exact ⟨m, hm, hu.symm, (htargets m).1 hv⟩
  · intro h
    obtain ⟨m, hm, hu, s, hs, hv⟩ := h
    refine ⟨⟨_, List.mem_map.2 ⟨m, hm, rfl⟩, hu.symm, (htargets m).2 ⟨s, hs, hv⟩⟩, ?_, ?_⟩
    · rw [c.ids_eq, ← hu]
      exact List.mem_map.2 ⟨m, hm, rfl⟩
    · rw [← hv]
      exact c.exportPath_mem_ids hm hs

theorem base_eq_trees :
    c.base = OutputSet.empty.putAll (c.trees.map fun m => .direct m.source.id m) := by
  rw [c.base_eq, c.zip_trees, List.map_map]
  rfl

/-- Before cycles are merged every module is a resolved one, under its own id. -/
theorem exists_tree_of_base_get? {id : ModuleId} {m : EmittedModule Module}
    (h : c.base.get? id = some m) :
    ∃ tree ∈ c.trees, tree.source.id = id ∧ m = .direct id tree := by
  obtain ⟨hm, hid⟩ := (OutputSet.get?_eq_some_iff _ _ _).1 h
  rw [c.base_eq_trees] at hm
  obtain hm | hm := OutputSet.mem_of_mem_putAll hm
  · obtain ⟨tree, htree, rfl⟩ := List.mem_map.1 hm
    exact ⟨tree, htree, hid, by rw [← hid]; rfl⟩
  · exact absurd hm List.not_mem_nil

theorem mem_base_ids_iff (id : ModuleId) : id ∈ c.base.ids ↔ id ∈ idsOf files := by
  have hempty : id ∉ (OutputSet.empty : OutputSet Module).ids := List.not_mem_nil
  rw [c.base_eq_trees, OutputSet.mem_ids_putAll, or_iff_right hempty, c.ids_eq, List.map_map]
  rfl

section

variable (hids : (idsOf files).Nodup)
include hids

theorem nodup_base_ids :
    ((c.trees.map fun m => EmittedModule.direct m.source.id m).map (·.id)).Nodup := by
  rw [c.ids_eq] at hids
  rw [List.map_map]
  exact hids

theorem base_get?_eq_some_iff (id : ModuleId) (m : EmittedModule Module) :
    c.base.get? id = some m ↔ ∃ tree ∈ c.trees, tree.source.id = id ∧ m = .direct id tree := by
  refine ⟨c.exists_tree_of_base_get?, ?_⟩
  rintro ⟨tree, htree, rfl, rfl⟩
  rw [OutputSet.get?_eq_some_iff, c.base_eq_trees,
    OutputSet.mem_modules_putAll _ (c.nodup_base_ids hids)]
  exact ⟨Or.inl (List.mem_map.2 ⟨tree, htree, rfl⟩), rfl⟩

end

end Conversion
end Pipeline
end ScriptWeave
