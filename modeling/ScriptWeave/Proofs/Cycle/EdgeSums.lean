import ScriptWeave.Proofs.Cycle.ResolvedGraph
import ScriptWeave.Proofs.Graph.Recording

/-!
The account of all edges of the emitted modules. An edge between source modules is recorded once,
for the emitted module that now holds its source, unless both ends lie on one cycle; besides these
only the edges of redirects are recorded. Every recorded end is an emitted module, so nothing is
refused, and the weight of an edge is the sum of what its sources weighed.
-/

namespace ScriptWeave

namespace DependencyGraph

/-- Whether two modules are members of one cyclic component. -/
def sharesCycle (g : DependencyGraph) (u v : ModuleId) : Bool :=
  g.components.any fun c => c.cyclic && c.members.contains u && c.members.contains v

theorem sharesCycle_iff (g : DependencyGraph) (u v : ModuleId) :
    g.sharesCycle u v = true ↔
      ∃ c ∈ g.components, c.cyclic = true ∧ u ∈ c.members ∧ v ∈ c.members := by
  simp [sharesCycle, and_assoc]

end DependencyGraph

namespace Cycle

variable {Tree : Type} {base : OutputSet Tree} {g : DependencyGraph} {r : Resolution Tree}

/-- The emitted module that holds the code of a source module: the target of its redirect, or the
module itself. -/
def emitter (out : OutputSet Tree) (u : ModuleId) : ModuleId := (owner? out u).getD u

/-- The source modules whose edges to the second module the first one has taken over. -/
def carriers (g : DependencyGraph) (out : OutputSet Tree) (ends : ModuleId × ModuleId) :
    List ModuleId :=
  g.vertices.filter fun u =>
    g.hasEdge u ends.2 && emitter out u = ends.1 && !g.sharesCycle u ends.2

/-- What an edge between source modules is recorded as, if at all. -/
def carriedEdge? (out : OutputSet Tree) (e : Edge) : Option Edge :=
  match owner? out e.source with
  | none => some e
  | some owner =>
      if (owner? out e.target).getD ⟨""⟩ = owner then none else some { e with source := owner }

def redirectEdge? : EmittedModule Tree → Option Edge
  | .redirect id target _ => some ⟨id, target, 1⟩
  | _ => none

/-- The edges that are recorded for the emitted modules, in order. -/
def recordedEdges (g : DependencyGraph) (out : OutputSet Tree) : List Edge :=
  g.orderedEdges.filterMap (carriedEdge? out) ++ out.modules.filterMap redirectEdge?

theorem carryEdge_eq (out : OutputSet Tree) (g : DependencyGraph) (e : Edge) :
    carryEdge out g e = g.includeAll (carriedEdge? out e).toList := by
  rw [carryEdge, carriedEdge?]
  cases owner? out e.source with
  | none => rfl
  | some owner =>
      by_cases hsame : (owner? out e.target).getD ⟨""⟩ = owner
      · simp only [hsame, if_true]
        rfl
      · simp only [hsame, if_false]
        rfl

theorem redirectEdge_eq (g : DependencyGraph) (m : EmittedModule Tree) :
    redirectEdge g m = g.includeAll (redirectEdge? m).toList := by
  cases m <;> rfl

theorem resolvedGraph_eq_includeAll (g : DependencyGraph) (out : OutputSet Tree) :
    resolvedGraph g out =
      (DependencyGraph.empty.addVertices out.ids).includeAll (recordedEdges g out) := by
  rw [resolvedGraph, recordedEdges, DependencyGraph.includeAll_append,
    DependencyGraph.foldl_eq_includeAll (carryEdge_eq out),
    DependencyGraph.foldl_eq_includeAll redirectEdge_eq]

theorem portions_redirects (out : OutputSet Tree) (w v : ModuleId) :
    Edge.portions (out.modules.filterMap redirectEdge?) (w, v) =
      if owner? out w = some v then [1] else [] := by
  have hends : ∀ m : EmittedModule Tree, ∀ e ∈ (redirectEdge? m).toList, e.ends.1 = m.id := by
    intro m e he
    cases m with
    | direct _ _ | merged _ => cases he
    | redirect id target key =>
        rw [List.mem_singleton.1 he]
        rfl
  rw [List.filterMap_eq_flatMap_toList, owner?]
  cases hget : out.get? w with
  | none =>
      rw [Edge.portions_flatMap_of_not_mem hends]
      · rfl
      · intro hw
        obtain ⟨m, hm⟩ := (out.mem_ids_iff w).1 hw
        rw [hget] at hm
        cases hm
  | some m =>
      obtain ⟨hm, rfl⟩ := (out.get?_eq_some_iff w m).1 hget
      rw [Edge.portions_flatMap_of_mem hends out.nodup_ids hm rfl]
      cases m with
      | direct _ _ | merged _ => rfl
      | redirect id target key =>
          simp [redirectEdge?, Edge.portions_singleton, Edge.ends, EmittedModule.id]

theorem exists_component_of_merged {components : List Component}
    {modules : List (MergedModule Tree)} (h : List.Forall₂ (Merges base) components modules)
    {m : MergedModule Tree} (hm : m ∈ modules) : ∃ c ∈ components, Merges base c m := by
  induction h with
  | nil => exact absurd hm List.not_mem_nil
  | cons hmerge _ ih =>
      obtain rfl | hm := List.mem_cons.1 hm
      · exact ⟨_, List.mem_cons_self, hmerge⟩
      · obtain ⟨c, hc, hmerges⟩ := ih hm
        exact ⟨c, List.mem_cons_of_mem _ hc, hmerges⟩

section

variable (hdirect : ∀ m ∈ base.modules, m.kind = .direct) (hsub : ∀ id ∈ g.vertices, id ∈ base.ids)
  (h : resolve base g.components = .ok r)
include hdirect hsub h

/-- The redirects are the members of cyclic components, and lead to their merged modules. -/
theorem owner?_resolve_iff (u o : ModuleId) : owner? r.output u = some o ↔
    ∃ c ∈ g.components, c.cyclic = true ∧ u ∈ c.members ∧ o = mergedId c.index := by
  constructor
  · intro howner
    obtain ⟨key, hget⟩ := (owner?_eq_some_iff _ _ _).1 howner
    obtain ⟨hmem, _⟩ := (r.output.get?_eq_some_iff _ _).1 hget
    obtain ⟨hmerged, hout⟩ := resolve_ok h
    rw [hout, base.mem_modules_putAll (nodup_ids_replacements hsub h)] at hmem
    obtain hreplaced | ⟨hkept, _⟩ := hmem
    · obtain ⟨m, hm, hredirect⟩ := List.mem_flatMap.1 hreplaced
      obtain ⟨c, hc, hmerges⟩ := exists_component_of_merged hmerged hm
      obtain ⟨hcMem, hcyclic⟩ := List.mem_filter.1 hc
      obtain hhead | htail := List.mem_cons.1 hredirect
      · cases hhead
      · obtain ⟨x, hx, heq⟩ := List.mem_map.1 htail
        cases heq
        refine ⟨c, hcMem, hcyclic, ?_, hmerges.id_eq⟩
        rw [← hmerges.member_ids]
        exact List.mem_map.2 ⟨x, hx, rfl⟩
    · exact absurd (hdirect _ hkept) (by simp [EmittedModule.kind])
  · rintro ⟨c, hc, hcyclic, hu, rfl⟩
    obtain ⟨m, hm, _, hredirects⟩ := (resolve_resolved hsub h).merged c hc hcyclic
    rw [← hm.member_ids] at hu
    obtain ⟨x, hx, rfl⟩ := List.mem_map.1 hu
    exact (owner?_eq_some_iff _ _ _).2 ⟨x.key, hm.id_eq ▸ hredirects x hx⟩

/-- What an emitter holds is not behind a redirect any more. -/
theorem owner?_emitter {u : ModuleId} : owner? r.output (emitter r.output u) = none := by
  rw [emitter]
  cases howner : owner? r.output u with
  | none => exact howner
  | some o =>
      rw [Option.getD_some, Option.eq_none_iff_forall_ne_some]
      intro o' howner'
      obtain ⟨c, hc, hcyclic, _, rfl⟩ := (owner?_resolve_iff hdirect hsub h u o).1 howner
      obtain ⟨d, hd, _, hmem, _⟩ := (owner?_resolve_iff hdirect hsub h _ o').1 howner'
      exact (resolve_resolved hsub h).mergedId_fresh hsub hc hcyclic
        ((g.members_sublist hd).subset hmem)

omit hdirect in
theorem mem_out_of_vertex {u : ModuleId} (hu : u ∈ g.vertices) : u ∈ r.output.ids := by
  rw [(resolve_resolved hsub h).ids_eq]
  exact List.mem_append_left _ (hsub u hu)

theorem mem_out_of_owner {u o : ModuleId} (howner : owner? r.output u = some o) :
    o ∈ r.output.ids := by
  obtain ⟨c, hc, hcyclic, _, rfl⟩ := (owner?_resolve_iff hdirect hsub h u o).1 howner
  rw [(resolve_resolved hsub h).ids_eq]
  exact List.mem_append_right _ (List.mem_map.2 ⟨c, List.mem_filter.2 ⟨hc, hcyclic⟩, rfl⟩)

/-- The target of an edge has the owner of its source exactly if they share a cycle. -/
theorem owner_getD_eq_iff {u v o : ModuleId} (howner : owner? r.output u = some o) :
    (owner? r.output v).getD ⟨""⟩ = o ↔ g.sharesCycle u v = true := by
  obtain ⟨c, hc, hcyclic, hu, rfl⟩ := (owner?_resolve_iff hdirect hsub h u o).1 howner
  rw [(suffixed_mergedId _).getD_eq_iff, owner?_resolve_iff hdirect hsub h, g.sharesCycle_iff]
  constructor
  · rintro ⟨d, hd, _, hv, hid⟩
    rw [g.component_eq_of_index_eq hd hc (mergedId_injective hid.symm)] at hv
    exact ⟨c, hc, hcyclic, hu, hv⟩
  · rintro ⟨d, hd, hdcyclic, hud, hv⟩
    rw [g.component_eq_of_mem hd hc hud hu] at hv
    exact ⟨c, hc, hcyclic, hv, rfl⟩

theorem carriedEdge?_eq (e : Edge) : carriedEdge? r.output e =
    if g.sharesCycle e.source e.target then none
    else some ⟨emitter r.output e.source, e.target, e.weight⟩ := by
  rw [carriedEdge?, emitter]
  cases howner : owner? r.output e.source with
  | some o => simp only [owner_getD_eq_iff hdirect hsub h howner, Option.getD_some]
  | none =>
      rw [if_neg]
      · rfl
      · intro hshared
        obtain ⟨c, hc, hcyclic, hu, _⟩ := (g.sharesCycle_iff _ _).1 hshared
        rw [(owner?_resolve_iff hdirect hsub h _ _).2 ⟨c, hc, hcyclic, hu, rfl⟩] at howner
        cases howner

theorem portions_carried_from (u w v : ModuleId) :
    Edge.portions (((g.successors u).map fun t => ⟨u, t, g.weight u t⟩).filterMap
      (carriedEdge? r.output)) (w, v) =
      if g.hasEdge u v && emitter r.output u = w && !g.sharesCycle u v then [g.weight u v]
      else [] := by
  have hends : ∀ t, ∀ e ∈ (carriedEdge? r.output ⟨u, t, g.weight u t⟩).toList, e.ends.2 = id t := by
    intro t e he
    rw [carriedEdge?_eq hdirect hsub h, Option.mem_toList] at he
    split at he
    · cases he
    · cases he
      rfl
  rw [List.filterMap_eq_flatMap_toList, List.flatMap_map]
  by_cases hv : v ∈ g.successors u
  · have hleads : g.hasEdge u v = true := (g.hasEdge_iff u v).2 ((g.mem_successors u v).1 hv)
    have hnodup : ((g.successors u).map id).Nodup := by
      rw [List.map_id]
      exact g.nodup_vertices.filter _
    rw [Edge.portions_flatMap_of_mem hends hnodup hv rfl, carriedEdge?_eq hdirect hsub h]
    cases hshared : g.sharesCycle u v with
    | true => simp [Edge.portions]
    | false => simp [hleads, Edge.portions_singleton, Edge.ends]
  · have hnone : g.hasEdge u v = false := by
      rw [← Bool.not_eq_true, g.hasEdge_iff, ← g.mem_successors]
      exact hv
    rw [Edge.portions_flatMap_of_not_mem hends]
    · simp [hnone]
    · rw [List.map_id]
      exact hv

theorem portions_carried (w v : ModuleId) :
    Edge.portions (g.orderedEdges.filterMap (carriedEdge? r.output)) (w, v) =
      (carriers g r.output (w, v)).map (g.weight · v) := by
  simp only [DependencyGraph.orderedEdges, List.filterMap_flatMap, Edge.portions_flatMap,
    portions_carried_from hdirect hsub h, carriers]
  induction g.vertices with
  | nil => rfl
  | cons u us ih =>
      rw [List.flatMap_cons, ih, List.filter_cons]
      split <;> rfl

/-- What an edge of the emitted modules was recorded as: once for each edge between source modules
that it stands for, and once for a redirect. -/
theorem portions_recordedEdges (w v : ModuleId) :
    Edge.portions (recordedEdges g r.output) (w, v) =
      (carriers g r.output (w, v)).map (g.weight · v) ++
        if owner? r.output w = some v then [1] else [] := by
  rw [recordedEdges, Edge.portions_append, portions_carried hdirect hsub h, portions_redirects]

theorem joins_recordedEdges :
    (DependencyGraph.empty.addVertices r.output.ids).Joins (recordedEdges g r.output) := by
  intro e he
  rw [DependencyGraph.mem_vertices_ofIds, DependencyGraph.mem_vertices_ofIds]
  obtain he | he := List.mem_append.1 he
  · obtain ⟨d, hd, heq⟩ := List.mem_filterMap.1 he
    have hleads := (g.exists_orderedEdge_iff _ _).1 ⟨d, hd, rfl, rfl⟩
    rw [carriedEdge?_eq hdirect hsub h] at heq
    split at heq
    · cases heq
    · cases heq
      refine ⟨?_, mem_out_of_vertex hsub h hleads.target_mem⟩
      rw [emitter]
      cases howner : owner? r.output d.source with
      | none => exact mem_out_of_vertex hsub h hleads.source_mem
      | some o => exact mem_out_of_owner hdirect hsub h howner
  · obtain ⟨m, hm, heq⟩ := List.mem_filterMap.1 he
    cases m with
    | direct _ _ | merged _ => cases heq
    | redirect id target key =>
        cases heq
        have hget := (r.output.get?_eq_some_iff _ _).2 ⟨hm, rfl⟩
        have howner := (owner?_eq_some_iff _ _ _).2 ⟨key, hget⟩
        exact ⟨OutputSet.mem_ids_of_mem hm, mem_out_of_owner hdirect hsub h howner⟩

/-- No edge between source modules is recorded for a redirect. -/
theorem carriers_of_owner {w o : ModuleId} (howner : owner? r.output w = some o) (v : ModuleId) :
    carriers g r.output (w, v) = [] := by
  rw [carriers, List.filter_eq_nil_iff]
  intro u _ hcarried
  simp only [Bool.and_eq_true, decide_eq_true_eq] at hcarried
  obtain ⟨⟨_, rfl⟩, _⟩ := hcarried
  rw [owner?_emitter hdirect hsub h] at howner
  cases howner

end

/-- After the cycles of a graph over direct modules were resolved, all edges that are recorded for
the emitted modules join emitted modules. One leads to a module from what emits the sources of its
edges, unless source and target are on one cycle; its weight is the sum of theirs. The others lead
from the redirects to their targets and weigh one. -/
theorem resolvedGraph_edges (base : OutputSet Tree) (g : DependencyGraph) (r : Resolution Tree)
    (hdirect : ∀ m ∈ base.modules, m.kind = .direct) (hids : ∀ id ∈ g.vertices, id ∈ base.ids)
    (h : resolve base g.components = .ok r) :
    resolvedGraph g r.output =
        (DependencyGraph.empty.addVertices r.output.ids).includeAll (recordedEdges g r.output) ∧
      (DependencyGraph.empty.addVertices r.output.ids).record (recordedEdges g r.output) =
        .ok (resolvedGraph g r.output) ∧
      ∀ e, e ∈ (resolvedGraph g r.output).edges ↔
        (carriers g r.output e.ends ≠ [] ∧
          e.weight = ((carriers g r.output e.ends).map (g.weight · e.target)).sum) ∨
        ((∃ key, r.output.get? e.source = some (.redirect e.source e.target key)) ∧
            e.weight = 1) := by
  have hjoins := joins_recordedEdges hdirect hids h
  refine ⟨resolvedGraph_eq_includeAll g r.output, ?_, ?_⟩
  · rw [DependencyGraph.record_eq_ok hjoins, resolvedGraph_eq_includeAll]
  · intro e
    rw [resolvedGraph_eq_includeAll, DependencyGraph.mem_edges_recorded hjoins, Edge.ends,
      portions_recordedEdges hdirect hids h, ← owner?_eq_some_iff]
    by_cases howner : owner? r.output e.source = some e.target
    · simp [howner, carriers_of_owner hdirect hids h howner]
    · simp [howner]

/-- Both modules of the pair need the third one. -/
def sharedGraph : DependencyGraph :=
  .ofChanges [.vertex ⟨"a.js"⟩, .vertex ⟨"b.js"⟩, .vertex ⟨"c.js"⟩, .edge ⟨"a.js"⟩ ⟨"b.js"⟩ 1,
    .edge ⟨"b.js"⟩ ⟨"a.js"⟩ 1, .edge ⟨"a.js"⟩ ⟨"c.js"⟩ 2, .edge ⟨"b.js"⟩ ⟨"c.js"⟩ 3]

theorem resolvedGraph_edges_shared :
    ∃ r, resolve pairBase sharedGraph.components = .ok r ∧
      (DependencyGraph.empty.addVertices r.output.ids).record (recordedEdges sharedGraph r.output) =
        .ok (resolvedGraph sharedGraph r.output) ∧
      ⟨⟨"merged_1.js"⟩, ⟨"c.js"⟩, 5⟩ ∈ (resolvedGraph sharedGraph r.output).edges ∧
      ⟨⟨"a.js"⟩, ⟨"merged_1.js"⟩, 1⟩ ∈ (resolvedGraph sharedGraph r.output).edges := by
  have hcarriers : (resolve pairBase sharedGraph.components).toOption.map (fun r =>
      (carriers sharedGraph r.output (⟨"merged_1.js"⟩, ⟨"c.js"⟩), owner? r.output ⟨"a.js"⟩)) =
      some ([⟨"a.js"⟩, ⟨"b.js"⟩], some ⟨"merged_1.js"⟩) := by decide
  cases hr : resolve pairBase sharedGraph.components with
  | error fault => simp [hr, Except.toOption] at hcarriers
  | ok r =>
      simp only [hr, Except.toOption, Option.map_some, Option.some.injEq, Prod.mk.injEq]
        at hcarriers
      obtain ⟨hcarriers, howner⟩ := hcarriers
      have hids : ∀ id ∈ sharedGraph.vertices, id ∈ pairBase.ids := by decide
      obtain ⟨_, hrecord, hedges⟩ :=
        resolvedGraph_edges pairBase sharedGraph r pairBase_direct hids hr
      refine ⟨r, rfl, hrecord, (hedges _).2 (Or.inl ?_), (hedges _).2 (Or.inr ?_)⟩
      · rw [Edge.ends, hcarriers]
        exact ⟨List.cons_ne_nil _ _, by decide⟩
      · exact ⟨(owner?_eq_some_iff _ _ _).1 howner, rfl⟩

end Cycle
end ScriptWeave
