import Mathlib
import ScriptWeave.Cycle.Merge
import ScriptWeave.Proofs.Graph.Components
import ScriptWeave.Module.Id
import ScriptWeave.Proofs.Module.Output

/-!
What resolving the cycles of a graph does to an output set. Merging a component succeeds only when
its id is fresh and its members are direct modules of different logical names. The modules that are
put for all cyclic components have pairwise different ids, so each of them stays as it was put: a
member becomes a redirect to the merged module that holds its tree, and everything else is kept.

What can keep cycles from being merged. Of the obstacles only one is left when the members of a
component are direct modules with the paths of modules: that the id of the merged module is taken.
Resolving then fails exactly for the cyclic components whose merged id is taken, with one issue
each.
-/

namespace ScriptWeave
namespace Cycle

variable {Tree : Type} {base : OutputSet Tree}

theorem mergedId_injective : Function.Injective mergedId := by
  intro i j h
  have htext : i.repr = j.repr := by
    simpa [mergedId, String.append_left_inj, String.append_right_inj] using h
  exact Int.repr_injective htext

theorem suffixed_mergedId (component : Int) : (mergedId component).Suffixed :=
  ⟨s!"merged_{component}", rfl⟩

/-- A member of a merged module stands for a direct module of the base, under its logical name. -/
def StandsFor (base : OutputSet Tree) (member : MergedMember Tree) : Prop :=
  member.key = member.id.logicalName ∧
    base.get? member.id = some (.direct member.id member.tree)

theorem gather_ok {members result : List (MergedMember Tree)} {id : ModuleId}
    (h : gather base members id = .ok result) :
    ∃ member, result = members ++ [member] ∧ member.id = id ∧ StandsFor base member ∧
      ∀ x ∈ members, x.key ≠ member.key := by
  rw [gather] at h
  cases hfind : members.find? (·.key = id.logicalName) with
  | some earlier => simp [hfind] at h
  | none =>
      simp only [hfind] at h
      split at h
      · cases h
      · next found tree hget =>
          have hfound : found = id := ((base.get?_eq_some_iff _ _).1 hget).2
          subst hfound
          cases h
          refine ⟨⟨found, found.logicalName, tree⟩, rfl, rfl, ⟨rfl, hget⟩, ?_⟩
          intro x hx
          simpa using List.find?_eq_none.1 hfind x hx
      · cases h

theorem gatherAll_ok (ids : List ModuleId) (members : List (MergedMember Tree))
    {result : List (MergedMember Tree)} (hkeys : (members.map (·.key)).Nodup)
    (h : ids.foldlM (gather base) members = .ok result) :
    ∃ gathered, result = members ++ gathered ∧ gathered.map (·.id) = ids ∧
      (∀ x ∈ gathered, StandsFor base x) ∧ (result.map (·.key)).Nodup := by
  induction ids generalizing members with
  | nil =>
      cases h
      exact ⟨[], by simp, rfl, by simp, hkeys⟩
  | cons id ids ih =>
      rw [List.foldlM_cons] at h
      cases hstep : gather base members id with
      | error obstacle =>
          rw [hstep] at h
          cases h
      | ok next =>
          rw [hstep] at h
          obtain ⟨member, rfl, hid, hstands, hfresh⟩ := gather_ok hstep
          have hnext : ((members ++ [member]).map (·.key)).Nodup := by
            rw [List.map_append, List.nodup_append]
            refine ⟨hkeys, by simp, ?_⟩
            intro _ ha _ hb heq
            subst heq
            obtain ⟨x, hx, hkey⟩ := List.mem_map.1 ha
            exact hfresh x hx (hkey.trans (by simpa using hb))
          obtain ⟨gathered, rfl, hids, hall, hnodup⟩ := ih _ hnext h
          refine ⟨member :: gathered, by simp, by simp [hid, hids], ?_, hnodup⟩
          intro x hx
          obtain rfl | hx := List.mem_cons.1 hx
          · exact hstands
          · exact hall x hx

/-- A merged module holds exactly the members of a component. -/
structure Merges (base : OutputSet Tree) (c : Component) (m : MergedModule Tree) : Prop where
  id_eq : m.id = mergedId c.index
  fresh : m.id ∉ base.ids
  member_ids : m.members.map (·.id) = c.members
  standsFor : ∀ x ∈ m.members, StandsFor base x
  nodup_keys : (m.members.map (·.key)).Nodup

theorem merge_ok {c : Component} {m : MergedModule Tree} (h : merge base c = .ok m) :
    Merges base c m := by
  unfold merge at h
  dsimp only at h
  split at h
  · cases h
  · next htaken =>
      cases hmembers : c.members.foldlM (gather base) [] with
      | error obstacle =>
          rw [hmembers] at h
          cases h
      | ok members =>
          rw [hmembers] at h
          cases h
          obtain ⟨gathered, rfl, hids, hall, hnodup⟩ :=
            gatherAll_ok c.members [] List.nodup_nil hmembers
          exact ⟨rfl, fun hm => htaken ((base.has_iff_mem_ids _).2 hm), hids, hall, hnodup⟩

theorem mergeAll_ok (components : List Component) {modules : List (MergedModule Tree)}
    (h : mergeAll base components = (modules, [])) :
    List.Forall₂ (Merges base) components modules := by
  induction components generalizing modules with
  | nil =>
      cases h
      exact .nil
  | cons c rest ih =>
      rw [mergeAll] at h
      cases hmerge : merge base c with
      | error obstacle => simp [hmerge] at h
      | ok m =>
          simp only [hmerge, Prod.mk.injEq] at h
          obtain ⟨rfl, hissues⟩ := h
          exact .cons (merge_ok hmerge) (ih (Prod.ext rfl hissues))

theorem resolve_ok {components : List Component} {r : Resolution Tree}
    (h : resolve base components = .ok r) :
    List.Forall₂ (Merges base) (Component.cyclicOnly components) r.merged ∧
      r.output = base.putAll (r.merged.flatMap replacements) := by
  rw [resolve] at h
  cases hall : mergeAll base (Component.cyclicOnly components) with
  | mk modules issues =>
      simp only [hall] at h
      split at h
      · next hempty =>
          cases h
          rw [List.isEmpty_iff.1 hempty] at hall
          exact ⟨mergeAll_ok _ hall, rfl⟩
      · cases h

theorem ids_replacements {c : Component} {m : MergedModule Tree} (h : Merges base c m) :
    (replacements m).map (·.id) = mergedId c.index :: c.members := by
  rw [replacements, List.map_cons, List.map_map, ← h.member_ids, ← h.id_eq]
  rfl

theorem ids_flatMap_replacements {components : List Component}
    {modules : List (MergedModule Tree)} (h : List.Forall₂ (Merges base) components modules) :
    (modules.flatMap replacements).map (·.id) =
      components.flatMap fun c => mergedId c.index :: c.members := by
  induction h with
  | nil => rfl
  | cons hmerge _ ih =>
      rw [List.flatMap_cons, List.map_append, ids_replacements hmerge, ih, List.flatMap_cons]

theorem exists_merged_of_mem {components : List Component} {modules : List (MergedModule Tree)}
    (h : List.Forall₂ (Merges base) components modules) {c : Component} (hc : c ∈ components) :
    ∃ m ∈ modules, Merges base c m := by
  induction h with
  | nil => exact absurd hc List.not_mem_nil
  | cons hmerge _ ih =>
      obtain rfl | hc := List.mem_cons.1 hc
      · exact ⟨_, List.mem_cons_self, hmerge⟩
      · obtain ⟨m, hm, hmerges⟩ := ih hc
        exact ⟨m, List.mem_cons_of_mem _ hm, hmerges⟩

/-- The ids that are put for the cyclic components of a graph over the modules of the base: the id
of each merged module and the members, no id twice. -/
theorem nodup_replaced_ids {g : DependencyGraph} (hids : ∀ id ∈ g.vertices, id ∈ base.ids)
    (hfresh : ∀ c ∈ Component.cyclicOnly g.components, mergedId c.index ∉ base.ids) :
    ((Component.cyclicOnly g.components).flatMap fun c => mergedId c.index :: c.members).Nodup := by
  have hmember : ∀ c ∈ Component.cyclicOnly g.components, ∀ v ∈ c.members, v ∈ base.ids := by
    intro c hc v hv
    exact hids v ((g.members_sublist (List.mem_of_mem_filter hc)).subset hv)
  rw [List.nodup_flatMap]
  constructor
  · intro c hc
    exact List.nodup_cons.2 ⟨fun h => hfresh c hc (hmember c hc _ h),
      g.members_nodup (List.mem_of_mem_filter hc)⟩
  · refine (g.components_disjoint.filter _).imp_of_mem ?_
    intro a b ha hb h v hva hvb
    obtain ⟨hindex, hdisjoint⟩ := h
    cases List.mem_cons.1 hva with
    | inl hva =>
        subst hva
        cases List.mem_cons.1 hvb with
        | inl hvb => exact hindex (mergedId_injective hvb)
        | inr hvb => exact hfresh a ha (hmember b hb _ hvb)
    | inr hva =>
        cases List.mem_cons.1 hvb with
        | inl hvb => exact hfresh b hb (hvb ▸ hmember a ha _ hva)
        | inr hvb => exact hdisjoint v hva hvb

/-- What an output set has become after the cycles of a graph over its modules were resolved. -/
structure Resolved (base : OutputSet Tree) (g : DependencyGraph) (out : OutputSet Tree) : Prop where
  ids_eq : out.ids = base.ids ++ (Component.cyclicOnly g.components).map fun c => mergedId c.index
  kept : ∀ c ∈ g.components, c.cyclic = false → ∀ id ∈ c.members, out.get? id = base.get? id
  merged : ∀ c ∈ g.components, c.cyclic = true → ∃ m, Merges base c m ∧
    out.get? m.id = some (.merged m) ∧
    ∀ x ∈ m.members, out.get? x.id = some (.redirect x.id m.id x.key)

theorem filter_replaced_ids {g : DependencyGraph} (hids : ∀ id ∈ g.vertices, id ∈ base.ids)
    {components : List Component} (hsub : ∀ c ∈ components, c ∈ g.components)
    (hfresh : ∀ c ∈ components, mergedId c.index ∉ base.ids) :
    (components.flatMap fun c => mergedId c.index :: c.members).filter (· ∉ base.ids) =
      components.map fun c => mergedId c.index := by
  induction components with
  | nil => rfl
  | cons c rest ih =>
      have hmembers : c.members.filter (· ∉ base.ids) = [] := by
        rw [List.filter_eq_nil_iff]
        intro v hv
        have hmem := hids v ((g.members_sublist (hsub c List.mem_cons_self)).subset hv)
        simpa using hmem
      rw [List.flatMap_cons, List.filter_append, List.filter_cons, hmembers,
        if_pos (decide_eq_true (hfresh c List.mem_cons_self)), List.map_cons,
        ih (fun d hd => hsub d (List.mem_cons_of_mem _ hd))
          fun d hd => hfresh d (List.mem_cons_of_mem _ hd)]
      rfl

theorem mergedId_fresh_of_resolve {components : List Component} {r : Resolution Tree}
    (h : resolve base components = .ok r) :
    ∀ c ∈ Component.cyclicOnly components, mergedId c.index ∉ base.ids := by
  intro c hc
  obtain ⟨m, _, hm⟩ := exists_merged_of_mem (resolve_ok h).1 hc
  exact hm.id_eq ▸ hm.fresh

theorem nodup_ids_replacements {g : DependencyGraph} (hids : ∀ id ∈ g.vertices, id ∈ base.ids)
    {r : Resolution Tree} (h : resolve base g.components = .ok r) :
    ((r.merged.flatMap replacements).map (·.id)).Nodup := by
  rw [ids_flatMap_replacements (resolve_ok h).1]
  exact nodup_replaced_ids hids (mergedId_fresh_of_resolve h)

theorem resolve_resolved {g : DependencyGraph} (hids : ∀ id ∈ g.vertices, id ∈ base.ids)
    {r : Resolution Tree} (h : resolve base g.components = .ok r) :
    Resolved base g r.output := by
  obtain ⟨hmerged, hout⟩ := resolve_ok h
  have hfresh := mergedId_fresh_of_resolve h
  have hnodup := nodup_ids_replacements hids h
  have hput : ∀ x ∈ r.merged.flatMap replacements, r.output.get? x.id = some x := by
    rw [hout]
    exact fun x hx => base.get?_putAll_of_mem hnodup hx
  refine ⟨?_, ?_, ?_⟩
  · have hcyclic : ∀ c ∈ Component.cyclicOnly g.components, c ∈ g.components := fun _ =>
      List.mem_of_mem_filter
    rw [hout, base.ids_putAll hnodup, ids_flatMap_replacements hmerged,
      filter_replaced_ids hids hcyclic hfresh]
  · intro c hc hcyclic id hid
    rw [hout]
    apply base.get?_putAll_of_not_mem hnodup
    rw [ids_flatMap_replacements hmerged]
    intro hreplaced
    obtain ⟨d, hd, hmem⟩ := List.mem_flatMap.1 hreplaced
    obtain rfl | hmem := List.mem_cons.1 hmem
    · exact hfresh d hd (hids _ ((g.members_sublist hc).subset hid))
    · have hdc := g.component_eq_of_mem (List.mem_of_mem_filter hd) hc hmem hid
      have hdcyclic := (List.mem_filter.1 hd).2
      rw [hdc, hcyclic] at hdcyclic
      exact Bool.false_ne_true hdcyclic
  · intro c hc hcyclic
    obtain ⟨m, hm, hmerges⟩ := exists_merged_of_mem hmerged (List.mem_filter.2 ⟨hc, hcyclic⟩)
    refine ⟨m, hmerges, ?_, ?_⟩
    · exact hput (.merged m) (List.mem_flatMap.2 ⟨m, hm, List.mem_cons_self⟩)
    · intro x hx
      have hredirect : .redirect x.id m.id x.key ∈ replacements m :=
        List.mem_cons_of_mem _ (List.mem_map.2 ⟨x, hx, rfl⟩)
      exact hput _ (List.mem_flatMap.2 ⟨m, hm, hredirect⟩)

/-- An emitted module is an untouched one, a merged one or a redirect to a member of one. -/
theorem Resolved.get?_cases {g : DependencyGraph} {out : OutputSet Tree} (h : Resolved base g out)
    (hids : ∀ id, id ∈ g.vertices ↔ id ∈ base.ids) {id : ModuleId} {x : EmittedModule Tree}
    (hget : out.get? id = some x) :
    (∃ c ∈ g.components, c.cyclic = false ∧ id ∈ c.members ∧ base.get? id = some x) ∨
      ∃ c ∈ g.components, c.cyclic = true ∧ ∃ m, Merges base c m ∧
        (x = .merged m ∨ ∃ y ∈ m.members, x = .redirect y.id m.id y.key) := by
  have hid : id ∈ out.ids := (out.mem_ids_iff id).2 ⟨x, hget⟩
  rw [h.ids_eq] at hid
  cases List.mem_append.1 hid with
  | inl hbase =>
      obtain ⟨k, c, hk, hmem⟩ := g.exists_component_of_vertex ((hids id).2 hbase)
      have hc := List.mem_of_getElem? hk
      cases hcyclic : c.cyclic with
      | false =>
          rw [h.kept c hc hcyclic id hmem] at hget
          exact Or.inl ⟨c, hc, hcyclic, hmem, hget⟩
      | true =>
          obtain ⟨m, hm, _, hredirect⟩ := h.merged c hc hcyclic
          rw [← hm.member_ids] at hmem
          obtain ⟨y, hy, rfl⟩ := List.mem_map.1 hmem
          rw [hredirect y hy] at hget
          exact Or.inr ⟨c, hc, hcyclic, m, hm, Or.inr ⟨y, hy, (Option.some.inj hget).symm⟩⟩
  | inr hmerged =>
      obtain ⟨c, hc, rfl⟩ := List.mem_map.1 hmerged
      obtain ⟨hc, hcyclic⟩ := List.mem_filter.1 hc
      obtain ⟨m, hm, hget', _⟩ := h.merged c hc hcyclic
      rw [← hm.id_eq, hget'] at hget
      exact Or.inr ⟨c, hc, hcyclic, m, hm, Or.inl (Option.some.inj hget).symm⟩

/-- Where keys are distinct, exactly one member has the key of a given member. -/
theorem filter_key_eq_singleton {members : List (MergedMember Tree)} {x : MergedMember Tree}
    (h : (members.map (·.key)).Nodup) (hx : x ∈ members) :
    members.filter (·.key = x.key) = [x] := by
  induction members with
  | nil => exact absurd hx List.not_mem_nil
  | cons y ys ih =>
      obtain ⟨hfresh, hnodup⟩ := List.nodup_cons.1 h
      obtain rfl | hx := List.mem_cons.1 hx
      · have hrest : ys.filter (·.key = x.key) = [] := by
          rw [List.filter_eq_nil_iff]
          intro z hz hkey
          exact hfresh (List.mem_map.2 ⟨z, hz, of_decide_eq_true hkey⟩)
        rw [List.filter_cons, if_pos (decide_eq_true rfl), hrest]
      · have hne : y.key ≠ x.key := fun heq => hfresh (List.mem_map.2 ⟨x, hx, heq.symm⟩)
        rw [List.filter_cons, if_neg (by simpa using hne), ih hnodup hx]

/-- Resolving the cycles of a graph over direct modules loses no module and serves none under a
wrong key. Ids keep their places and are followed by those of the merged modules; a module outside
of all cycles is what it was; and a module on a cycle is a redirect to a merged module that has
exactly one member under the key of the redirect, with the id and the tree of the module. -/
theorem resolve_preserves_exports (base : OutputSet Tree) (g : DependencyGraph)
    (r : Resolution Tree) (hdirect : ∀ m ∈ base.modules, m.kind = .direct)
    (hids : ∀ id, id ∈ g.vertices ↔ id ∈ base.ids) (h : resolve base g.components = .ok r) :
    r.output.ids =
        base.ids ++ (Component.cyclicOnly g.components).map (fun c => mergedId c.index) ∧
      (∀ c ∈ g.components, c.cyclic = false → ∀ id ∈ c.members, ∃ tree,
        base.get? id = some (.direct id tree) ∧ r.output.get? id = some (.direct id tree)) ∧
      ∀ c ∈ g.components, c.cyclic = true → ∀ id ∈ c.members, ∃ target key m tree,
        r.output.get? id = some (.redirect id target key) ∧
        r.output.get? target = some (.merged m) ∧
        base.get? id = some (.direct id tree) ∧
        m.members.filter (·.key = key) = [⟨id, key, tree⟩] := by
  have hresolved := resolve_resolved (fun id => (hids id).1) h
  refine ⟨hresolved.ids_eq, ?_, ?_⟩
  · intro c hc hcyclic id hid
    have hmem := (hids id).1 ((g.members_sublist hc).subset hid)
    obtain ⟨m, hm⟩ := (base.mem_ids_iff id).1 hmem
    obtain ⟨hmod, hmid⟩ := (base.get?_eq_some_iff _ _).1 hm
    have hkept := hresolved.kept c hc hcyclic id hid
    cases m with
    | direct id' tree =>
        cases hmid
        exact ⟨tree, hm, hkept.trans hm⟩
    | merged _ => exact absurd (hdirect _ hmod) (by simp [EmittedModule.kind])
    | redirect _ _ _ => exact absurd (hdirect _ hmod) (by simp [EmittedModule.kind])
  · intro c hc hcyclic id hid
    obtain ⟨m, hmerges, hm, hredirects⟩ := hresolved.merged c hc hcyclic
    rw [← hmerges.member_ids] at hid
    obtain ⟨x, hx, rfl⟩ := List.mem_map.1 hid
    exact ⟨m.id, x.key, m, x.tree, hredirects x hx, hm, (hmerges.standsFor x hx).2,
      filter_key_eq_singleton hmerges.nodup_keys hx⟩

/-- Two modules that need each other, and a third one. -/
def pairBase : OutputSet String :=
  OutputSet.empty.putAll
    [.direct ⟨"a.js"⟩ "A", .direct ⟨"b.js"⟩ "B", .direct ⟨"c.js"⟩ "C"]

/-- The graph of the pair; an edge of weight zero closes the cycle. -/
def pairGraph : DependencyGraph :=
  .ofChanges [.vertex ⟨"a.js"⟩, .vertex ⟨"b.js"⟩, .vertex ⟨"c.js"⟩, .edge ⟨"a.js"⟩ ⟨"b.js"⟩ 2,
    .edge ⟨"b.js"⟩ ⟨"a.js"⟩ 0, .edge ⟨"a.js"⟩ ⟨"c.js"⟩ 1]

theorem evaluated_pair : (∀ m ∈ pairBase.modules, m.kind = .direct) ∧
    pairGraph.vertices = pairBase.ids ∧
    pairGraph.components = [⟨0, [⟨"c.js"⟩], false⟩, ⟨1, [⟨"a.js"⟩, ⟨"b.js"⟩], true⟩] ∧
    (resolve pairBase pairGraph.components).isOk = true := by
  decide

theorem pairBase_direct : ∀ m ∈ pairBase.modules, m.kind = .direct := evaluated_pair.1

theorem mem_pairGraph_iff (id : ModuleId) : id ∈ pairGraph.vertices ↔ id ∈ pairBase.ids := by
  rw [evaluated_pair.2.1]

theorem components_pairGraph :
    pairGraph.components = [⟨0, [⟨"c.js"⟩], false⟩, ⟨1, [⟨"a.js"⟩, ⟨"b.js"⟩], true⟩] :=
  evaluated_pair.2.2.1

theorem exists_resolve_pair : ∃ r, resolve pairBase pairGraph.components = .ok r := by
  obtain ⟨-, -, -, hok⟩ := evaluated_pair
  match h : resolve pairBase pairGraph.components with
  | .ok r => exact ⟨r, rfl⟩
  | .error _ => simp [h, Except.isOk, Except.toBool] at hok

theorem resolve_preserves_exports_pair :
    ∃ r, resolve pairBase pairGraph.components = .ok r ∧
      r.output.ids = [⟨"a.js"⟩, ⟨"b.js"⟩, ⟨"c.js"⟩, ⟨"merged_1.js"⟩] ∧
      r.output.get? ⟨"c.js"⟩ = pairBase.get? ⟨"c.js"⟩ ∧
      ∃ target key m, r.output.get? ⟨"b.js"⟩ = some (.redirect ⟨"b.js"⟩ target key) ∧
        r.output.get? target = some (.merged m) ∧
        m.members.filter (·.key = key) = [⟨⟨"b.js"⟩, key, "B"⟩] := by
  obtain ⟨r, hr⟩ := exists_resolve_pair
  obtain ⟨hids, hkept, hmerged⟩ :=
    resolve_preserves_exports pairBase pairGraph r pairBase_direct mem_pairGraph_iff hr
  rw [components_pairGraph] at hids hkept hmerged
  refine ⟨r, hr, hids.trans (by decide), ?_, ?_⟩
  · obtain ⟨tree, hbase, hout⟩ := hkept ⟨0, [⟨"c.js"⟩], false⟩ List.mem_cons_self rfl ⟨"c.js"⟩
      List.mem_cons_self
    exact hout.trans hbase.symm
  · obtain ⟨target, key, m, tree, hout, htarget, hbase, honly⟩ :=
      hmerged ⟨1, [⟨"a.js"⟩, ⟨"b.js"⟩], true⟩ (by simp) rfl ⟨"b.js"⟩ (by decide)
    have htree : tree = "B" := by
      have hheld : .direct ⟨"b.js"⟩ "B" ∈ pairBase.modules :=
        List.mem_cons_of_mem _ List.mem_cons_self
      have hget := (pairBase.get?_eq_some_iff ⟨"b.js"⟩ _).2 ⟨hheld, rfl⟩
      rw [hget] at hbase
      cases hbase
      rfl
    exact ⟨target, key, m, hout, htarget, htree ▸ honly⟩

theorem gather_eq_ok {members : List (MergedMember Tree)} {id : ModuleId} {tree : Tree}
    (hget : base.get? id = some (.direct id tree))
    (hfresh : id.logicalName ∉ members.map (·.key)) :
    gather base members id = .ok (members ++ [⟨id, id.logicalName, tree⟩]) := by
  have hnone : members.find? (·.key = id.logicalName) = none := by
    rw [List.find?_eq_none]
    intro x hx hkey
    exact hfresh (List.mem_map.2 ⟨x, hx, of_decide_eq_true hkey⟩)
  simp only [gather, hnone, hget]

theorem gatherAll_eq_ok {ids : List ModuleId} (members : List (MergedMember Tree))
    (hget : ∀ id ∈ ids, ∃ tree, base.get? id = some (.direct id tree))
    (hnames : (members.map (·.key) ++ ids.map (·.logicalName)).Nodup) :
    ∃ gathered, ids.foldlM (gather base) members = .ok gathered := by
  induction ids generalizing members with
  | nil => exact ⟨members, rfl⟩
  | cons id ids ih =>
      obtain ⟨tree, htree⟩ := hget id List.mem_cons_self
      have hfresh : id.logicalName ∉ members.map (·.key) := fun hmem =>
        (List.nodup_append.1 hnames).2.2 _ hmem _ List.mem_cons_self rfl
      rw [List.foldlM_cons, gather_eq_ok htree hfresh]
      refine ih _ (fun id hid => hget id (List.mem_cons_of_mem _ hid)) ?_
      simpa using hnames

/-- The members of a component are direct modules, and have the paths of modules. -/
structure Mergeable (base : OutputSet Tree) (c : Component) : Prop where
  direct : ∀ id ∈ c.members, ∃ tree, base.get? id = some (.direct id tree)
  suffixed : ∀ id ∈ c.members, id.Suffixed
  nodup : c.members.Nodup

theorem Mergeable.nodup_names {c : Component} (h : Mergeable base c) :
    (c.members.map (·.logicalName)).Nodup := by
  refine h.nodup.map_on ?_
  intro a ha b hb hname
  exact (h.suffixed a ha).eq_of_logicalName_eq (h.suffixed b hb) hname

/-- Only a taken id keeps such a component from being merged. -/
theorem Mergeable.merge_eq_error_iff {c : Component} (h : Mergeable base c) (obstacle : Obstacle) :
    merge base c = .error obstacle ↔
      base.has (mergedId c.index) = true ∧ obstacle = .idTaken (mergedId c.index) := by
  obtain ⟨members, hmembers⟩ := gatherAll_eq_ok [] h.direct h.nodup_names
  unfold merge
  dsimp only
  split
  · next htaken =>
      simp only [htaken, true_and]
      constructor
      · intro herror
        exact (Except.error.inj herror).symm
      · rintro rfl
        rfl
  · next hfree =>
      rw [hmembers]
      constructor
      · intro herror
        cases herror
      · intro htaken
        exact absurd htaken.1 hfree

/-- The components among the given ones whose merged module would have the id of another module. -/
def taken (base : OutputSet Tree) (components : List Component) : List Component :=
  components.filter fun c => base.has (mergedId c.index)

/-- The issue of a component whose merged id is taken. -/
def takenIssue (c : Component) : Issue := issueOf c (.idTaken (mergedId c.index))

theorem issues_mergeAll {components : List Component} (h : ∀ c ∈ components, Mergeable base c) :
    (mergeAll base components).2 = (taken base components).map takenIssue := by
  rw [taken]
  induction components with
  | nil => rfl
  | cons c rest ih =>
      have hc := (h c List.mem_cons_self).merge_eq_error_iff
      have hrest := ih fun d hd => h d (List.mem_cons_of_mem _ hd)
      rw [mergeAll, List.filter_cons]
      cases hmerge : merge base c with
      | ok m =>
          have hfree : ¬ base.has (mergedId c.index) = true := by
            intro htaken
            have herror := (hc _).2 ⟨htaken, rfl⟩
            rw [hmerge] at herror
            cases herror
          rw [if_neg hfree]
          exact hrest
      | error obstacle =>
          obtain ⟨htaken, rfl⟩ := (hc obstacle).1 hmerge
          rw [if_pos htaken, List.map_cons, ← hrest]
          rfl

theorem resolve_of_not_taken {components : List Component}
    (h : ∀ c ∈ Component.cyclicOnly components, Mergeable base c)
    (hfree : taken base (Component.cyclicOnly components) = []) :
    ∃ r, resolve base components = .ok r := by
  have hissues := issues_mergeAll h
  rw [hfree, List.map_nil] at hissues
  rw [resolve]
  dsimp only
  rw [hissues]
  exact ⟨_, rfl⟩

theorem resolve_of_taken {components : List Component}
    (h : ∀ c ∈ Component.cyclicOnly components, Mergeable base c)
    (htaken : taken base (Component.cyclicOnly components) ≠ []) :
    resolve base components =
      .error (.several ((taken base (Component.cyclicOnly components)).map takenIssue)) := by
  rw [resolve]
  dsimp only
  rw [issues_mergeAll h, if_neg]
  rw [List.isEmpty_iff, List.map_eq_nil_iff]
  exact htaken

end Cycle
end ScriptWeave
