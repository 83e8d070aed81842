import ScriptWeave.Proofs.Emit.Scopes
import ScriptWeave.Proofs.Pipeline.LinkSoundness
import ScriptWeave.Proofs.Script.Homes

/-!
Superclasses inside of merged modules. The superclass of a class is read off the table of the merged
module while the member with the class is evaluated. The members are evaluated in the order of their
files, whatever they extend, so only that order decides whether the superclass is there.
-/

namespace ScriptWeave

open Resolve (Module)

theorem idxOf_lt_iff_of_sublist {α : Type} [DecidableEq α] {as bs : List α} (h : as.Sublist bs)
    (hbs : bs.Nodup) {a b : α} (ha : a ∈ as) (hb : b ∈ as) :
    as.idxOf a < as.idxOf b ↔ bs.idxOf a < bs.idxOf b := by
  induction h with
  | slnil => cases ha
  | @cons as bs x hsub ih =>
      obtain ⟨hx, hbs⟩ := List.nodup_cons.1 hbs
      have hxa : x ≠ a := fun heq => hx (hsub.subset (heq ▸ ha))
      have hxb : x ≠ b := fun heq => hx (hsub.subset (heq ▸ hb))
      rw [ih hbs ha hb, List.idxOf_cons_ne _ hxa, List.idxOf_cons_ne _ hxb, Nat.succ_lt_succ_iff]
  | @cons_cons as bs x hsub ih =>
      obtain ⟨hx, hbs⟩ := List.nodup_cons.1 hbs
      by_cases hxb : x = b
      · simp [hxb]
      by_cases hxa : x = a
      · subst hxa
        simp [List.idxOf_cons_ne _ hxb]
      have ha := (List.mem_cons.1 ha).resolve_left (Ne.symm hxa)
      have hb := (List.mem_cons.1 hb).resolve_left (Ne.symm hxb)
      simp only [List.idxOf_cons_ne _ hxa, List.idxOf_cons_ne _ hxb, Nat.succ_lt_succ_iff,
        ih hbs ha hb]

theorem idxOf_lt_concat_iff {α : Type} [DecidableEq α] {as : List α} {x a b : α}
    (ha : a ∈ as ++ [x]) (hb : b ∈ as ++ [x]) :
    (as ++ [x]).idxOf a < (as ++ [x]).idxOf b ↔ a ∈ as ∧ (b ∈ as → as.idxOf a < as.idxOf b) := by
  by_cases hmem : a ∈ as
  · rw [List.idxOf_append_of_mem hmem, and_iff_right hmem]
    by_cases hbmem : b ∈ as
    · rw [List.idxOf_append_of_mem hbmem, imp_iff_right hbmem]
    · rw [List.idxOf_append_of_notMem hbmem]
      exact iff_of_true (Nat.lt_add_right _ (List.idxOf_lt_length_of_mem hmem)) (absurd · hbmem)
  · have hax : a = x := by simpa [hmem] using ha
    rw [List.idxOf_append_of_notMem hmem, hax, List.idxOf_cons_self, Nat.add_zero]
    refine iff_of_false (Nat.not_lt.2 ?_) fun h => hmem (hax ▸ h.1)
    by_cases hbmem : b ∈ as
    · rw [List.idxOf_append_of_mem hbmem]
      exact List.idxOf_le_length
    · have hbx : b = x := by simpa [hbmem] using hb
      rw [List.idxOf_append_of_notMem hbmem, hbx, List.idxOf_cons_self]
      exact Nat.le_refl _

theorem idxOf_eraseDups_lt_iff {ids : List ModuleId} {a b : ModuleId} (ha : a ∈ ids)
    (hb : b ∈ ids) :
    ids.eraseDups.idxOf a < ids.eraseDups.idxOf b ↔ ids.idxOf a < ids.idxOf b := by
  induction ids using List.reverseRecOn with
  | nil => cases ha
  | append_singleton ids id ih =>
      have hold {c : ModuleId} (hid : id ∈ ids) (hc : c ∈ ids ++ [id]) : c ∈ ids :=
        (List.mem_append.1 hc).elim (fun h => h) fun h => List.mem_singleton.1 h ▸ hid
      rw [DependencyGraph.eraseDups_append_singleton]
      split
      · next hid =>
          have ha := hold hid ha
          have hb := hold hid hb
          rw [ih ha hb, List.idxOf_append_of_mem ha, List.idxOf_append_of_mem hb]
      · rw [idxOf_lt_concat_iff ha hb, idxOf_lt_concat_iff (by simpa using ha) (by simpa using hb)]
        simp only [List.mem_eraseDups]
        exact and_congr_right fun ha => imp_congr_right fun hb => ih ha hb

/-- The member is printed, and so evaluated, before another one. -/
def MergedModule.Before {Tree : Type} (m : MergedModule Tree) (y x : MergedMember Tree) : Prop :=
  ∃ before after, m.members = before ++ x :: after ∧ y ∈ before

theorem MergedModule.before_iff {Tree : Type} {m : MergedModule Tree}
    (hids : (m.members.map (·.id)).Nodup) {x y : MergedMember Tree} (hx : x ∈ m.members)
    (hy : y ∈ m.members) : m.Before y x ↔
      (m.members.map (·.id)).idxOf y.id < (m.members.map (·.id)).idxOf x.id := by
  have hsplit {before after : List (MergedMember Tree)} (h : m.members = before ++ x :: after) :
      y ∈ before ↔ (m.members.map (·.id)).idxOf y.id < (m.members.map (·.id)).idxOf x.id := by
    have hmap : m.members.map (·.id) = before.map (·.id) ++ x.id :: after.map (·.id) := by
      rw [h, List.map_append, List.map_cons]
    have hx : x.id ∉ before.map (·.id) := by
      rw [hmap] at hids
      exact fun hmem => (List.nodup_append.1 hids).2.2 _ hmem _ List.mem_cons_self rfl
    have hy : y ∈ before ↔ y.id ∈ before.map (·.id) := by
      refine ⟨fun hmem => List.mem_map.2 ⟨y, hmem, rfl⟩, fun hmem => ?_⟩
      obtain ⟨z, hz, hid⟩ := List.mem_map.1 hmem
      have hzm : z ∈ m.members := h ▸ List.mem_append_left _ hz
      exact List.inj_on_of_nodup_map hids hzm hy hid ▸ hz
    rw [hy, hmap, List.idxOf_append_of_notMem hx, List.idxOf_cons_self, Nat.add_zero]
    by_cases hmem : y.id ∈ before.map (·.id)
    · rw [List.idxOf_append_of_mem hmem]
      exact iff_of_true hmem (List.idxOf_lt_length_of_mem hmem)
    · rw [List.idxOf_append_of_notMem hmem]
      exact iff_of_false hmem (Nat.not_lt.2 (Nat.le_add_right _ _))
  constructor
  · rintro ⟨before, after, h, hbefore⟩
    exact (hsplit h).1 hbefore
  · intro hlt
    obtain ⟨before, after, h⟩ := List.append_of_mem hx
    exact ⟨before, after, h, (hsplit h).2 hlt⟩

namespace Resolve.Module

def superclass? (m : Module) (d : Script.Decl) : Option Symbol :=
  match d.body with
  | .type c => do
      let q ← c.base
      let b ← m.binding? ⟨.base, q.pos⟩
      match b.target with
      | .external s => some s
      | _ => none
  | .function _ | .var _ => none

/-- The symbols of other modules that the classes of the file extend. -/
def superclasses (m : Module) : List Symbol := m.source.file.decls.filterMap m.superclass?

theorem superclass?_eq_some {m : Module} {d : Script.Decl} {s : Symbol}
    (h : m.superclass? d = some s) : ∃ c q b, d.body = .type c ∧ c.base = some q ∧
      m.binding? ⟨.base, q.pos⟩ = some b ∧ b.target = .external s := by
  rw [superclass?] at h
  split at h
  · next c hc =>
      obtain ⟨q, hq, h⟩ := Option.bind_eq_some_iff.1 h
      obtain ⟨b, hb, h⟩ := Option.bind_eq_some_iff.1 h
      split at h
      · next s' ht =>
          cases h
          exact ⟨c, q, b, hc, hq, hb, ht⟩
      · cases h
  · cases h
  · cases h

theorem superclasses_subset_uses {m : Module} {s : Symbol} (hs : s ∈ m.superclasses) :
    s ∈ m.uses := by
  obtain ⟨d, _, hd⟩ := List.mem_filterMap.1 hs
  obtain ⟨c, q, b, _, _, hb, ht⟩ := superclass?_eq_some hd
  exact Emit.Meaning.Knows.mem_uses ⟨_, b, hb, ht⟩

end Resolve.Module

namespace Emit

/-- The superclass is the argument of the function around the class. -/
theorem superclass_infix_file {m : Module} {s : Symbol} (hs : s ∈ m.superclasses) (depth : Nat) :
    ∃ rest, Piece.words ["\x7d", ")", "("] ++ .external s :: rest <:+:
      file (.ofModule m) depth m.source.file := by
  obtain ⟨d, hmem, hd⟩ := List.mem_filterMap.1 hs
  obtain ⟨c, q, b, hc, hq, hb, ht⟩ := Resolve.Module.superclass?_eq_some hd
  have hname : ∃ rest, typeName (.ofModule m) ⟨.base, q.pos⟩ q = .external s :: rest := by
    have hb : (Meaning.ofModule m).binding? ⟨.base, q.pos⟩ = some b := hb
    rw [typeName, hb]
    dsimp only
    rw [ht]
    split
    · exact ⟨[], rfl⟩
    · exact ⟨_, rfl⟩
  obtain ⟨rest, hname⟩ := hname
  refine ⟨rest ++ Piece.words [")", ";"], List.IsInfix.trans ?_ (infix_flatMap hmem rfl)⟩
  have hline (pieces : List Piece) : pieces <:+: Piece.line depth pieces :=
    ⟨[Piece.indent depth], [Piece.newline], rfl⟩
  simp only [decl, hc, type, hq, hname]
  refine List.IsInfix.trans ?_ (List.suffix_append _ _).isInfix
  simpa only [List.append_assoc, List.cons_append] using hline _

end Emit

namespace Pipeline

open ScriptWeave.Cycle (Merges)

/-- The members of a merged module come in the order of their files. -/
theorem Conversion.before_iff {files : List SourceFile} {result : Result Module}
    (c : Conversion .actionScript files result) {d : Component} (hd : d ∈ result.graph.components)
    {merged : MergedModule Module} (hm : Merges c.base d merged) {x y : MergedMember Module}
    (hx : x ∈ merged.members) (hy : y ∈ merged.members) :
    merged.Before y x ↔ (idsOf files).idxOf y.id < (idsOf files).idxOf x.id := by
  have hvertices : result.graph.vertices = (idsOf files).eraseDups := by
    rw [c.graph_eq, DependencyGraph.vertices_foldl vertices_includeEdges,
      DependencyGraph.vertices_ofIds]
  have hsub := result.graph.members_sublist hd
  have hmember {z : MergedMember Module} (hz : z ∈ merged.members) : z.id ∈ d.members :=
    hm.member_ids ▸ List.mem_map.2 ⟨z, hz, rfl⟩
  have hfile {z : MergedMember Module} (hz : z ∈ merged.members) : z.id ∈ idsOf files :=
    (c.mem_vertices_iff _).1 (hsub.subset (hmember hz))
  rw [MergedModule.before_iff (hm.member_ids ▸ result.graph.members_nodup hd) hx hy, hm.member_ids,
    idxOf_lt_iff_of_sublist hsub result.graph.nodup_vertices (hmember hy) (hmember hx), hvertices,
    idxOf_eraseDups_lt_iff (hfile hy) (hfile hx)]

/-- A class of a member that extends a class of another member reads it off the table while it is
evaluated; the entry is there exactly if the file of the other member comes first. -/
theorem superclass_evaluated_before_iff (signals : Signals) (options : Options)
    (files : List SourceFile) {result : Result Module} {journal : Journal}
    (hrun : run .actionScript signals options files = (.ok result, journal))
    {merged : MergedModule Module} (hmerged : .merged merged ∈ result.output.modules)
    {x y : MergedMember Module} (hx : x ∈ merged.members) (hy : y ∈ merged.members) {s : Symbol}
    (hs : s ∈ x.tree.superclasses) (hpath : s.exportPath = y.id) :
    (∃ rest, Emit.Piece.words ["\x7d", ")", "("] ++ .external s :: rest <:+:
      Emit.Merged.body x.tree) ∧
    Emit.Merged.link merged.members s =
      "__merged[" ++ Text.JsonString.literal y.key ++ "]." ++ s.name ∧
    ((idsOf files).Nodup → s.name ∈ y.tree.exportNames) ∧
    (merged.Before y x ↔ (idsOf files).idxOf y.id < (idsOf files).idxOf x.id) := by
  obtain ⟨c⟩ := nonempty_conversion hrun
  obtain ⟨d, hd, _, hm⟩ := c.merged_cases ((OutputSet.get?_eq_some_iff _ _ _).2 ⟨hmerged, rfl⟩)
  have hids : (merged.members.map (·.id)).Nodup := hm.member_ids ▸ result.graph.members_nodup hd
  refine ⟨Emit.superclass_infix_file hs 2, Emit.Merged.link_eq_of_mem hids hy hpath,
    fun hfiles => ?_, c.before_iff hd hm hx hy⟩
  obtain ⟨hxtree, _⟩ := c.member_mem_trees hm hx
  obtain ⟨hytree, hyid⟩ := c.member_mem_trees hm hy
  obtain ⟨z, hz, hid, hname⟩ :=
    c.exported_of_mem_uses hxtree (Resolve.Module.superclasses_subset_uses hs)
  exact c.tree_eq_of_source_id hfiles hz hytree (hid.trans (hpath.trans hyid.symm)) ▸ hname

def extendingText : String := "package \x7b class A extends B \x7b \x7d \x7d"

def extendedText : String := "package \x7b class B \x7b var a = A; \x7d \x7d"

def pairFiles (first second : String) : List SourceFile := [⟨"a.as", first⟩, ⟨"b.as", second⟩]

/-- Whether the project converts to one merged module that has the two files as members, of which
only the given one extends a class, from the other. -/
def mergesPair (files : List SourceFile) (x y : ModuleId) : Bool :=
  (run .actionScript .quiet (.sequential .fail) files).1.toOption.any fun result =>
    result.output.modules.any fun
      | .merged merged => merged.members.map (·.id) = idsOf files && merged.members.all fun z =>
          z.tree.superclasses.map (·.exportPath) = if z.id = x then [y] else []
      | _ => false

theorem of_mergesPair (files : List SourceFile) (x y : ModuleId) (h : mergesPair files x y = true)
    (hx : x ∈ idsOf files) (hy : y ∈ idsOf files) (hne : y ≠ x) :
    ∃ result journal merged x' y', run .actionScript .quiet (.sequential .fail) files =
        (.ok result, journal) ∧ .merged merged ∈ result.output.modules ∧
      merged.members.map (·.id) = idsOf files ∧ x' ∈ merged.members ∧ y' ∈ merged.members ∧
      x'.id = x ∧ y'.id = y ∧ (∃ s ∈ x'.tree.superclasses, s.exportPath = y) ∧
      y'.tree.superclasses = [] := by
  obtain ⟨result, hrun, h⟩ := Script.exists_ok_of_any h
  obtain ⟨m, hm, h⟩ := List.any_eq_true.1 h
  split at h
  · next merged =>
      simp only [Bool.and_eq_true, List.all_eq_true, decide_eq_true_eq] at h
      obtain ⟨hids, hall⟩ := h
      have hmember {id : ModuleId} (hid : id ∈ idsOf files) : ∃ z ∈ merged.members, z.id = id :=
        List.mem_map.1 (hids ▸ hid)
      obtain ⟨x', hx', rfl⟩ := hmember hx
      obtain ⟨y', hy', rfl⟩ := hmember hy
      have hxbases := hall x' hx'
      have hybases := hall y' hy'
      rw [if_pos rfl] at hxbases
      rw [if_neg hne, List.map_eq_nil_iff] at hybases
      have hs : y'.id ∈ x'.tree.superclasses.map (·.exportPath) :=
        hxbases ▸ List.mem_singleton_self _
      exact ⟨result, _, merged, x', y', Prod.ext hrun rfl, hm, hids, hx', hy', rfl, rfl,
        List.mem_map.1 hs, hybases⟩
  · cases h

/-- The superclass is there if its file comes first. -/
theorem extendedFirst_evaluated_before : ∃ result journal merged x y,
    run .actionScript .quiet (.sequential .fail) (pairFiles extendedText extendingText) =
        (.ok result, journal) ∧ .merged merged ∈ result.output.modules ∧ x ∈ merged.members ∧
      y ∈ merged.members ∧ (∃ s ∈ x.tree.superclasses, s.exportPath = y.id) ∧
          merged.Before y x := by
  obtain ⟨result, journal, merged, x, y, hrun, hmerged, _, hx, hy, hxid, hyid, ⟨s, hs, hpath⟩, _⟩ :=
    of_mergesPair (pairFiles extendedText extendingText) (.ofSource "b.as") (.ofSource "a.as")
      (by decide +kernel) (by decide) (by decide) (by decide)
  obtain ⟨_, _, _, hbefore⟩ :=
    superclass_evaluated_before_iff _ _ _ hrun hmerged hx hy hs (hpath.trans hyid.symm)
  refine ⟨result, journal, merged, x, y, hrun, hmerged, hx, hy, ⟨s, hs, hpath.trans hyid.symm⟩,
    hbefore.2 ?_⟩
  rw [hxid, hyid]
  decide

/-- Otherwise it is not, though no member extends anything of the first. -/
theorem extendingFirst_not_evaluated_before : ∃ result journal merged x y,
    run .actionScript .quiet (.sequential .fail) (pairFiles extendingText extendedText) =
        (.ok result, journal) ∧ .merged merged ∈ result.output.modules ∧ x ∈ merged.members ∧
      y ∈ merged.members ∧ y.id ≠ x.id ∧ (∃ s ∈ x.tree.superclasses, s.exportPath = y.id) ∧
      y.tree.superclasses = [] ∧ ¬ merged.Before y x := by
  obtain ⟨result, journal, merged, x, y, hrun, hmerged, hids, hx, hy, hxid, hyid, ⟨s, hs, hpath⟩,
    hnone⟩ := of_mergesPair (pairFiles extendingText extendedText) (.ofSource "a.as")
      (.ofSource "b.as")
      (by decide +kernel) (by decide) (by decide) (by decide)
  have hnodup : (idsOf (pairFiles extendingText extendedText)).Nodup := by decide
  refine ⟨result, journal, merged, x, y, hrun, hmerged, hx, hy, ?_, ⟨s, hs, hpath.trans hyid.symm⟩,
    hnone, ?_⟩
  · rw [hxid, hyid]
    decide
  · rw [MergedModule.before_iff (hids ▸ hnodup) hx hy, hids, hxid, hyid]
    decide

end Pipeline
end ScriptWeave
