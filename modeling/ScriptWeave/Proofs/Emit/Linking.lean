import Mathlib.Data.List.Forall2
import Mathlib.Data.List.Nodup
import ScriptWeave.Emit.Module
import ScriptWeave.Proofs.Resolve.External

/-!
How emitted code reaches other modules. The dependency list of a module names the module of every
symbol that is read off a parameter, and the table of a merged module holds every symbol that is
read off the table.
-/

namespace ScriptWeave
namespace Emit

theorem getElem?_dependencyList (ids : List ModuleId) (i : Nat) :
    (dependencyList ids)[i]? = ids[i]?.map fun id => ⟨id.logicalName, parameter i⟩ := by
  simp only [dependencyList, List.getElem?_map, List.getElem?_zipIdx, Option.map_map]
  congr 1
  funext id
  simp

/-- The text reads a symbol off the parameter of the dependency with the name of its module. -/
def ReadsParameter (ids : List ModuleId) (s : Symbol) (text : String) : Prop :=
  ∃ k, text = "__m" ++ toString k ++ "." ++ s.name ∧ k < (dependencyList ids).length ∧
    (dependencyList ids)[k]? = some ⟨s.exportPath.logicalName, "__m" ++ toString k⟩

theorem readsParameter_viaParameter {ids : List ModuleId} {s : Symbol}
    (h : s.exportPath ∈ ids) : ReadsParameter ids s (viaParameter ids s) := by
  have hlt : ids.idxOf s.exportPath < ids.length := List.idxOf_lt_length_iff.2 h
  have hget : ids[ids.idxOf s.exportPath]? = some s.exportPath := by
    rw [List.getElem?_eq_getElem hlt, List.getElem_idxOf hlt]
  refine ⟨ids.idxOf s.exportPath, rfl, ?_, ?_⟩
  · simpa [dependencyList] using hlt
  · rw [getElem?_dependencyList, hget]
    rfl

namespace Direct

theorem readsParameter_link {id : ModuleId} {m : Resolve.Module} {s : Symbol} (hs : s ∈ m.uses)
    (hid : s.exportPath ≠ id) : ReadsParameter (dependencies id m) s (link id m s) := by
  rw [link, if_neg hid]
  apply readsParameter_viaParameter
  have hdep : s.exportPath ∈ m.dependencies := Resolve.Module.mem_dependencies.2 ⟨s, hs, rfl⟩
  exact List.mem_filter.2 ⟨hdep, decide_eq_true hid⟩

end Direct

namespace Merged

variable {members : List (MergedMember Resolve.Module)}

theorem key?_eq_none_iff {id : ModuleId} :
    key? members id = none ↔ ∀ member ∈ members, member.id ≠ id := by
  simp [key?]

theorem mem_dependencies {id : ModuleId} :
    id ∈ dependencies members ↔
      (∃ member ∈ members, id ∈ member.tree.dependencies) ∧ ∀ member ∈ members, member.id ≠ id := by
  simp only [dependencies, Resolve.mem_distinct, List.mem_flatMap, List.mem_filter,
    Option.isNone_iff_eq_none, key?_eq_none_iff]
  constructor
  · intro h
    obtain ⟨member, hmember, hid, hout⟩ := h
    exact ⟨⟨member, hmember, hid⟩, hout⟩
  · intro h
    obtain ⟨⟨member, hmember, hid⟩, hout⟩ := h
    exact ⟨member, hmember, hid, hout⟩

theorem reads_link {member : MergedMember Resolve.Module} (hmember : member ∈ members) {s : Symbol}
    (hs : s ∈ member.tree.uses) :
    ReadsParameter (dependencies members) s (link members s) ∨
      ∃ x ∈ members, x.id = s.exportPath ∧
        link members s = "__merged[" ++ Text.JsonString.literal x.key ++ "]." ++ s.name := by
  rw [link]
  split
  · next key hkey =>
      obtain ⟨x, hx, rfl⟩ := Option.map_eq_some_iff.1 hkey
      have hid := List.find?_some hx
      exact Or.inr ⟨x, List.mem_of_find?_eq_some hx, of_decide_eq_true hid, rfl⟩
  · next hkey =>
      apply Or.inl
      apply readsParameter_viaParameter
      have hdep : s.exportPath ∈ member.tree.dependencies :=
        Resolve.Module.mem_dependencies.2 ⟨s, hs, rfl⟩
      exact mem_dependencies.2 ⟨⟨member, hmember, hdep⟩, key?_eq_none_iff.1 hkey⟩

/-- A symbol of a member is read off the table, under the key of the member. -/
theorem link_eq_of_mem (hids : (members.map (·.id)).Nodup) {x : MergedMember Resolve.Module}
    (hx : x ∈ members) {s : Symbol} (hs : s.exportPath = x.id) :
    link members s = "__merged[" ++ Text.JsonString.literal x.key ++ "]." ++ s.name := by
  rw [link]
  split
  · next key hkey =>
      obtain ⟨y, hy, rfl⟩ := Option.map_eq_some_iff.1 hkey
      have hid := List.find?_some hy
      have hid : y.id = x.id := (of_decide_eq_true hid).trans hs
      rw [List.inj_on_of_nodup_map hids (List.mem_of_find?_eq_some hy) hx hid]
  · next hkey => exact absurd hs.symm (key?_eq_none_iff.1 hkey x hx)

end Merged

section

variable {Tree : Type} {view : View Tree}

theorem module_ok {m : EmittedModule Tree} {text : GeneratedModule} (h : module view m = .ok text) :
    text.id = m.id ∧ text.kind = m.kind ∧ content view m = .ok text.content := by
  rw [module] at h
  split at h
  · next hcontent =>
      cases h
      exact ⟨rfl, rfl, hcontent⟩
  · cases h

theorem modules_ok (ms : List (EmittedModule Tree)) {texts : List GeneratedModule}
    (h : modules view ms = (texts, [])) :
    List.Forall₂ (fun m text => module view m = .ok text) ms texts := by
  induction ms generalizing texts with
  | nil =>
      cases h
      exact .nil
  | cons m ms ih =>
      cases hrest : modules view ms with
      | mk rest issues =>
          rw [modules, hrest] at h
          cases hm : module view m with
          | ok text =>
              rw [hm] at h
              cases h
              exact .cons hm (ih hrest)
          | error issue =>
              rw [hm] at h
              cases h

theorem generate_ok {cancelled : Bool} {out : OutputSet Tree} {texts : List GeneratedModule}
    (h : generate view cancelled out = .ok texts) :
    List.Forall₂ (fun m text => module view m = .ok text) out.modules texts := by
  rw [generate] at h
  split at h
  · cases h
  · split at h
    · next hmodules =>
        cases h
        exact modules_ok _ hmodules
    · cases h

theorem ids_generate {cancelled : Bool} {out : OutputSet Tree} {texts : List GeneratedModule}
    (h : generate view cancelled out = .ok texts) : texts.map (·.id) = out.ids := by
  have htexts := generate_ok h
  rw [OutputSet.ids]
  clear h
  generalize out.modules = ms at htexts
  induction htexts with
  | nil => rfl
  | cons hmodule _ ih => rw [List.map_cons, List.map_cons, ih, (module_ok hmodule).1]

end

theorem mapM_readMember (members : List (MergedMember Resolve.Module)) :
    members.mapM (readMember .ok) = .ok members := by
  induction members with
  | nil => rfl
  | cons member members ih =>
      rw [List.mapM_cons, ih]
      rfl

end Emit
end ScriptWeave
