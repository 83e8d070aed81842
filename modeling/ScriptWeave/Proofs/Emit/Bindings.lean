import ScriptWeave.Proofs.Emit.Agreement
import ScriptWeave.Proofs.Resolve.Precedence
import ScriptWeave.Proofs.Script.Homes
import ScriptWeave.Proofs.Script.Sites

/-!
Resolving and printing see the same references. A module that was resolved records one meaning for
every site of a reference in its file, and for nothing else; so printing never comes to a name
without a meaning, and what it would do with one does not matter.
-/

namespace ScriptWeave

namespace Resolve

open Script (ReferenceKey)

theorem Module.isSome_binding?_iff (m : Module) (key : ReferenceKey) :
    (m.binding? key).isSome = true ↔ key ∈ m.links.map (·.reference.key) := by
  rw [binding?, Option.isSome_map, List.find?_isSome, List.mem_map]
  simp only [decide_eq_true_eq]

/-- The links of a resolved file stand at its sites, one at each. -/
theorem keys_links {source : Source} {table : SymbolTable} {m : Module}
    (hrun : run source table = .ok m) : m.links.map (·.reference.key) = source.file.sites := by
  obtain ⟨_, _, _, _, _, hreferences, _⟩ := run_eq_ok hrun
  rw [← source.file.keys_references, ← hreferences, List.map_map]
  rfl

end Resolve

namespace Emit

open Script (parse ReferenceKey)
open Resolve (Binding Module)

/-- The meaning of a module with some answer for every other key as well, so that no name is left
without a meaning. -/
def Meaning.filled (m : Module) (other : ReferenceKey → Binding) : Meaning where
  binding? key := some ((m.binding? key).getD (other key))
  captures := (Meaning.ofModule m).captures

/-- A resolved module binds exactly the sites of references in its file, each once, and is printed
as if there could be no unbound names at all. -/
theorem bindings_total {text : String} {source : Source} {table : SymbolTable} {m : Module}
    (hparse : parse text = .ok source.file) (hrun : Resolve.run source table = .ok m) :
    m.links.map (·.reference.key) = source.file.sites ∧ source.file.sites.Nodup ∧
      (∀ key, (m.binding? key).isSome = true ↔ key ∈ source.file.sites) ∧
      ∀ other depth,
        file (.filled m other) depth source.file = file (.ofModule m) depth source.file := by
  have hkeys := Resolve.keys_links hrun
  have hbound : ∀ key, (m.binding? key).isSome = true ↔ key ∈ source.file.sites := by
    intro key
    rw [m.isSome_binding?_iff, hkeys]
  have hnodup : source.file.sites.Nodup := by
    rw [← source.file.keys_references]
    exact Script.nodup_keys_of_parse hparse
  refine ⟨hkeys, hnodup, hbound, ?_⟩
  intro other depth
  apply file_congr
  · rfl
  · intro r hr
    apply Meaning.spelling_congr
    have hsite : r.key ∈ source.file.sites := by
      rw [← source.file.keys_references]
      exact List.mem_map.2 ⟨r, hr, rfl⟩
    obtain ⟨b, hb⟩ := Option.isSome_iff_exists.1 ((hbound r.key).2 hsite)
    change some ((m.binding? r.key).getD (other r.key)) = m.binding? r.key
    rw [hb, Option.getD_some]

/-- A superclass, a field that is created, a default value, the parts of a loop, an argument, and a
name and an index inside of a function literal. -/
def bindingsText : String :=
  "package \x7bclass B \x7b\x7d class C extends B \x7bvar x = new B; function m(p = x) " ++
    "\x7bfor (var i = p; i < p; i++) p(function() \x7breturn x[i];\x7d);\x7d\x7d\x7d"

theorem bindings_total_sample : ∃ source m, parse bindingsText = .ok source.file ∧
    Resolve.run source .empty = .ok m ∧ m.links.length = 10 ∧
      m.links.map (·.reference.key) = source.file.sites ∧ source.file.sites.Nodup ∧
      (∀ key, (m.binding? key).isSome = true ↔ key ∈ source.file.sites) ∧
      ∀ other depth,
        file (.filled m other) depth source.file = file (.ofModule m) depth source.file := by
  have hall : ((parse bindingsText).toOption.any fun file =>
      (Resolve.run ⟨"C.as", file⟩ .empty).toOption.any (·.links.length = 10)) = true := by
    decide +kernel
  obtain ⟨file, hparse, hall⟩ := Script.exists_ok_of_any hall
  obtain ⟨m, hrun, hlength⟩ := Script.exists_ok_of_any hall
  exact ⟨⟨"C.as", file⟩, m, hparse, hrun, of_decide_eq_true hlength, bindings_total hparse hrun⟩

end Emit
end ScriptWeave
