import ScriptWeave.Proofs.Module.SymbolTable
import ScriptWeave.Resolve.Module

/-!
What the imports of a file bring. When no import is refused, the environment knows exactly the
symbols that are imported by name and the packages that are imported as a whole.
-/

namespace ScriptWeave
namespace Resolve

open Script (File Import)

theorem name_of_lookup? {table : SymbolTable} {package name : String} {s : Symbol}
    (h : table.lookup? package name = some s) : s.name = name := by
  obtain ⟨entry, _, hs⟩ := Option.bind_eq_some_iff.1 h
  exact entry.name_of_get? hs

namespace Environment

variable {env env' : Environment}

/-- The environment holds what the imports bring. -/
structure Holds (env : Environment) (imports : List Import) : Prop where
  imported : ∀ name s, env.imported? name = some s ↔ ∃ i ∈ imports, i.wildcard = false ∧
    i.name.last = name ∧ env.table.lookup? i.name.qualifier name = some s
  wildcards : ∀ package, package ∈ env.wildcards ↔
    ∃ i ∈ imports, i.wildcard = true ∧ i.name.dotted = package
  nodup : env.wildcards.Nodup

theorem holds_ofFile (table : SymbolTable) (file : File) : (ofFile table file).Holds [] where
  imported := by simp [ofFile, imported?]
  wildcards := by simp [ofFile]
  nodup := List.nodup_nil

theorem addImport_same {i : Import} (h : env.addImport i = .ok env') :
    env'.table = env.table ∧ env'.package = env.package ∧ env'.declared = env.declared := by
  rw [addImport] at h
  split at h
  · rw [importAll] at h
    split at h
    · cases h
      split <;> exact ⟨rfl, rfl, rfl⟩
    · cases h
  · rw [importOne] at h
    split at h
    · split at h
      · cases h
      · split at h
        · split at h
          · cases h
            exact ⟨rfl, rfl, rfl⟩
          · split at h
            · cases h
              exact ⟨rfl, rfl, rfl⟩
            · cases h
        · cases h
    · cases h

theorem Holds.importAll {imports : List Import} (henv : env.Holds imports) {i : Import}
    (hi : i.wildcard = true) (h : env.importAll i.name.dotted = .ok env') :
    env'.Holds (imports ++ [i]) := by
  rw [Environment.importAll] at h
  split at h
  · cases h
    have himported : ∀ name s, env.imported? name = some s ↔ ∃ j ∈ imports ++ [i],
        j.wildcard = false ∧ j.name.last = name ∧
          env.table.lookup? j.name.qualifier name = some s := by
      intro name s
      rw [henv.imported]
      simp [or_and_right, exists_or, hi]
    by_cases hold : i.name.dotted ∈ env.wildcards
    · rw [if_pos (List.contains_iff_mem.2 hold)]
      refine ⟨himported, ?_, henv.nodup⟩
      intro package
      rw [henv.wildcards]
      simp only [List.mem_append, List.mem_singleton, or_and_right, exists_or, exists_eq_left, hi,
        true_and]
      constructor
      · exact Or.inl
      · rintro (hdone | rfl)
        · exact hdone
        · exact (henv.wildcards _).1 hold
    · rw [if_neg (by simpa using hold)]
      refine ⟨himported, ?_, ?_⟩
      · intro package
        simp only [List.mem_append, henv.wildcards, List.mem_singleton, or_and_right, exists_or,
          exists_eq_left, hi, true_and]
        exact or_congr_right eq_comm
      · refine List.nodup_append.2 ⟨henv.nodup, List.pairwise_singleton _ _, ?_⟩
        intro p hp q hq heq
        rw [List.mem_singleton] at hq
        exact hold (hq ▸ heq ▸ hp)
  · cases h

theorem Holds.importOne {imports : List Import} (henv : env.Holds imports) {i : Import}
    (hi : i.wildcard = false) (h : env.importOne i.name.qualifier i.name.last = .ok env') :
    env'.Holds (imports ++ [i]) := by
  have hwildcards : ∀ package, package ∈ env.wildcards ↔
      ∃ j ∈ imports ++ [i], j.wildcard = true ∧ j.name.dotted = package := by
    intro package
    rw [henv.wildcards]
    simp [or_and_right, exists_or, hi]
  rw [Environment.importOne] at h
  split at h
  · split at h
    · cases h
    · next symbol hsymbol =>
        have hname := name_of_lookup? hsymbol
        have hadds : ∀ name s, (∃ j ∈ imports ++ [i], j.wildcard = false ∧ j.name.last = name ∧
            env.table.lookup? j.name.qualifier name = some s) ↔
            env.imported? name = some s ∨ name = i.name.last ∧ s = symbol := by
          intro name s
          rw [henv.imported]
          simp only [List.mem_append, List.mem_singleton, or_and_right, exists_or, exists_eq_left,
            hi, true_and]
          refine or_congr_right ⟨?_, ?_⟩
          · rintro ⟨rfl, hs⟩
            exact ⟨rfl, Option.some.inj (hs.symm.trans hsymbol)⟩
          · rintro ⟨rfl, rfl⟩
            exact ⟨rfl, hsymbol⟩
        split at h
        · split at h
          · next hnone =>
              cases h
              refine ⟨?_, hwildcards, henv.nodup⟩
              intro name s
              rw [hadds, Environment.imported?, List.find?_append, Option.or_eq_some_iff]
              refine or_congr Iff.rfl ?_
              rw [List.find?_singleton, hname, Option.ite_none_right_eq_some, decide_eq_true_eq]
              constructor
              · rintro ⟨_, rfl, hs⟩
                exact ⟨rfl, (Option.some.inj hs).symm⟩
              · rintro ⟨rfl, rfl⟩
                exact ⟨hnone, rfl, rfl⟩
          · next existing hsome =>
              split at h
              · next heq =>
                  cases h
                  refine ⟨?_, hwildcards, henv.nodup⟩
                  intro name s
                  rw [hadds]
                  constructor
                  · exact Or.inl
                  · rintro (hold | ⟨rfl, rfl⟩)
                    · exact hold
                    · rw [hsome, heq]
              · cases h
        · cases h
  · cases h

theorem Holds.addImport {imports : List Import} (henv : env.Holds imports) {i : Import}
    (h : env.addImport i = .ok env') : env'.Holds (imports ++ [i]) := by
  rw [Environment.addImport] at h
  split at h
  · next hi => exact henv.importAll hi h
  · next hi => exact henv.importOne (Bool.not_eq_true _ ▸ hi) h

theorem Holds.addImports {done : List Import} (henv : env.Holds done) (imports : List Import)
    (h : (env.addImports imports).2 = []) :
    (env.addImports imports).1.Holds (done ++ imports) ∧
      (env.addImports imports).1.table = env.table ∧
      (env.addImports imports).1.package = env.package ∧
      (env.addImports imports).1.declared = env.declared := by
  induction imports generalizing env done with
  | nil => exact ⟨by rwa [List.append_nil], rfl, rfl, rfl⟩
  | cons i imports ih =>
      rw [Environment.addImports] at h ⊢
      cases hadd : env.addImport i with
      | error reason => simp [hadd] at h
      | ok env' =>
          rw [hadd] at h
          simp only at h ⊢
          obtain ⟨hholds, htable, hpackage, hdeclared⟩ := ih (henv.addImport hadd) h
          obtain ⟨htable', hpackage', hdeclared'⟩ := addImport_same hadd
          refine ⟨?_, htable.trans htable', hpackage.trans hpackage', hdeclared.trans hdeclared'⟩
          rwa [List.append_assoc] at hholds

end Environment
end Resolve
end ScriptWeave
