import ScriptWeave.Proofs.Resolve.Tables
import ScriptWeave.Proofs.Resolve.Visibility

/-!
Files that have nothing to do with each other. Registering exports changes a table in their own
packages only, so a file of a package that does not concern another file can be added to the
project, or taken out of it, without any trace in how that other one resolves.
-/

namespace ScriptWeave

namespace SymbolTable

/-- The tables agree on whether a package exists and on its symbols. -/
structure AgreesAt (t t' : SymbolTable) (package : String) : Prop where
  hasPackage : t.hasPackage package = t'.hasPackage package
  lookup? : ∀ name, t.lookup? package name = t'.lookup? package name

section

variable {t t' : SymbolTable} {package : String}

theorem AgreesAt.register (h : t.AgreesAt t' package) (e : Export) :
    (t.register e).AgreesAt (t'.register e) package where
  hasPackage := by
    have hnames : package ∈ t.names ↔ package ∈ t'.names := by
      rw [← hasPackage_iff, ← hasPackage_iff, h.hasPackage]
    rw [Bool.eq_iff_iff, hasPackage_iff, hasPackage_iff, mem_names_register, mem_names_register,
      hnames]
  lookup? name := by rw [lookup?_register, lookup?_register, h.lookup? name]

theorem AgreesAt.registerAll (h : t.AgreesAt t' package) (es : List Export) :
    (t.registerAll es).AgreesAt (t'.registerAll es) package := by
  rw [SymbolTable.registerAll, SymbolTable.registerAll]
  induction es generalizing t t' with
  | nil => exact h
  | cons e es ih => exact ih (h.register e)

theorem agreesAt_register_of_ne {e : Export} (h : e.home ≠ package) :
    (t.register e).AgreesAt t package where
  hasPackage := by
    rw [Bool.eq_iff_iff, hasPackage_iff, hasPackage_iff, mem_names_register]
    exact or_iff_left h
  lookup? name := by
    rw [lookup?_register]
    cases e with
    | package home => rfl
    | symbol home s => exact if_neg fun hhere => h hhere.1.symm

/-- Exports into other packages leave a package as it is. -/
theorem agreesAt_registerAll_of_ne {es : List Export} (h : ∀ e ∈ es, e.home ≠ package) :
    (t.registerAll es).AgreesAt t package := by
  rw [SymbolTable.registerAll]
  induction es generalizing t with
  | nil => exact ⟨rfl, fun _ => rfl⟩
  | cons e es ih =>
      have hone := agreesAt_register_of_ne (t := t) (h e List.mem_cons_self)
      have hrest := ih (t := t.register e) fun x hx => h x (List.mem_cons_of_mem _ hx)
      exact ⟨hrest.hasPackage.trans hone.hasPackage,
        fun name => (hrest.lookup? name).trans (hone.lookup? name)⟩

end

theorem home_of_mem_exports {file : Script.File} {id : ModuleId} {e : Export}
    (h : e ∈ file.exports id) : e.home = file.packageName := by
  obtain rfl | h := List.mem_cons.1 h
  · rfl
  · obtain ⟨d, _, rfl⟩ := List.mem_map.1 h
    rfl

/-- One more file changes the table in its own package only. -/
theorem agreesAt_ofFiles (before after : List (ModuleId × Script.File)) (id : ModuleId)
    {file : Script.File} {package : String} (h : file.packageName ≠ package) :
    (ofFiles (before ++ (id, file) :: after)).AgreesAt (ofFiles (before ++ after)) package := by
  rw [ofFiles, ofFiles, List.flatMap_append, List.flatMap_append, List.flatMap_cons,
    registerAll_append, registerAll_append, registerAll_append]
  apply AgreesAt.registerAll
  apply agreesAt_registerAll_of_ne
  intro e he
  rwa [home_of_mem_exports he]

end SymbolTable

namespace Resolve

open Script (File)

/-- A file of a package that does not concern another file makes no difference to that file. -/
theorem agreeFor_ofFiles {file other : File} (h : ¬ Concerns file other.packageName)
    (before after : List (ModuleId × File)) (id : ModuleId) :
    AgreeFor file (.ofFiles (before ++ (id, other) :: after)) (.ofFiles (before ++ after)) := by
  have hagree : ∀ package, Concerns file package →
      (SymbolTable.ofFiles (before ++ (id, other) :: after)).AgreesAt (.ofFiles (before ++ after))
        package := by
    intro package hconcerns
    apply SymbolTable.agreesAt_ofFiles
    rintro rfl
    exact h hconcerns
  exact ⟨fun i hi => (hagree _ (.imported hi)).hasPackage,
    fun package hconcerns => (hagree package hconcerns).lookup?⟩

/-- A file resolves alike over any two tables that agree on the existence of the packages that it
imports and on the symbols of the packages that concern it. So one more file in the project, of a
package that does not concern it, leaves all its links or all its failures as they are. -/
theorem run_independent_of_unrelated (source : Source) :
    (∀ t t' : SymbolTable, AgreeFor source.file t t' → run source t = run source t') ∧
      ∀ (before after : List (ModuleId × File)) (id : ModuleId) (file : File),
        ¬ Concerns source.file file.packageName →
          run source (.ofFiles (before ++ (id, file) :: after)) =
            run source (.ofFiles (before ++ after)) :=
  ⟨fun _ _ h => run_eq_of_agreeFor h,
    fun before after id _ h => run_eq_of_agreeFor (agreeFor_ofFiles h before after id)⟩

/-- A file that imports a class, and names it with its package in an initialiser. -/
def chainSource : Source :=
  ⟨"chain.as", ⟨⟨1, 1⟩, some ⟨⟨1, 9⟩, "app", []⟩, [⟨⟨2, 1⟩, ⟨⟨2, 8⟩, "lib", ["Open"]⟩, false⟩],
    [⟨⟨3, 1⟩, [], .var ⟨⟨3, 1⟩, false, "x", none, some (.value (.plain ⟨⟨⟨3, 9⟩, [],
      ⟨.ident ⟨3, 9⟩ "lib", [.member ⟨3, 12⟩ "Open"], none⟩⟩, []⟩))⟩⟩]⟩⟩

/-- A file of a package that is spelled like the whole chain. -/
def nestedFile : File :=
  ⟨⟨1, 1⟩, some ⟨⟨1, 9⟩, "lib", ["Open"]⟩, [],
    [⟨⟨2, 1⟩, ["public"], .type ⟨⟨2, 8⟩, "Open", none, [], []⟩⟩]⟩

theorem not_concerns_nestedFile : ¬ Concerns chainSource.file nestedFile.packageName := by
  have himports : ∀ i ∈ chainSource.file.imports, i.package ≠ nestedFile.packageName := by
    decide
  have hspelled : ∀ r ∈ chainSource.file.references, ∀ n < r.parts.length, 0 < n →
      ".".intercalate (r.parts.take n) ≠ nestedFile.packageName := by
    decide
  generalize hp : nestedFile.packageName = package
  intro h
  cases h with
  | own =>
      revert hp
      decide
  | topLevel =>
      revert hp
      decide
  | imported hi => exact himports _ hi hp.symm
  | spelled hr hpos hlt => exact hspelled _ hr _ hlt hpos hp.symm

theorem run_independent_of_unrelated_nested :
    ∃ m, run chainSource (.ofFiles packageFiles) = .ok m ∧
      m.binding? ⟨.ident, ⟨3, 9⟩⟩ = some ⟨.external ⟨"Open", "lib", .type, true, ⟨"lib.js"⟩⟩, 1⟩ ∧
      ¬ Concerns chainSource.file nestedFile.packageName ∧
      run chainSource (.ofFiles (packageFiles ++ [(⟨"nested.js"⟩, nestedFile)])) = .ok m ∧
      AgreeFor chainSource.file (.ofFiles ((⟨"nested.js"⟩, nestedFile) :: packageFiles))
        (.ofFiles packageFiles) ∧
      run chainSource (.ofFiles ((⟨"nested.js"⟩, nestedFile) :: packageFiles)) = .ok m := by
  have hbinding : (run chainSource (.ofFiles packageFiles)).toOption.bind
      (·.binding? ⟨.ident, ⟨3, 9⟩⟩) =
      some ⟨.external ⟨"Open", "lib", .type, true, ⟨"lib.js"⟩⟩, 1⟩ := by decide
  obtain ⟨hagreeing, hadding⟩ := run_independent_of_unrelated chainSource
  have hadded := hadding packageFiles [] ⟨"nested.js"⟩ nestedFile not_concerns_nestedFile
  rw [List.append_nil] at hadded
  have hagree := agreeFor_ofFiles not_concerns_nestedFile [] packageFiles ⟨"nested.js"⟩
  cases hrun : run chainSource (.ofFiles packageFiles) with
  | error fault => simp [hrun, Except.toOption] at hbinding
  | ok m =>
      rw [hrun] at hbinding
      exact ⟨m, rfl, hbinding, not_concerns_nestedFile, hadded.trans hrun, hagree,
        (hagreeing _ _ hagree).trans hrun⟩

end Resolve
end ScriptWeave
