import ScriptWeave.Proofs.Module.Registration
import ScriptWeave.Proofs.Resolve.Precedence

/-!
Visibility. Tables of exports keep every symbol under its own package and name. No way in which a
name can come to mean a symbol of another module leads past the check that the symbol is public or
that the file belongs to its package.
-/

namespace ScriptWeave

namespace SymbolTable

/-- Every symbol is registered under its own package. -/
def Homed (t : SymbolTable) : Prop :=
  ∀ package name s, t.lookup? package name = some s → s.package = package

theorem homed_empty : empty.Homed := by
  intro package name s h
  cases h

theorem Homed.register {t : SymbolTable} (ht : t.Homed) {e : Export}
    (he : ∀ home s, e = .symbol home s → s.package = home) : (t.register e).Homed := by
  intro package name s h
  rw [lookup?_register] at h
  cases e with
  | package home => exact ht package name s h
  | symbol home x =>
      dsimp only at h
      split at h
      · next hhere =>
          cases h
          exact (he home s rfl).trans hhere.1.symm
      · exact ht package name s h

theorem Homed.registerAll {t : SymbolTable} (ht : t.Homed) {exports : List Export}
    (h : ∀ home s, .symbol home s ∈ exports → s.package = home) :
    (t.registerAll exports).Homed := by
  rw [SymbolTable.registerAll]
  induction exports generalizing t with
  | nil => exact ht
  | cons e exports ih =>
      rw [List.foldl_cons]
      refine ih (ht.register ?_) fun home s hs => h home s (List.mem_cons_of_mem _ hs)
      rintro home s rfl
      exact h home s List.mem_cons_self

/-- The table of the exports of files, each with the module that it defines. -/
def ofFiles (files : List (ModuleId × Script.File)) : SymbolTable :=
  empty.registerAll (files.flatMap fun (id, file) => file.exports id)

theorem homed_ofFiles (files : List (ModuleId × Script.File)) : (ofFiles files).Homed := by
  apply homed_empty.registerAll
  intro home s hs
  obtain ⟨⟨id, file⟩, _, hs⟩ := List.mem_flatMap.1 hs
  obtain hs | hs := List.mem_cons.1 hs
  · cases hs
  · obtain ⟨d, _, hd⟩ := List.mem_map.1 hs
    cases hd
    rfl

end SymbolTable

namespace Resolve

open Script (File)

/-- The table lists the symbol under its own package and name, and the file sees it. -/
structure Admitted (table : SymbolTable) (file : File) (s : Symbol) : Prop where
  registered : table.lookup? s.package s.name = some s
  visible : Rule.Visible file s

section

variable {env : Environment} {file : File} (hhomed : env.table.Homed)
  (hpackage : env.package = file.packageName)
include hhomed hpackage

theorem admitted_of_lookup? {package name : String} {s : Symbol}
    (h : env.table.lookup? package name = some s)
    (hvisible : s.isPublic = true ∨ package = env.package) : Admitted env.table file s := by
  obtain rfl := hhomed package name s h
  obtain rfl := name_of_lookup? h
  rw [hpackage] at hvisible
  exact ⟨h, hvisible⟩

theorem admitted_of_visible? {package name : String} {s : Symbol}
    (h : env.visible? package name = some s) : Admitted env.table file s := by
  obtain ⟨hlookup, hsees⟩ := Option.filter_eq_some_iff.1 h
  refine admitted_of_lookup? hhomed hpackage hlookup ?_
  rw [Environment.sees, Bool.or_eq_true, decide_eq_true_eq, hhomed _ _ _ hlookup] at hsees
  exact hsees

theorem Environment.Offers.admitted (hscreened : env.Screened) {s : Symbol} (h : env.Offers s) :
    Admitted env.table file s := by
  cases h with
  | imported h =>
      obtain ⟨package, name, hvisible⟩ := hscreened s h
      exact admitted_of_visible? hhomed hpackage hvisible
  | visible h => exact admitted_of_visible? hhomed hpackage h
  | own h => exact admitted_of_lookup? hhomed hpackage h (Or.inr rfl)
  | topLevel h =>
      obtain ⟨hlookup, hcheck⟩ := Option.filter_eq_some_iff.1 h
      exact admitted_of_lookup? hhomed hpackage hlookup (Or.inl (Bool.and_eq_true_iff.1 hcheck).2)

end

/-- However a reference of a file, or an import by name, comes to mean a symbol of another module,
the table of exports lists that symbol under its own package and name, and it is public or belongs
to the package of the file. -/
theorem external_admitted (files : List (ModuleId × File)) (source : Source) (m : Module)
    (hrun : run source (.ofFiles files) = .ok m) :
    (∀ l ∈ m.links, ∀ s, l.binding.target = .external s →
        Admitted (.ofFiles files) source.file s) ∧
      (∀ key b s, m.binding? key = some b → b.target = .external s →
        Admitted (.ofFiles files) source.file s) ∧
      ∀ i ∈ source.file.imports, i.wildcard = false →
        ∃ s, SymbolTable.lookup? (.ofFiles files) i.name.qualifier i.name.last = some s ∧
          Admitted (.ofFiles files) source.file s := by
  obtain ⟨_, env, htable, hpackage, hscreened, himports, hoffers⟩ := run_offers hrun
  have hhomed : env.table.Homed := htable ▸ SymbolTable.homed_ofFiles files
  rw [← htable]
  have hlinks : ∀ l ∈ m.links, ∀ s, l.binding.target = .external s →
      Admitted env.table source.file s := fun l hl s hs =>
    (hoffers l hl s hs).admitted hhomed hpackage hscreened
  refine ⟨hlinks, ?_, ?_⟩
  · intro key b s hb hs
    obtain ⟨l, hl, rfl⟩ := Option.map_eq_some_iff.1 hb
    exact hlinks l (List.mem_of_find?_eq_some hl) s hs
  · intro i hi hwildcard
    obtain ⟨s, hs⟩ := himports i hi hwildcard
    exact ⟨s, (Option.filter_eq_some_iff.1 hs).1, admitted_of_visible? hhomed hpackage hs⟩

/-- A package with a public class and another one without any modifier. -/
def packageFile (package shown hidden : String) : File :=
  ⟨⟨1, 1⟩, some ⟨⟨1, 9⟩, package, []⟩, [],
    [⟨⟨2, 1⟩, ["public"], .type ⟨⟨2, 8⟩, shown, none, [], []⟩⟩,
      ⟨⟨3, 1⟩, [], .type ⟨⟨3, 1⟩, hidden, none, [], []⟩⟩]⟩

/-- Two packages of two classes each. -/
def packageFiles : List (ModuleId × File) :=
  [(⟨"lib.js"⟩, packageFile "lib" "Open" "Hidden"), (⟨"app.js"⟩, packageFile "app" "Main" "Helper")]

/-- A file of one of the packages, with a subclass of an imported class and one of a class of its
own package. -/
def subclassesSource : Source :=
  ⟨"sub.as", ⟨⟨1, 1⟩, some ⟨⟨1, 9⟩, "app", []⟩, [⟨⟨2, 1⟩, ⟨⟨2, 8⟩, "lib", ["Open"]⟩, false⟩],
    [⟨⟨3, 1⟩, [], .type ⟨⟨3, 1⟩, "C", some ⟨⟨3, 17⟩, "Open", []⟩, [], []⟩⟩,
      ⟨⟨4, 1⟩, [], .type ⟨⟨4, 1⟩, "D", some ⟨⟨4, 17⟩, "Helper", []⟩, [], []⟩⟩]⟩⟩

theorem external_admitted_subclasses :
    ∃ m, run subclassesSource (.ofFiles packageFiles) = .ok m ∧
      m.binding? ⟨.base, ⟨4, 17⟩⟩ =
        some ⟨.external ⟨"Helper", "app", .type, false, ⟨"app.js"⟩⟩, 1⟩ ∧
      Admitted (.ofFiles packageFiles) subclassesSource.file
        ⟨"Helper", "app", .type, false, ⟨"app.js"⟩⟩ ∧
      ∃ s, SymbolTable.lookup? (.ofFiles packageFiles) "lib" "Open" = some s ∧
        Admitted (.ofFiles packageFiles) subclassesSource.file s := by
  have hbinding : (run subclassesSource (.ofFiles packageFiles)).toOption.bind
      (·.binding? ⟨.base, ⟨4, 17⟩⟩) =
      some ⟨.external ⟨"Helper", "app", .type, false, ⟨"app.js"⟩⟩, 1⟩ := by decide
  cases hrun : run subclassesSource (.ofFiles packageFiles) with
  | error fault => simp [hrun, Except.toOption] at hbinding
  | ok m =>
      rw [hrun] at hbinding
      obtain ⟨_, hbindings, himports⟩ := external_admitted packageFiles subclassesSource m hrun
      exact ⟨m, rfl, hbinding, hbindings _ _ _ hbinding rfl,
        himports ⟨⟨2, 1⟩, ⟨⟨2, 8⟩, "lib", ["Open"]⟩, false⟩ List.mem_cons_self rfl⟩

end Resolve
end ScriptWeave
