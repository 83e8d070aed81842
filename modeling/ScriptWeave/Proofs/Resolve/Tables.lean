import ScriptWeave.Proofs.Module.Registration
import ScriptWeave.Proofs.Resolve.Imports
import ScriptWeave.Resolve.Module

/-!
Resolution looks at a table only where a file asks: whether the imported packages exist, and what
the packages that concern the file have under a name. Tables that agree there give the file the same
links and the same failures.
-/

namespace ScriptWeave

/-- The package that must exist for an import. -/
def Script.Import.package (i : Script.Import) : String :=
  if i.wildcard then i.name.dotted else i.name.qualifier

namespace Resolve

open Script (File Import Reference)

/-- The packages in which the names of a file are looked up. -/
inductive Concerns (file : File) : String → Prop
  | own : Concerns file file.packageName
  | topLevel : Concerns file ""
  | imported {i : Import} (hi : i ∈ file.imports) : Concerns file i.package
  /-- A front part of a dotted identifier or of a type name, but not all of it. -/
  | spelled {r : Reference} (hr : r ∈ file.references) {n : Nat} (hpos : 0 < n)
      (hlt : n < r.parts.length) : Concerns file (".".intercalate (r.parts.take n))

/-- The tables agree on the existence of the packages that a file imports and on the symbols of the
packages that concern it. -/
structure AgreeFor (file : File) (t t' : SymbolTable) : Prop where
  hasPackage : ∀ i ∈ file.imports, t.hasPackage i.package = t'.hasPackage i.package
  lookup? : ∀ package, Concerns file package → ∀ name,
    t.lookup? package name = t'.lookup? package name

namespace Environment

/-- Qualified names are looked up in the packages that the front parts spell. -/
theorem qualified?_congr {env env' : Environment} {parts : List String}
    (h : ∀ n name, 0 < n → parts[n]? = some name →
      env.visible? (".".intercalate (parts.take n)) name =
        env'.visible? (".".intercalate (parts.take n)) name) :
    env.qualified? parts = env'.qualified? parts := by
  have hat : ∀ n, env.qualifiedAt? parts (n + 1) = env'.qualifiedAt? parts (n + 1) := by
    intro n
    rw [qualifiedAt?, qualifiedAt?]
    cases hpart : parts[n + 1]? with
    | none => rfl
    | some name => exact h (n + 1) name (Nat.succ_pos n) hpart
  rw [qualified?, qualified?]
  induction parts.length - 1 with
  | zero => rfl
  | succ n ih => rw [qualifiedUpTo?, qualifiedUpTo?, hat n, ih]

/-- The environment over another table. -/
def withTable (env : Environment) (table : SymbolTable) : Environment := { env with table := table }

/-- The environment is one of the file: it looks up names in packages that concern the file. -/
structure Within (env : Environment) (file : File) : Prop where
  package : env.package = file.packageName
  wildcards : ∀ package ∈ env.wildcards, Concerns file package

section

variable {file : File} {t t' : SymbolTable} (h : AgreeFor file t t') {env : Environment}
include h

theorem visible?_withTable {package : String} (hpackage : Concerns file package) (name : String) :
    (env.withTable t').visible? package name = (env.withTable t).visible? package name :=
  congrArg (Option.filter env.sees) (h.lookup? package hpackage name).symm

theorem qualified?_withTable {r : Reference} (hr : r ∈ file.references) :
    (env.withTable t').qualified? r.parts = (env.withTable t).qualified? r.parts := by
  apply qualified?_congr
  intro n name hpos hpart
  obtain ⟨hlt, _⟩ := List.getElem?_eq_some_iff.1 hpart
  exact visible?_withTable h (.spelled hr hpos hlt) name

section

variable (henv : env.Within file)
include henv

theorem wildcardMatches_withTable (name : String) :
    (env.withTable t').wildcardMatches name = (env.withTable t).wildcardMatches name := by
  rw [wildcardMatches, wildcardMatches]
  refine congrArg distinct (List.filterMap_congr ?_)
  intro package hpackage
  exact visible?_withTable h (henv.wildcards package hpackage) name

theorem symbol?_withTable (name : String) :
    (env.withTable t').symbol? name = (env.withTable t).symbol? name := by
  have htop : (env.withTable t').topLevel? name = (env.withTable t).topLevel? name :=
    congrArg (Option.filter _) (h.lookup? "" .topLevel name).symm
  have himported : (env.withTable t').imported? name = (env.withTable t).imported? name := rfl
  have hown : (env.withTable t').table.lookup? (env.withTable t').package name =
      (env.withTable t).table.lookup? (env.withTable t).package name :=
    (h.lookup? env.package (henv.package ▸ .own) name).symm
  rw [symbol?, symbol?, himported, wildcardMatches_withTable h henv, hown, htop]

theorem lookup_withTable (ctx : Script.Context) (name : String) :
    (env.withTable t').lookup ctx name = (env.withTable t).lookup ctx name := by
  rw [lookup, lookup, symbol?_withTable h henv]
  rfl

theorem bind_withTable {r : Reference} (hr : r ∈ file.references) :
    (env.withTable t').bind r = (env.withTable t).bind r := by
  have hidentifier : (env.withTable t').identifier r = (env.withTable t).identifier r := by
    rw [identifier, identifier, lookup_withTable h henv, qualified?_withTable h hr]
  have htypeName : (env.withTable t').typeName r = (env.withTable t).typeName r := by
    rw [typeName, typeName, lookup_withTable h henv, qualified?_withTable h hr]
  rw [bind, bind, hidentifier, htypeName]

end

variable (env)

theorem importAll_withTable {i : Import} (hi : i ∈ file.imports) (hwildcard : i.wildcard = true) :
    (env.withTable t').importAll i.name.dotted =
      ((env.withTable t).importAll i.name.dotted).map (withTable · t') := by
  have hpackage := h.hasPackage i hi
  rw [Import.package, if_pos hwildcard] at hpackage
  have hexists : (env.withTable t').table.hasPackage i.name.dotted =
      (env.withTable t).table.hasPackage i.name.dotted := hpackage.symm
  rw [importAll, importAll, hexists]
  split
  · change Except.ok _ = Except.ok (withTable _ t')
    rw [apply_ite (withTable · t')]
    rfl
  · rfl

theorem importOne_withTable {i : Import} (hi : i ∈ file.imports) (hwildcard : i.wildcard = false) :
    (env.withTable t').importOne i.name.qualifier i.name.last =
      ((env.withTable t).importOne i.name.qualifier i.name.last).map (withTable · t') := by
  have hplace : i.package = i.name.qualifier := by rw [Import.package, hwildcard]; rfl
  have hpackage : (env.withTable t').table.hasPackage i.name.qualifier =
      (env.withTable t).table.hasPackage i.name.qualifier := hplace ▸ (h.hasPackage i hi).symm
  have hlookup : (env.withTable t').table.lookup? i.name.qualifier i.name.last =
      (env.withTable t).table.lookup? i.name.qualifier i.name.last :=
    (h.lookup? _ (hplace ▸ .imported hi) _).symm
  have hsees : (env.withTable t').sees = (env.withTable t).sees := rfl
  have himported : (env.withTable t').imported? i.name.last =
      (env.withTable t).imported? i.name.last := rfl
  rw [importOne, importOne, hpackage, hlookup, hsees, himported]
  split
  · split
    · rfl
    · split
      · split
        · rfl
        · split
          · rfl
          · rfl
      · rfl
  · rfl

theorem addImport_withTable {i : Import} (hi : i ∈ file.imports) :
    (env.withTable t').addImport i =
      ((env.withTable t).addImport i).map (withTable · t') := by
  rw [addImport, addImport]
  split
  · next hwildcard => exact importAll_withTable h env hi hwildcard
  · next hnamed => exact importOne_withTable h env hi (Bool.eq_false_iff.2 hnamed)

theorem addImports_withTable {imports : List Import} (hall : ∀ i ∈ imports, i ∈ file.imports) :
    (env.withTable t').addImports imports =
      (((env.withTable t).addImports imports).1.withTable t',
        ((env.withTable t).addImports imports).2) := by
  induction imports generalizing env with
  | nil => rfl
  | cons i imports ih =>
      have hrest : ∀ j ∈ imports, j ∈ file.imports := fun j hj => hall j (List.mem_cons_of_mem _ hj)
      rw [addImports, addImports, addImport_withTable h env (hall i List.mem_cons_self)]
      cases hi : (env.withTable t).addImport i with
      | ok next =>
          have hnext : next = next.withTable t := by
            have htable : next.table = t := (addImport_same hi).1
            rw [withTable, ← htable]
          rw [hnext]
          exact ih next hrest
      | error reason =>
          rw [ih env hrest]
          rfl

end

theorem wildcards_addImport {env env' : Environment} {i : Import} (h : env.addImport i = .ok env')
    {package : String} (hp : package ∈ env'.wildcards) :
    package ∈ env.wildcards ∨ package = i.package := by
  rw [addImport] at h
  split at h
  · next hwildcard =>
      rw [importAll] at h
      split at h
      · cases h
        split at hp
        · exact Or.inl hp
        · rw [Import.package, if_pos hwildcard]
          exact (List.mem_append.1 hp).imp_right List.mem_singleton.1
      · cases h
  · rw [importOne] at h
    split at h
    · split at h
      · cases h
      · split at h
        · split at h
          · cases h
            exact Or.inl hp
          · split at h
            · cases h
              exact Or.inl hp
            · cases h
        · cases h
    · cases h

theorem Within.addImports {file : File} {env : Environment} (henv : env.Within file)
    {imports : List Import} (hall : ∀ i ∈ imports, i ∈ file.imports) :
    (env.addImports imports).1.Within file := by
  induction imports generalizing env with
  | nil => exact henv
  | cons i imports ih =>
      have hrest : ∀ j ∈ imports, j ∈ file.imports := fun j hj => hall j (List.mem_cons_of_mem _ hj)
      rw [Environment.addImports]
      cases hadd : env.addImport i with
      | ok env' =>
          refine ih ⟨(addImport_same hadd).2.1.trans henv.package, ?_⟩ hrest
          intro package hp
          obtain hold | rfl := wildcards_addImport hadd hp
          · exact henv.wildcards package hold
          · exact .imported (hall i List.mem_cons_self)
      | error reason => exact ih henv hrest

theorem within_ofFile (table : SymbolTable) (file : File) : (ofFile table file).Within file :=
  ⟨rfl, fun _ hp => absurd hp List.not_mem_nil⟩

end Environment

theorem linkAll_withTable {file : File} {t t' : SymbolTable} (h : AgreeFor file t t')
    {env : Environment} (henv : env.Within file) {references : List Reference}
    (hall : ∀ r ∈ references, r ∈ file.references) :
    linkAll (env.withTable t') references = linkAll (env.withTable t) references := by
  induction references with
  | nil => rfl
  | cons r references ih =>
      rw [linkAll, linkAll, ih fun x hx => hall x (List.mem_cons_of_mem _ hx),
        Environment.bind_withTable h henv (hall r List.mem_cons_self)]

/-- Tables that agree where a file asks resolve it alike. -/
theorem run_eq_of_agreeFor {source : Source} {t t' : SymbolTable}
    (h : AgreeFor source.file t t') : run source t = run source t' := by
  have hall : ∀ i ∈ source.file.imports, i ∈ source.file.imports := fun _ hi => hi
  have hself : AgreeFor source.file t t := ⟨fun _ _ => rfl, fun _ _ _ => rfl⟩
  have himports := Environment.addImports_withTable hself (.ofFile t source.file) hall
  have himports' := Environment.addImports_withTable h (.ofFile t source.file) hall
  change (Environment.ofFile t source.file).addImports _ = _ at himports
  change (Environment.ofFile t' source.file).addImports _ = _ at himports'
  have hwithin := ((Environment.within_ofFile t source.file).addImports hall)
  change (((Environment.ofFile t source.file).withTable t).addImports _).1.Within _ at hwithin
  rw [run, run, himports', himports]
  dsimp only
  rw [linkAll_withTable h hwithin fun _ hr => hr]

/-- Agreeing tables resolve every file alike. -/
theorem run_eq_of_agrees {t t' : SymbolTable} (h : t.Agrees t') (source : Source) :
    run source t = run source t' :=
  run_eq_of_agreeFor ⟨fun _ _ => h.hasPackage _, fun package _ name => h.lookup? package name⟩

end Resolve
end ScriptWeave
