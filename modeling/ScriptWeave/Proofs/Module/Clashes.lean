import ScriptWeave.Proofs.Module.Registration
import ScriptWeave.Proofs.Resolve.External

/-!
Exports that meet an earlier one of their package and name. Each clashes with the last one before
it, takes its place in the table, and is what the next one clashes with.
-/

namespace ScriptWeave

/-- A symbol that a module exports into a package. -/
structure Registration where
  exporter : ModuleId
  package : String
  symbol : Symbol

namespace Registration

/-- The registration that an export stands for, unless it is of a package alone. -/
def ofExport? (exporter : ModuleId) : Export → Option Registration
  | .package _ => none
  | .symbol package symbol => some ⟨exporter, package, symbol⟩

/-- The registrations of the exports of files, in order. -/
def ofFiles (files : List (ModuleId × List Export)) : List Registration :=
  files.flatMap fun file => file.2.filterMap (ofExport? file.1)

def key (r : Registration) : String × String := (r.package, r.symbol.name)

/-- The last registration of a name in a package. -/
def last? (rs : List Registration) (package name : String) : Option Registration :=
  (rs.filter (·.key = (package, name))).getLast?

/-- The names of a package in order of first registration. -/
def names (rs : List Registration) (package : String) : List String :=
  Resolve.distinct ((rs.filter (·.package = package)).map (·.symbol.name))

variable {rs : List Registration} {r : Registration} {package name : String}

theorem last?_append_singleton : last? (rs ++ [r]) package name =
    if r.key = (package, name) then some r else last? rs package name := by
  rw [last?, last?, List.filter_append]
  by_cases h : r.key = (package, name)
  · simp [h]
  · simp [h]

theorem last?_eq_none_iff : last? rs package name = none ↔ (package, name) ∉ rs.map key := by
  rw [last?, List.getLast?_eq_none_iff, List.filter_eq_nil_iff, List.mem_map]
  simp

theorem mem_of_last? (h : last? rs package name = some r) : r ∈ rs :=
  List.mem_of_mem_filter (List.mem_of_getLast? h)

end Registration

theorem Resolve.distinct_append_singleton {α : Type} [DecidableEq α] (as : List α) (a : α) :
    distinct (as ++ [a]) = if a ∈ as then distinct as else distinct as ++ [a] := by
  induction as with
  | nil => rfl
  | cons b as ih =>
      rw [List.cons_append, distinct, ih, distinct]
      by_cases hab : a = b
      · subst hab
        rw [if_pos List.mem_cons_self]
        split
        · rfl
        · rw [List.filter_append]
          simp
      · simp only [List.mem_cons, hab, false_or]
        split
        · rfl
        · rw [List.filter_append, List.filter_cons_of_pos (by simpa using hab), List.filter_nil]
          rfl

namespace SymbolTable

/-- The table answers every name with its last registration, and lists the names of a package in
order of first registration. -/
structure Records (t : SymbolTable) (rs : List Registration) : Prop where
  lookup? : ∀ package name,
    t.lookup? package name = (Registration.last? rs package name).map (·.symbol)
  names : ∀ package, (t.symbols package).map (·.name) = Registration.names rs package

theorem records_empty : Records .empty [] := ⟨fun _ _ => rfl, fun _ => rfl⟩

theorem symbols_declare (t : SymbolTable) (package other : String) :
    (t.declare package).symbols other = t.symbols other := by
  rw [symbols_eq, contents_declare, symbols_eq]

/-- The names of the symbols of a package, in order of their first registration. -/
theorem map_name_symbols (t : SymbolTable) (package : String) :
    (t.symbols package).map (·.name) = (t.contents package).symbols.order := by
  rw [symbols_eq, PackageEntry.map_name_values]

theorem names_symbols_insert (t : SymbolTable) (package : String) (s : Symbol) (other : String) :
    ((t.insert package s).symbols other).map (·.name) =
      if package = other ∧ s.name ∉ (t.symbols other).map (·.name) then
        (t.symbols other).map (·.name) ++ [s.name]
      else (t.symbols other).map (·.name) := by
  rw [map_name_symbols, map_name_symbols, contents_insert]
  by_cases h : other = package
  · subst h
    rw [if_pos rfl]
    refine (OrderedMap.order_insert _ s.name s).trans ?_
    simp only [true_and, ite_not]
  · rw [if_neg h, if_neg fun hboth => h hboth.1.symm]

variable {t : SymbolTable} {rs : List Registration}

theorem Records.insert (h : t.Records rs) (r : Registration) :
    (t.insert r.package r.symbol).Records (rs ++ [r]) where
  lookup? package name := by
    rw [lookup?_insert, Registration.last?_append_singleton, h.lookup?]
    by_cases hkey : package = r.package ∧ name = r.symbol.name
    · rw [if_pos hkey, if_pos (by rw [hkey.1, hkey.2]; rfl), Option.map_some]
    · rw [if_neg hkey, if_neg]
      intro heq
      exact hkey ⟨(congrArg Prod.fst heq).symm, (congrArg Prod.snd heq).symm⟩
  names package := by
    rw [names_symbols_insert, h.names, Registration.names, Registration.names, List.filter_append]
    by_cases hpackage : r.package = package
    · have hlast : [r].filter (·.package = package) = [r] := by simp [hpackage]
      rw [hlast, List.map_append, List.map_singleton, Resolve.distinct_append_singleton]
      simp only [hpackage, true_and, Resolve.mem_distinct, ite_not]
    · rw [if_neg fun hboth => hpackage hboth.1, List.filter_cons_of_neg (by simpa using hpackage),
        List.filter_nil, List.append_nil]

theorem Records.declare (h : t.Records rs) (package : String) : (t.declare package).Records rs where
  lookup? other name := by rw [lookup?_declare, h.lookup?]
  names other := by rw [symbols_declare, h.names]

end SymbolTable

/-- A registration that meets one of its package and name, by the modules that they stem from. -/
structure Clash where
  package : String
  name : String
  previous : ModuleId
  incoming : ModuleId
deriving DecidableEq, Repr

namespace Clash

/-- The clash of a registration with the last one before it. -/
def of? (before : List Registration) (r : Registration) : Option Clash :=
  (Registration.last? before r.package r.symbol.name).map fun previous =>
    ⟨r.package, r.symbol.name, previous.exporter, r.exporter⟩

/-- The clashes of registrations that follow others, in order. -/
def after (before : List Registration) : List Registration → List Clash
  | [] => []
  | r :: rs => (of? before r).toList ++ after (before ++ [r]) rs

/-- The clashes among registrations. -/
abbrev among (rs : List Registration) : List Clash := after [] rs

theorem after_append (before rs rs' : List Registration) :
    after before (rs ++ rs') = after before rs ++ after (before ++ rs) rs' := by
  induction rs generalizing before with
  | nil => rw [List.append_nil]; rfl
  | cons r rs ih =>
      rw [List.cons_append, after, after, ih, List.append_assoc, List.append_assoc]
      rfl

theorem among_append_singleton (rs : List Registration) (r : Registration) :
    among (rs ++ [r]) = among rs ++ (of? rs r).toList := by
  rw [among, after_append, List.nil_append, after, after, List.append_nil]

theorem of?_eq_none_iff {before : List Registration} {r : Registration} :
    of? before r = none ↔ r.key ∉ before.map (·.key) := by
  rw [of?, Option.map_eq_none_iff, Registration.last?_eq_none_iff]
  rfl

/-- Registrations do not clash exactly if no two share package and name. -/
theorem among_eq_nil_iff (rs : List Registration) :
    among rs = [] ↔ (rs.map (·.key)).Nodup := by
  induction rs using List.reverseRecOn with
  | nil => exact iff_of_true rfl List.nodup_nil
  | append_singleton rs r ih =>
      rw [among_append_singleton, List.append_eq_nil_iff, ih, Option.toList_eq_nil_iff,
        of?_eq_none_iff, List.map_append, List.map_singleton, List.nodup_append]
      simp

end Clash
end ScriptWeave
