import Mathlib
import ScriptWeave.Proofs.Module.Clashes

/-!
What a table stands for: the calls that its builder took before it was frozen. Every name answers
with the symbol that was added last, packages and names stand once each, and the total is that of
the packages.
-/

namespace ScriptWeave

namespace TableCall

/-- The registration that a call asks for. -/
def registration? : TableCall → Option Registration
  | .add package symbol => some ⟨symbol.exportPath, package, symbol⟩
  | _ => none

/-- The package that a call makes sure of. -/
def package? : TableCall → Option String
  | .createPackage package => some package
  | .add package _ => some package
  | _ => none

/-- The symbol of the last call that adds one of a name to a package. -/
def lastAdded? (calls : List TableCall) (package name : String) : Option Symbol :=
  (Registration.last? (calls.filterMap registration?) package name).map (·.symbol)

/-- The names that calls add to a package, in order of their first addition. -/
def addedNames (calls : List TableCall) (package : String) : List String :=
  Registration.names (calls.filterMap registration?) package

/-- The calls that a builder takes before it is frozen. -/
def beforeFreeze (calls : List TableCall) : List TableCall := calls.takeWhile (· ≠ .freeze)

theorem beforeFreeze_append_of_not_mem {calls : List TableCall} (h : .freeze ∉ calls)
    (late : List TableCall) : beforeFreeze (calls ++ late) = calls ++ beforeFreeze late :=
  List.takeWhile_append_of_pos fun _ hcall => decide_eq_true fun heq => h (heq ▸ hcall)

theorem beforeFreeze_of_not_mem {calls : List TableCall} (h : .freeze ∉ calls) :
    beforeFreeze calls = calls := by
  simpa [beforeFreeze] using beforeFreeze_append_of_not_mem h []

theorem beforeFreeze_append_of_mem {calls : List TableCall} (h : .freeze ∈ calls)
    (late : List TableCall) : beforeFreeze (calls ++ late) = beforeFreeze calls := by
  rw [beforeFreeze, List.takeWhile_append, if_neg]
  · rfl
  · intro hlength
    have hall := List.takeWhile_eq_self_iff.1 ((List.takeWhile_prefix _).eq_of_length hlength)
    exact of_decide_eq_true (hall _ h) rfl

end TableCall

open TableCall

namespace SymbolTable

/-- A table is the map of the last symbols that calls add, with packages and names in order. -/
structure Refines (t : SymbolTable) (calls : List TableCall) : Prop where
  lookup? : ∀ package name, t.lookup? package name = lastAdded? calls package name
  hasPackage : ∀ package,
    t.hasPackage package = true ↔ ∃ call ∈ calls, call.package? = some package
  /-- The names of a package stand once each, in order of their first addition. -/
  names : ∀ package, (t.symbols package).map (·.name) = addedNames calls package
  nodup : ∀ package, ((t.symbols package).map (·.name)).Nodup
  /-- Each name of a package stands with its last symbol. -/
  symbols : ∀ package,
    (t.symbols package).map some = (addedNames calls package).map (lastAdded? calls package)
  sorted : t.packages.SortedLT
  mem_packages : ∀ package, package ∈ t.packages ↔ t.hasPackage package = true
  size : t.size = (t.packages.map fun package => (t.symbols package).length).sum

/-- What every call keeps up: the registrations, and the packages once each. -/
structure Follows (t : SymbolTable) (calls : List TableCall) : Prop where
  records : t.Records (calls.filterMap registration?)
  mem_names : ∀ package, package ∈ t.names ↔ ∃ call ∈ calls, call.package? = some package

theorem follows_empty : Follows .empty [] :=
  ⟨records_empty, fun _ => ⟨nofun, nofun⟩⟩

variable {t : SymbolTable} {calls : List TableCall}

/-- A call that makes sure of a package adds it to the packages. -/
theorem Follows.mem_names_register (h : t.Follows calls) {call : TableCall} {e : Export}
    (hhome : call.package? = some e.home) (package : String) :
    package ∈ (t.register e).names ↔ ∃ c ∈ calls ++ [call], c.package? = some package := by
  rw [SymbolTable.mem_names_register, h.mem_names]
  simp only [List.mem_append, List.mem_singleton, or_and_right, exists_or, exists_eq_left, hhome,
    Option.some.injEq]

theorem Follows.createPackage (h : t.Follows calls) (package : String) :
    (t.declare package).Follows (calls ++ [.createPackage package]) where
  records := by
    rw [List.filterMap_append, List.filterMap_cons_none rfl, List.filterMap_nil, List.append_nil]
    exact h.records.declare package
  mem_names := h.mem_names_register (e := .package package) rfl

theorem Follows.add (h : t.Follows calls) (package : String) (symbol : Symbol) :
    (t.insert package symbol).Follows (calls ++ [.add package symbol]) where
  records := by
    rw [List.filterMap_append]
    exact h.records.insert ⟨symbol.exportPath, package, symbol⟩
  mem_names := h.mem_names_register (e := .symbol package symbol) rfl

theorem Follows.lookup (h : t.Follows calls) (package name : String) :
    t.Follows (calls ++ [.lookup package name]) where
  records := by
    rw [List.filterMap_append, List.filterMap_cons_none rfl, List.filterMap_nil, List.append_nil]
    exact h.records
  mem_names other := by
    rw [h.mem_names]
    simp [package?, or_and_right, exists_or]

theorem Follows.lookup? (h : t.Follows calls) (package name : String) :
    t.lookup? package name = lastAdded? calls package name :=
  h.records.lookup? package name

theorem Follows.nodup_symbols (h : t.Follows calls) (package : String) :
    ((t.symbols package).map (·.name)).Nodup := by
  rw [h.records.names]
  exact Resolve.nodup_distinct _

theorem Follows.symbols (h : t.Follows calls) (package : String) :
    (t.symbols package).map some = (addedNames calls package).map (lastAdded? calls package) := by
  rw [addedNames, ← h.records.names, map_name_symbols, symbols_eq, OrderedMap.map_some_values]
  apply List.map_congr_left
  intro name _
  rw [← lookup?_eq, h.lookup?]

theorem packages_perm (t : SymbolTable) : t.packages.Perm t.names := List.mergeSort_perm _ _

theorem size_eq_sum (t : SymbolTable) :
    t.size = (t.packages.map fun package => (t.symbols package).length).sum := by
  have hentries : (t.homes.entries.map fun e => e.2.symbols.size) =
      (t.homes.entries.map (·.1)).map fun package => (t.symbols package).length := by
    rw [List.map_map]
    apply List.map_congr_left
    intro e he
    rw [Function.comp_apply, symbols_eq, OrderedMap.length_values, contents, entry?,
      OrderedMap.get?_of_mem he]
    rfl
  have hsum : t.size = (t.homes.entries.map fun e => e.2.symbols.size).sum := by
    rw [List.sum_eq_foldr, List.foldr_map]
    rfl
  rw [hsum, hentries]
  exact ((t.homes.keys_perm.trans t.packages_perm.symm).map _).sum_nat

theorem Follows.refines (h : t.Follows calls) : t.Refines calls where
  lookup? := h.lookup?
  hasPackage package := (t.hasPackage_iff package).trans (h.mem_names package)
  names := h.records.names
  nodup := h.nodup_symbols
  symbols := h.symbols
  sorted := List.sortedLE_mergeSort.sortedLT_of_nodup (t.packages_perm.nodup_iff.2 t.nodup_names)
  mem_packages package := t.packages_perm.mem_iff.trans (t.hasPackage_iff package).symm
  size := t.size_eq_sum

end SymbolTable

/-- What a builder answers to a call after earlier ones. -/
inductive TableCall.Answered (earlier : List TableCall) : TableCall → TableAnswer → Prop where
  | created (package : String) (hopen : .freeze ∉ earlier) :
      Answered earlier (.createPackage package) .done
  | added (package : String) (symbol : Symbol) (hopen : .freeze ∉ earlier) :
      Answered earlier (.add package symbol) (.replaced (lastAdded? earlier package symbol.name))
  | found (package name : String) :
      Answered earlier (.lookup package name)
        (.found (lastAdded? (beforeFreeze earlier) package name))
  | frozen (t : SymbolTable) (hopen : .freeze ∉ earlier) (htable : t.Refines earlier) :
      Answered earlier .freeze (.table t)
  | refused (call : TableCall) (hfrozen : .freeze ∈ earlier)
      (hchanges : ∀ package name, call ≠ .lookup package name) :
      Answered earlier call (.panicked TableBuilder.frozenMessage)

namespace TableBuilder

/-- What calls in a row come to, from a new builder. Once the table was handed out it stays. -/
structure Followed (calls : List TableCall) (outcome : TableBuilder × List TableAnswer) : Prop where
  table : outcome.1.table.Refines (beforeFreeze calls)
  frozen : outcome.1.frozen = true ↔ .freeze ∈ calls
  kept : ∀ t, .table t ∈ outcome.2 → outcome.1 = ⟨t, true⟩
  length : outcome.2.length = calls.length
  answered : ∀ before call after, calls = before ++ call :: after →
    ∃ answer, outcome.2[before.length]? = some answer ∧ Answered before call answer

theorem performAll_cons (b : TableBuilder) (call : TableCall) (calls : List TableCall) :
    b.performAll (call :: calls) =
      (((b.perform call).1.performAll calls).1,
        (b.perform call).2 :: ((b.perform call).1.performAll calls).2) := rfl

theorem performAll_append (b : TableBuilder) (calls calls' : List TableCall) :
    b.performAll (calls ++ calls') =
      (((b.performAll calls).1.performAll calls').1,
        (b.performAll calls).2 ++ ((b.performAll calls).1.performAll calls').2) := by
  induction calls generalizing b with
  | nil => rfl
  | cons call calls ih =>
      rw [List.cons_append, performAll_cons, ih, performAll_cons, List.cons_append]

theorem length_performAll (b : TableBuilder) (calls : List TableCall) :
    (b.performAll calls).2.length = calls.length := by
  induction calls generalizing b with
  | nil => rfl
  | cons call calls ih => rw [performAll_cons, List.length_cons, ih, List.length_cons]

theorem perform_of_frozen {b : TableBuilder} (h : b.frozen = true) (call : TableCall) :
    (b.perform call).1 = b := by
  cases call with
  | createPackage package => rw [perform, createPackage?, if_pos h]
  | add package symbol => rw [perform, add?, if_pos h]
  | lookup package name => rfl
  | freeze => rw [perform, freeze?, if_pos h]

/-- The table follows the calls up to the freeze, which ends the changes. -/
structure Keeps (b : TableBuilder) (calls : List TableCall) : Prop where
  table : b.table.Follows (beforeFreeze calls)
  frozen : b.frozen = true ↔ .freeze ∈ calls

variable {b : TableBuilder} {calls : List TableCall}

theorem keeps_empty : Keeps .empty [] := ⟨SymbolTable.follows_empty, nofun, nofun⟩

theorem Keeps.of_open (htable : b.table.Follows calls) (hfrozen : b.frozen = false)
    (hopen : .freeze ∉ calls) : b.Keeps calls where
  table := by rwa [beforeFreeze_of_not_mem hopen]
  frozen := iff_of_false (by rw [hfrozen]; exact Bool.false_ne_true) hopen

/-- While the builder is open, a call is taken and answered from the calls before it. -/
theorem Keeps.perform_of_open (h : b.Keeps calls) (hopen : .freeze ∉ calls) (call : TableCall) :
    (b.perform call).1.Keeps (calls ++ [call]) ∧ Answered calls call (b.perform call).2 := by
  have htable : b.table.Follows calls := beforeFreeze_of_not_mem hopen ▸ h.table
  have hfrozen : b.frozen = false := Bool.eq_false_iff.2 fun hb => hopen (h.frozen.1 hb)
  have hstays : ∀ call ≠ .freeze, .freeze ∉ calls ++ [call] := by
    intro call hcall hmem
    cases List.mem_append.1 hmem with
    | inl hmem => exact hopen hmem
    | inr hmem => exact hcall (List.mem_singleton.1 hmem).symm
  cases call with
  | createPackage package =>
      have hperform : b.perform (.createPackage package) =
          ({ b with table := b.table.declare package }, .done) := by
        rw [perform, createPackage?, if_neg (Bool.eq_false_iff.1 hfrozen)]
      rw [hperform]
      exact ⟨.of_open (htable.createPackage package) hfrozen (hstays _ nofun),
        .created package hopen⟩
  | add package symbol =>
      have hperform : b.perform (.add package symbol) =
          ({ b with table := b.table.insert package symbol },
            .replaced (b.table.lookup? package symbol.name)) := by
        rw [perform, add?, if_neg (Bool.eq_false_iff.1 hfrozen)]
      rw [hperform, htable.lookup?]
      exact ⟨.of_open (htable.add package symbol) hfrozen (hstays _ nofun),
        .added package symbol hopen⟩
  | lookup package name =>
      rw [perform, h.table.lookup?]
      exact ⟨.of_open (htable.lookup package name) hfrozen (hstays _ nofun), .found package name⟩
  | freeze =>
      have hperform : b.perform .freeze = ({ b with frozen := true }, .table b.table) := by
        rw [perform, freeze?, if_neg (Bool.eq_false_iff.1 hfrozen)]
      rw [hperform]
      refine ⟨⟨?_, iff_of_true rfl (List.mem_append_right _ List.mem_cons_self)⟩,
        .frozen b.table hopen htable.refines⟩
      rw [beforeFreeze_append_of_not_mem hopen]
      simpa [beforeFreeze] using htable

/-- After the freeze, only a lookup is answered. -/
theorem Keeps.perform_of_frozen (h : b.Keeps calls) (hmem : .freeze ∈ calls) (call : TableCall) :
    (b.perform call).1.Keeps (calls ++ [call]) ∧ Answered calls call (b.perform call).2 := by
  have hfrozen : b.frozen = true := h.frozen.2 hmem
  constructor
  · rw [TableBuilder.perform_of_frozen hfrozen]
    refine ⟨?_, iff_of_true hfrozen (List.mem_append_left _ hmem)⟩
    rw [beforeFreeze_append_of_mem hmem]
    exact h.table
  · cases call with
    | createPackage package =>
        rw [perform, createPackage?, if_pos hfrozen]
        exact .refused _ hmem nofun
    | add package symbol =>
        rw [perform, add?, if_pos hfrozen]
        exact .refused _ hmem nofun
    | lookup package name =>
        rw [perform, h.table.lookup?]
        exact .found package name
    | freeze =>
        rw [perform, freeze?, if_pos hfrozen]
        exact .refused _ hmem nofun

theorem Keeps.perform (h : b.Keeps calls) (call : TableCall) :
    (b.perform call).1.Keeps (calls ++ [call]) ∧ Answered calls call (b.perform call).2 := by
  by_cases hmem : .freeze ∈ calls
  · exact h.perform_of_frozen hmem call
  · exact h.perform_of_open hmem call

theorem performAll_snoc (b : TableBuilder) (calls : List TableCall) (call : TableCall) :
    b.performAll (calls ++ [call]) =
      (((b.performAll calls).1.perform call).1,
        (b.performAll calls).2 ++ [((b.performAll calls).1.perform call).2]) :=
  b.performAll_append calls [call]

/-- The calls before any moment of a run are kept track of. -/
theorem keeps_performAll (calls : List TableCall) : (empty.performAll calls).1.Keeps calls := by
  induction calls using List.reverseRecOn with
  | nil => exact keeps_empty
  | append_singleton calls call ih =>
      rw [performAll_snoc]
      exact (ih.perform call).1

/-- A builder that hands its table out has it, and is frozen. -/
theorem eq_of_perform_table {call : TableCall} {t : SymbolTable}
    (h : (b.perform call).2 = .table t) : (b.perform call).1 = ⟨t, true⟩ := by
  cases call with
  | createPackage package =>
      rw [TableBuilder.perform] at h
      split at h <;> cases h
  | add package symbol =>
      rw [TableBuilder.perform] at h
      split at h <;> cases h
  | lookup package name => cases h
  | freeze =>
      rw [TableBuilder.perform, freeze?] at h ⊢
      by_cases hfrozen : b.frozen = true
      · rw [if_pos hfrozen] at h
        cases h
      · rw [if_neg hfrozen] at h ⊢
        cases h
        rfl

/-- A table that was handed out is the one that the builder has at every later moment. -/
theorem eq_of_mem_performAll {calls : List TableCall} {t : SymbolTable}
    (h : .table t ∈ (b.performAll calls).2) : (b.performAll calls).1 = ⟨t, true⟩ := by
  induction calls using List.reverseRecOn with
  | nil => cases h
  | append_singleton calls call ih =>
      rw [performAll_snoc] at h ⊢
      cases List.mem_append.1 h with
      | inl h =>
          rw [TableBuilder.perform_of_frozen (by rw [ih h]), ih h]
      | inr h => exact eq_of_perform_table (List.mem_singleton.1 h).symm

/-- For every sequence of calls, the table is the ordered map of the symbols added last before the
freeze, and each call is answered from the calls before it. -/
theorem followed_performAll (calls : List TableCall) :
    Followed calls (empty.performAll calls) where
  table := (keeps_performAll calls).table.refines
  frozen := (keeps_performAll calls).frozen
  kept _ := eq_of_mem_performAll
  length := empty.length_performAll calls
  answered before call after hcalls := by
    subst hcalls
    refine ⟨((empty.performAll before).1.perform call).2, ?_,
      ((keeps_performAll before).perform call).2⟩
    rw [performAll_append, List.getElem?_append_right (empty.length_performAll before).le,
      length_performAll, Nat.sub_self, performAll_cons]
    rfl

example : (empty.performAll [.add "p" ⟨"a", "p", .type, true, ⟨"p/A.js"⟩⟩,
    .add "p" ⟨"a", "p", .function, true, ⟨"p/B.js"⟩⟩, .freeze,
    .add "p" ⟨"a", "p", .type, true, ⟨"p/C.js"⟩⟩]).1.table.lookup? "p" "a" =
      some ⟨"a", "p", .function, true, ⟨"p/B.js"⟩⟩ := by decide

end TableBuilder
end ScriptWeave
