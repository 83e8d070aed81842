import Mathlib.Data.List.Induction
import Mathlib.Data.List.Nodup
import Mathlib.Data.List.Perm.Basic
import Mathlib.Data.List.Sort
import Mathlib.Data.String.Basic
import ScriptWeave.Proofs.Module.SymbolTable

/-!
What a table answers after registrations. One registration adds its package to the package names and
answers for its own symbol, and changes nothing else. Exports that share no package and name can
therefore be registered in any order.
-/

namespace ScriptWeave

/-- The package that an export belongs to. -/
def Export.home : Export → String
  | .package name => name
  | .symbol home _ => home

/-- The package and the name of an exported symbol. -/
def Export.key? : Export → Option (String × String)
  | .package _ => none
  | .symbol home s => some (home, s.name)

namespace OrderedMap

variable {α : Type} (m : OrderedMap α)

theorem get?_insert (name : String) (a : α) (other : String) :
    (m.insert name a).get? other = if other = name then some a else m.get? other := by
  rw [get?, insert, List.lookup_cons, lookup_filter_ne]
  by_cases h : other = name
  · simp [h]
  · simp [h, beq_eq_false_iff_ne.2 h, get?]

theorem order_insert (name : String) (a : α) :
    (m.insert name a).order = if name ∈ m.order then m.order else m.order ++ [name] := by
  by_cases h : name ∈ m.order
  · rw [if_pos h]
    exact if_pos ((m.contains_iff name).2 h)
  · rw [if_neg h]
    exact if_neg fun hold => h ((m.contains_iff name).1 hold)

variable {m}

theorem get?_of_mem {e : String × α} (he : e ∈ m.entries) : m.get? e.1 = some e.2 := by
  obtain ⟨a, ha⟩ := exists_lookup_of_mem he
  have hsame := List.inj_on_of_nodup_map m.nodup_keys (mem_of_lookup ha) he rfl
  rw [get?, ha, ← hsame]

theorem exists_get?_of_mem_order {name : String} (h : name ∈ m.order) :
    ∃ a, m.get? name = some a :=
  Option.isSome_iff_exists.1 ((m.contains_iff name).2 h)

theorem map_some_values (m : OrderedMap α) : m.values.map some = m.order.map m.get? := by
  have hnames : ∀ names : List String, (∀ name ∈ names, ∃ a, m.get? name = some a) →
      (names.filterMap m.get?).map some = names.map m.get? := by
    intro names
    induction names with
    | nil => exact fun _ => rfl
    | cons name names ih =>
        intro hall
        obtain ⟨a, ha⟩ := hall name List.mem_cons_self
        rw [List.filterMap_cons_some ha, List.map_cons, List.map_cons, ha,
          ih fun x hx => hall x (List.mem_cons_of_mem _ hx)]
  exact hnames m.order fun _ => exists_get?_of_mem_order

theorem length_values (m : OrderedMap α) : m.values.length = m.size := by
  have h := congrArg List.length m.map_some_values
  rw [List.length_map, List.length_map, ← m.keys_perm.length_eq, List.length_map] at h
  exact h

/-- The other entries, when a name has one. -/
theorem perm_cons_filter {name : String} {a : α} (h : m.get? name = some a) :
    m.entries.Perm ((name, a) :: m.entries.filter (·.1 ≠ name)) := by
  have hnodup := List.Nodup.of_map _ m.nodup_keys
  refine (List.perm_ext_iff_of_nodup hnodup ?_).2 ?_
  · exact List.nodup_cons.2 ⟨by simp, hnodup.filter _⟩
  · intro e
    rw [List.mem_cons, List.mem_filter, decide_eq_true_eq]
    constructor
    · intro he
      by_cases hname : e.1 = name
      · refine Or.inl (Prod.ext hname (Option.some.inj ?_))
        rw [← get?_of_mem he, hname, h]
      · exact Or.inr ⟨he, hname⟩
    · rintro (rfl | he)
      · exact mem_of_lookup h
      · exact he.1

theorem filter_ne_of_new {name : String} (h : m.get? name = none) :
    m.entries.filter (·.1 ≠ name) = m.entries := by
  refine List.filter_eq_self.2 fun e he => ?_
  rw [decide_eq_true_eq]
  rintro rfl
  rw [get?_of_mem he] at h
  cases h

theorem entries_insert_of_new {name : String} (h : m.get? name = none) (a : α) :
    (m.insert name a).entries = (name, a) :: m.entries :=
  congrArg _ (filter_ne_of_new h)

end OrderedMap

namespace PackageEntry

theorem get?_register (entry : PackageEntry) (s : Symbol) (name : String) :
    (entry.register s).symbols.get? name =
      if name = s.name then some s else entry.symbols.get? name :=
  entry.symbols.get?_insert s.name s name

theorem size_register {entry : PackageEntry} {s : Symbol} (h : entry.symbols.get? s.name = none) :
    (entry.register s).symbols.size = entry.symbols.size + 1 := by
  have hentries := OrderedMap.entries_insert_of_new h s
  rw [OrderedMap.size, register, hentries, List.length_cons, OrderedMap.size]

theorem map_name_values (entry : PackageEntry) :
    entry.symbols.values.map (·.name) = entry.symbols.order := by
  have h := congrArg (List.map (Option.map (·.name))) entry.symbols.map_some_values
  rw [List.map_map, List.map_map] at h
  refine List.map_injective_iff.2 (Option.some_injective _) ?_
  rw [List.map_map]
  refine h.trans (List.map_congr_left fun name hname => ?_)
  obtain ⟨s, hs⟩ := OrderedMap.exists_get?_of_mem_order hname
  rw [Function.comp_apply, hs, Option.map_some, entry.name_of_get? hs]

end PackageEntry

namespace SymbolTable

/-- The names of the packages in order of first mention. -/
def names (t : SymbolTable) : List String := t.homes.order

theorem nodup_names (t : SymbolTable) : t.names.Nodup := t.homes.nodup_order

theorem hasPackage_iff (t : SymbolTable) (package : String) :
    t.hasPackage package = true ↔ package ∈ t.names := t.homes.contains_iff package

theorem names_declare (t : SymbolTable) (package : String) :
    (t.declare package).names =
      if package ∈ t.names then t.names else t.names ++ [package] := by
  rw [declare]
  split
  · next h => rw [if_pos ((t.hasPackage_iff package).1 h)]
  · exact t.homes.order_insert package .empty

theorem names_insert (t : SymbolTable) (package : String) (s : Symbol) :
    (t.insert package s).names = if package ∈ t.names then t.names else t.names ++ [package] :=
  t.homes.order_insert package _

theorem names_register (t : SymbolTable) (e : Export) :
    (t.register e).names = if e.home ∈ t.names then t.names else t.names ++ [e.home] := by
  cases e with
  | package name => exact t.names_declare name
  | symbol package s => exact t.names_insert package s

/-- The symbols of a package, none when there is no such package. -/
def contents (t : SymbolTable) (package : String) : PackageEntry := (t.entry? package).getD .empty

theorem lookup?_eq (t : SymbolTable) (package name : String) :
    t.lookup? package name = (t.contents package).symbols.get? name := by
  rw [lookup?, contents]
  cases t.entry? package <;> rfl

theorem symbols_eq (t : SymbolTable) (package : String) :
    t.symbols package = (t.contents package).symbols.values := by
  rw [symbols, contents]
  cases t.entry? package <;> rfl

theorem contents_declare (t : SymbolTable) (package other : String) :
    (t.declare package).contents other = t.contents other := by
  rw [declare]
  split
  · rfl
  · next hnew =>
      rw [contents, entry?, OrderedMap.get?_insert, contents, entry?]
      split
      · next heq =>
          have hnone : t.homes.get? other = none := by
            rw [heq]
            exact Option.not_isSome_iff_eq_none.1 hnew
          rw [hnone]
          rfl
      · rfl

theorem contents_insert (t : SymbolTable) (package : String) (s : Symbol) (other : String) :
    (t.insert package s).contents other =
      if other = package then (t.contents package).register s else t.contents other := by
  rw [contents, entry?, insert, OrderedMap.get?_insert]
  split
  · rfl
  · rfl

theorem lookup?_declare (t : SymbolTable) (package other name : String) :
    (t.declare package).lookup? other name = t.lookup? other name := by
  rw [lookup?_eq, contents_declare, lookup?_eq]

theorem lookup?_insert (t : SymbolTable) (package : String) (s : Symbol) (other name : String) :
    (t.insert package s).lookup? other name =
      if other = package ∧ name = s.name then some s else t.lookup? other name := by
  rw [lookup?_eq, contents_insert, lookup?_eq]
  by_cases h : other = package
  · simp only [h, if_true, true_and, PackageEntry.get?_register]
  · simp only [h, if_false, false_and]

/-- One registration answers for its own symbol only. -/
theorem lookup?_register (t : SymbolTable) (e : Export) (package name : String) :
    (t.register e).lookup? package name =
      match e with
      | .package _ => t.lookup? package name
      | .symbol home s =>
          if package = home ∧ name = s.name then some s else t.lookup? package name := by
  cases e with
  | package home => exact t.lookup?_declare home package name
  | symbol home s => exact t.lookup?_insert home s package name

theorem size_declare (t : SymbolTable) (package : String) : (t.declare package).size = t.size := by
  rw [declare]
  split
  · rfl
  · next hnew =>
      have hnone : t.homes.get? package = none := Option.not_isSome_iff_eq_none.1 hnew
      rw [size, OrderedMap.entries_insert_of_new hnone, List.foldr_cons, size]
      exact Nat.zero_add _

/-- A symbol of a new name makes the table larger by one. -/
theorem size_insert {t : SymbolTable} {package : String} {s : Symbol}
    (hfresh : t.lookup? package s.name = none) : (t.insert package s).size = t.size + 1 := by
  rw [lookup?_eq] at hfresh
  have hsize : t.size = (t.contents package).symbols.size +
      (t.homes.entries.filter (·.1 ≠ package)).foldr (fun e n => e.2.symbols.size + n) 0 := by
    rw [size, contents, entry?]
    cases hentry : t.homes.get? package with
    | none =>
        rw [OrderedMap.filter_ne_of_new hentry]
        exact (Nat.zero_add _).symm
    | some entry =>
        have hcomm : LeftCommutative fun (e : String × PackageEntry) n => e.2.symbols.size + n :=
          ⟨fun _ _ _ => Nat.add_left_comm _ _ _⟩
        rw [(OrderedMap.perm_cons_filter hentry).foldr_eq, List.foldr_cons]
        rfl
  have hinsert : (t.insert package s).size = ((t.contents package).register s).symbols.size +
      (t.homes.entries.filter (·.1 ≠ package)).foldr (fun e n => e.2.symbols.size + n) 0 := rfl
  rw [hinsert, PackageEntry.size_register hfresh, hsize]
  omega

theorem registerAll_append (t : SymbolTable) (es es' : List Export) :
    t.registerAll (es ++ es') = (t.registerAll es).registerAll es' :=
  List.foldl_append

theorem mem_names_register (t : SymbolTable) (e : Export) (package : String) :
    package ∈ (t.register e).names ↔ package ∈ t.names ∨ e.home = package := by
  rw [names_register]
  split
  · next hmem =>
      constructor
      · exact Or.inl
      · intro h
        cases h with
        | inl h => exact h
        | inr h => exact h ▸ hmem
  · simp [eq_comm]

theorem mem_names_registerAll (t : SymbolTable) (es : List Export) (package : String) :
    package ∈ (t.registerAll es).names ↔ package ∈ t.names ∨ ∃ e ∈ es, e.home = package := by
  rw [registerAll]
  induction es generalizing t with
  | nil => simp
  | cons e es ih =>
      rw [List.foldl_cons, ih, mem_names_register, List.exists_mem_cons_iff, or_assoc]

/-- Exports none of which meets a symbol of its package and name. -/
def Unclashing (t : SymbolTable) (exports : List Export) : Prop :=
  ∀ before package symbol after, exports = before ++ .symbol package symbol :: after →
    (t.registerAll before).lookup? package symbol.name = none

theorem Unclashing.left {t : SymbolTable} {es es' : List Export} (h : t.Unclashing (es ++ es')) :
    t.Unclashing es := by
  intro before package symbol after heq
  apply h before package symbol (after ++ es')
  rw [heq, List.append_assoc]
  rfl

theorem Unclashing.right {t : SymbolTable} {es es' : List Export} (h : t.Unclashing (es ++ es')) :
    (t.registerAll es).Unclashing es' := by
  intro before package symbol after heq
  rw [← registerAll_append]
  apply h (es ++ before) package symbol after
  rw [heq, List.append_assoc]

theorem Unclashing.head {t : SymbolTable} {package : String} {symbol : Symbol} {es : List Export}
    (h : t.Unclashing (.symbol package symbol :: es)) : t.lookup? package symbol.name = none :=
  h [] package symbol es rfl

theorem Unclashing.tail {t : SymbolTable} {e : Export} {es : List Export}
    (h : t.Unclashing (e :: es)) : (t.register e).Unclashing es := by
  rw [← List.singleton_append] at h
  exact h.right

theorem size_registerAll {t : SymbolTable} {es : List Export} (h : t.Unclashing es) :
    (t.registerAll es).size = t.size + (es.filterMap Export.key?).length := by
  rw [registerAll]
  induction es generalizing t with
  | nil => rfl
  | cons e es ih =>
      rw [List.foldl_cons, ih h.tail, List.filterMap_cons]
      cases e with
      | package name =>
          rw [register, size_declare]
          rfl
      | symbol package s =>
          rw [register, size_insert h.head]
          simp only [Export.key?, List.length_cons]
          omega

theorem key_mem {es : List Export} {package : String} {s : Symbol}
    (h : .symbol package s ∈ es) : (package, s.name) ∈ es.filterMap Export.key? :=
  List.mem_filterMap.2 ⟨_, h, rfl⟩

/-- Among exports of distinct packages and names, a lookup finds exactly what was exported. -/
theorem lookup?_registerAll {es : List Export} (hkeys : (es.filterMap Export.key?).Nodup)
    (package name : String) (s : Symbol) :
    (empty.registerAll es).lookup? package name = some s ↔
      .symbol package s ∈ es ∧ s.name = name := by
  induction es using List.reverseRecOn with
  | nil => simp [registerAll, empty, lookup?, entry?, OrderedMap.get?, OrderedMap.empty]
  | append_singleton es e ih =>
      have hlast : empty.registerAll (es ++ [e]) = (empty.registerAll es).register e :=
        registerAll_append _ _ _
      rw [List.filterMap_append] at hkeys
      rw [hlast, lookup?_register, List.mem_append, List.mem_singleton]
      cases e with
      | package home =>
          rw [ih hkeys.of_append_left]
          simp
      | symbol home x =>
          have hfresh : (home, x.name) ∉ es.filterMap Export.key? := by
            intro hmem
            exact (List.nodup_append.1 hkeys).2.2 _ hmem _ List.mem_cons_self rfl
          dsimp only
          by_cases hhere : package = home ∧ name = x.name
          · obtain ⟨rfl, rfl⟩ := hhere
            rw [if_pos ⟨rfl, rfl⟩]
            constructor
            · intro h
              cases h
              exact ⟨Or.inr rfl, rfl⟩
            · intro h
              obtain ⟨hmem | heq, hname⟩ := h
              · exact absurd (hname ▸ key_mem hmem) hfresh
              · cases heq
                rfl
          · rw [if_neg hhere, ih hkeys.of_append_left]
            constructor
            · intro h
              exact ⟨Or.inl h.1, h.2⟩
            · intro h
              obtain ⟨hmem | heq, hname⟩ := h
              · exact ⟨hmem, hname⟩
              · cases heq
                exact absurd ⟨rfl, hname.symm⟩ hhere

theorem unclashing_of_nodup {es : List Export} (hkeys : (es.filterMap Export.key?).Nodup) :
    empty.Unclashing es := by
  intro before package symbol after heq
  rw [heq, List.filterMap_append] at hkeys
  cases hlookup : (empty.registerAll before).lookup? package symbol.name with
  | none => rfl
  | some x =>
      obtain ⟨hmem, hname⟩ := (lookup?_registerAll hkeys.of_append_left _ _ _).1 hlookup
      exact absurd rfl ((List.nodup_append.1 hkeys).2.2 _ (hname ▸ key_mem hmem) _
        List.mem_cons_self)

/-- Two tables that nobody can tell apart except by the order of their symbols. -/
structure Agrees (t t' : SymbolTable) : Prop where
  hasPackage : ∀ package, t.hasPackage package = t'.hasPackage package
  lookup? : ∀ package name, t.lookup? package name = t'.lookup? package name
  packages : t.packages = t'.packages
  size : t.size = t'.size

theorem Agrees.refl (t : SymbolTable) : t.Agrees t := ⟨fun _ => rfl, fun _ _ => rfl, rfl, rfl⟩

theorem packages_eq {t t' : SymbolTable} (h : t.names.Perm t'.names) :
    t.packages = t'.packages := by
  rw [packages, packages]
  apply List.Perm.eq_of_sortedLE
  · exact List.sortedLE_mergeSort
  · exact List.sortedLE_mergeSort
  · exact (List.mergeSort_perm _ _).trans (h.trans (List.mergeSort_perm _ _).symm)

/-- Exports of distinct packages and names make the same table in every order. -/
theorem agrees_registerAll {es es' : List Export} (h : es.Perm es')
    (hkeys : (es.filterMap Export.key?).Nodup) :
    Agrees (empty.registerAll es) (empty.registerAll es') := by
  have hkeys' : (es'.filterMap Export.key?).Nodup := (h.filterMap _).nodup_iff.1 hkeys
  have hmem : ∀ package, package ∈ (empty.registerAll es).names ↔
      package ∈ (empty.registerAll es').names := by
    intro package
    simp only [mem_names_registerAll, h.mem_iff]
  constructor
  · intro package
    rw [Bool.eq_iff_iff, hasPackage_iff, hasPackage_iff]
    exact hmem package
  · intro package name
    apply Option.ext
    intro s
    rw [lookup?_registerAll hkeys, lookup?_registerAll hkeys', h.mem_iff]
  · exact packages_eq ((List.perm_ext_iff_of_nodup (nodup_names _) (nodup_names _)).2 hmem)
  · rw [size_registerAll (unclashing_of_nodup hkeys),
      size_registerAll (unclashing_of_nodup hkeys'), (h.filterMap _).length_eq]

end SymbolTable
end ScriptWeave
