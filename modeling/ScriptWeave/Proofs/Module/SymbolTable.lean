import ScriptWeave.Proofs.Association
import ScriptWeave.Resolve.Export

/-!
Where the symbols of a table come from. Whatever a lookup answers was registered, and registering
exports brings no other symbols than theirs.
-/

namespace ScriptWeave

theorem PackageEntry.name_of_get? (entry : PackageEntry) {name : String} {s : Symbol}
    (h : entry.symbols.get? name = some s) : s.name = name :=
  entry.named _ (mem_of_lookup h)

namespace SymbolTable

/-- The symbol stands somewhere in the table. -/
def Lists (t : SymbolTable) (s : Symbol) : Prop :=
  ∃ home ∈ t.homes.entries, ∃ e ∈ home.2.symbols.entries, e.2 = s

/-- The symbol is the answer to some lookup. -/
def Finds (t : SymbolTable) (s : Symbol) : Prop :=
  ∃ package name, t.lookup? package name = some s

theorem Finds.lists {t : SymbolTable} {s : Symbol} (h : t.Finds s) : t.Lists s := by
  obtain ⟨package, name, h⟩ := h
  obtain ⟨entry, hentry, hs⟩ := Option.bind_eq_some_iff.1 h
  exact ⟨_, mem_of_lookup hentry, _, mem_of_lookup hs, rfl⟩

theorem lists_declare {t : SymbolTable} {package : String} {s : Symbol}
    (h : (t.declare package).Lists s) : t.Lists s := by
  rw [declare] at h
  split at h
  · exact h
  · obtain ⟨home, hhome, e, he, hs⟩ := h
    obtain rfl | hhome := List.mem_cons.1 hhome
    · exact absurd he List.not_mem_nil
    · exact ⟨home, (List.mem_filter.1 hhome).1, e, he, hs⟩

theorem lists_insert {t : SymbolTable} {package : String} {x s : Symbol}
    (h : (t.insert package x).Lists s) : s = x ∨ t.Lists s := by
  obtain ⟨home, hhome, e, he, rfl⟩ := h
  obtain rfl | hhome := List.mem_cons.1 hhome
  · obtain rfl | he := List.mem_cons.1 he
    · exact Or.inl rfl
    · have he := (List.mem_filter.1 he).1
      cases hentry : t.entry? package with
      | none =>
          rw [hentry] at he
          exact absurd he List.not_mem_nil
      | some entry =>
          rw [hentry] at he
          exact Or.inr ⟨_, mem_of_lookup hentry, e, he, rfl⟩
  · exact Or.inr ⟨home, (List.mem_filter.1 hhome).1, e, he, rfl⟩

theorem lists_registerAll {t : SymbolTable} {exports : List Export} {s : Symbol}
    (h : (t.registerAll exports).Lists s) :
    t.Lists s ∨ ∃ package, Export.symbol package s ∈ exports := by
  rw [registerAll] at h
  induction exports generalizing t with
  | nil => exact Or.inl h
  | cons e exports ih =>
      rw [List.foldl_cons] at h
      cases ih h with
      | inr hmem =>
          obtain ⟨package, hmem⟩ := hmem
          exact Or.inr ⟨package, List.mem_cons_of_mem _ hmem⟩
      | inl hlists =>
          cases e with
          | package name => exact Or.inl (lists_declare hlists)
          | symbol package x =>
              cases lists_insert hlists with
              | inl hx => exact Or.inr ⟨package, hx ▸ List.mem_cons_self⟩
              | inr hlists => exact Or.inl hlists

/-- A table of exports answers with nothing but exported symbols. -/
theorem Finds.exported {exports : List Export} {s : Symbol}
    (h : (empty.registerAll exports).Finds s) : ∃ package, Export.symbol package s ∈ exports := by
  cases lists_registerAll h.lists with
  | inl hempty =>
      obtain ⟨_, hhome, _⟩ := hempty
      exact absurd hhome List.not_mem_nil
  | inr hmem => exact hmem

end SymbolTable
end ScriptWeave
