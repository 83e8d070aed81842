import ScriptWeave.Module.Id

/-!
Declarations that a source file exports into its package, and the table of all of them. A builder
collects packages and symbols in the order in which they come, the last symbol of a name replacing
earlier ones in place; freezing it yields the table that resolution reads, and ends the use of the
builder.
-/

namespace ScriptWeave

inductive SymbolKind where
  | type
  | function
  | variable
  | constant
  | unknown
deriving DecidableEq, Repr

namespace SymbolKind

def name : SymbolKind → String
  | type => "class"
  | function => "function"
  | .variable => "variable"
  | constant => "constant"
  | unknown => "unknown"

end SymbolKind

/-- A dotted name made of a package and a name in it; the top-level package adds nothing. -/
def qualify (package name : String) : String :=
  if package = "" then name else package ++ "." ++ name

structure Symbol where
  name : String
  /-- The dotted package name, empty for the top-level package. -/
  package : String
  kind : SymbolKind
  /-- Whether other packages see the symbol. -/
  isPublic : Bool
  /-- The module that defines the symbol. -/
  exportPath : ModuleId
deriving DecidableEq, Repr

namespace Symbol

def qualifiedName (s : Symbol) : String := qualify s.package s.name

end Symbol

/-- What a file contributes to the packages: that a package exists, or a symbol of it. -/
inductive Export where
  | package (name : String)
  | symbol (package : String) (symbol : Symbol)
deriving DecidableEq, Repr

/-- The export of a module that is known. -/
def Export.definedBy (id : ModuleId) : Export → Export
  | .package name => .package name
  | .symbol home s => .symbol home { s with exportPath := id }

/-- A map from names, with the names in order of their first entry. -/
structure OrderedMap (α : Type) where
  entries : List (String × α)
  order : List String
  nodup_order : order.Nodup
  keys_perm : (entries.map (·.1)).Perm order

namespace OrderedMap

variable {α : Type}

def empty : OrderedMap α := ⟨[], [], .nil, .nil⟩

def get? (m : OrderedMap α) (name : String) : Option α := m.entries.lookup name

def contains (m : OrderedMap α) (name : String) : Bool := (m.get? name).isSome

theorem contains_iff (m : OrderedMap α) (name : String) :
    m.contains name = true ↔ name ∈ m.order := by
  rw [← m.keys_perm.mem_iff, contains, get?, List.lookup_isSome_iff, List.mem_map]
  exact exists_congr fun e => and_congr_right fun _ => beq_iff_eq.trans eq_comm

theorem nodup_keys (m : OrderedMap α) : (m.entries.map (·.1)).Nodup :=
  m.keys_perm.nodup_iff.2 m.nodup_order

theorem keys_filter_ne (entries : List (String × α)) (name : String) :
    (entries.filter (·.1 ≠ name)).map (·.1) = (entries.map (·.1)).filter (· ≠ name) := by
  rw [List.filter_map]
  rfl

/-- Sets the entry of a name. A new name comes last in the order. -/
def insert (m : OrderedMap α) (name : String) (a : α) : OrderedMap α where
  entries := (name, a) :: m.entries.filter (·.1 ≠ name)
  order := if m.contains name then m.order else m.order ++ [name]
  nodup_order := by
    split
    · exact m.nodup_order
    · next hnew =>
        have hnot : name ∉ m.order := fun h => hnew ((m.contains_iff name).2 h)
        refine List.nodup_append.2 ⟨m.nodup_order, by simp, ?_⟩
        intro x hx y hy heq
        exact hnot (List.mem_singleton.1 hy ▸ heq ▸ hx)
  keys_perm := by
    rw [List.map_cons, keys_filter_ne]
    split
    · next hold =>
        have hmem := m.keys_perm.mem_iff.2 ((m.contains_iff name).1 hold)
        have herase : (m.entries.map (·.1)).filter (· ≠ name) =
            (m.entries.map (·.1)).erase name := by
          rw [m.nodup_keys.erase_eq_filter]
          exact List.filter_congr fun x _ => by by_cases h : x = name <;> simp [h]
        rw [herase]
        exact (List.perm_cons_erase hmem).symm.trans m.keys_perm
    · next hnew =>
        have hnot : name ∉ m.entries.map (·.1) := fun h =>
          hnew ((m.contains_iff name).2 (m.keys_perm.mem_iff.1 h))
        have hall : (m.entries.map (·.1)).filter (· ≠ name) = m.entries.map (·.1) := by
          refine List.filter_eq_self.2 fun x hx => ?_
          rw [decide_eq_true_eq]
          exact fun h => hnot (h ▸ hx)
        rw [hall]
        exact (m.keys_perm.cons name).trans (List.perm_append_singleton name m.order).symm

/-- The entries in the order of their names. -/
def values (m : OrderedMap α) : List α := m.order.filterMap m.get?

def size (m : OrderedMap α) : Nat := m.entries.length

end OrderedMap

/-- A package with its symbols, each under its own name. -/
structure PackageEntry where
  symbols : OrderedMap Symbol
  named : ∀ e ∈ symbols.entries, e.2.name = e.1

namespace PackageEntry

def empty : PackageEntry := ⟨.empty, by simp [OrderedMap.empty]⟩

/-- Puts a symbol in the place of the one with the same name, or at the end. -/
def register (entry : PackageEntry) (symbol : Symbol) : PackageEntry where
  symbols := entry.symbols.insert symbol.name symbol
  named := by
    intro e he
    obtain rfl | he := List.mem_cons.1 he
    · rfl
    · exact entry.named e (List.mem_filter.1 he).1

end PackageEntry

/-- The packages with their symbols, in order of first mention. -/
structure SymbolTable where
  homes : OrderedMap PackageEntry

namespace SymbolTable

def empty : SymbolTable := ⟨.empty⟩

def entry? (t : SymbolTable) (package : String) : Option PackageEntry := t.homes.get? package

def hasPackage (t : SymbolTable) (package : String) : Bool := t.homes.contains package

def lookup? (t : SymbolTable) (package name : String) : Option Symbol :=
  (t.entry? package).bind (·.symbols.get? name)

/-- The symbols of a package in order of first registration. -/
def symbols (t : SymbolTable) (package : String) : List Symbol :=
  ((t.entry? package).map (·.symbols.values)).getD []

/-- The package names in sorted order. -/
def packages (t : SymbolTable) : List String := t.homes.order.mergeSort (· ≤ ·)

/-- The number of registered symbols. -/
def size (t : SymbolTable) : Nat := t.homes.entries.foldr (fun e n => e.2.symbols.size + n) 0

/-- Makes sure that a package exists. -/
def declare (t : SymbolTable) (package : String) : SymbolTable :=
  if t.hasPackage package then t else ⟨t.homes.insert package .empty⟩

/-- Registers a symbol under a package, which is made when there is none. -/
def insert (t : SymbolTable) (package : String) (symbol : Symbol) : SymbolTable :=
  let entry := (t.entry? package).getD .empty
  ⟨t.homes.insert package (entry.register symbol)⟩

end SymbolTable

/-- A table under construction. -/
structure TableBuilder where
  table : SymbolTable
  frozen : Bool

namespace TableBuilder

/-- The message about a builder that is used after it was frozen. -/
def frozenMessage : String := "symbols: builder used after Freeze"

def empty : TableBuilder := ⟨.empty, false⟩

/-- Makes sure that a package exists; fails once the builder is frozen. -/
def createPackage? (b : TableBuilder) (package : String) : Option TableBuilder :=
  if b.frozen then none else some { b with table := b.table.declare package }

/-- Registers a symbol and answers the one that it replaces; fails once the builder is frozen. -/
def add? (b : TableBuilder) (package : String) (symbol : Symbol) :
    Option (TableBuilder × Option Symbol) :=
  if b.frozen then none
  else some ({ b with table := b.table.insert package symbol }, b.table.lookup? package symbol.name)

/-- Ends the construction; fails when it has ended before. -/
def freeze? (b : TableBuilder) : Option (TableBuilder × SymbolTable) :=
  if b.frozen then none else some ({ b with frozen := true }, b.table)

end TableBuilder

/-- A call that a builder takes. Those that change the table fail once it was handed out. -/
inductive TableCall where
  /-- Makes sure that a package exists. -/
  | createPackage (package : String)
  | add (package : String) (symbol : Symbol)
  | lookup (package name : String)
  | freeze
deriving DecidableEq, Repr

inductive TableAnswer where
  | done
  /-- A symbol was added, in the place of an earlier one if there was one. -/
  | replaced (previous : Option Symbol)
  | found (symbol : Option Symbol)
  | table (t : SymbolTable)
  | panicked (message : String)

namespace TableBuilder

/-- Takes a call. One that fails leaves the builder as it is. -/
def perform (b : TableBuilder) : TableCall → TableBuilder × TableAnswer
  | .createPackage package =>
      match b.createPackage? package with
      | some b' => (b', .done)
      | none => (b, .panicked frozenMessage)
  | .add package symbol =>
      match b.add? package symbol with
      | some (b', previous) => (b', .replaced previous)
      | none => (b, .panicked frozenMessage)
  | .lookup package name => (b, .found (b.table.lookup? package name))
  | .freeze =>
      match b.freeze? with
      | some (b', t) => (b', .table t)
      | none => (b, .panicked frozenMessage)

/-- Takes calls in a row. -/
def performAll (b : TableBuilder) : List TableCall → TableBuilder × List TableAnswer
  | [] => (b, [])
  | call :: calls =>
      let (b', answer) := b.perform call
      let (last, answers) := performAll b' calls
      (last, answer :: answers)

end TableBuilder
end ScriptWeave
