import ScriptWeave.Project.Toml.Value

/-!
What is defined in a file of TOML. A key is defined once; a table is opened once by its own header,
and neither a key nor a header goes through a value.
-/

namespace ScriptWeave
namespace Project
namespace Toml

inductive ScopeKind where
  | value
  | table
  | tables
deriving DecidableEq, Repr

/-- Something that is defined, with what is defined in it. -/
inductive Scope where
  /-- `closed` says that no further keys go through here, and `dotted` that a key has made it. -/
  | mk (kind : ScopeKind) (closed dotted : Bool) (inner : List (String × Scope))

namespace Scope

def kind : Scope → ScopeKind
  | mk kind _ _ _ => kind

def closed : Scope → Bool
  | mk _ closed _ _ => closed

def inner : Scope → List (String × Scope)
  | mk _ _ _ inner => inner

/-- A file without any definition. -/
def empty : Scope := mk .table false false []

def get? (s : Scope) (name : String) : Option Scope := s.inner.lookup name

/-- Defines a name, or replaces what it stands for. -/
def set (s : Scope) (name : String) (new : Scope) : Scope :=
  match s with
  | mk kind closed dotted inner =>
      if (inner.lookup name).isSome then
        mk kind closed dotted (inner.map fun (n, old) => (n, if n = name then new else old))
      else mk kind closed dotted ((name, new) :: inner)

/-- Defines a key of a value below a table. -/
def define? (s : Scope) : List String → Option Scope
  | [] => none
  | [name] => if (s.get? name).isSome then none else some (s.set name (mk .value false true []))
  | name :: rest =>
      match s.get? name with
      | none => ((mk .table false true []).define? rest).map (s.set name)
      | some old =>
          if old.kind ≠ .table || old.closed then none else (old.define? rest).map (s.set name)

/-- Opens a table by its header, or one more of an array of tables. -/
def declare? (array : Bool) (s : Scope) : List String → Option Scope
  | [] => none
  | [name] =>
      match s.get? name, array with
      | none, false => some (s.set name (mk .table true false []))
      | none, true => some (s.set name (mk .tables true false []))
      | some (mk .table false dotted inner), false =>
          some (s.set name (mk .table true dotted inner))
      | some (mk .tables closed dotted _), true => some (s.set name (mk .tables closed dotted []))
      | some _, _ => none
  | name :: rest =>
      match s.get? name with
      | none => ((mk .table false false []).declare? array rest).map (s.set name)
      | some old => if old.kind = .value then none else (old.declare? array rest).map (s.set name)

mutual

/-- Closes every table that a key has made. -/
def close : Scope → Scope
  | mk kind closed dotted inner => mk kind (closed || dotted) false (closeAll inner)

def closeAll : List (String × Scope) → List (String × Scope)
  | [] => []
  | (name, s) :: rest => (name, s.close) :: closeAll rest

end

/-- Closes what keys have made below a table. -/
def closeInner : Scope → Scope
  | mk kind closed dotted inner => mk kind closed dotted (closeAll inner)

/-- Changes the scope at the end of a path. -/
def within? (change : Scope → Option Scope) (s : Scope) : List String → Option Scope
  | [] => change s
  | name :: rest => do return s.set name (← (← s.get? name).within? change rest)

end Scope

mutual

/-- Whether no table inside a value defines a key twice. -/
def Value.isConsistent : Value → Bool
  | .array items => areConsistent items
  | .table entries => entriesAreConsistent .empty entries
  | _ => true

def areConsistent : List Value → Bool
  | [] => true
  | item :: items => item.isConsistent && areConsistent items

def entriesAreConsistent (s : Scope) : List (List String × Value) → Bool
  | [] => true
  | (key, value) :: entries =>
      match s.define? key with
      | none => false
      | some s' => value.isConsistent && entriesAreConsistent s' entries

end

end Toml
end Project
end ScriptWeave
