import ScriptWeave.Module.Id

/-!
What a conversion emits: modules that come straight from a source file, modules that hold the
members of a dependency cycle, and redirects that stand in for such members. An output set holds one
module for each id and keeps the order of first insertion.
-/

namespace ScriptWeave

inductive ModuleKind where
  | direct
  | merged
  | redirect
deriving DecidableEq, Repr

namespace ModuleKind

def name : ModuleKind → String
  | direct => "original"
  | merged => "merged"
  | redirect => "redirect"

end ModuleKind

/-- A former module inside a merged one, found there under its key. -/
structure MergedMember (Tree : Type) where
  id : ModuleId
  key : String
  tree : Tree

/-- The members of one dependency cycle in a single module. -/
structure MergedModule (Tree : Type) where
  id : ModuleId
  component : Int
  members : List (MergedMember Tree)

namespace MergedModule

variable {Tree : Type}

/-- The name under which loaders know the module. -/
def name (m : MergedModule Tree) : String := m.id.logicalName

def member? (m : MergedModule Tree) (id : ModuleId) : Option (MergedMember Tree) :=
  m.members.find? (·.id = id)

end MergedModule

inductive EmittedModule (Tree : Type) where
  | direct (id : ModuleId) (tree : Tree)
  | merged (module : MergedModule Tree)
  /-- Loads the target and answers its entry under the key. -/
  | redirect (id target : ModuleId) (key : String)

namespace EmittedModule

variable {Tree : Type}

def id : EmittedModule Tree → ModuleId
  | direct id _ => id
  | merged m => m.id
  | redirect id _ _ => id

def kind : EmittedModule Tree → ModuleKind
  | direct _ _ => .direct
  | merged _ => .merged
  | redirect _ _ _ => .redirect

end EmittedModule

/-- Puts a module in the place of those with its id. -/
def EmittedModule.replace {Tree : Type} (m old : EmittedModule Tree) : EmittedModule Tree :=
  if old.id = m.id then m else old

theorem EmittedModule.replace_id {Tree : Type} (m old : EmittedModule Tree) :
    (m.replace old).id = old.id := by
  unfold replace
  split
  · next h => exact h.symm
  · rfl

/-- Emitted modules in order of first insertion, one for each id. -/
structure OutputSet (Tree : Type) where
  modules : List (EmittedModule Tree)
  nodup_ids : (modules.map (·.id)).Nodup

namespace OutputSet

variable {Tree : Type}

def empty : OutputSet Tree := ⟨[], by simp⟩

def get? (s : OutputSet Tree) (id : ModuleId) : Option (EmittedModule Tree) :=
  s.modules.find? (·.id = id)

def has (s : OutputSet Tree) (id : ModuleId) : Bool := s.modules.any (·.id = id)

def ids (s : OutputSet Tree) : List ModuleId := s.modules.map (·.id)

def size (s : OutputSet Tree) : Nat := s.modules.length

theorem has_iff_mem_ids (s : OutputSet Tree) (id : ModuleId) : s.has id = true ↔ id ∈ s.ids := by
  simp [has, ids]

/-- Puts a module in the place of the one with the same id, or at the end. -/
def put (s : OutputSet Tree) (m : EmittedModule Tree) : OutputSet Tree :=
  if h : s.has m.id then
    { modules := s.modules.map m.replace
      nodup_ids := by
        rw [List.map_map, show (·.id) ∘ m.replace = (·.id) from funext m.replace_id]
        exact s.nodup_ids }
  else
    { modules := s.modules ++ [m]
      nodup_ids := by
        rw [List.map_append, List.nodup_append]
        refine ⟨s.nodup_ids, by simp, ?_⟩
        intro a ha b hb
        rw [List.map_singleton, List.mem_singleton] at hb
        rintro rfl
        exact h ((s.has_iff_mem_ids _).2 (hb ▸ ha)) }

def putAll (s : OutputSet Tree) (ms : List (EmittedModule Tree)) : OutputSet Tree :=
  ms.foldl put s

/-- The number of modules of a kind. -/
def count (s : OutputSet Tree) (kind : ModuleKind) : Nat := s.modules.countP (·.kind = kind)

end OutputSet

/-- The text of an emitted module. -/
structure GeneratedModule where
  id : ModuleId
  kind : ModuleKind
  content : String
deriving DecidableEq, Repr

end ScriptWeave
