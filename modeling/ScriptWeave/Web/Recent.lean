/-!
A bounded store that forgets what was used least recently.
-/

namespace ScriptWeave

/-- At most `capacity` values by key, the one used last first. -/
structure Recent (α : Type) where
  capacity : Nat
  items : List (String × α)

namespace Recent

variable {α : Type}

def empty (capacity : Nat) : Recent α := ⟨capacity, []⟩

def size (r : Recent α) : Nat := r.items.length

/-- The items under other keys. -/
def others (r : Recent α) (key : String) : List (String × α) :=
  r.items.filter fun item => item.1 ≠ key

/-- A value, which becomes the one used last. -/
def get? (r : Recent α) (key : String) : Option (α × Recent α) :=
  (r.items.lookup key).map fun value => (value, { r with items := (key, value) :: r.others key })

/-- Stores a value as the one used last. -/
def insert (r : Recent α) (key : String) (value : α) : Recent α :=
  { r with items := ((key, value) :: r.others key).take r.capacity }

end Recent
end ScriptWeave
