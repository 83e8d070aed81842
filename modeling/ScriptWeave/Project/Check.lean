import ScriptWeave.Fault.Basic

/-!
Checks of settings. A check names the setting it is about and says what is wrong with a value, if
anything.
-/

namespace ScriptWeave

/-- What is wrong with the value of a setting. -/
structure Complaint where
  setting : String
  message : String
deriving DecidableEq, Repr

def Complaint.text (c : Complaint) : String :=
  if c.setting = "" then "validation error: " ++ c.message
  else s!"validation error for field '{c.setting}': {c.message}"

def Complaint.toFault (c : Complaint) : Fault := .plain c.text none

abbrev Check (α : Type) : Type := α → Option Complaint

namespace Check

/-- A check by a condition. -/
def ensure {α : Type} (setting message : String) (holds : α → Bool) : Check α := fun value =>
  if holds value then none else some ⟨setting, message⟩

/-- The complaint of the first check that has one. -/
def all {α : Type} (checks : List (Check α)) : Check α := fun value =>
  checks.findSome? fun check => check value

/-- A check that only some values have to pass. -/
def only {α : Type} (condition : α → Bool) (check : Check α) : Check α := fun value =>
  if condition value then check value else none

def notEmpty (setting : String) : Check String :=
  ensure setting "cannot be empty" fun value => value ≠ ""

/-- A value out of a list; `render` shows the allowed ones. -/
def oneOf {α : Type} [BEq α] (render : α → String) (setting : String) (allowed : List α) :
    Check α :=
  ensure setting ("must be one of: [" ++ " ".intercalate (allowed.map render) ++ "]")
    fun value => allowed.contains value

def inRange (setting : String) (least greatest : Int) : Check Int :=
  ensure setting s!"must be between {least} and {greatest}"
    fun value => least ≤ value && value ≤ greatest

end Check
end ScriptWeave
