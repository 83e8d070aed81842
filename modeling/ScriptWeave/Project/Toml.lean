import ScriptWeave.Project.Settings
import ScriptWeave.Project.Toml.Moment
import ScriptWeave.Project.Toml.Scope

/-!
Settings in TOML. Every value has a type, and a setting takes only values of its own type. Keys of
settings are matched without regard to case; whatever else a file defines is only checked.
-/

namespace ScriptWeave
namespace Project
namespace Toml

/-- Why a file does not give settings. -/
inductive Failure where
  | malformed
  /-- The file asks for something that no check foresees. -/
  | crash (message : String)
deriving DecidableEq, Repr

/-- One line of a file, or several if its value takes more. -/
inductive Statement where
  | table (key : List String)
  | tables (key : List String)
  | entry (key : List String) (value : Value)

/-- A statement and what follows it; a line may also be empty. -/
def readStatement? (cs : List Char) : Option (Option Statement × List Char) :=
  match skipBlanks cs with
  | [] => some (none, [])
  | '#' :: rest => (afterComment? rest).map fun after => (none, after)
  | '\n' :: rest => some (none, '\n' :: rest)
  | '\r' :: rest => some (none, '\r' :: rest)
  | '[' :: '[' :: rest => do
      let (key, after) ← readKey? (rest.length + 1) rest
      match after with
      | ']' :: ']' :: more => return (some (.tables key), more)
      | _ => none
  | '[' :: rest => do
      let (key, after) ← readKey? (rest.length + 1) rest
      match after with
      | ']' :: more => return (some (.table key), more)
      | _ => none
  | rest => do
      let ((key, value), after) ← readEntry? (4 * rest.length + 4) rest
      return (some (.entry key value), after)

/-- What follows a statement on its line. -/
def afterStatement? (cs : List Char) : Option (List Char) :=
  match skipBlanks cs with
  | '#' :: rest => afterComment? rest
  | rest => some rest

/-- The statements of a file up to one that is malformed, and whether there is such a one. -/
def readStatements : Nat → List Char → List Statement × Bool
  | 0, _ => ([], false)
  | fuel + 1, cs =>
      match readStatement? cs with
      | none => ([], true)
      | some (statement, after) =>
          let found := statement.toList
          match afterStatement? after with
          | none => ([], true)
          | some [] => (found, false)
          | some rest =>
              match afterBreak? rest with
              | none => (found, true)
              | some [] => (found, false)
              | some next =>
                  let (statements, malformed) := readStatements fuel next
                  (found ++ statements, malformed)

/-- A number without its underscores, each of which has to stand between other characters. -/
def withoutUnderscores? (cs : List Char) : Option (List Char) :=
  let digits := match cs with
    | '+' :: rest | '-' :: rest => rest
    | _ => cs
  let doubled := (digits.zip (digits.drop 1)).any fun (a, b) => a = '_' && b = '_'
  if digits.head? = some '_' || digits.getLast? = some '_' || doubled then none
  else some (cs.filter (· ≠ '_'))

/-- The value of digits in a base with an optional sign. -/
def signedValue? (base : Nat) (cs : List Char) : Option Int :=
  let value? (digits : List Char) : Option Nat :=
    if digits.isEmpty then none else (Text.readDigits base 0 digits).toOption
  match cs with
  | '-' :: digits => (value? digits).bind fun n =>
      if n ≤ Text.signedBound then some (-(n : Int)) else none
  | '+' :: digits => (value? digits).bind fun n => if n < Text.signedBound then some n else none
  | digits => (value? digits).bind fun n => if n < Text.signedBound then some n else none

/-- The value of an integer by its spelling. A decimal one has no zeros in front. -/
def integerValue? (spelling : List Char) : Option Int :=
  match spelling with
  | '0' :: x :: c :: rest => do
      let digits ← withoutUnderscores? (c :: rest)
      signedValue? (if x = 'x' then 16 else if x = 'o' then 8 else 2) digits
  | _ => do
      let cs ← withoutUnderscores? spelling
      let digits := match cs with
        | '+' :: rest | '-' :: rest => rest
        | _ => cs
      if 1 < digits.length ∧ digits.head? = some '0' then none else signedValue? 10 cs

/-- The name of the type of a setting. -/
def typeName : Setting → String
  | .text _ => "string"
  | .flag _ => "bool"
  | .count _ => "int"

/-- The name of the type of a date or a time. -/
def MomentKind.typeName : MomentKind → String
  | instant => "time.Time"
  | dateTime => "toml.LocalDateTime"
  | date => "toml.LocalDate"
  | time => "toml.LocalTime"

/-- Gives a setting a value. -/
def assign (c : Settings) (setting : Setting) (value : Value) : Except Failure Settings :=
  match setting, value with
  | .text s, .text v => .ok (c.setText v s)
  | .flag s, .flag v => .ok (c.setFlag v s)
  | .count s, .integer spelling =>
      match integerValue? spelling with
      | some n => .ok (c.setCount n s)
      | none => .error .malformed
  | _, .moment kind spelling =>
      if kind.accepts spelling then
        .error (.crash ("reflect.Set: value of type " ++ kind.typeName ++
          " is not assignable to type " ++ typeName setting))
      else .error .malformed
  | _, _ => .error .malformed

/-- Where the keys of a file lead to. -/
inductive Place where
  /-- The settings themselves. -/
  | settings
  /-- A table in the place of a setting; it must not have entries. -/
  | setting
  /-- A table that no setting knows; its entries do not count. -/
  | unknown
deriving DecidableEq, Repr

/-- What is known while the statements of a file are applied. -/
structure Progress where
  settings : Settings
  scope : Scope
  /-- The key of the table that is open. -/
  table : List String
  place : Place

/-- The setting that the first part of a key names. -/
def settingOf? (key : List String) : Option Setting :=
  key.head?.bind fun name => Setting.ofKey? (Text.lower name)

/-- Opens a table. -/
def openTable (array : Bool) (p : Progress) (key : List String) : Except Failure Progress :=
  let opened := (p.scope.within? (fun s => some s.closeInner) p.table).bind (·.declare? array key)
  match opened with
  | none => .error .malformed
  | some scope =>
      match settingOf? key with
      | none => .ok { p with scope, table := key, place := .unknown }
      | some setting =>
          if 1 < key.length then .error (.crash ("unhandled part: " ++ typeName setting))
          else if array then .error .malformed
          else .ok { p with scope, table := key, place := .setting }

/-- Applies an entry of the table that is open. -/
def applyEntry (p : Progress) (key : List String) (value : Value) : Except Failure Progress :=
  if p.place = .unknown then .ok p
  else
    match p.scope.within? (·.define? key) p.table with
    | none => .error .malformed
    | some scope =>
        if !value.isConsistent || p.place = .setting then .error .malformed
        else
          match settingOf? key with
          | none => .ok { p with scope }
          | some setting =>
              if 1 < key.length then .error .malformed
              else (assign p.settings setting value).map fun settings => { p with settings, scope }

def applyStatement (p : Progress) : Statement → Except Failure Progress
  | .table key => openTable false p key
  | .tables key => openTable true p key
  | .entry key value => applyEntry p key value

/-- Settings changed by a file. -/
def decode (c : Settings) (text : String) : Except Failure Settings := do
  let (statements, malformed) := readStatements (text.length + 1) text.toList
  let p ← statements.foldlM applyStatement ⟨c, .empty, [], .settings⟩
  if malformed then .error .malformed else return p.settings

end Toml
end Project
end ScriptWeave
