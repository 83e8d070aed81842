import ScriptWeave.Report.Event
import ScriptWeave.Text.Case
import ScriptWeave.Text.Json
import ScriptWeave.Text.Quoted

/-!
A structured log: entries with a level, a message and named fields, written as text or as JSON.
-/

namespace ScriptWeave

inductive LogLevel where
  | panic
  | fatal
  | error
  | warning
  | info
  | debug
  | trace
deriving DecidableEq, Repr

namespace LogLevel

def name : LogLevel → String
  | panic => "panic"
  | fatal => "fatal"
  | error => "error"
  | warning => "warning"
  | info => "info"
  | debug => "debug"
  | trace => "trace"

/-- The more urgent, the lower. -/
def rank : LogLevel → Nat
  | panic => 0
  | fatal => 1
  | error => 2
  | warning => 3
  | info => 4
  | debug => 5
  | trace => 6

def all : List LogLevel := [panic, fatal, error, warning, info, debug, trace]

/-- The level of a name, whatever its case; `warn` is short for `warning`. -/
def ofName? (text : String) : Option LogLevel :=
  let lower := Text.lower text
  if lower = "warn" then some warning else all.find? (·.name = lower)

def ofLevel : Level → LogLevel
  | .warn => warning
  | .info => info
  | .debug | .other => debug

end LogLevel

inductive LogFormat where
  | text
  | json
deriving DecidableEq, Repr

structure LogEntry where
  level : LogLevel
  message : String
  fields : Details
deriving DecidableEq, Repr

namespace LogEntry

/-- The names of what an entry may have besides its fields. -/
def ownNames : List String := ["time", "msg", "level", "logrus_error"]

/-- The fields in order of their names. A field that would be mistaken for what an entry has of its
own gets a longer name, and replaces a field that has that name already. -/
def safeFields (e : LogEntry) : Details :=
  let (own, others) := e.fields.partition fun (name, _) => ownNames.contains name
  Details.sorted (own.foldl (fun ds (name, value) => ds.insert ("fields." ++ name) value) others)

/-- The value of a detail in a JSON entry. -/
def detailJson : Detail → Text.Json
  | .text value => .string value
  | .number value => .ofInt value
  | .flag value => .bool value
  | .texts values => .ofTexts values

/-- The entry of a moment as a JSON object with its fields in order. A moment is written with
characters that stand for themselves. -/
def jsonLine (time : String) (e : LogEntry) : String :=
  let own := [("level", Text.Json.string e.level.name), ("msg", .string e.message)]
  let fields := own ++ e.safeFields.map fun (name, value) => (name, detailJson value)
  let timed := fields.map (fun (name, value) => (name, value.compact)) ++
    [("time", "\"" ++ time ++ "\"")]
  let sorted := timed.mergeSort fun a b => a.1 ≤ b.1
  "\x7b" ++ ",".intercalate (sorted.map fun (name, value) =>
    Text.JsonString.literal name ++ ":" ++ value) ++ "\x7d\n"

/-- Characters that a text entry shows without quotes around the value. -/
def isPlainCharacter (c : Char) : Bool :=
  c.isAlphanum || c = '-' || c = '.' || c = '_' || c = '/' || c = '@' || c = '^' || c = '+'

def plainOrQuoted (value : String) : String :=
  if value.toList.all isPlainCharacter then value else Text.quoted value

/-- The entry as pairs of names and values; an empty message is left out. -/
def textLine (time : String) (e : LogEntry) : String :=
  let own := ["time=\"" ++ time ++ "\"", "level=" ++ e.level.name] ++
    (if e.message = "" then [] else ["msg=" ++ plainOrQuoted e.message])
  let fields := e.safeFields.map fun (name, value) => name ++ "=" ++ plainOrQuoted value.render
  " ".intercalate (own ++ fields) ++ "\n"

end LogEntry

/-- A log keeps the entries that are urgent enough. -/
structure Logger where
  format : LogFormat
  level : LogLevel
deriving DecidableEq, Repr

namespace Logger

/-- A logger from the names in a configuration; a missing level is `info`. -/
def ofNames (format level : String) : Except Fault Logger :=
  match LogLevel.ofName? (if level = "" then "info" else level) with
  | some found => .ok ⟨if format = "json" then .json else .text, found⟩
  | none => .error (.plain ("not a valid logrus Level: " ++ Text.quoted level) none)

def keeps (l : Logger) (e : LogEntry) : Bool := e.level.rank ≤ l.level.rank

/-- The line of an entry of a moment, or nothing if the entry is not kept. -/
def line (time : String) (l : Logger) (e : LogEntry) : String :=
  if l.keeps e then
    match l.format with
    | .text => e.textLine time
    | .json => e.jsonLine time
  else ""

end Logger
end ScriptWeave
