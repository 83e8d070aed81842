/-!
What can go wrong. An `Issue` is a single problem with a code, a place in the sources and hints; a
`Fault` is whatever an operation fails with: an issue, a plain message, several issues together, or
the issues that ended a phase of a conversion. A fault may carry the fault that caused it.
-/

namespace ScriptWeave

inductive FaultCode where
  | unknown
  | io
  | parse
  | exportConflict
  | resolution
  | cycleMerge
  | generation
  | template
  | fileSystem
  | configuration
  | cancelled
  /-- A number that stands for none of the above. -/
  | other (number : Int)
deriving DecidableEq, Repr

namespace FaultCode

def name : FaultCode → String
  | io => "IoError"
  | parse => "ParseError"
  | exportConflict => "ExportConflict"
  | resolution => "RewriteError"
  | cycleMerge => "CycleMergeError"
  | generation => "GenerationError"
  | template => "TemplateError"
  | fileSystem => "FileSystemError"
  | configuration => "ConfigurationError"
  | cancelled => "Cancelled"
  | unknown | other _ => "UnknownError"

def number : FaultCode → Int
  | unknown => 0
  | io => 1
  | parse => 2
  | exportConflict => 3
  | resolution => 4
  | cycleMerge => 5
  | generation => 6
  | template => 7
  | fileSystem => 8
  | configuration => 9
  | cancelled => 10
  | other n => n

def ofNumber (n : Int) : FaultCode :=
  match [unknown, io, parse, exportConflict, resolution, cycleMerge, generation, template,
      fileSystem, configuration, cancelled].find? (·.number = n) with
  | some code => code
  | none => other n

end FaultCode

/-- A place in a file; a line or column of zero is not known. -/
structure Location where
  file : String
  line : Int
  column : Int
deriving DecidableEq, Repr

namespace Location

def unknown : Location := ⟨"", 0, 0⟩

def ofFile (file : String) : Location := ⟨file, 0, 0⟩

def isEmpty (l : Location) : Bool := l.file = ""

def render (l : Location) : String :=
  if l.file = "" then "unknown location"
  else if l.line = 0 then l.file
  else if l.column = 0 then s!"{l.file}:{l.line}"
  else s!"{l.file}:{l.line}:{l.column}"

end Location

/-- A detail recorded with an issue or a reported step. -/
inductive Detail where
  | text (value : String)
  | number (value : Int)
  | flag (value : Bool)
  | texts (values : List String)
deriving DecidableEq, Repr

namespace Detail

def render : Detail → String
  | text value => value
  | number value => toString value
  | flag value => if value then "true" else "false"
  | texts values => "[" ++ " ".intercalate values ++ "]"

end Detail

/-- Named details; a name occurs once. -/
abbrev Details : Type := List (String × Detail)

namespace Details

/-- Records a detail in place of an earlier one of the same name. -/
def insert (ds : Details) (name : String) (value : Detail) : Details :=
  if ds.any (·.1 = name) then
    ds.map fun entry => if entry.1 = name then (name, value) else entry
  else ds ++ [(name, value)]

def get? (ds : Details) (name : String) : Option Detail := List.lookup name ds

/-- The entries in order of their names. -/
def sorted (ds : Details) : Details := ds.mergeSort fun a b => a.1 ≤ b.1

end Details

mutual

/-- A single problem with a code. -/
structure Issue where
  code : FaultCode
  message : String
  location : Location
  cause : Option Fault
  context : Details
  hints : List String

inductive Fault where
  | plain (message : String) (cause : Option Fault)
  | issue (issue : Issue)
  | several (issues : List Issue)
  | phase (label : String) (issues : List Issue)
  /-- A defect after which nothing can go on. -/
  | crash (message : String)

end

namespace Issue

/-- The message after the place, when a place is known. -/
def text (i : Issue) : String :=
  if i.location.isEmpty then i.message else i.location.render ++ ": " ++ i.message

/-- An issue without place, cause, context and hints. -/
def ofMessage (code : FaultCode) (message : String) : Issue :=
  ⟨code, message, .unknown, none, [], []⟩

/-- An issue with a cause. -/
def wrap (code : FaultCode) (message : String) (cause : Option Fault) : Issue :=
  ⟨code, message, .unknown, cause, [], []⟩

def withContext (i : Issue) (name : String) (value : Detail) : Issue :=
  { i with context := i.context.insert name value }

end Issue

/-- One issue is shown as it is, more of them numbered under their count. -/
def Issue.textAll (issues : List Issue) : String :=
  match issues with
  | [] => "no errors"
  | [issue] => issue.text
  | _ =>
      let numbered := issues.zipIdx.map fun (issue, i) => s!"  {i + 1}. {issue.text}"
      s!"multiple errors ({issues.length} total):\n" ++ "\n".intercalate numbered

namespace Fault

def text : Fault → String
  | plain message _ => message
  | issue i => i.text
  | several issues => Issue.textAll issues
  | phase label issues =>
      label ++ " prevented project from being converted: " ++ Issue.textAll issues
  | crash message => message

/-- The message of a defect after which nothing can go on. -/
def crash? : Fault → Option String
  | crash message => some message
  | _ => none

/-- The fault below this one, when there is exactly one. -/
def cause? : Fault → Option Fault
  | plain _ cause => cause
  | issue i => i.cause
  | several _ => none
  | phase _ issues => some (several issues)
  | crash _ => none

mutual

/-- The first fault that satisfies a search, the fault itself first and then what caused it. -/
def search {α : Type} (found : Fault → Option α) : Fault → Option α
  | plain message cause =>
      match found (plain message cause) with
      | some a => some a
      | none => searchOption found cause
  | issue i => searchIssue found i
  | several issues =>
      match found (several issues) with
      | some a => some a
      | none => searchIssues found issues
  | phase label issues =>
      match found (phase label issues) with
      | some a => some a
      | none =>
          match found (several issues) with
          | some a => some a
          | none => searchIssues found issues
  | crash message => found (crash message)

def searchOption {α : Type} (found : Fault → Option α) : Option Fault → Option α
  | none => none
  | some fault => search found fault

def searchIssue {α : Type} (found : Fault → Option α) : Issue → Option α
  | ⟨code, message, location, cause, context, hints⟩ =>
      match found (issue ⟨code, message, location, cause, context, hints⟩) with
      | some a => some a
      | none => searchOption found cause

def searchIssues {α : Type} (found : Fault → Option α) : List Issue → Option α
  | [] => none
  | i :: is =>
      match searchIssue found i with
      | some a => some a
      | none => searchIssues found is

end

/-- The phase that failed, with its issues. -/
def phase? (fault : Fault) : Option (String × List Issue) :=
  fault.search fun
    | phase label issues => some (label, issues)
    | _ => none

/-- The issues that were collected together. -/
def several? (fault : Fault) : Option (List Issue) :=
  fault.search fun
    | several issues => some issues
    | _ => none

/-- The first issue of a fault. -/
def issue? (fault : Fault) : Option Issue :=
  fault.search fun
    | issue i => some i
    | _ => none

mutual

/-- The texts of the faults below this one, down to the first that has none or several. -/
def chain : Fault → List String
  | plain _ cause => chainOption cause
  | issue i => chainIssue i
  | several _ => []
  | phase _ issues => [Issue.textAll issues]
  | crash _ => []

def chainOption : Option Fault → List String
  | none => []
  | some fault => fault.text :: chain fault

def chainIssue : Issue → List String
  | ⟨_, _, _, cause, _, _⟩ => chainOption cause

end

/-- The first issue of a fault, or the fault as an issue of the given code. -/
def toIssue (fault : Fault) (fallback : FaultCode) : Issue :=
  match fault.issue? with
  | some i => i
  | none => .wrap fallback fault.text (some fault)

/-- The issues that a fault adds to a collection: those collected in it, or itself as one. -/
def toIssues (fault : Fault) (fallback : FaultCode) : List Issue :=
  match fault.several? with
  | some issues => issues
  | none => [fault.toIssue fallback]

/-- Collects faults; none at all is no fault. -/
def collect? (faults : List Fault) (fallback : FaultCode) : Option Fault :=
  if faults.isEmpty then none else some (several (faults.flatMap (·.toIssues fallback)))

end Fault

namespace Issue

/-- The details of several issues, each name marked with the number of its issue. -/
def combinedContext (issues : List Issue) : Details :=
  issues.zipIdx.flatMap fun (issue, i) =>
    issue.context.map fun (name, value) => (s!"error_{i}_{name}", value)

/-- The code of the first issue. -/
def firstCode (issues : List Issue) : FaultCode := (issues.head?.map (·.code)).getD .unknown

/-- The place of the first issue. -/
def firstLocation (issues : List Issue) : Location :=
  (issues.head?.map (·.location)).getD .unknown

end Issue
end ScriptWeave
