import ScriptWeave.Fault.Basic
import ScriptWeave.Script.Parse

/-!
The issues of a conversion by kind. The wording of each kind stands here once.
-/

namespace ScriptWeave

/-- How a missing cause is shown inside a message. -/
def Fault.missingText : String := "<nil>"

/-- The text of a cause inside a message. -/
def Fault.causeText (cause : Option Fault) : String :=
  (cause.map Fault.text).getD Fault.missingText

namespace Issue

/-- A source file that cannot be parsed. -/
def parse (path : String) (line column : Int) (message : String) : Issue :=
  { ofMessage .parse message with location := ⟨path, line, column⟩ }

/-- A source file that cannot be parsed, with the parser's own report as the cause. -/
def ofSyntaxError (path : String) (error : Script.SyntaxError) : Issue :=
  let place := error.pos.render ++ ": " ++ error.message
  { parse path error.pos.line error.pos.column error.message with
    cause := some (.plain (if path = "" then place else path ++ ":" ++ place) none) }

/-- A reference that cannot be resolved. -/
def resolution (path : String) (line column : Int) (identifier message : String) : Issue :=
  { ofMessage .resolution message with
    location := ⟨path, line, column⟩
    context := if identifier = "" then [] else [("identifier", .text identifier)] }

/-- Two exports of one name into one package. -/
def exportConflict (package name existing incoming : String) : Issue :=
  let qualified := if package = "" then name else package ++ "." ++ name
  { ofMessage .exportConflict
      s!"symbol '{qualified}' exported by both {existing} and {incoming}" with
    location := .ofFile incoming
    context := [("package", .text package), ("existing", .text existing)]
    hints := ["Rename one of the declarations",
      "Move one of the declarations into a different package"] }

/-- A component of the dependency graph that cannot be merged. -/
def cycleMerge (component : Int) (members : List String) (message : String) : Issue :=
  let names := ", ".intercalate members
  { ofMessage .cycleMerge s!"cannot merge component {component} ({names}): {message}" with
    context := [("component", .number component)] }

/-- An output module that cannot be emitted. -/
def generation (module stage : String) (cause : Option Fault) : Issue :=
  { wrap .generation s!"failed to {stage} {module}: {Fault.causeText cause}" cause with
    location := .ofFile module }

/-- A source file that cannot be read. -/
def io (path : String) (cause : Option Fault) : Issue :=
  let message := s!"failed to read '{path}'"
  { wrap .io (match cause with
      | none => message
      | some fault => message ++ ": " ++ fault.text) cause with
    location := .ofFile path
    context := [("path", .text path)] }

/-- An operation on a file that failed. -/
def fileSystem (operation path : String) (cause : Option Fault) : Issue :=
  { wrap .fileSystem s!"failed to {operation} file '{path}'" cause with
    context := [("operation", .text operation), ("path", .text path)] }

/-- A template that failed. -/
def template (name operation : String) (cause : Option Fault) : Issue :=
  wrap .template s!"failed to {operation} template '{name}'" cause

/-- A setting that is not acceptable. -/
def configuration (type message : String) : Issue :=
  { ofMessage .configuration s!"configuration error in '{type}': {message}" with
    context := [("config_type", .text type)] }

/-- A configuration that cannot be read or understood. -/
def configurationFailure (type operation : String) (cause : Option Fault) : Issue :=
  { wrap .configuration s!"failed to {operation} configuration '{type}'" cause with
    context := [("config_type", .text type), ("operation", .text operation)] }

end Issue

namespace Fault

/-- A message that ends with the text of its cause. -/
def prefixed (message : String) (cause : Option Fault) : Fault :=
  plain (message ++ ": " ++
    match cause with
    | none => "%!w(" ++ missingText ++ ")"
    | some fault => fault.text) cause

/-- An item that cannot be written. -/
def write (item : String) (cause : Option Fault) : Fault :=
  prefixed ("failed to write " ++ item) cause

/-- An item that cannot be processed. -/
def process (item : String) (cause : Option Fault) : Fault :=
  prefixed ("failed to process " ++ item) cause

end Fault
end ScriptWeave
