import ScriptWeave.Disk.Basic
import ScriptWeave.Fault.Kinds
import ScriptWeave.Project.DotEnv
import ScriptWeave.Project.Toml
import ScriptWeave.Project.Yaml

/-!
Where a project is. Its directory is the nearest one, from a starting point upwards, that holds a
configuration file.

Loading of settings. A configuration file overrides the standard settings, the variables of a file
beside it override that, and the environment overrides everything.
-/

namespace ScriptWeave
namespace Project

open Text

/-- The names under which a configuration file is looked for, in this order. -/
def configurationNames : List String := ["as2amd.yaml", "as2amd.yml", "as2amd.toml"]

/-- The configuration file in a directory. -/
def configurationIn? (d : Disk) (directory : String) : Option String :=
  (configurationNames.map fun name => Path.join [directory, name]).find? d.exists?

/-- A directory and those above it, the nearest first; `fuel` bounds the depth. -/
def upwards : Nat → String → List String
  | 0, directory => [directory]
  | fuel + 1, directory =>
      let parent := Path.directory directory
      if parent = directory then [directory] else directory :: upwards fuel parent

/-- An absolute form of a path as seen from a directory. -/
def absolute (working path : String) : String :=
  if Path.isAbsolute path then Path.clean path else Path.join [working, path]

/-- The directory of the project that an absolute starting point belongs to. -/
def find (d : Disk) (start : String) : String :=
  let directory := Path.clean start
  ((upwards (directory.length + 1) directory).find? fun dir =>
    (configurationIn? d dir).isSome).getD directory

/-- A path of the configuration as seen from the directory of the project. -/
def resolve (directory path : String) : String :=
  if Path.isAbsolute path then Path.clean path else Path.join [directory, path]

/-- A variable of the environment, if it is set. -/
abbrev Environment : Type := String → Option String

/-- Applies the variable of one setting. -/
def applyVariable? (c : Settings) (value : String) : Setting → Option Settings
  | .text s => some (c.setText value s)
  | .flag s => (readBool? value).map fun b => c.setFlag b s
  | .count s => (readInt value).toOption.map fun n => c.setCount n s

/-- Applies the variables of all settings. -/
def applyEnvironment? (c : Settings) (environment : Environment) : Option Settings :=
  Setting.all.foldlM (fun c setting =>
    match environment setting.variableName with
    | none => some c
    | some value => applyVariable? c value setting) c

/-- The settings of a configuration file over others. -/
def decodeFile (d : Disk) (path : String) (c : Settings) : Except Fault Settings :=
  let failure (operation : String) (cause : Fault) : Except Fault Settings :=
    .error (.issue (.configurationFailure path operation (some cause)))
  let malformed := failure "decode" (.plain "malformed configuration" none)
  match d.read path with
  | .error e => failure "read" e.toFault
  | .ok text =>
      let format := Text.lower (Path.extension path)
      if format = ".toml" then
        match Toml.decode c text with
        | .ok settings => .ok settings
        | .error .malformed => malformed
        | .error (.crash message) => .error (.crash message)
      else if format = ".yaml" ∨ format = ".yml" then
        match Yaml.decode? c text with
        | some settings => .ok settings
        | none => malformed
      else .error (.issue (.configuration path
        "unsupported config format, use .yaml, .yml or .toml"))

/-- The variables of a file; a missing file has none. -/
def readVariables (d : Disk) (path : String) : Except Fault DotEnv.Variables :=
  match d.read path with
  | .error e =>
      if e.isMissing then .ok []
      else .error (.issue (.configurationFailure path "open" (some e.toFault)))
  | .ok text =>
      match DotEnv.parse? text with
      | some found => .ok found
      | none => .error (.issue (.configurationFailure path "parse"
          (some (.plain "malformed variables" none))))

/-- What settings are loaded from. -/
structure Source where
  /-- Where a configuration file and a file of variables are looked for. -/
  directory : String
  /-- A configuration file named by the user; empty if there is none. -/
  file : String
  environment : Environment

/-- The configuration file that is used; empty if there is none. -/
def Source.fileUsed (s : Source) (d : Disk) : String :=
  if s.file = "" then (configurationIn? d s.directory).getD "" else s.file

/-- Settings changed by the variables of the environment and of the file beside the project. -/
def Source.overlay (s : Source) (d : Disk) (c : Settings) : Except Fault Settings := do
  let vars ← readVariables d (Path.join [s.directory, ".env"])
  let environment : Environment := fun name =>
    match s.environment name with
    | some value => some value
    | none => vars.get? name
  match applyEnvironment? c environment with
  | some settings => .ok settings
  | none => .error (.issue (.configurationFailure "environment" "parse"
      (some (.plain "malformed variable" none))))

/-- The settings for a project. -/
def Source.load (s : Source) (d : Disk) : Except Fault Settings :=
  let file := s.fileUsed d
  if file = "" then s.overlay d .standard
  else do
    let fromFile ← decodeFile d file .standard
    s.overlay d fromFile

end Project
end ScriptWeave
