import ScriptWeave.Project.Check
import ScriptWeave.Text.Case
import ScriptWeave.Text.Path

/-!
The settings of a conversion and of the server. A setting is text, a flag or a count; each has one
name in configuration files and one in the environment.
-/

namespace ScriptWeave

structure Settings where
  /-- The directory of the sources. -/
  root : String
  /-- The directory that receives the modules. -/
  outDir : String
  ignoreDotFiles : Bool
  strictExports : Bool
  noSubstitutions : Bool
  /-- How many files are processed at a time; zero leaves it to the machine. -/
  workers : Int
  verify : Bool
  logFormat : String
  logLevel : String
  addr : String
  engine : String
  /-- How many builds the server keeps. -/
  cacheSize : Int
deriving DecidableEq, Repr

inductive TextSetting where
  | root
  | outDir
  | logFormat
  | logLevel
  | addr
  | engine
deriving DecidableEq, Repr

inductive FlagSetting where
  | ignoreDotFiles
  | strictExports
  | noSubstitutions
  | verify
deriving DecidableEq, Repr

inductive CountSetting where
  | workers
  | cacheSize
deriving DecidableEq, Repr

inductive Setting where
  | text (setting : TextSetting)
  | flag (setting : FlagSetting)
  | count (setting : CountSetting)
deriving DecidableEq, Repr

namespace Setting

/-- The name in configuration files. -/
def key : Setting → String
  | text .root => "root"
  | text .outDir => "out_dir"
  | text .logFormat => "log_format"
  | text .logLevel => "log_level"
  | text .addr => "addr"
  | text .engine => "engine"
  | flag .ignoreDotFiles => "ignore_dot_files"
  | flag .strictExports => "strict_exports"
  | flag .noSubstitutions => "no_substitutions"
  | flag .verify => "verify"
  | count .workers => "workers"
  | count .cacheSize => "cache_size"

/-- The name in the environment. -/
def variableName (s : Setting) : String := "AS2AMD_" ++ s.key.toUpper

def all : List Setting :=
  [text .root, text .outDir, flag .ignoreDotFiles, flag .strictExports, flag .noSubstitutions,
   count .workers, flag .verify, text .logFormat, text .logLevel, text .addr, text .engine,
   count .cacheSize]

def ofKey? (key : String) : Option Setting := all.find? (·.key = key)

end Setting

namespace Settings

/-- What holds unless something else is said. -/
def standard : Settings :=
  { root := "."
    outDir := "build"
    ignoreDotFiles := false
    strictExports := false
    noSubstitutions := false
    workers := 0
    verify := false
    logFormat := "text"
    logLevel := "info"
    addr := "127.0.0.1:8080"
    engine := "echo"
    cacheSize := 16 }

def setText (c : Settings) (value : String) : TextSetting → Settings
  | .root => { c with root := value }
  | .outDir => { c with outDir := value }
  | .logFormat => { c with logFormat := value }
  | .logLevel => { c with logLevel := value }
  | .addr => { c with addr := value }
  | .engine => { c with engine := value }

def setFlag (c : Settings) (value : Bool) : FlagSetting → Settings
  | .ignoreDotFiles => { c with ignoreDotFiles := value }
  | .strictExports => { c with strictExports := value }
  | .noSubstitutions => { c with noSubstitutions := value }
  | .verify => { c with verify := value }

def setCount (c : Settings) (value : Int) : CountSetting → Settings
  | .workers => { c with workers := value }
  | .cacheSize => { c with cacheSize := value }

def getText (c : Settings) : TextSetting → String
  | .root => c.root
  | .outDir => c.outDir
  | .logFormat => c.logFormat
  | .logLevel => c.logLevel
  | .addr => c.addr
  | .engine => c.engine

def getFlag (c : Settings) : FlagSetting → Bool
  | .ignoreDotFiles => c.ignoreDotFiles
  | .strictExports => c.strictExports
  | .noSubstitutions => c.noSubstitutions
  | .verify => c.verify

def getCount (c : Settings) : CountSetting → Int
  | .workers => c.workers
  | .cacheSize => c.cacheSize

def engines : List String := ["echo", "gin", "fiber"]

open Text (Path.clean Path.directory Path.isAbsolute)

/-- The checks of the output directory beside a source directory. -/
def outDirCheck (root : String) : Check String :=
  .all
    [.notEmpty "out_dir",
     .ensure "out_dir" "must differ from the project root" fun out =>
       Path.clean out ≠ Path.clean root,
     .only Path.isAbsolute (.ensure "out_dir" "must not be the file system root" fun out =>
       Path.directory (Path.clean out) ≠ Path.clean out)]

/-- Everything that is wrong with settings. -/
def complaints (c : Settings) : List Complaint :=
  [Check.notEmpty "root" c.root,
   outDirCheck c.root c.outDir,
   Check.inRange "workers" 0 1024 c.workers,
   Check.oneOf id "log_format" ["text", "json"] c.logFormat,
   Check.oneOf id "log_level" ["trace", "debug", "info", "warn", "warning", "error"]
     (Text.lower c.logLevel),
   Check.oneOf id "engine" engines c.engine,
   Check.inRange "cache_size" 1 65536 c.cacheSize].filterMap id

/-- The fault of settings that no run could use. -/
def fault? (c : Settings) : Option Fault :=
  Fault.collect? (c.complaints.map Complaint.toFault) .configuration

end Settings
end ScriptWeave
