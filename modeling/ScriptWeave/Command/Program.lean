import ScriptWeave.Command.Name
import ScriptWeave.Project.Configuration
import ScriptWeave.Report.Failure
import ScriptWeave.Web.Address
import ScriptWeave.Web.Server

/-!
The program behind the command line. A run depends on the disk, the environment, the working
directory and the engine that modules are loaded into; it leaves an exit code, what it wrote to its
two streams, and a changed disk.
-/

namespace ScriptWeave
namespace Command

open Text

/-- What a run depends on beside the disk and the command line. -/
structure World where
  environment : Project.Environment
  /-- The working directory, or why it is not known. -/
  working : Except String String
  clock : Clock

structure Exit where
  code : Nat
  written : Transcript
  disk : Disk
  /-- The defect that broke off the run. -/
  crash : Option String

/-- The status that the process ends with; one that broke off has a status of its own. -/
def Exit.status (e : Exit) : Nat := if e.crash.isSome then 2 else e.code

/-- The end of a run that went as it should. -/
def Exit.success (written : Transcript) (disk : Disk) : Exit := ⟨0, written, disk, none⟩

/-- What the program is called and which version of it this is. -/
def versionText : String := programName ++ " 0.1.0-dev\n"

/-- The settings that flags stand for, in the order in which they are applied. -/
def settingFlags : List (String × Setting) :=
  [("addr", .text .addr), ("cache-size", .count .cacheSize), ("engine", .text .engine),
   ("ignore-dot-files", .flag .ignoreDotFiles), ("no-substitutions", .flag .noSubstitutions),
   ("out", .text .outDir), ("strict-exports", .flag .strictExports), ("verify", .flag .verify),
   ("workers", .count .workers)]

/-- Settings changed by the flags that were given. -/
def applyFlags (p : Parsed) (c : Settings) : Settings :=
  settingFlags.foldl (fun c (flag, setting) =>
    match p.value? flag with
    | none => c
    | some value => (Project.applyVariable? c value setting).getD c) c

/-- Settings changed by the flags about the log, which only count when they say something. -/
def applyLogFlags (p : Parsed) (c : Settings) : Settings :=
  let c := if p.text "log-format" = "" then c else { c with logFormat := p.text "log-format" }
  if p.text "log-level" = "" then c else { c with logLevel := p.text "log-level" }

/-- Everything settled before a command does its work. -/
structure Setup where
  directory : String
  configuration : String
  settings : Settings
  console : Console
  logger : Logger
  reporter : Reporter

/-- The level of the console: only errors, everything, or what is usual. -/
def consoleLevel (p : Parsed) : Int :=
  if p.isSet "quiet" then 1 else if p.isSet "verbose" then 4 else 3

/-- Where a run starts to look for its project. Only an absolute path can do without the working
directory. -/
def startDirectory (w : World) (p : Parsed) : Except Fault String :=
  match p.arguments, w.working with
  | start :: _, .ok directory => .ok (Project.absolute directory start)
  | start :: _, .error message =>
      if Path.isAbsolute start then .ok (Path.clean start)
      else .error (.plain ("failed to resolve directory " ++ start ++ ": " ++ message)
        (some (.plain message none)))
  | [], .ok directory => .ok (Project.absolute "/" directory)
  | [], .error message => .error (.plain message none)

/-- The directory of the project: that of a configuration file that was named, or else the nearest
one that holds a configuration file. -/
def projectDirectory (d : Disk) (p : Parsed) (start : String) : String :=
  let directory := Project.find d start
  if p.text "config" = "" then directory
  else Path.directory (Project.resolve directory (p.text "config"))

/-- Settles the configuration of a run. -/
def settle (d : Disk) (w : World) (p : Parsed) : Except Fault Setup := do
  let start ← startDirectory w p
  let directory := projectDirectory d p start
  let source : Project.Source := ⟨directory, p.text "config", w.environment⟩
  let loaded ← source.load d
  let settings := applyLogFlags p (applyFlags p loaded)
  match settings.fault? with
  | some fault => throw fault
  | none => pure ()
  let placed := { settings with
    root := Project.resolve directory settings.root
    outDir := Project.resolve directory settings.outDir }
  let console := Console.plain (consoleLevel p)
  let logger ← Logger.ofNames settings.logFormat settings.logLevel
  let reporter := if settings.logFormat = "json"
    then Reporter.log logger [("project", .text directory)] else .console console
  return ⟨directory, source.fileUsed d, placed, console, logger, reporter⟩

namespace Setup

/-- What is told about the configuration. -/
def opening (s : Setup) : Transcript :=
  (if s.configuration = "" then []
   else s.console.message .debug ("Using config file " ++ s.configuration)) ++
    s.console.message .debug ("Project directory: " ++ s.directory)

def converter (s : Setup) (scripts : ScriptEngine) : Converter :=
  .ofSettings s.settings s.reporter scripts

end Setup

/-- A failed run: the message of a fault that is not described any further. -/
def failed (d : Disk) (written : Transcript) (fault : Fault) : Exit :=
  ⟨1, written ++ [(.error, "Error: " ++ fault.text ++ "\n")], d, fault.crash?⟩

/-- A failed conversion, which is described in full. -/
def failedConversion (p : Parsed) (d : Disk) (written : Transcript) (fault : Fault) : Exit :=
  ⟨1, written ++ [(.error, fault.account (p.isSet "verbose"))], d, fault.crash?⟩

variable (scripts : ScriptEngine)

def convert (d : Disk) (w : World) (i : Interruption) (p : Parsed) (s : Setup) : Exit :=
  let run := (s.converter scripts).runUnder d w.clock i
  let told := s.opening ++ s.console.heading programName ++
    run.notices.flatMap (Notice.written w.clock.moment s.console s.reporter)
  match run.outcome with
  | .error fault => failedConversion p run.disk told fault
  | .ok summary =>
      let account := if p.isSet "quiet" then []
        else [(.standard, summary.account (p.isSet "verbose"))]
      let entry : LogEntry := ⟨.debug, "conversion finished", [("run_id", .text summary.runId)]⟩
      .success (told ++ account ++ [(.error, s.logger.line w.clock.moment entry)]) run.disk

def graph (d : Disk) (w : World) (i : Interruption) (p : Parsed) (s : Setup) : Exit :=
  let asJson := p.isSet "json"
  let reporter := if asJson then Reporter.discard else s.reporter
  let (outcome, reports, _) := (Converter.ofSettings s.settings reporter scripts).buildUnder d i
  let told := s.opening ++ reports.flatMap fun report => reporter.written w.clock.moment report
  match outcome with
  | .error fault => failedConversion p d told fault
  | .ok build =>
      let report := GraphReport.ofBuild build
      let text := if asJson then report.toJson.indented 0 ++ "\n" else report.text
      .success (told ++ [(.standard, text)]) d

def clean (d : Disk) (p : Parsed) (s : Setup) : Exit :=
  let removal := cleanOutput d s.settings.outDir
  let count := removal.removed.length
  match removal.fault with
  | some fault => failed removal.disk s.opening fault
  | none =>
      if removal.removed.isEmpty then
        .success (s.opening ++ s.console.message .info
          ("Nothing to clean in " ++ s.settings.outDir))
          removal.disk
      else
        let listed := if p.isSet "verbose"
          then removal.removed.flatMap s.console.indent.listItem else []
        .success (s.opening ++ listed ++ s.console.message .success
          (s!"Removed {count} modules from " ++ s.settings.outDir)) removal.disk

/-- Starts the server as far as an address that cannot be listened on lets it; a server that can
listen runs until it is stopped. -/
def serve (d : Disk) (w : World) (s : Setup) : Exit :=
  match Engine.ofName s.settings.engine with
  | .error fault => failed d s.opening fault
  | .ok engine =>
      match Server.create engine (s.converter scripts) s.settings.cacheSize with
      | .error fault => failed d s.opening fault
      | .ok server =>
          let title := server.engine.title
          let announced := s.opening ++ s.console.message .info
            ("Serving " ++ s.settings.root ++ " on http://" ++ s.settings.addr ++ " (" ++ title ++
              ")")
          let entry : LogEntry := ⟨.info, "dev server listening",
            [("addr", .text s.settings.addr), ("engine", .text title)]⟩
          let told := announced ++ [(.error, s.logger.line w.clock.moment entry)]
          match Address.refusal? engine s.settings.addr with
          | some message => failed d told (.plain message none)
          | none => .success told d

/-- Performs a command. -/
def perform (d : Disk) (w : World) (i : Interruption) (name : Name) (p : Parsed) : Exit :=
  match name with
  | .version => .success [(.standard, versionText)] d
  | _ =>
      match settle d w p with
      | .error fault => failed d [] fault
      | .ok s =>
          match name with
          | .convert => convert scripts d w i p s
          | .graph => graph scripts d w i p s
          | .clean => clean d p s
          | .serve => serve scripts d w s
          | .version => .success [] d

/-- Runs a command line, which may be cancelled. -/
def runUnder (d : Disk) (w : World) (i : Interruption) (words : List String)
    (scripts : ScriptEngine := .lenient) : Exit :=
  match Invocation.read words with
  | .error message => failed d [] (.plain message none)
  | .ok .help => .success [] d
  | .ok (.command name parsed) => perform scripts d w i name parsed

/-- Runs a command line. -/
def run (d : Disk) (w : World) (words : List String) (scripts : ScriptEngine := .lenient) : Exit :=
  runUnder d w .never words scripts

end Command
end ScriptWeave
