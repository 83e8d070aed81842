import ScriptWeave.Build.Verification
import ScriptWeave.Build.Writer
import ScriptWeave.Project.Loader
import ScriptWeave.Project.Settings
import ScriptWeave.Report.Reporter
import ScriptWeave.Report.Summary

/-!
The conversion of a project on disk: read the sources, convert them, see whether the modules can be
loaded where that is asked for, and write them. Nothing is written unless everything else was done.
-/

namespace ScriptWeave

open Text

/-- How the moments of a run are written. -/
structure Clock where
  /-- The moment of an entry in a log. -/
  moment : String
  /-- The time of day at which a run started. -/
  start : String
  /-- How long a run took. -/
  duration : String

/-- When a run is cancelled from outside. -/
structure Interruption where
  /-- Whether it is cancelled before the source at a position is read. -/
  reading : Nat → Bool
  /-- Whether it is cancelled once the conversion made these reports. -/
  converting : List Report → Bool
  /-- Whether it is cancelled before the module at a position is rendered. -/
  rendering : Nat → Bool

namespace Interruption

/-- Cancelled from the start, or not at all. -/
def always (cancelled : Bool) : Interruption :=
  ⟨fun _ => cancelled, fun _ => cancelled, fun _ => cancelled⟩

def never : Interruption := .always false

/-- Whether it comes before one of so many modules is rendered. -/
def stopsRendering (i : Interruption) (count : Nat) : Bool := (List.range count).any i.rendering

end Interruption

structure Converter where
  settings : Settings
  reporter : Reporter
  /-- The engine that modules are loaded into. -/
  scripts : ScriptEngine
  loader : Loader
  /-- Whether a fault was reported before. -/
  faulted : Bool

namespace Settings

def loaderOptions (c : Settings) : LoaderOptions := ⟨c.ignoreDotFiles, c.noSubstitutions⟩

def conflictPolicy (c : Settings) : Pipeline.ConflictPolicy :=
  if c.strictExports then .fail else .lastWins

end Settings

namespace Converter

def ofSettings (settings : Settings) (reporter : Reporter)
    (scripts : ScriptEngine := .lenient) : Converter :=
  ⟨settings, reporter, scripts, .ofOptions settings.loaderOptions, false⟩

/-- Takes note of faults among reports. -/
def after (c : Converter) (reports : List Report) : Converter :=
  { c with faulted := c.faulted || reports.any (·.isFault) }

/-- Reads the sources and computes their digest. -/
def loadUnder (c : Converter) (d : Disk) (i : Interruption) :
    Except Fault (List SourceFile × String) × List Report × Converter :=
  let load := c.loader.loadUnder d c.settings.root i.reading
  let c' := { c with loader := load.loader }.after load.reports
  match load.outcome with
  | .error fault => (.error fault, load.reports, c')
  | .ok files =>
      match Digest.ofSources? files with
      | none => (.error (.process "source digest" (some (.plain Digest.newlineMessage none))),
          load.reports, c')
      | some digest => (.ok (files, digest), load.reports, c')

/-- What the outside answers during a conversion. Other conversions may use the reporter as well;
`heard` says whether a fault was reported elsewhere by the time it is asked for the `n`-th time. -/
def signals (c : Converter) (i : Interruption) (heard : Nat → Bool) : Pipeline.Signals :=
  { cancelled := i.converting
    faulty := fun n reports => c.reporter.hears && (heard n || reports.any (·.isFault)) }

/-- Renders modules, and sees whether they can be loaded where that is asked for. -/
def render (c : Converter) (i : Interruption) (output : OutputSet Resolve.Module) :
    Except Fault (List GeneratedModule) := do
  let modules ← Emit.generate .ok (i.stopsRendering output.modules.length) output
  if c.settings.verify then c.scripts.verify modules
  return modules

/-- Converts sources and renders the modules, beside other conversions. -/
def convertAmid (c : Converter) (i : Interruption) (heard : Nat → Bool) (files : List SourceFile)
    (digest : String) : Except Fault Build × List Report :=
  let (outcome, journal) := Pipeline.run .actionScript (c.signals i heard)
    (.sequential c.settings.conflictPolicy) files
  let build := do
    let result ← outcome
    let modules ← c.render i result.output
    return ⟨result.runId, digest, files, result, modules⟩
  (build, journal.reports)

/-- Converts sources and renders the modules. -/
def convertUnder (c : Converter) (i : Interruption) (files : List SourceFile) (digest : String) :
    Except Fault Build × List Report × Converter :=
  let (outcome, reports) := c.convertAmid i (fun _ => c.faulted) files digest
  (outcome, reports, c.after reports)

/-- Reads and converts the project without writing anything. -/
def buildUnder (c : Converter) (d : Disk) (i : Interruption) :
    Except Fault Build × List Report × Converter :=
  match c.loadUnder d i with
  | (.error fault, reports, c') => (.error fault, reports, c')
  | (.ok (files, digest), reports, c') =>
      let (outcome, more, c'') := c'.convertUnder i files digest
      (outcome, reports ++ more, c'')

def build (c : Converter) (d : Disk) (cancelled : Bool) :
    Except Fault Build × List Report × Converter :=
  c.buildUnder d (.always cancelled)

/-- How many sources were replaced by bundled ones. -/
def substituted (c : Converter) (files : List SourceFile) : Nat :=
  files.countP fun file => (Loader.replacement? c.settings.loaderOptions file.path).isSome

/-- The outcome of a run, what it told, and what it changed. -/
structure Run where
  outcome : Except Fault Summary
  notices : List Notice
  disk : Disk
  converter : Converter

def summaryOf (c : Converter) (files : List SourceFile) (build : Build) (written : Written) :
    Summary :=
  { runId := build.runId
    sourceFiles := files.length
    substituted := c.substituted files
    modulesEmitted := build.modules.length
    mergedModules := build.result.output.count .merged
    redirects := build.result.output.count .redirect
    outDir := c.settings.outDir
    generated := written.modules
    removed := written.removed }

def startNotices (c : Converter) (clock : Clock) : List Notice :=
  [.remark (.verbose ("Starting conversion at " ++ clock.start)),
   .remark (.debug ("Project root: " ++ c.settings.root)),
   .remark (.header "Loading sources")]

def loadedNotices (c : Converter) (files : List SourceFile) (digest : String) : List Notice :=
  let count := c.substituted files
  [.remark (.item s!"Read {files.length} source files")] ++
    (if 0 < count then [.remark (.item s!"Replaced {count} JSON library files")] else []) ++
    [.remark (.debug ("Source digest: " ++ digest)), .remark (.header "Converting")]

def convertedNotices (c : Converter) (build : Build) : List Notice :=
  let merged := build.result.output.count .merged
  [.remark (.item s!"Rendered {build.modules.length} modules")] ++
    (if 0 < merged then
      [.remark (.item s!"Merged {merged} circular dependency groups")]
     else []) ++
    (if c.settings.verify then [.remark (.item "Verified every module loads")] else []) ++
    [.remark (.header "Writing output")]

def writtenNotices (c : Converter) (clock : Clock) (written : Written) : List Notice :=
  let count := written.modules.length
  [.remark (.item (s!"Wrote {count} modules to " ++ c.settings.outDir))] ++
    (if written.removed.isEmpty then []
     else [.remark (.item s!"Removed {written.removed.length} stale modules")]) ++
    [.remark (.verbose ("Conversion took " ++ clock.duration))]

/-- Converts the project and writes the result to the output directory. -/
def runUnder (c : Converter) (d : Disk) (clock : Clock) (i : Interruption) : Run :=
  match c.loadUnder d i with
  | (.error fault, reports, c') =>
      ⟨.error fault, c.startNotices clock ++ reports.map .report, d, c'⟩
  | (.ok (files, digest), reports, c') =>
      let loaded := c.startNotices clock ++ reports.map .report ++ c.loadedNotices files digest
      match c'.convertUnder i files digest with
      | (.error fault, more, c'') => ⟨.error fault, loaded ++ more.map .report, d, c''⟩
      | (.ok build, more, c'') =>
          let converted := loaded ++ more.map .report ++ c.convertedNotices build
          match build.write d c.settings.outDir with
          | (.error fault, d') => ⟨.error fault, converted, d', c''⟩
          | (.ok written, d') =>
              ⟨.ok (c.summaryOf files build written), converted ++ c.writtenNotices clock written,
                d', c''⟩

/-- Converts the project without being cancelled. -/
def run (c : Converter) (d : Disk) (clock : Clock) : Run := c.runUnder d clock .never

end Converter
end ScriptWeave
