import ScriptWeave.Disk.Cache
import ScriptWeave.Disk.Walk
import ScriptWeave.Fault.Kinds
import ScriptWeave.Module.Output
import ScriptWeave.Project.Substitution
import ScriptWeave.Report.Event

/-!
Reading the sources of a project. Source files are read in order of their paths; those of the
replaced library come from the bundled texts. Files that have not changed since the last time are
not read again.
-/

namespace ScriptWeave

open Text

structure LoaderOptions where
  ignoreDotFiles : Bool
  noSubstitutions : Bool
deriving DecidableEq, Repr

structure Loader where
  options : LoaderOptions
  cache : ContentCache

namespace Loader

def ofOptions (options : LoaderOptions) : Loader := ⟨options, .empty⟩

/-- The walk over the source files. -/
def walkOptions (options : LoaderOptions) : WalkOptions :=
  .bySuffix ".as" (!options.ignoreDotFiles) (!options.ignoreDotFiles) false

/-- The paths of the source files below a root, in order. -/
def list (l : Loader) (d : Disk) (root : String) : Except DiskError (List String) :=
  d.walk (walkOptions l.options) root

/-- The bundled text that replaces a source file. -/
def replacement? (options : LoaderOptions) (path : String) : Option String :=
  if options.noSubstitutions then none else Project.substitution? path

/-- The step that announces the reading of a file. -/
def announcement (options : LoaderOptions) (path : String) : Report :=
  .step ⟨"read", "reading " ++ path, .debug, some (("filename", .text path) ::
    match replacement? options path with
    | some name => [("substitute", .text name)]
    | none => [])⟩

/-- The text of a source file. -/
def readText (l : Loader) (d : Disk) (root path : String) : Except Fault String × Loader :=
  match replacement? l.options path with
  | some name =>
      match Project.bundled name with
      | .ok text => (.ok text, l)
      | .error message => (.error (.plain message none), l)
  | none =>
      let (text, cache) := l.cache.read d (Path.join [root, path])
      (text, { l with cache })

/-- What reading gave so far. -/
structure Progress where
  files : List SourceFile
  issues : List Issue
  reports : List Report
  loader : Loader

/-- Reads one more file. -/
def readNext (d : Disk) (root : String) (p : Progress) (path : String) : Progress :=
  let announced := p.reports ++ [announcement p.loader.options path]
  match p.loader.readText d root path with
  | (.ok text, loader) =>
      { p with files := p.files ++ [⟨path, text⟩], reports := announced, loader }
  | (.error fault, loader) =>
      let issue := Issue.io path (some fault)
      { p with
        issues := p.issues ++ [issue]
        reports := announced ++ [.fault "read" (.issue issue)]
        loader }

/-- The outcome of a load, what it reported, and the loader afterwards. -/
structure Load where
  outcome : Except Fault (List SourceFile)
  reports : List Report
  loader : Loader

/-- The step at the end of a load. -/
def finished (before : ContentCache) (files : Nat) (after : ContentCache) : Report :=
  .step ⟨"read", s!"read {files} files, {after.hits - before.hits} unchanged since the last load",
    .debug, some [("cache_size", .number after.size), ("cache_hits", .number after.hits),
      ("cache_misses", .number after.misses)]⟩

/-- The fault of a load that was cancelled. -/
def cancelledFault : Fault := .plain "context canceled" none

/-- Reads files in turn, the first of them being the `n`-th, and tells whether it was cancelled.
Cancellation is noticed before a file is read. -/
def readAll (d : Disk) (root : String) (cancelled : Nat → Bool) :
    Nat → Progress → List String → Progress × Bool
  | _, p, [] => (p, false)
  | n, p, path :: paths =>
      if cancelled n then (p, true)
      else readAll d root cancelled (n + 1) (readNext d root p path) paths

/-- Reads every source file below a root, unless it is cancelled before one of them. Files that
cannot be read are collected. -/
def loadUnder (l : Loader) (d : Disk) (root : String) (cancelled : Nat → Bool) : Load :=
  match l.list d root with
  | .error e =>
      let issue := Issue.io root (some e.toFault)
      ⟨.error (.phase "IO error" [issue]), [.fault "read" (.issue issue)], l⟩
  | .ok paths =>
      match readAll d root cancelled 0 ⟨[], [], [], l⟩ paths with
      | (p, true) => ⟨.error cancelledFault, p.reports, p.loader⟩
      | (p, false) =>
          if p.issues.isEmpty then
            ⟨.ok p.files, p.reports ++ [finished l.cache p.files.length p.loader.cache], p.loader⟩
          else ⟨.error (.phase "IO error" p.issues), p.reports, p.loader⟩

/-- Reads every source file below a root, cancelled from the start or not at all. -/
def load (l : Loader) (d : Disk) (root : String) (cancelled : Bool) : Load :=
  l.loadUnder d root fun _ => cancelled

end Loader
end ScriptWeave
