import ScriptWeave.Build.ManifestReader
import ScriptWeave.Disk.Cache
import ScriptWeave.Fault.Kinds

/-!
Builds on disk. The modules of a build are written below an output directory together with a record
of them; the record tells the next build, and the removal of everything, which files are theirs.
-/

namespace ScriptWeave

open Text

/-- What a removal did before it ended. -/
structure Removal where
  /-- The files removed, in order. -/
  removed : List String
  fault : Option Fault
  disk : Disk

namespace Disk

/-- Removes files below a directory until one cannot be removed. -/
def removeFiles (d : Disk) (directory : String) : List String → Removal
  | [] => ⟨[], none, d⟩
  | file :: files =>
      let path := Path.join [directory, file]
      match d.remove path with
      | .ok d' =>
          let rest := removeFiles d' directory files
          { rest with removed := file :: rest.removed }
      | .error e =>
          if e.isMissing then removeFiles d directory files
          else ⟨[], some (e.within (.process ("file removal " ++ path))), d⟩

end Disk

/-- Forgets the texts of files that were removed below a directory. -/
def ContentCache.forgetRemoved (c : ContentCache) (directory : String) (removed : List String) :
    ContentCache :=
  removed.foldl (fun c file => ContentCache.forget c (Path.join [directory, file])) c

namespace Manifest

def pathIn (outDir : String) : String := Path.join [outDir, fileName]

/-- The record in an output directory, if there is one. -/
def read (d : Disk) (outDir : String) : Except Fault (Option Manifest) :=
  let path := pathIn outDir
  match d.read path with
  | .error e =>
      if e.isMissing then .ok none
      else .error (.issue (.fileSystem "read" path (some e.toFault)))
  | .ok text =>
      match parse text with
      | .ok m => .ok (some m)
      | .error message => .error (.issue (.fileSystem "decode" path (some (.plain message none))))

end Manifest

/-- What writing a build changed. -/
structure Written where
  manifest : Manifest
  modules : List String
  removed : List String

namespace Build

/-- The modules of an earlier record that a build no longer has. -/
def stale (b : Build) (previous : Option Manifest) : List String :=
  ((previous.map (·.files)).getD []).filter fun id => !(b.modules.any (·.id.path = id))

/-- Writes one module with the directory above it. -/
def writeModule (d : Disk) (outDir : String) (m : GeneratedModule) : Except Fault Unit × Disk :=
  let path := Path.join [outDir, m.id.path]
  match d.makeDirectory (Path.directory path) with
  | .error e => (.error (.issue (.fileSystem "create directory for" path (some e.toFault))), d)
  | .ok d' =>
      match d'.write path m.content with
      | .error e => (.error (.write path (some e.toFault)), d')
      | .ok d'' => (.ok (), d'')

/-- Writes modules until one cannot be written. -/
def writeModules (d : Disk) (outDir : String) : List GeneratedModule → Except Fault Unit × Disk
  | [] => (.ok (), d)
  | m :: ms =>
      match writeModule d outDir m with
      | (.error fault, d') => (.error fault, d')
      | (.ok (), d') => writeModules d' outDir ms

/-- Writes the record of a build. -/
def writeManifest (d : Disk) (outDir : String) (m : Manifest) : Except Fault Unit × Disk :=
  match d.write (Manifest.pathIn outDir) m.render with
  | .error e => (.error (.write (Manifest.pathIn outDir) (some e.toFault)), d)
  | .ok d' => (.ok (), d')

/-- Removes stale modules, writes all modules, and writes the record last. -/
def write (b : Build) (d : Disk) (outDir : String) : Except Fault Written × Disk :=
  match Manifest.ofBuild b with
  | .error fault => (.error fault, d)
  | .ok manifest =>
      match Manifest.read d outDir with
      | .error fault => (.error fault, d)
      | .ok previous =>
          let removal := d.removeFiles outDir (b.stale previous)
          match removal.fault with
          | some fault => (.error fault, removal.disk)
          | none =>
              match writeModules removal.disk outDir b.modules with
              | (.error fault, d') => (.error fault, d')
              | (.ok (), d') =>
                  match writeManifest d' outDir manifest with
                  | (.error fault, d'') => (.error fault, d'')
                  | (.ok (), d'') =>
                      (.ok ⟨manifest, b.modules.map (·.id.path), removal.removed⟩, d'')

end Build

/-- Removes the modules that the record in an output directory speaks of, and then the record. -/
def cleanOutput (d : Disk) (outDir : String) : Removal :=
  match Manifest.read d outDir with
  | .error fault => ⟨[], some fault, d⟩
  | .ok none => ⟨[], none, d⟩
  | .ok (some manifest) =>
      let removal := d.removeFiles outDir manifest.files
      match removal.fault with
      | some _ => removal
      | none =>
          let path := Manifest.pathIn outDir
          match removal.disk.remove path with
          | .ok d' => { removal with disk := d' }
          | .error e =>
              if e.isMissing then removal
              else { removal with
                fault := some (e.within fun cause => .issue (.fileSystem "remove" path cause)) }

end ScriptWeave
