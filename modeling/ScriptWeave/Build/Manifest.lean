import ScriptWeave.Digest.FileSet
import ScriptWeave.Emit.Module
import ScriptWeave.Pipeline.Convert
import ScriptWeave.Text.Json

/-!
A converted project in memory, and the record that a conversion leaves beside its modules: what was
read, what was written, and which modules stand in for which.
-/

namespace ScriptWeave

structure Build where
  runId : String
  sourceDigest : String
  sources : List SourceFile
  result : Pipeline.Result Resolve.Module
  modules : List GeneratedModule

namespace Build

/-- The text of a module. -/
def module? (b : Build) (id : ModuleId) : Option GeneratedModule := b.modules.find? (·.id = id)

end Build

structure ManifestEntry where
  id : String
  kind : String
  /-- The members of a merged module. -/
  members : List String
  /-- The target of a redirect. -/
  target : String
deriving DecidableEq, Repr

structure Manifest where
  runId : String
  sourceDigest : String
  outputDigest : String
  /-- The modules, or nothing when a record does not speak of them. -/
  modules : Option (List ManifestEntry)
deriving DecidableEq, Repr

namespace Manifest

open Text (Json)

/-- The name of the record in the output directory. -/
def fileName : String := "as2amd.manifest.json"

/-- The paths of the modules that the record speaks of. -/
def files (m : Manifest) : List String := (m.modules.getD []).map (·.id)

/-- The entry of an emitted text. -/
def entryOf (output : OutputSet Resolve.Module) (text : GeneratedModule) : ManifestEntry :=
  let entry : ManifestEntry := ⟨text.id.path, text.kind.name, [], ""⟩
  match output.get? text.id with
  | some (.merged m) => { entry with members := m.members.map (·.id.path) }
  | some (.redirect _ target _) => { entry with target := target.path }
  | _ => entry

/-- The record of a build; module paths with newlines have no digest. -/
def ofBuild (b : Build) : Except Fault Manifest :=
  match Digest.ofModules? b.modules with
  | none => .error (.plain Digest.newlineMessage none)
  | some digest =>
      .ok ⟨b.runId, b.sourceDigest, digest, some (b.modules.map (entryOf b.result.output))⟩

def entryJson (e : ManifestEntry) : Json :=
  .object <| [("id", .string e.id), ("kind", .string e.kind)]
    ++ (if e.members.isEmpty then [] else [("members", .ofTexts e.members)])
    ++ (if e.target = "" then [] else [("target", .string e.target)])

def toJson (m : Manifest) : Json :=
  .object
    [("run_id", .string m.runId), ("source_digest", .string m.sourceDigest),
     ("output_digest", .string m.outputDigest),
     ("modules", match m.modules with
       | none => .null
       | some entries => .array (entries.map entryJson))]

/-- The text of the record on disk. -/
def render (m : Manifest) : String := m.toJson.indented 0 ++ "\n"

end Manifest
end ScriptWeave
