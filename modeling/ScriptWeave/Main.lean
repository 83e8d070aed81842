import ScriptWeave.Command.Program

/-!
The program on a real file system. The files that a run may read are gathered into a disk in memory,
the run happens there, and its changes are carried out afterwards.
-/

open ScriptWeave

namespace Program

/-- Puts a file on the disk; one that cannot be read is refused later. -/
def gatherFile (d : Disk) (path : String) : IO Disk := do
  try
    return d.put path (← IO.FS.readFile path) 0
  catch e =>
    let placed := d.put path "" 0
    return { placed with refusals := ⟨.openFile, path, toString e⟩ :: placed.refusals }

/-- Puts a file on the disk if there is one. -/
def gatherIfPresent (d : Disk) (path : String) : IO Disk := do
  let here ← IO.currentDir
  if (← (here / path).pathExists) && !(← (here / path).isDir) then gatherFile d path else return d

/-- Puts everything below a directory on the disk. -/
partial def gatherTree (d : Disk) (path : String) : IO Disk := do
  let place := (← IO.currentDir) / path
  if !(← place.pathExists) then return d
  if !(← place.isDir) then return (← gatherFile d path)
  let mut disk := d.putDirectory path
  for entry in ← place.readDir do
    disk ← gatherTree disk (Text.Path.join [path, entry.fileName])
  return disk

/-- Puts the files that settle the configuration on the disk. -/
def gatherConfiguration (d : Disk) (start config : String) : IO Disk := do
  let mut disk := d
  for directory in Project.upwards (start.length + 1) start do
    for name in ".env" :: Project.configurationNames do
      disk ← gatherIfPresent disk (Text.Path.join [directory, name])
  if config ≠ "" then
    disk ← gatherIfPresent disk config
    disk ← gatherIfPresent disk (Text.Path.join [Text.Path.directory config, ".env"])
  return disk

/-- The disk that a command line needs. -/
def gather (w : Command.World) (words : List String) : IO Disk := do
  match Command.Invocation.read words with
  | .ok (.command _ parsed) =>
      match Command.startDirectory w parsed with
      | .error _ => return .empty
      | .ok start =>
          let disk ← gatherConfiguration .empty start (parsed.text "config")
          match Command.settle disk w parsed with
          | .error _ => return disk
          | .ok s => gatherTree (← gatherTree disk s.settings.root) s.settings.outDir
  | _ => return .empty

/-- Carries out on the file system what a run changed on the disk. -/
def carryOut (before after : Disk) : IO Unit := do
  for (path, node) in before.nodes do
    if !node.isDirectory && (after.node? path).isNone then IO.FS.removeFile path
  for (path, node) in after.nodes do
    let old := before.node? path
    if node.isDirectory then
      if old.isNone then IO.FS.createDirAll path
    else if (old.map (·.text)) != some node.text then
      IO.FS.createDirAll (Text.Path.directory path)
      IO.FS.writeFile path node.text

/-- The variables of the environment that settings have. -/
def environment : IO (List (String × String)) := do
  let mut vars := []
  for setting in Setting.all do
    match ← IO.getEnv setting.variableName with
    | some value => vars := (setting.variableName, value) :: vars
    | none => pure ()
  return vars

def write (t : Transcript) : IO Unit := do
  for (stream, text) in t do
    match stream with
    | .standard => IO.print text
    | .error => IO.eprint text

end Program

def main (words : List String) : IO UInt32 := do
  let vars ← Program.environment
  let moment := toString (← IO.monoMsNow) ++ "ms"
  let w : Command.World :=
    ⟨fun name => vars.lookup name, .ok (← IO.currentDir).toString, ⟨moment, moment, "0s"⟩⟩
  let disk ← Program.gather w words
  let exit := Command.run disk w words
  Program.carryOut disk exit.disk
  Program.write exit.written
  if let some message := exit.crash then IO.eprintln message
  return UInt32.ofNat exit.status
