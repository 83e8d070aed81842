import ScriptWeave.Disk.Basic

/-!
Walking over the files below a directory. A walk visits the entries of a directory in order of their
names and may leave out files and whole directories; its result is sorted.
-/

namespace ScriptWeave

open Text

/-- Whether the name of a file or directory starts with a dot. -/
def isHidden (name : String) : Bool := beginsWith "." name && name ≠ "." && name ≠ ".."

structure WalkOptions where
  /-- Which files are taken, by their names. -/
  file : String → Bool
  /-- Which directories are entered, by their names; the root is entered in any case. -/
  directory : String → Bool
  /-- Whether what cannot be visited is left out. -/
  skipErrors : Bool

namespace WalkOptions

/-- Takes every file. -/
def everything : WalkOptions := ⟨fun _ => true, fun _ => true, false⟩

/-- Takes the files whose names end in a suffix, with or without hidden files and directories. -/
def bySuffix (suffix : String) (hiddenFiles hiddenDirectories skipErrors : Bool) : WalkOptions :=
  { file := fun name => (hiddenFiles || !isHidden name) && endsIn suffix name
    directory := fun name => hiddenDirectories || !isHidden name
    skipErrors := skipErrors }

end WalkOptions

namespace Disk

/-- The path of an entry below the root of a walk. -/
def below (relative name : String) : String :=
  if relative = "." then name else relative ++ "/" ++ name

/-- What a walk does about something that it cannot visit. -/
def walkError (options : WalkOptions) (e : DiskError) : Except DiskError (List String) :=
  if options.skipErrors then .ok [] else .error e

mutual

/-- Visits a node; `fuel` bounds the depth. -/
def visit (d : Disk) (options : WalkOptions) :
    Nat → String → String → Except DiskError (List String)
  | 0, _, _ => .ok []
  | fuel + 1, path, relative =>
      match d.stat path with
      | .error e => walkError options e
      | .ok node =>
          let name := Path.base (locate path)
          if !node.isDirectory then .ok (if options.file name then [relative] else [])
          else if relative ≠ "." && !options.directory name then .ok []
          else
            match d.list path with
            | .error e => walkError options e
            | .ok names => visitAll d options fuel path relative names

/-- Visits the entries of a directory in turn. -/
def visitAll (d : Disk) (options : WalkOptions) (fuel : Nat) (path relative : String) :
    List String → Except DiskError (List String)
  | [] => .ok []
  | name :: names =>
      match visit d options fuel (Path.join [path, name]) (below relative name) with
      | .error e => .error e
      | .ok found =>
          match visitAll d options fuel path relative names with
          | .error e => .error e
          | .ok more => .ok (found ++ more)

end

/-- The files below a root that a walk takes, in order of their paths. -/
def walk (d : Disk) (options : WalkOptions) (root : String) : Except DiskError (List String) :=
  (d.visit options (d.nodes.length + 1) root ".").map fun found => found.mergeSort (· ≤ ·)

end Disk
end ScriptWeave
