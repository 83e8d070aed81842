import ScriptWeave.Fault.Basic
import ScriptWeave.Text.Path

/-!
A file system in memory. Every path leads to at most one node, and a directory knows the nodes that
were put into it. Parents come into being with what is put into them. A directory that is removed
leaves its entries behind: they are still found by their paths, but no directory knows them. An
operation may be refused for particular paths.
-/

namespace ScriptWeave

open Text

/-- A file or a directory. A directory may hold text of its own, like a file that later had
something put below it. -/
structure Node where
  text : String
  modified : Int
  isDirectory : Bool
  /-- The paths of the nodes in a directory. -/
  entries : List String
deriving DecidableEq, Repr

namespace Node

def emptyDirectory : Node := ⟨"", 0, true, []⟩

/-- A directory that also holds the node at a path; a file becomes a directory by it. -/
def holding (n : Node) (key : String) : Node :=
  { n with isDirectory := true, entries := if n.entries.contains key then n.entries
    else n.entries ++ [key] }

/-- The size that a node shows: the bytes of a file, and the same for every directory. -/
def size (n : Node) : Nat := if n.isDirectory then 42 else n.text.utf8ByteSize

end Node

inductive DiskOperation where
  | openFile
  | stat
  | remove
  | makeDirectory
  | write
deriving DecidableEq, Repr

def DiskOperation.name : DiskOperation → String
  | openFile => "open"
  | stat => "stat"
  | remove => "remove"
  | makeDirectory => "mkdir"
  | write => "write"

inductive DiskError where
  | missing (operation : DiskOperation) (path : String)
  | refused (operation : DiskOperation) (path reason : String)
  /-- A node that no directory knows. -/
  | orphaned (path : String)
  /-- A node whose place is below a file. -/
  | misplaced (path : String)
deriving DecidableEq, Repr

namespace DiskError

def reason : DiskError → String
  | missing _ _ => "file does not exist"
  | refused _ _ reason => reason
  | orphaned path => "parent of " ++ path ++ " is nil"
  | misplaced _ => "runtime error: invalid memory address or nil pointer dereference"

def text (e : DiskError) : String :=
  match e with
  | missing operation path | refused operation path _ =>
      operation.name ++ " " ++ path ++ ": " ++ e.reason
  | orphaned _ | misplaced _ => e.reason

def isMissing : DiskError → Bool
  | missing _ _ => true
  | _ => false

/-- The error as a fault: one about a path has its reason as the cause, and one about the disk
itself leaves no way to go on. -/
def toFault (e : DiskError) : Fault :=
  match e with
  | missing _ _ | refused _ _ _ => .plain e.text (some (.plain e.reason none))
  | orphaned _ | misplaced _ => .crash e.reason

/-- The fault of an operation that met an error; a crash stays what it is. -/
def within (e : DiskError) (operation : Option Fault → Fault) : Fault :=
  if e.toFault.crash?.isSome then e.toFault else operation (some e.toFault)

end DiskError

/-- An operation that is refused for a path. -/
structure Refusal where
  operation : DiskOperation
  path : String
  reason : String
deriving DecidableEq, Repr

structure Disk where
  nodes : List (String × Node)
  refusals : List Refusal
  /-- The time of the next file that is written. -/
  clock : Nat
deriving DecidableEq, Repr

namespace Disk

/-- The path under which a node is kept. -/
def locate (path : String) : String :=
  let cleaned := Path.clean path
  if cleaned = "." ∨ cleaned = ".." then "/" else cleaned

/-- A disk that holds nothing but its root directory. -/
def empty : Disk := ⟨[("/", .emptyDirectory)], [], 2000000000⟩

def node? (d : Disk) (path : String) : Option Node := d.nodes.lookup (locate path)

/-- Puts a node under the path under which it is kept. -/
def setNode (nodes : List (String × Node)) (key : String) (node : Node) : List (String × Node) :=
  if nodes.any (·.1 = key) then
    nodes.map fun entry => if entry.1 = key then (key, node) else entry
  else nodes ++ [(key, node)]

/-- The directory that holds a node. -/
def parentOf (key : String) : String := locate (Path.directory key)

/-- The directories above a node, the nearest first. -/
def ancestors : Nat → String → List String
  | 0, _ => []
  | fuel + 1, key =>
      let parent := parentOf key
      if parent = key then [] else parent :: ancestors fuel parent

/-- Makes a node known to the nearest of the directories above it; those that are missing are
made. -/
def enrol (nodes : List (String × Node)) (key : String) : List String → List (String × Node)
  | [] => nodes
  | parent :: above =>
      match nodes.lookup parent with
      | some node => setNode nodes parent (node.holding key)
      | none => setNode (enrol nodes parent above) parent (Node.emptyDirectory.holding key)

/-- Puts a node in its place, with the directories above it. -/
def place (d : Disk) (key : String) (node : Node) : Disk :=
  if d.nodes.any (·.1 = key) then { d with nodes := setNode d.nodes key node }
  else { d with nodes := setNode (enrol d.nodes key (ancestors (key.length + 1) key)) key node }

/-- Puts a text at a path as of a time. A directory keeps being one. -/
def put (d : Disk) (path text : String) (modified : Int) : Disk :=
  let old := (d.node? path).getD ⟨"", 0, false, []⟩
  d.place (locate path) { old with text := text, modified := modified }

/-- Makes a directory unless something stands at the path. -/
def putDirectory (d : Disk) (path : String) : Disk :=
  if (d.node? path).isSome then d else d.place (locate path) .emptyDirectory

/-- Takes away the node at a path. -/
def erase (d : Disk) (path : String) : Disk :=
  let key := locate path
  { d with nodes := (d.nodes.filter fun entry => entry.1 ≠ key).map fun entry =>
      if entry.1 = parentOf key then (entry.1, { entry.2 with
        entries := entry.2.entries.filter (· ≠ key) })
      else entry }

/-- Removes the node at a path, if there is one and its directory is there. -/
def removeDirect (d : Disk) (path : String) : Except DiskError Disk :=
  let key := locate path
  if (d.node? path).isNone then .error (.missing .remove key)
  else
    match d.nodes.lookup (parentOf key) with
    | none => .error (.orphaned key)
    | some parent => if parent.isDirectory then .ok (d.erase path) else .error (.misplaced key)

/-- The refusal of an operation, if it is refused for this very spelling of a path. -/
def refusal? (d : Disk) (operation : DiskOperation) (path : String) : Option DiskError :=
  (d.refusals.find? fun r => r.operation = operation ∧ r.path = path).map fun r =>
    .refused operation path r.reason

/-- The node at a path. -/
def openDirect (d : Disk) (path : String) : Except DiskError Node :=
  match d.node? path with
  | some node => .ok node
  | none => .error (.missing .openFile (locate path))

/-- The node at a path, without reading it. -/
def stat (d : Disk) (path : String) : Except DiskError Node :=
  match d.refusal? .stat path with
  | some e => .error e
  | none => d.openDirect path

/-- Whether something is known to stand at a path. -/
def exists? (d : Disk) (path : String) : Bool := (d.stat path).isOk

/-- The node at a path, opened for reading. -/
def openNode (d : Disk) (path : String) : Except DiskError Node :=
  match d.refusal? .openFile path with
  | some e => .error e
  | none => d.openDirect path

/-- The text at a path. -/
def read (d : Disk) (path : String) : Except DiskError String := (d.openNode path).map (·.text)

/-- The names of the entries of a directory in order. -/
def entriesOf (d : Disk) (path : String) : List String :=
  (((d.node? path).map (·.entries)).getD [] |>.map Path.base).mergeSort (· ≤ ·)

/-- The names of the entries of a directory that is opened for it. -/
def list (d : Disk) (path : String) : Except DiskError (List String) :=
  (d.openNode path).map fun _ => d.entriesOf path

/-- Writes a text to a file; the file gets a time of its own. -/
def write (d : Disk) (path text : String) : Except DiskError Disk :=
  match d.refusal? .write path with
  | some e => .error e
  | none => .ok { d.put path text d.clock with clock := d.clock + 1 }

/-- Makes a directory and those above it. -/
def makeDirectory (d : Disk) (path : String) : Except DiskError Disk :=
  match d.refusal? .makeDirectory path with
  | some e => .error e
  | none => .ok (d.putDirectory path)

/-- Removes a node. -/
def remove (d : Disk) (path : String) : Except DiskError Disk :=
  match d.refusal? .remove path with
  | some e => .error e
  | none => d.removeDirect path

end Disk
end ScriptWeave
