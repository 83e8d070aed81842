import ScriptWeave.Disk.Basic

/-!
Values that hold as long as a file does not change. A file counts as unchanged while its time and
size are those recorded with the value. Reading a file through such a cache takes three steps:
validate the recorded value, read the file, record what was read.
-/

namespace ScriptWeave

/-- A recorded value with the time and size of the file that it depends on. -/
structure CacheItem (α : Type) where
  value : α
  modified : Int
  size : Nat

/-- Whether a file is as it was when the value was recorded. -/
def CacheItem.matchesNode {α : Type} (item : CacheItem α) (node : Node) : Bool :=
  item.modified = node.modified && item.size = node.size

structure FileCache (α : Type) where
  items : List (String × CacheItem α)
  hits : Nat
  misses : Nat

namespace FileCache

variable {α : Type}

def empty : FileCache α := ⟨[], 0, 0⟩

def size (c : FileCache α) : Nat := c.items.length

def erase (c : FileCache α) (key : String) : FileCache α :=
  { c with items := c.items.filter fun entry => entry.1 ≠ key }

/-- The recorded value, if its file is unchanged; otherwise the value is forgotten. -/
def validate (c : FileCache α) (d : Disk) (key path : String) : Option α × FileCache α :=
  match c.items.lookup key, d.stat path with
  | some item, .ok node =>
      if item.matchesNode node then (some item.value, { c with hits := c.hits + 1 })
      else (none, { c.erase key with misses := c.misses + 1 })
  | _, _ => (none, { c.erase key with misses := c.misses + 1 })

/-- Records a value that depends on a file. -/
def record (c : FileCache α) (d : Disk) (key : String) (value : α) (path : String) :
    Except DiskError (FileCache α) :=
  match d.stat path with
  | .error e => .error e
  | .ok node => .ok { c with items := (key, ⟨value, node.modified, node.size⟩) ::
      (c.erase key).items }

/-- Records a value if the file can be examined. -/
def recordIfPossible (c : FileCache α) (d : Disk) (key : String) (value : α) (path : String) :
    FileCache α :=
  match c.record d key value path with
  | .ok c' => c'
  | .error _ => c

end FileCache

/-- The texts of files. -/
abbrev ContentCache : Type := FileCache String

namespace ContentCache

/-- The text of a file, which is read only if it has changed. -/
def readPath (c : ContentCache) (d : Disk) (path : String) : Except Fault String × ContentCache :=
  match c.validate d path path with
  | (some text, c') => (.ok text, c')
  | (none, c') =>
      match d.read path with
      | .error e => (.error e.toFault, c')
      | .ok text => (.ok text, c'.recordIfPossible d path text path)

/-- The text of a file, whatever the spelling of its path. -/
def read (c : ContentCache) (d : Disk) (path : String) : Except Fault String × ContentCache :=
  if path = "" then
    (.error (.plain "file path validation error for field 'filePath': cannot be empty" none), c)
  else c.readPath d (Text.Path.clean path)

/-- Forgets the text of a file. -/
def forget (c : ContentCache) (path : String) : ContentCache := c.erase (Text.Path.clean path)

end ContentCache
end ScriptWeave
