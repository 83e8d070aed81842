import ScriptWeave.Disk.Cache

/-!
What happens when reads through a cache overlap. A read takes three steps: it validates what is
recorded, reads the file if nothing valid is recorded, and records what it read under the time and
size that the file has by then. Between two of its steps, files may be written and other reads may
take theirs.
-/

namespace ScriptWeave

/-- How far a read has come that did not find its file unchanged. -/
inductive ReadStage where
  /-- The file is still to be read. -/
  | missed (path : String)
  /-- The text of the file is still to be recorded. -/
  | holding (path text : String)
deriving DecidableEq, Repr

/-- What a read was answered. -/
structure ReadAnswer where
  call : Nat
  path : String
  text : Except Fault String

/-- A disk and a cache of its files, with the reads under way by number and the answers so far. -/
structure Reads where
  disk : Disk
  cache : ContentCache
  pending : List (Nat × ReadStage)
  answers : List ReadAnswer

inductive ReadEvent where
  | write (path text : String) (modified : Int)
  /-- A read of a file by its cleaned path begins. -/
  | validate (call : Nat) (path : String)
  | read (call : Nat)
  | record (call : Nat)
deriving DecidableEq, Repr

namespace Reads

/-- Nothing was read yet. -/
def start (d : Disk) : Reads := ⟨d, .empty, [], []⟩

def stage? (s : Reads) (call : Nat) : Option ReadStage := s.pending.lookup call

/-- The other reads under way. -/
def others (s : Reads) (call : Nat) : List (Nat × ReadStage) :=
  s.pending.filter fun entry => entry.1 ≠ call

/-- A read begins, unless it is under way: it is answered from the cache, or has to go on. -/
def validate (s : Reads) (call : Nat) (path : String) : Reads :=
  match s.stage? call with
  | some _ => s
  | none =>
      match s.cache.validate s.disk path path with
      | (some text, cache) => { s with cache, answers := s.answers ++ [⟨call, path, .ok text⟩] }
      | (none, cache) => { s with cache, pending := (call, .missed path) :: s.pending }

/-- A read that found nothing valid reads its file. -/
def read (s : Reads) (call : Nat) : Reads :=
  match s.stage? call with
  | some (.missed path) =>
      match s.disk.read path with
      | .error e =>
          { s with
            pending := s.others call
            answers := s.answers ++ [⟨call, path, .error e.toFault⟩] }
      | .ok text => { s with pending := (call, .holding path text) :: s.others call }
  | _ => s

/-- A read that holds the text of its file records it. -/
def record (s : Reads) (call : Nat) : Reads :=
  match s.stage? call with
  | some (.holding path text) =>
      { s with
        cache := s.cache.recordIfPossible s.disk path text path
        pending := s.others call
        answers := s.answers ++ [⟨call, path, .ok text⟩] }
  | _ => s

def step (s : Reads) : ReadEvent → Reads
  | .write path text modified => { s with disk := s.disk.put path text modified }
  | .validate call path => s.validate call path
  | .read call => s.read call
  | .record call => s.record call

/-- The state after events in order. -/
def run (s : Reads) (events : List ReadEvent) : Reads := events.foldl step s

end Reads
end ScriptWeave
