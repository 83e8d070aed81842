import ScriptWeave.Disk.Cache
import ScriptWeave.Proofs.Association

/-!
Reading through a cache. Every recorded text was read from some disk, under the time and size that
the file had there; where equal times and sizes mean equal texts, reading through the cache gives
what reading from the disk gives.
-/

namespace ScriptWeave

namespace Disk

/-- The text at a path, without any cache. -/
def text (d : Disk) (path : String) : Except Fault String :=
  match d.read path with
  | .error e => .error e.toFault
  | .ok text => .ok text

/-- A file that has the same time and size on two disks reads the same there. -/
def AgreeAt (d d' : Disk) (path : String) : Prop :=
  ∀ node node', d.stat path = .ok node → d'.stat path = .ok node' →
    node.modified = node'.modified → node.size = node'.size → d.read path = d'.read path

/-- Time and size of a node tell its texts on two disks apart. -/
def TellsApart (d d' : Disk) (path : String) : Prop :=
  ∀ node node', d.node? path = some node → d'.node? path = some node' →
    node.modified = node'.modified → node.size = node'.size → node.text = node'.text

theorem tellsApart_refl (d : Disk) (path : String) : d.TellsApart d path := by
  intro node node' hnode hnode' _ _
  rw [hnode] at hnode'
  rw [Option.some.inj hnode']

theorem node?_of_stat {d : Disk} {path : String} {node : Node} (h : d.stat path = .ok node) :
    d.node? path = some node := by
  rw [stat] at h
  split at h
  · cases h
  · rw [openDirect] at h
    split at h
    · next found hfound =>
        cases h
        exact hfound
    · cases h

theorem read_of_node? {d : Disk} {path : String} {node : Node} (h : d.node? path = some node) :
    d.read path = match d.refusal? .openFile path with
      | some e => .error e
      | none => .ok node.text := by
  rw [read, openNode]
  cases d.refusal? .openFile path with
  | some e => rfl
  | none =>
      rw [openDirect, h]
      rfl

/-- Disks that refuse the same agree at a file whose time and size tell its texts apart. -/
theorem TellsApart.agreeAt {d d' : Disk} {path : String} (htexts : d.TellsApart d' path)
    (hrefusals : d.refusals = d'.refusals) : d.AgreeAt d' path := by
  intro node node' hnode hnode' hmodified hsize
  have hfound := node?_of_stat hnode
  have hfound' := node?_of_stat hnode'
  rw [read_of_node? hfound, read_of_node? hfound', refusal?, refusal?, hrefusals,
    htexts node node' hfound hfound' hmodified hsize]

end Disk

/-- A recorded text was read from a disk, with the time and size of its file. -/
def CacheItem.ReadFrom (item : CacheItem String) (d : Disk) (path : String) : Prop :=
  ∃ node, d.stat path = .ok node ∧ item.matchesNode node = true ∧ d.read path = .ok item.value

theorem CacheItem.matchesNode_iff {α : Type} {item : CacheItem α} {node : Node} :
    item.matchesNode node = true ↔ item.modified = node.modified ∧ item.size = node.size := by
  simp [matchesNode]

namespace FileCache

variable {α : Type} {c : FileCache α} {d : Disk} {key path : String}

theorem mem_of_mem_erase {entry : String × CacheItem α} (h : entry ∈ (c.erase key).items) :
    entry ∈ c.items :=
  (List.mem_filter.1 h).1

theorem mem_of_mem_validate {entry : String × CacheItem α}
    (h : entry ∈ (c.validate d key path).2.items) : entry ∈ c.items := by
  rw [validate] at h
  split at h
  · split at h
    · exact h
    · exact mem_of_mem_erase h
  · exact mem_of_mem_erase h

/-- A value that is found was recorded when the file had its present time and size. -/
theorem exists_of_validate {value : α} {c' : FileCache α}
    (h : c.validate d key path = (some value, c')) : ∃ item node, c.items.lookup key = some item ∧
      d.stat path = .ok node ∧ item.matchesNode node = true ∧ item.value = value := by
  rw [validate] at h
  split at h
  · next item node hlookup hnode =>
      split at h
      · next hmatches =>
          cases h
          exact ⟨item, node, hlookup, hnode, hmatches, rfl⟩
      · cases h
  · cases h

theorem lookup_erase (c : FileCache α) (key other : String) :
    (c.erase key).items.lookup other = if other = key then none else c.items.lookup other :=
  lookup_filter_ne _ _ _

/-- Validating forgets at most what was recorded under the key. -/
theorem lookup_validate (c : FileCache α) (d : Disk) (key path other : String) :
    (c.validate d key path).2.items.lookup other =
      if other = key ∧ (c.validate d key path).1 = none then none else c.items.lookup other := by
  rw [validate]
  split
  · split
    · simp
    · simp [lookup_erase]
  · simp [lookup_erase]

theorem lookup_recordIfPossible (c : FileCache α) (d : Disk) (key : String) (value : α)
    (path other : String) :
    (c.recordIfPossible d key value path).items.lookup other =
      match d.stat path with
      | .ok node => if other = key then some ⟨value, node.modified, node.size⟩
          else c.items.lookup other
      | .error _ => c.items.lookup other := by
  rw [recordIfPossible, record]
  cases d.stat path with
  | error e => rfl
  | ok node =>
      simp only [List.lookup_cons, lookup_erase]
      split <;> simp_all

/-- What is recorded afterwards is the new value under the time and size of its file, or was there
before. -/
theorem of_lookup_recordIfPossible {value : α} {other : String} {item : CacheItem α}
    (h : (c.recordIfPossible d key value path).items.lookup other = some item) :
    (∃ node, other = key ∧ d.stat path = .ok node ∧ item = ⟨value, node.modified, node.size⟩) ∨
      c.items.lookup other = some item := by
  rw [lookup_recordIfPossible] at h
  cases hstat : d.stat path with
  | error e =>
      rw [hstat] at h
      exact .inr h
  | ok node =>
      simp only [hstat] at h
      split at h
      · next hkey => exact .inl ⟨node, hkey, rfl, (Option.some.inj h).symm⟩
      · exact .inr h

theorem of_lookup_validate {found : Option α} {c' : FileCache α} {other : String}
    {item : CacheItem α} (hvalidate : c.validate d key path = (found, c'))
    (h : c'.items.lookup other = some item) : c.items.lookup other = some item := by
  have hlookup := c.lookup_validate d key path other
  rw [hvalidate, h] at hlookup
  split at hlookup
  · cases hlookup
  · exact hlookup.symm

/-- What validating answers depends on what is recorded under the key. -/
theorem validate_congr {c' : FileCache α} (h : c.items.lookup key = c'.items.lookup key) :
    (c.validate d key path).1 = (c'.validate d key path).1 := by
  rw [validate, validate, h]
  split
  · split <;> rfl
  · rfl

end FileCache

namespace ContentCache

/-- Every recorded text was read from a disk on which it could be asked for. -/
def From (origin : Disk → String → Prop) (c : ContentCache) : Prop :=
  ∀ entry ∈ c.items, ∃ d, origin d entry.1 ∧ entry.2.ReadFrom d entry.1

variable {origin : Disk → String → Prop} {c : ContentCache} {d : Disk} {path : String}

theorem from_empty : From origin .empty := fun _ h => absurd h List.not_mem_nil

theorem From.mono {origin' : Disk → String → Prop}
    (hmono : ∀ d path, origin d path → origin' d path) (h : c.From origin) : c.From origin' := by
  intro entry hentry
  obtain ⟨d, horigin, hread⟩ := h entry hentry
  exact ⟨d, hmono d _ horigin, hread⟩

theorem From.validate (h : c.From origin) (d : Disk) (key path : String) :
    From origin (c.validate d key path).2 :=
  fun entry hentry => h entry (FileCache.mem_of_mem_validate hentry)

theorem From.recordIfPossible (h : c.From origin) (horigin : origin d path) {text : String}
    (hread : d.read path = .ok text) : From origin (c.recordIfPossible d path text path) := by
  rw [FileCache.recordIfPossible, FileCache.record]
  cases hnode : d.stat path with
  | error e => exact h
  | ok node =>
      intro entry hentry
      obtain rfl | hother := List.mem_cons.1 hentry
      · exact ⟨d, horigin, node, hnode, CacheItem.matchesNode_iff.2 ⟨rfl, rfl⟩, hread⟩
      · exact h entry (FileCache.mem_of_mem_erase hother)

theorem From.readPath (h : c.From origin) (horigin : origin d path) :
    From origin (c.readPath d path).2 := by
  rw [ContentCache.readPath]
  split
  · next text c' hvalidate =>
      have hfrom := h.validate d path path
      rwa [hvalidate] at hfrom
  · next c' hvalidate =>
      have hfrom := h.validate d path path
      rw [hvalidate] at hfrom
      split
      · exact hfrom
      · next text hread => exact hfrom.recordIfPossible horigin hread

/-- What is read through a cache is what stands on the disk. -/
theorem From.readPath_eq (h : c.From origin) (hagree : ∀ d', origin d' path → d'.AgreeAt d path) :
    (c.readPath d path).1 = d.text path := by
  rw [ContentCache.readPath, Disk.text]
  split
  · next text c' hvalidate =>
      obtain ⟨item, node, hitem, hnode, hmatches, rfl⟩ := FileCache.exists_of_validate hvalidate
      obtain ⟨d', horigin, node', hnode', hmatches', hread⟩ := h _ (mem_of_lookup hitem)
      obtain ⟨hmodified, hsize⟩ := CacheItem.matchesNode_iff.1 hmatches
      obtain ⟨hmodified', hsize'⟩ := CacheItem.matchesNode_iff.1 hmatches'
      rw [← hagree d' horigin node' node hnode' hnode (hmodified'.symm.trans hmodified)
        (hsize'.symm.trans hsize), hread]
  · cases d.read path <;> rfl

theorem From.read (h : c.From origin) (horigin : origin d (Text.Path.clean path)) :
    From origin (c.read d path).2 := by
  rw [ContentCache.read]
  split
  · exact h
  · exact h.readPath horigin

/-- Reading through a cache is like reading through one that holds nothing. -/
theorem From.read_eq (h : c.From origin)
    (hagree : ∀ d', origin d' (Text.Path.clean path) → d'.AgreeAt d (Text.Path.clean path)) :
    (c.read d path).1 = (ContentCache.read .empty d path).1 := by
  rw [ContentCache.read, ContentCache.read]
  split
  · rfl
  · have hempty : From (fun _ _ => False) .empty := from_empty
    rw [h.readPath_eq hagree, hempty.readPath_eq fun _ => False.elim]

/-- An answer is what is recorded if the file is unchanged, and what stands on the disk
otherwise. -/
theorem readPath_fst (c : ContentCache) (d : Disk) (path : String) :
    (c.readPath d path).1 = match (c.validate d path path).1 with
      | some text => .ok text
      | none => d.text path := by
  rw [readPath, Disk.text]
  rcases c.validate d path path with ⟨_ | text, c'⟩
  · cases d.read path <;> rfl
  · rfl

theorem readPath_congr {c' : ContentCache} (h : c.items.lookup path = c'.items.lookup path) :
    (c.readPath d path).1 = (c'.readPath d path).1 := by
  rw [readPath_fst, readPath_fst, FileCache.validate_congr h]

/-- What is recorded after a read: what was, if it was found, and otherwise what was read. -/
theorem lookup_readPath (c : ContentCache) (d : Disk) (path other : String) :
    (c.readPath d path).2.items.lookup other =
      if other = path ∧ (c.validate d path path).1 = none then
        match d.read path, d.stat path with
        | .ok text, .ok node => some ⟨text, node.modified, node.size⟩
        | _, _ => none
      else c.items.lookup other := by
  have hlookup := c.lookup_validate d path path other
  rw [readPath]
  rcases hvalidate : c.validate d path path with ⟨_ | text, c'⟩
  · rw [hvalidate] at hlookup
    simp only [and_true] at hlookup ⊢
    cases hread : d.read path with
    | error e => simpa using hlookup
    | ok text =>
        simp only [FileCache.lookup_recordIfPossible, hlookup]
        cases d.stat path <;> by_cases h : other = path <;> simp [h]
  · rw [hvalidate] at hlookup
    simpa using hlookup

/-- Reading a file does not change what is read afterwards. -/
theorem readPath_readPath (c : ContentCache) (d : Disk) (path other : String) :
    ((c.readPath d path).2.readPath d other).1 = (c.readPath d other).1 := by
  have hlookup := c.lookup_readPath d path other
  by_cases h : other = path ∧ (c.validate d path path).1 = none
  · obtain ⟨rfl, hmissed⟩ := h
    rw [if_pos ⟨rfl, hmissed⟩] at hlookup
    rw [readPath_fst, readPath_fst c, hmissed, FileCache.validate, hlookup, Disk.text]
    cases hread : d.read other with
    | error e => rfl
    | ok text =>
        cases d.stat other with
        | error e => rfl
        | ok node => simp [CacheItem.matchesNode]
  · rw [if_neg h] at hlookup
    exact readPath_congr hlookup

theorem read_read (c : ContentCache) (d : Disk) (path other : String) :
    ((c.read d path).2.read d other).1 = (c.read d other).1 := by
  rw [read, read, read]
  by_cases hpath : path = ""
  · rw [if_pos hpath]
  · rw [if_neg hpath]
    by_cases hother : other = ""
    · rw [if_pos hother, if_pos hother]
    · rw [if_neg hother, if_neg hother, readPath_readPath]

end ContentCache
end ScriptWeave
