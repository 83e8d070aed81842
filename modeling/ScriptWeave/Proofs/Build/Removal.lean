import ScriptWeave.Proofs.Build.Changes
import ScriptWeave.Proofs.Disk.Cache
import ScriptWeave.Proofs.Disk.Nodes
import ScriptWeave.Proofs.Text.Path

/-!
What is removed from a disk. The modules of an earlier record are removed where its ids lead from
the output directory, whatever the ids are. So all that is removed stands below the output
directory, unless an id climbs out of it.
-/

namespace ScriptWeave

open Text

namespace Disk

variable {d d' : Disk} {k path : String}

theorem remove_eq_ok (h : d.remove path = .ok d') : d.removeDirect path = .ok d' := by
  rw [remove] at h
  split at h
  · cases h
  · exact h

/-- A change takes away at most what it removes. -/
theorem isSome_change {c : Change} (h : d.change c = .ok d') (hk : (d.nodes.lookup k).isSome)
    (hc : ∀ path, c = .remove path → k ≠ locate path) : (d'.nodes.lookup k).isSome := by
  cases c with
  | remove path =>
      rw [change] at h
      split at h
      · next hremove =>
          cases h
          obtain ⟨rfl, _⟩ := removeDirect_eq_ok (remove_eq_ok hremove)
          rw [(takenFrom_erase d path).elsewhere k (hc path rfl), Option.isSome_map]
          exact hk
      · split at h
        · cases h
          exact hk
        · cases h
  | makeDirectory path =>
      rw [makeDirectory_eq_ok h]
      exact (putUnder_putDirectory d path).isSome (by rw [← node?, node?_putDirectory]; rfl) hk
  | write path text =>
      rw [write_eq_ok h]
      exact (putUnder_put d path text d.clock).isSome (by rw [← node?, node?_put]; rfl) hk

theorem isSome_carryOut {cs : List Change} (hk : (d.nodes.lookup k).isSome)
    (hcs : ∀ path, .remove path ∈ cs → k ≠ locate path) :
    ((d.carryOut cs).2.nodes.lookup k).isSome := by
  induction cs generalizing d with
  | nil => exact hk
  | cons c cs ih =>
      rw [carryOut]
      cases hchange : d.change c with
      | error e => exact hk
      | ok d' =>
          refine ih (isSome_change hchange hk ?_) fun path hmem => hcs path
            (List.mem_cons_of_mem _ hmem)
          rintro path rfl
          exact hcs path List.mem_cons_self

/-- What changes take away stands where one of them removes something. -/
theorem exists_remove_of_carryOut {cs : List Change} (hk : (d.nodes.lookup k).isSome)
    (hgone : (d.carryOut cs).2.nodes.lookup k = none) :
    ∃ path, .remove path ∈ cs ∧ k = locate path := by
  by_contra hnone
  have hkept := isSome_carryOut hk fun path hmem heq => hnone ⟨path, hmem, heq⟩
  rw [hgone] at hkept
  cases hkept

/-- A node that is kept like one below a directory is below it. -/
theorem below_of_locate {dir p q : String} (hq : Path.Below dir q) (h : locate p = locate q) :
    Path.Below dir p := by
  obtain ⟨hdot, hup⟩ := hq.clean_ne
  have hkept : locate q = Path.clean q := if_neg (not_or.2 ⟨hdot, hup⟩)
  rw [hkept, locate] at h
  split at h
  · have helements := Path.cleanElements_clean q
    rw [← h] at helements
    exact absurd helements.symm hq.cleanElements_ne_nil
  · exact hq.of_clean_eq h

end Disk

open Disk (Change EndsLike)

/-- The changes that remove the modules of a record and then the record. -/
def cleanChanges (outDir : String) (m : Manifest) : List Change :=
  (m.files ++ [Manifest.fileName]).map fun file => .remove (Path.join [outDir, file])

theorem endsLike_cleanOutput {d : Disk} {outDir : String} {m : Manifest}
    (hread : Manifest.read d outDir = .ok (some m)) :
    EndsLike (Disk.endOf (cleanOutput d outDir)) (d.carryOut (cleanChanges outDir m)) := by
  have hremoved := Disk.endsLike_removeFiles d outDir m.files
  simp only [cleanOutput, hread, cleanChanges, List.map_append, List.map_singleton]
  generalize d.removeFiles outDir m.files = removal at hremoved ⊢
  obtain ⟨removed, fault, d'⟩ := removal
  cases fault with
  | some fault => exact .append_error hremoved
  | none =>
      refine .append_ok hremoved ?_
      simp only [Manifest.pathIn]
      cases hremove : d'.remove (Path.join [outDir, Manifest.fileName]) with
      | ok d'' => exact .after (by simp [Disk.change, hremove]) (.done () d'')
      | error e =>
          by_cases hmissing : e.isMissing = true
          · simp only [hmissing, if_true]
            exact .after (by simp [Disk.change, hremove, hmissing]) (.done () d')
          · simp only [hmissing]
            have hrefused : d'.change (.remove (Path.join [outDir, Manifest.fileName])) =
                .error e := by
              simp [Disk.change, hremove, hmissing]
            exact .change _ hrefused

/-- A record stays when a module of it cannot be removed. -/
theorem cleanOutput_of_fault {d : Disk} {outDir : String} {m : Manifest}
    (hread : Manifest.read d outDir = .ok (some m))
    (hfault : (d.removeFiles outDir m.files).fault.isSome) :
    cleanOutput d outDir = d.removeFiles outDir m.files := by
  obtain ⟨fault, hfault⟩ := Option.isSome_iff_exists.1 hfault
  simp only [cleanOutput, hread, hfault]

theorem Build.exists_stale_of_mem_changes {b : Build} {d : Disk} {outDir path : String}
    {previous : Option Manifest} {cs : List Change}
    (hread : Manifest.read d outDir = .ok previous) (hcs : b.changes d outDir = .ok cs)
    (hremove : .remove path ∈ cs) : ∃ id ∈ b.stale previous, path = Path.join [outDir, id] := by
  rw [changes] at hcs
  split at hcs
  · cases hcs
  · rw [hread] at hcs
    cases hcs
    simpa [moduleChanges, eq_comm] using hremove

/-- A record is read where it stands. -/
theorem Manifest.read_of_node? {d : Disk} {outDir : String} {node : Node} {m : Manifest}
    (hnode : d.node? (pathIn outDir) = some node)
    (hallowed : d.refusal? .openFile (pathIn outDir) = none) (hparse : parse node.text = .ok m) :
    read d outDir = .ok (some m) := by
  have htext : d.read (pathIn outDir) = .ok node.text := by
    rw [Disk.read_of_node? hnode, hallowed]
  simp only [read, htext, hparse]

/-- The record of a build stands below every output directory. -/
theorem Manifest.staysBelow_fileName {outDir : String} : Path.StaysBelow outDir fileName :=
  ⟨⟨by decide, by decide⟩, .inr rfl⟩

variable {d : Disk} {outDir p : String}

/-- What changes that remove files below a directory take away stands below it, or where a path that
leaves the directory leads. -/
theorem below_or_astray {files : List String} {cs : List Change}
    (hcs : ∀ path, .remove path ∈ cs → ∃ file ∈ files, path = Path.join [outDir, file])
    (hp : (d.node? p).isSome) (hgone : (d.carryOut cs).2.node? p = none) :
    Path.Below outDir p ∨ ∃ file ∈ files, ¬Path.StaysBelow outDir file ∧
      Disk.locate p = Disk.locate (Path.join [outDir, file]) := by
  obtain ⟨path, hremove, hlocate⟩ := Disk.exists_remove_of_carryOut hp hgone
  obtain ⟨file, hfile, rfl⟩ := hcs path hremove
  by_cases hstays : Path.StaysBelow outDir file
  · exact .inl (Disk.below_of_locate (Path.below_join hstays) hlocate)
  · exact .inr ⟨file, hfile, hstays, hlocate⟩

/-- Neither writing a build nor removing the output of one takes away anything that does not stand
below the output directory, except where an id of the record found there leaves it: ids are joined
to the output directory whatever they are. -/
theorem removed_below_or_astray {m : Manifest} (hread : Manifest.read d outDir = .ok (some m))
    (b : Build) (hp : (d.node? p).isSome) :
    ((d.removeFiles outDir (b.stale (some m))).disk.node? p = none → Path.Below outDir p ∨
      ∃ id ∈ b.stale (some m), ¬Path.StaysBelow outDir id ∧
        Disk.locate p = Disk.locate (Path.join [outDir, id])) ∧
    ((b.write d outDir).2.node? p = none → Path.Below outDir p ∨
      ∃ id ∈ b.stale (some m), ¬Path.StaysBelow outDir id ∧
        Disk.locate p = Disk.locate (Path.join [outDir, id])) ∧
    ((cleanOutput d outDir).disk.node? p = none → Path.Below outDir p ∨
      ∃ id ∈ m.files, ¬Path.StaysBelow outDir id ∧
        Disk.locate p = Disk.locate (Path.join [outDir, id])) := by
  refine ⟨fun hgone => ?stale, fun hgone => ?written, fun hgone => ?cleaned⟩
  case stale =>
    have hends := (Disk.endsLike_removeFiles d outDir (b.stale (some m))).disk_eq
    rw [Disk.endOf_snd] at hends
    rw [hends] at hgone
    exact below_or_astray (by simp [eq_comm]) hp hgone
  case written =>
    cases hcs : b.changes d outDir with
    | error fault =>
        rw [Build.write_eq_of_changes_error hcs] at hgone
        rw [hgone] at hp
        cases hp
    | ok cs =>
        rw [(Build.endsLike_write hcs).disk_eq] at hgone
        exact below_or_astray (fun path => Build.exists_stale_of_mem_changes hread hcs) hp hgone
  case cleaned =>
    have hends := (endsLike_cleanOutput hread).disk_eq
    rw [Disk.endOf_snd] at hends
    rw [hends] at hgone
    have hremoves (path : String) (hmem : .remove path ∈ cleanChanges outDir m) :
        ∃ file ∈ m.files ++ [Manifest.fileName], path = Path.join [outDir, file] := by
      simpa only [cleanChanges, List.mem_map, Change.remove.injEq, eq_comm] using hmem
    obtain hbelow | ⟨file, hfile, hastray, hlocate⟩ := below_or_astray hremoves hp hgone
    · exact .inl hbelow
    · obtain hlisted | hrecord := List.mem_append.1 hfile
      · exact .inr ⟨file, hlisted, hastray, hlocate⟩
      · rw [List.mem_singleton.1 hrecord] at hastray
        exact absurd Manifest.staysBelow_fileName hastray

/-- An output directory with a module and a record, and a file beside the directory. -/
def recordedDisk (record : String) : Disk :=
  { nodes :=
      [("/", ⟨"", 0, true, ["/out", "/keep.txt"]⟩),
       ("/out", ⟨"", 0, true, ["/out/as2amd.manifest.json", "/out/x.js"]⟩),
       ("/out/as2amd.manifest.json", ⟨record, 1, false, []⟩), ("/out/x.js", ⟨"x", 2, false, []⟩),
       ("/keep.txt", ⟨"k", 3, false, []⟩)]
    refusals := []
    clock := 4 }

/-- The record that lists one module. -/
def listing (id : String) : Manifest := ⟨"", "", "", some [⟨id, "", [], ""⟩]⟩

/-- A build without any modules. -/
def emptyBuild : Build := ⟨"", "", [], ⟨"", .empty, .empty, [], [], .empty⟩, []⟩

/-- The text of a record with a module of the output directory. -/
def descendingRecord : String := "\x7b\"modules\": [\x7b\"id\": \"x.js\"\x7d]\x7d"

/-- The text of a record with an id that leads out of the output directory. -/
def climbingRecord : String := "\x7b\"modules\": [\x7b\"id\": \"../keep.txt\"\x7d]\x7d"

theorem read_descendingRecord :
    Manifest.read (recordedDisk descendingRecord) "/out" = .ok (some (listing "x.js")) := by
  have hnode : (recordedDisk descendingRecord).node? (Manifest.pathIn "/out") =
      some ⟨descendingRecord, 1, false, []⟩ := by decide +kernel
  exact Manifest.read_of_node? hnode (by decide +kernel) (by decide +kernel)

theorem listedModule_removed_below :
    Manifest.read (recordedDisk descendingRecord) "/out" = .ok (some (listing "x.js")) ∧
    ((recordedDisk descendingRecord).node? "/out/x.js").isSome ∧
    (cleanOutput (recordedDisk descendingRecord) "/out").disk.node? "/out/x.js" = none ∧
    Path.Below "/out" "/out/x.js" := by
  have hread := read_descendingRecord
  have hp : ((recordedDisk descendingRecord).node? "/out/x.js").isSome := by decide +kernel
  have hgone : (cleanOutput (recordedDisk descendingRecord) "/out").disk.node? "/out/x.js" =
      none := by
    decide +kernel
  refine ⟨hread, hp, hgone, ?_⟩
  refine ((removed_below_or_astray hread emptyBuild hp).2.2 hgone).resolve_right ?_
  rintro ⟨id, hid, hastray, _⟩
  rw [List.mem_singleton.1 hid] at hastray
  exact hastray ⟨⟨by decide, by decide⟩, .inr rfl⟩

/-- An id that climbs out of the output directory takes away a file that stands beside it, when a
build is written and when the output is removed. -/
theorem climbingId_removed_beside :
    Manifest.read (recordedDisk climbingRecord) "/out" = .ok (some (listing "../keep.txt")) ∧
    ((recordedDisk climbingRecord).node? "/keep.txt").isSome ∧
    (emptyBuild.write (recordedDisk climbingRecord) "/out").2.node? "/keep.txt" = none ∧
    (cleanOutput (recordedDisk climbingRecord) "/out").disk.node? "/keep.txt" = none ∧
    ¬Path.Below "/out" "/keep.txt" := by
  have hnode : (recordedDisk climbingRecord).node? (Manifest.pathIn "/out") =
      some ⟨climbingRecord, 1, false, []⟩ := by decide +kernel
  have hread : Manifest.read (recordedDisk climbingRecord) "/out" =
      .ok (some (listing "../keep.txt")) :=
    Manifest.read_of_node? hnode (by decide +kernel) (by decide +kernel)
  refine ⟨hread, by decide +kernel, by decide +kernel, by decide +kernel, ?_⟩
  rintro ⟨_, inner, _, _, helements⟩
  have hout : Path.cleanElements "/out" = ["out"] := by decide
  have hkeep : Path.cleanElements "/keep.txt" = ["keep.txt"] := by decide
  rw [hout, hkeep, List.singleton_append, List.cons.injEq] at helements
  exact absurd helements.1 (by decide)

end ScriptWeave
