import Mathlib.Data.List.Nodup
import ScriptWeave.Proofs.Build.Effects
import ScriptWeave.Proofs.Build.Manifest

/-!
What writing a build leaves on the disk. The modules and the record stand where they belong, what an
earlier record listed besides is gone, and every other file is as it was. Writing the build again
only renews times, and removing the output takes away just what was written.
-/

namespace ScriptWeave

open Text

namespace Disk

/-- The directory of a joined path is kept where the node at the path belongs. -/
theorem locate_directory_join (parts : List String) :
    locate (Path.directory (Path.join parts)) = parentOf (locate (Path.join parts)) := by
  obtain hempty | hclean := Path.clean_join parts
  · rw [hempty]
    decide
  · generalize Path.join parts = path at hclean
    by_cases hdots : path = "." ∨ path = ".."
    · obtain rfl | rfl := hdots <;> decide
    · have hkept : locate path = path := by rw [locate, hclean, if_neg hdots]
      rw [parentOf, hkept]

end Disk

open Disk (Change EndsLike Adding Settled writtenKeys)

/-- The paths of the modules that a record found on the disk speaks of. -/
def listed (previous : Option Manifest) : List String := (previous.map (·.files)).getD []

/-- A record that was read, or found missing, was not refused. -/
theorem Manifest.allowed_of_read {d : Disk} {outDir : String} {previous : Option Manifest}
    (h : Manifest.read d outDir = .ok previous) :
    d.refusal? .openFile (Manifest.pathIn outDir) = none := by
  cases hrefused : d.refusal? .openFile (Manifest.pathIn outDir) with
  | none => rfl
  | some e =>
      have hread : d.read (Manifest.pathIn outDir) = .error e := by
        rw [Disk.read, Disk.openNode, hrefused]
        rfl
      rw [Disk.refusal?, Option.map_eq_some_iff] at hrefused
      obtain ⟨r, _, rfl⟩ := hrefused
      simp [Manifest.read, hread, DiskError.isMissing] at h

namespace Build

/-- The paths that a build writes below an output directory, the record last. -/
def paths (b : Build) (outDir : String) : List String :=
  (b.modules.map (·.id.path) ++ [Manifest.fileName]).map fun file => Path.join [outDir, file]

/-- The keys under which a build is written. -/
def places (b : Build) (outDir : String) : List String := (b.paths outDir).map Disk.locate

/-- The changes that write the modules of a build and then its record. -/
def additions (b : Build) (outDir : String) (m : Manifest) : List Change :=
  b.modules.flatMap (moduleChanges outDir) ++ [.write (Manifest.pathIn outDir) m.render]

variable {b : Build} {d d' : Disk} {outDir k : String} {previous : Option Manifest} {m : Manifest}
  {w : Written}

theorem mem_places {p : String} (hp : p ∈ b.paths outDir) : Disk.locate p ∈ b.places outDir :=
  List.mem_map_of_mem hp

theorem join_mem_paths {text : GeneratedModule} (h : text ∈ b.modules) :
    Path.join [outDir, text.id.path] ∈ b.paths outDir :=
  List.mem_map.2 ⟨_, List.mem_append_left _ (List.mem_map_of_mem h), rfl⟩

theorem pathIn_mem_paths : Manifest.pathIn outDir ∈ b.paths outDir :=
  List.mem_map.2 ⟨_, List.mem_append_right _ (List.mem_singleton_self _), rfl⟩

/-- Modules with different clean relative paths that lead down, none to the record, are written to
different places. -/
theorem nodup_places (hids : (b.modules.map (·.id.path)).Nodup)
    (hrecord : Manifest.fileName ∉ b.modules.map (·.id.path))
    (hpaths : ∀ text ∈ b.modules, Path.isAbsolute text.id.path = false ∧
      Path.clean text.id.path = text.id.path ∧ Path.Descends text.id.path) :
    (b.places outDir).Nodup := by
  have hfiles (file : String) (hmem : file ∈ b.modules.map (·.id.path) ++ [Manifest.fileName]) :
      Path.isAbsolute file = false ∧ Path.clean file = file ∧ Path.Descends file := by
    obtain hmodule | hlast := List.mem_append.1 hmem
    · obtain ⟨text, htext, rfl⟩ := List.mem_map.1 hmodule
      exact hpaths text htext
    · rw [List.mem_singleton.1 hlast]
      exact ⟨by decide, by decide, (Manifest.staysBelow_fileName : Path.StaysBelow "" _).1⟩
  have hkept (file : String) (hmem : file ∈ b.modules.map (·.id.path) ++ [Manifest.fileName]) :
      Path.cleanElements (Disk.locate (Path.join [outDir, file])) =
        Path.cleanElements (Path.join [outDir, file]) := by
    have hbelow : Path.Below outDir (Path.join [outDir, file]) :=
      Path.below_join ⟨(hfiles file hmem).2.2, .inr (hfiles file hmem).1⟩
    rw [Disk.locate, if_neg (not_or.2 hbelow.clean_ne), Path.cleanElements_clean]
  rw [places, paths, List.map_map]
  refine List.Nodup.map_on (fun file hfile other hother heq => ?_)
    (List.nodup_append.2 ⟨hids, List.nodup_singleton _, ?_⟩)
  · have helements : Path.cleanElements (Path.join [outDir, file]) =
        Path.cleanElements (Path.join [outDir, other]) := by
      rw [Function.comp_apply, Function.comp_apply] at heq
      rw [← hkept file hfile, ← hkept other hother, heq]
    exact Path.eq_of_cleanElements_join (hfiles file hfile) (hfiles other hother) helements
  · intro id hid name hname heq
    rw [List.mem_singleton.1 hname] at heq
    exact hrecord (heq ▸ hid)

theorem adding_moduleChanges (modules : List GeneratedModule) :
    Adding (modules.flatMap (moduleChanges outDir)) := by
  intro path hmem
  obtain ⟨text, _, hchange⟩ := List.mem_flatMap.1 hmem
  simp [moduleChanges] at hchange

theorem adding_additions : Adding (b.additions outDir m) := by
  intro path hmem
  obtain hmodule | hrecord := List.mem_append.1 hmem
  · exact adding_moduleChanges _ path hmodule
  · simp at hrecord

theorem writtenKeys_moduleChanges (outDir : String) (modules : List GeneratedModule) :
    writtenKeys (modules.flatMap (moduleChanges outDir)) =
      modules.map fun text => Disk.locate (Path.join [outDir, text.id.path]) := by
  induction modules with
  | nil => rfl
  | cons text modules ih =>
      rw [writtenKeys] at ih
      rw [writtenKeys, List.flatMap_cons, List.filterMap_append, ih]
      rfl

theorem writtenKeys_additions : writtenKeys (b.additions outDir m) = b.places outDir := by
  have hmodules := writtenKeys_moduleChanges outDir b.modules
  rw [writtenKeys] at hmodules
  rw [writtenKeys, additions, List.filterMap_append, hmodules, places, paths, List.map_append,
    List.map_append, List.map_map, List.map_map]
  rfl

/-- A change makes the directory of a path of the build, or writes there. -/
theorem of_mem_additions {c : Change} (h : c ∈ b.additions outDir m) :
    ∃ p ∈ b.paths outDir, (c = .makeDirectory (Path.directory p) ∧
      Disk.locate (Path.directory p) = Disk.parentOf (Disk.locate p)) ∨
        ∃ text, c = .write p text := by
  obtain hmodule | hrecord := List.mem_append.1 h
  · obtain ⟨text, htext, hchange⟩ := List.mem_flatMap.1 hmodule
    refine ⟨_, join_mem_paths htext, ?_⟩
    obtain rfl | hwrite := List.mem_cons.1 hchange
    · exact .inl ⟨rfl, Disk.locate_directory_join _⟩
    · exact .inr ⟨_, List.mem_singleton.1 hwrite⟩
  · exact ⟨_, pathIn_mem_paths, .inr ⟨_, List.mem_singleton.1 hrecord⟩⟩

theorem exists_write_mem_additions {p : String} (hp : p ∈ b.paths outDir) :
    ∃ text, .write p text ∈ b.additions outDir m := by
  obtain ⟨file, hfile, rfl⟩ := List.mem_map.1 hp
  obtain hmodule | hrecord := List.mem_append.1 hfile
  · obtain ⟨text, htext, rfl⟩ := List.mem_map.1 hmodule
    exact ⟨text.content, List.mem_append_left _ (List.mem_flatMap.2
      ⟨text, htext, List.mem_cons_of_mem _ (List.mem_singleton_self _)⟩)⟩
  · rw [List.mem_singleton.1 hrecord]
    exact ⟨m.render, List.mem_append_right _ (List.mem_singleton_self _)⟩

/-- What stands above a place where something is added stands above a path of the build. -/
theorem standsAbove_places {c : Change} (hc : c ∈ b.additions outDir m)
    (h : Disk.StandsAbove k (Disk.locate c.path)) :
    ∃ key ∈ b.places outDir, Disk.StandsAbove k key := by
  obtain ⟨p, hp, ⟨rfl, hparent⟩ | ⟨text, rfl⟩⟩ := of_mem_additions hc
  · refine ⟨_, mem_places hp, ?_⟩
    rw [Change.path, hparent] at h
    by_cases heq : Disk.parentOf (Disk.locate p) = Disk.locate p
    · rwa [heq] at h
    · exact .further rfl heq h
  · exact ⟨_, mem_places hp, h⟩

theorem write_eq_ok (h : b.write d outDir = (.ok w, d')) :
    Manifest.ofBuild b = .ok w.manifest ∧ ∃ previous, Manifest.read d outDir = .ok previous ∧
      w.modules = b.modules.map (·.id.path) ∧
      w.removed = (d.removeFiles outDir (b.stale previous)).removed := by
  rw [write] at h
  split at h
  · cases h
  · next manifest hmanifest =>
      split at h
      · cases h
      · next previous hprevious =>
          simp only at h
          split at h
          · cases h
          · split at h
            · cases h
            · split at h
              · cases h
              · cases h
                exact ⟨hmanifest, previous, hprevious, rfl, rfl⟩

theorem changes_eq (hmanifest : Manifest.ofBuild b = .ok m)
    (hprevious : Manifest.read d outDir = .ok previous) :
    b.changes d outDir = .ok
      (((b.stale previous).map fun id => Path.join [outDir, id]).map .remove ++
        b.additions outDir m) := by
  simp only [changes, hmanifest, hprevious, List.map_map]
  rfl

/-- A build whose changes are carried out is written. -/
theorem exists_write (hmanifest : Manifest.ofBuild b = .ok m)
    (hprevious : Manifest.read d outDir = .ok previous)
    (hdone : (d.carryOut (((b.stale previous).map fun id => Path.join [outDir, id]).map .remove ++
      b.additions outDir m)).1 = none) :
    ∃ w, b.write d outDir = (.ok w, (d.carryOut
      (((b.stale previous).map fun id => Path.join [outDir, id]).map .remove ++
        b.additions outDir m)).2) := by
  have hends := endsLike_write (changes_eq hmanifest hprevious)
  generalize d.carryOut _ = r at hdone hends
  obtain ⟨_, d'⟩ := r
  cases hdone
  exact hends.exists_ok

/-- A build that is written was written by its changes. -/
theorem carryOut_of_write (hprevious : Manifest.read d outDir = .ok previous)
    (hwrite : b.write d outDir = (.ok w, d')) :
    ∃ d₁, d.carryOut (((b.stale previous).map fun id => Path.join [outDir, id]).map .remove) =
      (none, d₁) ∧ d₁.carryOut (b.additions outDir w.manifest) = (none, d') := by
  have hends := endsLike_write (changes_eq (write_eq_ok hwrite).1 hprevious)
  rw [hwrite] at hends
  exact Disk.carryOut_append_eq_none.1 hends.eq_of_ok

theorem files_ofBuild (h : Manifest.ofBuild b = .ok m) : m.files = b.modules.map (·.id.path) := by
  have hid (text : GeneratedModule) : (Manifest.entryOf b.result.output text).id =
      text.id.path := by
    simp only [Manifest.entryOf]
    split <;> rfl
  rw [Manifest.ofBuild] at h
  split at h
  · cases h
  · cases h
    simp [Manifest.files, hid]

/-- Removing the output of a build removes its paths. -/
theorem cleanChanges_ofBuild (h : Manifest.ofBuild b = .ok m) :
    cleanChanges outDir m = (b.paths outDir).map .remove := by
  rw [cleanChanges, files_ofBuild h, paths, List.map_map]
  rfl

/-- Nothing of a build is stale beside the record of its own. -/
theorem stale_ofBuild (h : Manifest.ofBuild b = .ok m) : b.stale (some m) = [] := by
  simp only [stale, Option.map_some, Option.getD_some, files_ofBuild h]
  simp [List.filter_eq_nil_iff]

/-- A listed path that is not written anew is stale. -/
theorem mem_stale {id : String} (hid : id ∈ listed previous)
    (hplace : Disk.locate (Path.join [outDir, id]) ∉ b.places outDir) : id ∈ b.stale previous := by
  refine List.mem_filter.2 ⟨hid, ?_⟩
  rw [Bool.not_eq_true', List.any_eq_false]
  intro text htext heq
  rw [← of_decide_eq_true heq] at hplace
  exact hplace (mem_places (join_mem_paths htext))

theorem listed_of_mem_stale {id : String} (hid : id ∈ b.stale previous) : id ∈ listed previous :=
  (List.mem_filter.1 hid).1

section

variable (hplaces : (b.places outDir).Nodup) (hprevious : Manifest.read d outDir = .ok previous)
  (hwrite : b.write d outDir = (.ok w, d'))

include hprevious hwrite

theorem refusals_of_write : d'.refusals = d.refusals := by
  obtain ⟨d₁, hremoved, hadded⟩ := carryOut_of_write hprevious hwrite
  exact (Disk.refusals_carryOut hadded).trans (Disk.refusals_carryOut hremoved)

/-- What an earlier record listed and the build does not write is no file any more. -/
theorem gone_of_write {id : String} (hid : id ∈ listed previous)
    (hplace : Disk.locate (Path.join [outDir, id]) ∉ b.places outDir) :
    d'.file? (Path.join [outDir, id]) = none := by
  obtain ⟨d₁, hremoved, hadded⟩ := carryOut_of_write hprevious hwrite
  have hgone : d₁.fileUnder? (Disk.locate (Path.join [outDir, id])) = none := by
    have hnone := Disk.none_of_carryOut_remove hremoved
      (List.mem_map_of_mem (List.mem_map_of_mem (mem_stale hid hplace)))
    rw [Disk.fileUnder?, hnone]
    rfl
  rw [← writtenKeys_additions (m := w.manifest)] at hplace
  obtain hsame | ⟨hnone, _⟩ := Disk.fileUnder?_carryOut hadded adding_additions hplace
  · exact hsame.trans hgone
  · exact hnone

/-- What is neither written nor listed stays as it is, unless something is written below it. -/
theorem file?_of_write {p : String} (hp : Disk.locate p ∉ b.places outDir)
    (hlisted : ∀ id ∈ listed previous, Disk.locate p ≠ Disk.locate (Path.join [outDir, id])) :
    d'.file? p = d.file? p ∨
      d'.file? p = none ∧ ∃ key ∈ b.places outDir, Disk.StandsAbove (Disk.locate p) key := by
  obtain ⟨d₁, hremoved, hadded⟩ := carryOut_of_write hprevious hwrite
  have hkept : d₁.fileUnder? (Disk.locate p) = d.fileUnder? (Disk.locate p) := by
    have hstays : Disk.locate p ∉
        ((b.stale previous).map fun id => Path.join [outDir, id]).map Disk.locate := by
      rw [List.map_map]
      intro hmem
      obtain ⟨id, hid, heq⟩ := List.mem_map.1 hmem
      rw [Function.comp_apply] at heq
      exact hlisted id (listed_of_mem_stale hid) heq.symm
    have hbare := Disk.bare_carryOut_remove d _ hstays
    rw [hremoved] at hbare
    exact Disk.fileUnder?_of_bare hbare
  rw [← writtenKeys_additions (m := w.manifest)] at hp
  obtain hsame | ⟨hnone, c, hc, habove⟩ := Disk.fileUnder?_carryOut hadded adding_additions hp
  · exact .inl (hsame.trans hkept)
  · exact .inr ⟨hnone, standsAbove_places hc habove⟩

include hplaces

theorem settled_of_write {c : Change} (hc : c ∈ b.additions outDir w.manifest) : d'.Settled c := by
  obtain ⟨d₁, _, hadded⟩ := carryOut_of_write hprevious hwrite
  exact Disk.settled_carryOut hadded adding_additions (by rwa [writtenKeys_additions]) hc

theorem content_of_write {text : GeneratedModule} (htext : text ∈ b.modules) :
    ∃ node, d'.node? (Path.join [outDir, text.id.path]) = some node ∧ node.text = text.content :=
  settled_of_write hplaces hprevious hwrite (c := .write _ text.content)
    (List.mem_append_left _ (List.mem_flatMap.2
      ⟨text, htext, List.mem_cons_of_mem _ (List.mem_singleton_self _)⟩))

theorem read_of_write : Manifest.read d' outDir = .ok (some w.manifest) := by
  obtain ⟨node, hnode, htext⟩ := settled_of_write hplaces hprevious hwrite
    (c := .write (Manifest.pathIn outDir) w.manifest.render)
    (List.mem_append_right _ (List.mem_singleton_self _))
  have hallowed := Manifest.allowed_of_read hprevious
  rw [Disk.refusal?, ← refusals_of_write hprevious hwrite] at hallowed
  exact Manifest.read_of_node? hnode hallowed (by rw [htext, Manifest.parse_render])

/-- Writing a build again removes nothing and renews times. -/
theorem write_again : ∃ d'', b.write d' outDir = (.ok ⟨w.manifest, w.modules, []⟩, d'') ∧
    Disk.Refreshed d' d'' (b.additions outDir w.manifest) := by
  obtain ⟨hmanifest, _, _, hmodules, _⟩ := write_eq_ok hwrite
  obtain ⟨d₁, hremoved, hadded⟩ := carryOut_of_write hprevious hwrite
  have hread := read_of_write hplaces hprevious hwrite
  have hallowed (c : Change) (hc : c ∈ b.additions outDir w.manifest) : d'.Allows c :=
    (Disk.allows_of_carryOut hadded hc).of_refusals (Disk.refusals_carryOut hadded)
  obtain ⟨d'', hagain, hrefreshed⟩ := Disk.exists_carryOut_of_settled
    (fun c => settled_of_write hplaces hprevious hwrite) hallowed
  have hends := endsLike_write (changes_eq hmanifest hread)
  rw [stale_ofBuild hmanifest, List.map_nil, List.map_nil, List.nil_append, hagain] at hends
  obtain ⟨⟨manifest, modules, removed⟩, hwritten⟩ := hends.exists_ok
  obtain ⟨hmanifest', previous', hread', hmodules', hremoved'⟩ := write_eq_ok hwritten
  rw [hmanifest, Except.ok.injEq] at hmanifest'
  rw [hread, Except.ok.injEq] at hread'
  rw [← hread', stale_ofBuild hmanifest] at hremoved'
  simp only at hmanifest' hmodules' hremoved'
  rw [← hmanifest', hmodules', ← hmodules, hremoved'] at hwritten
  exact ⟨d'', hwritten, hrefreshed⟩

/-- Removing the output leaves every other file as it is, even when it fails. -/
theorem file?_of_clean {p : String} (hp : Disk.locate p ∉ b.places outDir) :
    (cleanOutput d' outDir).disk.file? p = d'.file? p := by
  have hends := (endsLike_cleanOutput (read_of_write hplaces hprevious hwrite)).disk_eq
  rw [Disk.endOf_snd, cleanChanges_ofBuild (write_eq_ok hwrite).1] at hends
  rw [hends]
  exact Disk.fileUnder?_of_bare (Disk.bare_carryOut_remove d' (b.paths outDir) hp)

end

/-- The output of a build can be removed once it is written: none of its paths leads above another,
no file stands where a directory of theirs belongs, the record keeps the directory that it is in,
and no removal is refused. -/
structure Clearable (b : Build) (d : Disk) (outDir : String) (previous : Option Manifest) :
    Prop where
  apart : ∀ key ∈ b.places outDir, ∀ other ∈ b.places outDir,
    other ≠ Disk.parentOf key ∧ ¬Disk.StandsAbove other key
  unblocked : ∀ key ∈ b.places outDir, (d.nodes.lookup key).isSome → d.Unblocked key
  record : (d.node? (Manifest.pathIn outDir)).isSome →
    d.Housed (Disk.locate (Manifest.pathIn outDir)) ∧ ∀ id ∈ b.stale previous,
      Disk.parentOf (Disk.locate (Manifest.pathIn outDir)) ≠ Disk.locate (Path.join [outDir, id])
  allowed : ∀ path ∈ b.paths outDir, d.refusal? .remove path = none

section

variable (hclear : b.Clearable d outDir previous)

include hclear

theorem Clearable.parent_ne {key : String} (hkey : key ∈ b.places outDir) :
    Disk.parentOf key ≠ key := fun heq => (hclear.apart key hkey key hkey).1 heq.symm

/-- What is written elsewhere does not lead to a path of the build, or above it. -/
theorem Clearable.misses (hkey : k ∈ b.places outDir) {c : Change}
    (hc : c ∈ b.additions outDir m) (hwritten : c.written? ≠ some k) :
    k ≠ Disk.locate c.path ∧ ¬Disk.StandsAbove k (Disk.locate c.path) := by
  obtain ⟨p, hp, ⟨rfl, hparent⟩ | ⟨text, rfl⟩⟩ := of_mem_additions hc
  · obtain ⟨hne, habove⟩ := hclear.apart _ (mem_places hp) k hkey
    rw [Change.path, hparent]
    exact ⟨hne, fun h => habove (.further rfl (hclear.parent_ne (mem_places hp)) h)⟩
  · exact ⟨fun heq => hwritten (congrArg some heq.symm),
      (hclear.apart _ (mem_places hp) k hkey).2⟩

/-- No change writes where the directory of a path of the build belongs. -/
theorem Clearable.parent_not_written (hkey : k ∈ b.places outDir) {cs : List Change}
    (hcs : ∀ c ∈ cs, c ∈ b.additions outDir m) : Disk.parentOf k ∉ writtenKeys cs := by
  intro hmem
  obtain ⟨c, hc, hwritten⟩ := List.mem_filterMap.1 hmem
  have hplace : Disk.parentOf k ∈ writtenKeys (b.additions outDir m) :=
    List.mem_filterMap.2 ⟨c, hcs c hc, hwritten⟩
  rw [writtenKeys_additions] at hplace
  exact (hclear.apart k hkey _ hplace).1 rfl

/-- Changes before the one that writes a path leave what stands there, and a directory above it. -/
theorem Clearable.kept {d₁ d₂ : Disk} (hkey : k ∈ b.places outDir) {cs : List Change}
    (hcs : ∀ c ∈ cs, c ∈ b.additions outDir m) (hk : k ∉ writtenKeys cs)
    (hrun : d₁.carryOut cs = (none, d₂)) : d₂.nodes.lookup k = d₁.nodes.lookup k ∧
      Disk.MadeRoom (d₁.nodes.lookup (Disk.parentOf k)) (d₂.nodes.lookup (Disk.parentOf k)) := by
  have hadding : Adding cs := fun path hmem => adding_additions path (hcs _ hmem)
  refine ⟨Disk.lookup_carryOut hrun hadding fun c hc => ?_,
    Disk.madeRoom_carryOut hrun hadding (hclear.parent_not_written hkey hcs)⟩
  exact hclear.misses hkey (hcs c hc) fun hwritten => hk (List.mem_filterMap.2 ⟨c, hc, hwritten⟩)

theorem Clearable.housed_module {d₁ : Disk} (hplaces : (b.places outDir).Nodup)
    (hadded : d₁.carryOut (b.additions outDir m) = (none, d')) {text : GeneratedModule}
    (htext : text ∈ b.modules) (h : (d₁.node? (Path.join [outDir, text.id.path])).isSome →
      d₁.Unblocked (Disk.locate (Path.join [outDir, text.id.path]))) :
    d'.Housed (Disk.locate (Path.join [outDir, text.id.path])) := by
  have hkey : Disk.locate (Path.join [outDir, text.id.path]) ∈ b.places outDir :=
    mem_places (join_mem_paths htext)
  obtain ⟨before, after, hsplit⟩ := List.append_of_mem htext
  have hadditions : b.additions outDir m = before.flatMap (moduleChanges outDir) ++
      (moduleChanges outDir text ++ (after.flatMap (moduleChanges outDir) ++
        [.write (Manifest.pathIn outDir) m.render])) := by
    rw [additions, hsplit, List.flatMap_append, List.flatMap_cons, List.append_assoc,
      List.append_assoc]
  rw [← writtenKeys_additions (m := m), hadditions] at hplaces
  rw [hadditions] at hadded
  generalize hlater : after.flatMap (moduleChanges outDir) ++
    [.write (Manifest.pathIn outDir) m.render] = later at hadditions hplaces hadded
  obtain ⟨d₂, hbefore, hrest⟩ := Disk.carryOut_append_eq_none.1 hadded
  obtain ⟨d₃, hmake, hrest⟩ := Disk.carryOut_cons_eq_none.1 hrest
  obtain ⟨d₄, hwrite, hafter⟩ := Disk.carryOut_cons_eq_none.1 hrest
  have hfresh : Disk.locate (Path.join [outDir, text.id.path]) ∉
      writtenKeys (before.flatMap (moduleChanges outDir)) := by
    intro hmem
    rw [writtenKeys, List.filterMap_append, List.nodup_append] at hplaces
    exact hplaces.2.2 _ hmem _ List.mem_cons_self rfl
  obtain ⟨hlookup, hroom⟩ := hclear.kept hkey
    (fun c hc => hadditions ▸ List.mem_append_left _ hc) hfresh hbefore
  have hhoused := Disk.housed_of_makeDirectory hmake hwrite (Disk.locate_directory_join _)
    (hclear.parent_ne hkey) fun hsome => (h (by rwa [Disk.node?, ← hlookup])).of_madeRoom hroom
  have hmem (c : Change) (hc : c ∈ later) : c ∈ b.additions outDir m := by
    rw [hadditions]
    exact List.mem_append_right _ (List.mem_append_right _ hc)
  exact hhoused.carryOut hafter (fun path hpath => adding_additions path (hmem _ hpath))
    (hclear.parent_not_written hkey hmem)

theorem Clearable.housed_record {d₁ : Disk} (hplaces : (b.places outDir).Nodup)
    (hadded : d₁.carryOut (b.additions outDir m) = (none, d'))
    (h : (d₁.node? (Manifest.pathIn outDir)).isSome →
      d₁.Housed (Disk.locate (Manifest.pathIn outDir))) :
    d'.Housed (Disk.locate (Manifest.pathIn outDir)) := by
  have hkey : Disk.locate (Manifest.pathIn outDir) ∈ b.places outDir := mem_places pathIn_mem_paths
  obtain ⟨d₂, hbefore, hrest⟩ := Disk.carryOut_append_eq_none.1 hadded
  obtain ⟨d₃, hwrite, hdone⟩ := Disk.carryOut_cons_eq_none.1 hrest
  cases hdone
  have hfresh : Disk.locate (Manifest.pathIn outDir) ∉
      writtenKeys (b.modules.flatMap (moduleChanges outDir)) := by
    intro hmem
    rw [← writtenKeys_additions (m := m), additions, writtenKeys, List.filterMap_append,
      List.nodup_append] at hplaces
    exact hplaces.2.2 _ hmem _ List.mem_cons_self rfl
  obtain ⟨hlookup, hroom⟩ := hclear.kept (m := m) hkey
    (fun c hc => List.mem_append_left _ hc) hfresh hbefore
  exact Disk.housed_of_write hwrite (hclear.parent_ne hkey) fun hsome =>
    (h (by rwa [Disk.node?, ← hlookup])).of_madeRoom hroom

variable (hplaces : (b.places outDir).Nodup) (hprevious : Manifest.read d outDir = .ok previous)
  (hwrite : b.write d outDir = (.ok w, d'))

include hplaces hprevious hwrite

/-- Every path of a written build stands in a directory. -/
theorem Clearable.housed {p : String} (hp : p ∈ b.paths outDir) : d'.Housed (Disk.locate p) := by
  obtain ⟨d₁, hremoved, hadded⟩ := carryOut_of_write hprevious hwrite
  have hbefore {key : String} (hsome : (d₁.nodes.lookup key).isSome) :
      (d.nodes.lookup key).isSome := by
    obtain ⟨node, hnode⟩ := Option.isSome_iff_exists.1 hsome
    obtain ⟨old, hold, _⟩ := Disk.exists_of_carryOut_remove hremoved hnode
    rw [hold]
    rfl
  obtain ⟨file, hfile, rfl⟩ := List.mem_map.1 hp
  obtain hmodule | hrecord := List.mem_append.1 hfile
  · obtain ⟨text, htext, rfl⟩ := List.mem_map.1 hmodule
    refine hclear.housed_module hplaces hadded htext fun hsome node hnode => ?_
    obtain ⟨old, hold, hdirectory⟩ := Disk.exists_of_carryOut_remove hremoved hnode
    rw [← hdirectory]
    exact hclear.unblocked _ (mem_places hp) (hbefore hsome) old hold
  · rw [List.mem_singleton.1 hrecord]
    refine hclear.housed_record hplaces hadded fun hsome => ?_
    obtain ⟨hhoused, hkept⟩ := hclear.record (hbefore hsome)
    have hafter := hhoused.carryOut_remove
      ((b.stale previous).map fun id => Path.join [outDir, id]) fun hmem => by
        rw [List.map_map] at hmem
        obtain ⟨id, hid, heq⟩ := List.mem_map.1 hmem
        rw [Function.comp_apply] at heq
        exact hkept id hid heq.symm
    rwa [hremoved] at hafter

theorem Clearable.removable {p : String} (hp : p ∈ b.paths outDir) : d'.Removable p := by
  constructor
  case allowed =>
    rw [Disk.refusal?, refusals_of_write hprevious hwrite]
    exact hclear.allowed p hp
  case found =>
    obtain ⟨text, hchange⟩ := exists_write_mem_additions (m := w.manifest) hp
    obtain ⟨node, hnode, _⟩ := settled_of_write hplaces hprevious hwrite hchange
    rw [hnode]
    rfl
  case housed => exact hclear.housed hplaces hprevious hwrite hp

/-- The output of a written build is removed in whole. -/
theorem Clearable.clean_of_write : (cleanOutput d' outDir).fault = none ∧
    (cleanOutput d' outDir).removed = w.manifest.files ∧
      ∀ p ∈ b.paths outDir, (cleanOutput d' outDir).disk.node? p = none := by
  have hread := read_of_write hplaces hprevious hwrite
  have hfiles := files_ofBuild (write_eq_ok hwrite).1
  have hremovable (p : String) (hp : p ∈ b.paths outDir) :=
    hclear.removable hplaces hprevious hwrite hp
  have hfile (file : String) (hmem : file ∈ w.manifest.files) :
      Path.join [outDir, file] ∈ b.paths outDir := by
    rw [hfiles] at hmem
    exact List.mem_map.2 ⟨file, List.mem_append_left _ hmem, rfl⟩
  have hkeys := hplaces
  rw [places, paths, List.map_map, List.map_append, List.nodup_append, ← hfiles] at hkeys
  simp only [Function.comp_def] at hkeys
  obtain ⟨d₁, hremoved, hkept⟩ := Disk.removeFiles_of_removable
    (fun file hmem => hremovable _ (hfile file hmem)) hkeys.1 fun file hmem other hother heq =>
      (hclear.apart _ (mem_places (hfile file hmem)) _ (mem_places (hfile other hother))).1 heq.symm
  have hrecord := (hkept _ (hremovable _ pathIn_mem_paths) fun file hmem =>
    ⟨fun heq => hkeys.2.2 _ (List.mem_map_of_mem hmem) _ (List.mem_singleton_self _) heq.symm,
      fun heq => (hclear.apart _ (mem_places pathIn_mem_paths) _
        (mem_places (hfile file hmem))).1 heq.symm⟩).remove_eq
  have hclean : cleanOutput d' outDir =
      ⟨w.manifest.files, none, d₁.erase (Manifest.pathIn outDir)⟩ := by
    simp only [cleanOutput, hread, hremoved, hrecord]
  have hends := endsLike_cleanOutput hread
  rw [cleanChanges_ofBuild (write_eq_ok hwrite).1, hclean] at hends
  rw [hclean]
  refine ⟨rfl, rfl, fun p hp => ?_⟩
  exact Disk.none_of_carryOut_remove hends.eq_of_ok (mem_places hp)

/-- What makes the output removable still does when the build is to be written again. -/
theorem Clearable.again : b.Clearable d' outDir (some w.manifest) := by
  constructor
  case apart => exact hclear.apart
  case unblocked =>
    intro key hkey _ node hnode
    obtain ⟨p, hp, rfl⟩ := List.mem_map.1 hkey
    obtain ⟨node', hnode', hdirectory⟩ := hclear.housed hplaces hprevious hwrite hp
    rw [hnode', Option.some.injEq] at hnode
    rwa [← hnode]
  case record =>
    intro _
    refine ⟨hclear.housed hplaces hprevious hwrite pathIn_mem_paths, ?_⟩
    rw [stale_ofBuild (write_eq_ok hwrite).1]
    exact fun id hid => absurd hid List.not_mem_nil
  case allowed =>
    exact fun p hp => (hclear.removable hplaces hprevious hwrite hp).allowed

end

/-- Writing and removing change what the records list. A build that is written to distinct places
has its texts there, its record is read back, what the record before listed besides is gone, and
every other file is as it was, or has become a directory for something below it. Writing the build
again removes nothing and renews the times of what it writes. Removing the output after that, or
without it, leaves every other file as it is, and removes all that was written if it can be
cleared. -/
theorem write_changes_as_listed (hplaces : (b.places outDir).Nodup)
    (hprevious : Manifest.read d outDir = .ok previous) (hwrite : b.write d outDir = (.ok w, d')) :
    (∀ text ∈ b.modules, ∃ node, d'.node? (Path.join [outDir, text.id.path]) = some node ∧
      node.text = text.content) ∧
    Manifest.read d' outDir = .ok (some w.manifest) ∧
    w.manifest.files = b.modules.map (·.id.path) ∧
    (∀ id ∈ listed previous, Disk.locate (Path.join [outDir, id]) ∉ b.places outDir →
      d'.file? (Path.join [outDir, id]) = none) ∧
    (∀ p, Disk.locate p ∉ b.places outDir →
      (∀ id ∈ listed previous, Disk.locate p ≠ Disk.locate (Path.join [outDir, id])) →
      d'.file? p = d.file? p ∨
        d'.file? p = none ∧ ∃ key ∈ b.places outDir, Disk.StandsAbove (Disk.locate p) key) ∧
    ∃ d'', b.write d' outDir = (.ok ⟨w.manifest, w.modules, []⟩, d'') ∧
      (∀ p, (d''.node? p).map Node.untimed = (d'.node? p).map Node.untimed ∧
        (Disk.locate p ∉ b.places outDir → d''.node? p = d'.node? p)) ∧
      ∀ e ∈ [d', d''],
        (∀ p, Disk.locate p ∉ b.places outDir → (cleanOutput e outDir).disk.file? p = e.file? p) ∧
        (b.Clearable d outDir previous → (cleanOutput e outDir).fault = none ∧
          (cleanOutput e outDir).removed = w.manifest.files ∧
          ∀ p ∈ b.paths outDir, (cleanOutput e outDir).disk.node? p = none) := by
  obtain ⟨d'', hagain, hrefreshed⟩ := write_again hplaces hprevious hwrite
  have hread := read_of_write hplaces hprevious hwrite
  refine ⟨fun text => content_of_write hplaces hprevious hwrite, hread,
    files_ofBuild (write_eq_ok hwrite).1, fun id => gone_of_write hprevious hwrite,
    fun p => file?_of_write hprevious hwrite, d'', hagain, fun p => ⟨hrefreshed.untimed _, ?_⟩, ?_⟩
  · intro hp
    exact hrefreshed.unwritten _ (by rwa [writtenKeys_additions])
  · intro e he
    obtain rfl | hlast := List.mem_cons.1 he
    · exact ⟨fun p => file?_of_clean hplaces hprevious hwrite,
        fun hclear => hclear.clean_of_write hplaces hprevious hwrite⟩
    · rw [List.mem_singleton.1 hlast]
      refine ⟨fun p => file?_of_clean hplaces hread hagain, fun hclear => ?_⟩
      have hcleared := (hclear.again hplaces hprevious hwrite).clean_of_write hplaces hread hagain
      exact hcleared

/-- A build of one module. -/
def singleBuild : Build := { emptyBuild with modules := [⟨⟨"y.js"⟩, .direct, "y"⟩] }

theorem ofBuild_singleBuild : Manifest.ofBuild singleBuild = .ok
    ⟨"", "", (Digest.ofModules? singleBuild.modules).getD "",
        some [⟨"y.js", "original", [], ""⟩]⟩ :=
  rfl

theorem paths_singleBuild :
    singleBuild.places "/out" = ["/out/y.js", "/out/as2amd.manifest.json"] ∧
    (∀ key ∈ ["/out/y.js", "/out/as2amd.manifest.json"], Disk.parentOf key = "/out") ∧
    Disk.parentOf "/out" = "/" ∧ Disk.parentOf "/" = "/" := by
  decide

theorem places_singleBuild :
    singleBuild.places "/out" = ["/out/y.js", "/out/as2amd.manifest.json"] :=
  paths_singleBuild.1

theorem parentOf_singleBuild {key : String} (hkey : key ∈ singleBuild.places "/out") :
    Disk.parentOf key = "/out" := by
  rw [places_singleBuild] at hkey
  exact paths_singleBuild.2.1 key hkey

/-- Above the paths of the build stand the output directory and the root. -/
theorem standsAbove_singleBuild {key : String} (hkey : key ∈ singleBuild.places "/out")
    (h : Disk.StandsAbove k key) : k = "/out" ∨ k = "/" := by
  obtain ⟨-, -, hout, hroot⟩ := paths_singleBuild
  rw [Disk.standsAbove_iff, parentOf_singleBuild hkey, Disk.standsAbove_iff, hout,
    Disk.standsAbove_iff, hroot] at h
  obtain ⟨_, hk | ⟨_, hk | ⟨hne, _⟩⟩⟩ := h
  · exact .inl hk
  · exact .inr hk
  · exact absurd rfl hne

theorem clearable_singleBuild :
    singleBuild.Clearable (recordedDisk descendingRecord) "/out" (some (listing "x.js")) := by
  have hout : (recordedDisk descendingRecord).nodes.lookup "/out" =
      some ⟨"", 0, true, ["/out/as2amd.manifest.json", "/out/x.js"]⟩ := by decide
  have hrecord := parentOf_singleBuild (mem_places pathIn_mem_paths)
  constructor
  case apart =>
    intro key hkey other hother
    have hbelow : ∀ other ∈ ["/out/y.js", "/out/as2amd.manifest.json"],
        other ≠ "/out" ∧ other ≠ "/" := by decide
    rw [places_singleBuild] at hother
    obtain ⟨hnotOut, hnotRoot⟩ := hbelow other hother
    rw [parentOf_singleBuild hkey]
    exact ⟨hnotOut, fun h => (standsAbove_singleBuild hkey h).elim hnotOut hnotRoot⟩
  case unblocked =>
    intro key hkey _ node hnode
    rw [parentOf_singleBuild hkey, hout, Option.some.injEq] at hnode
    rw [← hnode]
  case record =>
    intro _
    refine ⟨⟨_, hrecord ▸ hout, rfl⟩, ?_⟩
    rw [hrecord]
    decide
  case allowed => exact fun _ _ => rfl

/-- A build is written over the output of an earlier one and removed again. What the earlier one
left is gone, and a file beside the output directory stays. -/
theorem singleBuild_written_and_cleaned : ∃ w d',
    singleBuild.write (recordedDisk descendingRecord) "/out" = (.ok w, d') ∧
    (∃ node, d'.node? "/out/y.js" = some node ∧ node.text = "y") ∧
    d'.file? "/out/x.js" = none ∧ d'.file? "/keep.txt" = some ("k", 3) ∧
    (cleanOutput d' "/out").removed = ["y.js"] ∧
    (cleanOutput d' "/out").disk.node? "/out/y.js" = none ∧
    (cleanOutput d' "/out").disk.file? "/keep.txt" = some ("k", 3) := by
  have hprevious := read_descendingRecord
  obtain ⟨w, d', hwrite⟩ : ∃ w d',
      singleBuild.write (recordedDisk descendingRecord) "/out" = (.ok w, d') := by
    obtain ⟨w, hwrite⟩ := exists_write ofBuild_singleBuild hprevious (by decide)
    exact ⟨w, _, hwrite⟩
  have hplaces : (singleBuild.places "/out").Nodup := by
    rw [places_singleBuild]
    decide
  obtain ⟨htexts, _, hfiles, hgone, hothers, d'', _, _, hclean⟩ :=
    write_changes_as_listed hplaces hprevious hwrite
  obtain ⟨hspared, hcleared⟩ := hclean _ List.mem_cons_self
  obtain ⟨_, hremoved, hall⟩ := hcleared clearable_singleBuild
  have hjoin : Path.join ["/out", "x.js"] = "/out/x.js" := by decide
  have hjoin' : Path.join ["/out", "y.js"] = "/out/y.js" := by decide
  have hkeep : Disk.locate "/keep.txt" = "/keep.txt" := by decide
  have hapart : Disk.locate "/keep.txt" ∉ singleBuild.places "/out" := by
    rw [places_singleBuild, hkeep]
    decide
  have hkept : d'.file? "/keep.txt" = some ("k", 3) := by
    obtain hsame | ⟨_, key, hkey, habove⟩ := hothers "/keep.txt" hapart (by decide)
    · exact hsame.trans (by decide)
    · rw [hkeep] at habove
      exact absurd (standsAbove_singleBuild hkey habove) (by decide)
  have htext := htexts _ (List.mem_singleton_self _)
  have hcleaned := hall _ (join_mem_paths (List.mem_singleton_self _))
  have hstale := hgone "x.js" (List.mem_singleton_self _) (by decide)
  rw [hjoin'] at htext hcleaned
  rw [hjoin] at hstale
  exact ⟨w, d', hwrite, htext, hstale, hkept, hremoved.trans hfiles, hcleaned,
    (hspared _ hapart).trans hkept⟩

/-- A build of two modules of which one is to stand below the other. -/
def nestedBuild : Build :=
  { emptyBuild with modules := [⟨⟨"x.js"⟩, .direct, "x"⟩, ⟨⟨"x.js/y.js"⟩, .direct, "y"⟩] }

/-- The record of those modules. -/
def nestedManifest : Manifest :=
  ⟨"", "", (Digest.ofModules? nestedBuild.modules).getD "",
    some [⟨"x.js", ModuleKind.direct.name, [], ""⟩, ⟨"x.js/y.js", ModuleKind.direct.name, [], ""⟩]⟩

theorem ofBuild_nestedBuild : Manifest.ofBuild nestedBuild = .ok nestedManifest := rfl

/-- The disk after writing them where no record is. -/
def nestedOn (d : Disk) : Option DiskError × Disk :=
  d.carryOut (((nestedBuild.stale none).map fun id => Path.join ["/out", id]).map .remove ++
    nestedBuild.additions "/out" nestedManifest)

/-- A module below another is written, and then the output can no longer be removed: with the first
module the directory of the second is gone. A file in the place of the output directory becomes a
directory. -/
theorem nestedModules_not_cleaned :
    (nestedBuild.modules.map (·.id.path)).Nodup ∧
    (∀ text ∈ nestedBuild.modules, Path.isAbsolute text.id.path = false ∧
      Path.clean text.id.path = text.id.path) ∧
    (∃ w d', nestedBuild.write .empty "/out" = (.ok w, d') ∧ d'.file? "/out/x.js" = none ∧
      (cleanOutput d' "/out").fault.isSome ∧
      ((cleanOutput d' "/out").disk.node? "/out/x.js/y.js").isSome) ∧
    ∃ w d', nestedBuild.write (Disk.empty.put "/out" "f" 0) "/out" = (.ok w, d') ∧
      ((Disk.empty.put "/out" "f" 0).file? "/out").isSome ∧ d'.file? "/out" = none := by
  have hread (d : Disk) (e : DiskError) (h : d.read (Manifest.pathIn "/out") = .error e)
      (hmissing : e.isMissing = true) : Manifest.read d "/out" = .ok none := by
    simp [Manifest.read, h, hmissing]
  refine ⟨by decide, by decide, ?_, ?_⟩
  · obtain ⟨hnone, hdone, hplaces, hfile, hfault, hstill⟩ :
        Disk.empty.read (Manifest.pathIn "/out") =
            .error (.missing .openFile "/out/as2amd.manifest.json") ∧
          (nestedOn .empty).1 = none ∧ (nestedBuild.places "/out").Nodup ∧
          (nestedOn .empty).2.file? "/out/x.js" = none ∧
          ((nestedOn .empty).2.removeFiles "/out" nestedManifest.files).fault.isSome ∧
          (((nestedOn .empty).2.removeFiles "/out" nestedManifest.files).disk.node?
            "/out/x.js/y.js").isSome := by
      decide +kernel
    rw [nestedOn] at hdone hfile hfault hstill
    have hprevious := hread .empty _ hnone rfl
    obtain ⟨w, hwrite⟩ := exists_write ofBuild_nestedBuild hprevious hdone
    have hrecorded := read_of_write hplaces hprevious hwrite
    rw [← Except.ok.inj (ofBuild_nestedBuild.symm.trans (write_eq_ok hwrite).1)] at hrecorded
    refine ⟨w, _, hwrite, hfile, ?_⟩
    rw [cleanOutput_of_fault hrecorded hfault]
    exact ⟨hfault, hstill⟩
  · obtain ⟨hnone, hdone, hbefore, hafter⟩ :
        (Disk.empty.put "/out" "f" 0).read (Manifest.pathIn "/out") =
            .error (.missing .openFile "/out/as2amd.manifest.json") ∧
          (nestedOn (Disk.empty.put "/out" "f" 0)).1 = none ∧
          ((Disk.empty.put "/out" "f" 0).file? "/out").isSome ∧
          (nestedOn (Disk.empty.put "/out" "f" 0)).2.file? "/out" = none := by
      decide +kernel
    rw [nestedOn] at hdone hafter
    obtain ⟨w, hwrite⟩ := exists_write ofBuild_nestedBuild (hread _ _ hnone rfl) hdone
    exact ⟨w, _, hwrite, hbefore, hafter⟩

end Build
end ScriptWeave
