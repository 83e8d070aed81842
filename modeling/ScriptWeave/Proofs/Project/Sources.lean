import Mathlib.Data.List.Sort
import ScriptWeave.Project.Loader
import ScriptWeave.Proofs.Digest.FileSet
import ScriptWeave.Proofs.Disk.Cache

/-!
What a load reads. Whatever a loader has read before, a load that is not cancelled gives the sources
that stand on the disk, as a loader without a past would read them.
-/

namespace ScriptWeave

open Text

namespace Loader

/-- Where the text of a source is looked for. -/
def place (root path : String) : String := Path.clean (Path.join [root, path])

/-- The text of a source for a loader that has read nothing yet. -/
def plainText (options : LoaderOptions) (d : Disk) (root path : String) : Except Fault String :=
  ((ofOptions options).readText d root path).1

/-- The sources that can be read. -/
def readable (options : LoaderOptions) (d : Disk) (root : String) (paths : List String) :
    List SourceFile :=
  paths.filterMap fun path =>
    match plainText options d root path with
    | .ok text => some ⟨path, text⟩
    | .error _ => none

/-- The issues about the sources that cannot be read. -/
def unreadable (options : LoaderOptions) (d : Disk) (root : String) (paths : List String) :
    List Issue :=
  paths.filterMap fun path =>
    match plainText options d root path with
    | .ok _ => none
    | .error fault => some (Issue.io path (some fault))

/-- A path is that of a source on a disk, kept at the given place. -/
def SourceAt (options : LoaderOptions) (root : String) (d : Disk) (path : String) : Prop :=
  ∃ paths name, d.walk (walkOptions options) root = .ok paths ∧ name ∈ paths ∧
    path = place root name

section

variable {origin : Disk → String → Prop} {d : Disk} {root path : String} {l : Loader}

theorem options_readText : (l.readText d root path).2.options = l.options := by
  rw [readText]
  split
  · split <;> rfl
  · rfl

theorem from_readText (hfrom : l.cache.From origin) (horigin : origin d (place root path)) :
    (l.readText d root path).2.cache.From origin := by
  rw [readText]
  cases replacement? l.options path with
  | none => exact hfrom.read horigin
  | some name => cases hbundled : Project.bundled name <;> simpa only [hbundled] using hfrom

/-- A loader reads a source as if it had read nothing before. -/
theorem readText_eq (hfrom : l.cache.From origin)
    (hagree : ∀ d', origin d' (place root path) → d'.AgreeAt d (place root path)) :
    (l.readText d root path).1 = plainText l.options d root path := by
  rw [plainText, readText, readText]
  simp only [ofOptions]
  cases replacement? l.options path with
  | none => exact hfrom.read_eq hagree
  | some name => cases hbundled : Project.bundled name <;> simp only [hbundled]

/-- What a loader has after a source more. -/
theorem readNext_eq (p : Progress) (hfrom : p.loader.cache.From origin)
    (hagree : ∀ d', origin d' (place root path) → d'.AgreeAt d (place root path)) :
    readNext d root p path =
      { files := p.files ++ readable p.loader.options d root [path]
        issues := p.issues ++ unreadable p.loader.options d root [path]
        reports := p.reports ++ announcement p.loader.options path ::
          (unreadable p.loader.options d root [path]).map fun issue => .fault "read" (.issue issue)
        loader := (p.loader.readText d root path).2 } := by
  have htext := readText_eq hfrom hagree
  rw [readNext]
  rcases hread : p.loader.readText d root path with ⟨fault | text, l'⟩
  · rw [hread] at htext
    simp [readable, unreadable, ← htext]
  · rw [hread] at htext
    simp [readable, unreadable, ← htext]

/-- Faults are reported exactly when there are issues. -/
def Progress.Reported (p : Progress) : Prop := p.reports.any (·.isFault) = !p.issues.isEmpty

theorem Progress.Reported.readNext {p : Progress} (hreported : p.Reported)
    (hfrom : p.loader.cache.From origin)
    (hagree : ∀ d', origin d' (place root path) → d'.AgreeAt d (place root path)) :
    (Loader.readNext d root p path).Reported := by
  rw [readNext_eq p hfrom hagree]
  cases hissues : unreadable p.loader.options d root [path] with
  | nil => simpa [Reported, announcement, Report.isFault] using hreported
  | cons issue issues => simp [Reported, Report.isFault]

theorem readable_cons (options : LoaderOptions) (d : Disk) (root path : String)
    (paths : List String) : readable options d root (path :: paths) =
      readable options d root [path] ++ readable options d root paths := by
  rw [readable, ← List.singleton_append, List.filterMap_append]
  rfl

theorem unreadable_cons (options : LoaderOptions) (d : Disk) (root path : String)
    (paths : List String) : unreadable options d root (path :: paths) =
      unreadable options d root [path] ++ unreadable options d root paths := by
  rw [unreadable, ← List.singleton_append, List.filterMap_append]
  rfl

/-- What a loader has after reading: if it was not cancelled, all that can be read. -/
structure ReadAfter (origin : Disk → String → Prop) (d : Disk) (root : String) (p q : Progress)
    (paths : List String) (stopped : Bool) : Prop where
  loader : q.loader.cache.From origin
  options : q.loader.options = p.loader.options
  reported : q.Reported
  files : stopped = false → q.files = p.files ++ readable p.loader.options d root paths
  issues : stopped = false → q.issues = p.issues ++ unreadable p.loader.options d root paths

theorem readAfter_readAll {paths : List String} (cancelled : Nat → Bool) (n : Nat) {p : Progress}
    (hfrom : p.loader.cache.From origin) (hreported : p.Reported)
    (hpaths : ∀ path ∈ paths, origin d (place root path))
    (hagree : ∀ path ∈ paths, ∀ d', origin d' (place root path) →
      d'.AgreeAt d (place root path)) :
    ReadAfter origin d root p (readAll d root cancelled n p paths).1 paths
      (readAll d root cancelled n p paths).2 := by
  induction paths generalizing n p with
  | nil => exact ⟨hfrom, rfl, hreported, by simp [readAll, readable], by simp [readAll, unreadable]⟩
  | cons path paths ih =>
      rw [readAll]
      split
      · exact ⟨hfrom, rfl, hreported, nofun, nofun⟩
      · obtain ⟨hpath, hpaths⟩ := List.forall_mem_cons.1 hpaths
        obtain ⟨hagreePath, hagree⟩ := List.forall_mem_cons.1 hagree
        have hnext := readNext_eq p hfrom hagreePath
        have hloader : (readNext d root p path).loader = (p.loader.readText d root path).2 := by
          rw [hnext]
        have hoptions : (readNext d root p path).loader.options = p.loader.options := by
          rw [hloader, options_readText]
        have hrest := ih (n + 1) (hloader ▸ from_readText hfrom hpath)
          (hreported.readNext hfrom hagreePath) hpaths hagree
        refine ⟨hrest.loader, hrest.options.trans hoptions, hrest.reported, ?_, ?_⟩
        · intro hstopped
          rw [hrest.files hstopped, hoptions, hnext, readable_cons _ d root path paths,
            List.append_assoc]
        · intro hstopped
          rw [hrest.issues hstopped, hoptions, hnext, unreadable_cons _ d root path paths,
            List.append_assoc]

theorem exists_cancelled_of_readAll {cancelled : Nat → Bool} {n : Nat} {p q : Progress}
    {paths : List String} (h : readAll d root cancelled n p paths = (q, true)) :
    ∃ k, cancelled k = true := by
  induction paths generalizing n p with
  | nil => cases h
  | cons path paths ih =>
      rw [readAll] at h
      split at h
      · next hcancelled => exact ⟨n, hcancelled⟩
      · exact ih h

end

/-- The sources on a disk, or the fault of a disk on which some cannot be read. -/
def sources (options : LoaderOptions) (d : Disk) (root : String) : Except Fault (List SourceFile) :=
  match d.walk (walkOptions options) root with
  | .error e => .error (.phase "IO error" [Issue.io root (some e.toFault)])
  | .ok paths =>
      if (unreadable options d root paths).isEmpty then .ok (readable options d root paths)
      else .error (.phase "IO error" (unreadable options d root paths))

/-- What a loader gives and has after a load. -/
structure LoadedFrom (origin : Disk → String → Prop) (d : Disk) (root : String)
    (cancelled : Nat → Bool) (l : Loader) (load : Load) : Prop where
  loader : load.loader.cache.From origin
  options : load.loader.options = l.options
  outcome : load.outcome = sources l.options d root ∨
    (∃ n, cancelled n = true) ∧ load.outcome = .error cancelledFault
  quiet : ∀ files, load.outcome = .ok files → load.reports.any (·.isFault) = false

section

variable {origin : Disk → String → Prop} {d : Disk} {root : String} {l : Loader}
  (hfrom : l.cache.From origin)
  (horigin : ∀ path, SourceAt l.options root d path → origin d path)
  (hagree : ∀ path d', SourceAt l.options root d path → origin d' path → d'.AgreeAt d path)
include hfrom horigin hagree

theorem readAfter_of_walk {paths : List String}
    (hwalk : d.walk (walkOptions l.options) root = .ok paths) (cancelled : Nat → Bool) :
    ReadAfter origin d root ⟨[], [], [], l⟩ (readAll d root cancelled 0 ⟨[], [], [], l⟩ paths).1
      paths (readAll d root cancelled 0 ⟨[], [], [], l⟩ paths).2 :=
  readAfter_readAll cancelled 0 hfrom rfl
    (fun path hpath => horigin _ ⟨paths, path, hwalk, hpath, rfl⟩)
    fun path hpath d' => hagree _ d' ⟨paths, path, hwalk, hpath, rfl⟩

theorem loadedFrom_loadUnder (cancelled : Nat → Bool) :
    LoadedFrom origin d root cancelled l (l.loadUnder d root cancelled) := by
  rw [loadUnder, list]
  cases hwalk : d.walk (walkOptions l.options) root with
  | error e => exact ⟨hfrom, rfl, Or.inl (by rw [sources, hwalk]), nofun⟩
  | ok paths =>
      have hread := readAfter_of_walk hfrom horigin hagree hwalk cancelled
      rcases hq : readAll d root cancelled 0 ⟨[], [], [], l⟩ paths with ⟨q, _ | _⟩
      · rw [hq] at hread
        have hfiles : q.files = readable l.options d root paths := hread.files rfl
        have hissues : q.issues = unreadable l.options d root paths := hread.issues rfl
        have hreported : q.reports.any (·.isFault) = !q.issues.isEmpty := hread.reported
        have hsources : sources l.options d root =
            if q.issues.isEmpty then .ok q.files else .error (.phase "IO error" q.issues) := by
          rw [sources, hwalk, hfiles, hissues]
        simp only [hq]
        split
        · next hnone =>
            refine ⟨hread.loader, hread.options, Or.inl (by rw [hsources, if_pos hnone]), ?_⟩
            intro files _
            rw [List.any_append, hreported, hnone]
            rfl
        · next hsome =>
            exact ⟨hread.loader, hread.options, Or.inl (by rw [hsources, if_neg hsome]), nofun⟩
      · rw [hq] at hread
        simp only [hq]
        exact ⟨hread.loader, hread.options, Or.inr ⟨exists_cancelled_of_readAll hq, rfl⟩, nofun⟩

end

section

variable {options : LoaderOptions} {d : Disk} {root : String} {paths : List String}

theorem map_path_readable (h : unreadable options d root paths = []) :
    (readable options d root paths).map (·.path) = paths := by
  induction paths with
  | nil => rfl
  | cons path paths ih =>
      rw [readable, unreadable] at *
      rw [List.filterMap_cons] at *
      cases htext : plainText options d root path with
      | ok text =>
          simp only [htext] at h ⊢
          rw [List.map_cons, ih h]
      | error fault => simp [htext] at h

theorem plainText_of_mem_readable {f : SourceFile} (h : f ∈ readable options d root paths) :
    plainText options d root f.path = .ok f.text := by
  obtain ⟨path, _, hf⟩ := List.mem_filterMap.1 h
  split at hf
  · next text htext =>
      cases hf
      exact htext
  · cases hf

theorem pairwise_walk {options : WalkOptions} (h : d.walk options root = .ok paths) :
    paths.Pairwise (· ≤ ·) := by
  rw [Disk.walk] at h
  cases hvisit : d.visit options (d.nodes.length + 1) root "." with
  | error e =>
      rw [hvisit] at h
      cases h
  | ok found =>
      rw [hvisit] at h
      cases h
      exact List.pairwise_mergeSort' _ found

theorem ordered_sources {files : List SourceFile} (h : sources options d root = .ok files) :
    Digest.Ordered files := by
  rw [sources] at h
  split at h
  · cases h
  · next paths hwalk =>
      split at h
      · next hnone =>
          cases h
          refine ⟨?_, fun f hf f' hf' hpath => ?_⟩
          · rw [map_path_readable (List.isEmpty_iff.1 hnone)]
            exact pairwise_walk hwalk
          · have htext := plainText_of_mem_readable hf
            rw [hpath, plainText_of_mem_readable hf'] at htext
            exact (Except.ok.inj htext).symm
      · cases h

end

section

variable {l : Loader} {d : Disk} {root : String}

theorem readText_congr {l' : Loader} {path : String} (hoptions : l.options = l'.options)
    (hcache : (l.cache.read d (Path.join [root, path])).1 =
      (l'.cache.read d (Path.join [root, path])).1) :
    (l.readText d root path).1 = (l'.readText d root path).1 := by
  rw [readText, readText, hoptions]
  cases replacement? l'.options path with
  | some name => cases hbundled : Project.bundled name <;> simp only [hbundled]
  | none => exact hcache

theorem readText_readText (l : Loader) (d : Disk) (root path other : String) :
    ((l.readText d root path).2.readText d root other).1 = (l.readText d root other).1 := by
  refine readText_congr options_readText ?_
  rw [readText]
  cases replacement? l.options path with
  | some name => cases hbundled : Project.bundled name <;> simp only [hbundled]
  | none => exact l.cache.read_read d _ _

theorem loader_readNext (p : Progress) (path : String) :
    (readNext d root p path).loader = (p.loader.readText d root path).2 := by
  rw [readNext]
  rcases p.loader.readText d root path with ⟨fault | text, l'⟩ <;> rfl

theorem issues_readNext (p : Progress) (path : String) :
    p.issues <+: (readNext d root p path).issues := by
  rw [readNext]
  rcases p.loader.readText d root path with ⟨fault | text, l'⟩
  · exact List.prefix_append _ _
  · exact List.prefix_rfl

theorem issues_readAll {cancelled : Nat → Bool} {n : Nat} {p q : Progress} {paths : List String}
    {stopped : Bool} (h : readAll d root cancelled n p paths = (q, stopped)) :
    p.issues <+: q.issues := by
  induction paths generalizing n p with
  | nil =>
      cases h
      exact List.prefix_rfl
  | cons path paths ih =>
      rw [readAll] at h
      split at h
      · cases h
        exact List.prefix_rfl
      · exact (issues_readNext p path).trans (ih h)

/-- What was read of a path after a source more, if there is no issue. -/
theorem files_readNext {p : Progress} {path : String}
    (h : (readNext d root p path).issues = []) : ∃ text,
      (p.loader.readText d root path).1 = .ok text ∧
        (readNext d root p path).files = p.files ++ [⟨path, text⟩] := by
  rw [readNext] at *
  rcases hread : p.loader.readText d root path with ⟨fault | text, l'⟩
  · simp [hread] at h
  · exact ⟨text, rfl, rfl⟩

/-- A load that comes to its end without an issue has read every path as it would have been read at
first. -/
theorem files_readAll {cancelled : Nat → Bool} {n : Nat} {p q : Progress} {paths : List String}
    (hsame : ∀ path, (p.loader.readText d root path).1 = (l.readText d root path).1)
    (h : readAll d root cancelled n p paths = (q, false)) (hissues : q.issues = []) :
    q.files.map (·.path) = p.files.map (·.path) ++ paths ∧
      ∀ f ∈ q.files, f ∈ p.files ∨ (l.readText d root f.path).1 = .ok f.text := by
  induction paths generalizing n p with
  | nil =>
      cases h
      exact ⟨(List.append_nil _).symm, fun f hf => .inl hf⟩
  | cons path paths ih =>
      rw [readAll] at h
      split at h
      · cases h
      · have hnext : (readNext d root p path).issues = [] :=
          List.prefix_nil.1 (hissues ▸ issues_readAll h)
        obtain ⟨text, htext, hfiles⟩ := files_readNext hnext
        have hsameNext (other : String) :
            ((readNext d root p path).loader.readText d root other).1 =
              (l.readText d root other).1 := by
          rw [loader_readNext, readText_readText, hsame]
        obtain ⟨hpaths, htexts⟩ := ih hsameNext h
        rw [hfiles] at hpaths htexts
        refine ⟨by simpa using hpaths, fun f hf => ?_⟩
        obtain hmem | hread := htexts f hf
        · obtain hmem | hmem := List.mem_append.1 hmem
          · exact .inl hmem
          · rw [List.mem_singleton.1 hmem]
            exact .inr ((hsame path).symm.trans htext)
        · exact .inr hread

/-- A load gives the files of a walk, each with the text that would have been read at first. -/
theorem read_loadUnder {cancelled : Nat → Bool} {files : List SourceFile}
    (h : (l.loadUnder d root cancelled).outcome = .ok files) :
    d.walk (walkOptions l.options) root = .ok (files.map (·.path)) ∧
      ∀ f ∈ files, (l.readText d root f.path).1 = .ok f.text := by
  rw [loadUnder, list] at h
  split at h
  · cases h
  · next paths hwalk =>
      split at h
      · cases h
      · next q hread =>
          split at h
          · next hissues =>
              cases h
              obtain ⟨hpaths, htexts⟩ :=
                files_readAll (l := l) (fun _ => rfl) hread (List.isEmpty_iff.1 hissues)
              refine ⟨?_, fun f hf => (htexts f hf).resolve_left List.not_mem_nil⟩
              rw [hpaths, List.map_nil, List.nil_append]
              exact hwalk
          · cases h

/-- Sources of a load, whatever was loaded before, are in the order of their paths, and a path has
one text. -/
theorem ordered_loadUnder {cancelled : Nat → Bool} {files : List SourceFile}
    (h : (l.loadUnder d root cancelled).outcome = .ok files) : Digest.Ordered files := by
  obtain ⟨hwalk, htexts⟩ := read_loadUnder h
  refine ⟨pairwise_walk hwalk, fun f hf f' hf' hpath => ?_⟩
  have htext := htexts f hf
  rw [hpath, htexts f' hf'] at htext
  exact (Except.ok.inj htext).symm

end

end Loader
end ScriptWeave
