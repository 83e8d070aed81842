import Mathlib.Data.List.Find
import Mathlib.Data.List.Sort
import Mathlib.Data.String.Basic
import ScriptWeave.Proofs.Project.Sources

/-!
Digests as names of sets of sources. The order in which sources are given does not matter, and where
no two of the hashed texts have the same hash, sets with one digest hold the same paths with the
same texts. What loads give comes in order, so there the lists are the same.
-/

namespace ScriptWeave
namespace Digest

section

variable {named named' : List (String × String)} (h : named.Perm named')
  (hnodup : (named.map (·.1)).Nodup)
include h hnodup

/-- The text of a name does not depend on the order of distinct names. -/
theorem textOf_perm (name : String) : textOf named name = textOf named' name := by
  have hreverse : named.reverse.Perm named'.reverse :=
    (List.reverse_perm named).trans (h.trans (List.reverse_perm named').symm)
  have hone : {entry ∈ named.reverse | decide (entry.1 = name) = true}.Subsingleton := by
    rintro entry ⟨hentry, hname⟩ entry' ⟨hentry', hname'⟩
    exact List.inj_on_of_nodup_map hnodup (List.mem_reverse.1 hentry) (List.mem_reverse.1 hentry')
      ((of_decide_eq_true hname).trans (of_decide_eq_true hname').symm)
  rw [textOf, textOf, List.find?_eq_find?_of_perm hreverse hone]

theorem lines_perm (hash : List UInt8 → List UInt8) : lines hash named = lines hash named' := by
  have hnames : (named.map (·.1)).mergeSort (· ≤ ·) = (named'.map (·.1)).mergeSort (· ≤ ·) := by
    apply List.Perm.eq_of_sortedLE
    · exact List.sortedLE_mergeSort
    · exact List.sortedLE_mergeSort
    · exact (List.mergeSort_perm _ _).trans ((h.map _).trans (List.mergeSort_perm _ _).symm)
  have hline : line hash named = line hash named' := funext fun name => by
    rw [line, line, textOf_perm h hnodup]
  rw [lines, lines, hnames, hline]

theorem compute?_perm (hash : List UInt8 → List UInt8) :
    compute? hash named = compute? hash named' := by
  rw [compute?, compute?, h.any_eq, lines_perm h hnodup]

end

/-- Sources with distinct paths that stay on their lines. -/
structure Named (files : List SourceFile) : Prop where
  distinct : (files.map (·.path)).Nodup
  inline : ∀ f ∈ files, '\n' ∉ f.path.toList

/-- Sources that some load gave. -/
def Loaded (files : List SourceFile) : Prop :=
  ∃ (l : Loader) (d : Disk) (root : String) (cancelled : Nat → Bool),
    (l.loadUnder d root cancelled).outcome = .ok files

theorem Loaded.ordered {files : List SourceFile} (h : Loaded files) : Ordered files := by
  obtain ⟨l, d, root, cancelled, houtcome⟩ := h
  exact Loader.ordered_loadUnder houtcome

/-- Sources in the order of their paths. -/
def arranged (files : List SourceFile) : List SourceFile :=
  files.mergeSort fun f f' => f.path ≤ f'.path

theorem arranged_perm (files : List SourceFile) : (arranged files).Perm files :=
  List.mergeSort_perm _ _

namespace Named

variable {files files' : List SourceFile}

theorem ordered_arranged (h : Named files) : Ordered (arranged files) where
  sorted := by
    have hle : (arranged files).Pairwise fun f f' => decide (f.path ≤ f'.path) = true := by
      apply List.pairwise_mergeSort
      · intro f f' f'' hf hf'
        simp only [decide_eq_true_eq] at *
        exact le_trans hf hf'
      · intro f f'
        simpa using le_total f.path f'.path
    exact List.pairwise_map.2 (hle.imp of_decide_eq_true)
  texts := by
    intro f hf f' hf' hpath
    have hsubset := (arranged_perm files).subset
    exact congrArg (·.text)
      (List.inj_on_of_nodup_map h.distinct (hsubset hf) (hsubset hf') hpath)

theorem nodup_entries (h : Named files) : ((entries files).map (·.1)).Nodup := by
  rw [entries, List.map_map]
  exact h.distinct

theorem exists_digest (h : Named files) : ∃ digest, ofSources? files = some digest := by
  refine ⟨_, if_neg fun hany => ?_⟩
  obtain ⟨entry, hentry, hnewline⟩ := List.any_eq_true.1 hany
  obtain ⟨f, hf, rfl⟩ := List.mem_map.1 hentry
  exact h.inline f hf (List.contains_iff_mem.1 hnewline)

theorem ofSources?_perm (h : Named files) (hperm : files.Perm files') :
    ofSources? files = ofSources? files' :=
  compute?_perm (hperm.map _) h.nodup_entries _

theorem mem_hashedTexts_perm (h : Named files) (hperm : files.Perm files') {t : String} :
    t ∈ hashedTexts files ↔ t ∈ hashedTexts files' := by
  have hentries : (entries files).Perm (entries files') := hperm.map _
  rw [hashedTexts, hashedTexts, List.mem_cons, List.mem_cons, lines_perm hentries h.nodup_entries,
    (hperm.map (·.text)).mem_iff]

theorem perm_iff (h : Named files) (h' : Named files') :
    files.Perm files' ↔ ∀ f, f ∈ files ↔ f ∈ files' :=
  List.perm_ext_iff_of_nodup h.distinct.of_map h'.distinct.of_map

end Named

/-- Sets of sources have one digest exactly when they hold the same paths with the same texts; lists
that loads gave are then the same. -/
theorem ofSources?_identifies {files files' : List SourceFile}
    (hfree : CollisionFree fun t => t ∈ hashedTexts files ∨ t ∈ hashedTexts files') :
    (Named files → Named files' → ∃ digest digest', ofSources? files = some digest ∧
      ofSources? files' = some digest' ∧ (digest = digest' ↔ ∀ f, f ∈ files ↔ f ∈ files')) ∧
    (Loaded files → Loaded files' → ∀ digest, ofSources? files = some digest →
      ofSources? files' = some digest → files = files') := by
  refine ⟨fun hnamed hnamed' => ?_, fun hloaded hloaded' digest hdigest hdigest' => ?_⟩
  · obtain ⟨digest, hdigest⟩ := hnamed.exists_digest
    obtain ⟨digest', hdigest'⟩ := hnamed'.exists_digest
    refine ⟨digest, digest', hdigest, hdigest', ?_⟩
    rw [← hnamed.perm_iff hnamed']
    constructor
    · rintro rfl
      have hsame : arranged files = arranged files' := by
        refine ofSources?_inj hnamed.ordered_arranged hnamed'.ordered_arranged
          (hdigest ▸ (hnamed.ofSources?_perm (arranged_perm files).symm).symm)
          (hdigest' ▸ (hnamed'.ofSources?_perm (arranged_perm files').symm).symm) ?_
        simpa only [hnamed.mem_hashedTexts_perm (arranged_perm files).symm,
          hnamed'.mem_hashedTexts_perm (arranged_perm files').symm] using hfree
      exact (arranged_perm files).symm.trans (hsame ▸ arranged_perm files')
    · intro hperm
      rw [hnamed.ofSources?_perm hperm, hdigest'] at hdigest
      exact (Option.some.inj hdigest).symm
  · exact ofSources?_inj hloaded.ordered hloaded'.ordered hdigest hdigest' hfree

/-- Two sources, one of them with spaces in its path. -/
def spacedSources : List SourceFile := [⟨"A  b.as", "var a"⟩, ⟨"A.as", "var b"⟩]

theorem ofSources?_identifies_spaced :
    CollisionFree (fun t => t ∈ hashedTexts spacedSources ∨ t ∈ hashedTexts spacedSources.reverse) ∧
      Named spacedSources ∧ Named spacedSources.reverse ∧
      ofSources? spacedSources = ofSources? spacedSources.reverse := by
  have hnamed : Named spacedSources := ⟨by decide, by decide⟩
  have hnamed' : Named spacedSources.reverse := ⟨by decide, by decide⟩
  have hordered : Ordered spacedSources := ⟨by decide, by decide⟩
  have hhashes : ((String.ofList (spacedSources.flatMap fun f => sourceLine f ++ ['\n']) ::
      spacedSources.map (·.text)).map fun t => Sha256.hash (bytes t)).Nodup := by
    decide +kernel
  rw [← hordered.lines, String.ofList_toList] at hhashes
  have hfree : CollisionFree fun t =>
      t ∈ hashedTexts spacedSources ∨ t ∈ hashedTexts spacedSources.reverse := by
    intro t t' ht ht' hsame
    rw [← hnamed.mem_hashedTexts_perm (List.reverse_perm _).symm, or_self] at ht ht'
    exact List.inj_on_of_nodup_map hhashes ht ht' hsame
  obtain ⟨digest, digest', hdigest, hdigest', hsame⟩ :=
    (ofSources?_identifies hfree).1 hnamed hnamed'
  rw [hdigest, hdigest', hsame.2 fun f => List.mem_reverse.symm]
  exact ⟨hfree, hnamed, hnamed', rfl⟩

end Digest
end ScriptWeave
