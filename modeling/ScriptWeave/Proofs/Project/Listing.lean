import ScriptWeave.Digest.FileSet
import ScriptWeave.Project.Loader
import ScriptWeave.Proofs.Disk.Walk

/-!
The source files of a project. Whether hidden directories are cut off on the way or all hidden names
are refused at the end, the same files remain. They are listed in the order of the bytes of their
paths, which is that of the characters.
-/

namespace ScriptWeave

namespace Text

open Digest (bytes)

theorem toList_loop (bs : ByteArray) (i : Nat) (done : List UInt8) :
    ByteArray.toList.loop bs i done = done.reverse ++ bs.data.toList.drop i := by
  fun_induction ByteArray.toList.loop bs i done with
  | case1 i done h ih =>
      have hi : i < bs.data.toList.length := by simpa using h
      rw [ih, List.drop_eq_getElem_cons hi]
      simp [ByteArray.get!, h]
  | case2 i done h =>
      rw [List.drop_eq_nil_of_le (by simpa using Nat.le_of_not_lt h), List.append_nil]

theorem bytes_ofList (cs : List Char) :
    bytes (String.ofList cs) = cs.flatMap String.utf8EncodeChar := by
  rw [bytes, String.toUTF8_eq_toByteArray, String.toByteArray_ofList, List.utf8Encode,
    ByteArray.toList, toList_loop, List.reverse_nil, List.nil_append, List.drop_zero,
    List.toList_data_toByteArray]

theorem ofNat_cons_lt_ofNat_cons {a b : Nat} (ha : a < 256) (hb : b < 256) (l l' : List UInt8) :
    UInt8.ofNat a :: l < UInt8.ofNat b :: l' ↔ a < b ∨ a = b ∧ l < l' := by
  rw [List.cons_lt_cons_iff, UInt8.ofNat_lt_iff_lt ha hb, ← UInt8.toNat_inj,
    UInt8.toNat_ofNat_of_lt' ha, UInt8.toNat_ofNat_of_lt' hb]

/-- The bytes of a smaller character come first, whatever is after them. -/
theorem utf8EncodeChar_append_lt {c c' : Char} (h : c < c') (rest rest' : List UInt8) :
    String.utf8EncodeChar c ++ rest < String.utf8EncodeChar c' ++ rest' := by
  have hlt : c.val.toNat < c'.val.toNat := h
  have hbound : c'.val.toNat < 1114112 := by
    have hvalid : Nat.isValidChar c'.val.toNat := c'.valid
    obtain hless | ⟨_, hless⟩ := hvalid <;> omega
  obtain hhigh | ⟨hhigh, hlow⟩ : c.val.toNat / 64 < c'.val.toNat / 64 ∨
      c.val.toNat / 64 = c'.val.toNat / 64 ∧ c.val.toNat % 64 < c'.val.toNat % 64 := by omega
  all_goals
    rw [String.utf8EncodeChar.eq_1, String.utf8EncodeChar.eq_1]
    split_ifs <;>
      simp (disch := omega) only [List.cons_append, List.nil_append, ofNat_cons_lt_ofNat_cons] <;>
      omega

theorem flatMap_utf8EncodeChar_lt {cs cs' : List Char} (h : cs < cs') :
    cs.flatMap String.utf8EncodeChar < cs'.flatMap String.utf8EncodeChar := by
  induction h with
  | @nil c cs =>
      rw [List.flatMap_nil, List.flatMap_cons]
      cases hbytes : String.utf8EncodeChar c with
      | nil => exact absurd hbytes String.utf8EncodeChar_ne_nil
      | cons b bs => exact List.nil_lt_cons b _
  | rel h => exact utf8EncodeChar_append_lt h _ _
  | @cons c cs cs' h ih =>
      rw [List.flatMap_cons, List.flatMap_cons]
      exact List.append_left_lt ih

theorem bytes_lt_of_lt {s t : String} (h : s < t) : bytes s < bytes t := by
  rw [← String.ofList_toList (s := s), ← String.ofList_toList (s := t), bytes_ofList, bytes_ofList]
  exact flatMap_utf8EncodeChar_lt h

end Text

open Text Text.Path

variable {name : String}

/-- A name is hidden if it starts with a dot. -/
theorem isHidden_eq (hname : IsName name) : isHidden name = beginsWith "." name := by
  simp [isHidden, hname.not_here, hname.not_up]

namespace Loader

theorem file_walkOptions (options : LoaderOptions) (hname : IsName name) :
    (walkOptions options).file name = true ↔ endsIn ".as" name = true ∧
      (options.ignoreDotFiles = true → beginsWith "." name = false) := by
  simp only [walkOptions, WalkOptions.bySuffix, isHidden_eq hname]
  cases options.ignoreDotFiles <;> simp [and_comm]

theorem directory_walkOptions (options : LoaderOptions) (hname : IsName name) :
    (walkOptions options).directory name = true ↔
      (options.ignoreDotFiles = true → beginsWith "." name = false) := by
  simp only [walkOptions, WalkOptions.bySuffix, isHidden_eq hname]
  cases options.ignoreDotFiles <;> simp

/-- A loader lists the files below a root whose names end as those of sources do, without those that
are hidden or in a hidden directory if hidden ones are ignored, by their paths from the root in the
order of the bytes. What the root itself is called does not matter. -/
theorem list_eq_files (l : Loader) {d : Disk} {root : String} (hd : d.IsTree)
    (hreadable : d.Readable) (hroot : d.IsRoot root) :
    ∃ paths, l.list d root = .ok paths ∧
      paths.Pairwise (fun p q => Digest.bytes p < Digest.bytes q) ∧
      ∀ relative, relative ∈ paths ↔ ∃ directories name,
        relative = "/".intercalate (directories ++ [name]) ∧
        (∀ x ∈ directories ++ [name], IsName x) ∧
        (∃ node, d.node? (join [root, relative]) = some node ∧ node.isDirectory = false) ∧
        endsIn ".as" name = true ∧
        (l.options.ignoreDotFiles = true →
          ∀ x ∈ directories ++ [name], beginsWith "." x = false) := by
  obtain ⟨paths, hpaths, hsorted, hmem⟩ := Disk.walk_eq_files hd hreadable hroot
  refine ⟨paths, hpaths, hsorted.pairwise.imp bytes_lt_of_lt, fun relative =>
    (hmem relative).trans ?_⟩
  refine exists₂_congr fun directories name => ?_
  constructor
  · rintro ⟨⟨hnames, hfile⟩, rfl, htaken, hentered⟩
    obtain ⟨hdirectories, hname⟩ := List.forall_mem_append.1 hnames
    obtain ⟨hsuffix, hvisible⟩ :=
      (file_walkOptions l.options (hname name List.mem_cons_self)).1 htaken
    refine ⟨rfl, hnames, hfile, hsuffix, fun hignore => List.forall_mem_append.2 ⟨?_, ?_⟩⟩
    · exact fun x hx =>
        (directory_walkOptions l.options (hdirectories x hx)).1 (hentered x hx) hignore
    · simpa using hvisible hignore
  · rintro ⟨rfl, hnames, hfile, hsuffix, hvisible⟩
    obtain ⟨hdirectories, hname⟩ := List.forall_mem_append.1 hnames
    refine ⟨⟨hnames, hfile⟩, rfl, ?_, fun x hx => ?_⟩
    · refine (file_walkOptions l.options (hname name List.mem_cons_self)).2
        ⟨hsuffix, fun hignore => ?_⟩
      exact hvisible hignore name (List.mem_append_right _ List.mem_cons_self)
    · refine (directory_walkOptions l.options (hdirectories x hx)).2 fun hignore => ?_
      exact hvisible hignore x (List.mem_append_left _ hx)

/-- A project in a hidden directory, with a hidden directory in it. -/
def hiddenProject : Disk :=
  (Disk.empty.put "/.p/a/b.as" "" 1).put "/.p/.x/c.as" "" 2

theorem list_hiddenProject : hiddenProject.IsTree ∧ hiddenProject.Readable ∧
    hiddenProject.IsRoot "/.p" ∧ ∃ paths,
      (ofOptions ⟨true, false⟩).list hiddenProject "/.p" = .ok paths ∧
      "a/b.as" ∈ paths ∧ ".x/c.as" ∉ paths := by
  have htree : hiddenProject.IsTree :=
    Disk.isTree_put (Disk.isTree_put Disk.isTree_empty _ _ _) _ _ _
  have hreadable : hiddenProject.Readable := Disk.readable_of_refusals (by decide)
  have hroot : hiddenProject.IsRoot "/.p" := by
    have habsolute : ∀ entry ∈ hiddenProject.nodes, isAbsolute entry.1 = true := by decide +kernel
    have hsome : (hiddenProject.node? "/.p").map (·.isDirectory) = some true := by decide +kernel
    obtain ⟨node, hnode, hdirectory⟩ := Option.map_eq_some_iff.1 hsome
    refine Disk.isRoot_of_absolute htree (fun key hkey => ?_) (by decide) hnode hdirectory
    obtain ⟨node, hlookup⟩ := Option.isSome_iff_exists.1 hkey
    exact habsolute _ (mem_of_lookup hlookup)
  obtain ⟨paths, hpaths, _, hmem⟩ := list_eq_files (ofOptions ⟨true, false⟩) htree hreadable hroot
  refine ⟨htree, hreadable, hroot, paths, hpaths, (hmem _).2 ?_, fun h => ?_⟩
  · have hsome : (hiddenProject.node? (join ["/.p", "a/b.as"])).map (·.isDirectory) =
        some false := by
      decide +kernel
    exact ⟨["a"], "b.as", by decide, by decide, Option.map_eq_some_iff.1 hsome,
      by decide, fun _ => by decide⟩
  · obtain ⟨directories, name, heq, hnames, _, _, hvisible⟩ := (hmem _).1 h
    have hspelled : [".x", "c.as"] = directories ++ [name] :=
      spell_inj (by decide) hnames (Eq.trans (by decide) heq)
    have hshown := hvisible rfl ".x" (hspelled ▸ List.mem_cons_self)
    exact absurd hshown (by decide)

/-- A project of one source at the top. -/
def topProject : Disk := Disk.empty.put "/a.as" "" 1

/-- A dot stands for the top, but the names of what is there do not lead from a dot to it. -/
theorem list_topProject_dot : topProject.IsTree ∧ topProject.Readable ∧
    (topProject.node? ".").map (·.isDirectory) = some true ∧
    (topProject.node? "/a.as").map (·.isDirectory) = some false ∧
    (ofOptions ⟨false, false⟩).list topProject "." = .error (.missing .openFile "a.as") := by
  have hreadable : topProject.Readable := Disk.readable_of_refusals (by decide)
  have htop : topProject.node? "." = some ⟨"", 0, true, ["/a.as"]⟩ := by decide
  have hentries : topProject.entriesOf "." = ["a.as"] := by
    rw [Disk.entriesOf, htop, Option.map_some, Option.getD_some, List.map_singleton,
      List.mergeSort_singleton]
    decide
  have hentry : topProject.stat (join [".", "a.as"]) = .error (.missing .openFile "a.as") := by
    have hnone : topProject.node? (join [".", "a.as"]) = none := by decide
    have hlocate : Disk.locate (join [".", "a.as"]) = "a.as" := by decide
    rw [Disk.stat, (hreadable _).1, Disk.openDirect, hnone, hlocate]
  refine ⟨Disk.isTree_put Disk.isTree_empty _ _ _, hreadable, by decide,
    by decide, ?_⟩
  have hvisit : topProject.visit (walkOptions (ofOptions ⟨false, false⟩).options)
      (topProject.nodes.length + 1) "." "." = .error (.missing .openFile "a.as") := by
    rw [Disk.visit, Disk.stat_of_node? htop (hreadable _).1]
    simp only [Bool.not_true, Bool.false_eq_true, if_false, ne_eq, not_true_eq_false, decide_false,
      Bool.false_and]
    rw [Disk.list_of_node? htop (hreadable _).2, hentries]
    have hlength : topProject.nodes.length = 1 + 1 := by decide
    rw [hlength]
    simp only [Disk.visitAll, Disk.visit, hentry, Disk.walkError]
    rfl
  rw [list, Disk.walk, hvisit]
  rfl

end Loader
end ScriptWeave
