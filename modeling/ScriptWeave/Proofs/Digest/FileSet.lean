import Mathlib.Data.List.Sort
import ScriptWeave.Digest.FileSet
import ScriptWeave.Text.Hex

/-!
What a digest says about a set of sources. Bytes are read off their hexadecimal and their Base64
form, and names and hashes off the lines, so two sets of sources with one digest are the same unless
the hash function takes two of the texts that were hashed to one value.
-/

namespace ScriptWeave

open Text

namespace Digest

theorem hex_cons (b : UInt8) (bs : List UInt8) :
    hex (b :: bs) = hexDigit (b.toNat / 16 % 16) :: hexDigit (b.toNat % 16) :: hex bs := by
  rw [hex, List.flatMap_cons, hexPadded_two]
  rfl

theorem hex_inj {bs bs' : List UInt8} (h : hex bs = hex bs') : bs = bs' := by
  induction bs generalizing bs' with
  | nil =>
      cases bs' with
      | nil => rfl
      | cons b' bs' =>
          rw [hex_cons] at h
          cases h
  | cons b bs ih =>
      cases bs' with
      | nil =>
          rw [hex_cons] at h
          cases h
      | cons b' bs' =>
          rw [hex_cons, hex_cons] at h
          injection h with hhigh h
          injection h with hlow hrest
          have hhigh := hexDigit_inj (Nat.mod_lt _ (by decide)) (Nat.mod_lt _ (by decide)) hhigh
          have hlow := hexDigit_inj (Nat.mod_lt _ (by decide)) (Nat.mod_lt _ (by decide)) hlow
          have hb := b.toNat_lt
          have hb' := b'.toNat_lt
          have hbyte : b = b' := UInt8.toNat_inj.1 (by omega)
          rw [hbyte, ih hrest]

theorem length_hex (bs : List UInt8) : (hex bs).length = 2 * bs.length := by
  induction bs with
  | nil => rfl
  | cons b bs ih =>
      rw [hex_cons, List.length_cons, List.length_cons, ih, List.length_cons]
      omega

theorem newline_notMem_hex (bs : List UInt8) : '\n' ∉ hex bs := by
  induction bs with
  | nil => exact List.not_mem_nil
  | cons b bs ih =>
      rw [hex_cons, List.mem_cons, List.mem_cons]
      rintro (hhigh | hlow | hrest)
      · exact hexDigit_ne_newline (Nat.mod_lt _ (by decide)) hhigh.symm
      · exact hexDigit_ne_newline (Nat.mod_lt _ (by decide)) hlow.symm
      · exact ih hrest

namespace Base64

theorem value?_digit {n : Nat} (h : n < 64) : value? (digit n) = some n := by
  revert n
  decide

theorem digit_inj {m n : Nat} (hm : m < 64) (hn : n < 64) (h : digit m = digit n) : m = n := by
  have hvalue := value?_digit hm
  rw [h, value?_digit hn] at hvalue
  exact (Option.some.inj hvalue).symm

/-- Lists of one length are told apart by their encodings. -/
theorem encode_inj {bs bs' : List UInt8} (hlength : bs.length = bs'.length)
    (h : encode bs = encode bs') : bs = bs' := by
  match bs, bs' with
  | [], [] => rfl
  | [a], [a'] =>
      simp only [encode, List.cons.injEq] at h
      obtain ⟨h₁, h₂, -⟩ := h
      have ha := a.toNat_lt
      have ha' := a'.toNat_lt
      have h₁ := digit_inj (by omega) (by omega) h₁
      have h₂ := digit_inj (by omega) (by omega) h₂
      have hfirst : a = a' := UInt8.toNat_inj.1 (by omega)
      rw [hfirst]
  | [a, b], [a', b'] =>
      simp only [encode, List.cons.injEq] at h
      obtain ⟨h₁, h₂, h₃, -⟩ := h
      have ha := a.toNat_lt
      have hb := b.toNat_lt
      have ha' := a'.toNat_lt
      have hb' := b'.toNat_lt
      have h₁ := digit_inj (by omega) (by omega) h₁
      have h₂ := digit_inj (by omega) (by omega) h₂
      have h₃ := digit_inj (by omega) (by omega) h₃
      have hfirst : a = a' := UInt8.toNat_inj.1 (by omega)
      have hsecond : b = b' := UInt8.toNat_inj.1 (by omega)
      rw [hfirst, hsecond]
  | a :: b :: c :: rest, a' :: b' :: c' :: rest' =>
      simp only [encode, List.cons.injEq] at h
      obtain ⟨h₁, h₂, h₃, h₄, hrest⟩ := h
      have ha := a.toNat_lt
      have hb := b.toNat_lt
      have hc := c.toNat_lt
      have ha' := a'.toNat_lt
      have hb' := b'.toNat_lt
      have hc' := c'.toNat_lt
      have h₁ := digit_inj (by omega) (by omega) h₁
      have h₂ := digit_inj (by omega) (by omega) h₂
      have h₃ := digit_inj (by omega) (by omega) h₃
      have h₄ := digit_inj (by omega) (by omega) h₄
      have hfirst : a = a' := UInt8.toNat_inj.1 (by omega)
      have hsecond : b = b' := UInt8.toNat_inj.1 (by omega)
      have hthird : c = c' := UInt8.toNat_inj.1 (by omega)
      rw [hfirst, hsecond, hthird, encode_inj (by simpa using hlength) hrest]

end Base64

theorem Sha256.length_hash (message : List UInt8) : (Sha256.hash message).length = 32 := rfl

/-- What stands before the first line break is one thing, and what stands after it another. -/
theorem append_newline_inj {x y rest rest' : List Char} (hx : '\n' ∉ x) (hy : '\n' ∉ y)
    (h : x ++ '\n' :: rest = y ++ '\n' :: rest') : x = y ∧ rest = rest' := by
  obtain ⟨c, rfl, hrest⟩ | ⟨c, rfl, hrest⟩ := List.append_eq_append_iff.1 h
  · cases c with
    | nil => exact ⟨(List.append_nil x).symm, (List.cons.inj hrest).2⟩
    | cons a c =>
        cases (List.cons.inj hrest).1
        exact absurd (List.mem_append_right x List.mem_cons_self) hy
  · cases c with
    | nil => exact ⟨List.append_nil y, (List.cons.inj hrest).2.symm⟩
    | cons a c =>
        cases (List.cons.inj hrest).1
        exact absurd (List.mem_append_right y List.mem_cons_self) hx

/-- The line of a source, without its end: its hash and its path. -/
def sourceLine (f : SourceFile) : List Char :=
  hex (Sha256.hash (bytes f.text)) ++ [' ', ' '] ++ f.path.toList

theorem newline_notMem_sourceLine {f : SourceFile} (h : '\n' ∉ f.path.toList) :
    '\n' ∉ sourceLine f := by
  rw [sourceLine, List.mem_append, List.mem_append]
  rintro ((hhash | hspace) | hpath)
  · exact newline_notMem_hex _ hhash
  · exact absurd hspace (by decide)
  · exact h hpath

theorem sourceLine_inj {f f' : SourceFile} (h : sourceLine f = sourceLine f') :
    f.path = f'.path ∧ Sha256.hash (bytes f.text) = Sha256.hash (bytes f'.text) := by
  rw [sourceLine, sourceLine, List.append_assoc, List.append_assoc] at h
  have hlength : (hex (Sha256.hash (bytes f.text))).length =
      (hex (Sha256.hash (bytes f'.text))).length := by
    rw [length_hex, length_hex, Sha256.length_hash, Sha256.length_hash]
  obtain ⟨hhash, hpath⟩ := List.append_inj h hlength
  exact ⟨String.toList_inj.1 (List.append_cancel_left hpath), hex_inj hhash⟩

/-- Sources as a digest takes them: in the order of their paths, and a path that comes twice has one
text. -/
structure Ordered (files : List SourceFile) : Prop where
  sorted : (files.map (·.path)).Pairwise (· ≤ ·)
  texts : ∀ f ∈ files, ∀ f' ∈ files, f.path = f'.path → f.text = f'.text

/-- The names and texts of sources. -/
def entries (files : List SourceFile) : List (String × String) :=
  files.map fun f => (f.path, f.text)

theorem Ordered.textOf {files : List SourceFile} (h : Ordered files) {f : SourceFile}
    (hf : f ∈ files) : textOf (entries files) f.path = f.text := by
  rw [Digest.textOf]
  cases hfound : (entries files).reverse.find? (·.1 = f.path) with
  | none =>
      have hne := List.find?_eq_none.1 hfound (f.path, f.text)
        (List.mem_reverse.2 (List.mem_map.2 ⟨f, hf, rfl⟩))
      simp at hne
  | some entry =>
      obtain ⟨f', hf', rfl⟩ :=
        List.mem_map.1 (List.mem_reverse.1 (List.mem_of_find?_eq_some hfound))
      have hpath : f'.path = f.path := by simpa using List.find?_some hfound
      exact h.texts f' hf' f hf hpath

theorem Ordered.lines {files : List SourceFile} (h : Ordered files) :
    (lines Sha256.hash (entries files)).toList =
      files.flatMap fun f => sourceLine f ++ ['\n'] := by
  have hnames : (entries files).map (·.1) = files.map (·.path) := by
    rw [entries, List.map_map]
    rfl
  rw [Digest.lines, hnames, List.mergeSort_eq_self _ h.sorted, String.toList_join, List.map_map,
    List.flatMap_map]
  apply List.flatMap_congr
  intro f hf
  simp [line, h.textOf hf, sourceLine]

/-- The texts that are hashed for the digest of sources: theirs, and their lines. -/
def hashedTexts (files : List SourceFile) : List String :=
  lines Sha256.hash (entries files) :: files.map (·.text)

/-- No two of the texts have the same hash. -/
def CollisionFree (texts : String → Prop) : Prop :=
  ∀ t t', texts t → texts t' → Sha256.hash (bytes t) = Sha256.hash (bytes t') → t = t'

theorem ofSources?_eq_some {files : List SourceFile} {digest : String}
    (h : ofSources? files = some digest) : (∀ f ∈ files, '\n' ∉ f.path.toList) ∧
      digest = "h1:" ++ String.ofList
        (Base64.encode (Sha256.hash (bytes (lines Sha256.hash (entries files))))) := by
  rw [ofSources?, compute?] at h
  split at h
  · cases h
  · next hnames =>
      refine ⟨fun f hf hnewline => hnames ?_, (Option.some.inj h).symm⟩
      exact List.any_eq_true.2 ⟨_, List.mem_map.2 ⟨f, hf, rfl⟩, List.contains_iff_mem.2 hnewline⟩

/-- Sources are read off their lines, if their hashes tell their texts apart. -/
theorem eq_of_lines {files files' : List SourceFile} (hpaths : ∀ f ∈ files, '\n' ∉ f.path.toList)
    (hpaths' : ∀ f ∈ files', '\n' ∉ f.path.toList)
    (htexts : ∀ f ∈ files, ∀ f' ∈ files',
      Sha256.hash (bytes f.text) = Sha256.hash (bytes f'.text) → f.text = f'.text)
    (h : (files.flatMap fun f => sourceLine f ++ ['\n']) =
      files'.flatMap fun f => sourceLine f ++ ['\n']) : files = files' := by
  induction files generalizing files' with
  | nil =>
      cases files' with
      | nil => rfl
      | cons f' files' => simp at h
  | cons f files ih =>
      cases files' with
      | nil => simp at h
      | cons f' files' =>
          obtain ⟨hpath, hpaths⟩ := List.forall_mem_cons.1 hpaths
          obtain ⟨hpath', hpaths'⟩ := List.forall_mem_cons.1 hpaths'
          simp only [List.flatMap_cons, List.append_assoc, List.singleton_append] at h
          obtain ⟨hline, hrest⟩ := append_newline_inj (newline_notMem_sourceLine hpath)
            (newline_notMem_sourceLine hpath') h
          obtain ⟨hname, hhash⟩ := sourceLine_inj hline
          have htext := htexts f List.mem_cons_self f' List.mem_cons_self hhash
          have hsame : f = f' := by
            cases f
            cases f'
            exact SourceFile.mk.injEq .. ▸ ⟨hname, htext⟩
          rw [hsame, ih hpaths hpaths' (fun g hg g' hg' => htexts g (List.mem_cons_of_mem _ hg) g'
            (List.mem_cons_of_mem _ hg')) hrest]

/-- Sources are told apart by their digests, unless two of the texts have the same hash. -/
theorem ofSources?_inj {files files' : List SourceFile} {digest : String} (hfiles : Ordered files)
    (hfiles' : Ordered files') (h : ofSources? files = some digest)
    (h' : ofSources? files' = some digest)
    (hfree : CollisionFree fun t => t ∈ hashedTexts files ∨ t ∈ hashedTexts files') :
    files = files' := by
  obtain ⟨hpaths, hdigest⟩ := ofSources?_eq_some h
  obtain ⟨hpaths', hdigest'⟩ := ofSources?_eq_some h'
  rw [hdigest] at hdigest'
  have hencoded := String.ofList_injective ((String.append_right_inj "h1:").1 hdigest')
  have hlength := (Sha256.length_hash (bytes (lines Sha256.hash (entries files)))).trans
    (Sha256.length_hash (bytes (lines Sha256.hash (entries files')))).symm
  have hhash := Base64.encode_inj hlength hencoded
  have hlines := hfree _ _ (Or.inl List.mem_cons_self) (Or.inr List.mem_cons_self) hhash
  refine eq_of_lines hpaths hpaths' (fun f hf f' hf' => hfree _ _ ?_ ?_) ?_
  · exact Or.inl (List.mem_cons_of_mem _ (List.mem_map.2 ⟨f, hf, rfl⟩))
  · exact Or.inr (List.mem_cons_of_mem _ (List.mem_map.2 ⟨f', hf', rfl⟩))
  · rw [← hfiles.lines, ← hfiles'.lines, hlines]

end Digest
end ScriptWeave
