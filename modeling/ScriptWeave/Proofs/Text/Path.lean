import ScriptWeave.Text.Path
import Mathlib.Data.List.Basic

/-!
Cleaned paths. The elements of a cleaned path are names with nothing but two dots before them, and
cleaning leaves them as they are. A path that is joined to a directory stays below it unless it
climbs out of it on its way.
-/

namespace ScriptWeave
namespace Text

theorem splitChars_eq_splitOn (sep : Char) (cs : List Char) :
    splitChars sep cs = cs.splitOn sep := by
  induction cs with
  | nil => rfl
  | cons c cs ih =>
      rw [splitChars, ih, List.splitOn_cons_eq_if_modifyHead]
      cases hpieces : cs.splitOn sep with
      | nil => exact absurd hpieces (List.splitOn_ne_nil sep cs)
      | cons piece pieces =>
          by_cases hc : c = sep
          · simp [hc]
          · simp [hc]

theorem not_mem_of_mem_splitChars {sep : Char} {cs piece : List Char}
    (h : piece ∈ splitChars sep cs) : sep ∉ piece := by
  induction cs generalizing piece with
  | nil =>
      rw [List.mem_singleton.1 h]
      exact List.not_mem_nil
  | cons c cs ih =>
      rw [splitChars] at h
      split at h
      · next hnil =>
          rw [splitChars_eq_splitOn] at hnil
          exact absurd hnil (List.splitOn_ne_nil sep cs)
      · next first pieces hpieces =>
          have hfirst : sep ∉ first := ih (hpieces ▸ List.mem_cons_self)
          have hpieces' (piece : List Char) (hmem : piece ∈ pieces) : sep ∉ piece :=
            ih (hpieces ▸ List.mem_cons_of_mem _ hmem)
          split at h
          · obtain rfl | rfl | hmem := by simpa using h
            · exact List.not_mem_nil
            · exact hfirst
            · exact hpieces' piece hmem
          · next hc =>
              obtain rfl | hmem := List.mem_cons.1 h
              · exact fun hsep => (List.mem_cons.1 hsep).elim (fun heq => hc heq.symm) hfirst
              · exact hpieces' piece hmem

namespace Path

variable {p q dir file : String} {rooted : Bool} {done : List String}

theorem elements_eq (p : String) : elements p = (p.toList.splitOn '/').map String.ofList := by
  rw [elements, split, splitChars_eq_splitOn]

theorem elements_append (p q : String) : elements (p ++ "/" ++ q) = elements p ++ elements q := by
  have hslash : "/".toList = ['/'] := rfl
  rw [elements_eq, elements_eq, elements_eq, String.toList_append, String.toList_append, hslash,
    List.append_assoc, List.singleton_append, List.splitOn_append_cons_self, List.map_append]

theorem elements_intercalate {es : List String} (hne : es ≠ []) (hes : ∀ e ∈ es, '/' ∉ e.toList) :
    elements ("/".intercalate es) = es := by
  have hslash : "/".toList = ['/'] := rfl
  rw [elements_eq, String.toList_intercalate, hslash, List.splitOn_intercalate]
  · simp [Function.comp_def]
  · intro cs hcs
    obtain ⟨e, he, rfl⟩ := List.mem_map.1 hcs
    exact hes e he
  · simpa using hne

theorem not_mem_of_mem_elements {e : String} (h : e ∈ elements p) : '/' ∉ e.toList := by
  rw [elements, split] at h
  obtain ⟨cs, hcs, rfl⟩ := List.mem_map.1 h
  rw [String.toList_ofList]
  exact not_mem_of_mem_splitChars hcs

theorem isAbsolute_iff : isAbsolute p = true ↔ p.toList.head? = some '/' := by
  have hslash : "/".toList = ['/'] := rfl
  rw [isAbsolute, beginsWith, hslash, List.isPrefixOf_iff_prefix]
  cases p.toList with
  | nil => simp
  | cons c cs => simp [eq_comm]

theorem isAbsolute_append (hp : p ≠ "") (q : String) : isAbsolute (p ++ q) = isAbsolute p := by
  rw [Bool.eq_iff_iff, isAbsolute_iff, isAbsolute_iff, String.toList_append,
    List.head?_append_of_ne_nil]
  simpa using hp

/-- The elements that remain after cleaning, the last one first: names, and below them two dots,
which a rooted path does not have. -/
inductive Cleaned (rooted : Bool) : List String → Prop where
  | nil : Cleaned rooted []
  | climb {done : List String} (hrooted : rooted = false) (hdone : ∀ last ∈ done.head?, last = "..")
      (h : Cleaned rooted done) : Cleaned rooted (".." :: done)
  | name {element : String} {done : List String} (hempty : element ≠ "") (hdot : element ≠ ".")
      (hup : element ≠ "..") (h : Cleaned rooted done) : Cleaned rooted (element :: done)

theorem push_name {element : String} (hempty : element ≠ "") (hdot : element ≠ ".")
    (hup : element ≠ "..") : push rooted done element = element :: done := by
  rw [push.eq_def, if_neg (not_or.2 ⟨hempty, hdot⟩), if_neg hup]

theorem push_trivial {element : String} (h : element = "" ∨ element = ".") :
    push rooted done element = done := by
  rw [push.eq_def, if_pos h]

theorem push_up : push rooted done ".." = match done with
    | [] => if rooted then [] else [".."]
    | last :: rest => if last = ".." then ".." :: last :: rest else rest :=
  (push.eq_def ..).trans ((if_neg (by decide)).trans (if_pos rfl))

theorem Cleaned.push (h : Cleaned rooted done) (element : String) :
    Cleaned rooted (push rooted done element) := by
  by_cases htrivial : element = "" ∨ element = "."
  · rwa [push_trivial htrivial]
  · obtain ⟨hempty, hdot⟩ := not_or.1 htrivial
    by_cases hup : element = ".."
    · rw [hup, push_up]
      cases h with
      | nil =>
          cases rooted with
          | true => exact .nil
          | false => exact .climb rfl (by simp) .nil
      | climb hrooted hdone h => exact .climb hrooted (by simp) (.climb hrooted hdone h)
      | name hempty hdot hup h =>
          simp only [hup, if_false]
          exact h
    · rw [push_name hempty hdot hup]
      exact .name hempty hdot hup h

theorem cleaned_foldl (h : Cleaned rooted done) (es : List String) :
    Cleaned rooted (es.foldl (Path.push rooted) done) := by
  induction es generalizing done with
  | nil => exact h
  | cons e es ih => exact ih (h.push e)

theorem cleaned_cleanElements (p : String) : Cleaned (isAbsolute p) (cleanElements p).reverse := by
  rw [cleanElements, List.reverse_reverse]
  exact cleaned_foldl .nil _

/-- Elements that cleaning left are left again. -/
theorem Cleaned.foldl_reverse (h : Cleaned rooted done) :
    done.reverse.foldl (Path.push rooted) [] = done := by
  induction h with
  | nil => rfl
  | @climb done hrooted hdone _ ih =>
      rw [List.reverse_cons, List.foldl_append, ih, List.foldl_cons, List.foldl_nil, push_up]
      cases done with
      | nil => simp [hrooted]
      | cons last rest => simp [hdone last rfl]
  | name hempty hdot hup _ ih =>
      rw [List.reverse_cons, List.foldl_append, ih, List.foldl_cons, List.foldl_nil,
        push_name hempty hdot hup]

theorem mem_of_mem_push {element e : String} (h : e ∈ push rooted done element) :
    e ∈ done ∨ e = element := by
  rw [push.eq_def] at h
  split at h
  · exact .inl h
  · split at h
    · next hup =>
        subst hup
        split at h
        · split at h
          · exact .inl h
          · exact .inr (List.mem_singleton.1 h)
        · split at h
          · exact (List.mem_cons.1 h).elim .inr .inl
          · exact .inl (List.mem_cons_of_mem _ h)
    · exact (List.mem_cons.1 h).elim .inr .inl

theorem mem_of_mem_foldl {es : List String} {e : String} (h : e ∈ es.foldl (push rooted) done) :
    e ∈ done ∨ e ∈ es := by
  induction es generalizing done with
  | nil => exact .inl h
  | cons element es ih =>
      obtain hpushed | hes := ih h
      · exact (mem_of_mem_push hpushed).imp_right (List.mem_cons.2 <| .inl ·)
      · exact .inr (List.mem_cons_of_mem _ hes)

theorem not_mem_of_mem_cleanElements {e : String} (h : e ∈ cleanElements p) : '/' ∉ e.toList := by
  rw [cleanElements, List.mem_reverse] at h
  obtain hnil | hmem := mem_of_mem_foldl h
  · cases hnil
  · exact not_mem_of_mem_elements hmem

theorem ne_of_mem_cleaned {e : String} (h : Cleaned rooted done) (he : e ∈ done) :
    e ≠ "" ∧ e ≠ "." := by
  induction h with
  | nil => cases he
  | climb _ _ _ ih =>
      obtain rfl | hmem := List.mem_cons.1 he
      · decide
      · exact ih hmem
  | name hempty hdot _ _ ih =>
      obtain rfl | hmem := List.mem_cons.1 he
      · exact ⟨hempty, hdot⟩
      · exact ih hmem

theorem ne_of_mem_cleanElements {e : String} (h : e ∈ cleanElements p) : e ≠ "" ∧ e ≠ "." :=
  ne_of_mem_cleaned (cleaned_cleanElements p) (List.mem_reverse.2 h)

/-- Cleaning the elements of a path that was put together from elements. -/
theorem foldl_elements_intercalate {es : List String} (hes : ∀ e ∈ es, '/' ∉ e.toList) :
    (elements ("/".intercalate es)).foldl (push rooted) done = es.foldl (push rooted) done := by
  cases es with
  | nil => rfl
  | cons e es => rw [elements_intercalate (List.cons_ne_nil e es) hes]

/-- Names with slashes between them are a relative path. -/
theorem isAbsolute_intercalate {es : List String} (hempty : ∀ e ∈ es, e ≠ "")
    (hes : ∀ e ∈ es, '/' ∉ e.toList) : isAbsolute ("/".intercalate es) = false := by
  cases es with
  | nil => rfl
  | cons e es =>
      have he := hempty e List.mem_cons_self
      have hname : isAbsolute e = false := by
        rw [← Bool.not_eq_true, isAbsolute_iff]
        exact fun hhead => hes e List.mem_cons_self (List.mem_of_head? hhead)
      cases es with
      | nil => rwa [String.intercalate_singleton]
      | cons e' es =>
          rw [String.intercalate_cons_cons, String.append_assoc, isAbsolute_append he, hname]

theorem intercalate_eq_empty_iff {es : List String} (hes : ∀ e ∈ es, e ≠ "") :
    "/".intercalate es = "" ↔ es = [] := by
  cases es with
  | nil => simp
  | cons e es =>
      have he := hes e List.mem_cons_self
      cases es with
      | nil => simpa using he
      | cons e' es => simp [String.intercalate_cons_cons, he]

theorem clean_of_absolute (hp : isAbsolute p = true) :
    clean p = "" ++ "/" ++ "/".intercalate (cleanElements p) := by
  rw [clean, if_pos hp, String.empty_append]

theorem clean_of_relative (hp : isAbsolute p = false) :
    clean p = if cleanElements p = [] then "." else "/".intercalate (cleanElements p) := by
  have hempty := intercalate_eq_empty_iff fun e he => (ne_of_mem_cleanElements (p := p) he).1
  simp only [clean, hp, hempty, Bool.false_eq_true, if_false]

theorem isAbsolute_clean (p : String) : isAbsolute (clean p) = isAbsolute p := by
  cases hp : isAbsolute p with
  | true =>
      rw [clean_of_absolute hp, String.empty_append, isAbsolute_append (by decide)]
      rfl
  | false =>
      rw [clean_of_relative hp]
      split
      · rfl
      · exact isAbsolute_intercalate (fun e he => (ne_of_mem_cleanElements he).1)
          fun e he => not_mem_of_mem_cleanElements he

theorem cleanElements_clean (p : String) : cleanElements (clean p) = cleanElements p := by
  have hslash (e : String) (he : e ∈ cleanElements p) := not_mem_of_mem_cleanElements he
  have hcleaned := (cleaned_cleanElements p).foldl_reverse
  rw [List.reverse_reverse] at hcleaned
  rw [cleanElements, isAbsolute_clean]
  cases hp : isAbsolute p with
  | true =>
      rw [clean_of_absolute hp, elements_append, List.foldl_append,
        foldl_elements_intercalate hslash, List.reverse_eq_iff, ← hcleaned, hp]
      rfl
  | false =>
      rw [clean_of_relative hp]
      split
      · next hnil => rw [hnil]; rfl
      · rw [foldl_elements_intercalate hslash, List.reverse_eq_iff, ← hcleaned, hp]

theorem clean_clean (p : String) : clean (clean p) = clean p := by
  rw [clean, cleanElements_clean, isAbsolute_clean, ← clean]

/-- Cleaned paths are told apart by their elements. -/
theorem clean_eq_clean_iff :
    clean p = clean q ↔ isAbsolute p = isAbsolute q ∧ cleanElements p = cleanElements q := by
  constructor
  · intro h
    rw [← isAbsolute_clean p, ← isAbsolute_clean q, ← cleanElements_clean p,
      ← cleanElements_clean q, h]
    exact ⟨rfl, rfl⟩
  · rintro ⟨habsolute, helements⟩
    rw [clean, clean, habsolute, helements]

theorem join_of_ne (hdir : dir ≠ "") (hfile : file ≠ "") :
    join [dir, file] = clean (dir ++ "/" ++ file) := by
  simp [join, hdir, hfile, String.intercalate_cons_cons]

theorem join_empty_left (hfile : file ≠ "") : join ["", file] = clean file := by
  simp [join, hfile]

theorem join_empty_right (hdir : dir ≠ "") : join [dir, ""] = clean dir := by
  simp [join, hdir]

theorem join_of_ne_eq (hdir : dir ≠ "") (file : String) :
    isAbsolute (join [dir, file]) = isAbsolute dir ∧ cleanElements (join [dir, file]) =
      ((elements file).foldl (push (isAbsolute dir)) (cleanElements dir).reverse).reverse := by
  by_cases hfile : file = ""
  · rw [hfile, join_empty_right hdir, isAbsolute_clean, cleanElements_clean]
    exact ⟨rfl, (List.reverse_reverse _).symm⟩
  · have habsolute : isAbsolute (dir ++ "/" ++ file) = isAbsolute dir := by
      rw [String.append_assoc, isAbsolute_append hdir]
    rw [join_of_ne hdir hfile, isAbsolute_clean, cleanElements_clean, habsolute]
    refine ⟨rfl, ?_⟩
    rw [cleanElements, habsolute, elements_append, List.foldl_append, cleanElements,
      List.reverse_reverse]

/-- A path joined to a directory is cleaned on from there. An absolute path that is joined to
nothing stays absolute. -/
theorem join_eq (h : dir ≠ "" ∨ isAbsolute file = false) :
    isAbsolute (join [dir, file]) = isAbsolute dir ∧ cleanElements (join [dir, file]) =
      ((elements file).foldl (push (isAbsolute dir)) (cleanElements dir).reverse).reverse := by
  by_cases hdir : dir = ""
  · have hrelative := h.resolve_left fun hne => hne hdir
    subst hdir
    by_cases hfile : file = ""
    · subst hfile
      decide
    · rw [join_empty_left hfile, isAbsolute_clean, cleanElements_clean, hrelative, cleanElements,
        hrelative]
      exact ⟨rfl, rfl⟩
  · exact join_of_ne_eq hdir file

/-- What is joined is cleaned, unless there is nothing to join. -/
theorem clean_join (parts : List String) : join parts = "" ∨ clean (join parts) = join parts := by
  rw [join]
  split
  · exact .inl rfl
  · exact .inr (clean_clean _)

/-- A path leads to something below a directory. -/
def Below (dir p : String) : Prop :=
  isAbsolute p = isAbsolute dir ∧
    ∃ inner, inner ≠ [] ∧ ".." ∉ inner ∧ cleanElements p = cleanElements dir ++ inner

/-- The elements by which a path leads on from a directory. -/
def descent (p : String) : List String := ((elements p).foldl (push false) []).reverse

/-- A path that leads to something below the directory it is joined to, and does not leave the
directory on its way. -/
def Descends (p : String) : Prop := descent p ≠ [] ∧ ".." ∉ descent p

/-- A path that leads to something below a directory once it is joined to it. -/
def StaysBelow (dir file : String) : Prop :=
  Descends file ∧ (dir ≠ "" ∨ isAbsolute file = false)

theorem mem_push_up {element : String} (h : ".." ∈ done) : ".." ∈ push rooted done element := by
  by_cases htrivial : element = "" ∨ element = "."
  · rwa [push_trivial htrivial]
  · obtain ⟨hempty, hdot⟩ := not_or.1 htrivial
    by_cases hup : element = ".."
    · rw [hup, push_up]
      cases done with
      | nil => cases h
      | cons last rest =>
          by_cases hlast : last = ".."
          · simp [hlast]
          · simpa [hlast, eq_comm] using h
    · rw [push_name hempty hdot hup]
      exact List.mem_cons_of_mem _ h

theorem mem_foldl_up {es : List String} (h : ".." ∈ done) : ".." ∈ es.foldl (push rooted) done := by
  induction es generalizing done with
  | nil => exact h
  | cons e es ih => exact ih (mem_push_up h)

/-- Where nothing is climbed out of, the elements before do not matter. -/
theorem foldl_push_append {es added : List String} (hadded : ".." ∉ es.foldl (push false) added)
    (done : List String) :
    es.foldl (push rooted) (added ++ done) = es.foldl (push false) added ++ done := by
  induction es generalizing added with
  | nil => rfl
  | cons e es ih =>
      rw [List.foldl_cons] at hadded
      have hpushed : ".." ∉ push false added e := fun hmem => hadded (mem_foldl_up hmem)
      have hbefore : ".." ∉ added := fun hmem => hpushed (mem_push_up hmem)
      suffices hstep : push rooted (added ++ done) e = push false added e ++ done by
        rw [List.foldl_cons, List.foldl_cons, hstep, ih hadded]
      by_cases htrivial : e = "" ∨ e = "."
      · rw [push_trivial htrivial, push_trivial htrivial]
      · obtain ⟨hempty, hdot⟩ := not_or.1 htrivial
        by_cases hup : e = ".."
        · subst hup
          cases added with
          | nil => exact absurd List.mem_cons_self hpushed
          | cons last rest =>
              have hlast : last ≠ ".." := fun heq => hbefore (heq ▸ List.mem_cons_self)
              rw [List.cons_append, push_up, push_up]
              simp [hlast]
        · rw [push_name hempty hdot hup, push_name hempty hdot hup, List.cons_append]

/-- A path that does not leave the directory it is joined to leads on from it. -/
theorem cleanElements_join (h : dir ≠ "" ∨ isAbsolute file = false) (hup : ".." ∉ descent file) :
    cleanElements (join [dir, file]) = cleanElements dir ++ descent file := by
  rw [descent, List.mem_reverse] at hup
  have hfold : (elements file).foldl (push (isAbsolute dir))
      ([] ++ (cleanElements dir).reverse) = _ :=
    foldl_push_append hup _
  rw [List.nil_append] at hfold
  rw [(join_eq h).2, hfold, List.reverse_append, List.reverse_reverse, descent]

theorem below_join (h : StaysBelow dir file) : Below dir (join [dir, file]) :=
  ⟨(join_eq h.2).1, descent file, h.1.1, h.1.2, cleanElements_join h.2 h.1.2⟩

theorem Below.cleanElements_ne_nil (h : Below dir p) : cleanElements p ≠ [] := by
  obtain ⟨_, inner, hinner, _, helements⟩ := h
  rw [helements]
  exact fun hnil => hinner (List.append_eq_nil_iff.1 hnil).2

/-- What is below a directory is neither the present directory nor the one above it. -/
theorem Below.clean_ne (h : Below dir p) : clean p ≠ "." ∧ clean p ≠ ".." := by
  refine ⟨fun hdot => ?_, fun hup => ?_⟩
  · have helements := cleanElements_clean p
    rw [hdot] at helements
    exact h.cleanElements_ne_nil helements.symm
  · have hlast : cleanElements p = [".."] := by
      rw [← cleanElements_clean p, hup]
      rfl
    obtain ⟨_, inner, hinner, hnot, helements⟩ := h
    rw [hlast] at helements
    obtain ⟨_, heq⟩ | ⟨_, heq⟩ := List.append_eq_singleton_iff.1 helements.symm
    · exact hnot (heq ▸ List.mem_singleton_self _)
    · exact hinner heq

theorem Below.of_clean_eq (h : Below dir q) (hclean : clean p = clean q) : Below dir p := by
  obtain ⟨habsolute, helements⟩ := clean_eq_clean_iff.1 hclean
  obtain ⟨habsolute', inner, hinner, hup, helements'⟩ := h
  exact ⟨habsolute.trans habsolute', inner, hinner, hup, helements.trans helements'⟩

/-- Clean relative paths that lead down are told apart by where they lead from a directory. -/
theorem eq_of_cleanElements_join (hp : isAbsolute p = false ∧ clean p = p ∧ Descends p)
    (hq : isAbsolute q = false ∧ clean q = q ∧ Descends q)
    (h : cleanElements (join [dir, p]) = cleanElements (join [dir, q])) : p = q := by
  obtain ⟨hprelative, hpclean, hpdown⟩ := hp
  obtain ⟨hqrelative, hqclean, hqdown⟩ := hq
  rw [cleanElements_join (.inr hprelative) hpdown.2, cleanElements_join (.inr hqrelative) hqdown.2,
    List.append_cancel_left_eq] at h
  rw [← hpclean, ← hqclean, clean_eq_clean_iff, cleanElements, cleanElements, hprelative,
    hqrelative]
  exact ⟨rfl, h⟩

section

/-- What a directory can have as the name of an entry. -/
structure IsName (name : String) : Prop where
  nonempty : name ≠ ""
  not_here : name ≠ "."
  not_up : name ≠ ".."
  no_slash : '/' ∉ name.toList

instance (name : String) : Decidable (IsName name) :=
  decidable_of_iff (name ≠ "" ∧ name ≠ "." ∧ name ≠ ".." ∧ '/' ∉ name.toList)
    ⟨fun ⟨hempty, hdot, hup, hslash⟩ => ⟨hempty, hdot, hup, hslash⟩,
      fun h => ⟨h.nonempty, h.not_here, h.not_up, h.no_slash⟩⟩

variable {name : String} {es : List String}

/-- Names lead down by themselves. -/
theorem foldl_push_names {rooted : Bool} {done names : List String}
    (h : ∀ name ∈ names, IsName name) :
    names.foldl (push rooted) done = names.reverse ++ done := by
  induction names generalizing done with
  | nil => rfl
  | cons name names ih =>
      obtain ⟨hname, hnames⟩ := List.forall_mem_cons.1 h
      rw [List.foldl_cons, push_name hname.nonempty hname.not_here hname.not_up, ih hnames,
        List.reverse_cons, List.append_assoc, List.singleton_append]

/-- A path that is made of names. -/
def spell (names : List String) : String := "/".intercalate names

theorem isAbsolute_spell (h : ∀ name ∈ es, IsName name) : isAbsolute (spell es) = false :=
  isAbsolute_intercalate (fun e he => (h e he).nonempty) fun e he => (h e he).no_slash

theorem descent_spell (h : ∀ name ∈ es, IsName name) : descent (spell es) = es := by
  rw [descent, spell, foldl_elements_intercalate fun e he => (h e he).no_slash, foldl_push_names h,
    List.append_nil, List.reverse_reverse]

theorem spell_inj {es es' : List String} (h : ∀ name ∈ es, IsName name)
    (h' : ∀ name ∈ es', IsName name) (heq : spell es = spell es') : es = es' := by
  rw [← descent_spell h, ← descent_spell h', heq]

/-- A path of names that is joined to a directory leads on from it by these names. -/
theorem join_spell (dir : String) (h : ∀ name ∈ es, IsName name) :
    isAbsolute (join [dir, spell es]) = isAbsolute dir ∧
      cleanElements (join [dir, spell es]) = cleanElements dir ++ es := by
  have hrelative := isAbsolute_spell h
  refine ⟨(join_eq (.inr hrelative)).1, ?_⟩
  rw [cleanElements_join (.inr hrelative), descent_spell h]
  rw [descent_spell h]
  exact fun hup => (h _ hup).not_up rfl

theorem join_name (dir : String) (h : IsName name) :
    isAbsolute (join [dir, name]) = isAbsolute dir ∧
      cleanElements (join [dir, name]) = cleanElements dir ++ [name] := by
  have hnames : ∀ x ∈ [name], IsName x := by simpa using h
  have hone := join_spell dir hnames
  rwa [spell, String.intercalate_singleton] at hone

theorem elements_clean (h : cleanElements p ≠ []) :
    elements (clean p) = (if isAbsolute p then [""] else []) ++ cleanElements p := by
  have hjoined : elements ("/".intercalate (cleanElements p)) = cleanElements p :=
    elements_intercalate h fun e he => not_mem_of_mem_cleanElements he
  cases hp : isAbsolute p with
  | true =>
      rw [clean_of_absolute hp, elements_append, hjoined]
      rfl
  | false => rw [clean_of_relative hp, if_neg h, hjoined]; rfl

theorem base_clean (h : cleanElements p = es ++ [name]) : base (clean p) = name := by
  have hne : cleanElements p ≠ [] := h ▸ List.concat_ne_nil name es
  have hname : name ≠ "" :=
    (ne_of_mem_cleanElements (h ▸ List.mem_append_right es List.mem_cons_self)).1
  have helements := elements_clean hne
  rw [h, ← List.append_assoc] at helements
  have hclean : clean p ≠ "" := by
    intro hempty
    have hlast := congrArg List.getLast? helements
    rw [hempty, List.getLast?_concat] at hlast
    exact hname (Option.some.inj hlast).symm
  rw [base, if_neg hclean, helements]
  simp [hname]

/-- The elements before the last one. -/
theorem Cleaned.of_snoc {rooted : Bool} (h : Cleaned rooted (es ++ [name]).reverse) :
    Cleaned rooted es.reverse := by
  rw [List.reverse_concat] at h
  cases h with
  | climb _ _ h => exact h
  | name _ _ _ h => exact h

theorem isAbsolute_before_slash (hnonempty : ∀ e ∈ es, e ≠ "") (hslash : ∀ e ∈ es, '/' ∉ e.toList) :
    isAbsolute ("/".intercalate (es ++ [""])) = false := by
  cases es with
  | nil => rfl
  | cons e es =>
      have he := isAbsolute_intercalate hnonempty hslash
      rw [String.intercalate_append_of_ne_nil (List.cons_ne_nil e es) (List.cons_ne_nil _ _),
        String.append_assoc, isAbsolute_append, he]
      rw [ne_eq, intercalate_eq_empty_iff hnonempty]
      exact List.cons_ne_nil e es

/-- The directory of a cleaned path has all its elements but the last one. -/
theorem directory_clean (h : cleanElements p = es ++ [name]) :
    isAbsolute (directory (clean p)) = isAbsolute p ∧ cleanElements (directory (clean p)) = es := by
  have hne : cleanElements p ≠ [] := h ▸ List.concat_ne_nil name es
  have hmem : ∀ e ∈ es, e ∈ cleanElements p := fun e he => h ▸ List.mem_append_left _ he
  have hnonempty : ∀ e ∈ es, e ≠ "" := fun e he => (ne_of_mem_cleanElements (hmem e he)).1
  have hslash : ∀ e ∈ es, '/' ∉ e.toList := fun e he => not_mem_of_mem_cleanElements (hmem e he)
  have hcleaned : Cleaned (isAbsolute p) es.reverse := .of_snoc (h ▸ cleaned_cleanElements p)
  have hfold : (es ++ [""]).foldl (push (isAbsolute p)) [] = es.reverse := by
    rw [List.foldl_concat, push_trivial (.inl rfl)]
    simpa using hcleaned.foldl_reverse
  have hparts : ∀ e ∈ es ++ [""], '/' ∉ e.toList :=
    List.forall_mem_append.2 ⟨hslash, by decide⟩
  rw [directory, elements_clean hne, h, ← List.append_assoc, List.dropLast_concat, isAbsolute_clean,
    cleanElements_clean, cleanElements]
  cases hp : isAbsolute p with
  | false =>
      have hrelative := isAbsolute_before_slash hnonempty hslash
      rw [hp] at hfold
      simp only [Bool.false_eq_true, if_false, List.nil_append]
      rw [hrelative, foldl_elements_intercalate hparts, hfold, List.reverse_reverse]
      exact ⟨rfl, rfl⟩
  | true =>
      have habsolute : "/".intercalate ([""] ++ es ++ [""]) =
          "" ++ "/" ++ "/".intercalate (es ++ [""]) := by
        rw [List.append_assoc]
        exact String.intercalate_cons_of_ne_nil (List.concat_ne_nil _ _)
      have hrooted : isAbsolute ("" ++ "/" ++ "/".intercalate (es ++ [""])) = true := by
        rw [String.empty_append, isAbsolute_append (by decide)]
        rfl
      rw [hp] at hfold
      simp only [if_true]
      rw [habsolute, hrooted, elements_append, List.foldl_append, foldl_elements_intercalate hparts]
      exact ⟨rfl, (congrArg List.reverse hfold).trans (List.reverse_reverse es)⟩

theorem length_splitChars_le (sep : Char) (cs : List Char) :
    (splitChars sep cs).length ≤ cs.length + 1 := by
  induction cs with
  | nil => exact Nat.le_refl 1
  | cons c cs ih =>
      rw [splitChars]
      split
      · exact Nat.le_add_left _ _
      · next piece pieces hpieces =>
          rw [hpieces, List.length_cons] at ih
          split <;> simp only [List.length_cons] <;> omega

theorem length_push_le (rooted : Bool) (done : List String) (e : String) :
    (push rooted done e).length ≤ done.length + 1 := by
  rw [push.eq_def]
  split
  · exact Nat.le_succ _
  · split
    · cases done with
      | nil => cases rooted <;> decide
      | cons last rest => dsimp only; split <;> simp only [List.length_cons] <;> omega
    · exact Nat.le_refl _

theorem length_foldl_push_le (rooted : Bool) (done es : List String) :
    (es.foldl (push rooted) done).length ≤ done.length + es.length := by
  induction es generalizing done with
  | nil => exact Nat.le_refl _
  | cons e es ih =>
      have hrest := ih (push rooted done e)
      have hone := length_push_le rooted done e
      rw [List.foldl_cons, List.length_cons]
      omega

theorem length_cleanElements_le (p : String) : (cleanElements p).length ≤ p.length + 1 := by
  have hfold := length_foldl_push_le (isAbsolute p) [] (elements p)
  have hpieces := length_splitChars_le '/' p.toList
  rw [elements, split, List.length_map, List.length_nil] at hfold
  rw [String.length_toList] at hpieces
  rw [cleanElements, List.length_reverse, elements, split]
  omega

end

end Path
end Text
end ScriptWeave
