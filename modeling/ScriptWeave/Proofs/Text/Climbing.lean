import Mathlib.Data.List.Induction
import ScriptWeave.Proofs.Text.Path

/-!
Where relative paths lead. A cleaned relative path climbs so many directories and goes on by names.
From an absolute directory it leads up as many levels as it climbs, though not beyond the top, and
from there down by its names.
-/

namespace ScriptWeave
namespace Text
namespace Path

variable {p q dir : String} {done es : List String}

/-- How many directories a cleaned path climbs. -/
def climbs (p : String) : Nat := (cleanElements p).count ".."

/-- The names by which a cleaned path goes on. -/
def onward (p : String) : List String := (cleanElements p).filter (· ≠ "..")

/-- An absolute path by its elements. -/
def rooted (es : List String) : String := "/" ++ "/".intercalate es

/-- The directory so many levels above an absolute one. There is nothing above the top. -/
def up (dir : String) (k : Nat) : String :=
  rooted ((cleanElements dir).take ((cleanElements dir).length - k))

theorem Cleaned.split {isRooted : Bool} (h : Cleaned isRooted done) : done.reverse =
    List.replicate (done.count "..") ".." ++ (done.reverse.filter (· ≠ "..")) := by
  induction h with
  | nil => rfl
  | @climb done _ hdone h ih =>
      have hall : ∀ e ∈ done, e = ".." := by
        clear ih
        induction h with
        | nil => simp
        | climb _ hbelow _ ih => exact List.forall_mem_cons.2 ⟨rfl, ih hbelow⟩
        | name _ _ hup _ _ => exact absurd (hdone _ rfl) hup
      have hdone' : done = List.replicate done.length ".." := List.eq_replicate_of_mem hall
      rw [hdone']
      simp [← List.replicate_succ']
  | name _ _ hup _ ih =>
      rw [List.reverse_cons, List.count_cons_of_ne hup, List.filter_append, ← List.append_assoc,
        ← ih]
      simp [hup]

theorem cleanElements_eq (p : String) :
    cleanElements p = List.replicate (climbs p) ".." ++ onward p := by
  have hsplit := (cleaned_cleanElements p).split
  rwa [List.reverse_reverse, List.count_reverse] at hsplit

theorem not_up_of_rooted (h : Cleaned true done) : ".." ∉ done := by
  generalize hr : true = isRooted at h
  induction h with
  | nil => exact List.not_mem_nil
  | climb hrooted => rw [hrooted] at hr; cases hr
  | name _ _ hup _ ih => exact List.not_mem_cons_of_ne_of_not_mem (Ne.symm hup) ih

theorem climbs_of_absolute (h : isAbsolute p = true) : climbs p = 0 := by
  have hcleaned := cleaned_cleanElements p
  rw [h] at hcleaned
  exact List.count_eq_zero.2 fun hmem => not_up_of_rooted hcleaned (List.mem_reverse.2 hmem)

theorem isName_of_mem_onward {name : String} (h : name ∈ onward p) : IsName name := by
  obtain ⟨hmem, hup⟩ := List.mem_filter.1 h
  obtain ⟨hempty, hdot⟩ := ne_of_mem_cleanElements hmem
  exact ⟨hempty, hdot, of_decide_eq_true hup, not_mem_of_mem_cleanElements hmem⟩

/-- One more element leads to the same place before and after cleaning. -/
theorem foldl_push_push (h : Cleaned false done) (start : List String) (e : String) :
    push true (done.reverse.foldl (push true) start) e =
      (push false done e).reverse.foldl (push true) start := by
  by_cases htrivial : e = "" ∨ e = "."
  · rw [push_trivial htrivial, push_trivial htrivial]
  · obtain ⟨hempty, hdot⟩ := not_or.1 htrivial
    by_cases hup : e = ".."
    · subst hup
      rw [@push_up false done]
      cases h with
      | nil => rfl
      | climb _ _ _ => simp [List.foldl_append]
      | name hempty hdot hup _ =>
          rw [List.reverse_cons, List.foldl_append, List.foldl_cons, List.foldl_nil,
            push_name hempty hdot hup, push_up]
          simp [hup]
    · rw [@push_name false done e hempty hdot hup, List.reverse_cons, List.foldl_append]
      rfl

/-- A path leads from a directory to where its cleaned elements lead. -/
theorem foldl_push_cleaned (start es : List String) :
    es.foldl (push true) start = (es.foldl (push false) []).reverse.foldl (push true) start := by
  induction es using List.reverseRecOn with
  | nil => rfl
  | append_singleton es e ih =>
      rw [List.foldl_append, List.foldl_append, ih]
      exact foldl_push_push (cleaned_foldl .nil es) start e

theorem foldl_push_climb (h : ".." ∉ done) (n : Nat) :
    (List.replicate n "..").foldl (push true) done = done.drop n := by
  induction n generalizing done with
  | zero => rfl
  | succ n ih =>
      rw [List.replicate_succ, List.foldl_cons, push_up]
      cases done with
      | nil => rw [List.drop_nil]; exact (ih List.not_mem_nil).trans List.drop_nil
      | cons last rest =>
          obtain ⟨hlast, hrest⟩ := List.ne_and_not_mem_of_not_mem_cons h
          dsimp only
          rw [if_neg (Ne.symm hlast), ih hrest, List.drop_succ_cons]

theorem isAbsolute_rooted (es : List String) : isAbsolute (rooted es) = true := by
  rw [rooted, isAbsolute_append (by decide)]
  rfl

theorem cleanElements_rooted (h : ∀ name ∈ es, IsName name) : cleanElements (rooted es) = es := by
  have helements : elements (rooted es) = elements "" ++ elements ("/".intercalate es) := by
    rw [← elements_append, String.empty_append, rooted]
  rw [cleanElements, isAbsolute_rooted, helements, List.foldl_append,
    foldl_elements_intercalate fun e he => (h e he).no_slash, foldl_push_names h]
  exact (congrArg List.reverse (List.append_nil _)).trans (List.reverse_reverse es)

theorem clean_eq_rooted (h : isAbsolute p = true) : clean p = rooted (cleanElements p) := by
  rw [clean_of_absolute h, String.empty_append, rooted]

theorem rooted_inj {es es' : List String} (h : ∀ name ∈ es, IsName name)
    (h' : ∀ name ∈ es', IsName name) : rooted es = rooted es' ↔ es = es' := by
  refine ⟨fun heq => ?_, congrArg rooted⟩
  rw [← cleanElements_rooted h, ← cleanElements_rooted h', heq]

theorem isName_of_mem_cleanElements {name : String} (hp : isAbsolute p = true)
    (h : name ∈ cleanElements p) : IsName name := by
  rw [cleanElements_eq, climbs_of_absolute hp] at h
  exact isName_of_mem_onward h

/-- The directory of an absolute path has all its elements but the last one. -/
theorem directory_eq_rooted {name : String} (hp : isAbsolute p = true)
    (h : cleanElements p = es ++ [name]) : directory (clean p) = rooted es := by
  obtain ⟨habsolute, helements⟩ := directory_clean h
  have hclean : clean (directory (clean p)) = directory (clean p) := clean_clean _
  rw [← hclean, clean_eq_rooted (habsolute.trans hp), helements]

/-- A path whose last element is a name goes on by that name. -/
theorem exists_onward_of_last {e : String} (hlast : (elements p).getLastD "" = e) (hempty : e ≠ "")
    (hdot : e ≠ ".") (hup : e ≠ "..") : ∃ es, onward p = es ++ [e] := by
  obtain hnil | ⟨init, last, helements⟩ := List.eq_nil_or_concat' (elements p)
  · rw [hnil] at hlast
    exact absurd hlast.symm hempty
  · obtain rfl : last = e := by simpa [helements] using hlast
    rw [onward, cleanElements, helements, List.foldl_concat, push_name hempty hdot hup,
      List.reverse_cons, List.filter_append]
    exact ⟨_, congrArg _ (List.filter_cons_of_pos (decide_eq_true hup))⟩

section

variable (hdir : isAbsolute dir = true)
include hdir

theorem cleanElements_up (k : Nat) :
    cleanElements (up dir k) = (cleanElements dir).take ((cleanElements dir).length - k) :=
  cleanElements_rooted fun _ hname => isName_of_mem_cleanElements hdir (List.mem_of_mem_take hname)

theorem up_zero : up dir 0 = clean dir := by
  rw [up, Nat.sub_zero, List.take_length, clean_eq_rooted hdir]

theorem directory_up (k : Nat) : directory (up dir k) = up dir (k + 1) := by
  have habsolute : isAbsolute (up dir k) = true := isAbsolute_rooted _
  have hclean : clean (up dir k) = up dir k := by
    rw [clean_eq_rooted habsolute, cleanElements_up hdir, up]
  have helements := cleanElements_up hdir k
  by_cases hk : k < (cleanElements dir).length
  · obtain ⟨n, hn⟩ : ∃ n, (cleanElements dir).length - k = n + 1 :=
      ⟨_, (Nat.sub_one_add_one (by omega)).symm⟩
    have hlt : n < (cleanElements dir).length := by omega
    rw [hn, List.take_succ_eq_append_getElem hlt] at helements
    rw [← hclean, directory_eq_rooted habsolute helements, up, show _ - (k + 1) = n by omega]
  · have htop {j : Nat} (hj : k ≤ j) : up dir j = "/" := by
      rw [up, show (cleanElements dir).length - j = 0 by omega]
      rfl
    rw [htop (Nat.le_refl k), htop (Nat.le_succ k)]
    decide

/-- Where a level more leads nowhere else, so do all others. -/
theorem up_add_of_up_succ {k : Nat} (h : up dir (k + 1) = up dir k) (j : Nat) :
    up dir (k + j) = up dir k := by
  have hlength := congrArg (fun path => (cleanElements path).length) h
  simp only [cleanElements_up hdir, List.length_take] at hlength
  rw [up, up, show (cleanElements dir).length - (k + j) = (cleanElements dir).length - k by omega]

theorem up_eq_iff (hq : isAbsolute q = true) (k j : Nat) :
    up dir k = up q j ↔ cleanElements (up dir k) = cleanElements (up q j) := by
  rw [cleanElements_up hdir, cleanElements_up hq]
  refine rooted_inj (fun name hname => ?_) fun name hname => ?_
  · exact isName_of_mem_cleanElements hdir (List.mem_of_mem_take hname)
  · exact isName_of_mem_cleanElements hq (List.mem_of_mem_take hname)

/-- A relative path leads up from an absolute directory and then down. -/
theorem cleanElements_join_relative (hp : isAbsolute p = false) :
    cleanElements (join [dir, p]) = cleanElements (up dir (climbs p)) ++ onward p := by
  have hup := not_up_of_rooted (hdir ▸ cleaned_cleanElements dir)
  have helements : (elements p).foldl (push false) [] = (cleanElements p).reverse := by
    rw [cleanElements, hp, List.reverse_reverse]
  rw [(join_eq (.inr hp)).2, hdir, foldl_push_cleaned, helements, List.reverse_reverse,
    cleanElements_eq p, List.foldl_append, foldl_push_climb hup,
    foldl_push_names fun name => isName_of_mem_onward, List.reverse_append, List.reverse_reverse,
    List.drop_reverse, List.reverse_reverse, cleanElements_up hdir]

theorem isAbsolute_join (p : String) : isAbsolute (join [dir, p]) = true := by
  have hne : dir ≠ "" := by
    rintro rfl
    exact absurd hdir (by decide)
  exact (join_eq (.inl hne)).1.trans hdir

theorem clean_join_of_absolute (p : String) : clean (join [dir, p]) = join [dir, p] := by
  refine (clean_join [dir, p]).resolve_left fun hempty => ?_
  have habsolute := isAbsolute_join hdir p
  rw [hempty] at habsolute
  exact absurd habsolute (by decide)

theorem directory_join_name {name : String} (hname : IsName name) :
    directory (join [dir, name]) = clean dir := by
  rw [← clean_join_of_absolute hdir,
    directory_eq_rooted (isAbsolute_join hdir name) (join_name dir hname).2, clean_eq_rooted hdir]

/-- A relative path that goes on by a name leads into the same directory from two directories
exactly if the same directory is as many levels above them as it climbs. -/
theorem directory_join_eq_iff {dir' : String} (hdir' : isAbsolute dir' = true)
    (hp : isAbsolute p = false) {name : String} (hlast : onward p = es ++ [name]) :
    directory (join [dir, p]) = directory (join [dir', p]) ↔
      up dir (climbs p) = up dir' (climbs p) := by
  have hdirectory {q : String} (hq : isAbsolute q = true) :
      directory (join [q, p]) = rooted (cleanElements (up q (climbs p)) ++ es) := by
    have helements := cleanElements_join_relative hq hp
    rw [hlast, ← List.append_assoc] at helements
    rw [← clean_join_of_absolute hq, directory_eq_rooted (isAbsolute_join hq p) helements]
  have hnames {q : String} : ∀ e ∈ cleanElements (up q (climbs p)) ++ es, IsName e :=
    List.forall_mem_append.2 ⟨fun e he => isName_of_mem_cleanElements (isAbsolute_rooted _) he,
      fun e he => isName_of_mem_onward (hlast ▸ List.mem_append_left [name] he)⟩
  rw [hdirectory hdir, hdirectory hdir', rooted_inj hnames hnames, List.append_cancel_right_eq,
    up_eq_iff hdir hdir']

theorem clean_eq_top_iff : clean dir = "/" ↔ cleanElements dir = [] := by
  have htop : "/" = clean "/" := by decide
  rw [htop, clean_eq_clean_iff, hdir]
  exact and_iff_right rfl

end

end Path
end Text
end ScriptWeave
