import Mathlib.Data.List.TakeWhile
import Mathlib.Data.String.Basic
import ScriptWeave.Web.Route

/-!
How route paths are split. The parts of a path are told by a relation between parts and text; the
splitter gives the only parts that stand in it, so nothing of a path is lost and no path can be read
in two ways.
-/

namespace ScriptWeave

namespace RoutePart

/-- Parts cut a text: static text up to the next brace, names between braces, and static text from a
brace on that is never closed. -/
inductive Cuts : List RoutePart → List Char → Prop where
  | nil : Cuts [] []
  | fixed {text rest : List Char} {parts : List RoutePart} (hne : text ≠ []) (hopen : '{' ∉ text)
      (hnext : rest = [] ∨ rest.head? = some '{') (hrest : Cuts parts rest) :
      Cuts (static (String.ofList text) :: parts) (text ++ rest)
  | named {name rest : List Char} {parts : List RoutePart} (hclose : '}' ∉ name)
      (hrest : Cuts parts rest) : Cuts (named name :: parts) ('{' :: (name ++ '}' :: rest))
  | unclosed {text : List Char} (hclose : '}' ∉ text) :
      Cuts [static (String.ofList ('{' :: text))] ('{' :: text)

section

variable {c stop : Char} {cs name text rest : List Char} {parts : List RoutePart}

theorem not_mem_takeWhile (stop : Char) (cs : List Char) : stop ∉ cs.takeWhile (· ≠ stop) := by
  intro hmem
  simpa using List.mem_takeWhile_imp hmem

theorem dropWhile_ne_eq_nil_iff : cs.dropWhile (· ≠ stop) = [] ↔ stop ∉ cs := by
  rw [List.dropWhile_eq_nil_iff]
  constructor
  · intro h hmem
    simpa using h stop hmem
  · intro h c hc
    exact decide_eq_true (by rintro rfl; exact h hc)

theorem head_of_dropWhile_ne (h : cs.dropWhile (· ≠ stop) = c :: rest) : c = stop := by
  have hstops := List.head?_dropWhile_not (· ≠ stop) cs
  rw [h] at hstops
  simpa using hstops

/-- What stands in front of the first stop, and what stands behind it. -/
theorem takeWhile_append_stop (h : stop ∉ text) (rest : List Char) :
    (text ++ stop :: rest).takeWhile (· ≠ stop) = text ∧
      (text ++ stop :: rest).dropWhile (· ≠ stop) = stop :: rest := by
  have hall : ∀ c ∈ text, decide (c ≠ stop) = true := fun c hc =>
    decide_eq_true (by rintro rfl; exact h hc)
  rw [List.takeWhile_append_of_pos hall, List.dropWhile_append_of_pos hall]
  simp

theorem ofChars_unclosed (h : '}' ∉ cs) :
    ofChars ('{' :: cs) = [static (String.ofList ('{' :: cs))] := by
  rw [ofChars, if_pos rfl]
  split
  · rfl
  · next hdrop => rw [dropWhile_ne_eq_nil_iff.2 h] at hdrop; cases hdrop

theorem ofChars_named (h : '}' ∉ name) :
    ofChars ('{' :: (name ++ '}' :: rest)) = named name :: ofChars rest := by
  obtain ⟨htake, hdrop⟩ := takeWhile_append_stop h rest
  rw [ofChars, if_pos rfl]
  split
  · next hnil => rw [hdrop] at hnil; cases hnil
  · next hcons =>
      rw [hdrop] at hcons
      cases hcons
      rw [htake]

theorem ofChars_static (hne : text ≠ []) (hopen : '{' ∉ text)
    (hnext : rest = [] ∨ rest.head? = some '{') :
    ofChars (text ++ rest) = static (String.ofList text) :: ofChars rest := by
  cases text with
  | nil => exact absurd rfl hne
  | cons c text =>
      obtain ⟨hc, hopen⟩ := List.ne_and_not_mem_of_not_mem_cons hopen
      have hsplit : (text ++ rest).takeWhile (· ≠ '{') = text ∧
          (text ++ rest).dropWhile (· ≠ '{') = rest := by
        cases rest with
        | nil =>
            rw [List.append_nil, dropWhile_ne_eq_nil_iff.2 hopen]
            refine ⟨List.takeWhile_eq_self_iff.2 fun c hc => ?_, rfl⟩
            exact decide_eq_true (by rintro rfl; exact hopen hc)
        | cons d rest =>
            obtain rfl : d = '{' := by simpa using hnext
            exact takeWhile_append_stop hopen _
      rw [List.cons_append, ofChars, if_neg (Ne.symm hc), hsplit.1, hsplit.2]

/-- The splitter cuts its text. -/
theorem cuts_ofChars (cs : List Char) : Cuts (ofChars cs) cs := by
  fun_induction ofChars cs with
  | case1 => exact .nil
  | case2 cs hdrop => exact .unclosed (dropWhile_ne_eq_nil_iff.1 hdrop)
  | case3 cs close rest hdrop ih =>
      obtain rfl := head_of_dropWhile_ne hdrop
      have hcs := List.takeWhile_append_dropWhile (p := (· ≠ '}')) (l := cs)
      rw [hdrop] at hcs
      have hcut := Cuts.named (not_mem_takeWhile '}' cs) ih
      rwa [hcs] at hcut
  | case4 c cs hc ih =>
      have hcs := List.takeWhile_append_dropWhile (p := (· ≠ '{')) (l := cs)
      have hopen : '{' ∉ c :: cs.takeWhile (· ≠ '{') :=
        List.not_mem_cons_of_ne_of_not_mem (Ne.symm hc) (not_mem_takeWhile '{' cs)
      have hnext : cs.dropWhile (· ≠ '{') = [] ∨ (cs.dropWhile (· ≠ '{')).head? = some '{' := by
        cases hdrop : cs.dropWhile (· ≠ '{') with
        | nil => exact .inl rfl
        | cons d rest => exact .inr (congrArg some (head_of_dropWhile_ne hdrop))
      have hcut := Cuts.fixed (List.cons_ne_nil _ _) hopen hnext ih
      rwa [List.cons_append, hcs] at hcut

/-- A text is cut in one way only. -/
theorem ofChars_eq_iff : ofChars cs = parts ↔ Cuts parts cs := by
  refine ⟨fun h => h ▸ cuts_ofChars cs, fun h => ?_⟩
  induction h with
  | nil => rw [ofChars]
  | fixed hne hopen hnext _ ih => rw [ofChars_static hne hopen hnext, ih]
  | named hclose _ ih => rw [ofChars_named hclose, ih]
  | unclosed hclose => exact ofChars_unclosed hclose

theorem toList_render_named (name : List Char) :
    (named name).render.toList = '{' :: (name ++ ['}']) := by
  rw [RoutePart.named]
  split
  · next hstar => rw [hstar]; rfl
  · simp [render]

theorem Cuts.render (h : Cuts parts cs) : Route.render parts = String.ofList cs := by
  induction h with
  | nil => rfl
  | fixed _ _ _ _ ih =>
      rw [Route.render] at ih ⊢
      rw [List.map_cons, String.join_cons, ih, RoutePart.render, String.ofList_append]
  | @named name _ _ _ _ ih =>
      rw [Route.render] at ih ⊢
      rw [List.map_cons, String.join_cons, ih, ← String.toList_inj]
      simp [toList_render_named]
  | unclosed _ => simp [Route.render, RoutePart.render]

theorem Cuts.not_mem_parameter (h : Cuts parts cs) {name : String}
    (hname : parameter name ∈ parts) : '}' ∉ name.toList := by
  induction h with
  | nil => cases hname
  | fixed _ _ _ _ ih =>
      obtain heq | hmem := List.mem_cons.1 hname
      · cases heq
      · exact ih hmem
  | named hclose _ ih =>
      obtain heq | hmem := List.mem_cons.1 hname
      · rw [RoutePart.named] at heq
        split at heq
        · cases heq
        · cases heq
          rwa [String.toList_ofList]
      · exact ih hmem
  | unclosed _ => simp at hname

/-- Of static text, only the end of a path has an opening brace, which is then the first of all that
are left and is never closed. -/
theorem Cuts.open_static (h : Cuts parts cs) {front back : List RoutePart} {text : String}
    (hparts : parts = front ++ static text :: back) (hopen : '{' ∈ text.toList) :
    back = [] ∧ ∃ rest, text.toList = '{' :: rest ∧ '}' ∉ rest := by
  induction h generalizing front with
  | nil => exact absurd hparts (by simp)
  | fixed _ hclosed _ _ ih =>
      cases front with
      | nil =>
          cases hparts
          rw [String.toList_ofList] at hopen
          exact absurd hopen hclosed
      | cons part front => exact ih (List.cons.inj hparts).2
  | named hclose _ ih =>
      cases front with
      | nil =>
          rw [List.nil_append, RoutePart.named] at hparts
          split at hparts <;> cases hparts
      | cons part front => exact ih (List.cons.inj hparts).2
  | @unclosed rest hclose =>
      cases front with
      | nil =>
          cases hparts
          exact ⟨rfl, rest, String.toList_ofList, hclose⟩
      | cons part front => exact absurd (List.cons.inj hparts).2 (by simp)

end

end RoutePart

namespace Route

open RoutePart

/-- A path has its parts exactly if they cut it. -/
theorem ofText_eq_iff {path : String} {r : Route} : ofText path = r ↔ Cuts r path.toList :=
  ofChars_eq_iff

/-- Splitting a path loses nothing: written back, its parts give the path. The names of parameters
have no closing braces, and static text has an opening brace only at the end of a path, from a brace
on that is never closed. -/
theorem ofText_lossless (path : String) :
    (ofText path).render = path ∧
      (∀ name, .parameter name ∈ ofText path → '}' ∉ name.toList) ∧
      ∀ front text back, ofText path = front ++ .static text :: back → '{' ∈ text.toList →
        back = [] ∧ ∃ rest, text.toList = '{' :: rest ∧ '}' ∉ rest := by
  have hcuts : Cuts (ofText path) path.toList := ofText_eq_iff.1 rfl
  refine ⟨?_, fun name => hcuts.not_mem_parameter, fun front text back => hcuts.open_static⟩
  rw [hcuts.render, String.ofList_toList]

example : ofText "/a/\x7bx\x7d\x7b*\x7d\x7b\x7by" =
    [.static "/a/", .parameter "x", .wildcard, .static "\x7b\x7by"] := by
  cbv

end Route
end ScriptWeave
