import ScriptWeave.Emit.Template
import ScriptWeave.Proofs.Text.JsonReader

/-!
Literals in emitted text. A literal is a JSON string that nothing around it can be mistaken for: its
body closes no quote, breaks no line and opens no markup, and it is read back up to its closing
quote whatever follows. So the texts of emitted modules tell apart the paths and keys that they
name.
-/

namespace ScriptWeave
namespace Text
namespace JsonString

/-- Whether the text ends in a backslash that escapes what follows, which one that is itself escaped
does not. -/
def pending (cs : List Char) : Bool := cs.foldl (fun pending c => !pending && c = '\\') false

/-- Text whose escapes are complete and whose quotes are all escaped. -/
inductive Sealed : List Char → Prop where
  | nil : Sealed []
  | plain {c : Char} {cs : List Char} (hquote : c ≠ '"') (hescape : c ≠ '\\') (h : Sealed cs) :
      Sealed (c :: cs)
  | escape (c : Char) {cs : List Char} (h : Sealed cs) : Sealed ('\\' :: c :: cs)

section

variable {c : Char} {cs cs' : List Char}

theorem pending_plain (h : c ≠ '\\') : pending (c :: cs) = pending cs := by
  simp [pending, h]

theorem pending_escape (c : Char) (cs : List Char) : pending ('\\' :: c :: cs) = pending cs := by
  simp [pending]

theorem Sealed.append (h : Sealed cs) (h' : Sealed cs') : Sealed (cs ++ cs') := by
  induction h with
  | nil => exact h'
  | plain hquote hescape _ ih => exact .plain hquote hescape ih
  | escape c _ ih => exact .escape c ih

/-- Plain characters alone. -/
theorem sealed_of_forall (h : ∀ c ∈ cs, c ≠ '"' ∧ c ≠ '\\') : Sealed cs := by
  induction cs with
  | nil => exact .nil
  | cons c cs ih =>
      obtain ⟨hquote, hescape⟩ := h c List.mem_cons_self
      exact .plain hquote hescape (ih fun x hx => h x (List.mem_cons_of_mem _ hx))

theorem Sealed.not_pending (h : Sealed cs) : pending cs = false := by
  induction h with
  | nil => rfl
  | plain _ hescape _ ih => rw [pending_plain hescape, ih]
  | escape c _ ih => rw [pending_escape, ih]

/-- Each quote in a sealed text comes after a backslash that escapes it. -/
theorem Sealed.pending_of_quote (h : Sealed cs) :
    ∀ before after, cs = before ++ '"' :: after → pending before = true := by
  induction h with
  | nil => simp
  | @plain c cs hquote hescape _ ih =>
      rintro (_ | ⟨x, before⟩) after heq
      · exact absurd (List.cons.inj heq).1 hquote
      · obtain ⟨rfl, hrest⟩ := List.cons.inj heq
        rw [pending_plain hescape]
        exact ih before after hrest
  | @escape c cs _ ih =>
      rintro (_ | ⟨x, _ | ⟨y, before⟩⟩) after heq
      · exact absurd (List.cons.inj heq).1 (by decide)
      · rw [← (List.cons.inj heq).1]
        rfl
      · obtain ⟨hx, hcs⟩ := List.cons.inj heq
        obtain ⟨rfl, hrest⟩ := List.cons.inj hcs
        rw [← hx, pending_escape]
        exact ih before after hrest

end

/-- The control characters, those behind the ASCII range included. -/
def IsControl (c : Char) : Prop := c.toNat < 0x20 ∨ 0x7f ≤ c.toNat ∧ c.toNat < 0xa0

/-- The characters that end a line of a script. -/
def lineEnds : List Char := ['\n', '\r', Char.ofNat 0x2028, Char.ofNat 0x2029]

/-- A character that a literal can hold in any surroundings: none that JSON forbids, no end of a
line, and none that a page around the script could take for markup. -/
structure Embeddable (c : Char) : Prop where
  noControl : 0x20 ≤ c.toNat
  noLineEnd : c ∉ lineEnds
  noMarkup : c ≠ '<' ∧ c ≠ '>' ∧ c ≠ '&'

theorem embeddable_of_toNat {c : Char} (hcontrol : 0x20 ≤ c.toNat)
    (hmarkup : c.toNat ≠ 0x3c ∧ c.toNat ≠ 0x3e ∧ c.toNat ≠ 0x26)
    (hline : c.toNat ≠ 0x2028 ∧ c.toNat ≠ 0x2029) : Embeddable c := by
  refine ⟨hcontrol, ?_, ?_, ?_, ?_⟩
  · intro hmem
    simp only [lineEnds, List.mem_cons, List.not_mem_nil, or_false] at hmem
    obtain rfl | rfl | rfl | rfl := hmem
    · exact absurd hcontrol (by decide)
    · exact absurd hcontrol (by decide)
    · exact hline.1 (by decide)
    · exact hline.2 (by decide)
  · rintro rfl
    exact hmarkup.1 rfl
  · rintro rfl
    exact hmarkup.2.1 rfl
  · rintro rfl
    exact hmarkup.2.2 rfl

/-- What stands for a character in a body: it is sealed, all of it can be embedded, and behind the
ASCII letters and signs there is nothing but the character itself. -/
structure Stands (c : Char) (cs : List Char) : Prop where
  isSealed : Sealed cs
  embeddable : ∀ x ∈ cs, Embeddable x
  own : ∀ x ∈ cs, 0x7f ≤ x.toNat → x = c

theorem stands_short (c : Char) {e : Char} (hembed : Embeddable e) (hascii : e.toNat < 0x7f) :
    Stands c ['\\', e] := by
  refine ⟨.escape e .nil, ?_, ?_⟩
  · intro x hx
    obtain rfl | rfl : x = '\\' ∨ x = e := by simpa using hx
    · exact embeddable_of_toNat (by decide) (by decide) (by decide)
    · exact hembed
  · intro x hx hhigh
    obtain rfl | rfl : x = '\\' ∨ x = e := by simpa using hx
    · exact absurd hhigh (by decide)
    · omega

/-- A hexadecimal digit is a digit or a letter of the ASCII range. -/
theorem toNat_hexDigit {n : Nat} (h : n < 16) :
    0x30 ≤ (hexDigit n).toNat ∧ (hexDigit n).toNat ≤ 0x66 ∧ (hexDigit n).toNat ≠ 0x5c ∧
      (hexDigit n).toNat ≠ 0x3c ∧ (hexDigit n).toNat ≠ 0x3e := by
  revert n
  decide

theorem toNat_of_mem_hexPadded {width n : Nat} {x : Char} (h : x ∈ hexPadded width n) :
    0x30 ≤ x.toNat ∧ x.toNat ≤ 0x66 ∧ x.toNat ≠ 0x5c ∧ x.toNat ≠ 0x3c ∧ x.toNat ≠ 0x3e := by
  induction width generalizing n with
  | zero => cases h
  | succ width ih =>
      rw [hexPadded, List.mem_append, List.mem_singleton] at h
      obtain h | rfl := h
      · exact ih h
      · exact toNat_hexDigit (Nat.mod_lt n (by decide))

theorem stands_hex (c : Char) (width n : Nat) : Stands c ('\\' :: 'u' :: hexPadded width n) := by
  have hdigit (x : Char) (hx : x ∈ hexPadded width n) := toNat_of_mem_hexPadded hx
  refine ⟨.escape 'u' (sealed_of_forall fun x hx => ?_), ?_, ?_⟩
  · obtain ⟨hleast, _, hslash, _⟩ := hdigit x hx
    constructor
    · rintro rfl
      exact absurd hleast (by decide)
    · rintro rfl
      exact hslash rfl
  · intro x hx
    obtain rfl | rfl | hx : x = '\\' ∨ x = 'u' ∨ x ∈ hexPadded width n := by simpa using hx
    · exact embeddable_of_toNat (by decide) (by decide) (by decide)
    · exact embeddable_of_toNat (by decide) (by decide) (by decide)
    · obtain ⟨hleast, hmost, _, hless, hgreater⟩ := hdigit x hx
      exact embeddable_of_toNat (by omega) (by omega) (by omega)
  · intro x hx hhigh
    obtain rfl | rfl | hx : x = '\\' ∨ x = 'u' ∨ x ∈ hexPadded width n := by simpa using hx
    · exact absurd hhigh (by decide)
    · exact absurd hhigh (by decide)
    · have hmost := (hdigit x hx).2.1
      omega

theorem stands_self {c : Char} (hquote : c ≠ '"') (hescape : c ≠ '\\') (hembed : Embeddable c) :
    Stands c [c] := by
  refine ⟨.plain hquote hescape .nil, ?_, ?_⟩
  · intro x hx
    rwa [List.mem_singleton.1 hx]
  · intro x hx _
    exact List.mem_singleton.1 hx

theorem stands_escape (c : Char) : Stands c (escape c) := by
  rw [escape]
  split
  case h_8 hquote hescape _ _ _ _ _ =>
    split
    · exact stands_hex c 4 c.toNat
    · next hplain =>
        exact stands_self (fun heq => hquote (heq ▸ rfl)) (fun heq => hescape (heq ▸ rfl))
          (embeddable_of_toNat (by omega) (by omega) (by omega))
  all_goals
    exact stands_short c (embeddable_of_toNat (by decide) (by decide) (by decide)) (by decide)

/-- A character behind the signs of the ASCII range that ends no line stands for itself. -/
theorem escape_of_high {c : Char} (hhigh : 0x7f ≤ c.toNat)
    (hline : c.toNat ≠ 0x2028 ∧ c.toNat ≠ 0x2029) : escape c = [c] := by
  rw [escape]
  split
  case h_8 => exact if_neg (by omega)
  all_goals omega

theorem sealed_flatMap_escape (cs : List Char) : Sealed (cs.flatMap escape) := by
  induction cs with
  | nil => exact .nil
  | cons c cs ih => exact (stands_escape c).isSealed.append ih

theorem decode?_literal (s : String) : decode? (literal s).toList = some s.toList := by
  rw [Json.toList_literal, decode?, readBody_flatMap_escape]
  exact congrArg some (joinPairs_map_toNat s.toList)

/-- A literal ends where its closing quote stands, whatever follows. -/
theorem literal_append_inj {s t rest rest' : String} :
    literal s ++ rest = literal t ++ rest' ↔ s = t ∧ rest = rest' := by
  constructor
  · intro h
    have hbody : s.toList.flatMap escape ++ '"' :: rest.toList =
        t.toList.flatMap escape ++ '"' :: rest'.toList := by
      have hchars := congrArg String.toList h
      rw [String.toList_append, String.toList_append, Json.toList_literal, Json.toList_literal]
        at hchars
      simpa using hchars
    have hread := congrArg readBody hbody
    rw [readBody_flatMap_escape, readBody_flatMap_escape] at hread
    obtain ⟨hpoints, hrest⟩ := Prod.mk.inj (Except.ok.inj hread)
    have hchars := congrArg joinPairs hpoints
    rw [joinPairs_map_toNat, joinPairs_map_toNat] at hchars
    exact ⟨String.toList_inj.1 hchars, String.toList_inj.1 hrest⟩
  · rintro ⟨rfl, rfl⟩
    rfl

/-- The control characters that stand in the body of a literal are those of its text that come after
the ASCII letters and signs. -/
theorem mem_body_of_isControl {c : Char} (hc : IsControl c) (cs : List Char) :
    c ∈ cs.flatMap escape ↔ 0x7f ≤ c.toNat ∧ c ∈ cs := by
  rw [List.mem_flatMap]
  constructor
  · rintro ⟨x, hx, hmem⟩
    have hleast := ((stands_escape x).embeddable c hmem).noControl
    have hhigh : 0x7f ≤ c.toNat := by
      obtain hlow | ⟨hhigh, _⟩ := hc
      · omega
      · exact hhigh
    exact ⟨hhigh, (stands_escape x).own c hmem hhigh ▸ hx⟩
  · rintro ⟨hhigh, hmem⟩
    refine ⟨c, hmem, ?_⟩
    rw [escape_of_high hhigh (by obtain hlow | ⟨_, hmost⟩ := hc <;> omega)]
    exact List.mem_singleton_self c

end JsonString
end Text

namespace Emit

open Text.JsonString

/-- What comes after the first literal of a list. -/
def furtherLiterals : List String → String
  | [] => ""
  | p :: ps => ", " ++ ", ".intercalate ((p :: ps).map literal)

theorem intercalate_literals_cons (p : String) (ps : List String) :
    ", ".intercalate ((p :: ps).map literal) = literal p ++ furtherLiterals ps := by
  cases ps with
  | nil => simp [furtherLiterals]
  | cons q qs => simp [furtherLiterals, String.intercalate_cons_cons, String.append_assoc]

/-- A list of literals is read back up to the bracket that closes it. -/
theorem literals_append_inj {ps qs : List String} {rest rest' : String}
    (h : ", ".intercalate (ps.map literal) ++ ("]" ++ rest) =
      ", ".intercalate (qs.map literal) ++ ("]" ++ rest')) : ps = qs := by
  induction ps generalizing qs with
  | nil =>
      cases qs with
      | nil => rfl
      | cons q qs =>
          have hhead := congrArg (·.toList.head?) h
          simp [Text.Json.toList_literal] at hhead
  | cons p ps ih =>
      cases qs with
      | nil =>
          have hhead := congrArg (·.toList.head?) h
          simp [Text.Json.toList_literal] at hhead
      | cons q qs =>
          rw [intercalate_literals_cons, intercalate_literals_cons, String.append_assoc,
            String.append_assoc, literal_append_inj] at h
          obtain ⟨rfl, hfurther⟩ := h
          have hhead := congrArg (·.toList.head?) hfurther
          cases ps with
          | nil =>
              cases qs with
              | nil => rfl
              | cons q qs => simp [furtherLiterals] at hhead
          | cons p' ps =>
              cases qs with
              | nil => simp [furtherLiterals] at hhead
              | cons q qs =>
                  rw [furtherLiterals, furtherLiterals, String.append_assoc, String.append_assoc,
                    String.append_right_inj] at hfurther
                  rw [ih hfurther]

/-- Headers of modules tell the paths of their dependencies apart. -/
theorem paths_eq_of_defineHeader_eq {deps deps' : List Dependency}
    (h : defineHeader deps = defineHeader deps') : deps.map (·.path) = deps'.map (·.path) := by
  have hmap (deps : List Dependency) :
      deps.map (fun d => literal d.path) = (deps.map (·.path)).map literal := by
    rw [List.map_map]
    rfl
  have hbracket (text : String) : "], function (" ++ text = "]" ++ (", function (" ++ text) := by
    rw [← String.append_assoc]
    rfl
  rw [defineHeader, defineHeader, hmap, hmap] at h
  simp only [String.append_assoc, String.append_right_inj, hbracket] at h
  exact literals_append_inj h

/-- A redirect tells apart the module that it leads to and the key there. -/
theorem redirect_eq_of_render_eq {t u : RedirectData} (h : t.render = u.render) : t = u := by
  unfold RedirectData.render at h
  simp only [String.append_assoc] at h
  rw [String.append_right_inj, String.append_right_inj] at h
  obtain ⟨htarget, hkey⟩ := literal_append_inj.1 h
  rw [String.append_right_inj, String.append_right_inj] at hkey
  obtain ⟨hkey, _⟩ := literal_append_inj.1 hkey
  cases t
  cases u
  rw [RedirectData.mk.injEq]
  exact ⟨htarget, hkey⟩

/-- A member of a merged module stands under its own key. -/
theorem key_eq_of_render_eq {t u : MemberData} (h : t.render = u.render) : t.key = u.key := by
  unfold MemberData.render at h
  simp only [String.append_assoc] at h
  rw [String.append_right_inj] at h
  exact (literal_append_inj.1 h).1

/-- A literal stands between quotes that nothing in its body closes. The body holds no line ends, no
markup and no control characters but those that JSON allows, which stand for themselves, and it is
read back as the text. So literals, and the headers, members and redirects that hold them, tell
apart what they name. -/
theorem literal_embeddable_and_read_back (s : String) :
    (∃ body, (literal s).toList = '"' :: (body ++ ['"']) ∧
      (∀ before after, body = before ++ '"' :: after → pending before = true) ∧
      pending body = false ∧ (∀ c ∈ body, Embeddable c) ∧
      ∀ c, IsControl c → (c ∈ body ↔ 0x7f ≤ c.toNat ∧ c ∈ s.toList)) ∧
    decode? (literal s).toList = some s.toList ∧
    (∀ t rest rest', literal s ++ rest = literal t ++ rest' ↔ s = t ∧ rest = rest') ∧
    (∀ deps deps', defineHeader deps = defineHeader deps' →
      deps.map (·.path) = deps'.map (·.path)) ∧
    (∀ t u : MemberData, t.render = u.render → t.key = u.key) ∧
    ∀ t u : RedirectData, t.render = u.render → t = u := by
  have hsealed := sealed_flatMap_escape s.toList
  refine ⟨⟨s.toList.flatMap escape, Text.Json.toList_literal s, hsealed.pending_of_quote,
    hsealed.not_pending, ?_, ?_⟩, decode?_literal s, fun _ _ _ => literal_append_inj,
    fun _ _ => paths_eq_of_defineHeader_eq, fun _ _ => key_eq_of_render_eq,
    fun _ _ => redirect_eq_of_render_eq⟩
  · intro c hc
    obtain ⟨x, _, hmem⟩ := List.mem_flatMap.1 hc
    exact (stands_escape x).embeddable c hmem
  · intro c hc
    exact mem_body_of_isControl hc s.toList

/-- Not all control characters are escaped: a deletion character stands in its literal as it is. -/
theorem deletion_stands_in_literal : ¬ ∀ s body : String,
    literal s = "\"" ++ body ++ "\"" → ∀ c ∈ body.toList, ¬ IsControl c := by
  intro h
  exact h "\x7f" "\x7f" (by decide) (Char.ofNat 0x7f) (by decide) (Or.inr (by decide))

end Emit
end ScriptWeave
