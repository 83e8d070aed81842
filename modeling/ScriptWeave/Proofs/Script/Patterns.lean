import Mathlib.Data.Option.Basic
import ScriptWeave.Proofs.Script.Lexemes

/-!
The lexical rules as regular expressions. Alternatives are tried in order, a repetition reads as
much as it can or as little as it can, and a choice is taken back when what follows it does not
match. Each kind of lexeme has one expression, and its recogniser reads what the expression matches
first.
-/

namespace ScriptWeave
namespace Script

/-- A regular expression over characters. -/
inductive Pattern where
  | one (accepts : Char → Bool)
  | empty
  | seq (first second : Pattern)
  | either (first second : Pattern)
  /-- As many times as possible. -/
  | many (p : Pattern)
  /-- As few times as possible. -/
  | few (p : Pattern)
  /-- Between a word character and none. -/
  | edge

namespace Pattern

/-- A place inside of a text: the characters read, the last one first, and the characters ahead. -/
structure Front where
  done : List Char
  rest : List Char

namespace Front

/-- The place before a text. -/
def before (cs : List Char) : Front := ⟨[], cs⟩

/-- The place after some more characters. -/
def advance (s : Front) (n : Nat) : Front := ⟨(s.rest.take n).reverse ++ s.done, s.rest.drop n⟩

/-- Whether just one of the two characters at a place is a word character. -/
def atEdge (s : Front) : Bool :=
  s.done.head?.any Lexeme.isWordChar != s.rest.head?.any Lexeme.isWordChar

end Front

section

variable {β : Type}

/-- Repeats a step at most `n` times before going on, more often rather than less. -/
def manyTimes (step : (Front → Option β) → Front → Option β) (next : Front → Option β) :
    Nat → Front → Option β
  | 0, s => next s
  | n + 1, s => (step (manyTimes step next n) s).or (next s)

/-- Repeats a step at most `n` times before going on, less often rather than more. -/
def fewTimes (step : (Front → Option β) → Front → Option β) (next : Front → Option β) :
    Nat → Front → Option β
  | 0, s => next s
  | n + 1, s => (next s).or (step (fewTimes step next n) s)

/-- Matches an expression and goes on with what follows. What is repeated in a rule reads a
character each time, so a repetition ends with the text. -/
def run : Pattern → (Front → Option β) → Front → Option β
  | one accepts, next, s =>
      match s.rest with
      | c :: _ => if accepts c then next (s.advance 1) else none
      | [] => none
  | empty, next, s => next s
  | seq first second, next, s => first.run (second.run next) s
  | either first second, next, s => (first.run next s).or (second.run next s)
  | many p, next, s => manyTimes p.run next s.rest.length s
  | few p, next, s => fewTimes p.run next s.rest.length s
  | edge, next, s => if s.atEdge then next s else none

end

/-- What is left behind the first match at the front of a text. -/
def rest? (p : Pattern) (cs : List Char) : Option (List Char) :=
  p.run (fun s => some s.rest) (.before cs)

/-- At least once, and as many times as possible. -/
def plus (p : Pattern) : Pattern := seq p (many p)

/-- Once if possible. -/
def opt (p : Pattern) : Pattern := either p empty

/-- The characters of a text. -/
def chars : List Char → Pattern
  | [] => empty
  | c :: cs => seq (one (· = c)) (chars cs)

def text (s : String) : Pattern := chars s.toList

/-- The first of some expressions that matches. -/
def oneOf : List Pattern → Pattern
  | [] => one fun _ => false
  | p :: ps => either p (oneOf ps)

/-- A character in quotes. A backslash takes the next character along, which must not be a
newline. -/
def quotedChar (quote : Char) : Pattern :=
  either (seq (one (· = '\\')) (one (· ≠ '\n'))) (one fun c => c ≠ quote ∧ c ≠ '\\')

def quoted (quote : Char) : Pattern :=
  seq (one (· = quote)) (seq (many (quotedChar quote)) (one (· = quote)))

end Pattern

namespace TokenKind

open Pattern Lexeme

/-- The expression of each kind of lexeme. -/
def pattern : TokenKind → Pattern
  | .comment => either (seq (text "//") (many (one (· ≠ '\n'))))
      (seq (text "/*") (seq (few (one fun _ => true)) (text "*/")))
  | .blank => plus (one isBlankChar)
  | .string => either (quoted '"') (quoted '\'')
  | .number => either
      (seq (one (· = '0')) (seq (one fun c => c = 'x' ∨ c = 'X') (plus (one isHexDigit))))
      (seq (plus (one isDigit)) (seq (opt (seq (one (· = '.')) (plus (one isDigit))))
        (opt (seq (one fun c => c = 'e' ∨ c = 'E')
          (seq (opt (one fun c => c = '+' ∨ c = '-')) (plus (one isDigit)))))))
  | .keyword => seq edge (seq (oneOf (keywords.map text)) edge)
  | .ident => seq (one isNameStart) (many (one isNameChar))
  | .operator => either (oneOf (longOperators.map text))
      (one fun c => ['-', '+', '*', '/', '%', '<', '>', '=', '!', '?'].contains c)
  | .punctuation => one fun c => ['{', '}', '(', ')', '[', ']', ';', ':', ',', '.'].contains c

end TokenKind

namespace Pattern

open Lexeme

namespace Front

@[simp] theorem rest_before (cs : List Char) : (before cs).rest = cs := rfl

@[simp] theorem rest_advance (s : Front) (n : Nat) : (s.advance n).rest = s.rest.drop n := rfl

@[simp] theorem advance_zero (s : Front) : s.advance 0 = s := rfl

@[simp] theorem advance_advance (s : Front) (m n : Nat) :
    (s.advance m).advance n = s.advance (m + n) := by
  simp [advance, List.take_add, List.drop_drop]

end Front

section

variable {β : Type} {next : Front → Option β} {s : Front} {p : Char → Bool}

/-- What follows matches wherever it is tried. -/
def Total (next : Front → Option β) : Prop := ∀ s, ∃ b, next s = some b

theorem or_of_total (h : Total next) (s : Front) (o : Option β) : (next s).or o = next s := by
  obtain ⟨b, hb⟩ := h s
  rw [hb, Option.some_or]

theorem run_seq (first second : Pattern) :
    (seq first second).run next s = first.run (second.run next) s := rfl

theorem run_either (first second : Pattern) :
    (either first second).run next s = (first.run next s).or (second.run next s) := rfl

theorem run_opt (p : Pattern) : (opt p).run next s = (p.run next s).or (next s) := rfl

theorem run_many (p : Pattern) : (many p).run next s = manyTimes p.run next s.rest.length s := rfl

theorem run_edge : edge.run next s = if s.atEdge then next s else none := rfl

theorem run_one :
    (one p).run next s = match s.rest with
      | c :: _ => if p c then next (s.advance 1) else none
      | [] => none := rfl

theorem run_one_cons {c : Char} {cs : List Char} (h : s.rest = c :: cs) :
    (one p).run next s = if p c then next (s.advance 1) else none := by
  rw [run_one, h]

theorem run_one_nil (h : s.rest = []) : (one p).run next s = none := by
  rw [run_one, h]

/-- A repeated character is read as often as it stands there. -/
theorem manyTimes_one (hnext : Total next) (n : Nat) (h : s.rest.length ≤ n) :
    manyTimes (one p).run next n s = next (s.advance (runLength p s.rest)) := by
  induction n generalizing s with
  | zero =>
      have hrest := List.eq_nil_of_length_eq_zero (Nat.le_zero.1 h)
      simp [manyTimes, hrest, runLength]
  | succ n ih =>
      rw [manyTimes]
      cases hrest : s.rest with
      | nil => simp [run_one_nil hrest, runLength]
      | cons c cs =>
          rw [run_one_cons hrest]
          cases hc : p c with
          | false => simp [runLength_cons_of_neg hc]
          | true =>
              rw [hrest, List.length_cons] at h
              rw [if_pos rfl, ih (by simp [hrest]; omega), or_of_total hnext,
                runLength_cons_of_pos hc, Front.advance_advance, Front.rest_advance, hrest,
                Nat.add_comm]
              rfl

theorem run_many_one (hnext : Total next) :
    (many (one p)).run next s = next (s.advance (runLength p s.rest)) :=
  manyTimes_one hnext _ (Nat.le_refl _)

theorem run_plus_one (hnext : Total next) :
    (plus (one p)).run next s =
      if runLength p s.rest = 0 then none else next (s.advance (runLength p s.rest)) := by
  rw [plus, run_seq]
  cases hrest : s.rest with
  | nil => simp [run_one_nil hrest, runLength]
  | cons c cs =>
      rw [run_one_cons hrest]
      cases hc : p c with
      | false => simp [runLength_cons_of_neg hc]
      | true =>
          simp [run_many_one hnext, runLength_cons_of_pos hc, hrest, Nat.add_comm 1]

theorem Total.run_opt (hnext : Total next) (p : Pattern) : Total ((opt p).run next) := by
  intro s
  rw [Pattern.run_opt]
  cases p.run next s with
  | none => simpa using hnext s
  | some b => exact ⟨b, rfl⟩

theorem run_chars (w : List Char) :
    (chars w).run next s = if w.isPrefixOf s.rest then next (s.advance w.length) else none := by
  induction w generalizing s with
  | nil => rfl
  | cons c w ih =>
      rw [chars, run_seq]
      cases hrest : s.rest with
      | nil => simp [run_one_nil hrest]
      | cons d cs =>
          rw [run_one_cons hrest, ih]
          by_cases hd : d = c
          · simp [hd, hrest, Nat.add_comm 1]
          · simp [hd, Ne.symm hd]

theorem run_text (w : String) :
    (text w).run next s =
      if w.toList.isPrefixOf s.rest then next (s.advance w.toList.length) else none := by
  rw [text, run_chars]

/-- Of several words the first counts that stands there and lets the rest match. -/
theorem run_oneOf_text (ws : List String) :
    (oneOf (ws.map text)).run next s =
      ws.findSome? fun w =>
        if w.toList.isPrefixOf s.rest then next (s.advance w.toList.length) else none := by
  induction ws with
  | nil =>
      cases hrest : s.rest with
      | nil => exact run_one_nil hrest
      | cons c cs => simp [oneOf, run_one_cons hrest]
  | cons w ws ih =>
      rw [List.map_cons, oneOf, run_either, run_text, ih, List.findSome?_cons]
      generalize (if w.toList.isPrefixOf s.rest then next (s.advance w.toList.length)
        else none) = here
      cases here <;> rfl

end

section

variable {β : Type} {next : Front → Option β} {s : Front}

theorem run_fraction (hnext : Total next) :
    (opt (seq (one (· = '.')) (plus (one isDigit)))).run next s =
      next (s.advance (fractionLength s.rest)) := by
  rw [run_opt, run_seq]
  cases hrest : s.rest with
  | nil => simp [run_one_nil hrest, fractionLength]
  | cons c cs =>
      rw [run_one_cons hrest]
      by_cases hc : c = '.'
      · subst hc
        rw [run_plus_one hnext, fractionLength_point]
        by_cases hdigits : runLength isDigit cs = 0
        · simp [hrest, hdigits]
        · simp [hrest, hdigits, or_of_total hnext, Nat.add_comm 1]
      · simp [hc, fractionLength_cons hc]

theorem run_exponent (hnext : Total next) :
    (opt (seq (one fun c => c = 'e' ∨ c = 'E')
      (seq (opt (one fun c => c = '+' ∨ c = '-')) (plus (one isDigit))))).run next s =
      next (s.advance (exponentLength s.rest)) := by
  rw [run_opt, run_seq]
  match hrest : s.rest with
  | [] => simp [run_one_nil hrest, exponentLength]
  | [e] =>
      rw [run_one_cons hrest, run_seq, run_opt, run_plus_one hnext, run_one_nil (by simp [hrest])]
      simp [hrest, runLength, exponentLength]
  | e :: c :: ds =>
      have hmark : (s.advance 1).rest = c :: ds := by simp [hrest]
      rw [run_one_cons hrest]
      by_cases he : e = 'e' ∨ e = 'E'
      · rw [if_pos (decide_eq_true he), run_seq, run_opt, run_one_cons hmark, run_plus_one hnext,
          run_plus_one hnext, hmark]
        by_cases hc : c = '+' ∨ c = '-'
        · have hsign : isDigit c = false := by
            obtain rfl | rfl := hc <;> decide
          rw [if_pos (decide_eq_true hc), exponentLength_signed he hc, runLength_cons_of_neg hsign]
          by_cases hdigits : runLength isDigit ds = 0
          · simp [hrest, hdigits]
          · simp [hrest, hdigits, or_of_total hnext, Nat.add_comm 2]
        · rw [if_neg (by simpa using hc), exponentLength_unsigned he hc]
          by_cases hdigits : runLength isDigit (c :: ds) = 0
          · simp [hdigits]
          · simp [hdigits, or_of_total hnext, Nat.add_comm 1]
      · rw [if_neg (by simpa using he), exponentLength_cons he]
        rfl

theorem run_decimal {c : Char} {cs : List Char} (hnext : Total next) (hrest : s.rest = c :: cs) :
    (seq (plus (one isDigit)) (seq (opt (seq (one (· = '.')) (plus (one isDigit))))
      (opt (seq (one fun c => c = 'e' ∨ c = 'E')
        (seq (opt (one fun c => c = '+' ∨ c = '-')) (plus (one isDigit))))))).run next s =
      if isDigit c then next (s.advance (decimalLength cs + 1)) else none := by
  have hexponent := hnext.run_opt (seq (one fun c => c = 'e' ∨ c = 'E')
    (seq (opt (one fun c => c = '+' ∨ c = '-')) (plus (one isDigit))))
  rw [run_seq, run_plus_one (by
    intro s
    rw [run_seq]
    exact hexponent.run_opt _ s)]
  cases hc : isDigit c with
  | false => simp [hrest, runLength_cons_of_neg hc]
  | true =>
      rw [run_seq, run_fraction hexponent, run_exponent hnext]
      simp only [Front.rest_advance, Front.advance_advance, hrest, runLength_cons_of_pos hc,
        List.drop_succ_cons, decimalLength, Nat.add_right_comm _ 1, Nat.add_eq_zero_iff,
        Nat.one_ne_zero, and_false, if_false, if_true]

theorem run_hex {c : Char} {cs : List Char} (hnext : Total next) (hrest : s.rest = c :: cs) :
    (seq (one (· = '0'))
      (seq (one fun c => c = 'x' ∨ c = 'X') (plus (one isHexDigit)))).run next s =
      if c = '0' ∧ hexLength cs ≠ 0 then next (s.advance (hexLength cs + 1)) else none := by
  rw [run_seq, run_one_cons hrest]
  by_cases hc : c = '0'
  · rw [if_pos (decide_eq_true hc), run_seq]
    cases cs with
    | nil => simp [run_one_nil, hrest, hexLength]
    | cons x cs =>
        rw [run_one_cons (by rw [Front.rest_advance, hrest]; rfl)]
        by_cases hx : x = 'x' ∨ x = 'X'
        · rw [if_pos (decide_eq_true hx), run_plus_one hnext, hexLength_cons_of_pos hx]
          by_cases hdigits : runLength isHexDigit cs = 0
          · simp [hrest, hdigits]
          · simp [hrest, hdigits, hc, Nat.add_comm 2]
        · rw [if_neg (by simpa using hx), hexLength_cons_of_neg hx]
          simp
  · rw [if_neg (by simpa using hc), if_neg (fun h => hc h.1)]

/-- As few characters as possible before the end of a comment. -/
theorem fewTimes_any (hnext : Total next) (n : Nat) (h : s.rest.length ≤ n) :
    fewTimes (one fun _ => true).run ((text "*/").run next) n s =
      (throughClose? s.rest).bind fun m => next (s.advance m) := by
  induction n generalizing s with
  | zero =>
      have hrest := List.eq_nil_of_length_eq_zero (Nat.le_zero.1 h)
      simp [fewTimes, run_text, hrest, throughClose?]
  | succ n ih =>
      rw [fewTimes, run_text]
      cases hrest : s.rest with
      | nil => simp [run_one_nil hrest, throughClose?]
      | cons c cs =>
          rw [run_one_cons hrest, if_pos rfl, throughClose?_cons]
          split
          · rw [or_of_total hnext]
            rfl
          · rw [hrest, List.length_cons] at h
            rw [Option.none_or, ih (by rw [Front.rest_advance, hrest]; simpa using h)]
            simp [hrest, Option.bind_map, Nat.add_comm 1]

theorem run_few_any (hnext : Total next) :
    (few (one fun _ => true)).run ((text "*/").run next) s =
      (throughClose? s.rest).bind fun m => next (s.advance m) :=
  fewTimes_any hnext _ (Nat.le_refl _)

theorem run_quotedChar (quote : Char) :
    (quotedChar quote).run next s =
      ((seq (one (· = '\\')) (one (· ≠ '\n'))).run next s).or
        ((one fun c => c ≠ quote ∧ c ≠ '\\').run next s) := rfl

/-- As many characters as possible before the closing quote, which cannot be among them. -/
theorem manyTimes_quoted {quote : Char} (hquote : quote ≠ '\\') (n : Nat)
    (h : s.rest.length ≤ n) :
    manyTimes (quotedChar quote).run ((one (· = quote)).run next) n s =
      (throughQuote? quote s.rest).bind fun m => next (s.advance m) := by
  induction n generalizing s with
  | zero =>
      have hrest := List.eq_nil_of_length_eq_zero (Nat.le_zero.1 h)
      simp [manyTimes, run_one_nil hrest, hrest, throughQuote?]
  | succ n ih =>
      rw [manyTimes, run_quotedChar, run_seq]
      cases hrest : s.rest with
      | nil => simp [run_one_nil hrest, throughQuote?]
      | cons c cs =>
          rw [hrest, List.length_cons] at h
          rw [run_one_cons hrest, run_one_cons hrest, run_one_cons hrest]
          by_cases hc : c = '\\'
          · subst hc
            cases cs with
            | nil => simp [run_one_nil, hrest, hquote.symm, throughQuote?]
            | cons d ds =>
                have hlater := ih (s := s.advance 2) (by simp [hrest] at h ⊢; omega)
                rw [run_one_cons (s := s.advance 1) (by rw [Front.rest_advance, hrest]; rfl),
                  Front.advance_advance, hlater, throughQuote?_escape]
                by_cases hd : d = '\n'
                · simp [hd, hquote.symm]
                · simp [hd, hquote.symm, hrest, Option.bind_map, Nat.add_comm 2]
          · have hlater := ih (s := s.advance 1) (by simp [hrest]; omega)
            rw [hlater, throughQuote?_cons hc]
            by_cases hq : c = quote
            · simp [hq, hquote]
            · simp [hc, hq, hrest, Option.bind_map, Nat.add_comm 1]

theorem run_quoted {quote c : Char} {cs : List Char} (hquote : quote ≠ '\\')
    (hrest : s.rest = c :: cs) :
    (quoted quote).run next s =
      if c = quote then (throughQuote? quote cs).bind fun m => next (s.advance (m + 1))
        else none := by
  rw [quoted, run_seq, run_one_cons hrest]
  by_cases hc : c = quote
  · rw [if_pos (decide_eq_true hc), if_pos hc, run_seq, run_many,
      manyTimes_quoted hquote _ (Nat.le_refl _)]
    simp [hrest, Nat.add_comm 1]
  · simp [hc]

end

theorem findSome?_ite {α β : Type} (p : α → Prop) [DecidablePred p] (f : α → β) (as : List α) :
    (as.findSome? fun a => if p a then some (f a) else none) =
      (as.find? fun a => decide (p a)).map f := by
  rw [← List.findSome?_guard, List.map_findSome?]
  refine congrArg (List.findSome? · as) (funext fun a => ?_)
  by_cases ha : p a <;> simp [Option.guard, ha]

theorem findSome?_congr {α β : Type} {f g : α → Option β} {as : List α} (h : ∀ a ∈ as, f a = g a) :
    as.findSome? f = as.findSome? g := by
  induction as with
  | nil => rfl
  | cons a as ih =>
      rw [List.forall_mem_cons] at h
      rw [List.findSome?_cons, List.findSome?_cons, h.1, ih h.2]

/-- Behind a word that stands at the front of a text a word ends when it is the whole run of word
characters. -/
theorem atEdge_advance_iff {w cs : List Char} (hw : w ≠ []) (hchars : ∀ c ∈ w, isWordChar c = true)
    (h : w <+: cs) :
    ((Front.before cs).advance w.length).atEdge = true ↔ w = cs.takeWhile isWordChar := by
  obtain ⟨rest, rfl⟩ := h
  have hlast : w.reverse.head?.any isWordChar = true := by
    rw [List.head?_reverse, List.getLast?_eq_some_getLast hw, Option.any_some]
    exact hchars _ (List.getLast_mem hw)
  rw [Front.atEdge, List.takeWhile_append_of_pos hchars, List.self_eq_append_right]
  simp only [Front.advance, Front.before, List.take_left, List.drop_left, List.append_nil, hlast]
  cases rest with
  | nil => simp
  | cons c rest => cases hc : isWordChar c <;> simp [hc]

theorem rest?_keyword (c : Char) (cs : List Char) :
    TokenKind.keyword.pattern.rest? (c :: cs) = (keyword? c cs).map cs.drop := by
  have hwords : ∀ w ∈ keywords, (if w.toList.isPrefixOf (c :: cs) then
      edge.run (fun s => some s.rest) ((Front.before (c :: cs)).advance w.toList.length)
        else none) =
      if w.toList = (c :: cs).takeWhile isWordChar then some ((c :: cs).drop w.toList.length)
        else none := by
    intro w hw
    obtain ⟨hne, hchars⟩ := isWordChar_of_mem_keywords hw
    simp only [List.isPrefixOf_iff_prefix, run_edge]
    by_cases hstands : w.toList <+: c :: cs
    · simp only [hstands, if_true, atEdge_advance_iff hne hchars hstands, Front.rest_advance,
        Front.rest_before]
    · rw [if_neg hstands, if_neg]
      intro heq
      exact hstands (heq ▸ List.takeWhile_prefix _)
  rw [rest?, TokenKind.pattern, run_seq, run_edge, run_seq, run_oneOf_text, Front.rest_before,
    findSome?_congr hwords]
  rw [findSome?_ite, keyword?, take_runLength]
  by_cases hmem : String.ofList (c :: cs.takeWhile isWordChar) ∈ keywords
  · have hc : isWordChar c = true := (isWordChar_of_mem_keywords hmem).2 c (by simp)
    have hfind : (keywords.find? fun w => decide (w.toList = (c :: cs).takeWhile isWordChar)) =
        some (String.ofList (c :: cs.takeWhile isWordChar)) := by
      rw [List.takeWhile_cons_of_pos hc]
      cases hfind : keywords.find? fun w => decide (w.toList = c :: cs.takeWhile isWordChar) with
      | none => exact absurd (List.find?_eq_none.1 hfind _ hmem) (by simp)
      | some w =>
          have heq : w.toList = c :: cs.takeWhile isWordChar := by
            simpa using List.find?_some hfind
          rw [← heq, String.ofList_toList]
    rw [hfind, if_pos (List.contains_iff_mem.2 hmem)]
    simp [Front.atEdge, Front.before, hc, runLength]
  · have hnone : keywords.contains (String.ofList (c :: cs.takeWhile isWordChar)) = false := by
      rw [← Bool.not_eq_true, List.contains_iff_mem]
      exact hmem
    rw [hnone]
    cases hc : isWordChar c with
    | false => simp [Front.atEdge, Front.before, hc]
    | true =>
        have hfind : (keywords.find? fun w => decide (w.toList = (c :: cs).takeWhile isWordChar)) =
            none := by
          rw [List.takeWhile_cons_of_pos hc, List.find?_eq_none]
          intro w hw heq
          refine hmem ?_
          rwa [← of_decide_eq_true heq, String.ofList_toList]
        simp [hfind]

theorem rest?_comment (c : Char) (cs : List Char) :
    TokenKind.comment.pattern.rest? (c :: cs) = (comment? c cs).map cs.drop := by
  have hnext : Total fun s : Front => some s.rest := fun s => ⟨s.rest, rfl⟩
  rw [rest?, TokenKind.pattern, run_either, run_seq, run_seq, run_text, run_text, run_seq,
    run_many_one hnext, run_few_any hnext]
  by_cases hc : c = '/'
  · subst hc
    cases cs with
    | nil => rfl
    | cons d cs =>
        by_cases hline : d = '/'
        · subst hline
          simp [comment?, Nat.add_comm 2]
        · by_cases hblock : d = '*'
          · subst hblock
            simp [comment?, Option.map_eq_bind, Option.bind_assoc, Nat.add_comm 2]
          · rw [comment?]
            · simp [Ne.symm hline, Ne.symm hblock]
            · rintro cs' _ heq
              exact hline (List.cons.inj heq).1
            · rintro cs' _ heq
              exact hblock (List.cons.inj heq).1
  · rw [comment?_eq_none hc]
    simp [Ne.symm hc]

theorem rest?_operator (c : Char) (cs : List Char) :
    TokenKind.operator.pattern.rest? (c :: cs) = (operator? c cs).map cs.drop := by
  have hlong := findSome?_ite (fun op => op.toList.isPrefixOf (c :: cs) = true)
    (fun op => (c :: cs).drop op.toList.length) longOperators
  rw [rest?, TokenKind.pattern, run_either, run_oneOf_text, run_one_cons (Front.rest_before _)]
  refine (congrArg (Option.or · _) hlong).trans ?_
  rw [operator?]
  simp only [Bool.decide_eq_true]
  cases hfind : longOperators.find? fun op => op.toList.isPrefixOf (c :: cs) with
  | none => simp only [Option.map_none, Option.none_or]; split <;> rfl
  | some op =>
      have hlong := (mem_operatorChars_of_mem_longOperators (List.mem_of_find?_eq_some hfind)).1
      obtain ⟨n, hn⟩ : ∃ n, op.toList.length = n + 1 := ⟨op.toList.length - 1, by omega⟩
      simp [hn, ← String.length_toList]

/-- What a recogniser leaves is what the expression of its kind leaves. -/
theorem rest?_pattern (kind : TokenKind) (c : Char) (cs : List Char) :
    kind.pattern.rest? (c :: cs) = (kind.recognise? c cs).map cs.drop := by
  have hnext : Total fun s : Front => some s.rest := fun s => ⟨s.rest, rfl⟩
  have hrest : (Front.before (c :: cs)).rest = c :: cs := rfl
  cases kind with
  | comment => exact rest?_comment c cs
  | blank =>
      rw [rest?, TokenKind.pattern, run_plus_one hnext, TokenKind.recognise?, blank?, hrest]
      cases hc : isBlankChar c with
      | false => simp [runLength_cons_of_neg hc]
      | true => simp [runLength_cons_of_pos hc]
  | string =>
      rw [rest?, TokenKind.pattern, run_either, run_quoted (by decide) hrest,
        run_quoted (by decide) hrest, TokenKind.recognise?, string?]
      by_cases hc : c = '"' ∨ c = '\''
      · rw [if_pos hc]
        obtain rfl | rfl := hc <;> simp [Option.map_eq_bind]
      · rw [not_or] at hc
        simp [hc.1, hc.2]
  | number =>
      rw [rest?, TokenKind.pattern, run_either, run_hex hnext hrest, run_decimal hnext hrest,
        TokenKind.recognise?, number?]
      by_cases hhex : c = '0' ∧ hexLength cs ≠ 0
      · have hdigit : isDigit c = true := by
          rw [hhex.1]
          decide
        simp only [if_pos hhex, hdigit, if_true]
        rfl
      · cases hc : isDigit c <;> simp [hhex]
  | keyword => exact rest?_keyword c cs
  | ident =>
      rw [rest?, TokenKind.pattern, run_seq, run_one_cons hrest, run_many_one hnext,
        TokenKind.recognise?, ident?]
      cases isNameStart c <;> simp [Nat.add_comm 1]
  | operator => exact rest?_operator c cs
  | punctuation =>
      rw [rest?, TokenKind.pattern, run_one_cons hrest, TokenKind.recognise?, punctuation?]
      split <;> simp

end Pattern

end Script
end ScriptWeave
