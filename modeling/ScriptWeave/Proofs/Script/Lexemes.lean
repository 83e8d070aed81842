import ScriptWeave.Proofs.Script.Lexing

/-!
The ends of lexemes. How far a recogniser reads depends only on what stands behind the lexeme: a
name must not go on, a numeral must not get a fraction, and an operator must not become a longer
one. So a recogniser takes the same lexeme off any other text that stands apart from it.
-/

namespace ScriptWeave
namespace Script

namespace Lexeme

def operatorChars : List Char := ['-', '+', '*', '/', '%', '<', '>', '=', '!', '?', '&', '|']

def isOperatorChar (c : Char) : Bool := operatorChars.contains c

/-- Behind a name or a numeral: nothing that would make it longer. -/
structure Stops (rest : List Char) : Prop where
  name : runLength isNameChar rest = 0
  fraction : fractionLength rest = 0

/-- Behind an operator: no character of another one. -/
def Apart (rest : List Char) : Prop := runLength isOperatorChar rest = 0

/-- What may stand behind a lexeme of a kind. -/
def Safe : TokenKind → List Char → Prop
  | .number, rest | .keyword, rest | .ident, rest => Stops rest
  | .operator, rest => Apart rest
  | .string, _ | .punctuation, _ => True
  | .comment, _ | .blank, _ => False

section

variable {p : Char → Bool} {c : Char} {cs lex rest rest' : List Char} {n : Nat}

theorem runLength_le (p : Char → Bool) (cs : List Char) : runLength p cs ≤ cs.length :=
  (List.takeWhile_sublist p).length_le

theorem runLength_cons_of_pos (h : p c = true) : runLength p (c :: cs) = runLength p cs + 1 := by
  simp [runLength, h]

theorem runLength_cons_of_neg (h : p c = false) : runLength p (c :: cs) = 0 := by
  simp [runLength, h]

theorem runLength_cons_eq_zero : runLength p (c :: cs) = 0 ↔ p c = false := by
  cases h : p c <;> simp [runLength, h]

theorem take_runLength (p : Char → Bool) (cs : List Char) :
    cs.take (runLength p cs) = cs.takeWhile p :=
  (List.prefix_iff_eq_take.1 (List.takeWhile_prefix p)).symm

/-- A run that ends inside of a text or at its end is the same before another rest. -/
theorem runLength_swap (lex rest : List Char) (h : runLength p (lex ++ rest) ≤ lex.length)
    (h' : runLength p rest' = 0) : runLength p (lex ++ rest') = runLength p (lex ++ rest) := by
  induction lex with
  | nil =>
      rw [List.length_nil, Nat.le_zero_eq] at h
      rw [List.nil_append, List.nil_append, h', ← h, List.nil_append]
  | cons c lex ih =>
      cases hc : p c with
      | false =>
          rw [List.cons_append, List.cons_append, runLength_cons_of_neg hc,
            runLength_cons_of_neg hc]
      | true =>
          rw [List.cons_append, runLength_cons_of_pos hc, List.length_cons] at h
          rw [List.cons_append, List.cons_append, runLength_cons_of_pos hc,
            runLength_cons_of_pos hc, ih (by omega)]

theorem runLength_mono {q : Char → Bool} (h : ∀ c, p c = true → q c = true) (cs : List Char) :
    runLength p cs ≤ runLength q cs := by
  induction cs with
  | nil => exact Nat.le_refl 0
  | cons c cs ih =>
      cases hc : p c with
      | false =>
          rw [runLength_cons_of_neg hc]
          exact Nat.zero_le _
      | true =>
          rw [runLength_cons_of_pos hc, runLength_cons_of_pos (h c hc)]
          omega

/-- Behind the end of a name no digit and no letter follows. -/
theorem runLength_eq_zero_of_imp {q : Char → Bool} (h : ∀ c, p c = true → q c = true)
    (hq : runLength q rest = 0) : runLength p rest = 0 := by
  have := runLength_mono h rest
  omega

end

theorem isNameChar_of_isDigit (c : Char) (h : isDigit c = true) : isNameChar c = true := by
  simp [isNameChar, h]

theorem isNameChar_of_isWordChar (c : Char) (h : isWordChar c = true) : isNameChar c = true := by
  simp only [isWordChar, isNameChar, isNameStart, Bool.or_eq_true] at h ⊢
  grind

theorem isNameChar_of_isHexDigit (c : Char) (h : isHexDigit c = true) : isNameChar c = true := by
  simp only [isHexDigit, isNameChar, isNameStart, isLetter, Bool.or_eq_true, Bool.and_eq_true,
    decide_eq_true_eq] at h ⊢
  obtain (hdigit | ⟨ha, hf⟩) | ⟨ha, hf⟩ := h
  · exact Or.inr hdigit
  · exact Or.inl (Or.inl (Or.inl (Or.inl ⟨ha, Char.le_trans hf (by decide)⟩)))
  · exact Or.inl (Or.inl (Or.inl (Or.inr ⟨ha, Char.le_trans hf (by decide)⟩)))

section

variable {c : Char} {cs : List Char}

theorem comment?_eq_none (h : c ≠ '/') (cs : List Char) : comment? c cs = none := by
  rw [comment?]
  · rintro _ rfl
    exact absurd rfl h
  · rintro _ rfl
    exact absurd rfl h

theorem throughClose?_cons (c : Char) (cs : List Char) :
    throughClose? (c :: cs) =
      if "*/".toList.isPrefixOf (c :: cs) then some 2 else (throughClose? cs).map (· + 1) := by
  by_cases hclose : c = '*' ∧ cs.head? = some '/'
  · obtain ⟨rfl, hslash⟩ := hclose
    obtain ⟨cs, rfl⟩ := List.head?_eq_some_iff.1 hslash
    rfl
  · have hno : "*/".toList.isPrefixOf (c :: cs) = false := by
      rw [← Bool.not_eq_true, List.isPrefixOf_iff_prefix]
      rintro ⟨rest, heq⟩
      cases heq
      exact hclose ⟨rfl, rfl⟩
    rw [hno, throughClose?]
    · rfl
    · rintro cs rfl rfl
      exact hclose ⟨rfl, rfl⟩

theorem blank?_eq_none (h : isBlankChar c = false) (cs : List Char) : blank? c cs = none := by
  simp [blank?, h]

theorem string?_eq_none (h : c ≠ '"' ∧ c ≠ '\'') (cs : List Char) : string? c cs = none := by
  simp [string?, h]

theorem number?_eq_none (h : isDigit c = false) (cs : List Char) : number? c cs = none := by
  simp [number?, h]

theorem ident?_eq_some (h : isNameStart c = true) (cs : List Char) :
    ident? c cs = some (runLength isNameChar cs) := by
  simp [ident?, h]

theorem ident?_eq_none (h : isNameStart c = false) (cs : List Char) : ident? c cs = none := by
  simp [ident?, h]

theorem isNameStart_of_mem_keywords {w : String} (h : w ∈ keywords) :
    ∃ c cs, w.toList = c :: cs ∧ isNameStart c = true := by
  have hall : ∀ w ∈ keywords, (w.toList.head?.map isNameStart) = some true := by decide
  have hw := hall w h
  cases hlist : w.toList with
  | nil => simp [hlist] at hw
  | cons c cs => exact ⟨c, cs, rfl, by simpa [hlist] using hw⟩

theorem isWordChar_of_mem_keywords {w : String} (h : w ∈ keywords) :
    w.toList ≠ [] ∧ ∀ c ∈ w.toList, isWordChar c = true := by
  have hall : ∀ w ∈ keywords, w.toList ≠ [] ∧ w.toList.all isWordChar = true := by decide
  exact ⟨(hall w h).1, List.all_eq_true.1 (hall w h).2⟩

theorem keyword?_eq_none (h : isNameStart c = false) (cs : List Char) : keyword? c cs = none := by
  rw [keyword?]
  split
  · next hmem =>
      rw [List.contains_iff_mem] at hmem
      obtain ⟨c', cs', heq, hstart⟩ := isNameStart_of_mem_keywords hmem
      rw [String.toList_ofList] at heq
      cases heq
      rw [h] at hstart
      cases hstart
  · rfl

theorem mem_operatorChars_of_mem_longOperators {op : String} (h : op ∈ longOperators) :
    1 < op.toList.length ∧ ∀ c ∈ op.toList, isOperatorChar c = true := by
  have hlong : ∀ op ∈ longOperators,
      1 < op.toList.length ∧ op.toList.all isOperatorChar = true := by decide
  obtain ⟨hlength, hall⟩ := hlong op h
  exact ⟨hlength, List.all_eq_true.1 hall⟩

theorem operator?_eq_none (h : isOperatorChar c = false) (cs : List Char) :
    operator? c cs = none := by
  have hfind : longOperators.find? (fun op => op.toList.isPrefixOf (c :: cs)) = none := by
    rw [List.find?_eq_none]
    intro op hop hprefix
    obtain ⟨hlen, hchars⟩ := mem_operatorChars_of_mem_longOperators hop
    obtain ⟨tail, htail⟩ := List.isPrefixOf_iff_prefix.1 hprefix
    cases hlist : op.toList with
    | nil => simp [hlist] at hlen
    | cons c' cs' =>
        rw [hlist, List.cons_append] at htail
        have hc := hchars c' (by simp [hlist])
        rw [(List.cons.inj htail).1, h] at hc
        cases hc
  have hsingle : ['-', '+', '*', '/', '%', '<', '>', '=', '!', '?'].contains c = false := by
    simp only [isOperatorChar, operatorChars] at h
    simp_all
  simp only [operator?, hfind, hsingle]
  rfl

end

section

variable {lex rest rest' : List Char}

theorem throughQuote?_escape (quote c : Char) (cs : List Char) :
    throughQuote? quote ('\\' :: c :: cs) =
      if c = '\n' then none else (throughQuote? quote cs).map (· + 2) := by
  rw [throughQuote?]

theorem throughQuote?_cons {quote c : Char} (h : c ≠ '\\') (cs : List Char) :
    throughQuote? quote (c :: cs) =
      if c = quote then some 1 else (throughQuote? quote cs).map (· + 1) := by
  rw [throughQuote?, if_neg h]
  intro c' cs' heq
  exact absurd heq h

theorem throughQuote?_bounds {quote : Char} {cs : List Char} {n : Nat}
    (h : throughQuote? quote cs = some n) : 0 < n ∧ n ≤ cs.length := by
  fun_induction throughQuote? quote cs generalizing n with
  | case1 => cases h
  | case2 => cases h
  | case3 c cs _ ih =>
      obtain ⟨m, hm, rfl⟩ := Option.map_eq_some_iff.1 h
      have := ih hm
      simp only [List.length_cons]
      omega
  | case4 =>
      cases h
      simp
  | case5 => cases h
  | case6 c cs _ _ _ ih =>
      obtain ⟨m, hm, rfl⟩ := Option.map_eq_some_iff.1 h
      have := ih hm
      simp only [List.length_cons]
      omega

theorem throughQuote?_swap {quote : Char} (hquote : quote ≠ '\\')
    (h : throughQuote? quote (lex ++ rest) = some lex.length) :
    throughQuote? quote (lex ++ rest') = some lex.length := by
  induction hlen : lex.length using Nat.strongRecOn generalizing lex with
  | ind k ih =>
      subst hlen
      match lex with
      | [] => exact absurd (throughQuote?_bounds h).1 (Nat.lt_irrefl 0)
      | c :: lex =>
          by_cases hc : c = '\\'
          · subst hc
            match lex with
            | [] =>
                match rest with
                | [] => simp [throughQuote?, hquote.symm] at h
                | d :: rest =>
                    rw [List.cons_append, List.nil_append, throughQuote?_escape] at h
                    split at h
                    · cases h
                    · obtain ⟨m, _, hm⟩ := Option.map_eq_some_iff.1 h
                      simp at hm
            | d :: lex =>
                rw [List.cons_append, List.cons_append, throughQuote?_escape] at h ⊢
                split at h
                · cases h
                · next hd =>
                    obtain ⟨m, hm, hlen⟩ := Option.map_eq_some_iff.1 h
                    simp only [List.length_cons] at hlen
                    have hm' : m = lex.length := by omega
                    rw [if_neg hd, ih _ (by simp only [List.length_cons]; omega) (hm' ▸ hm) rfl]
                    rfl
          · rw [List.cons_append, throughQuote?_cons hc] at h ⊢
            split at h
            · next hq =>
                rw [if_pos hq]
                exact h
            · next hq =>
                obtain ⟨m, hm, hlen⟩ := Option.map_eq_some_iff.1 h
                simp only [List.length_cons] at hlen
                have hm' : m = lex.length := by omega
                rw [if_neg hq, ih _ (by simp only [List.length_cons]; omega) (hm' ▸ hm) rfl]
                rfl

theorem Stops.runLength_digit (h : Stops rest) : runLength isDigit rest = 0 :=
  runLength_eq_zero_of_imp isNameChar_of_isDigit h.name

theorem fractionLength_le (cs : List Char) : fractionLength cs ≤ cs.length := by
  rw [fractionLength.eq_def]
  split
  · next cs =>
      have := runLength_le isDigit cs
      split
      · exact Nat.zero_le _
      · simp only [List.length_cons]
        omega
  · exact Nat.zero_le _

theorem fractionLength_point (cs : List Char) :
    fractionLength ('.' :: cs) =
      if runLength isDigit cs = 0 then 0 else runLength isDigit cs + 1 := by
  rw [fractionLength]
  split <;> simp_all

theorem fractionLength_cons {c : Char} (h : c ≠ '.') (cs : List Char) :
    fractionLength (c :: cs) = 0 := by
  rw [fractionLength]
  intro cs' heq
  exact absurd (List.cons.inj heq).1 h

theorem fractionLength_swap (lex rest : List Char)
    (h : fractionLength (lex ++ rest) ≤ lex.length) (hrest : Stops rest') :
    fractionLength (lex ++ rest') = fractionLength (lex ++ rest) := by
  cases lex with
  | nil =>
      rw [List.length_nil, Nat.le_zero_eq] at h
      rw [List.nil_append, hrest.fraction, h]
  | cons c lex =>
      by_cases hc : c = '.'
      · subst hc
        rw [List.cons_append, fractionLength_point] at h
        rw [List.cons_append, List.cons_append, fractionLength_point, fractionLength_point,
          runLength_swap lex rest _ hrest.runLength_digit]
        split at h
        · omega
        · simp only [List.length_cons] at h
          omega
      · rw [List.cons_append, List.cons_append, fractionLength_cons hc, fractionLength_cons hc]

theorem exponentLength_cons {e : Char} (h : ¬(e = 'e' ∨ e = 'E')) (cs : List Char) :
    exponentLength (e :: cs) = 0 := by
  cases cs <;> simp [exponentLength, h]

theorem exponentLength_signed {e sign : Char} (he : e = 'e' ∨ e = 'E')
    (hsign : sign = '+' ∨ sign = '-') (ds : List Char) :
    exponentLength (e :: sign :: ds) =
      if runLength isDigit ds = 0 then 0 else runLength isDigit ds + 2 := by
  rw [exponentLength, if_pos he]
  simp only [hsign, if_true]
  split <;> simp_all

theorem exponentLength_unsigned {e c : Char} (he : e = 'e' ∨ e = 'E') (hc : ¬(c = '+' ∨ c = '-'))
    (ds : List Char) :
    exponentLength (e :: c :: ds) =
      if runLength isDigit (c :: ds) = 0 then 0 else runLength isDigit (c :: ds) + 1 := by
  rw [exponentLength, if_pos he]
  simp only [hc, if_false]
  split <;> simp_all

theorem exponentLength_le (cs : List Char) : exponentLength cs ≤ cs.length := by
  match cs with
  | [] => exact Nat.le_refl 0
  | [e] => simp [exponentLength]
  | e :: c :: ds =>
      by_cases he : e = 'e' ∨ e = 'E'
      · by_cases hc : c = '+' ∨ c = '-'
        · have := runLength_le isDigit ds
          rw [exponentLength_signed he hc]
          split <;> simp only [List.length_cons] <;> omega
        · have := runLength_le isDigit (c :: ds)
          rw [exponentLength_unsigned he hc]
          split <;> simp only [List.length_cons] at * <;> omega
      · rw [exponentLength_cons he]
        exact Nat.zero_le _

theorem Stops.exponentLength (h : Stops rest) : exponentLength rest = 0 := by
  cases rest with
  | nil => rfl
  | cons c rest =>
      refine exponentLength_cons ?_ rest
      have hname := runLength_cons_eq_zero.1 h.name
      rintro (rfl | rfl)
      · exact absurd hname (by decide)
      · exact absurd hname (by decide)

theorem exponentLength_swap (lex rest : List Char)
    (h : exponentLength (lex ++ rest) = lex.length) (hrest : Stops rest') :
    exponentLength (lex ++ rest') = lex.length := by
  match lex with
  | [] => exact hrest.exponentLength
  | e :: lex =>
      by_cases he : e = 'e' ∨ e = 'E'
      · match lex with
        | [] =>
            match rest with
            | [] => simp [Lexeme.exponentLength] at h
            | c :: rest =>
                by_cases hc : c = '+' ∨ c = '-'
                · rw [List.cons_append, List.nil_append, exponentLength_signed he hc] at h
                  split at h <;> simp only [List.length_cons, List.length_nil] at h <;> omega
                · rw [List.cons_append, List.nil_append, exponentLength_unsigned he hc] at h
                  split at h <;> simp only [List.length_cons, List.length_nil] at h <;> omega
        | c :: lex =>
            by_cases hc : c = '+' ∨ c = '-'
            · rw [List.cons_append, List.cons_append, exponentLength_signed he hc] at h ⊢
              split at h
              · simp at h
              · simp only [List.length_cons] at h ⊢
                rw [runLength_swap lex rest (by omega) hrest.runLength_digit]
                split <;> omega
            · rw [List.cons_append, List.cons_append, exponentLength_unsigned he hc,
                ← List.cons_append] at h ⊢
              split at h
              · simp at h
              · simp only [List.length_cons] at h ⊢
                rw [runLength_swap (c :: lex) rest (by simp only [List.length_cons]; omega)
                  hrest.runLength_digit]
                split <;> omega
      · rw [List.cons_append, exponentLength_cons he] at h
        simp at h

theorem decimalLength_le (cs : List Char) : decimalLength cs ≤ cs.length := by
  have hwhole := runLength_le isDigit cs
  have hfraction := fractionLength_le (cs.drop (runLength isDigit cs))
  have hexponent := exponentLength_le
    (cs.drop (runLength isDigit cs + fractionLength (cs.drop (runLength isDigit cs))))
  simp only [List.length_drop] at hfraction hexponent
  simp only [decimalLength]
  omega

theorem decimalLength_swap (h : decimalLength (lex ++ rest) = lex.length) (hrest : Stops rest') :
    decimalLength (lex ++ rest') = lex.length := by
  simp only [decimalLength] at h ⊢
  have hwhole := runLength_swap (p := isDigit) lex rest (by omega)
    hrest.runLength_digit
  rw [hwhole]
  generalize runLength isDigit (lex ++ rest) = n at h
  rw [List.drop_append_of_le_length (by omega)] at h ⊢
  have hfraction := fractionLength_swap (lex.drop n) rest
    (by rw [List.length_drop]; omega) hrest
  rw [hfraction]
  generalize fractionLength (lex.drop n ++ rest) = m at h
  rw [List.drop_append_of_le_length (by omega)] at h ⊢
  have hexponent := exponentLength_swap (lex.drop (n + m)) rest
    (by rw [List.length_drop]; omega) hrest
  rw [hexponent, List.length_drop]
  omega

theorem hexLength_cons_of_neg {x : Char} (h : ¬(x = 'x' ∨ x = 'X')) (cs : List Char) :
    hexLength (x :: cs) = 0 := by
  rw [hexLength, if_neg h]

theorem hexLength_cons_of_pos {x : Char} (h : x = 'x' ∨ x = 'X') (cs : List Char) :
    hexLength (x :: cs) =
      if runLength isHexDigit cs = 0 then 0 else runLength isHexDigit cs + 1 := by
  rw [hexLength, if_pos h]
  split <;> simp_all

theorem hexLength_le (cs : List Char) : hexLength cs ≤ cs.length := by
  cases cs with
  | nil => exact Nat.le_refl 0
  | cons x cs =>
      by_cases hx : x = 'x' ∨ x = 'X'
      · have := runLength_le isHexDigit cs
        rw [hexLength_cons_of_pos hx]
        split <;> simp only [List.length_cons] <;> omega
      · rw [hexLength_cons_of_neg hx]
        exact Nat.zero_le _

theorem Stops.hexLength (h : Stops rest) : hexLength rest = 0 := by
  cases rest with
  | nil => rfl
  | cons x rest =>
      refine hexLength_cons_of_neg ?_ rest
      have hname := runLength_cons_eq_zero.1 h.name
      rintro (rfl | rfl)
      · exact absurd hname (by decide)
      · exact absurd hname (by decide)

theorem hexLength_swap (lex rest : List Char) (h : hexLength (lex ++ rest) ≤ lex.length)
    (hrest : Stops rest') :
    hexLength (lex ++ rest') = hexLength (lex ++ rest) := by
  cases lex with
  | nil =>
      rw [List.length_nil, Nat.le_zero_eq] at h
      rw [List.nil_append, hrest.hexLength, h]
  | cons x lex =>
      by_cases hx : x = 'x' ∨ x = 'X'
      · rw [List.cons_append, hexLength_cons_of_pos hx] at h
        rw [List.cons_append, List.cons_append, hexLength_cons_of_pos hx,
          hexLength_cons_of_pos hx, runLength_swap lex rest _
            (runLength_eq_zero_of_imp isNameChar_of_isHexDigit hrest.name)]
        split at h
        · omega
        · simp only [List.length_cons] at h
          omega
      · rw [List.cons_append, List.cons_append, hexLength_cons_of_neg hx, hexLength_cons_of_neg hx]

theorem number?_swap {c : Char} (h : number? c (lex ++ rest) = some lex.length)
    (hrest : Stops rest') : number? c (lex ++ rest') = some lex.length := by
  rw [number?] at h ⊢
  split at h
  · next hdigit =>
      rw [if_pos hdigit]
      split at h
      · next hhex =>
          have heq := Option.some.inj h
          rw [hexLength_swap lex rest (by omega) hrest, if_pos hhex, heq]
      · next hhex =>
          have hzero : ¬(c = '0' ∧ hexLength (lex ++ rest') ≠ 0) := by
            rintro ⟨hc, hne⟩
            have hlex : hexLength (lex ++ rest) = 0 := Decidable.not_not.1 fun h => hhex ⟨hc, h⟩
            rw [hexLength_swap lex rest (by omega) hrest] at hne
            exact hne hlex
          rw [if_neg hzero, decimalLength_swap (Option.some.inj h) hrest]
  · cases h

theorem keyword?_swap {c : Char} (h : runLength isWordChar (lex ++ rest) ≤ lex.length)
    (hrest : Stops rest') : keyword? c (lex ++ rest') = keyword? c (lex ++ rest) := by
  have hrun := runLength_swap (p := isWordChar) lex rest h
    (runLength_eq_zero_of_imp isNameChar_of_isWordChar hrest.name)
  simp only [keyword?, hrun]
  rw [List.take_append_of_le_length h, List.take_append_of_le_length h]

theorem keyword?_eq_some {c : Char} {cs : List Char} {n : Nat} (h : keyword? c cs = some n) :
    runLength isWordChar cs = n := by
  simp only [keyword?] at h
  split at h
  · exact Option.some.inj h
  · cases h

/-- No operator goes on into a rest that stands apart. -/
theorem prefix_of_prefix_append {op cs : List Char} (hop : ∀ c ∈ op, isOperatorChar c = true)
    (hrest : Apart rest') (h : op <+: cs ++ rest') : op <+: cs := by
  induction cs generalizing op with
  | nil =>
      cases op with
      | nil => exact List.nil_prefix
      | cons c op =>
          cases rest' with
          | nil => simp at h
          | cons d rest' =>
              obtain ⟨rfl, _⟩ := List.cons_prefix_cons.1 h
              rw [Apart, runLength_cons_eq_zero, hop c List.mem_cons_self] at hrest
              cases hrest
  | cons d cs ih =>
      cases op with
      | nil => exact List.nil_prefix
      | cons c op =>
          obtain ⟨rfl, hprefix⟩ := List.cons_prefix_cons.1 h
          exact List.cons_prefix_cons.2
            ⟨rfl, ih (fun c hc => hop c (List.mem_cons_of_mem _ hc)) hprefix⟩

theorem operator?_eq_some {c : Char} {cs : List Char} {n : Nat} (h : operator? c cs = some n) :
    n ≤ cs.length := by
  rw [operator?] at h
  split at h
  · next op hfind =>
      have hprefix := List.find?_some hfind
      have hlen := (List.isPrefixOf_iff_prefix.1 hprefix).length_le
      rw [String.length_toList, List.length_cons] at hlen
      have := Option.some.inj h
      omega
  · split at h
    · have := Option.some.inj h
      omega
    · cases h

theorem operator?_swap {c : Char} (h : operator? c (lex ++ rest) = some lex.length)
    (hrest : Apart rest') : operator? c (lex ++ rest') = some lex.length := by
  rw [operator?] at h
  split at h
  · next op hfind =>
      obtain ⟨hop, before, after, hlist, hbefore⟩ := List.find?_eq_some_iff_append.1 hfind
      have hmem : op ∈ longOperators := by simp [hlist]
      have hlen := (mem_operatorChars_of_mem_longOperators hmem).1
      have hlength : op.toList.length = (c :: lex).length := by
        have := Option.some.inj h
        rw [String.length_toList] at hlen ⊢
        rw [List.length_cons]
        omega
      have hlexeme : op.toList = c :: lex := by
        have hprefix := List.isPrefixOf_iff_prefix.1 hop
        rw [← List.cons_append] at hprefix
        exact List.IsPrefix.eq_of_length
          (List.prefix_of_prefix_length_le hprefix (List.prefix_append _ _) (by omega)) hlength
      have hfind' : longOperators.find? (fun op => op.toList.isPrefixOf (c :: (lex ++ rest'))) =
          some op := by
        refine List.find?_eq_some_iff_append.2 ⟨?_, before, after, hlist, ?_⟩
        · rw [List.isPrefixOf_iff_prefix, hlexeme, ← List.cons_append]
          exact List.prefix_append _ _
        · intro other hother
          rw [Bool.not_eq_true', ← Bool.not_eq_true]
          intro hprefix
          rw [List.isPrefixOf_iff_prefix, ← List.cons_append] at hprefix
          have hother' : other ∈ longOperators := by simp [hlist, hother]
          have hchars := (mem_operatorChars_of_mem_longOperators hother').2
          have hpart := prefix_of_prefix_append hchars hrest hprefix
          have hnot := hbefore other hother
          rw [Bool.not_eq_true', ← Bool.not_eq_true] at hnot
          refine hnot (List.isPrefixOf_iff_prefix.2 ?_)
          rw [← List.cons_append]
          exact hpart.trans (List.prefix_append _ _)
      simp only [operator?, hfind', h]
  · next hfind =>
      have hfind' : longOperators.find? (fun op => op.toList.isPrefixOf (c :: (lex ++ rest'))) =
          none := by
        rw [List.find?_eq_none] at hfind ⊢
        intro op hop hprefix
        have hchars := (mem_operatorChars_of_mem_longOperators hop).2
        rw [List.isPrefixOf_iff_prefix, ← List.cons_append] at hprefix
        refine hfind op hop (List.isPrefixOf_iff_prefix.2 ?_)
        rw [← List.cons_append]
        exact (prefix_of_prefix_append hchars hrest hprefix).trans (List.prefix_append _ _)
      simp only [operator?, hfind', h]

/-- An operator does not begin a comment before another rest. -/
theorem comment?_swap {c : Char} (h : comment? c (lex ++ rest) = none)
    (hop : operator? c (lex ++ rest) = some lex.length) (hrest : Apart rest') :
    comment? c (lex ++ rest') = none := by
  by_cases hc : c = '/'
  · subst hc
    cases lex with
    | nil =>
        cases rest' with
        | nil => rfl
        | cons d rest' =>
            rw [Apart, runLength_cons_eq_zero] at hrest
            rw [List.nil_append, comment?]
            · rintro _ _ heq
              cases heq
              exact absurd hrest (by decide)
            · rintro _ _ heq
              cases heq
              exact absurd hrest (by decide)
    | cons d lex =>
        rw [List.cons_append, comment?]
        · rintro _ _ heq
          cases heq
          simp [comment?] at h
        · rintro _ _ heq
          cases heq
          simp [operator?, longOperators] at hop
  · exact comment?_eq_none hc _

end

end Lexeme

end Script
end ScriptWeave
