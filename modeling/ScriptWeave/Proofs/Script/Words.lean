import ScriptWeave.Proofs.Script.Lexemes
import ScriptWeave.Proofs.Script.Unplaced

/-!
Words. The first character of a lexeme tells its kind, but for comments and operators and for
keywords and names, so a lexeme of one text is a lexeme by itself and is cut off from other texts in
the same way. A text that is written with its words apart is cut into these words again.
-/

namespace ScriptWeave
namespace Script

namespace TokenKind

open Lexeme

/-- The kinds that are tried before a kind. -/
def earlier (kind : TokenKind) : List TokenKind := all.takeWhile (· ≠ kind)

/-- The characters with which a lexeme of a kind may begin. -/
def opens : TokenKind → Char → Bool
  | .comment, c => c = '/'
  | .blank, c => isBlankChar c
  | .string, c => c = '"' || c = '\''
  | .number, c => isDigit c
  | .keyword, c | .ident, c => isNameStart c
  | .operator, c => isOperatorChar c
  | .punctuation, c => ['{', '}', '(', ')', '[', ']', ';', ':', ',', '.'].contains c

variable {c : Char}

theorem recognise?_eq_none {kind : TokenKind} (h : kind.opens c = false) (cs : List Char) :
    kind.recognise? c cs = none := by
  cases kind with
  | comment => exact comment?_eq_none (by simpa [opens] using h) cs
  | blank => exact blank?_eq_none h cs
  | string => exact string?_eq_none (by simpa [opens] using h) cs
  | number => exact number?_eq_none h cs
  | keyword => exact keyword?_eq_none h cs
  | ident => exact ident?_eq_none h cs
  | operator => exact operator?_eq_none h cs
  | punctuation =>
      simp only [opens] at h
      simp only [recognise?, punctuation?, h]
      rfl

theorem opens_of_recognise? {kind : TokenKind} {cs : List Char} {n : Nat}
    (h : kind.recognise? c cs = some n) : kind.opens c = true := by
  cases hopens : kind.opens c with
  | true => rfl
  | false =>
      rw [recognise?_eq_none hopens] at h
      cases h

/-- Layout and strings begin with characters that no numeral and no name begins with. -/
theorem mem_of_opens {kind : TokenKind} (hkind : kind ∈ [TokenKind.comment, .blank, .string])
    (h : kind.opens c = true) :
    c ∈ ['/', '"', '\'', ' ', '\t', '\n', '\r', Char.ofNat 12] := by
  have hfeed : c.toNat = 12 → c = Char.ofNat 12 := fun h => Char.toNat_inj.1 (h.trans (by decide))
  simp only [List.mem_cons, List.not_mem_nil, or_false] at hkind
  obtain rfl | rfl | rfl := hkind
  · simp_all [opens]
  · simp only [opens, isBlankChar, Bool.or_eq_true, decide_eq_true_eq] at h
    grind
  · simp only [opens, Bool.or_eq_true, decide_eq_true_eq] at h
    grind

theorem not_opens_of_isNameChar (hc : isNameChar c = true) :
    ∀ k ∈ [TokenKind.comment, .blank, .string], k.opens c = false := by
  intro k hk
  rw [← Bool.not_eq_true]
  intro hopens
  have hall : (['/', '"', '\'', ' ', '\t', '\n', '\r', Char.ofNat 12].all fun c =>
      !isNameChar c) = true := by decide
  have hname := List.all_eq_true.1 hall c (mem_of_opens hk hopens)
  rw [hc] at hname
  cases hname

theorem not_isDigit_of_isNameStart (h : isNameStart c = true) : isDigit c = false := by
  rw [← Bool.not_eq_true]
  intro hdigit
  simp only [isNameStart, isLetter, isDigit, Bool.or_eq_true, Bool.and_eq_true,
    decide_eq_true_eq] at h hdigit
  obtain ((⟨hle, _⟩ | ⟨hle, _⟩) | rfl) | rfl := h
  · exact absurd (Char.le_trans hle hdigit.2) (by decide)
  · exact absurd (Char.le_trans hle hdigit.2) (by decide)
  · exact absurd hdigit.2 (by decide)
  · exact absurd hdigit.1 (by decide)

theorem not_opens_of_name (h : isNameStart c = true) :
    ∀ k ∈ [TokenKind.comment, .blank, .string, .number], k.opens c = false := by
  have hlayout := not_opens_of_isNameChar (c := c) (by simp [isNameChar, h])
  intro k hk
  simp only [List.mem_cons, List.not_mem_nil, or_false] at hk
  obtain rfl | rfl | rfl | rfl := hk
  · exact hlayout _ (by decide)
  · exact hlayout _ (by decide)
  · exact hlayout _ (by decide)
  · exact not_isDigit_of_isNameStart h

theorem not_opens_of_operator (h : isOperatorChar c = true) :
    ∀ k ∈ [TokenKind.blank, .string, .number, .keyword, .ident], k.opens c = false := by
  have hall : ∀ k ∈ [TokenKind.blank, .string, .number, .keyword, .ident],
      (operatorChars.all fun c => !k.opens c) = true := by decide
  intro k hk
  simpa using List.all_eq_true.1 (hall k hk) c (List.contains_iff_mem.1 h)

theorem not_opens_of_punctuation (h : punctuation.opens c = true) :
    ∀ k ∈ punctuation.earlier, k.opens c = false := by
  have hall : ∀ k ∈ punctuation.earlier,
      (['{', '}', '(', ')', '[', ']', ';', ':', ',', '.'].all fun c => !k.opens c) = true := by
    decide
  intro k hk
  simpa using List.all_eq_true.1 (hall k hk) c (List.contains_iff_mem.1 h)

end TokenKind

namespace Lexer

open Lexeme

theorem front?_eq_some_iff {c : Char} {cs : List Char} {kind : TokenKind} {n : Nat} :
    front? c cs = some (kind, n) ↔
      kind.recognise? c cs = some n ∧ ∀ k ∈ kind.earlier, k.recognise? c cs = none := by
  rw [front?, List.findSome?_eq_some_iff]
  constructor
  · rintro ⟨before, k, after, hall, hk, hbefore⟩
    obtain ⟨m, hm, heq⟩ := Option.map_eq_some_iff.1 hk
    cases heq
    have hnone : ∀ k ∈ before, k.recognise? c cs = none := fun k hmem => by
      simpa using hbefore k hmem
    have hearlier : kind.earlier = before := by
      rw [TokenKind.earlier, hall, List.takeWhile_append_of_pos]
      · simp
      · intro k hmem
        have : k ≠ kind := by
          rintro rfl
          rw [hnone k hmem] at hm
          cases hm
        simpa using this
    exact ⟨hm, hearlier ▸ hnone⟩
  · rintro ⟨hk, hearlier⟩
    have hall : ∃ after, TokenKind.all = kind.earlier ++ kind :: after := by
      cases kind <;> exact ⟨_, rfl⟩
    obtain ⟨after, hall⟩ := hall
    exact ⟨kind.earlier, kind, after, hall, by simp [hk], fun k h => by simp [hearlier k h]⟩

/-- A lexeme is cut off from another rest as from its own. -/
theorem front?_swap {c : Char} {lex rest rest' : List Char} {kind : TokenKind}
    (h : front? c (lex ++ rest) = some (kind, lex.length)) (hrest : Safe kind rest') :
    front? c (lex ++ rest') = some (kind, lex.length) := by
  rw [front?_eq_some_iff] at h ⊢
  obtain ⟨hkind, hearlier⟩ := h
  have hopens := TokenKind.opens_of_recognise? hkind
  cases kind with
  | comment => exact hrest.elim
  | blank => exact hrest.elim
  | string =>
      have hquote : c = '"' ∨ c = '\'' := by simpa [TokenKind.opens] using hopens
      simp only [TokenKind.recognise?, string?, if_pos hquote] at hkind ⊢
      refine ⟨throughQuote?_swap ?_ hkind, ?_⟩
      · rintro rfl
        simp at hquote
      · intro k hk
        refine TokenKind.recognise?_eq_none ?_ _
        revert k
        obtain rfl | rfl := hquote <;> decide
  | number =>
      refine ⟨number?_swap hkind hrest, ?_⟩
      intro k hk
      exact TokenKind.recognise?_eq_none
        (TokenKind.not_opens_of_isNameChar (isNameChar_of_isDigit c hopens) k hk) _
  | keyword =>
      have hrun := keyword?_eq_some hkind
      refine ⟨(keyword?_swap (Nat.le_of_eq hrun) hrest).trans hkind, ?_⟩
      intro k hk
      exact TokenKind.recognise?_eq_none (TokenKind.not_opens_of_name hopens k hk) _
  | ident =>
      have hrun : runLength isNameChar (lex ++ rest) = lex.length :=
        Option.some.inj ((ident?_eq_some hopens _).symm.trans hkind)
      have hword : runLength isWordChar (lex ++ rest) ≤ lex.length :=
        Nat.le_trans (runLength_mono isNameChar_of_isWordChar _) (Nat.le_of_eq hrun)
      refine ⟨?_, ?_⟩
      · refine (ident?_eq_some hopens _).trans ?_
        rw [runLength_swap lex rest (Nat.le_of_eq hrun) hrest.name, hrun]
      · intro k hk
        obtain hk | rfl : k ∈ TokenKind.keyword.earlier ∨ k = .keyword := by
          revert k
          decide
        · exact TokenKind.recognise?_eq_none (TokenKind.not_opens_of_name hopens k hk) _
        · exact (keyword?_swap hword hrest).trans (hearlier .keyword (by decide))
  | operator =>
      refine ⟨operator?_swap hkind hrest, ?_⟩
      intro k hk
      obtain rfl | hk : k = .comment ∨
          k ∈ [TokenKind.blank, .string, .number, .keyword, .ident] := by
        revert k
        decide
      · exact comment?_swap (hearlier .comment (by decide)) hkind hrest
      · exact TokenKind.recognise?_eq_none (TokenKind.not_opens_of_operator hopens k hk) _
  | punctuation =>
      refine ⟨hkind, ?_⟩
      intro k hk
      exact TokenKind.recognise?_eq_none (TokenKind.not_opens_of_punctuation hopens k hk) _

theorem recognise?_le {kind : TokenKind} {c : Char} {cs : List Char} {n : Nat}
    (hkind : kind.isLayout = false) (h : kind.recognise? c cs = some n) : n ≤ cs.length := by
  cases kind with
  | comment => cases hkind
  | blank => cases hkind
  | string =>
      simp only [TokenKind.recognise?, string?] at h
      split at h
      · exact (throughQuote?_bounds h).2
      · cases h
  | number =>
      simp only [TokenKind.recognise?, number?] at h
      split at h
      · split at h
        · exact Option.some.inj h ▸ hexLength_le cs
        · exact Option.some.inj h ▸ decimalLength_le cs
      · cases h
  | keyword => exact keyword?_eq_some h ▸ runLength_le _ cs
  | ident =>
      simp only [TokenKind.recognise?, ident?] at h
      split at h
      · exact Option.some.inj h ▸ runLength_le _ cs
      · cases h
  | operator => exact operator?_eq_some h
  | punctuation =>
      simp only [TokenKind.recognise?, punctuation?] at h
      split at h
      · exact Option.some.inj h ▸ Nat.zero_le _
      · cases h

end Lexer

namespace Lexeme

/-- The kind of a text that is one lexeme and no layout. -/
def kind? (text : String) : Option TokenKind :=
  match text.toList with
  | [] => none
  | c :: cs =>
      match Lexer.front? c cs with
      | some (kind, n) => if n = cs.length ∧ kind.isLayout = false then some kind else none
      | none => none

theorem kind?_eq_some_iff {text : String} {kind : TokenKind} :
    kind? text = some kind ↔ ∃ c cs, text.toList = c :: cs ∧
      Lexer.front? c cs = some (kind, cs.length) ∧ kind.isLayout = false := by
  rw [kind?]
  cases text.toList with
  | nil => simp
  | cons c cs =>
      simp only
      constructor
      · intro h
        split at h
        · next k n hfront =>
            split at h
            · next hwhole =>
                cases h
                exact ⟨c, cs, rfl, hwhole.1 ▸ hfront, hwhole.2⟩
            · cases h
        · cases h
      · rintro ⟨c, cs, heq, hfront, hkind⟩
        cases heq
        simp [hfront, hkind]

theorem safe_nil {kind : TokenKind} (h : kind.isLayout = false) : Safe kind [] := by
  cases kind with
  | comment => cases h
  | blank => cases h
  | string | punctuation => trivial
  | number | keyword | ident => exact ⟨rfl, rfl⟩
  | operator => rfl

end Lexeme

namespace Lexer

open Lexeme

theorem front?_blank {c : Char} (hc : isBlankChar c = true) (cs : List Char) :
    front? c cs = some (.blank, runLength isBlankChar cs) := by
  rw [front?_eq_some_iff]
  refine ⟨by simp [TokenKind.recognise?, blank?, hc], ?_⟩
  intro k hk
  refine TokenKind.recognise?_eq_none ?_ cs
  obtain rfl : k = .comment := by
    revert k
    decide
  have hslash : c ≠ '/' := by
    rintro rfl
    exact absurd hc (by decide)
  simpa [TokenKind.opens] using hslash

/-- A lexeme of a text is a lexeme by itself. -/
theorem kind?_of_front? {c : Char} {cs : List Char} {kind : TokenKind} {n : Nat}
    (h : front? c cs = some (kind, n)) (hkind : kind.isLayout = false) :
    kind? (String.ofList (c :: cs.take n)) = some kind := by
  have hle := recognise?_le hkind (front?_eq_some_iff.1 h).1
  have hlen : (cs.take n).length = n := List.length_take_of_le hle
  have hswap : front? c (cs.take n ++ cs.drop n) = some (kind, (cs.take n).length) := by
    rw [List.take_append_drop, hlen, h]
  refine kind?_eq_some_iff.2 ⟨c, cs.take n, String.toList_ofList, ?_, hkind⟩
  simpa using front?_swap hswap (safe_nil hkind)

theorem kind?_of_scan {pos stop : Position} {cs : List Char} {all : List Token}
    (h : scan pos cs = .ok (all, stop)) :
    ∀ t ∈ all, t.kind.isLayout = false → kind? t.text = some t.kind := by
  induction hlen : cs.length using Nat.strongRecOn generalizing pos cs all with
  | ind k ih =>
      subst hlen
      cases cs with
      | nil =>
          rw [scan_nil] at h
          cases h
          simp
      | cons c cs =>
          obtain ⟨kind, n, ts, hfront, hscan, rfl⟩ := scan_cons_eq_ok.1 h
          have hshort := length_drop_lt_cons c cs n
          exact List.forall_mem_cons.2 ⟨kind?_of_front? hfront, ih _ hshort hscan rfl⟩

end Lexer

/-- The token of a lexeme, without a place. -/
def Token.ofText (text : String) : Token := ⟨(Lexeme.kind? text).getD .blank, text, .start⟩

/-- The text is cut into these words, with nothing but layout between them. -/
def Lexed (cs : List Char) (words : List String) : Prop :=
  ∀ pos, ∃ all stop, Lexer.scan pos cs = .ok (all, stop) ∧
    (all.filter fun t => !t.kind.isLayout).map Token.unplaced = words.map Token.ofText

namespace Lexed

open Lexeme

theorem nil : Lexed [] [] := fun pos => ⟨[], pos, Lexer.scan_nil pos, rfl⟩

theorem word {w : String} {kind : TokenKind} {rest : List Char} {words : List String}
    (hkind : kind? w = some kind) (hsafe : Safe kind rest) (h : Lexed rest words) :
    Lexed (w.toList ++ rest) (w :: words) := by
  intro pos
  obtain ⟨c, cs, hw, hfront, hlayout⟩ := kind?_eq_some_iff.1 hkind
  have hwhole : Lexer.front? c (cs ++ []) = some (kind, cs.length) := by
    rw [List.append_nil, hfront]
  have hcut := Lexer.front?_swap hwhole hsafe
  obtain ⟨all, stop, hscan, hwords⟩ := h (pos.advance (c :: cs))
  have htake : (cs ++ rest).take cs.length = cs := List.take_left
  have hdrop : (cs ++ rest).drop cs.length = rest := List.drop_left
  refine ⟨⟨kind, w, pos⟩ :: all, stop, ?_, ?_⟩
  · rw [hw, List.cons_append]
    refine Lexer.scan_cons_eq_ok.2 ⟨kind, cs.length, all, hcut, ?_, ?_⟩
    · rw [htake, hdrop, hscan]
    · rw [htake, ← hw, String.ofList_toList]
  · simp [hlayout, hwords, Token.unplaced, Token.ofText, hkind]

/-- Layout in front of a text joins the layout with which it begins. -/
theorem blank {c : Char} {rest : List Char} {words : List String} (hc : isBlankChar c = true)
    (h : Lexed rest words) : Lexed (c :: rest) words := by
  intro pos
  have hfront := Lexer.front?_blank hc rest
  obtain ⟨all, stop, hscan, hwords⟩ := h (pos.next c)
  cases rest with
  | nil =>
      rw [Lexer.scan_nil] at hscan
      cases hscan
      exact ⟨_, _, Lexer.scan_cons_eq_ok.2 ⟨_, _, _, hfront, Lexer.scan_nil _, rfl⟩, hwords⟩
  | cons d rest =>
      cases hd : isBlankChar d with
      | false =>
          rw [runLength_cons_of_neg hd] at hfront
          exact ⟨_, _, Lexer.scan_cons_eq_ok.2 ⟨_, _, _, hfront, hscan, rfl⟩, hwords⟩
      | true =>
          rw [runLength_cons_of_pos hd] at hfront
          obtain ⟨kind, n, ts, hfront', hscan', rfl⟩ := Lexer.scan_cons_eq_ok.1 hscan
          rw [Lexer.front?_blank hd rest] at hfront'
          cases hfront'
          exact ⟨_, _, Lexer.scan_cons_eq_ok.2 ⟨_, _, _, hfront, hscan', rfl⟩, hwords⟩

theorem blanks {cs rest : List Char} {words : List String}
    (hcs : ∀ c ∈ cs, isBlankChar c = true) (h : Lexed rest words) : Lexed (cs ++ rest) words := by
  induction cs with
  | nil => exact h
  | cons c cs ih =>
      rw [List.forall_mem_cons] at hcs
      exact blank hcs.1 (ih hcs.2)

/-- A text is cut into its words up to their places. -/
theorem tokens_eq_ok {text : String} {words : List String} (h : Lexed text.toList words) :
    ∃ ts stop, tokens text = .ok (ts, stop) ∧
      ts.map Token.unplaced = words.map Token.ofText := by
  obtain ⟨all, stop, hscan, hwords⟩ := h .start
  refine ⟨_, stop, ?_, hwords⟩
  rw [tokens, hscan]
  rfl

end Lexed

end Script
end ScriptWeave
