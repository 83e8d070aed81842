import ScriptWeave.Proofs.Script.Words

/-!
Names at the front of a text. A keyword ends where its word characters end, and the dollar sign is
no word character although names have it. So a run of name characters is one lexeme, a keyword or a
name as its spelling tells, unless a keyword and a dollar sign stand at its front: then the keyword
is cut off.
-/

namespace ScriptWeave
namespace Script
namespace Lexer

open Lexeme

/-- The kind that the spelling of a name calls for. -/
def kindOfName (word : List Char) : TokenKind :=
  if String.ofList word ∈ keywords then .keyword else .ident

/-- The kind and the characters of the lexeme at the front of a text that begins with a name. -/
def nameLexeme (cs : List Char) : TokenKind × List Char :=
  if String.ofList (cs.takeWhile isWordChar) ∈ keywords then (.keyword, cs.takeWhile isWordChar)
  else (.ident, cs.takeWhile isNameChar)

/-- A keyword and a dollar sign stand at the front of a text. -/
def DollarBehind (cs : List Char) (keyword : String) : Prop := keyword.toList ++ ['$'] <+: cs

instance (cs : List Char) (keyword : String) : Decidable (DollarBehind cs keyword) :=
  inferInstanceAs (Decidable (keyword.toList ++ ['$'] <+: cs))

section

variable {c : Char} {cs : List Char}

theorem front?_keyword (hc : isNameStart c = true)
    (h : String.ofList (c :: cs.takeWhile isWordChar) ∈ keywords) :
    front? c cs = some (.keyword, runLength isWordChar cs) := by
  refine front?_eq_some_iff.2 ⟨?_, fun k hk => ?_⟩
  · rw [TokenKind.recognise?, keyword?, take_runLength, if_pos (List.contains_iff_mem.2 h)]
  · exact TokenKind.recognise?_eq_none (TokenKind.not_opens_of_name hc k hk) cs

theorem front?_ident (hc : isNameStart c = true)
    (h : String.ofList (c :: cs.takeWhile isWordChar) ∉ keywords) :
    front? c cs = some (.ident, runLength isNameChar cs) := by
  refine front?_eq_some_iff.2 ⟨ident?_eq_some hc cs, fun k hk => ?_⟩
  obtain hk | rfl : k ∈ TokenKind.keyword.earlier ∨ k = .keyword := by
    revert k
    decide
  · exact TokenKind.recognise?_eq_none (TokenKind.not_opens_of_name hc k hk) cs
  · rw [TokenKind.recognise?, keyword?, take_runLength, if_neg]
    rwa [List.contains_iff_mem]

theorem front?_name (cs : List Char) (hc : isNameStart c = true) :
    ∃ kind n, front? c cs = some (kind, n) ∧ (kind, c :: cs.take n) = nameLexeme (c :: cs) := by
  rw [nameLexeme, List.takeWhile_cons_of_pos (p := isNameChar) (by simp [isNameChar, hc])]
  cases hword : isWordChar c with
  | true =>
      rw [List.takeWhile_cons_of_pos hword]
      split
      · next h => exact ⟨_, _, front?_keyword hc h, by rw [take_runLength]⟩
      · next h => exact ⟨_, _, front?_ident hc h, by rw [take_runLength]⟩
  | false =>
      have hempty : String.ofList ((c :: cs).takeWhile isWordChar) ∉ keywords := by
        rw [List.takeWhile_cons_of_neg (by simp [hword])]
        decide
      have hmem : String.ofList (c :: cs.takeWhile isWordChar) ∉ keywords := by
        intro hmem
        have hall := (isWordChar_of_mem_keywords hmem).2 c (by simp)
        rw [hword] at hall
        cases hall
      rw [if_neg hempty]
      exact ⟨_, _, front?_ident hc hmem, by rw [take_runLength]⟩

/-- A dollar sign ends a run of word characters. -/
theorem DollarBehind.takeWhile {w : String} (hw : w ∈ keywords) (h : DollarBehind cs w) :
    cs.takeWhile isWordChar = w.toList := by
  obtain ⟨rest, rfl⟩ := h
  have hdollar : isWordChar '$' = false := by decide
  rw [List.append_assoc, List.takeWhile_append_of_pos (isWordChar_of_mem_keywords hw).2,
    List.singleton_append, List.takeWhile_cons_of_neg (by simp [hdollar]), List.append_nil]

theorem DollarBehind.nameLexeme {w : String} (hw : w ∈ keywords) (h : DollarBehind cs w) :
    nameLexeme cs = (.keyword, w.toList) := by
  rw [Lexer.nameLexeme, h.takeWhile hw, String.ofList_toList, if_pos hw]

/-- A run of name characters goes on behind the word characters only with a dollar sign. -/
theorem takeWhile_isNameChar_or (cs : List Char) :
    cs.takeWhile isNameChar = cs.takeWhile isWordChar ∨
      cs.takeWhile isWordChar ++ ['$'] <+: cs.takeWhile isNameChar := by
  induction cs with
  | nil => exact .inl rfl
  | cons d cs ih =>
      cases hword : isWordChar d with
      | true =>
          rw [List.takeWhile_cons_of_pos (isNameChar_of_isWordChar d hword),
            List.takeWhile_cons_of_pos hword]
          obtain heq | hdollar := ih
          · exact .inl (by rw [heq])
          · exact .inr (by simpa using hdollar)
      | false =>
          rw [List.takeWhile_cons_of_neg (p := isWordChar) (by simp [hword])]
          cases hname : isNameChar d with
          | false => exact .inl (List.takeWhile_cons_of_neg (by simp [hname]))
          | true =>
              have hd : d = '$' := by
                simp only [isNameChar, isNameStart, isWordChar, Bool.or_eq_true,
                  Bool.or_eq_false_iff, decide_eq_true_eq, decide_eq_false_iff_not] at hname hword
                grind
              exact .inr (by simp [hd, show isNameChar '$' = true by decide])

/-- The whole run of name characters is read unless a keyword is cut off from it. -/
theorem nameLexeme_whole_iff (cs : List Char) :
    nameLexeme cs = (kindOfName (cs.takeWhile isNameChar), cs.takeWhile isNameChar) ↔
      ∀ w ∈ keywords, ¬DollarBehind cs w := by
  constructor
  · intro hwhole w hw hdollar
    rw [hdollar.nameLexeme hw, Prod.mk.injEq] at hwhole
    obtain ⟨rest, rfl⟩ := hdollar
    have hnames : ∀ c ∈ w.toList ++ ['$'], isNameChar c = true := by
      intro c hc
      obtain hc | hc := List.mem_append.1 hc
      · exact isNameChar_of_isWordChar c ((isWordChar_of_mem_keywords hw).2 c hc)
      · rw [List.mem_singleton.1 hc]
        decide
    have hlength := congrArg List.length hwhole.2
    rw [List.takeWhile_append_of_pos hnames] at hlength
    simp at hlength
  · intro hnone
    rw [nameLexeme, kindOfName]
    split
    · next hmem =>
        obtain heq | hdollar := takeWhile_isNameChar_or cs
        · rw [heq, if_pos hmem]
        · refine absurd ?_ (hnone _ hmem)
          rw [DollarBehind, String.toList_ofList]
          exact hdollar.trans (List.takeWhile_prefix _)
    · next hmem =>
        rw [if_neg]
        intro hrun
        obtain heq | hdollar := takeWhile_isNameChar_or cs
        · rw [heq] at hrun
          exact hmem hrun
        · have hall := (isWordChar_of_mem_keywords hrun).2 '$'
          rw [String.toList_ofList] at hall
          exact absurd (hall (hdollar.subset (by simp))) (by decide)

/-- Where a name begins, the whole run of its characters is read, as a keyword just when it is one,
unless a keyword and a dollar sign stand there: then the keyword alone is read. -/
theorem name_read_whole_iff (cs : List Char) (hc : isNameStart c = true) :
    ∃ kind n, front? c cs = some (kind, n) ∧
      (∀ pos : Position, scan pos (c :: cs) =
        (scan (pos.advance (c :: cs.take n)) (cs.drop n)).map fun (all, stop) =>
          (⟨kind, String.ofList (c :: cs.take n), pos⟩ :: all, stop)) ∧
      ((kind, c :: cs.take n) =
          (kindOfName ((c :: cs).takeWhile isNameChar), (c :: cs).takeWhile isNameChar) ↔
        ∀ w ∈ keywords, ¬DollarBehind (c :: cs) w) ∧
      ∀ w ∈ keywords, DollarBehind (c :: cs) w → (kind, c :: cs.take n) = (.keyword, w.toList) := by
  obtain ⟨kind, n, hfront, hlexeme⟩ := front?_name cs hc
  refine ⟨kind, n, hfront, fun pos => ?_, ?_, ?_⟩
  · rw [scan, hfront]
    simp only
    cases scan (pos.advance (c :: cs.take n)) (cs.drop n) <;> rfl
  · rw [hlexeme, nameLexeme_whole_iff]
  · intro w hw hdollar
    rw [hlexeme, hdollar.nameLexeme hw]

end

theorem newValue_read_whole :
    isNameStart 'n' = true ∧ (∀ w ∈ keywords, ¬DollarBehind "newValue + thisOne".toList w) ∧
      ∃ n, front? 'n' "ewValue + thisOne".toList = some (.ident, n) ∧
        'n' :: "ewValue + thisOne".toList.take n = "newValue".toList := by
  have hstart : isNameStart 'n' = true := by decide
  have hnone : ∀ w ∈ keywords, ¬DollarBehind "newValue + thisOne".toList w := by decide
  obtain ⟨kind, n, hfront, _, hwhole, _⟩ :=
    name_read_whole_iff "ewValue + thisOne".toList hstart
  obtain ⟨rfl, hword⟩ := Prod.mk.inj (hwhole.2 hnone)
  exact ⟨hstart, hnone, n, hfront, hword⟩

/-- A name that goes on with a dollar sign behind a keyword is read as two lexemes. -/
theorem new_cut_off_name :
    "new$x".toList.takeWhile isNameChar = "new$x".toList ∧ "new$x" ∉ keywords ∧
      (tokens "new$x").toOption =
        some ([⟨.keyword, "new", ⟨1, 1⟩⟩, ⟨.ident, "$x", ⟨1, 4⟩⟩], ⟨1, 6⟩) := by
  decide +kernel

end Lexer
end Script
end ScriptWeave
