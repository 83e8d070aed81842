import ScriptWeave.Proofs.Script.Patterns
import ScriptWeave.Proofs.Script.Words

/-!
What cutting a text into lexemes comes to. The lexemes are the text again, each is what the first
fitting rule reads where it stands, and its place counts the newlines before it and the characters
since the last one; a text that cannot be cut to its end is cut up to the first place where no rule
fits.
-/

namespace ScriptWeave
namespace Script

namespace Position

/-- The place behind a text: a line for each newline, and a column for each character since the last
one. -/
def behind (cs : List Char) : Position :=
  ⟨1 + cs.count '\n', 1 + (cs.reverse.takeWhile (· ≠ '\n')).length⟩

theorem behind_concat (cs : List Char) (c : Char) : behind (cs ++ [c]) = (behind cs).next c := by
  by_cases hc : c = '\n'
  · simp [behind, next, hc, Nat.add_assoc]
  · simp [behind, next, hc, Nat.add_assoc]

theorem advance_behind (cs ds : List Char) : (behind cs).advance ds = behind (cs ++ ds) := by
  induction ds generalizing cs with
  | nil => rw [advance_nil, List.append_nil]
  | cons d ds ih =>
      calc (behind cs).advance (d :: ds) = ((behind cs).next d).advance ds := rfl
        _ = (behind (cs ++ [d])).advance ds := by rw [behind_concat]
        _ = behind (cs ++ d :: ds) := by rw [ih, List.append_assoc, List.singleton_append]

end Position

namespace Lexer

/-- The first rule that fits takes a lexeme off the front of a text. -/
structure Takes (kind : TokenKind) (lexeme rest : List Char) : Prop where
  nonempty : lexeme ≠ []
  fits : kind.pattern.rest? (lexeme ++ rest) = some rest
  earlier : ∀ k ∈ kind.earlier, k.pattern.rest? (lexeme ++ rest) = none

/-- No rule fits at the front of a text. -/
def Unreadable (cs : List Char) : Prop := ∀ kind : TokenKind, kind.pattern.rest? cs = none

/-- The front of a text, which stands behind some other text, is cut into lexemes. -/
structure Cut (read cs : List Char) (all : List Token) (rest : List Char) : Prop where
  joined : all.flatMap (·.text.toList) ++ rest = cs
  each : ∀ before t after, all = before ++ t :: after →
    t.pos = .behind (read ++ before.flatMap (·.text.toList)) ∧
      Takes t.kind t.text.toList (after.flatMap (·.text.toList) ++ rest)

theorem takes_of_front? {c : Char} {cs : List Char} {kind : TokenKind} {n : Nat}
    (h : front? c cs = some (kind, n)) : Takes kind (c :: cs.take n) (cs.drop n) := by
  obtain ⟨hkind, hearlier⟩ := front?_eq_some_iff.1 h
  have htext : c :: cs.take n ++ cs.drop n = c :: cs := by
    rw [List.cons_append, List.take_append_drop]
  refine ⟨List.cons_ne_nil _ _, ?_, ?_⟩
  · rw [htext, Pattern.rest?_pattern, hkind, Option.map_some]
  · intro k hk
    rw [htext, Pattern.rest?_pattern, hearlier k hk, Option.map_none]

theorem unreadable_of_front? {c : Char} {cs : List Char} (h : front? c cs = none) :
    Unreadable (c :: cs) := by
  intro kind
  have hall : kind ∈ TokenKind.all := by cases kind <;> decide
  rw [front?, List.findSome?_eq_none_iff] at h
  rw [Pattern.rest?_pattern, Option.map_eq_none_iff.1 (h kind hall), Option.map_none]

theorem Cut.nil (read cs : List Char) : Cut read cs [] cs :=
  ⟨rfl, fun before t after h => by simp at h⟩

theorem Cut.cons {read lexeme cs rest : List Char} {kind : TokenKind} {all : List Token}
    (hfirst : Takes kind lexeme cs) (h : Cut (read ++ lexeme) cs all rest) :
    Cut read (lexeme ++ cs) (⟨kind, String.ofList lexeme, .behind read⟩ :: all) rest := by
  refine ⟨by simp [h.joined], ?_⟩
  intro before t after heq
  cases before with
  | nil =>
      cases heq
      refine ⟨by simp, ?_⟩
      rw [h.joined, String.toList_ofList]
      exact hfirst
  | cons b before =>
      cases heq
      simpa using h.each before t after rfl

theorem cut_of_scan_ok (read : List Char) {cs : List Char} {all : List Token} {stop : Position}
    (h : scan (.behind read) cs = .ok (all, stop)) :
    Cut read cs all [] ∧ stop = .behind (read ++ cs) := by
  induction hlen : cs.length using Nat.strongRecOn generalizing read cs all with
  | ind k ih =>
      subst hlen
      cases cs with
      | nil =>
          rw [scan_nil] at h
          cases h
          exact ⟨.nil _ _, by rw [List.append_nil]⟩
      | cons c cs =>
          obtain ⟨kind, n, ts, hfront, hscan, rfl⟩ := scan_cons_eq_ok.1 h
          have hshort := length_drop_lt_cons c cs n
          rw [Position.advance_behind] at hscan
          obtain ⟨hcut, hstop⟩ := ih _ hshort _ hscan rfl
          have hwhole := Cut.cons (takes_of_front? hfront) hcut
          rw [List.cons_append, List.take_append_drop] at hwhole
          refine ⟨hwhole, ?_⟩
          rw [hstop, List.append_assoc, List.cons_append, List.take_append_drop]

theorem cut_of_scan_error (read : List Char) {cs : List Char} {stuck : Stuck}
    (h : scan (.behind read) cs = .error stuck) :
    ∃ all, Cut read cs all stuck.rest ∧ stuck.rest ≠ [] ∧ Unreadable stuck.rest ∧
      stuck.pos = .behind (read ++ all.flatMap (·.text.toList)) := by
  induction hlen : cs.length using Nat.strongRecOn generalizing read cs with
  | ind k ih =>
      subst hlen
      cases cs with
      | nil =>
          rw [scan_nil] at h
          cases h
      | cons c cs =>
          obtain ⟨hfront, rfl⟩ | ⟨kind, n, hfront, hscan⟩ := scan_cons_eq_error.1 h
          · exact ⟨[], .nil _ _, List.cons_ne_nil _ _, unreadable_of_front? hfront, by simp⟩
          · have hshort := length_drop_lt_cons c cs n
            rw [Position.advance_behind] at hscan
            obtain ⟨all, hcut, hne, hunreadable, hpos⟩ := ih _ hshort _ hscan rfl
            have hwhole := Cut.cons (takes_of_front? hfront) hcut
            rw [List.cons_append, List.take_append_drop] at hwhole
            refine ⟨_, hwhole, hne, hunreadable, ?_⟩
            rw [hpos]
            simp

end Lexer

end Script
end ScriptWeave
