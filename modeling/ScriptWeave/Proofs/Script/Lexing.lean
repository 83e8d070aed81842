import ScriptWeave.Script.Lexer

/-!
Cutting a text into lexemes: nothing is lost, the lexemes are the text again, and each stands at a
place of its own, later than the ones before it.
-/

namespace ScriptWeave
namespace Script

namespace Position

theorem before_iff (p q : Position) :
    p.before q = true ↔ p.line < q.line ∨ p.line = q.line ∧ p.column < q.column := by
  simp [before]

theorem before_irrefl (p : Position) : p.before p = false := by
  simp [before]

theorem before_trans {p q r : Position} (hpq : p.before q = true) (hqr : q.before r = true) :
    p.before r = true := by
  rw [before_iff] at hpq hqr ⊢
  omega

theorem before_next (p : Position) (c : Char) : p.before (p.next c) = true := by
  rw [before_iff, next]
  split <;> simp

theorem before_advance (p : Position) (c : Char) (cs : List Char) :
    p.before (p.advance (c :: cs)) = true := by
  induction cs generalizing p c with
  | nil => exact before_next p c
  | cons d cs ih => exact before_trans (before_next p c) (ih (p.next c) d)

end Position

namespace Lexer

theorem scan_nil (pos : Position) : scan pos [] = .ok ([], pos) := by rw [scan]

theorem scan_cons_eq_ok {pos stop : Position} {c : Char} {cs : List Char} {all : List Token} :
    scan pos (c :: cs) = .ok (all, stop) ↔ ∃ kind n ts, front? c cs = some (kind, n) ∧
      scan (pos.advance (c :: cs.take n)) (cs.drop n) = .ok (ts, stop) ∧
      all = ⟨kind, String.ofList (c :: cs.take n), pos⟩ :: ts := by
  rw [scan]
  cases front? c cs with
  | none => simp
  | some found =>
      obtain ⟨kind, n⟩ := found
      simp only
      cases hscan : scan (pos.advance (c :: cs.take n)) (cs.drop n) with
      | error stuck =>
          constructor
          · intro h
            cases h
          · rintro ⟨_, _, _, heq, hok, _⟩
            cases heq
            rw [hscan] at hok
            cases hok
      | ok lexed =>
          constructor
          · intro h
            cases h
            exact ⟨kind, n, lexed.1, rfl, hscan, rfl⟩
          · rintro ⟨_, _, _, heq, hok, rfl⟩
            cases heq
            rw [hscan] at hok
            cases hok
            rfl

theorem scan_cons_eq_error {pos : Position} {c : Char} {cs : List Char} {stuck : Stuck} :
    scan pos (c :: cs) = .error stuck ↔ front? c cs = none ∧ stuck = ⟨pos, c :: cs⟩ ∨
      ∃ kind n, front? c cs = some (kind, n) ∧
        scan (pos.advance (c :: cs.take n)) (cs.drop n) = .error stuck := by
  rw [scan]
  cases front? c cs with
  | none => simp [eq_comm]
  | some found =>
      obtain ⟨kind, n⟩ := found
      simp only [reduceCtorEq, false_and, false_or, Option.some.injEq, Prod.mk.injEq]
      constructor
      · intro h
        refine ⟨kind, n, ⟨rfl, rfl⟩, ?_⟩
        cases hscan : scan (pos.advance (c :: cs.take n)) (cs.drop n) with
        | error other => simpa [hscan] using h
        | ok out => simp [hscan] at h
      · rintro ⟨kind', n', ⟨rfl, rfl⟩, hscan⟩
        rw [hscan]

theorem length_drop_lt_cons (c : Char) (cs : List Char) (n : Nat) :
    (cs.drop n).length < (c :: cs).length := by
  rw [List.length_drop, List.length_cons]
  omega

theorem flatMap_scan {pos stop : Position} {cs : List Char} {all : List Token}
    (h : scan pos cs = .ok (all, stop)) : all.flatMap (·.text.toList) = cs := by
  induction hlen : cs.length using Nat.strongRecOn generalizing pos cs all with
  | ind k ih =>
      subst hlen
      cases cs with
      | nil =>
          rw [scan_nil] at h
          cases h
          rfl
      | cons c cs =>
          obtain ⟨kind, n, ts, _, hscan, rfl⟩ := scan_cons_eq_ok.1 h
          have hshort := length_drop_lt_cons c cs n
          have hrest := ih _ hshort hscan rfl
          simp [hrest]

/-- No lexeme stands before the place where scanning starts, and each stands before the next. -/
theorem scan_ordered {pos stop : Position} {cs : List Char} {all : List Token}
    (h : scan pos cs = .ok (all, stop)) :
    (∀ t ∈ all, pos = t.pos ∨ pos.before t.pos = true) ∧
      all.Pairwise fun t u => t.pos.before u.pos = true := by
  induction hlen : cs.length using Nat.strongRecOn generalizing pos cs all with
  | ind k ih =>
      subst hlen
      cases cs with
      | nil =>
          rw [scan_nil] at h
          cases h
          exact ⟨by simp, .nil⟩
      | cons c cs =>
          obtain ⟨kind, n, ts, _, hscan, rfl⟩ := scan_cons_eq_ok.1 h
          have hshort := length_drop_lt_cons c cs n
          obtain ⟨hafter, hpairwise⟩ := ih _ hshort hscan rfl
          have hlater : ∀ t ∈ ts, pos.before t.pos = true := by
            intro t ht
            have hlexeme := pos.before_advance c (cs.take n)
            cases hafter t ht with
            | inl heq => exact heq ▸ hlexeme
            | inr hbefore => exact Position.before_trans hlexeme hbefore
          exact ⟨List.forall_mem_cons.2 ⟨Or.inl rfl, fun t ht => Or.inr (hlater t ht)⟩,
            List.pairwise_cons.2 ⟨hlater, hpairwise⟩⟩

end Lexer

theorem tokens_eq_ok {text : String} {ts : List Token} {stop : Position}
    (h : tokens text = .ok (ts, stop)) :
    ∃ all, Lexer.scan .start text.toList = .ok (all, stop) ∧
      ts = all.filter fun t => !t.kind.isLayout := by
  rw [tokens] at h
  cases hscan : Lexer.scan .start text.toList with
  | error stuck => simp [hscan, Except.map] at h
  | ok lexed =>
      rw [hscan] at h
      cases h
      exact ⟨lexed.1, rfl, rfl⟩

/-- The tokens of a text stand at different places. -/
theorem nodup_places {text : String} {ts : List Token} {stop : Position}
    (h : tokens text = .ok (ts, stop)) : (ts.map (·.pos)).Nodup := by
  obtain ⟨all, hscan, rfl⟩ := tokens_eq_ok h
  have hordered := (Lexer.scan_ordered hscan).2.sublist
    (List.filter_sublist (p := fun t => !t.kind.isLayout))
  refine List.pairwise_map.2 (hordered.imp ?_)
  intro t u hbefore heq
  rw [heq, Position.before_irrefl] at hbefore
  cases hbefore

end Script
end ScriptWeave
