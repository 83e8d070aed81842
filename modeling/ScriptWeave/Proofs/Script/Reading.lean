import ScriptWeave.Script.Parse

/-!
Matching without a record of mismatches. Whether and how a grammar expression matches depends only
on the tokens that remain: an attempt that fails is dropped or decides by how far it has read, and
the mismatches that a state remembers serve messages alone. `Gram.read` is matching as a function of
the tokens, and `Gram.run` agrees with it in every state.
-/

namespace ScriptWeave
namespace Script

open Matcher

/-- A match with its value and the tokens after it, no match at all, or a match that broke off. -/
inductive Reading (α : Type) where
  | matched (value : α) (rest : List Token)
  | unmatched
  | failed (rest : List Token)

namespace Reading

variable {α β : Type}

def map (f : α → β) : Reading α → Reading β
  | matched value rest => matched (f value) rest
  | unmatched => unmatched
  | failed rest => failed rest

@[simp] theorem map_eq_unmatched_iff (f : α → β) (r : Reading α) :
    r.map f = .unmatched ↔ r = .unmatched := by
  cases r <;> simp [map]

/-- Goes on after an attempt that failed: the failure decides, or the attempt is dropped. -/
def recover (input rest : List Token) (dropped : Reading α) : Reading α :=
  if rest.length + lookahead < input.length then failed rest else dropped

/-- Repeats a step until it does not match, at most `n` times. -/
def repeated (step : List Token → Reading α) : Nat → List Token → Reading (List α)
  | 0, input => matched [] input
  | n + 1, input =>
      match step input with
      | failed rest => recover input rest (matched [] input)
      | unmatched => matched [] input
      | matched value rest => (repeated step n rest).map (value :: ·)

end Reading

/-- How a production is read where a grammar expression calls it. -/
abbrev Readers : Type := (p : Production) → List Token → Reading p.Node

namespace Gram

mutual

def read (calls : Readers) : (g : Gram) → List Token → Reading g.Value
  | token options, input =>
      match input with
      | next :: rest => if options.any (·.accepts next) then .matched next rest else .unmatched
      | [] => .unmatched
  | call p, input => calls p input
  | seq first rest, input =>
      match first.read calls input with
      | .matched value input' => (readAll calls rest input').map (value, ·)
      | .unmatched => .unmatched
      | .failed left => .failed left
  | opt g, input =>
      match g.read calls input with
      | .failed left => .recover input left (.matched none input)
      | .unmatched => .matched none input
      | .matched value rest => .matched (some value) rest
  | many g, input => .repeated (g.read calls) (input.length + 1) input
  | alt branches, input => readAny calls branches false input

def readAll (calls : Readers) : (gs : List Gram) → List Token → Reading (ValueAll gs)
  | [], input => .matched () input
  | g :: gs, input =>
      match g.read calls input with
      | .failed left => .failed left
      | .unmatched => .failed input
      | .matched value rest => (readAll calls gs rest).map (value, ·)

/-- The first branch that fits; `broken` tells whether an earlier one has broken off. -/
def readAny (calls : Readers) : (gs : List Gram) → Bool → List Token → Reading (ValueAny gs)
  | [], broken, input => if broken then .failed input else .unmatched
  | g :: gs, broken, input =>
      match g.read calls input with
      | .matched value rest => .matched (.inl value) rest
      | .unmatched => (readAny calls gs broken input).map .inr
      | .failed left => .recover input left ((readAny calls gs true input).map .inr)

end

end Gram

/-- The place of the first token, or of the end of the text. -/
def placeOf (stop : Position) : List Token → Position
  | next :: _ => next.pos
  | [] => stop

namespace Production

/-- Reads a production; `fuel` bounds how deep productions may call each other. -/
def read (stop : Position) : Nat → Readers
  | 0, _, _ => .unmatched
  | fuel + 1, p, input => (p.body.read (read stop fuel) input).map (p.build (placeOf stop input))

end Production

namespace Matcher

/-- The outcome in a state is the reading of its tokens, and the state counts the tokens read. -/
def Outcome.Agrees {α : Type} (s : State) : Outcome α → Reading α → Prop
  | .matched value s', .matched value' rest =>
      value = value' ∧ s'.rest = rest ∧ s'.index + rest.length = s.index + s.rest.length
  | .unmatched s', .unmatched => s'.rest = s.rest ∧ s'.index = s.index
  | .failed _ s', .failed left =>
      s'.rest = left ∧ s'.index + left.length = s.index + s.rest.length
  | _, _ => False

namespace State

@[simp] theorem rest_note (s : State) (cause : Mismatch) : (s.note cause).rest = s.rest := by
  rw [note]
  split <;> rfl

@[simp] theorem index_note (s : State) (cause : Mismatch) : (s.note cause).index = s.index := by
  rw [note]
  split <;> rfl

@[simp] theorem rest_accept (s branch : State) : (s.accept branch).rest = branch.rest := by
  rw [accept]
  split <;> rfl

@[simp] theorem index_accept (s branch : State) : (s.accept branch).index = branch.index := by
  rw [accept]
  split <;> rfl

@[simp] theorem rest_learn (s branch : State) (cause : Mismatch) :
    (s.learn cause branch).rest = s.rest := by
  rw [learn]
  split
  · rfl
  · split <;> rfl

@[simp] theorem index_learn (s branch : State) (cause : Mismatch) :
    (s.learn cause branch).index = s.index := by
  rw [learn]
  split
  · rfl
  · split <;> rfl

theorem next_eq_placeOf (stop : Position) (s : State) : (s.next stop).1 = placeOf stop s.rest := by
  rw [next]
  cases s.rest with
  | nil => rfl
  | cons next rest => rfl

end State

section

variable {α β : Type} {s : State}

theorem Outcome.Agrees.andThen {o : Outcome α} {value : α} {rest : List Token}
    (h : o.Agrees s (.matched value rest)) :
    ∃ s', o = .matched value s' ∧ s'.rest = rest ∧
      s'.index + rest.length = s.index + s.rest.length := by
  cases o with
  | matched value' s' =>
      obtain ⟨rfl, hrest, hindex⟩ := h
      exact ⟨s', rfl, hrest, hindex⟩
  | unmatched s' => exact h.elim
  | failed cause s' => exact h.elim

theorem Outcome.Agrees.of_unmatched {o : Outcome α} (h : o.Agrees s .unmatched) :
    ∃ s', o = .unmatched s' ∧ s'.rest = s.rest ∧ s'.index = s.index := by
  cases o with
  | matched value' s' => exact h.elim
  | unmatched s' => exact ⟨s', rfl, h⟩
  | failed cause s' => exact h.elim

theorem Outcome.Agrees.of_failed {o : Outcome α} {left : List Token}
    (h : o.Agrees s (.failed left)) :
    ∃ cause s', o = .failed cause s' ∧ s'.rest = left ∧
      s'.index + left.length = s.index + s.rest.length := by
  cases o with
  | matched value' s' => exact h.elim
  | unmatched s' => exact h.elim
  | failed cause s' => exact ⟨cause, s', rfl, h⟩

theorem Outcome.Agrees.map {o : Outcome α} {r : Reading α} (h : o.Agrees s r) (f : α → β) :
    (o.map f).Agrees s (r.map f) := by
  cases r with
  | matched value rest =>
      obtain ⟨s', rfl, hrest, hindex⟩ := h.andThen
      exact ⟨rfl, hrest, hindex⟩
  | unmatched =>
      obtain ⟨s', rfl, hs⟩ := h.of_unmatched
      exact hs
  | failed left =>
      obtain ⟨cause, s', rfl, hs⟩ := h.of_failed
      exact hs

theorem Outcome.Agrees.of_same {o : Outcome α} {r : Reading α} {s' : State}
    (hrest : s'.rest = s.rest) (hindex : s'.index = s.index) (h : o.Agrees s' r) :
    o.Agrees s r := by
  cases o <;> cases r <;> simp_all [Outcome.Agrees]

/-- An outcome after some tokens were read is one of the state before them. -/
theorem Outcome.Agrees.of_later {o : Outcome α} {r : Reading α} {s' : State}
    (hindex : s'.index + s'.rest.length = s.index + s.rest.length) (h : o.Agrees s' r)
    (hr : r ≠ .unmatched) : o.Agrees s r := by
  cases r with
  | matched value rest =>
      obtain ⟨t, rfl, hrest, ht⟩ := h.andThen
      exact ⟨rfl, hrest, ht.trans hindex⟩
  | unmatched => exact absurd rfl hr
  | failed left =>
      obtain ⟨cause, t, rfl, hrest, ht⟩ := h.of_failed
      exact ⟨hrest, ht.trans hindex⟩

theorem commits_iff {branch : State}
    (hindex : branch.index + branch.rest.length = s.index + s.rest.length) :
    s.commits branch = true ↔ branch.rest.length + lookahead < s.rest.length := by
  rw [State.commits, decide_eq_true_eq]
  omega

theorem recover_agrees {t branch : State} {cause : Mismatch} {dropped : State → Outcome α}
    {r : Reading α} (hrest : t.rest = s.rest) (hindex : t.index = s.index)
    (hbranch : branch.index + branch.rest.length = s.index + s.rest.length)
    (hdropped : ∀ u : State, u.rest = s.rest → u.index = s.index → (dropped u).Agrees s r) :
    (t.recover cause branch dropped).Agrees s (.recover s.rest branch.rest r) := by
  have hcommits : t.commits branch = true ↔ branch.rest.length + lookahead < s.rest.length := by
    rw [← hrest]
    exact commits_iff (by rw [hbranch, hrest, hindex])
  rw [State.recover, Reading.recover]
  by_cases hfar : branch.rest.length + lookahead < s.rest.length
  · rw [if_pos (hcommits.2 hfar), if_pos hfar]
    exact ⟨by simp, by simpa using hbranch⟩
  · rw [if_neg (fun h => hfar (hcommits.1 h)), if_neg hfar]
    exact hdropped _ (by simpa using hrest) (by simpa using hindex)

theorem repeated_ne_unmatched {step : List Token → Reading α} (n : Nat) (input : List Token) :
    Reading.repeated step n input ≠ .unmatched := by
  induction n generalizing input with
  | zero => simp [Reading.repeated]
  | succ n ih =>
      rw [Reading.repeated]
      split
      · rw [Reading.recover]
        split <;> simp
      · simp
      · next value rest _ =>
          rw [ne_eq, Reading.map_eq_unmatched_iff]
          exact ih rest

theorem repeatMatch_agrees {step : State → Outcome α} {step' : List Token → Reading α}
    (hstep : ∀ s, (step s).Agrees s (step' s.rest)) (n : Nat) (s : State) :
    (repeatMatch step n s).Agrees s (Reading.repeated step' n s.rest) := by
  induction n generalizing s with
  | zero => exact ⟨rfl, rfl, rfl⟩
  | succ n ih =>
      have hs := hstep s
      rw [repeatMatch, Reading.repeated]
      cases hr : step' s.rest with
      | matched value rest =>
          rw [hr] at hs
          obtain ⟨branch, ho, hrest, hindex⟩ := hs.andThen
          rw [ho]
          have hlater := (ih (s.accept branch)).map (value :: ·)
          rw [State.rest_accept, hrest] at hlater
          refine hlater.of_later (by simp [hrest, hindex]) ?_
          rw [ne_eq, Reading.map_eq_unmatched_iff]
          exact repeated_ne_unmatched n rest
      | unmatched =>
          rw [hr] at hs
          obtain ⟨branch, ho, hrest, hindex⟩ := hs.of_unmatched
          rw [ho]
          exact ⟨rfl, by simp [hrest], by simp [hindex]⟩
      | failed left =>
          rw [hr] at hs
          obtain ⟨cause, branch, ho, hrest, hindex⟩ := hs.of_failed
          subst hrest
          rw [ho]
          refine recover_agrees (by simp) (by simp) hindex ?_
          intro u hu hui
          exact ⟨rfl, hu, by rw [hui]⟩

end

end Matcher

namespace Gram

theorem readAll_ne_unmatched (calls : Readers) (gs : List Gram) (input : List Token) :
    readAll calls gs input ≠ .unmatched := by
  induction gs generalizing input with
  | nil => simp [readAll]
  | cons g gs ih =>
      rw [readAll]
      split
      · simp
      · simp
      · next value rest _ =>
          rw [ne_eq, Reading.map_eq_unmatched_iff]
          exact ih rest

section

variable {stop : Position} {calls : Calls} {readers : Readers}

mutual

theorem run_agrees (hcalls : ∀ p s, (calls p s).Agrees s (readers p s.rest)) (g : Gram)
    (s : State) :
    (g.run stop calls s).Agrees s (g.read readers s.rest) := by
  cases g with
  | token options =>
      rw [run]
      cases hrest : s.rest with
      | nil => exact ⟨rfl, rfl⟩
      | cons next rest =>
          rw [read]
          by_cases haccepts : options.any (·.accepts next) = true
          · simp only [haccepts, if_true]
            refine ⟨rfl, rfl, ?_⟩
            rw [hrest, List.length_cons]
            dsimp only
            omega
          · simp only [haccepts]
            exact ⟨rfl, rfl⟩
  | call p => exact hcalls p s
  | seq first rest =>
      have hfirst := run_agrees hcalls first s
      rw [run, read]
      cases hr : first.read readers s.rest with
      | matched value input =>
          rw [hr] at hfirst
          obtain ⟨s', ho, hrest, hindex⟩ := hfirst.andThen
          rw [ho]
          have hlater := (runAll_agrees hcalls rest s').map (value, ·)
          rw [hrest] at hlater
          refine hlater.of_later (by rw [hrest]; exact hindex) ?_
          rw [ne_eq, Reading.map_eq_unmatched_iff]
          exact readAll_ne_unmatched readers rest input
      | unmatched =>
          rw [hr] at hfirst
          obtain ⟨s', ho, hs'⟩ := hfirst.of_unmatched
          rw [ho]
          exact hs'
      | failed left =>
          rw [hr] at hfirst
          obtain ⟨cause, s', ho, hs'⟩ := hfirst.of_failed
          rw [ho]
          exact hs'
  | opt g =>
      have hg := run_agrees hcalls g s
      rw [run, read]
      cases hr : g.read readers s.rest with
      | matched value rest =>
          rw [hr] at hg
          obtain ⟨branch, ho, hrest, hindex⟩ := hg.andThen
          rw [ho]
          exact ⟨rfl, by simpa using hrest, by simpa using hindex⟩
      | unmatched =>
          rw [hr] at hg
          obtain ⟨branch, ho, hrest, hindex⟩ := hg.of_unmatched
          rw [ho]
          exact ⟨rfl, by simpa using hrest, by simp [hindex]⟩
      | failed left =>
          rw [hr] at hg
          obtain ⟨cause, branch, ho, hrest, hindex⟩ := hg.of_failed
          subst hrest
          rw [ho]
          refine recover_agrees (by simp) (by simp) hindex ?_
          intro u hu hui
          exact ⟨rfl, hu, by rw [hui]⟩
  | many g =>
      rw [run, read]
      exact repeatMatch_agrees (fun s => run_agrees hcalls g s) _ s
  | alt branches =>
      rw [run, read]
      exact runAny_agrees hcalls branches none 0 (fun _ => rfl) s

theorem runAll_agrees (hcalls : ∀ p s, (calls p s).Agrees s (readers p s.rest)) (gs : List Gram)
    (s : State) : (runAll stop calls gs s).Agrees s (readAll readers gs s.rest) := by
  cases gs with
  | nil => exact ⟨rfl, rfl, rfl⟩
  | cons g gs =>
      have hg := run_agrees hcalls g s
      rw [runAll, readAll]
      cases hr : g.read readers s.rest with
      | matched value rest =>
          rw [hr] at hg
          obtain ⟨s', ho, hrest, hindex⟩ := hg.andThen
          rw [ho]
          have hlater := (runAll_agrees hcalls gs s').map (value, ·)
          rw [hrest] at hlater
          refine hlater.of_later (by rw [hrest]; exact hindex) ?_
          rw [ne_eq, Reading.map_eq_unmatched_iff]
          exact readAll_ne_unmatched readers gs rest
      | unmatched =>
          rw [hr] at hg
          obtain ⟨s', ho, hrest, hindex⟩ := hg.of_unmatched
          rw [ho]
          exact ⟨hrest, by rw [hindex]⟩
      | failed left =>
          rw [hr] at hg
          obtain ⟨cause, s', ho, hs'⟩ := hg.of_failed
          rw [ho]
          exact hs'

theorem runAny_agrees (hcalls : ∀ p s, (calls p s).Agrees s (readers p s.rest)) (gs : List Gram)
    (best : Option Mismatch) (reach : Nat) (hreach : best = none → reach = 0) (s : State) :
    (runAny stop calls gs best reach s).Agrees s (readAny readers gs best.isSome s.rest) := by
  cases gs with
  | nil =>
      cases best with
      | none => exact ⟨rfl, rfl⟩
      | some cause => exact ⟨by simp, by simp⟩
  | cons g gs =>
      have hg := run_agrees hcalls g s
      rw [runAny, readAny]
      cases hr : g.read readers s.rest with
      | matched value rest =>
          rw [hr] at hg
          obtain ⟨branch, ho, hrest, hindex⟩ := hg.andThen
          rw [ho]
          exact ⟨rfl, by simpa using hrest, by simpa using hindex⟩
      | unmatched =>
          rw [hr] at hg
          obtain ⟨branch, ho, _⟩ := hg.of_unmatched
          rw [ho]
          exact (runAny_agrees hcalls gs best reach hreach s).map Sum.inr
      | failed left =>
          rw [hr] at hg
          obtain ⟨cause, branch, ho, hrest, hindex⟩ := hg.of_failed
          subst hrest
          rw [ho]
          refine recover_agrees rfl rfl hindex ?_
          intro u hu hui
          have hbroken : ∀ (cause : Mismatch) (reach : Nat),
              (runAny stop calls gs (some cause) reach u).Agrees s
                (readAny readers gs true s.rest) := by
            intro cause reach
            have hany := runAny_agrees hcalls gs (some cause) reach (fun h => by cases h) u
            rw [hu] at hany
            exact hany.of_same hu hui
          split
          · exact (hbroken cause branch.index).map Sum.inr
          · next hfar =>
              cases best with
              | none => exact absurd (Nat.zero_le _) (hreach rfl ▸ hfar)
              | some earlier => exact (hbroken earlier reach).map Sum.inr

end

end

end Gram

namespace Production

theorem run_agrees (stop : Position) (fuel : Nat) (p : Production) (s : State) :
    (run stop fuel p s).Agrees s (read stop fuel p s.rest) := by
  induction fuel generalizing p s with
  | zero => exact ⟨rfl, rfl⟩
  | succ fuel ih =>
      have hbody := @Gram.run_agrees stop _ _ ih p.body s
      rw [run, read]
      cases hr : p.body.read (read stop fuel) s.rest with
      | matched value rest =>
          rw [hr] at hbody
          obtain ⟨s', ho, hrest, hindex⟩ := hbody.andThen
          rw [ho]
          exact ⟨by rw [State.next_eq_placeOf], hrest, hindex⟩
      | unmatched =>
          rw [hr] at hbody
          obtain ⟨s', ho, hs'⟩ := hbody.of_unmatched
          rw [ho]
          exact hs'
      | failed left =>
          rw [hr] at hbody
          obtain ⟨cause, s', ho, hrest, hindex⟩ := hbody.of_failed
          rw [ho]
          exact ⟨by simpa using hrest, by simpa using hindex⟩

end Production

/-- Tokens are parsed exactly when they are read as one file with nothing left. -/
theorem parseTokens_eq_ok_iff (tokens : List Token) (stop : Position) (file : File) :
    parseTokens tokens stop = .ok file ↔
      Production.read stop (Production.fuelFor tokens) .file tokens = .matched file [] := by
  have hrun := Production.run_agrees stop (Production.fuelFor tokens) .file ⟨0, tokens, none, 0⟩
  rw [parseTokens]
  cases hr : Production.read stop (Production.fuelFor tokens) .file tokens with
  | matched value rest =>
      rw [hr] at hrun
      obtain ⟨s', ho, hrest, _⟩ := hrun.andThen
      rw [ho]
      cases rest with
      | nil => simp [hrest]
      | cons next rest => simp [hrest]
  | unmatched =>
      rw [hr] at hrun
      obtain ⟨s', ho, _⟩ := hrun.of_unmatched
      simp [ho]
  | failed left =>
      rw [hr] at hrun
      obtain ⟨cause, s', ho, _⟩ := hrun.of_failed
      simp [ho]

end Script
end ScriptWeave
