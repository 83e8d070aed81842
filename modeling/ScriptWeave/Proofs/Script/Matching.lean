import ScriptWeave.Proofs.Script.Fuel

/-!
Matches that succeed, put together from the matches of their parts. An option and a repetition end,
and a branch is passed over, where the attempt is dropped; an attempt is dropped at a token that no
sentence of the expression begins with.
-/

namespace ScriptWeave
namespace Script

open Matcher

namespace Gram

variable {stop : Position}

/-- An expression is read with a value. -/
def Matches (stop : Position) (g : Gram) (value : g.Value) (input rest : List Token) : Prop :=
  g.read (Production.reads stop) input = .matched value rest

def MatchesAll (stop : Position) (gs : List Gram) (values : ValueAll gs)
    (input rest : List Token) : Prop :=
  readAll (Production.reads stop) gs input = .matched values rest

/-- Whether earlier branches have broken off makes no difference to a match. -/
def MatchesAny (stop : Position) (gs : List Gram) (value : ValueAny gs)
    (input rest : List Token) : Prop :=
  ∀ broken, readAny (Production.reads stop) gs broken input = .matched value rest

/-- The attempt to read an expression comes to nothing and does not decide. -/
def Drops (stop : Position) (g : Gram) (input : List Token) : Prop :=
  g.read (Production.reads stop) input = .unmatched ∨
    ∃ left, g.read (Production.reads stop) input = .failed left ∧
      input.length ≤ left.length + lookahead

section

variable {g : Gram} {gs : List Gram} {input mid rest : List Token}

theorem Matches.token {options : List Terminal} {next : Token}
    (h : options.any (·.accepts next) = true) :
    Matches stop (token options) next (next :: rest) rest := by
  rw [Matches, read, if_pos h]

theorem Matches.seq {value : g.Value} {values : ValueAll gs}
    (h : Matches stop g value input mid) (hs : MatchesAll stop gs values mid rest) :
    Matches stop (seq g gs) (value, values) input rest := by
  rw [Matches] at h
  rw [MatchesAll] at hs
  simp only [Matches, read, h, hs, Reading.map]

theorem MatchesAll.nil : MatchesAll stop [] () input input := rfl

theorem MatchesAll.cons {value : g.Value} {values : ValueAll gs}
    (h : Matches stop g value input mid) (hs : MatchesAll stop gs values mid rest) :
    MatchesAll stop (g :: gs) (value, values) input rest := by
  rw [Matches] at h
  rw [MatchesAll] at hs
  simp only [MatchesAll, readAll, h, hs, Reading.map]

theorem Matches.some {value : g.Value} (h : Matches stop g value input rest) :
    Matches stop (opt g) (some value) input rest := by
  rw [Matches] at h
  simp only [Matches, read, h]

theorem Matches.none (h : Drops stop g input) : Matches stop (opt g) none input input := by
  obtain h | ⟨left, h, hnear⟩ := h
  · simp only [Matches, read, h]
  · simp only [Matches, read, h, Reading.recover]
    rw [if_neg (by omega)]

theorem MatchesAny.here {value : g.Value} (h : Matches stop g value input rest) :
    MatchesAny stop (g :: gs) (.inl value) input rest := by
  intro broken
  rw [Matches] at h
  simp only [readAny, h]

theorem MatchesAny.later {value : ValueAny gs} (h : Drops stop g input)
    (hs : MatchesAny stop gs value input rest) :
    MatchesAny stop (g :: gs) (.inr value) input rest := by
  intro broken
  obtain h | ⟨left, h, hnear⟩ := h
  · simp only [readAny, h, hs broken, Reading.map]
  · simp only [readAny, h, hs true, Reading.map, Reading.recover]
    rw [if_neg (by omega)]

theorem Matches.alt {value : ValueAny gs} (h : MatchesAny stop gs value input rest) :
    Matches stop (alt gs) value input rest := by
  rw [Matches, read]
  exact h false

theorem Matches.lt_length (hg : g.skips = false) {value : g.Value}
    (h : Matches stop g value input rest) : rest.length < input.length := by
  cases lt_or_eq_of_read (Production.progress_reads stop) g h with
  | inl hlt => exact hlt
  | inr hskips =>
      rw [hg] at hskips
      cases hskips.2

/-- More room for repetitions than tokens changes nothing. -/
theorem repeated_eq_of_lt (hg : g.skips = false) {n m : Nat} (hn : input.length < n)
    (hm : input.length < m) :
    Reading.repeated (g.read (Production.reads stop)) n input =
      Reading.repeated (g.read (Production.reads stop)) m input := by
  induction n generalizing m input with
  | zero => omega
  | succ n ih =>
      obtain ⟨m, rfl⟩ : ∃ m', m = m' + 1 := ⟨m - 1, by omega⟩
      rw [Reading.repeated, Reading.repeated]
      cases hstep : g.read (Production.reads stop) input with
      | matched value rest =>
          have hlt := Matches.lt_length hg hstep
          simp only
          rw [ih (m := m) (by omega) (by omega)]
      | unmatched | failed _ => rfl

theorem Matches.finish (h : Drops stop g input) : Matches stop (many g) [] input input := by
  obtain h | ⟨left, h, hnear⟩ := h
  · simp only [Matches, read, Reading.repeated, h]
  · simp only [Matches, read, Reading.repeated, h, Reading.recover]
    rw [if_neg (by omega)]

theorem Matches.again (hg : g.skips = false) {value : g.Value} {values : List g.Value}
    (h : Matches stop g value input mid) (hs : Matches stop (many g) values mid rest) :
    Matches stop (many g) (value :: values) input rest := by
  have hlt := h.lt_length hg
  rw [Matches] at h
  rw [Matches, read, repeated_eq_of_lt (m := input.length) hg (by omega) hlt] at hs
  simp only [Matches, read, Reading.repeated, h, hs, Reading.map]

theorem Matches.call {p : Production} {value : p.body.Value}
    (h : Matches stop p.body value input rest) :
    Matches stop (call p) (p.build (placeOf stop input) value) input rest := by
  rw [Matches] at h
  rw [Matches, read, Production.reads_eq, h]
  rfl

theorem matches_call_iff {p : Production} {node : p.Node} :
    Matches stop (call p) node input rest ↔ ∃ value, Matches stop p.body value input rest ∧
      p.build (placeOf stop input) value = node := by
  constructor
  · intro h
    rw [Matches, read, Production.reads_eq] at h
    exact Reading.map_eq_matched h
  · rintro ⟨value, h, rfl⟩
    exact h.call

end

section

variable {g : Gram} {gs : List Gram} {input rest : List Token}

theorem Matches.of_seq {value : g.Value} {values : ValueAll gs}
    (h : Matches stop (Gram.seq g gs) (value, values) input rest) :
    ∃ mid, Matches stop g value input mid ∧ MatchesAll stop gs values mid rest := by
  rw [Matches, read] at h
  split at h
  · next v mid hfirst =>
      obtain ⟨vs, hvs, heq⟩ := Reading.map_eq_matched h
      cases heq
      exact ⟨mid, hfirst, hvs⟩
  · cases h
  · cases h

theorem MatchesAll.of_cons {value : g.Value} {values : ValueAll gs}
    (h : MatchesAll stop (g :: gs) (value, values) input rest) :
    ∃ mid, Matches stop g value input mid ∧ MatchesAll stop gs values mid rest := by
  rw [MatchesAll, readAll] at h
  split at h
  · cases h
  · cases h
  · next v mid hfirst =>
      obtain ⟨vs, hvs, heq⟩ := Reading.map_eq_matched h
      cases heq
      exact ⟨mid, hfirst, hvs⟩

theorem MatchesAll.of_nil (h : MatchesAll stop [] () input rest) : input = rest := by
  cases h
  rfl

theorem Matches.of_some {value : g.Value}
    (h : Matches stop (opt g) (Option.some value) input rest) :
    Matches stop g value input rest := by
  rw [Matches, read] at h
  split at h
  · cases Reading.recover_eq_matched h
  · cases h
  · next hg =>
      cases h
      exact hg

/-- An option is left out only where there is no match. -/
theorem Matches.of_none (h : Matches stop (opt g) Option.none input rest) :
    input = rest ∧ ∀ value left, ¬Matches stop g value input left := by
  rw [Matches, read] at h
  split at h
  · next hg =>
      cases Reading.recover_eq_matched h
      refine ⟨rfl, fun value left hmatch => ?_⟩
      rw [Matches, hg] at hmatch
      cases hmatch
  · next hg =>
      cases h
      refine ⟨rfl, fun value left hmatch => ?_⟩
      rw [Matches, hg] at hmatch
      cases hmatch
  · cases h

/-- A first branch that matches is taken. -/
theorem Matches.eq_inl_of_alt {value : g.Value} {mid : List Token} {value' : ValueAny (g :: gs)}
    (h : Matches stop g value input mid)
    (h' : Matches stop (Gram.alt (g :: gs)) value' input rest) :
    value' = .inl value := by
  rw [Matches] at h
  rw [Matches, read, readAny, h] at h'
  cases h'
  rfl

end

section

variable {g g' : Gram} {gs : List Gram} {input mid : List Token}

theorem Drops.call {p : Production} (h : Drops stop p.body input) : Drops stop (call p) input := by
  obtain h | ⟨left, h, hnear⟩ := h
  · left
    rw [read, Production.reads_eq, h, Reading.map]
  · right
    refine ⟨left, ?_, hnear⟩
    rw [read, Production.reads_eq, h, Reading.map]

theorem Drops.alt (h : ∀ g ∈ gs, Drops stop g input) : Drops stop (alt gs) input := by
  have hany : ∀ broken, readAny (Production.reads stop) gs broken input = .unmatched ∨
      readAny (Production.reads stop) gs broken input = .failed input := by
    induction gs with
    | nil =>
        intro broken
        cases broken
        · exact Or.inl rfl
        · exact Or.inr rfl
    | cons g gs ih =>
        intro broken
        rw [List.forall_mem_cons] at h
        have hgs := ih h.2
        obtain hg | ⟨left, hg, hnear⟩ := h.1
        · simp only [readAny, hg]
          exact (hgs broken).imp (fun h => by rw [h, Reading.map]) fun h => by rw [h, Reading.map]
        · simp only [readAny, hg, Reading.recover]
          rw [if_neg (by omega)]
          exact (hgs true).imp (fun h => by rw [h, Reading.map]) fun h => by rw [h, Reading.map]
  obtain h | h := hany false
  · exact Or.inl (by rw [read, h])
  · exact Or.inr ⟨input, by rw [read, h], Nat.le_add_right _ _⟩

/-- A sequence breaks off where its second part does not match. -/
theorem Drops.second {value : g.Value} (h : Matches stop g value input mid)
    (hnext : g'.read (Production.reads stop) mid = .unmatched)
    (hnear : input.length ≤ mid.length + lookahead) : Drops stop (seq g (g' :: gs)) input := by
  rw [Matches] at h
  refine Or.inr ⟨mid, ?_, hnear⟩
  simp only [read, h, readAll, hnext, Reading.map]

/-- A sequence breaks off where its third part does not match. -/
theorem Drops.third {g'' : Gram} {mid' : List Token} {value : g.Value} {value' : g'.Value}
    (h : Matches stop g value input mid) (h' : Matches stop g' value' mid mid')
    (hnext : g''.read (Production.reads stop) mid' = .unmatched)
    (hnear : input.length ≤ mid'.length + lookahead) :
    Drops stop (seq g (g' :: g'' :: gs)) input := by
  rw [Matches] at h h'
  refine Or.inr ⟨mid', ?_, hnear⟩
  simp only [read, h, readAll, h', hnext, Reading.map]

end

mutual

/-- Whether a sentence of an expression may begin with a token, when the same is known of the called
productions. -/
def begins (firsts : Production → Token → Bool) : Gram → Token → Bool
  | token options, t => options.any (·.accepts t)
  | call p, t => firsts p t
  | seq first rest, t => first.begins firsts t || (first.skips && beginsAll firsts rest t)
  | opt g, t | many g, t => g.begins firsts t
  | alt branches, t => beginsAny firsts branches t

def beginsAll (firsts : Production → Token → Bool) : List Gram → Token → Bool
  | [], _ => false
  | g :: gs, t => g.begins firsts t || (g.skips && beginsAll firsts gs t)

def beginsAny (firsts : Production → Token → Bool) : List Gram → Token → Bool
  | [], _ => false
  | g :: gs, t => g.begins firsts t || beginsAny firsts gs t

end

end Gram

/-- Nothing has been read. -/
def Reading.Idle {α : Type} (input : List Token) : Reading α → Prop
  | matched _ rest => rest = input
  | unmatched => True
  | failed rest => rest = input

namespace Reading

variable {α β : Type} {input : List Token}

theorem Idle.map {r : Reading α} (h : r.Idle input) (f : α → β) : (r.map f).Idle input := by
  cases r <;> exact h

theorem recover_self (r : Reading α) : recover input input r = r := by
  rw [recover, if_neg (by omega)]

theorem Idle.repeated {step : List Token → Reading α} (h : (step input).Idle input) (n : Nat) :
    (repeated step n input).Idle input := by
  induction n with
  | zero => rfl
  | succ n ih =>
      rw [Reading.repeated]
      cases hstep : step input with
      | matched value rest =>
          rw [hstep] at h
          cases h
          exact ih.map _
      | unmatched => rfl
      | failed rest =>
          rw [hstep] at h
          cases h
          simp only [recover_self]
          rfl

end Reading

namespace Gram

section

variable {calls : Readers} {firsts : Production → Token → Bool} {t : Token} {rest : List Token}

mutual

theorem idle_of_not_begins (hprogress : Readers.Progress calls)
    (hcalls : ∀ p, firsts p t = false → (calls p (t :: rest)).Idle (t :: rest)) (g : Gram)
    (h : g.begins firsts t = false) : (g.read calls (t :: rest)).Idle (t :: rest) := by
  cases g with
  | token options =>
      rw [begins] at h
      rw [read, if_neg (by simp [h])]
      trivial
  | call p => exact hcalls p h
  | seq first others =>
      rw [begins, Bool.or_eq_false_iff] at h
      have hfirst := idle_of_not_begins hprogress hcalls first h.1
      rw [read]
      cases hread : first.read calls (t :: rest) with
      | matched value rest' =>
          rw [hread] at hfirst
          cases hfirst
          have hskips : first.skips = true := by
            cases lt_or_eq_of_read hprogress first hread with
            | inl hlt => exact absurd hlt (Nat.lt_irrefl _)
            | inr heq => exact heq.2
          rw [hskips, Bool.true_and] at h
          exact (idleAll_of_not_beginsAll hprogress hcalls others h.2).map _
      | unmatched => trivial
      | failed rest' =>
          rw [hread] at hfirst
          exact hfirst
  | opt g =>
      have hg := idle_of_not_begins hprogress hcalls g h
      rw [read]
      cases hread : g.read calls (t :: rest) with
      | matched value rest' =>
          rw [hread] at hg
          exact hg
      | unmatched => rfl
      | failed rest' =>
          rw [hread] at hg
          cases hg
          simp only [Reading.recover_self]
          rfl
  | many g =>
      rw [read]
      exact (idle_of_not_begins hprogress hcalls g h).repeated _
  | alt branches =>
      rw [read]
      exact idleAny_of_not_beginsAny hprogress hcalls branches false h

theorem idleAll_of_not_beginsAll (hprogress : Readers.Progress calls)
    (hcalls : ∀ p, firsts p t = false → (calls p (t :: rest)).Idle (t :: rest)) (gs : List Gram)
    (h : beginsAll firsts gs t = false) : (readAll calls gs (t :: rest)).Idle (t :: rest) := by
  cases gs with
  | nil => rfl
  | cons g gs =>
      rw [beginsAll, Bool.or_eq_false_iff] at h
      have hg := idle_of_not_begins hprogress hcalls g h.1
      rw [readAll]
      cases hread : g.read calls (t :: rest) with
      | matched value rest' =>
          rw [hread] at hg
          cases hg
          have hskips : g.skips = true := by
            cases lt_or_eq_of_read hprogress g hread with
            | inl hlt => exact absurd hlt (Nat.lt_irrefl _)
            | inr heq => exact heq.2
          rw [hskips, Bool.true_and] at h
          exact (idleAll_of_not_beginsAll hprogress hcalls gs h.2).map _
      | unmatched => rfl
      | failed rest' =>
          rw [hread] at hg
          exact hg

theorem idleAny_of_not_beginsAny (hprogress : Readers.Progress calls)
    (hcalls : ∀ p, firsts p t = false → (calls p (t :: rest)).Idle (t :: rest)) (gs : List Gram)
    (broken : Bool) (h : beginsAny firsts gs t = false) :
    (readAny calls gs broken (t :: rest)).Idle (t :: rest) := by
  cases gs with
  | nil =>
      rw [readAny]
      split
      · rfl
      · trivial
  | cons g gs =>
      rw [beginsAny, Bool.or_eq_false_iff] at h
      have hg := idle_of_not_begins hprogress hcalls g h.1
      have hgs := fun broken => idleAny_of_not_beginsAny hprogress hcalls gs broken h.2
      rw [readAny]
      cases hread : g.read calls (t :: rest) with
      | matched value rest' =>
          rw [hread] at hg
          exact hg
      | unmatched => exact (hgs broken).map _
      | failed rest' =>
          rw [hread] at hg
          cases hg
          simp only [Reading.recover_self]
          exact (hgs true).map _

end

end

end Gram

namespace Production

/-- Whether a sentence of a production may begin with a token, as far as `n` nested calls tell. -/
def beginsUpTo : Nat → Production → Token → Bool
  | 0, _, _ => true
  | n + 1, p, t => p.body.begins (beginsUpTo n) t

/-- Whether a sentence of a production may begin with a token. -/
def begins (p : Production) (t : Token) : Bool := beginsUpTo (p.rank + 1) p t

theorem idle_of_not_beginsUpTo (stop : Position) (n : Nat) (p : Production) {t : Token}
    {rest : List Token} (h : beginsUpTo n p t = false) :
    (reads stop p (t :: rest)).Idle (t :: rest) := by
  induction n generalizing p with
  | zero => cases h
  | succ n ih =>
      rw [reads_eq]
      exact (Gram.idle_of_not_begins (progress_reads stop) ih p.body h).map _

end Production

namespace Gram

variable {stop : Position} {g : Gram} {t : Token} {input rest : List Token}

/-- An attempt at a token that no sentence begins with is dropped. -/
theorem drops_of_not_begins (hg : g.skips = false) (h : g.begins Production.begins t = false) :
    Drops stop g (t :: rest) := by
  have hidle : (g.read (Production.reads stop) (t :: rest)).Idle (t :: rest) :=
    idle_of_not_begins (Production.progress_reads stop)
      (fun p => Production.idle_of_not_beginsUpTo stop (p.rank + 1) p) g h
  cases hread : g.read (Production.reads stop) (t :: rest) with
  | matched value rest' =>
      rw [hread] at hidle
      cases hidle
      exact absurd (Matches.lt_length hg hread) (Nat.lt_irrefl _)
  | unmatched => exact Or.inl hread
  | failed left =>
      rw [hread] at hidle
      cases hidle
      exact Or.inr ⟨_, hread, Nat.le_add_right _ _⟩

theorem begins_of_matches (hg : g.skips = false) {value : g.Value}
    (h : Matches stop g value input rest) :
    ∃ t more, input = t :: more ∧ g.begins Production.begins t = true := by
  cases input with
  | nil => exact absurd (h.lt_length hg) (Nat.not_lt_zero _)
  | cons t more =>
      refine ⟨t, more, rfl, ?_⟩
      rw [← Bool.not_eq_false]
      intro hbegins
      have hdrops : Drops stop g (t :: more) := drops_of_not_begins hg hbegins
      obtain hread | ⟨left, hread, _⟩ := hdrops
      · rw [Matches, hread] at h
        cases h
      · rw [Matches, hread] at h
        cases h

end Gram
end Script
end ScriptWeave
