import ScriptWeave.Proofs.Script.Derivation

/-!
Reading without fuel. A production reads at least one token, and it calls only productions of lower
rank before it does, so the fuel of a parse is never used up: `Production.reads` satisfies the
equation of a reader that calls itself, and what holds of every node that is built from parts of
which it holds is true of every node that is read.
-/

namespace ScriptWeave
namespace Script

namespace Gram

mutual

/-- Whether an expression may match without reading a token. -/
def skips : Gram → Bool
  | token _ | call _ => false
  | seq first rest => first.skips && skipsAll rest
  | opt _ | many _ => true
  | alt branches => skipsAny branches

def skipsAll : List Gram → Bool
  | [] => true
  | g :: gs => g.skips && skipsAll gs

def skipsAny : List Gram → Bool
  | [] => false
  | g :: gs => g.skips || skipsAny gs

end

mutual

/-- The productions that an expression may call before a token is read. -/
def lefts : Gram → List Production
  | token _ => []
  | call p => [p]
  | seq first rest => first.lefts ++ if first.skips then leftsAll rest else []
  | opt g | many g => g.lefts
  | alt branches => leftsAny branches

def leftsAll : List Gram → List Production
  | [] => []
  | g :: gs => g.lefts ++ if g.skips then leftsAll gs else []

def leftsAny : List Gram → List Production
  | [] => []
  | g :: gs => g.lefts ++ leftsAny gs

end

/-- Some token has been used. -/
def Uses : Judgement := fun _ _ used => used ≠ []

mutual

theorem Fits.skips_or_uses (g : Gram) {value : g.Value} {used : List Token}
    (h : g.Fits Uses value used) : g.skips = true ∨ used ≠ [] := by
  cases g with
  | token options => exact Or.inr (by simp [h.1])
  | call p => exact Or.inr h
  | seq first others =>
      obtain ⟨front, back, rfl, hfirst, hothers⟩ := h
      cases Fits.skips_or_uses first hfirst with
      | inr hfront => exact Or.inr (by simp [hfront])
      | inl hskips =>
          cases FitsAll.skips_or_uses others hothers with
          | inr hback => exact Or.inr (by simp [hback])
          | inl hskipsAll => exact Or.inl (by simp [skips, hskips, hskipsAll])
  | opt g => exact Or.inl rfl
  | many g => exact Or.inl rfl
  | alt branches => exact FitsAny.skips_or_uses branches h

theorem FitsAll.skips_or_uses (gs : List Gram) {values : ValueAll gs} {used : List Token}
    (h : FitsAll Uses gs values used) : skipsAll gs = true ∨ used ≠ [] := by
  cases gs with
  | nil => exact Or.inl rfl
  | cons g gs =>
      obtain ⟨front, back, rfl, hg, hgs⟩ := h
      cases Fits.skips_or_uses g hg with
      | inr hfront => exact Or.inr (by simp [hfront])
      | inl hskips =>
          cases FitsAll.skips_or_uses gs hgs with
          | inr hback => exact Or.inr (by simp [hback])
          | inl hskipsAll => exact Or.inl (by simp [skipsAll, hskips, hskipsAll])

theorem FitsAny.skips_or_uses (gs : List Gram) {value : ValueAny gs} {used : List Token}
    (h : FitsAny Uses gs value used) : skipsAny gs = true ∨ used ≠ [] := by
  cases gs with
  | nil => exact value.elim
  | cons g gs =>
      cases value with
      | inl value =>
          cases Fits.skips_or_uses g h with
          | inl hskips => exact Or.inl (by simp [skipsAny, hskips])
          | inr hused => exact Or.inr hused
      | inr value =>
          cases FitsAny.skips_or_uses gs h with
          | inl hskips => exact Or.inl (by simp [skipsAny, hskips])
          | inr hused => exact Or.inr hused

end

/-- Every called production uses up a token. -/
def Readers.Progress (calls : Readers) : Prop :=
  ∀ p input node rest, calls p input = .matched node rest →
    ∃ used, input = used ++ rest ∧ Uses p node used

section

variable {c₁ c₂ : Readers} {input : List Token}

theorem lt_or_eq_of_read (hprogress : Readers.Progress c₁) (g : Gram) {value : g.Value}
    {rest : List Token} (h : g.read c₁ input = .matched value rest) :
    rest.length < input.length ∨ rest = input ∧ g.skips = true := by
  obtain ⟨used, rfl, hfits⟩ := fits_of_read hprogress g h
  cases Fits.skips_or_uses g hfits with
  | inr hused =>
      have hpos := List.length_pos_iff.2 hused
      refine Or.inl ?_
      rw [List.length_append]
      omega
  | inl hskips =>
      cases used with
      | nil => exact Or.inr ⟨rfl, hskips⟩
      | cons next used =>
          refine Or.inl ?_
          rw [List.length_append, List.length_cons]
          omega

theorem repeated_congr {α : Type} {step₁ step₂ : List Token → Reading α}
    (hlt : ∀ input value rest, step₁ input = .matched value rest →
      rest.length < input.length ∨ rest = input)
    (n : Nat) (heq : step₁ input = step₂ input)
    (hshort : ∀ input', input'.length < input.length → step₁ input' = step₂ input') :
    Reading.repeated step₁ n input = Reading.repeated step₂ n input := by
  induction n generalizing input with
  | zero => rfl
  | succ n ih =>
      rw [Reading.repeated, Reading.repeated, ← heq]
      cases hstep : step₁ input with
      | matched value rest =>
          simp only
          obtain hrest | rfl := hlt _ _ _ hstep
          · rw [ih (hshort rest hrest) fun input' h => hshort input' (Nat.lt_trans h hrest)]
          · rw [ih heq hshort]
      | unmatched | failed _ => rfl

mutual

/-- A reading depends on the calls at shorter inputs and on the leftmost ones at the whole input. -/
theorem read_congr (hprogress : Readers.Progress c₁) (g : Gram) {input : List Token}
    (hshort : ∀ p input', input'.length < input.length → c₁ p input' = c₂ p input')
    (hleft : ∀ p ∈ g.lefts, c₁ p input = c₂ p input) : g.read c₁ input = g.read c₂ input := by
  cases g with
  | token options => rfl
  | call p => exact hleft p (List.mem_singleton_self p)
  | seq first others =>
      have hfirst := read_congr hprogress first hshort fun p hp =>
        hleft p (List.mem_append_left _ hp)
      rw [read, read, ← hfirst]
      cases hread : first.read c₁ input with
      | matched value rest =>
          simp only
          rw [readAll_congr hprogress others]
          · intro p input' h
            refine hshort p input' ?_
            cases lt_or_eq_of_read hprogress first hread with
            | inl hlt => exact Nat.lt_trans h hlt
            | inr heq => exact heq.1 ▸ h
          · intro p hp
            cases lt_or_eq_of_read hprogress first hread with
            | inl hlt => exact hshort p rest hlt
            | inr heq =>
                rw [heq.1]
                refine hleft p (List.mem_append_right _ ?_)
                rw [if_pos heq.2]
                exact hp
      | unmatched | failed _ => rfl
  | opt g => rw [read, read, read_congr hprogress g hshort hleft]
  | many g =>
      rw [read, read]
      refine repeated_congr ?_ _ (read_congr hprogress g hshort hleft) ?_
      · intro input' value rest h
        exact (lt_or_eq_of_read hprogress g h).imp_right And.left
      · intro input' h
        exact read_congr hprogress g (fun p i hi => hshort p i (Nat.lt_trans hi h)) fun p _ =>
          hshort p input' h
  | alt branches =>
      rw [read, read]
      exact readAny_congr hprogress branches hshort hleft

theorem readAll_congr (hprogress : Readers.Progress c₁) (gs : List Gram) {input : List Token}
    (hshort : ∀ p input', input'.length < input.length → c₁ p input' = c₂ p input')
    (hleft : ∀ p ∈ leftsAll gs, c₁ p input = c₂ p input) :
    readAll c₁ gs input = readAll c₂ gs input := by
  cases gs with
  | nil => rfl
  | cons g gs =>
      have hg := read_congr hprogress g hshort fun p hp => hleft p (List.mem_append_left _ hp)
      rw [readAll, readAll, ← hg]
      cases hread : g.read c₁ input with
      | matched value rest =>
          simp only
          obtain hlt | ⟨rfl, hskips⟩ := lt_or_eq_of_read hprogress g hread
          · rw [readAll_congr hprogress gs (fun p i hi => hshort p i (Nat.lt_trans hi hlt))
              fun p _ => hshort p rest hlt]
          · rw [readAll_congr hprogress gs hshort]
            intro p hp
            refine hleft p (List.mem_append_right _ ?_)
            rw [if_pos hskips]
            exact hp
      | unmatched | failed _ => rfl

theorem readAny_congr (hprogress : Readers.Progress c₁) (gs : List Gram) {broken : Bool}
    {input : List Token}
    (hshort : ∀ p input', input'.length < input.length → c₁ p input' = c₂ p input')
    (hleft : ∀ p ∈ leftsAny gs, c₁ p input = c₂ p input) :
    readAny c₁ gs broken input = readAny c₂ gs broken input := by
  cases gs with
  | nil => rfl
  | cons g gs =>
      have hg := read_congr hprogress g hshort fun p hp => hleft p (List.mem_append_left _ hp)
      have hgs : ∀ broken, readAny c₁ gs broken input = readAny c₂ gs broken input := fun _ =>
        readAny_congr hprogress gs hshort fun p hp => hleft p (List.mem_append_right _ hp)
      rw [readAny, readAny, hg, hgs, hgs]

end

end

end Gram

namespace Production

/-- A production calls only productions of lower rank before it has read a token. -/
def rank : Production → Nat
  | typeRef | decl | member | primary => 1
  | postfixExpr => 2
  | unary => 3
  | binary => 4
  | conditional => 5
  | expr => 6
  | forInit | stmt => 7
  | _ => 0

theorem rank_lt_of_mem_lefts (p : Production) : ∀ q ∈ p.body.lefts, q.rank < p.rank := by
  cases p <;> decide

theorem rank_lt_length_all (p : Production) : p.rank < all.length := by
  cases p <;> decide

theorem not_skips_body (p : Production) : p.body.skips = false := by
  cases p <;> rfl

variable (stop : Position)

theorem progress_read (fuel : Nat) : Gram.Readers.Progress (read stop fuel) := by
  induction fuel with
  | zero =>
      intro p input node rest h
      cases h
  | succ fuel ih =>
      intro p input node rest h
      obtain ⟨value, hread, _⟩ := Reading.map_eq_matched h
      obtain ⟨used, hused, hfits⟩ := Gram.fits_of_read ih p.body hread
      refine ⟨used, hused, ?_⟩
      cases Gram.Fits.skips_or_uses p.body hfits with
      | inl hskips => simp [not_skips_body] at hskips
      | inr hne => exact hne

/-- The fuel that a production needs at an input. -/
def need (p : Production) (input : List Token) : Nat := all.length * input.length + p.rank + 1

theorem need_le_of_lt {p q : Production} {input input' : List Token}
    (h : input'.length < input.length) : need q input' < need p input := by
  have hrank := rank_lt_length_all q
  have hmul := Nat.mul_le_mul_left all.length (Nat.succ_le_of_lt h)
  rw [Nat.succ_eq_add_one, Nat.mul_add, Nat.mul_one] at hmul
  rw [need, need]
  omega

theorem need_le_fuelFor (p : Production) (input : List Token) : need p input ≤ fuelFor input := by
  have hrank := rank_lt_length_all p
  rw [need, fuelFor, Nat.mul_add, Nat.mul_one]
  omega

/-- More fuel than is needed changes nothing. -/
theorem read_eq_of_need_le (p : Production) (input : List Token) {n m : Nat}
    (hn : need p input ≤ n) (hm : need p input ≤ m) :
    read stop n p input = read stop m p input := by
  induction hk : need p input using Nat.strongRecOn generalizing p input n m with
  | ind k ih =>
      subst hk
      obtain ⟨n, rfl⟩ : ∃ n', n = n' + 1 := ⟨n - 1, by rw [need] at hn; omega⟩
      obtain ⟨m, rfl⟩ : ∃ m', m = m' + 1 := ⟨m - 1, by rw [need] at hm; omega⟩
      rw [read, read, Gram.read_congr (progress_read stop n) p.body]
      · intro q input' hlt
        have hneed : need q input' < need p input := need_le_of_lt hlt
        exact ih _ hneed q input' (by omega) (by omega) rfl
      · intro q hq
        have hrank := rank_lt_of_mem_lefts p q hq
        have hneed : need q input < need p input := by
          rw [need, need]
          omega
        exact ih _ hneed q input (by omega) (by omega) rfl

/-- Reads a production with enough fuel. -/
def reads : Readers := fun p input => read stop (fuelFor input) p input

theorem reads_eq_read {p : Production} {input : List Token} {n : Nat} (h : need p input ≤ n) :
    reads stop p input = read stop n p input :=
  read_eq_of_need_le stop p input (need_le_fuelFor p input) h

theorem progress_reads : Gram.Readers.Progress (reads stop) := fun p input =>
  progress_read stop (fuelFor input) p input

/-- Reading is reading the body of a production, whose calls are readings again. -/
theorem reads_eq (p : Production) (input : List Token) :
    reads stop p input =
      (p.body.read (reads stop) input).map (p.build (placeOf stop input)) := by
  have hneed := need_le_fuelFor p input
  rw [reads_eq_read stop (Nat.le_succ_of_le hneed), read, ← Gram.read_congr (progress_reads stop)]
  · intro q input' hlt
    exact reads_eq_read stop (Nat.le_trans (Nat.le_of_lt (need_le_of_lt hlt)) hneed)
  · intro q _
    rfl

/-- What holds of every node that is built from parts of which it holds is true of every node that
is read. -/
theorem reads_induction {R : Judgement}
    (step : ∀ p input value rest used, p.body.read (reads stop) input = .matched value rest →
      input = used ++ rest → p.body.Fits R value used →
      R p (p.build (placeOf stop input) value) used)
    (p : Production) {input rest : List Token} {node : p.Node}
    (h : reads stop p input = .matched node rest) :
    ∃ used, input = used ++ rest ∧ R p node used := by
  induction hk : need p input using Nat.strongRecOn generalizing p input rest with
  | ind k ih =>
      subst hk
      rw [reads_eq] at h
      obtain ⟨value, hread, rfl⟩ := Reading.map_eq_matched h
      let calls : Readers := fun q input' =>
        if input'.length < input.length ∨ input' = input ∧ q ∈ p.body.lefts then reads stop q input'
        else .unmatched
      have hcalls : p.body.read (reads stop) input = p.body.read calls input := by
        refine Gram.read_congr (progress_reads stop) p.body ?_ ?_
        · intro q input' hlt
          exact (if_pos (Or.inl hlt)).symm
        · intro q hq
          exact (if_pos (Or.inr ⟨rfl, hq⟩)).symm
      have hjudged : ∀ q input' node' rest', calls q input' = .matched node' rest' →
          ∃ used, input' = used ++ rest' ∧ R q node' used := by
        intro q input' node' rest' hnode
        simp only [calls] at hnode
        split at hnode
        · next hreached =>
            refine ih _ ?_ q hnode rfl
            obtain hlt | ⟨rfl, hq⟩ := hreached
            · exact need_le_of_lt hlt
            · have hrank := rank_lt_of_mem_lefts p q hq
              rw [need, need]
              omega
        · cases hnode
      obtain ⟨used, hused, hfits⟩ := Gram.fits_of_read hjudged p.body (hcalls ▸ hread)
      exact ⟨used, hused, step p input value rest used hread hused hfits⟩

end Production

/-- A text is parsed exactly when its tokens are read as one file with nothing left. -/
theorem parse_eq_ok_iff (text : String) (file : File) :
    parse text = .ok file ↔ ∃ ts stop, tokens text = .ok (ts, stop) ∧
      Production.reads stop .file ts = .matched file [] := by
  rw [parse]
  cases tokens text with
  | error stuck => simp
  | ok lexed =>
      obtain ⟨ts, stop⟩ := lexed
      have hread := parseTokens_eq_ok_iff ts stop file
      constructor
      · intro h
        refine ⟨ts, stop, rfl, hread.1 ?_⟩
        change (parseTokens ts stop).mapError SyntaxError.unexpected = .ok file at h
        cases hparse : parseTokens ts stop with
        | ok file' =>
            rw [hparse] at h
            cases h
            rfl
        | error cause =>
            rw [hparse] at h
            cases h
      · intro h
        obtain ⟨ts', stop', heq, hfile⟩ := h
        cases heq
        change (parseTokens ts stop).mapError SyntaxError.unexpected = .ok file
        rw [hread.2 hfile]
        rfl

end Script
end ScriptWeave
