import ScriptWeave.Pipeline.Frontend
import ScriptWeave.Proofs.Script.Cutting

/-!
Where a refused text is to blame. Every mismatch that matching reports or remembers is one of a
token that it was given or of the end of the text, through however many branches it is passed on. So
the issue of a file that cannot be parsed points at a token of the text, at its end, or at the first
character that cannot be read.
-/

namespace ScriptWeave
namespace Script

open Matcher

namespace Matcher

section

variable (places : List Position)

/-- A state knows of certain places alone: those of its tokens and of the mismatch it remembers. -/
structure State.Within (s : State) : Prop where
  rest : ∀ t ∈ s.rest, t.pos ∈ places
  deepest : ∀ cause, s.deepest = some cause → cause.pos ∈ places

/-- An outcome reports a mismatch at certain places alone. -/
def Outcome.Within {α : Type} : Outcome α → Prop
  | .matched _ s | .unmatched s => s.Within places
  | .failed cause s => cause.pos ∈ places ∧ s.Within places

end

variable {places : List Position} {stop : Position} {α β : Type}

namespace State

variable {s branch : State} {cause : Mismatch}

theorem Within.mismatch (hstop : stop ∈ places) (h : s.Within places) (expected : List Gram) :
    (s.mismatch stop expected).pos ∈ places := by
  rw [State.mismatch, next]
  cases hrest : s.rest with
  | nil => exact hstop
  | cons t rest => exact h.rest t (by simp [hrest])

theorem Within.note (h : s.Within places) (hcause : cause.pos ∈ places) :
    (s.note cause).Within places := by
  rw [State.note]
  split
  · exact ⟨h.rest, fun _ heq => Option.some.inj heq ▸ hcause⟩
  · exact h

theorem Within.accept (h : s.Within places) (hbranch : branch.Within places) :
    (s.accept branch).Within places := by
  rw [State.accept]
  split
  · exact hbranch
  · exact ⟨hbranch.rest, h.deepest⟩

theorem Within.learn (h : s.Within places) (hcause : cause.pos ∈ places)
    (hbranch : branch.Within places) : (s.learn cause branch).Within places := by
  rw [State.learn]
  split
  · exact ⟨h.rest, hbranch.deepest⟩
  · split
    · exact ⟨h.rest, fun _ heq => Option.some.inj heq ▸ hcause⟩
    · exact h

theorem Within.recover {dropped : State → Outcome α} (h : s.Within places)
    (hcause : cause.pos ∈ places) (hbranch : branch.Within places)
    (hdropped : ∀ u : State, u.Within places → (dropped u).Within places) :
    (s.recover cause branch dropped).Within places := by
  have hlearn := h.learn hcause hbranch
  rw [State.recover]
  split
  · exact ⟨hcause, hlearn.accept hbranch⟩
  · exact hdropped _ hlearn

end State

theorem Outcome.Within.andThen {o : Outcome α} {next : α → State → Outcome β}
    (h : o.Within places) (hnext : ∀ value s, s.Within places → (next value s).Within places) :
    (o.andThen next).Within places := by
  cases o with
  | matched value s => exact hnext value s h
  | unmatched s => exact h
  | failed cause s => exact h

theorem Outcome.Within.map {o : Outcome α} (h : o.Within places) (f : α → β) :
    (o.map f).Within places :=
  h.andThen fun _ _ hs => hs

theorem repeatMatch_within {step : State → Outcome α}
    (hstep : ∀ s : State, s.Within places → (step s).Within places) (n : Nat) {s : State}
    (h : s.Within places) : (repeatMatch step n s).Within places := by
  induction n generalizing s with
  | zero => exact h
  | succ n ih =>
      have hone := hstep s h
      rw [repeatMatch]
      cases hresult : step s with
      | failed cause branch =>
          rw [hresult] at hone
          exact (h.note hone.1).recover hone.1 hone.2 fun _ hu => hu
      | unmatched branch =>
          rw [hresult] at hone
          exact h.accept hone
      | matched value branch =>
          rw [hresult] at hone
          exact (ih (h.accept hone)).map _

end Matcher

namespace Gram

variable {places : List Position} {stop : Position} {calls : Calls}

mutual

theorem run_within (hstop : stop ∈ places)
    (hcalls : ∀ p s, s.Within places → (calls p s).Within places) (g : Gram) {s : State}
    (h : s.Within places) : (g.run stop calls s).Within places := by
  cases g with
  | token options =>
      rw [run]
      split
      · next t rest hrest =>
          split
          · exact ⟨fun u hu => h.rest u (by simp [hrest, hu]), h.deepest⟩
          · exact h
      · exact h
  | call p => exact hcalls p s h
  | seq first rest =>
      exact (run_within hstop hcalls first h).andThen fun _ _ hs =>
        (runAll_within hstop hcalls rest hs).map _
  | opt g =>
      have hone := run_within hstop hcalls g h
      rw [run]
      cases hresult : g.run stop calls s with
      | failed cause branch =>
          rw [hresult] at hone
          exact (h.note hone.1).recover hone.1 hone.2 fun _ hu => hu
      | unmatched branch =>
          rw [hresult] at hone
          exact h.accept hone
      | matched value branch =>
          rw [hresult] at hone
          exact h.accept hone
  | many g => exact repeatMatch_within (fun _ hs => run_within hstop hcalls g hs) _ h
  | alt branches => exact runAny_within hstop hcalls branches (fun _ hbest => by cases hbest) 0 h

theorem runAll_within (hstop : stop ∈ places)
    (hcalls : ∀ p s, s.Within places → (calls p s).Within places) (gs : List Gram) {s : State}
    (h : s.Within places) : (runAll stop calls gs s).Within places := by
  cases gs with
  | nil => exact h
  | cons g gs =>
      have hone := run_within hstop hcalls g h
      rw [runAll]
      cases hresult : g.run stop calls s with
      | failed cause s' =>
          rw [hresult] at hone
          exact hone
      | unmatched s' =>
          rw [hresult] at hone
          exact ⟨hone.mismatch hstop _, hone⟩
      | matched value s' =>
          rw [hresult] at hone
          exact (runAll_within hstop hcalls gs hone).map _

theorem runAny_within (hstop : stop ∈ places)
    (hcalls : ∀ p s, s.Within places → (calls p s).Within places) (gs : List Gram)
    {best : Option Mismatch} (hbest : ∀ cause, best = some cause → cause.pos ∈ places) (reach : Nat)
    {s : State} (h : s.Within places) : (runAny stop calls gs best reach s).Within places := by
  cases gs with
  | nil =>
      cases best with
      | none => exact h
      | some cause => exact ⟨hbest cause rfl, h.note (hbest cause rfl)⟩
  | cons g gs =>
      have hone := run_within hstop hcalls g h
      rw [runAny]
      cases hresult : g.run stop calls s with
      | matched value branch =>
          rw [hresult] at hone
          exact h.accept hone
      | unmatched branch => exact (runAny_within hstop hcalls gs hbest reach h).map _
      | failed cause branch =>
          rw [hresult] at hone
          refine h.recover hone.1 hone.2 fun u hu => ?_
          split
          · have hcause : ∀ cause', some cause = some cause' → cause'.pos ∈ places :=
              fun _ heq => Option.some.inj heq ▸ hone.1
            exact (runAny_within hstop hcalls gs hcause _ hu).map _
          · exact (runAny_within hstop hcalls gs hbest reach hu).map _

end

end Gram

namespace Production

theorem run_within {places : List Position} {stop : Position} (hstop : stop ∈ places) (fuel : Nat)
    (p : Production) {s : State} (h : s.Within places) : (run stop fuel p s).Within places := by
  induction fuel generalizing p s with
  | zero => exact h
  | succ fuel ih =>
      have hbody := Gram.run_within hstop (fun q _ hs => ih q hs) p.body h
      rw [run]
      cases hresult : p.body.run stop (run stop fuel) s with
      | matched value s' =>
          rw [hresult] at hbody
          exact hbody
      | unmatched s' =>
          rw [hresult] at hbody
          exact hbody
      | failed cause s' =>
          rw [hresult] at hbody
          exact ⟨hbody.1, hbody.2.note hbody.1⟩

end Production

/-- The mismatch of a whole text is one of its tokens or of its end. -/
theorem pos_of_parseTokens_error {ts : List Token} {stop : Position} {cause : Mismatch}
    (h : parseTokens ts stop = .error cause) : cause.pos = stop ∨ ∃ t ∈ ts, cause.pos = t.pos := by
  have hstop : stop ∈ stop :: ts.map (·.pos) := List.mem_cons_self
  have hstart : (⟨0, ts, none, 0⟩ : State).Within (stop :: ts.map (·.pos)) :=
    ⟨fun t ht => List.mem_cons_of_mem _ (List.mem_map_of_mem ht), fun _ heq => by cases heq⟩
  have hleftover : ∀ s : State, s.Within (stop :: ts.map (·.pos)) →
      (if s.index < s.depth then s.deepest.getD (s.mismatch stop []) else s.mismatch stop []).pos ∈
        stop :: ts.map (·.pos) := by
    intro s hs
    split
    · cases hdeepest : s.deepest with
      | none => exact hs.mismatch hstop []
      | some cause => exact hs.deepest cause hdeepest
    · exact hs.mismatch hstop []
  have hmem : cause.pos ∈ stop :: ts.map (·.pos) := by
    have hrun := Production.run_within hstop (Production.fuelFor ts) .file hstart
    rw [parseTokens] at h
    cases hresult : Production.run stop (Production.fuelFor ts) .file ⟨0, ts, none, 0⟩ with
    | failed cause' s =>
        rw [hresult] at h hrun
        cases h
        exact hrun.1
    | unmatched s =>
        rw [hresult] at h hrun
        cases h
        exact hleftover s hrun
    | matched file s =>
        rw [hresult] at h hrun
        simp only at h
        split at h
        · cases h
        · cases h
          exact hleftover s hrun
  simpa [eq_comm] using hmem

/-- The places of a text that can be to blame when it is refused. -/
inductive Blamed (text : String) : Position → Prop where
  /-- The place of a token of a text that can be cut to its end. -/
  | token {all before after : List Token} {t : Token} (cut : Lexer.Cut [] text.toList all [])
      (stands : all = before ++ t :: after) (kept : t.kind.isLayout = false) :
      Blamed text (.behind (before.flatMap (·.text.toList)))
  /-- The end of such a text. -/
  | stop {all : List Token} (cut : Lexer.Cut [] text.toList all []) :
      Blamed text (.behind text.toList)
  /-- The first character that begins no lexeme. -/
  | unreadable {all : List Token} {rest : List Char} (cut : Lexer.Cut [] text.toList all rest)
      (nonempty : rest ≠ []) (unfit : Lexer.Unreadable rest) :
      Blamed text (.behind (all.flatMap (·.text.toList)))

theorem blamed_of_parse_error {text : String} {error : SyntaxError}
    (h : parse text = .error error) : Blamed text error.pos := by
  rw [parse, tokens] at h
  cases hscan : Lexer.scan .start text.toList with
  | error stuck =>
      rw [hscan] at h
      cases h
      obtain ⟨all, hcut, hne, hunreadable, hpos⟩ := Lexer.cut_of_scan_error [] hscan
      rw [List.nil_append] at hpos
      rw [SyntaxError.pos, hpos]
      exact .unreadable hcut hne hunreadable
  | ok lexed =>
      obtain ⟨all, stop⟩ := lexed
      obtain ⟨hcut, hstop⟩ := Lexer.cut_of_scan_ok [] hscan
      rw [hscan] at h
      simp only [Except.map] at h
      cases hparse : parseTokens (all.filter fun t => !t.kind.isLayout) stop with
      | ok file =>
          rw [hparse] at h
          cases h
      | error cause =>
          rw [hparse] at h
          cases h
          obtain hend | ⟨t, ht, hpos⟩ := pos_of_parseTokens_error hparse
          · rw [SyntaxError.pos, hend, hstop]
            exact .stop hcut
          · rw [List.mem_filter, Bool.not_eq_true'] at ht
            obtain ⟨before, after, hall⟩ := List.append_of_mem ht.1
            rw [SyntaxError.pos, hpos, (hcut.each before t after hall).1]
            exact .token hcut hall ht.2

end Script

namespace Pipeline

/-- A file that is refused yields one issue, which points into the file: at a token of the text, at
its end, or at the first character that no rule reads. -/
theorem parse_fault_points_into_file {file : SourceFile} {fault : Fault}
    (h : Frontend.actionScript.parse file = .error fault) :
    ∃ issue pos, fault = .issue issue ∧ issue.code = .parse ∧
      issue.location = ⟨file.path, pos.line, pos.column⟩ ∧ Script.Blamed file.text pos := by
  simp only [Frontend.actionScript] at h
  cases hparse : Script.parse file.text with
  | ok tree =>
      rw [hparse] at h
      cases h
  | error error =>
      rw [hparse] at h
      cases h
      exact ⟨_, error.pos, rfl, rfl, rfl, Script.blamed_of_parse_error hparse⟩

/-- A value is missing. The declaration is given up as a whole, so its first token is to blame. -/
def brokenFile : SourceFile := ⟨"Broken.as", "package \x7b\n  var x = ;\n\x7d"⟩

theorem brokenFile_fault_points_into_file :
    ∃ issue, Frontend.actionScript.parse brokenFile = .error (.issue issue) ∧
      issue.code = .parse ∧ issue.location = ⟨"Broken.as", 2, 3⟩ ∧
      ∃ pos, issue.location = ⟨brokenFile.path, pos.line, pos.column⟩ ∧
        Script.Blamed brokenFile.text pos := by
  have hplace : (((Script.parse brokenFile.text).map fun _ => Script.Position.start).tryCatch
      fun error => .ok error.pos).toOption = some ⟨2, 3⟩ := by decide +kernel
  cases hparse : Script.parse brokenFile.text with
  | ok tree =>
      rw [hparse] at hplace
      cases hplace
  | error error =>
      have hfault : Frontend.actionScript.parse brokenFile =
          .error (.issue (.ofSyntaxError "Broken.as" error)) := by
        simp only [Frontend.actionScript, hparse]
        rfl
      obtain ⟨issue, pos, heq, hcode, hlocation, hblamed⟩ := parse_fault_points_into_file hfault
      cases heq
      have hpos : error.pos = ⟨2, 3⟩ := by
        rw [hparse] at hplace
        exact Option.some.inj hplace
      refine ⟨_, hfault, hcode, ?_, pos, hlocation, hblamed⟩
      simp [Issue.ofSyntaxError, Issue.parse, hpos]

end Pipeline
end ScriptWeave
