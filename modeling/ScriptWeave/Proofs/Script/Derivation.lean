import ScriptWeave.Proofs.Script.Reading

/-!
What a match is made of. `Gram.Fits` says that a value of a grammar expression is spelled by a list
of tokens, where the nodes of called productions are judged by a relation that is left open; a
reading always yields a value that fits the tokens it has used up. With the relation that only looks
at the grammar, a reading shows that its tokens are a sentence of the grammar.
-/

namespace ScriptWeave
namespace Script

/-- A judgement on the nodes of productions and the tokens that they stand for. -/
abbrev Judgement : Type := (p : Production) → p.Node → List Token → Prop

/-- The values stand for consecutive runs of tokens. -/
def Repeats {α : Type} (P : α → List Token → Prop) : List α → List Token → Prop
  | [], used => used = []
  | value :: values, used => ∃ front back, used = front ++ back ∧ P value front ∧
      Repeats P values back

namespace Gram

variable (R : Judgement)

mutual

def Fits : (g : Gram) → g.Value → List Token → Prop
  | token options, next, used => used = [next] ∧ options.any (·.accepts next) = true
  | call p, node, used => R p node used
  | seq first rest, (value, values), used =>
      ∃ front back, used = front ++ back ∧ first.Fits value front ∧ FitsAll rest values back
  | opt _, none, used => used = []
  | opt g, some value, used => g.Fits value used
  | many g, values, used => Repeats g.Fits values used
  | alt branches, value, used => FitsAny branches value used

def FitsAll : (gs : List Gram) → ValueAll gs → List Token → Prop
  | [], (), used => used = []
  | g :: gs, (value, values), used =>
      ∃ front back, used = front ++ back ∧ g.Fits value front ∧ FitsAll gs values back

def FitsAny : (gs : List Gram) → ValueAny gs → List Token → Prop
  | g :: _, .inl value, used => g.Fits value used
  | _ :: gs, .inr value, used => FitsAny gs value used

end

end Gram

namespace Reading

variable {α β : Type}

theorem map_eq_matched {f : α → β} {r : Reading α} {value : β} {rest : List Token}
    (h : r.map f = .matched value rest) : ∃ a, r = .matched a rest ∧ f a = value := by
  cases r with
  | matched a rest' =>
      cases h
      exact ⟨a, rfl, rfl⟩
  | unmatched | failed _ => cases h

theorem recover_eq_matched {input left rest : List Token} {dropped : Reading α} {value : α}
    (h : recover input left dropped = .matched value rest) : dropped = .matched value rest := by
  rw [recover] at h
  split at h
  · cases h
  · exact h

theorem repeated_matched {P : α → List Token → Prop} {step : List Token → Reading α}
    (hstep : ∀ input value rest, step input = .matched value rest →
      ∃ used, input = used ++ rest ∧ P value used)
    (n : Nat) {input rest : List Token} {values : List α}
    (h : repeated step n input = .matched values rest) :
    ∃ used, input = used ++ rest ∧ Repeats P values used := by
  induction n generalizing input values with
  | zero =>
      cases h
      exact ⟨[], rfl, rfl⟩
  | succ n ih =>
      rw [repeated] at h
      split at h
      · cases recover_eq_matched h
        exact ⟨[], rfl, rfl⟩
      · cases h
        exact ⟨[], rfl, rfl⟩
      · next value mid hvalue =>
          obtain ⟨values', hvalues, rfl⟩ := map_eq_matched h
          obtain ⟨front, rfl, hfront⟩ := hstep _ _ _ hvalue
          obtain ⟨back, rfl, hback⟩ := ih hvalues
          exact ⟨front ++ back, by simp, front, back, rfl, hfront, hback⟩

end Reading

namespace Gram

variable {calls : Readers} {R : Judgement}

mutual

/-- A reading yields a value that fits the tokens it has used up. -/
theorem fits_of_read (hcalls : ∀ p input node rest, calls p input = .matched node rest →
      ∃ used, input = used ++ rest ∧ R p node used)
    (g : Gram) {input rest : List Token} {value : g.Value}
    (h : g.read calls input = .matched value rest) :
    ∃ used, input = used ++ rest ∧ g.Fits R value used := by
  cases g with
  | token options =>
      cases input with
      | nil => cases h
      | cons next rest' =>
          rw [read] at h
          split at h
          · next haccepts =>
              cases h
              exact ⟨[value], rfl, rfl, haccepts⟩
          · cases h
  | call p => exact hcalls p input value rest h
  | seq first others =>
      rw [read] at h
      split at h
      · next v mid hfirst =>
          obtain ⟨vs, hothers, rfl⟩ := Reading.map_eq_matched h
          obtain ⟨front, rfl, hfront⟩ := fits_of_read hcalls first hfirst
          obtain ⟨back, rfl, hback⟩ := fitsAll_of_readAll hcalls others hothers
          exact ⟨front ++ back, by simp, front, back, rfl, hfront, hback⟩
      · cases h
      · cases h
  | opt g =>
      rw [read] at h
      split at h
      · cases Reading.recover_eq_matched h
        exact ⟨[], rfl, rfl⟩
      · cases h
        exact ⟨[], rfl, rfl⟩
      · next v mid hv =>
          cases h
          exact fits_of_read hcalls g hv
  | many g =>
      rw [read] at h
      exact Reading.repeated_matched (fun _ _ _ => fits_of_read hcalls g) _ h
  | alt branches =>
      rw [read] at h
      exact fitsAny_of_readAny hcalls branches h

theorem fitsAll_of_readAll (hcalls : ∀ p input node rest, calls p input = .matched node rest →
      ∃ used, input = used ++ rest ∧ R p node used)
    (gs : List Gram) {input rest : List Token} {values : ValueAll gs}
    (h : readAll calls gs input = .matched values rest) :
    ∃ used, input = used ++ rest ∧ FitsAll R gs values used := by
  cases gs with
  | nil =>
      cases h
      exact ⟨[], rfl, rfl⟩
  | cons g gs =>
      rw [readAll] at h
      split at h
      · cases h
      · cases h
      · next v mid hv =>
          obtain ⟨vs, hvs, rfl⟩ := Reading.map_eq_matched h
          obtain ⟨front, rfl, hfront⟩ := fits_of_read hcalls g hv
          obtain ⟨back, rfl, hback⟩ := fitsAll_of_readAll hcalls gs hvs
          exact ⟨front ++ back, by simp, front, back, rfl, hfront, hback⟩

theorem fitsAny_of_readAny (hcalls : ∀ p input node rest, calls p input = .matched node rest →
      ∃ used, input = used ++ rest ∧ R p node used)
    (gs : List Gram) {broken : Bool} {input rest : List Token} {value : ValueAny gs}
    (h : readAny calls gs broken input = .matched value rest) :
    ∃ used, input = used ++ rest ∧ FitsAny R gs value used := by
  cases gs with
  | nil => exact value.elim
  | cons g gs =>
      rw [readAny] at h
      split at h
      · next v mid hv =>
          cases h
          exact fits_of_read hcalls g hv
      · obtain ⟨v, hv, rfl⟩ := Reading.map_eq_matched h
        exact fitsAny_of_readAny hcalls gs hv
      · obtain ⟨v, hv, rfl⟩ := Reading.map_eq_matched (Reading.recover_eq_matched h)
        exact fitsAny_of_readAny hcalls gs hv

end

section

variable (T : Token → Prop) (Q : (p : Production) → p.Node → Prop)

mutual

/-- Every token of a match is one that the grammar asks for and satisfies `T`, and every node of a
called production satisfies `Q`. -/
def Each : (g : Gram) → g.Value → Prop
  | token options, next => options.any (·.accepts next) = true ∧ T next
  | call p, node => Q p node
  | seq first rest, (value, values) => first.Each value ∧ EachAll rest values
  | opt _, none => True
  | opt g, some value => g.Each value
  | many g, values => ∀ value ∈ values, g.Each value
  | alt branches, value => EachAny branches value

def EachAll : (gs : List Gram) → ValueAll gs → Prop
  | [], () => True
  | g :: gs, (value, values) => g.Each value ∧ EachAll gs values

def EachAny : (gs : List Gram) → ValueAny gs → Prop
  | g :: _, .inl value => g.Each value
  | _ :: gs, .inr value => EachAny gs value

end

end

section

variable {T : Token → Prop} {Q : (p : Production) → p.Node → Prop}

theorem Each.text_eq {text : String} {next : Token} (h : (word text).Each T Q next) :
    next.text = text := by
  simpa [Each, Terminal.accepts] using h.1

theorem Repeats.each {α : Type} {P : α → List Token → Prop} {E : α → Prop}
    (h : ∀ value used, P value used → (∀ t ∈ used, T t) → E value) {values : List α}
    {used : List Token} (hr : Repeats P values used) (hT : ∀ t ∈ used, T t) :
    ∀ value ∈ values, E value := by
  induction values generalizing used with
  | nil => simp
  | cons value values ih =>
      obtain ⟨front, back, rfl, hvalue, hvalues⟩ := hr
      rw [List.forall_mem_append] at hT
      exact List.forall_mem_cons.2 ⟨h _ _ hvalue hT.1, ih hvalues hT.2⟩

mutual

theorem Fits.each (hR : ∀ p node used, R p node used → (∀ t ∈ used, T t) → Q p node) (g : Gram)
    {value : g.Value} {used : List Token} (h : g.Fits R value used) (hT : ∀ t ∈ used, T t) :
    g.Each T Q value := by
  cases g with
  | token options =>
      obtain ⟨rfl, haccepts⟩ := h
      exact ⟨haccepts, hT value (List.mem_singleton_self value)⟩
  | call p => exact hR p value used h hT
  | seq first others =>
      obtain ⟨front, back, rfl, hfirst, hothers⟩ := h
      rw [List.forall_mem_append] at hT
      exact ⟨Fits.each hR first hfirst hT.1, FitsAll.each hR others hothers hT.2⟩
  | opt g =>
      cases value with
      | none => trivial
      | some value => exact Fits.each hR g h hT
  | many g => exact Repeats.each (fun _ _ hvalue => Fits.each hR g hvalue) h hT
  | alt branches => exact FitsAny.each hR branches h hT

theorem FitsAll.each (hR : ∀ p node used, R p node used → (∀ t ∈ used, T t) → Q p node)
    (gs : List Gram) {values : ValueAll gs} {used : List Token} (h : FitsAll R gs values used)
    (hT : ∀ t ∈ used, T t) : EachAll T Q gs values := by
  cases gs with
  | nil => trivial
  | cons g gs =>
      obtain ⟨front, back, rfl, hg, hgs⟩ := h
      rw [List.forall_mem_append] at hT
      exact ⟨Fits.each hR g hg hT.1, FitsAll.each hR gs hgs hT.2⟩

theorem FitsAny.each (hR : ∀ p node used, R p node used → (∀ t ∈ used, T t) → Q p node)
    (gs : List Gram) {value : ValueAny gs} {used : List Token} (h : FitsAny R gs value used)
    (hT : ∀ t ∈ used, T t) : EachAny T Q gs value := by
  cases gs with
  | nil => exact value.elim
  | cons g gs =>
      cases value with
      | inl value => exact Fits.each hR g h hT
      | inr value => exact FitsAny.each hR gs h hT

end

end

section

variable {α β : Type}

mutual

/-- What the tokens and the called nodes of a match hold, in order. -/
def collect (word : Token → List α) (part : (p : Production) → p.Node → List α) :
    (g : Gram) → g.Value → List α
  | token _, next => word next
  | call p, node => part p node
  | seq first rest, (value, values) =>
      first.collect word part value ++ collectAll word part rest values
  | opt _, none => []
  | opt g, some value => g.collect word part value
  | many g, values => values.flatMap (g.collect word part)
  | alt branches, value => collectAny word part branches value

def collectAll (word : Token → List α) (part : (p : Production) → p.Node → List α) :
    (gs : List Gram) → ValueAll gs → List α
  | [], () => []
  | g :: gs, (value, values) => g.collect word part value ++ collectAll word part gs values

def collectAny (word : Token → List α) (part : (p : Production) → p.Node → List α) :
    (gs : List Gram) → ValueAny gs → List α
  | g :: _, .inl value => g.collect word part value
  | _ :: gs, .inr value => collectAny word part gs value

end

variable {word : Token → List α} {part : (p : Production) → p.Node → List α}
  {kept : Token → List β} {S : List α → List β → Prop}

theorem Repeats.collect {γ : Type} {P : γ → List Token → Prop} {f : γ → List α}
    (hnil : S [] []) (happend : ∀ {a b c d}, S a b → S c d → S (a ++ c) (b ++ d))
    (h : ∀ value used, P value used → S (f value) (used.flatMap kept))
    {values : List γ} {used : List Token} (hr : Repeats P values used) :
    S (values.flatMap f) (used.flatMap kept) := by
  induction values generalizing used with
  | nil =>
      cases hr
      exact hnil
  | cons value values ih =>
      obtain ⟨front, back, rfl, hvalue, hvalues⟩ := hr
      rw [List.flatMap_cons, List.flatMap_append]
      exact happend (h _ _ hvalue) (ih hvalues)

mutual

/-- A relation that holds piece by piece holds between what a match collects and what its tokens
hold. -/
theorem Fits.collect (hnil : S [] []) (happend : ∀ {a b c d}, S a b → S c d → S (a ++ c) (b ++ d))
    (hword : ∀ t, S (word t) (kept t))
    (hpart : ∀ p node used, R p node used → S (part p node) (used.flatMap kept)) (g : Gram)
    {value : g.Value} {used : List Token} (h : g.Fits R value used) :
    S (g.collect word part value) (used.flatMap kept) := by
  cases g with
  | token options =>
      obtain ⟨rfl, _⟩ := h
      rw [List.flatMap_singleton]
      exact hword value
  | call p => exact hpart p value used h
  | seq first others =>
      obtain ⟨front, back, rfl, hfirst, hothers⟩ := h
      rw [Gram.collect, List.flatMap_append]
      exact happend (Fits.collect hnil happend hword hpart first hfirst)
        (FitsAll.collect hnil happend hword hpart others hothers)
  | opt g =>
      cases value with
      | none =>
          cases h
          exact hnil
      | some value => exact Fits.collect hnil happend hword hpart g h
  | many g =>
      exact Repeats.collect hnil happend
        (fun _ _ hvalue => Fits.collect hnil happend hword hpart g hvalue) h
  | alt branches => exact FitsAny.collect hnil happend hword hpart branches h

theorem FitsAll.collect (hnil : S [] [])
    (happend : ∀ {a b c d}, S a b → S c d → S (a ++ c) (b ++ d)) (hword : ∀ t, S (word t) (kept t))
    (hpart : ∀ p node used, R p node used → S (part p node) (used.flatMap kept)) (gs : List Gram)
    {values : ValueAll gs} {used : List Token} (h : FitsAll R gs values used) :
    S (collectAll word part gs values) (used.flatMap kept) := by
  cases gs with
  | nil =>
      cases h
      exact hnil
  | cons g gs =>
      obtain ⟨front, back, rfl, hg, hgs⟩ := h
      rw [collectAll, List.flatMap_append]
      exact happend (Fits.collect hnil happend hword hpart g hg)
        (FitsAll.collect hnil happend hword hpart gs hgs)

theorem FitsAny.collect (hnil : S [] [])
    (happend : ∀ {a b c d}, S a b → S c d → S (a ++ c) (b ++ d)) (hword : ∀ t, S (word t) (kept t))
    (hpart : ∀ p node used, R p node used → S (part p node) (used.flatMap kept)) (gs : List Gram)
    {value : ValueAny gs} {used : List Token} (h : FitsAny R gs value used) :
    S (collectAny word part gs value) (used.flatMap kept) := by
  cases gs with
  | nil => exact value.elim
  | cons g gs =>
      cases value with
      | inl value => exact Fits.collect hnil happend hword hpart g h
      | inr value => exact FitsAny.collect hnil happend hword hpart gs h

end

end

/-- The tokens are a sentence of a grammar expression. -/
inductive Derives : Gram → List Token → Prop where
  | token {options : List Terminal} {next : Token} (h : options.any (·.accepts next) = true) :
      Derives (token options) [next]
  | call {p : Production} {used : List Token} (h : Derives p.body used) : Derives (call p) used
  | last {g : Gram} {used : List Token} (h : Derives g used) : Derives (seq g []) used
  | next {g g' : Gram} {gs : List Gram} {front back : List Token} (h : Derives g front)
      (hs : Derives (seq g' gs) back) : Derives (seq g (g' :: gs)) (front ++ back)
  | missing {g : Gram} : Derives (opt g) []
  | present {g : Gram} {used : List Token} (h : Derives g used) : Derives (opt g) used
  | stop {g : Gram} : Derives (many g) []
  | again {g : Gram} {front back : List Token} (h : Derives g front) (hs : Derives (many g) back) :
      Derives (many g) (front ++ back)
  | branch {g : Gram} {gs : List Gram} {used : List Token} (hg : g ∈ gs) (h : Derives g used) :
      Derives (alt gs) used

theorem derives_many {g : Gram} (h : ∀ value used, g.Fits R value used → Derives g used)
    {values : List g.Value} {used : List Token} (hr : Repeats (g.Fits R) values used) :
    Derives (many g) used := by
  induction values generalizing used with
  | nil =>
      cases hr
      exact .stop
  | cons value values ih =>
      obtain ⟨front, back, rfl, hvalue, hvalues⟩ := hr
      exact .again (h _ _ hvalue) (ih hvalues)

mutual

theorem Fits.derives (hR : ∀ p node used, R p node used → Derives (call p) used) (g : Gram)
    {value : g.Value} {used : List Token} (h : g.Fits R value used) : Derives g used := by
  cases g with
  | token options =>
      obtain ⟨rfl, haccepts⟩ := h
      exact .token haccepts
  | call p => exact hR p value used h
  | seq first others =>
      obtain ⟨front, back, rfl, hfirst, hothers⟩ := h
      exact FitsAll.derives hR others (Fits.derives hR first hfirst) hothers
  | opt g =>
      cases value with
      | none =>
          cases h
          exact .missing
      | some value => exact .present (Fits.derives hR g h)
  | many g => exact derives_many (fun _ _ => Fits.derives hR g) h
  | alt branches =>
      obtain ⟨g, hg, hderives⟩ := FitsAny.derives hR branches h
      exact .branch hg hderives

theorem FitsAll.derives (hR : ∀ p node used, R p node used → Derives (call p) used)
    (gs : List Gram) {first : Gram} {values : ValueAll gs} {front back : List Token}
    (hfirst : Derives first front) (h : FitsAll R gs values back) :
    Derives (seq first gs) (front ++ back) := by
  cases gs with
  | nil =>
      cases h
      rw [List.append_nil]
      exact .last hfirst
  | cons g gs =>
      obtain ⟨mid, back, rfl, hg, hgs⟩ := h
      exact .next hfirst (FitsAll.derives hR gs (Fits.derives hR g hg) hgs)

theorem FitsAny.derives (hR : ∀ p node used, R p node used → Derives (call p) used)
    (gs : List Gram) {value : ValueAny gs} {used : List Token} (h : FitsAny R gs value used) :
    ∃ g ∈ gs, Derives g used := by
  cases gs with
  | nil => exact value.elim
  | cons g gs =>
      cases value with
      | inl value => exact ⟨g, List.mem_cons_self, Fits.derives hR g h⟩
      | inr value =>
          obtain ⟨g', hg', hderives⟩ := FitsAny.derives hR gs h
          exact ⟨g', List.mem_cons_of_mem _ hg', hderives⟩

end

end Gram

end Script
end ScriptWeave
