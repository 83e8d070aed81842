import ScriptWeave.Proofs.Emit.PlainNames
import ScriptWeave.Proofs.Script.Homes
import ScriptWeave.Proofs.Script.Layers

/-!
Local names and the scopes of the target language. Resolving gives every name that a function
declares the whole function as its scope, catch clauses included, so a name that it takes for a
local one is in scope where it is printed, or a catch clause in a function around it has the name.
-/

namespace ScriptWeave
namespace Resolve

open Script (Fragment Layer Reference ReferenceKey Use parse)

namespace Environment

variable {env : Environment} {r : Reference} {b : Binding} {x : String}

/-- A name of the file itself is declared by a function around it, or by the file. -/
theorem declared_of_lookup {ctx : Script.Context} {name : String}
    (h : env.lookup ctx name = .ok (some (.here x))) :
    x = name ∧ (ctx.declares name = true ∨ name ∈ env.declared) := by
  refine ⟨Target.here.inj (here_of_lookup h rfl), ?_⟩
  obtain ⟨hdeclares, _⟩ | ⟨_, ⟨_, hmember, hfound⟩ | ⟨_, ⟨hfile, _⟩ | ⟨_, _, _, hfound⟩⟩⟩ :=
    lookup_cases h
  · exact Or.inl hdeclares
  · cases hfound
    obtain ⟨c, isStatic, _, htarget⟩ := member?_cases hmember
    cases isStatic <;> cases htarget
  · exact Or.inr hfile
  · obtain ⟨s, _, hs⟩ := Option.map_eq_some_iff.1 hfound.symm
    cases hs

theorem lookup_of_bind (h : env.bind r = .ok b) (hb : b.target = .here x) :
    env.lookup r.context r.first = .ok (some (.here x)) := by
  obtain hlookup | ⟨found, _, hfound⟩ | ⟨_, ⟨_, hbuiltin⟩ | hinherited⟩ := target_cases h
  · exact hb ▸ hlookup
  · cases hb.symm.trans hfound
  · cases hb.symm.trans hbuiltin
  · obtain ⟨c, _, ht⟩ := inherited?_cases hinherited
    cases hb.symm.trans ht

end Environment

/-- What a function around a use or the file declares is in scope, or the name of a catch clause. -/
theorem inScope_or_caught_of_declared {file : Script.File} {u : Use} {ctx : Script.Context}
    (hframes : ctx.frames = u.functions.map Script.Enclosing.frame)
    (h : ctx.declares u.name = true ∨ u.name ∈ file.declaredNames) :
    u.InScope file ∨ u.CaughtInFunction := by
  cases h with
  | inl hfunction =>
      obtain ⟨frames, around⟩ := ctx
      subst hframes
      obtain ⟨f, hf, hname⟩ := Script.Enclosing.declares_context.1 hfunction
      exact Use.inScope_or_caught_of_functions hf hname
  | inr hfile => exact Or.inl (Or.inl (List.mem_map.1 hfile))

/-- Every identifier and every target of `new` that means a name of the file itself is a use of that
name, and below every place where it is used the name is in scope, or else it is the name of a catch
clause in a function around the place. -/
theorem here_inScope_or_caught {text : String} {source : Source} {table : SymbolTable} {m : Module}
    (hparse : parse text = .ok source.file) (hrun : run source table = .ok m)
    {key : ReferenceKey} (hkind : key.kind ≠ .base) {b : Binding} (hb : m.binding? key = some b)
    {x : String} (hx : b.target = .here x) :
    (∃ u, source.file.Uses u ∧ u.key = key) ∧
    ∀ u, source.file.Uses u → u.key = key →
      u.name = x ∧ (u.InScope source.file ∨ u.CaughtInFunction) := by
  constructor
  · obtain ⟨_, _, _, _, _, hreferences, _⟩ := run_eq_ok hrun
    have hkey : key ∈ m.links.map (·.reference.key) := by
      obtain ⟨l, hl, _⟩ := Option.map_eq_some_iff.1 hb
      exact List.mem_map.2 ⟨l, List.mem_of_find?_eq_some hl, by simpa using List.find?_some hl⟩
    obtain ⟨l, hl, rfl⟩ := List.mem_map.1 hkey
    exact Script.File.exists_use (hreferences ▸ List.mem_map.2 ⟨l, hl, rfl⟩) hkind
  · rintro u hu rfl
    obtain ⟨r, hr, hkey, hfirst, hframes⟩ := hu.reference
    obtain ⟨env, hdeclared, hbind⟩ := bind_of_binding? hparse hrun hr
    have hlookup := Environment.lookup_of_bind (hbind b (hkey ▸ hb)) hx
    obtain ⟨rfl, hnames⟩ := Environment.declared_of_lookup hlookup
    rw [hfirst, hdeclared] at hnames
    exact ⟨hfirst.symm, inScope_or_caught_of_declared hframes hnames⟩

/-- A parameter in a `try` block, the name of a clause in its own block, and the function itself. -/
def enclosedText : String :=
  "package \x7b function A(p) \x7b try \x7b p; \x7d catch (e) \x7b e; \x7d new A; \x7d \x7d"

theorem caughtName_inScope_or_caught : ∃ source m, parse enclosedText = .ok source.file ∧
    run source .empty = .ok m ∧ m.binding? ⟨.ident, ⟨1, 50⟩⟩ = some ⟨.here "e", 0⟩ ∧
      (∃ u, source.file.Uses u ∧ u.key = ⟨.ident, ⟨1, 50⟩⟩) ∧
      ∀ u, source.file.Uses u → u.key = ⟨.ident, ⟨1, 50⟩⟩ →
        u.name = "e" ∧ (u.InScope source.file ∨ u.CaughtInFunction) := by
  have hall : ((parse enclosedText).toOption.any fun file =>
      (run ⟨"A.as", file⟩ .empty).toOption.any fun m =>
        m.binding? ⟨.ident, ⟨1, 50⟩⟩ = some ⟨.here "e", 0⟩) = true := by
    decide +kernel
  obtain ⟨file, hparse, hall⟩ := Script.exists_ok_of_any hall
  obtain ⟨m, hrun, hb⟩ := Script.exists_ok_of_any hall
  have hbound := of_decide_eq_true hb
  exact ⟨⟨"A.as", file⟩, m, hparse, hrun, hbound,
    here_inScope_or_caught hparse hrun (by decide) hbound rfl⟩

/-- The name of a catch clause, returned after the clause. -/
def strayText : String :=
  "package \x7b function A() \x7b try \x7b \x7d catch (e) \x7b \x7d return e; \x7d \x7d"

/-- An empty `try` with an empty catch clause for `e`, and then a `return` of that name. -/
@[match_pattern]
def strayBody (body attempt tried caught handled returned value name : Script.Position) :
    Script.Block :=
  ⟨body, [.attempt attempt ⟨tried, []⟩ (some ⟨caught, "e", none, ⟨handled, []⟩⟩) none,
    .returns returned (some (.value (.plain ⟨⟨value, [], ⟨.ident name "e", [], none⟩⟩, []⟩)))]⟩

section

variable {body attempt tried caught handled returned value name : Script.Position}

theorem descends_strayBody {ls : List Layer} : Script.Descends ls
    (.block (strayBody body attempt tried caught handled returned value name)) ls
    (.operand ⟨.ident name "e", [], none⟩) :=
  .part (fun _ => Fragment.noConfusion) (.item (List.mem_cons_of_mem _ List.mem_cons_self)) <|
  .part (fun _ => Fragment.noConfusion) .result <| .part (fun _ => Fragment.noConfusion) .value <|
  .part (fun _ => Fragment.noConfusion) .plain <| .part (fun _ => Fragment.noConfusion) .head .here

/-- The body has no variables. -/
theorem not_within_strayBody {d : Script.VarDecl} : ¬ Fragment.Within
    (.block (strayBody body attempt tried caught handled returned value name)) (.varDecl d) := by
  intro h
  simpa [strayBody, Fragment.nodes_eq, Fragment.parts, Fragment.ofStmt, Fragment.ofPrimary] using
    Fragment.mem_nodes_of_within h

end

/-- Where the returned name stands in a file that only has a function `A` with such a body. -/
def strayPlace? : Script.File → Option Script.Position
  | ⟨_, _, _, [⟨_, _, .function ⟨_, "A", [], _, strayBody _ _ _ _ _ _ _ name⟩⟩]⟩ => some name
  | _ => none

/-- A name that is returned after the catch clause that declares it means that clause, which is
over. -/
theorem strayName_not_inScope : ∃ source m u b, parse strayText = .ok source.file ∧
    run source .empty = .ok m ∧ u.key.kind = .ident ∧ m.binding? u.key = some b ∧
      b.target = .here u.name ∧ source.file.Uses u ∧ ¬ u.InScope source.file := by
  have hall : ((parse strayText).toOption.any fun file =>
      (strayPlace? file).any fun name => (run ⟨"A.as", file⟩ .empty).toOption.any fun m =>
        m.binding? ⟨.ident, name⟩ = some ⟨.here "e", 0⟩) = true := by
    decide +kernel
  obtain ⟨file, hparse, hall⟩ := Script.exists_ok_of_any hall
  unfold strayPlace? at hall
  split at hall
  · rename_i body attempt tried caught handled returned value name
    rw [Option.any_some] at hall
    obtain ⟨m, hrun, hb⟩ := Script.exists_ok_of_any hall
    refine ⟨_, m, ⟨⟨.ident, name⟩, "e", [.function ⟨[],
      strayBody body attempt tried caught handled returned value name, false⟩]⟩, _, hparse, hrun,
      rfl, of_decide_eq_true hb, rfl, ?_, ?_⟩
    · exact ⟨none, _, _, ⟨.ident name "e", [], none⟩,
        .function List.mem_cons_self rfl .body, descends_strayBody, .ident⟩
    · rintro (⟨d, hd, hname⟩ | ⟨l, hl, hbinds⟩)
      · cases List.mem_singleton.1 hd
        simp [Script.Decl.name] at hname
      · cases List.mem_singleton.1 hl
        obtain ⟨p, hp, _⟩ | ⟨d, hd, _⟩ := hbinds
        · cases hp
        · exact not_within_strayBody hd
  · cases hall

end Resolve
end ScriptWeave
