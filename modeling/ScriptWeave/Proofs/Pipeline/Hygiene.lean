import ScriptWeave.Proofs.Emit.Hosts
import ScriptWeave.Proofs.Pipeline.LinkSoundness
import ScriptWeave.Proofs.Resolve.Uses

/-!
Hygiene of emitted modules. Printing introduces names that the source does not have, and neither
chooses fresh ones nor renames what is in their way. What follows is exactly when they stand for
what they are meant to.
-/

namespace ScriptWeave

open Resolve (Module)

namespace Emit

open Script (Home Layer)

/-- The introduced names in the code of a file, each with the scopes that can be in its way. -/
structure Introduces (host : Host) (m : Module) : Prop where
  /-- The code of a home is printed in the scopes that are taken to be around it. -/
  stands : ∀ home d, m.source.file.Has home →
    home.StandsIn (.ofModule m) d (file (.ofModule m) d m.source.file)
  /-- A symbol of another module that is used, or constructed. -/
  symbol : ∀ home u b s, m.source.file.UsesAt home u → m.binding? u.key = some b →
    b.target = .external s → ∃ x r, host.Spells m s x r ∧
      (Denotes (host.chain m home u.layers) x (some r) ↔
        (∀ l ∈ u.layers ++ home.moved, ¬ l.Binds x) ∧ x ∉ m.source.file.declaredNames)
  /-- A symbol of another module that is extended, which is an argument of the function around the
  class. -/
  base : ∀ d ∈ m.source.file.decls, ∀ c q b s, d.body = .type c → c.base = some q →
    m.binding? ⟨.base, q.pos⟩ = some b → b.target = .external s → ∃ x r, host.Spells m s x r ∧
      (Denotes (.file m.source.file.declaredNames :: host.scopes m) x (some r) ↔
        x ∉ m.source.file.declaredNames)
  /-- The class that a static member is read off. -/
  static : ∀ home u b x type, m.source.file.UsesAt home u → m.binding? u.key = some b →
    b.target = .static x type → ∃ c, home.type? = some c ∧ c.name = type ∧
      (Denotes (host.chain m home u.layers) type (some .declaration) ↔
        (∀ l ∈ u.layers ++ home.moved, ¬ l.Hides type) ∧
          (home.saves (.ofModule m) = true → type ≠ "_this"))
  /-- The superclass, which is a free name outside of all classes. -/
  super : ∀ home ls p pos, m.source.file.HasOperand home ls p → p.primary = .super pos →
    (∀ c, home.type? = some c → (Denotes (host.chain m home ls) "_super" (some .base) ↔
      (∀ l ∈ ls ++ home.moved, ¬ l.Binds "_super") ∧ c.name ≠ "_super")) ∧
    (home.type? = none → (Denotes (host.chain m home ls) "_super" none ↔
      (∀ l ∈ ls ++ home.moved, ¬ l.Binds "_super") ∧ "_super" ∉ m.source.file.declaredNames))

theorem Host.Admits.introduces {host : Host} {m : Module} {text : String} {table : SymbolTable}
    (hhost : host.Admits m) (hparse : Script.parse text = .ok m.source.file)
    (hrun : Resolve.run m.source table = .ok m) : Introduces host m where
  stands := fun home d hhome => standsIn_file hparse hhome d
  symbol := by
    intro home u b s hu hb ht
    obtain ⟨x, r, hspells⟩ := hhost.exists_spelling (Meaning.Knows.mem_uses ⟨u.key, b, hb, ht⟩)
    exact ⟨x, r, hspells, denotes_spelling_iff hu.has hspells⟩
  base := by
    intro d _ c q b s _ _ hb ht
    obtain ⟨x, r, hspells⟩ := hhost.exists_spelling (Meaning.Knows.mem_uses ⟨_, b, hb, ht⟩)
    exact ⟨x, r, hspells, denotes_file_iff hspells⟩
  static := by
    intro home u b x type hu hb ht
    have hmeans := Resolve.means_of_binding? hparse hrun hu hb
    rw [ht] at hmeans
    cases hmeans with
    | static hc => exact ⟨_, hc, rfl, denotes_type_iff hc⟩
  super := fun home ls p pos _ _ => ⟨fun c hc => denotes_super_iff hc, denotes_super_none_iff⟩

end Emit

/-- The module is the code of an emitted module, or of one of its members. -/
def OutputSet.Holds (out : OutputSet Module) : Emit.Host → Module → Prop
  | .direct id, m => .direct id m ∈ out.modules
  | .merged members, m => ∃ merged, .merged merged ∈ out.modules ∧ merged.members = members ∧
      ∃ member ∈ members, member.tree = m

namespace Pipeline

open Emit (Denotes Host Introduces Piece)

theorem Conversion.mem_trees_of_holds {files : List SourceFile} {result : Result Module}
    (c : Conversion .actionScript files result) {host : Host} {m : Module}
    (h : result.output.Holds host m) : m ∈ c.trees ∧ host.Admits m := by
  cases host with
  | direct id =>
      obtain ⟨hm, _, hother⟩ := c.direct_cases ((OutputSet.get?_eq_some_iff _ _ _).2 ⟨h, rfl⟩)
      exact ⟨hm, hother⟩
  | merged members =>
      obtain ⟨merged, hmerged, rfl, member, hmember, rfl⟩ := h
      obtain ⟨d, _, _, hm⟩ := c.merged_cases ((OutputSet.get?_eq_some_iff _ _ _).2 ⟨hmerged, rfl⟩)
      exact ⟨(c.member_mem_trees hm hmember).1, member, hmember, rfl⟩

/-- In the code of every emitted module the introduced names stand for what they are meant to
exactly where no function, clause or declaration around them has the name. -/
theorem introduced_names_kept (signals : Signals) (options : Options) (files : List SourceFile)
    {result : Result Module} {journal : Journal}
    (hrun : run .actionScript signals options files = (.ok result, journal)) {host : Host}
    {m : Module} (hhost : result.output.Holds host m) : Introduces host m := by
  obtain ⟨c⟩ := nonempty_conversion hrun
  obtain ⟨hm, hadmits⟩ := c.mem_trees_of_holds hhost
  obtain ⟨text, hparse⟩ := c.parse_source hm
  exact hadmits.introduces hparse (c.run_source hm)

/-- The project, with the parameter of the method. -/
def staticFiles (parameter : String) : List SourceFile :=
  [⟨"a.as", "package \x7b class A \x7b static var s; function m(" ++ parameter ++
    ") \x7b return s; \x7d \x7d \x7d"⟩]

def staticOutput (parameter : String) : String :=
  "    var A = (function (_super) \x7b\n" ++
  "        function A() \x7b\n" ++
  "        \x7d\n" ++
  "        A.prototype.m = function (" ++ parameter ++ ") \x7b\n" ++
  "            return A.s;\n" ++
  "        \x7d;\n" ++
  "        A.s = undefined;\n" ++
  "        return A;\n" ++
  "    \x7d)(Object);\n"

def staticPlace? : Script.File → Option (Script.Param × Script.Position)
  | ⟨_, _, _, [⟨_, _, .type ⟨_, "A", none, [], [_,
      ⟨_, [], .method ⟨_, "m", [parameter], _, .returning _ _ _ (.ident name "s")⟩⟩]⟩⟩]⟩ =>
      some (parameter, name)
  | _ => none

theorem useAt_of_staticPlace? {file : Script.File} {parameter : Script.Param}
    {name : Script.Position} (h : staticPlace? file = some (parameter, name)) :
    ∃ c f body returned value, f.params = [parameter] ∧
      f.body = .returning body returned value (.ident name "s") ∧
      file.UsesAt (.method c f) ⟨⟨.ident, name⟩, "s", [.function (.ofFunction f)]⟩ := by
  unfold staticPlace? at h
  split at h
  · cases h
    exact ⟨_, _, _, _, _, rfl, rfl, _, ⟨.method List.mem_cons_self rfl
      (List.mem_cons_of_mem _ List.mem_cons_self) rfl, _, .body, Script.descends_returning⟩, .ident⟩
  · cases h

/-- Whether the project converts as it should, to one module. -/
def staticConverts (parameter : String) : Bool :=
  (run .actionScript .quiet (.sequential .fail) (staticFiles parameter)).1.toOption.any
    fun result =>
    match result.output.modules with
    | [.direct id m] => (staticPlace? m.source.file).any fun place =>
        place.1.name = parameter && m.binding? ⟨.ident, place.2⟩ = some ⟨.static "s" "A", 0⟩ &&
        Piece.renderAll (Emit.Direct.link id m) (Emit.Direct.body m) = staticOutput parameter
    | _ => false

theorem of_staticConverts (parameter : String) (h : staticConverts parameter = true) :
    ∃ result journal id m c f p u body returned value,
      run .actionScript .quiet (.sequential .fail) (staticFiles parameter) = (.ok result, journal) ∧
      result.output.modules = [.direct id m] ∧ m.source.file.UsesAt (.method c f) u ∧
      u.layers = [.function (.ofFunction f)] ∧ m.binding? u.key = some ⟨.static "s" "A", 0⟩ ∧
      f.params = [p] ∧ p.name = parameter ∧
      f.body = .returning body returned value (.ident u.key.pos "s") ∧
      Piece.renderAll (Emit.Direct.link id m) (Emit.Direct.body m) = staticOutput parameter := by
  obtain ⟨result, hrun, h⟩ := Script.exists_ok_of_any h
  split at h
  · next id m hmodules =>
      obtain ⟨⟨p, name⟩, hplace, h⟩ := (Option.any_eq_true _ _).1 h
      simp only [Bool.and_eq_true, decide_eq_true_eq] at h
      obtain ⟨⟨hp, hb⟩, hprinted⟩ := h
      obtain ⟨c, f, body, returned, value, hparams, hbody, hu⟩ := useAt_of_staticPlace? hplace
      exact ⟨result, _, id, m, c, f, p, _, body, returned, value, Prod.ext hrun rfl, hmodules, hu,
        rfl, hb, hparams, hp, hbody, hprinted⟩
  · cases h

/-- With another parameter the static member is read off the class. -/
theorem staticMember_kept : ∃ result journal id m home u,
    run .actionScript .quiet (.sequential .fail) (staticFiles "p") = (.ok result, journal) ∧
      .direct id m ∈ result.output.modules ∧ m.source.file.UsesAt home u ∧
      m.binding? u.key = some ⟨.static "s" "A", 0⟩ ∧
      Denotes ((Host.direct id).chain m home u.layers) "A" (some .declaration) := by
  obtain ⟨result, journal, id, m, c, f, p, u, body, returned, value, hrun, hmodules, hu,
    hlayers, hb, hparams, hp, hbody, _⟩ := of_staticConverts "p" (by decide +kernel)
  have hmem : .direct id m ∈ result.output.modules := hmodules ▸ List.mem_cons_self
  refine ⟨result, journal, id, m, _, u, hrun, hmem, hu, hb, ?_⟩
  have hholds : result.output.Holds (.direct id) m := hmem
  have hnames := introduced_names_kept _ _ _ hrun hholds
  obtain ⟨_, _, _, hiff⟩ := hnames.static _ u _ "s" "A" hu hb rfl
  refine hiff.2 ⟨fun l hl => ?_, fun _ => by decide⟩
  rw [hlayers] at hl
  cases List.mem_singleton.1 hl
  refine Script.Layer.not_hides_function (by decide) (fun q hq => ?_) fun d hwithin => ?_
  · cases List.mem_singleton.1 (hparams ▸ hq : q ∈ [p])
    rw [hp]
    decide
  · rw [Script.Enclosing.ofFunction, hbody] at hwithin
    exact absurd hwithin Script.not_within_returning_ident

/-- A parameter that has the name of the class takes its place. -/
theorem parameter_captures_class : ∃ result journal id m c f u,
    run .actionScript .quiet (.sequential .fail) (staticFiles "A") = (.ok result, journal) ∧
      .direct id m ∈ result.output.modules ∧ m.source.file.UsesAt (.method c f) u ∧
      m.binding? u.key = some ⟨.static "s" "A", 0⟩ ∧
      .function (.ofFunction f) ∈ u.layers ∧ (∃ p ∈ f.params, p.name = "A") ∧
      Denotes ((Host.direct id).chain m (.method c f) u.layers) "A" (some .local) ∧
      Piece.renderAll (Emit.Direct.link id m) (Emit.Direct.body m) = staticOutput "A" := by
  obtain ⟨result, journal, id, m, c, f, p, u, _, _, _, hrun, hmodules, hu, hlayers, hb, hparams, hp,
    _, hprinted⟩ := of_staticConverts "A" (by decide +kernel)
  have hparameter : ∃ p ∈ f.params, p.name = "A" := ⟨p, hparams ▸ List.mem_singleton_self _, hp⟩
  refine ⟨result, journal, id, m, c, f, u, hrun, hmodules ▸ List.mem_cons_self, hu, hb,
    hlayers ▸ List.mem_cons_self, hparameter, ?_, hprinted⟩
  rw [hlayers]
  exact .found (.declared (.layer (Or.inl hparameter)))

end Pipeline
end ScriptWeave
