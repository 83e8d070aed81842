import ScriptWeave.Proofs.Emit.Hosts
import ScriptWeave.Proofs.Emit.Symbols
import ScriptWeave.Proofs.Resolve.Uses

/-!
The values of fields. The value of a field of the receiver is resolved in the scope of the class,
and computed in the constructor function. Nothing keeps the parameters and variables of the
constructor from having the names that the value uses, so these decide whether a name keeps its
meaning.
-/

namespace ScriptWeave
namespace Emit

open Script (Home Layer parse)

theorem not_made_of_builtin {x : String} (hx : x ∈ Resolve.builtins) : ¬ ['_'] <+: x.toList := by
  have hall : ∀ x ∈ Resolve.builtins, ¬ ['_'] <+: x.toList := by decide
  exact hall x hx

/-- Of the layers around a name of the value only the constructor can hide what the name means,
unless a function in the value declares it. -/
theorem forall_not_hides_moved_iff {file : Script.File} {c : Script.Class} {v : Script.VarDecl}
    {ls : List Layer} {p : Script.Postfix} {x : String}
    (h : file.HasOperand (.field c false v) ls p)
    (hlocal : ∀ f ∈ ls.filterMap Layer.function?, ¬ f.Declares x) :
    (∀ l ∈ ls ++ (Home.field c false v).moved, ¬ l.Hides x) ↔
      ¬ (Layer.function c.constructorCode).Hides x := by
  constructor
  · exact fun hall => hall _ (List.mem_append_right _ (List.mem_singleton_self _))
  · intro hconstructor l hl hhides
    cases List.mem_append.1 hl with
    | inl hl =>
        obtain hbinds | ⟨hx, _⟩ := hhides
        · obtain ⟨f, hf, hdeclares⟩ := h.declares_of_binds hl hbinds
          exact hlocal f hf hdeclares
        · exact hconstructor (Or.inr ⟨hx, rfl⟩)
    | inr hl =>
        cases List.mem_singleton.1 hl
        exact hconstructor hhides

theorem ne_arguments_of_not_hides {c : Script.Class} {v : Script.VarDecl} {ls : List Layer}
    {x : String} (h : ∀ l ∈ ls ++ (Home.field c false v).moved, ¬ l.Hides x) : x ≠ "arguments" :=
  fun hx => h _ (List.mem_append_right _ (List.mem_singleton_self _)) (Or.inr ⟨hx, rfl⟩)

variable {text : String} {source : Source} {table : SymbolTable} {m : Resolve.Module} {host : Host}

/-- The value of a field of the receiver is printed in the constructor function. There a declaration
of the file and a global keep their meaning exactly if the constructor neither declares the name nor
has it anyway, and a symbol of another module if nothing around it has the name that its spelling
starts with. -/
theorem moved_initialiser_denotes (hparse : parse text = .ok source.file)
    (hrun : Resolve.run source table = .ok m) (hhost : host.Admits m) {c : Script.Class}
    {v : Script.VarDecl} {u : Script.Use} (hu : source.file.UsesAt (.field c false v) u)
    {b : Resolve.Binding} (hb : m.binding? u.key = some b) :
    (∀ d, InFunction (.ofModule m) d c c.constructorCode
      ((Meaning.ofModule m).savesInConstructor c)
      (fieldAssignment (.ofModule m) (d + 2) "this" v)) ∧
    (∀ x, b.target = .here x → (∀ f ∈ u.functions, ¬ f.Declares x) →
      (Denotes (host.chain m (.field c false v) u.layers) x (some .declaration) ↔
        ¬ (Layer.function c.constructorCode).Hides x ∧
          ((Meaning.ofModule m).savesInConstructor c = true → x ≠ "_this") ∧
          (x = "_super" → c.name = "_super"))) ∧
    (∀ x, b.target = .builtin x →
      (Denotes (host.chain m (.field c false v) u.layers) x none ↔
        ¬ (Layer.function c.constructorCode).Hides x)) ∧
    ∀ s, b.target = .external s → ∃ x r, host.Spells m s x r ∧
      (Denotes (host.chain m (.field c false v) u.layers) x (some r) ↔
        (∀ l ∈ u.layers ++ [.function c.constructorCode], ¬ l.Binds x) ∧
          x ∉ source.file.declaredNames) := by
  obtain ⟨p, hoperand, _⟩ := id hu
  have hmeans := Resolve.means_of_binding? hparse hrun hu hb
  obtain ⟨rfl, _⟩ := Resolve.run_ok hrun
  refine ⟨fun d => ?_, fun x ht hlocal => ?_, fun x ht => ?_, fun s ht => ?_⟩
  · exact (standsIn_file hparse hu.has d).2
  · have hx : x ∈ m.source.file.declaredNames := by
      rw [ht] at hmeans
      cases hmeans with
      | «local» h =>
          obtain ⟨f, hf, hdeclares⟩ := h
          exact absurd hdeclares (hlocal f hf)
      | declared _ hfile => exact hfile
    rw [← forall_not_hides_moved_iff hoperand hlocal]
    exact denotes_declaration_iff rfl hx ne_arguments_of_not_hides
  · rw [ht] at hmeans
    cases hmeans with
    | builtin hlocal hfile hbuiltin =>
        rw [← forall_not_hides_moved_iff hoperand hlocal]
        exact denotes_global_iff hu.has hfile (not_made_of_builtin hbuiltin)
          ne_arguments_of_not_hides
  · have hs : s ∈ m.uses := Meaning.Knows.mem_uses ⟨u.key, b, hb, ht⟩
    obtain ⟨x, r, hspells⟩ := hhost.exists_spelling hs
    exact ⟨x, r, hspells, denotes_spelling_iff hu.has hspells⟩

/-- The file, with the parameter of the constructor. -/
def fieldText (parameter : String) : String :=
  "package \x7b var g = 1; class A \x7b var x = g; function A(" ++ parameter ++
    ") \x7b \x7d \x7d \x7d"

def fieldOutput (parameter : String) : String :=
  "    var g = 1;\n" ++
  "    var A = (function (_super) \x7b\n" ++
  "        function A(" ++ parameter ++ ") \x7b\n" ++
  "            this.x = g;\n" ++
  "        \x7d\n" ++
  "        return A;\n" ++
  "    \x7d)(Object);\n"

def fieldPlace? : Script.File → Option (Script.Param × Script.Position)
  | ⟨_, _, _, [⟨_, _, .var ⟨_, _, "g", _, _⟩⟩, ⟨_, _, .type ⟨_, "A", none, [],
      [⟨_, [], .field ⟨_, _, "x", none, some (.ofPrimary _ (.ident name "g"))⟩⟩,
        ⟨_, [], .method ⟨_, "A", [parameter], _, ⟨_, []⟩⟩⟩]⟩⟩]⟩ => some (parameter, name)
  | _ => none

theorem useAt_of_fieldPlace? {file : Script.File} {parameter : Script.Param}
    {name : Script.Position}
    (h : fieldPlace? file = some (parameter, name)) : ∃ c v f, c.name = "A" ∧
      file.UsesAt (.field c false v) ⟨⟨.ident, name⟩, "g", []⟩ ∧ c.constructor? = some f ∧
      f.params = [parameter] ∧ f.body.stmts = [] := by
  unfold fieldPlace? at h
  split at h
  · cases h
    exact ⟨_, _, _, rfl, ⟨_, ⟨.field (List.mem_cons_of_mem _ List.mem_cons_self) rfl
      List.mem_cons_self rfl rfl, _, rfl, Script.descends_value rfl⟩, .ident⟩, rfl, rfl, rfl⟩
  · cases h

/-- Whether the file resolves as it should, with no symbols of other modules. -/
def fieldResolves (parameter : String) : Bool :=
  (parse (fieldText parameter)).toOption.any fun file =>
    (fieldPlace? file).any fun place => place.1.name = parameter &&
      (Resolve.run ⟨"A.as", file⟩ .empty).toOption.any fun m =>
        m.binding? ⟨.ident, place.2⟩ = some ⟨.here "g", 0⟩ && m.uses.isEmpty &&
        Piece.renderAll (Direct.link (.ofSource "A.as") m) (Direct.body m) = fieldOutput parameter

theorem of_fieldResolves (parameter : String) (h : fieldResolves parameter = true) :
    ∃ source m c v u f p, parse (fieldText parameter) = .ok source.file ∧
      Resolve.run source .empty = .ok m ∧ (Host.direct source.id).Admits m ∧
      source.file.UsesAt (.field c false v) u ∧ u.layers = [] ∧
      m.binding? u.key = some ⟨.here "g", 0⟩ ∧ c.name = "A" ∧ c.constructor? = some f ∧
      f.params = [p] ∧ p.name = parameter ∧ f.body.stmts = [] ∧
      Piece.renderAll (Direct.link source.id m) (Direct.body m) = fieldOutput parameter := by
  obtain ⟨file, hparse, h⟩ := Script.exists_ok_of_any h
  obtain ⟨⟨p, name⟩, hplace, h⟩ := (Option.any_eq_true _ _).1 h
  obtain ⟨hp, h⟩ := Bool.and_eq_true_iff.1 h
  obtain ⟨m, hrun, h⟩ := Script.exists_ok_of_any h
  simp only [Bool.and_eq_true, decide_eq_true_eq, List.isEmpty_iff] at h
  obtain ⟨⟨hb, huses⟩, hprinted⟩ := h
  obtain ⟨c, v, f, hname, hu, hf, hparams, hbody⟩ := useAt_of_fieldPlace? hplace
  refine ⟨⟨"A.as", file⟩, m, c, v, _, f, p, hparse, hrun, ?_, hu, rfl, hb, hname, hf, hparams,
    of_decide_eq_true hp, hbody, hprinted⟩
  intro s hs
  rw [huses] at hs
  cases hs

/-- With another parameter the value is the variable of the file. -/
theorem distinctParameter_denotes : ∃ source m c v u, parse (fieldText "h") = .ok source.file ∧
    Resolve.run source .empty = .ok m ∧ (Host.direct source.id).Admits m ∧
      source.file.UsesAt (.field c false v) u ∧ m.binding? u.key = some ⟨.here "g", 0⟩ ∧
      Denotes ((Host.direct source.id).chain m (.field c false v) u.layers) "g"
        (some .declaration) := by
  obtain ⟨source, m, c, v, u, f, p, hparse, hrun, hhost, hu, hlayers, hb, hname, hf, hparams, hp,
    hbody, _⟩ := of_fieldResolves "h" (by decide +kernel)
  refine ⟨source, m, c, v, u, hparse, hrun, hhost, hu, hb, ?_⟩
  obtain ⟨_, hdeclared, _⟩ := moved_initialiser_denotes hparse hrun hhost hu hb
  refine (hdeclared "g" rfl ?_).2 ⟨?_, fun _ => by decide, fun h => absurd h (by decide)⟩
  · intro f hf
    rw [Script.Use.functions, hlayers] at hf
    cases hf
  · rw [Script.Class.constructorCode, hf]
    refine Layer.not_hides_function (by decide) (fun q hq => ?_) fun d hwithin => ?_
    · cases List.mem_singleton.1 (hparams ▸ hq : q ∈ [p])
      rw [hp]
      decide
    · have hnodes := Script.Fragment.mem_nodes_of_within hwithin
      simp [Script.Fragment.nodes_eq, Script.Fragment.parts, Script.Enclosing.ofFunction, hbody]
        at hnodes

/-- A parameter of the constructor takes the place of the variable of the file. -/
theorem parameter_captures_initialiser : ∃ source m c v u f,
    parse (fieldText "g") = .ok source.file ∧ Resolve.run source .empty = .ok m ∧
      (Host.direct source.id).Admits m ∧ source.file.UsesAt (.field c false v) u ∧
      (∀ f ∈ u.functions, ¬ f.Declares "g") ∧ m.binding? u.key = some ⟨.here "g", 0⟩ ∧
      c.constructor? = some f ∧ (∃ p ∈ f.params, p.name = "g") ∧
      Denotes ((Host.direct source.id).chain m (.field c false v) u.layers) "g" (some .local) ∧
      Piece.renderAll (Direct.link source.id m) (Direct.body m) = fieldOutput "g" := by
  obtain ⟨source, m, c, v, u, f, p, hparse, hrun, hhost, hu, hlayers, hb, _, hf, hparams, hp, _,
    hprinted⟩ := of_fieldResolves "g" (by decide +kernel)
  have hparameter : ∃ p ∈ f.params, p.name = "g" := ⟨p, hparams ▸ List.mem_singleton_self _, hp⟩
  refine ⟨source, m, c, v, u, f, hparse, hrun, hhost, hu, ?_, hb, hf, hparameter, ?_, hprinted⟩
  · intro f hf
    rw [Script.Use.functions, hlayers] at hf
    cases hf
  · have hbinds : (Layer.function c.constructorCode).Binds "g" := by
      rw [Script.Class.constructorCode, hf]
      exact Or.inl hparameter
    rw [hlayers]
    exact .found (.declared (.layer hbinds))

end Emit
end ScriptWeave
