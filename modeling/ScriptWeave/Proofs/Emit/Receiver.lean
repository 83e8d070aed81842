import ScriptWeave.Proofs.Emit.Scopes
import ScriptWeave.Proofs.Resolve.Uses

/-!
The saved receiver. Members of the receiver are reached through the variable that saves it exactly
from inside of function literals; and the method, or the constructor for the value of a field, saves
the receiver there. The value of a static field is computed outside of all such functions, so a
literal in it finds no saved receiver.
-/

namespace ScriptWeave
namespace Emit

open Script (Home parse)
open Resolve (Means Target)

theorem target_eq_saved_iff {t : Target} {x : String} : target t = dotted ["_this", x] ↔
    (∃ type, t = .instance x type true) ∨ t = .static x "_this" := by
  cases t with
  | here name | builtin name | external s => simp [target, dotted]
  | «instance» name type captured => cases captured <;> simp [target, dotted]
  | static name type => simp [target, dotted, and_comm]

/-- The code of the home stands in a printed function that starts by saving the receiver. -/
inductive ReceiverSaved (m : Meaning) (d : Nat) : Home → Prop where
  | method {c : Script.Class} {f : Script.Function}
      (h : InFunction m d c (.ofFunction f) true (methodCode m (d + 1) f)) :
      ReceiverSaved m d (.method c f)
  | field {c : Script.Class} {v : Script.VarDecl}
      (h : InFunction m d c c.constructorCode true (fieldAssignment m (d + 2) "this" v)) :
      ReceiverSaved m d (.field c false v)

variable {text : String} {source : Source} {table : SymbolTable} {m : Resolve.Module}

theorem receiverSaved_of_saves {meaning : Meaning} (hparse : parse text = .ok source.file)
    {home : Home} (hhome : source.file.Has home) (hsaves : home.saves meaning = true) (d : Nat) :
    ReceiverSaved meaning d home := by
  have hstands : home.StandsIn meaning d (file meaning d source.file) :=
    standsIn_file hparse hhome d
  cases home with
  | global | function => cases hsaves
  | method c f => exact .method (hsaves ▸ hstands.2)
  | field c isStatic v =>
      cases isStatic with
      | true => cases hsaves
      | false => exact .field (hsaves ▸ hstands.2)

/-- A part of a class that hands its receiver to nested functions saves it, unless it is the value
of a static field. -/
theorem saves_of_captures {home : Home} {c : Script.Class} (hc : home.type? = some c)
    (hcaptures : ∀ around, home.around = some around → around.owner ∈ m.captures) :
    home.saves (.ofModule m) = true ∨ ∃ c v, home = .field c true v := by
  have hmarked {owner : Script.Owner} (h : owner ∈ m.captures) :
      (Meaning.ofModule m).captures owner = true := List.contains_iff_mem.2 h
  cases home with
  | global | function => cases hc
  | method c f =>
      have hmethod := hmarked (hcaptures _ rfl)
      refine Or.inl ?_
      rw [Home.saves, Meaning.savesInMethod, Meaning.savesInConstructor]
      split
      · next hpos =>
          obtain ⟨g, hg, hpos⟩ := Option.map_eq_some_iff.1 hpos
          rw [hg, Option.any_some, hpos]
          exact Bool.or_eq_true_iff.2 (Or.inl hmethod)
      · exact hmethod
  | field c isStatic v =>
      cases isStatic with
      | true => exact Or.inr ⟨c, v, rfl⟩
      | false => exact Or.inl (Bool.or_eq_true_iff.2 (Or.inr (hmarked (hcaptures _ rfl))))

/-- A reference is printed through the saved receiver exactly when it is a member of the receiver
that is used inside of a function literal, or else a static member of a class named `_this`; and the
function that it stands in saves the receiver, unless it stands in the value of a static field. -/
theorem saved_receiver_declared (hparse : parse text = .ok source.file)
    (hrun : Resolve.run source table = .ok m) {key : Script.ReferenceKey} {b : Resolve.Binding}
    (hb : m.binding? key = some b) :
    (key.kind = .base → ∀ x, target b.target ≠ dotted ["_this", x]) ∧
    (key.kind ≠ .base → ∃ home u, source.file.UsesAt home u ∧ u.key = key) ∧
    ∀ home u, source.file.UsesAt home u → u.key = key →
      (∀ x, target b.target = dotted ["_this", x] ↔
        (∃ type captured, b.target = .instance x type captured) ∧
            (∃ f ∈ u.functions, f.literal = true) ∨
          b.target = .static x "_this") ∧
      ∀ x type, b.target = .instance x type true → ∀ d,
        ReceiverSaved (.ofModule m) d home ∨ ∃ c v, home = .field c true v := by
  refine ⟨?_, ?_, ?_⟩
  · intro hkind x hx
    obtain ⟨r, hr, rfl⟩ := Resolve.exists_reference_of_binding? hrun hb
    obtain ⟨d, hd, c, q, hc, hq, hkey⟩ := Script.File.exists_base hr hkind
    obtain h | h | ⟨s, h⟩ := Resolve.base_of_binding? hparse hrun hd hc hq (hkey ▸ hb) <;>
      simp [h, target, dotted] at hx
  · intro hkind
    obtain ⟨r, hr, rfl⟩ := Resolve.exists_reference_of_binding? hrun hb
    exact Script.File.exists_useAt hr hkind
  · rintro home u hu rfl
    have hmeans := Resolve.means_of_binding? hparse hrun hu hb
    refine ⟨fun x => ?_, fun x type ht d => ?_⟩
    · rw [target_eq_saved_iff]
      refine or_congr_left ?_
      generalize b.target = t at hmeans
      cases hmeans with
      | @receiver _ _ captured _ hcaptured => cases captured <;> simp_all
      | «local» | static | declared | builtin | external => simp
    · have hc : ∃ c, home.type? = some c := by
        rw [ht] at hmeans
        cases hmeans with
        | receiver hc _ => exact ⟨_, hc⟩
      obtain ⟨c, hc⟩ := hc
      refine (saves_of_captures hc fun around haround => ?_).imp_left fun hsaves =>
        receiverSaved_of_saves hparse hu.has hsaves d
      exact Resolve.captures_of_binding? hparse hrun hu hb ht haround

def savedText : String :=
  "package \x7b class A \x7b var x; " ++
  "function m() \x7b return function() \x7b return x; \x7d; \x7d \x7d \x7d"

theorem returnedMember_saved : ∃ source m, parse savedText = .ok source.file ∧
    Resolve.run source .empty = .ok m ∧
      m.binding? ⟨.ident, ⟨1, 70⟩⟩ = some ⟨.instance "x" "A" true, 0⟩ ∧
      ∃ home u, source.file.UsesAt home u ∧ u.key = ⟨.ident, ⟨1, 70⟩⟩ ∧
        (∃ f ∈ u.functions, f.literal = true) ∧
        ∀ d, ReceiverSaved (.ofModule m) d home ∨ ∃ c v, home = .field c true v := by
  have hall : ((parse savedText).toOption.any fun file =>
      (Resolve.run ⟨"A.as", file⟩ .empty).toOption.any fun m =>
        m.binding? ⟨.ident, ⟨1, 70⟩⟩ = some ⟨.instance "x" "A" true, 0⟩) = true := by
    decide +kernel
  obtain ⟨file, hparse, hall⟩ := Script.exists_ok_of_any hall
  obtain ⟨m, hrun, hb⟩ := Script.exists_ok_of_any hall
  replace hb := of_decide_eq_true hb
  have hsource : parse savedText = .ok (⟨"A.as", file⟩ : Source).file := hparse
  obtain ⟨_, hexists, hprinted⟩ := saved_receiver_declared hsource hrun hb
  obtain ⟨home, u, hu, hkey⟩ := hexists (by decide)
  obtain ⟨hiff, hsaved⟩ := hprinted home u hu hkey
  refine ⟨⟨"A.as", file⟩, m, hparse, hrun, hb, home, u, hu, hkey, ?_, hsaved "x" "A" rfl⟩
  obtain ⟨_, hliteral⟩ | hstatic := (hiff "x").1 rfl
  · exact hliteral
  · cases hstatic

/-- The value of a static field is a literal that returns a member. -/
def unsavedText : String :=
  "package \x7b class A \x7b var x; static var f = function() \x7b return x; \x7d; \x7d \x7d"

/-- What is printed for it: the receiver is saved in the constructor, where nothing needs it. -/
def unsavedOutput : String :=
  "    var A = (function (_super) \x7b\n" ++
  "        function A() \x7b\n" ++
  "            var _this = this;\n" ++
  "            this.x = undefined;\n" ++
  "        \x7d\n" ++
  "        A.f = function () \x7b\n" ++
  "            return _this.x;\n" ++
  "        \x7d;\n" ++
  "        return A;\n" ++
  "    \x7d)(Object);\n"

def unsavedPlace? : Script.File → Option Script.Position
  | ⟨_, _, _, [⟨_, _, .type ⟨_, "A", none, [], [_, ⟨_, ["static"], .field ⟨_, _, "f", none,
      some (.ofPrimary _ (.function _ [] none (.returning _ _ _ (.ident name "x"))))⟩⟩]⟩⟩]⟩ =>
      some name
  | _ => none

theorem useAt_of_unsavedPlace? {file : Script.File} {name : Script.Position}
    (h : unsavedPlace? file = some name) : ∃ c v f,
      file.UsesAt (.field c true v) ⟨⟨.ident, name⟩, "x", [.function f]⟩ := by
  unfold unsavedPlace? at h
  split at h
  · cases h
    exact ⟨_, _, _, _, ⟨.field List.mem_cons_self rfl
      (List.mem_cons_of_mem _ List.mem_cons_self) rfl rfl, _, rfl, (Script.descends_value rfl).trans
        (.literal rfl .body Script.descends_returning)⟩, .ident⟩
  · cases h

/-- A literal in the value of a static field reaches for a receiver that nothing around it saves. -/
theorem staticField_unsaved : ∃ source m u b c v, parse unsavedText = .ok source.file ∧
    Resolve.run source .empty = .ok m ∧ source.file.UsesAt (.field c true v) u ∧
      m.binding? u.key = some b ∧ target b.target = dotted ["_this", "x"] ∧
      (∀ d, ¬ ReceiverSaved (.ofModule m) d (.field c true v)) ∧
      Piece.renderAll (Direct.link source.id m) (Direct.body m) = unsavedOutput := by
  have hall : ((parse unsavedText).toOption.any fun file =>
      (unsavedPlace? file).any fun name => (Resolve.run ⟨"A.as", file⟩ .empty).toOption.any fun m =>
        m.binding? ⟨.ident, name⟩ = some ⟨.instance "x" "A" true, 0⟩ &&
        Piece.renderAll (Direct.link (.ofSource "A.as") m) (Direct.body m) = unsavedOutput) =
      true := by
    decide +kernel
  obtain ⟨file, hparse, hall⟩ := Script.exists_ok_of_any hall
  obtain ⟨name, hplace, hall⟩ := (Option.any_eq_true _ _).1 hall
  obtain ⟨m, hrun, hall⟩ := Script.exists_ok_of_any hall
  simp only [Bool.and_eq_true, decide_eq_true_eq] at hall
  obtain ⟨hb, hprinted⟩ := hall
  obtain ⟨c, v, f, hu⟩ := useAt_of_unsavedPlace? hplace
  refine ⟨⟨"A.as", file⟩, m, _, _, c, v, hparse, hrun, hu, hb, rfl, fun d h => ?_, hprinted⟩
  cases h

end Emit
end ScriptWeave
