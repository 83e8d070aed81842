import ScriptWeave.Emit.Module
import ScriptWeave.Emit.Printer
import ScriptWeave.Proofs.Script.Homes
import ScriptWeave.Proofs.Script.Places

/-!
The functions of a printed class. Every method becomes a function of its own, the fields of an
instance are assigned in the constructor function before anything else, and a function starts by
saving the receiver when nested functions need it.

Names in emitted text. A name stands for what the innermost scope around it that binds the name
says. Besides the scopes that come from the source there are those that printing adds: the
constructor function around the values of the fields, the variable that saves the receiver, and the
function around a class. Nothing is renamed, so any of them can hide a name that was resolved
further out.
-/

namespace ScriptWeave

namespace Script

/-- The constructor as a function around code; a class without one has an empty one. -/
def Class.constructorCode (c : Class) : Enclosing :=
  match c.constructor? with
  | some f => .ofFunction f
  | none => ⟨[], ⟨c.pos, []⟩, false⟩

theorem Class.constructor?_mem_methods {c : Class} {f : Function} (h : c.constructor? = some f) :
    f ∈ c.methods := by
  obtain ⟨m, hm, hf⟩ := List.exists_of_findSome?_eq_some h
  split at hf
  · next g hbody =>
      split at hf
      · cases hf
        exact mem_methods.2 ⟨m, hm, hbody⟩
      · cases hf
  · cases hf

end Script

namespace Emit

open Script
open Piece (space line)

variable {m : Meaning} {d : Nat} {c : Script.Class} {f : Function}

/-- A function starts by saving the receiver if it has to, and then comes its code. -/
def functionText (d : Nat) (header : List Piece) (params : List Param) (saved : Bool)
    (code ending : List Piece) : List Piece :=
  line d (header ++ paramList params ++ [space, .word "\x7b"]) ++ saveReceiver (d + 1) saved
    ++ code ++ line d (.word "\x7d" :: ending)

/-- Whether the constructor function saves the receiver, for its own code or for the fields. -/
def Meaning.savesInConstructor (m : Meaning) (c : Script.Class) : Bool :=
  c.constructor?.any (fun f => m.captures (.method f.pos)) || m.captures (.fields c.pos)

def Meaning.savesInMethod (m : Meaning) (c : Script.Class) (f : Function) : Bool :=
  if c.constructor?.map (·.pos) = some f.pos then m.savesInConstructor c
  else m.captures (.method f.pos)

/-- The text stands in a function of the printed class, together with the body of the function. -/
def InFunction (m : Meaning) (d : Nat) (c : Script.Class) (f : Enclosing) (saved : Bool)
    (text : List Piece) : Prop :=
  ∃ header code ending, functionText (d + 1) header f.params saved code ending <:+: type m d c ∧
    block m (d + 1) f.body <:+: code ∧ text <:+: code

def methodCode (m : Meaning) (d : Nat) (f : Function) : List Piece :=
  defaults m (d + 1) f.params ++ block m d f.body

/-- The assignment that gives a field of the owner its first value. -/
def fieldAssignment (m : Meaning) (d : Nat) (owner : String) (v : VarDecl) : List Piece :=
  line d (dotted [owner, v.name] ++ [space, .word "=", space] ++ initialiser m d v ++ [.word ";"])

theorem constructor_infix_type : constructor m (d + 1) c <:+: type m d c := by
  rw [type]
  simp only [List.append_assoc]
  exact ⟨_, _, List.append_assoc _ _ _⟩

theorem staticFields_infix_type : staticFields m (d + 1) c <:+: type m d c := by
  rw [type]
  simp only [List.append_assoc]
  exact ⟨_ ++ (_ ++ (_ ++ _)), _, by simp only [List.append_assoc]; rfl⟩

theorem methods_infix_type : methods m (d + 1) c <:+: type m d c := by
  rw [type]
  simp only [List.append_assoc]
  exact ⟨_ ++ (_ ++ _), _, by simp only [List.append_assoc]; rfl⟩

theorem infix_flatMap {α β : Type} {g : α → List β} {as : List α} {a : α} (h : a ∈ as)
    {bs : List β} (hg : g a = bs) : bs <:+: as.flatMap g := by
  obtain ⟨before, after, rfl⟩ := List.append_of_mem h
  exact ⟨before.flatMap g, after.flatMap g, by simp [hg]⟩

/-- The constructor function assigns the fields, and then has the code of the declared constructor;
without one it passes its arguments on. -/
theorem constructor_eq : ∃ rest, constructor m d c =
    functionText d [.word "function", space, .word c.name] c.constructorCode.params
      (m.savesInConstructor c) (instanceFields m (d + 1) c
        ++ defaults m (d + 1) c.constructorCode.params ++ block m d c.constructorCode.body ++ rest)
      [] := by
  rw [constructor, Meaning.savesInConstructor, Class.constructorCode]
  cases c.constructor? with
  | some f => exact ⟨[], by simp [function, functionText, Enclosing.ofFunction]⟩
  | none => exact ⟨_, by simp [functionText, paramList, Piece.commas, defaults, block, stmts]; rfl⟩

theorem inFunction_fieldAssignment {member : Member} (hmember : member ∈ c.members)
    (hstatic : member.isStatic = false) {v : VarDecl} (hv : member.body = .field v) :
    InFunction m d c c.constructorCode (m.savesInConstructor c)
      (fieldAssignment m (d + 2) "this" v) := by
  obtain ⟨rest, heq⟩ := constructor_eq (m := m) (d := d + 1) (c := c)
  refine ⟨_, _, _, heq ▸ constructor_infix_type, ⟨_, rest, rfl⟩, ?_⟩
  have hfield : fieldAssignment m (d + 2) "this" v <:+: instanceFields m (d + 2) c :=
    infix_flatMap hmember (by simp [hv, hstatic, fieldAssignment])
  exact hfield.trans ⟨[], _, by simp only [List.append_assoc, List.nil_append]; rfl⟩

theorem inFunction_methodCode_of_ne (hf : f ∈ c.methods)
    (hne : c.constructor?.map (·.pos) ≠ some f.pos) :
    InFunction m d c (.ofFunction f) (m.captures (.method f.pos)) (methodCode m (d + 1) f) := by
  obtain ⟨member, hmember, hbody⟩ := Class.mem_methods.1 hf
  let path := if member.isStatic then [c.name, f.name] else [c.name, "prototype", f.name]
  refine ⟨dotted path ++ [space, .word "=", space, .word "function", space],
    methodCode m (d + 1) f, [.word ";"], ?_, (List.suffix_append _ _).isInfix, List.infix_rfl⟩
  refine List.IsInfix.trans (infix_flatMap hmember ?_) methods_infix_type
  simp [hbody, hne, function, functionText, methodCode, Enclosing.ofFunction, path]

/-- The code of every method of a parsed class stands in a function with its parameters and body. -/
theorem inFunction_methodCode {text : String} {file : File} (hparse : parse text = .ok file)
    {x : Decl} (hx : x ∈ file.decls) (hc : x.body = .type c) (hf : f ∈ c.methods) :
    InFunction m d c (.ofFunction f) (m.savesInMethod c f) (methodCode m (d + 1) f) := by
  rw [Meaning.savesInMethod]
  split
  · next hpos =>
      obtain ⟨g, hg, hpos⟩ := Option.map_eq_some_iff.1 hpos
      cases Class.method_eq_of_pos_eq hparse hx hc (Class.constructor?_mem_methods hg) hf hpos
      obtain ⟨rest, heq⟩ := constructor_eq (m := m) (d := d + 1) (c := c)
      rw [Class.constructorCode, hg] at heq
      refine ⟨_, _, _, heq ▸ constructor_infix_type, ⟨_, rest, rfl⟩, ?_⟩
      exact ⟨_, rest, by simp only [methodCode, List.append_assoc]; rfl⟩
  · next hne => exact inFunction_methodCode_of_ne hf hne

end Emit

namespace Script.Layer

/-- The scope hides outer meanings of the name. Every function has its own `arguments`. -/
def Hides (l : Layer) (x : String) : Prop :=
  l.Binds x ∨ x = "arguments" ∧ l.function?.isSome = true

theorem hides_iff_binds {l : Layer} {x : String} (hx : x ≠ "arguments") : l.Hides x ↔ l.Binds x :=
  or_iff_left fun h => hx h.1

theorem not_hides_function {f : Script.Enclosing} {x : String} (hx : x ≠ "arguments")
    (hparams : ∀ p ∈ f.params, p.name ≠ x)
    (hvars : ∀ d, Script.Fragment.Within (.block f.body) (.varDecl d) → d.name ≠ x) :
    ¬ (function f).Hides x := by
  rw [hides_iff_binds hx]
  rintro (⟨p, hp, hname⟩ | ⟨d, hd, hname⟩)
  · exact hparams p hp hname
  · exact hvars d hd hname

end Script.Layer

namespace Emit

open Script (Class Function Home Layer)

/-- What a name of emitted text stands for: a name of a function or catch clause of the source, the
receiver that a function saves, a declaration of the file, the superclass that the function around a
class receives, a module that the factory receives, or the table of the members of a merged
module. -/
inductive Referent where
  | local
  | receiver
  | declaration
  | base
  | dependency
  | table
deriving DecidableEq

/-- What opens a scope in emitted text, or adds a variable to the one around. The function around a
class has the class itself, and a parameter for the superclass. -/
inductive Scope where
  | layer (l : Layer)
  | receiver
  | wrapper (type : String)
  | file (names : List String)
  | table
  | factory (dependencies : Nat)

namespace Scope

/-- The names that a scope declares. A class replaces the parameter of its name. -/
inductive Declares : Scope → String → Referent → Prop where
  | layer {l : Layer} {x : String} (h : l.Binds x) : Declares (layer l) x .local
  | receiver : Declares receiver "_this" .receiver
  | type {t : String} : Declares (wrapper t) t .declaration
  | base {t : String} (h : t ≠ "_super") : Declares (wrapper t) "_super" .base
  | declaration {names : List String} {x : String} (h : x ∈ names) :
      Declares (file names) x .declaration
  | table : Declares table "__merged" .table
  | dependency {n i : Nat} (h : i < n) : Declares (factory n) (parameter i) .dependency

def isFunction : Scope → Bool
  | layer l => l.function?.isSome
  | wrapper _ | file _ | factory _ => true
  | receiver | table => false

/-- What a scope binds: the names that it declares, and `arguments` in a function. -/
inductive Binds : Scope → String → Referent → Prop where
  | declared {s : Scope} {x : String} {r : Referent} (h : s.Declares x r) : Binds s x r
  | arguments {s : Scope} (hs : s.isFunction = true) (h : ∀ r, ¬ s.Declares "arguments" r) :
      Binds s "arguments" .local

theorem binds_iff_declares {s : Scope} {x : String} {r : Referent} (hx : x ≠ "arguments") :
    s.Binds x r ↔ s.Declares x r := by
  constructor
  · intro h
    cases h with
    | declared h => exact h
    | arguments => exact absurd rfl hx
  · exact .declared

theorem binds_layer_iff {l : Layer} {x : String} {r : Referent} :
    (layer l).Binds x r ↔ l.Hides x ∧ r = .local := by
  constructor
  · intro h
    cases h with
    | declared h =>
        cases h with
        | layer h => exact ⟨Or.inl h, rfl⟩
    | arguments hs _ => exact ⟨Or.inr ⟨rfl, hs⟩, rfl⟩
  · rintro ⟨hbinds | ⟨rfl, hfunction⟩, rfl⟩
    · exact .declared (.layer hbinds)
    · by_cases hbinds : l.Binds "arguments"
      · exact .declared (.layer hbinds)
      · refine .arguments hfunction fun r h => ?_
        cases h with
        | layer h => exact hbinds h

theorem binds_receiver_iff {x : String} {r : Referent} :
    receiver.Binds x r ↔ x = "_this" ∧ r = .receiver := by
  constructor
  · intro h
    cases h with
    | declared h =>
        cases h
        exact ⟨rfl, rfl⟩
    | arguments hs _ => cases hs
  · rintro ⟨rfl, rfl⟩
    exact .declared .receiver

theorem binds_wrapper_self_iff {t : String} {r : Referent} :
    (wrapper t).Binds t r ↔ r = .declaration := by
  constructor
  · intro h
    cases h with
    | declared h =>
        cases h with
        | type => rfl
        | base hne => exact absurd rfl hne
    | arguments _ hnone => exact absurd .type (hnone _)
  · rintro rfl
    exact .declared .type

theorem binds_wrapper_iff {t x : String} {r : Referent} (htype : x ≠ t) (hx : x ≠ "arguments") :
    (wrapper t).Binds x r ↔ x = "_super" ∧ r = .base := by
  rw [binds_iff_declares hx]
  constructor
  · intro h
    cases h with
    | type => exact absurd rfl htype
    | base => exact ⟨rfl, rfl⟩
  · rintro ⟨rfl, rfl⟩
    exact .base htype.symm

theorem referent_of_binds_wrapper {t x : String} {r : Referent} (hx : x ≠ "arguments")
    (h : (wrapper t).Binds x r) : r = .declaration ∨ r = .base := by
  cases (binds_iff_declares hx).1 h with
  | type => exact Or.inl rfl
  | base => exact Or.inr rfl

theorem binds_file_iff {names : List String} {x : String} {r : Referent} (hx : x ≠ "arguments") :
    (file names).Binds x r ↔ x ∈ names ∧ r = .declaration := by
  rw [binds_iff_declares hx]
  constructor
  · intro h
    cases h with
    | declaration h => exact ⟨h, rfl⟩
  · rintro ⟨h, rfl⟩
    exact .declaration h

end Scope

/-- What a name stands for below some scopes, the innermost first; if none binds it, it is a
global. -/
inductive Denotes : List Scope → String → Option Referent → Prop where
  | free {x : String} : Denotes [] x none
  | found {s : Scope} {scopes : List Scope} {x : String} {r : Referent} (h : s.Binds x r) :
      Denotes (s :: scopes) x (some r)
  | outward {s : Scope} {scopes : List Scope} {x : String} {found : Option Referent}
      (h : ∀ r, ¬ s.Binds x r) (hscopes : Denotes scopes x found) : Denotes (s :: scopes) x found

variable {inner outer : List Scope} {s : Scope} {x : String} {found : Option Referent}

/-- A scope that never binds the name to what is looked for can only hide it. -/
theorem denotes_cons_iff_of_ne (h : ∀ r, s.Binds x r → found ≠ some r) :
    Denotes (s :: outer) x found ↔ (∀ r, ¬ s.Binds x r) ∧ Denotes outer x found := by
  constructor
  · intro hdenotes
    cases hdenotes with
    | found hbinds => exact absurd rfl (h _ hbinds)
    | outward hnone houter => exact ⟨hnone, houter⟩
  · rintro ⟨hnone, houter⟩
    exact .outward hnone houter

theorem denotes_append_iff_of_ne (h : ∀ s ∈ inner, ∀ r, s.Binds x r → found ≠ some r) :
    Denotes (inner ++ outer) x found ↔
      (∀ s ∈ inner, ∀ r, ¬ s.Binds x r) ∧ Denotes outer x found := by
  induction inner with
  | nil => simp
  | cons s inner ih =>
      obtain ⟨hs, hinner⟩ := List.forall_mem_cons.1 h
      rw [List.cons_append, denotes_cons_iff_of_ne hs, ih hinner, List.forall_mem_cons, and_assoc]

/-- A scope that binds the name to one thing decides what it stands for. -/
theorem denotes_cons_iff_of_eq {r : Referent} (h : ∀ r', s.Binds x r' ↔ r' = r) :
    Denotes (s :: outer) x found ↔ found = some r := by
  constructor
  · intro hdenotes
    cases hdenotes with
    | found hbinds => exact congrArg some ((h _).1 hbinds)
    | outward hnone _ => exact absurd ((h r).2 rfl) (hnone r)
  · rintro rfl
    exact .found ((h r).2 rfl)

end Emit

namespace Script.Home

/-- The function that code is moved into: the value of a field is computed by the constructor. -/
def moved : Home → List Layer
  | field c false _ => [.function c.constructorCode]
  | global _ | function _ | method _ _ | field _ true _ => []

def saves (m : Emit.Meaning) : Home → Bool
  | method c f => m.savesInMethod c f
  | field c false _ => m.savesInConstructor c
  | global _ | function _ | field _ true _ => false

/-- The layers around a place at the home, and what printing adds to them inside of the class. -/
def inner (m : Emit.Meaning) (h : Home) (ls : List Layer) : List Emit.Scope :=
  (ls ++ h.moved).map .layer ++ if h.saves m then [.receiver] else []

def wrappers (h : Home) : List Emit.Scope := h.type?.toList.map fun c => .wrapper c.name

theorem mem_wrappers {h : Home} {s : Emit.Scope} :
    s ∈ h.wrappers ↔ ∃ c, h.type? = some c ∧ s = .wrapper c.name := by
  simp [wrappers, eq_comm]

theorem wrappers_eq {h : Home} {c : Class} (hc : h.type? = some c) :
    h.wrappers = [.wrapper c.name] := by
  rw [wrappers, hc]
  rfl

open Emit (InFunction fieldAssignment functionText methodCode) in
/-- Where printing puts the code at the home: in which function, with or without the receiver saved,
of which class. -/
def StandsIn (m : Emit.Meaning) (d : Nat) (text : List Emit.Piece) : Home → Prop
  | global v => Emit.Piece.line d (Emit.varDecl m d v ++ [.word ";"]) <:+: text
  | function f =>
      functionText d [.word "function", .space, .word f.name] f.params false
        (methodCode m d f) [] <:+: text
  | method c f => Emit.type m d c <:+: text ∧
      InFunction m d c (.ofFunction f) ((method c f).saves m) (methodCode m (d + 1) f)
  | field c false v => Emit.type m d c <:+: text ∧ InFunction m d c c.constructorCode
      ((field c false v).saves m) (fieldAssignment m (d + 2) "this" v)
  | field c true v => Emit.type m d c <:+: text ∧
      fieldAssignment m (d + 1) c.name v <:+: Emit.type m d c

end Script.Home

namespace Emit

theorem standsIn_file {m : Meaning} {text : String} {file : Script.File}
    (hparse : Script.parse text = .ok file) {home : Script.Home} (h : file.Has home) (d : Nat) :
    home.StandsIn m d (Emit.file m d file) := by
  have hdecl {x : Script.Decl} (hx : x ∈ file.decls) {pieces : List Piece}
      (hpieces : decl m d x = pieces) : pieces <:+: Emit.file m d file := infix_flatMap hx hpieces
  cases h with
  | global hx hv => exact hdecl hx (by rw [decl, hv])
  | function hx hf =>
      exact hdecl hx (by simp [decl, hf, function, functionText, methodCode, saveReceiver])
  | method hx hc hmember hf =>
      exact ⟨hdecl hx (by rw [decl, hc]),
        inFunction_methodCode hparse hx hc (Script.Class.mem_methods.2 ⟨_, hmember, hf⟩)⟩
  | @field _ c _ isStatic v hx hc hmember hstatic hv =>
      have htype : type m d c <:+: Emit.file m d file := hdecl hx (by rw [decl, hc])
      cases isStatic with
      | false => exact ⟨htype, inFunction_fieldAssignment hmember hstatic hv⟩
      | true =>
          have hfield : fieldAssignment m (d + 1) c.name v <:+: staticFields m (d + 1) c :=
            infix_flatMap hmember (by simp [hv, hstatic, fieldAssignment])
          exact ⟨htype, hfield.trans staticFields_infix_type⟩

open Script (Home Layer)

variable {m : Meaning} {home : Home} {ls : List Layer} {outer : List Scope} {x : String}
  {found : Option Referent}

theorem binds_inner_iff {r : Referent} : (∃ s ∈ home.inner m ls, s.Binds x r) ↔
    (∃ l ∈ ls ++ home.moved, l.Hides x) ∧ r = .local ∨
      home.saves m = true ∧ x = "_this" ∧ r = .receiver := by
  rw [Home.inner]
  simp only [List.mem_append (s := List.map _ _), or_and_right, exists_or, List.mem_map,
    List.mem_ite_nil_right, List.mem_singleton]
  refine or_congr ?_ ?_
  · constructor
    · rintro ⟨_, ⟨l, hl, rfl⟩, hbinds⟩
      obtain ⟨hhides, rfl⟩ := Scope.binds_layer_iff.1 hbinds
      exact ⟨⟨l, hl, hhides⟩, rfl⟩
    · rintro ⟨⟨l, hl, hhides⟩, rfl⟩
      exact ⟨_, ⟨l, hl, rfl⟩, Scope.binds_layer_iff.2 ⟨hhides, rfl⟩⟩
  · constructor
    · rintro ⟨_, ⟨hsaves, rfl⟩, hbinds⟩
      exact ⟨hsaves, Scope.binds_receiver_iff.1 hbinds⟩
    · rintro ⟨hsaves, hbinds⟩
      exact ⟨_, ⟨hsaves, rfl⟩, Scope.binds_receiver_iff.2 hbinds⟩

/-- The scopes inside of a class bind locals and the receiver, and hide everything else. -/
theorem denotes_inner_iff (hlocal : found ≠ some .local) (hreceiver : found ≠ some .receiver) :
    Denotes (home.inner m ls ++ outer) x found ↔
      ((∀ l ∈ ls ++ home.moved, ¬ l.Hides x) ∧ (home.saves m = true → x ≠ "_this")) ∧
        Denotes outer x found := by
  rw [denotes_append_iff_of_ne]
  · refine and_congr_left' ?_
    have hnone : (∀ s ∈ home.inner m ls, ∀ r, ¬ s.Binds x r) ↔
        ∀ r, ¬ ∃ s ∈ home.inner m ls, s.Binds x r := by
      simp only [not_exists, not_and]
      exact ⟨fun h r s hs => h s hs r, fun h s hs r => h r s hs⟩
    simp only [hnone, binds_inner_iff]
    constructor
    · intro h
      refine ⟨fun l hl hhides => h .local (Or.inl ⟨⟨l, hl, hhides⟩, rfl⟩), ?_⟩
      exact fun hsaves hx => h .receiver (Or.inr ⟨hsaves, hx, rfl⟩)
    · rintro ⟨hlayers, hthis⟩ r (⟨⟨l, hl, hhides⟩, _⟩ | ⟨hsaves, hx, _⟩)
      · exact hlayers l hl hhides
      · exact hthis hsaves hx
  · intro s hs r hbinds
    obtain ⟨_, rfl⟩ | ⟨_, _, rfl⟩ := binds_inner_iff.1 ⟨s, hs, hbinds⟩
    · exact hlocal
    · exact hreceiver

end Emit
end ScriptWeave
