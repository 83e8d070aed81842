import Mathlib.Data.List.Forall2
import Mathlib.Data.List.Nodup
import ScriptWeave.Proofs.Resolve.External
import ScriptWeave.Proofs.Resolve.Imports
import ScriptWeave.Proofs.Script.Places

/-!
The order in which an identifier is looked up. Each place where a name can come from is a rule that
says what the name means there, in terms of the file, the table and the code around the identifier;
the meaning that is recorded for an identifier is the one of the first rule that applies.
-/

namespace ScriptWeave
namespace Resolve

open Script (Context Enclosing File Import Member Occurrence Reference)

/-- A rule says which meaning, if any, a name has. -/
abbrev Rule : Type := Binding → Prop

/-- The meaning by the first of the rules that applies. -/
def FirstOf : List Rule → Rule
  | [], _ => False
  | rule :: rules, b => rule b ∨ (∀ b', ¬ rule b') ∧ FirstOf rules b

/-- An answer that gives the meanings of a rule. -/
def Answers (rule : Rule) (answer : Option Binding) : Prop := ∀ b, rule b ↔ answer = some b

theorem firstOf_iff {rules : List Rule} {answers : List (Option Binding)}
    (h : List.Forall₂ Answers rules answers) (b : Binding) :
    FirstOf rules b ↔ answers.findSome? id = some b := by
  induction h with
  | nil => simp [FirstOf]
  | @cons rule answer rules answers hrule _ ih =>
      rw [FirstOf, ih, hrule b]
      have hnone : (∀ b', ¬ rule b') ↔ answer = none := by
        simp only [hrule _, Option.eq_none_iff_forall_not_mem, Option.mem_def]
      rw [hnone]
      cases answer <;> simp

namespace Rule

variable (table : SymbolTable) (file : File) (o : Occurrence)

/-- Some function around the identifier is a literal. -/
def Captured : Prop := ∃ f ∈ o.functions, f.literal = true

/-- The file sees a symbol. -/
def Visible (s : Symbol) : Prop := s.isPublic = true ∨ s.package = file.packageName

/-- The name of a parameter or variable of a function around the identifier. -/
def ofFunction : Rule := fun b =>
  (∃ f ∈ o.functions, f.Declares o.name) ∧ b = ⟨.here o.name, 0⟩

/-- A member that can be named without its class: no function named after the class. -/
def Nameable (c : Script.Class) (m : Member) : Prop := ∀ f, m.body = .method f → f.name ≠ c.name

/-- The last member of the name in a class. -/
def LastMember (c : Script.Class) (name : String) (m : Member) : Prop :=
  ∃ before after, c.members = before ++ m :: after ∧ Nameable c m ∧ m.name = name ∧
    ∀ m' ∈ after, Nameable c m' → m'.name ≠ name

/-- A member of the receiver, reached through a captured one from inside of a literal. -/
def OfReceiver (type : String) (b : Binding) : Prop :=
  ∃ captured : Bool, (captured = true ↔ Captured o) ∧ b = ⟨.instance o.name type captured, 0⟩

/-- A member of the class around the identifier. -/
def ofClass : Rule := fun b =>
  ∃ c m, o.type = some c ∧ LastMember c o.name m ∧
    (m.isStatic = true ∧ b = ⟨.static o.name c.name, 0⟩ ∨
      m.isStatic = false ∧ OfReceiver o c.name b)

/-- A declaration of the file. -/
def ofFile : Rule := fun b => (∃ d ∈ file.decls, d.name = o.name) ∧ b = ⟨.here o.name, 0⟩

/-- A symbol that is imported by name. -/
def imported : Rule := fun b =>
  ∃ i ∈ file.imports, ∃ s, i.wildcard = false ∧ i.name.last = o.name ∧
    table.lookup? i.name.qualifier o.name = some s ∧ b = ⟨.external s, 0⟩

/-- A visible symbol of a package that is imported as a whole. -/
def Opened (package : String) (s : Symbol) : Prop :=
  (∃ i ∈ file.imports, i.wildcard = true ∧ i.name.dotted = package) ∧
    table.lookup? package o.name = some s ∧ Visible file s

/-- The only visible symbol among the packages that are imported as a whole. -/
def opened : Rule := fun b =>
  ∃ s, (∃ package, Opened table file o package s) ∧
    (∀ package' s', Opened table file o package' s' → s' = s) ∧ b = ⟨.external s, 0⟩

/-- A symbol of the package of the file. -/
def ofPackage : Rule := fun b =>
  ∃ s, table.lookup? file.packageName o.name = some s ∧ b = ⟨.external s, 0⟩

/-- A public symbol of the top-level package, seen from another package. -/
def ofTopLevel : Rule := fun b =>
  file.packageName ≠ "" ∧ ∃ s, table.lookup? "" o.name = some s ∧ s.isPublic = true ∧
    b = ⟨.external s, 0⟩

/-- The first `n` parts of the dotted chain name a package, and the next one a visible symbol. -/
def Qualified (n : Nat) (s : Symbol) : Prop :=
  0 < n ∧ ∃ name, (o.name :: o.members)[n]? = some name ∧
    table.lookup? (".".intercalate ((o.name :: o.members).take n)) name = some s ∧ Visible file s

/-- The symbol with the longest package in the dotted chain. -/
def qualified : Rule := fun b =>
  ∃ n s, Qualified table file o n s ∧ (∀ n' s', Qualified table file o n' s' → n' ≤ n) ∧
    b = ⟨.external s, n⟩

/-- A global of the target runtime. -/
def builtin : Rule := fun b => o.name ∈ builtins ∧ b = ⟨.builtin o.name, 0⟩

/-- Inside of a class with a superclass, whatever is left is an inherited member. -/
def inherited : Rule := fun b =>
  ∃ c, o.type = some c ∧ c.base.isSome = true ∧ OfReceiver o "" b

/-- All rules, the first one first. -/
def all : List Rule :=
  [ofFunction o, ofClass o, ofFile file o, imported table file o, opened table file o,
   ofPackage table file o, ofTopLevel table file o, qualified table file o, builtin o, inherited o]

end Rule

namespace Environment

variable {env : Environment}

/-- The only item of a list. -/
def only? {α : Type} : List α → Option α
  | [a] => some a
  | _ => none

/-- The symbols that the imports and the packages have for a name, the first answer first. -/
def symbolAnswers (env : Environment) (name : String) : List (Option Symbol) :=
  [env.imported? name, only? (env.wildcardMatches name), env.table.lookup? env.package name,
   env.topLevel? name]

/-- What a plain name can stand for, the first answer first. -/
def targetAnswers (env : Environment) (ctx : Context) (name : String) : List (Option Target) :=
  [if ctx.declares name then some (.here name) else none, member? ctx name,
   if env.declared.contains name then some (.here name) else none] ++
  (env.symbolAnswers name).map (·.map .external)

/-- The answers to the rules, the first one first. -/
def answers (env : Environment) (r : Reference) : List (Option Binding) :=
  (env.targetAnswers r.context r.first).map (·.map (⟨·, 0⟩)) ++
  [(env.qualified? r.parts).map fun (s, n) => ⟨.external s, n⟩,
   if isBuiltin r.first then some ⟨.builtin r.first, 0⟩ else none,
   (inherited? r.context r.first).map (⟨·, 0⟩)]

theorem findSome?_id_map {α β : Type} (f : α → β) (answers : List (Option α)) :
    (answers.map (·.map f)).findSome? id = (answers.findSome? id).map f := by
  induction answers with
  | nil => rfl
  | cons answer answers ih => cases answer <;> simp [ih]

theorem symbol?_ok {name : String} {found : Option Symbol} (h : env.symbol? name = .ok found) :
    (env.symbolAnswers name).findSome? id = found := by
  rw [symbol?] at h
  rw [symbolAnswers]
  cases himported : env.imported? name with
  | some s => simpa [himported] using h
  | none =>
      simp only [himported] at h
      cases hmatches : env.wildcardMatches name with
      | nil =>
          simp only [hmatches] at h
          cases hown : env.table.lookup? env.package name with
          | some s => simpa [hown, only?] using h
          | none =>
              simp only [hown] at h
              cases h
              cases env.topLevel? name <;> simp [only?]
      | cons s others =>
          cases others with
          | nil => simpa [hmatches, only?] using h
          | cons second rest => simp [hmatches] at h

theorem lookup_ok {ctx : Context} {name : String} {found : Option Target}
    (h : env.lookup ctx name = .ok found) : (env.targetAnswers ctx name).findSome? id = found := by
  rw [lookup] at h
  rw [targetAnswers, List.findSome?_append, findSome?_id_map]
  split at h
  · next hdeclares =>
      cases h
      simp [hdeclares]
  · next hdeclares =>
      cases hmember : member? ctx name with
      | some target => simpa [hdeclares, hmember] using h
      | none =>
          simp only [hmember] at h
          split at h
          · next hfile =>
              cases h
              simp only [hdeclares, hfile]
              rfl
          · next hfile =>
              cases hsymbol : env.symbol? name with
              | error reason => simp [hsymbol, Except.map] at h
              | ok symbol =>
                  rw [hsymbol] at h
                  cases h
                  rw [symbol?_ok hsymbol]
                  simp only [hdeclares, hfile]
                  rfl

theorem identifier_ok {r : Reference} {b : Binding} (h : env.identifier r = .ok b) :
    (env.answers r).findSome? id = some b := by
  rw [answers, List.findSome?_append, findSome?_id_map]
  obtain ⟨target, hlookup, rfl⟩ | ⟨hlookup,
    ⟨found, hqualified, rfl⟩ | ⟨hqualified, ⟨hbuiltin, rfl⟩ |
    ⟨hbuiltin, target, hinherited, rfl⟩⟩⟩ := identifier_cases h
  · rw [lookup_ok hlookup]
    rfl
  · rw [lookup_ok hlookup, hqualified]
    rfl
  · simp [lookup_ok hlookup, hqualified, hbuiltin]
  · simp [lookup_ok hlookup, hqualified, hbuiltin, hinherited]

end Environment

theorem answers_ite {P : Prop} {p : Bool} (h : p = true ↔ P) (c : Binding) :
    Answers (fun b => P ∧ b = c) (if p then some c else none) := by
  intro b
  simp only [← h, Option.ite_none_right_eq_some, Option.some.injEq, eq_comm (a := b)]

theorem answers_map {α : Type} {f : α → Binding} {P : α → Prop} {answer : Option α}
    (h : ∀ a, answer = some a ↔ P a) : Answers (fun b => ∃ a, P a ∧ b = f a) (answer.map f) := by
  intro b
  simp only [Option.map_eq_some_iff, h, eq_comm (a := b)]

namespace Rule

section

variable {o : Occurrence} {around : Option Script.ClassContext}

/-- The context of an identifier. -/
abbrev contextOf (o : Occurrence) (around : Option Script.ClassContext) : Context :=
  ⟨o.functions.map Enclosing.frame, around⟩

theorem insideClosure_iff (around : Option Script.ClassContext) :
    (contextOf o around).insideClosure = true ↔ Captured o :=
  Enclosing.insideClosure_context

theorem ofReceiver_iff (around : Option Script.ClassContext) (type : String) (b : Binding) :
    OfReceiver o type b ↔
      ⟨.instance o.name type (contextOf o around).insideClosure, 0⟩ = b := by
  constructor
  · rintro ⟨captured, hcaptured, rfl⟩
    rw [← insideClosure_iff around] at hcaptured
    rw [Bool.eq_iff_iff.2 hcaptured]
  · rintro rfl
    exact ⟨_, insideClosure_iff around, rfl⟩

/-- A member as the class lists it, with its name and whether it is static. -/
def listed? (c : Script.Class) (m : Member) : Option (String × Bool) :=
  match m.body with
  | .method function => if function.name = c.name then none else some (m.name, m.isStatic)
  | .field _ => some (m.name, m.isStatic)

theorem listed?_eq_some_iff {c : Script.Class} {m : Member} {entry : String × Bool} :
    listed? c m = some entry ↔ Nameable c m ∧ (m.name, m.isStatic) = entry := by
  rw [listed?, Nameable]
  cases hbody : m.body with
  | method f => simp
  | field d => simp

theorem any_listed? {c : Script.Class} {m : Member} {name : String} :
    (listed? c m).any (·.1 = name) = true ↔ Nameable c m ∧ m.name = name := by
  simp only [Option.any_eq_true, listed?_eq_some_iff]
  constructor
  · rintro ⟨_, ⟨hnameable, rfl⟩, hname⟩
    exact ⟨hnameable, of_decide_eq_true hname⟩
  · rintro ⟨hnameable, rfl⟩
    exact ⟨_, ⟨hnameable, rfl⟩, decide_eq_true rfl⟩

theorem member?_eq_some_iff {c : Script.Class} {owner : Script.Owner} {name : String}
    {isStatic : Bool} :
    (⟨c.name, c.memberNames, c.base.isSome, owner⟩ : Script.ClassContext).member? name =
      some isStatic ↔ ∃ m, LastMember c name m ∧ m.isStatic = isStatic := by
  have hnames : c.memberNames = c.members.filterMap (listed? c) := rfl
  rw [Script.ClassContext.member?, hnames, ← List.filterMap_reverse, List.find?_filterMap]
  simp only [Option.map_eq_some_iff, Option.bind_eq_some_iff, List.find?_eq_some_iff_append]
  constructor
  · rintro ⟨entry, ⟨m, ⟨hm, after, before, hmembers, hafter⟩, hentry⟩, rfl⟩
    obtain ⟨hnameable, hname⟩ := any_listed?.1 hm
    obtain ⟨_, rfl⟩ := listed?_eq_some_iff.1 hentry
    refine ⟨m, ⟨before.reverse, after.reverse, ?_, hnameable, hname, ?_⟩, rfl⟩
    · rw [← List.reverse_reverse c.members, hmembers]
      simp
    · intro m' hm' hnameable' hname'
      have hnot := hafter m' (List.mem_reverse.1 hm')
      rw [any_listed?.2 ⟨hnameable', hname'⟩] at hnot
      cases hnot
  · rintro ⟨m, ⟨before, after, hmembers, hnameable, hname, hafter⟩, rfl⟩
    refine ⟨(m.name, m.isStatic), ⟨m, ⟨any_listed?.2 ⟨hnameable, hname⟩, after.reverse,
      before.reverse, ?_, ?_⟩, listed?_eq_some_iff.2 ⟨hnameable, rfl⟩⟩, rfl⟩
    · rw [hmembers]
      simp
    · intro m' hm'
      rw [Bool.not_eq_true', ← Bool.not_eq_true, any_listed?]
      rintro ⟨hnameable', hname'⟩
      exact hafter m' (List.mem_reverse.1 hm') hnameable' hname'

theorem answers_ofFunction : Answers (ofFunction o)
    (if (contextOf o around).declares o.name then some ⟨.here o.name, 0⟩ else none) :=
  answers_ite Enclosing.declares_context _

theorem answers_ofClass (h : Script.Class.Around o.type around) : Answers (ofClass o)
    ((Environment.member? (contextOf o around) o.name).map (⟨·, 0⟩)) := by
  intro b
  simp only [ofClass, ofReceiver_iff around]
  obtain ⟨owner, rfl⟩ := h
  rw [Environment.member?]
  cases o.type with
  | none => simp
  | some c =>
      simp only [Option.map_some, Option.bind_some, Option.map_map, Option.map_eq_some_iff,
        Function.comp, member?_eq_some_iff, Option.some.injEq]
      constructor
      · rintro ⟨_, m, rfl, hm, ⟨hstatic, rfl⟩ | ⟨hinstance, rfl⟩⟩
        · exact ⟨true, ⟨m, hm, hstatic⟩, rfl⟩
        · exact ⟨false, ⟨m, hm, hinstance⟩, rfl⟩
      · rintro ⟨isStatic, ⟨m, hm, hstatic⟩, rfl⟩
        refine ⟨c, m, rfl, hm, ?_⟩
        cases isStatic with
        | true => exact Or.inl ⟨hstatic, rfl⟩
        | false => exact Or.inr ⟨hstatic, rfl⟩

theorem answers_inherited (h : Script.Class.Around o.type around) : Answers (inherited o)
    ((Environment.inherited? (contextOf o around) o.name).map (⟨·, 0⟩)) := by
  intro b
  simp only [inherited, ofReceiver_iff around]
  obtain ⟨owner, rfl⟩ := h
  rw [Environment.inherited?]
  cases o.type with
  | none => simp
  | some c => cases hbase : c.base.isSome <;> simp [hbase]

end

section

variable {file : File} {env : Environment} {o : Occurrence}

theorem sees_iff (hpackage : env.package = file.packageName) (s : Symbol) :
    env.sees s = true ↔ Visible file s := by
  simp [Environment.sees, Visible, hpackage]

theorem visible?_eq_some_iff (hpackage : env.package = file.packageName) {package name : String}
    {s : Symbol} : env.visible? package name = some s ↔
      env.table.lookup? package name = some s ∧ Visible file s := by
  rw [Environment.visible?, Option.filter_eq_some_iff, sees_iff hpackage]

theorem answers_ofFile (hdeclared : env.declared = file.declaredNames) : Answers (ofFile file o)
    (if env.declared.contains o.name then some ⟨.here o.name, 0⟩ else none) := by
  refine answers_ite ?_ _
  rw [List.contains_iff_mem, hdeclared, File.declaredNames, List.mem_map]

theorem answers_imported (henv : env.Holds file.imports) : Answers (imported env.table file o)
    ((env.imported? o.name).map (⟨.external ·, 0⟩)) := by
  intro b
  simp only [Option.map_eq_some_iff, henv.imported, imported]
  constructor
  · rintro ⟨i, hi, s, hwildcard, hlast, hs, rfl⟩
    exact ⟨s, ⟨i, hi, hwildcard, hlast, hs⟩, rfl⟩
  · rintro ⟨s, ⟨i, hi, hwildcard, hlast, hs⟩, rfl⟩
    exact ⟨i, hi, s, hwildcard, hlast, hs, rfl⟩

theorem distinct_eq_singleton_iff {α : Type} [DecidableEq α] {as : List α} {a : α} :
    distinct as = [a] ↔ a ∈ as ∧ ∀ b ∈ as, b = a := by
  constructor
  · intro h
    have hmem : ∀ b, b ∈ as ↔ b = a := by
      intro b
      rw [← mem_distinct, h, List.mem_singleton]
    exact ⟨(hmem a).2 rfl, fun b hb => (hmem b).1 hb⟩
  · intro h
    obtain ⟨ha, honly⟩ := h
    refine List.perm_singleton.1 ?_
    rw [List.perm_ext_iff_of_nodup (nodup_distinct as) (List.nodup_singleton a)]
    intro b
    rw [mem_distinct, List.mem_singleton]
    exact ⟨honly b, fun hb => hb ▸ ha⟩

theorem only?_eq_some_iff {α : Type} {as : List α} {a : α} :
    Environment.only? as = some a ↔ as = [a] := by
  match as with
  | [] | _ :: _ :: _ => simp [Environment.only?]
  | [b] => simp [Environment.only?]

theorem answers_opened (henv : env.Holds file.imports)
    (hpackage : env.package = file.packageName) : Answers (opened env.table file o)
    ((Environment.only? (env.wildcardMatches o.name)).map (⟨.external ·, 0⟩)) := by
  intro b
  have hmatch : ∀ s, s ∈ env.wildcards.filterMap (env.visible? · o.name) ↔
      ∃ package, Opened env.table file o package s := by
    intro s
    simp only [List.mem_filterMap, henv.wildcards, visible?_eq_some_iff hpackage, Opened]
  simp only [Option.map_eq_some_iff, only?_eq_some_iff, Environment.wildcardMatches,
    distinct_eq_singleton_iff, hmatch, opened]
  constructor
  · rintro ⟨s, hopened, honly, rfl⟩
    exact ⟨s, ⟨hopened, fun s' hs' => honly hs'.choose s' hs'.choose_spec⟩, rfl⟩
  · rintro ⟨s, ⟨hopened, honly⟩, rfl⟩
    exact ⟨s, hopened, fun package' s' hs' => honly s' ⟨package', hs'⟩, rfl⟩

theorem answers_ofPackage (hpackage : env.package = file.packageName) :
    Answers (ofPackage env.table file o)
      ((env.table.lookup? env.package o.name).map (⟨.external ·, 0⟩)) := by
  refine answers_map fun s => ?_
  rw [hpackage]

theorem answers_ofTopLevel (hpackage : env.package = file.packageName) :
    Answers (ofTopLevel env.table file o) ((env.topLevel? o.name).map (⟨.external ·, 0⟩)) := by
  intro b
  simp only [Option.map_eq_some_iff, Environment.topLevel?, Option.filter_eq_some_iff, hpackage,
    Bool.and_eq_true, decide_eq_true_eq, ofTopLevel]
  constructor
  · rintro ⟨hother, s, hs, hpublic, rfl⟩
    exact ⟨s, ⟨hs, hother, hpublic⟩, rfl⟩
  · rintro ⟨s, ⟨hs, hother, hpublic⟩, rfl⟩
    exact ⟨hother, s, hs, hpublic, rfl⟩

theorem qualifiedUpTo?_eq_some_iff {parts : List String} {k n : Nat} {s : Symbol} :
    env.qualifiedUpTo? parts k = some (s, n) ↔ 0 < n ∧ n ≤ k ∧ env.qualifiedAt? parts n = some s ∧
      ∀ n', n < n' → n' ≤ k → env.qualifiedAt? parts n' = none := by
  induction k with
  | zero =>
      simp only [Environment.qualifiedUpTo?, reduceCtorEq, false_iff, not_and]
      omega
  | succ k ih =>
      rw [Environment.qualifiedUpTo?]
      cases hat : env.qualifiedAt? parts (k + 1) with
      | some x =>
          simp only [Option.some.injEq, Prod.mk.injEq]
          constructor
          · rintro ⟨rfl, rfl⟩
            exact ⟨Nat.succ_pos k, Nat.le_refl _, hat, fun n' hlt hle => by omega⟩
          · rintro ⟨_, hle, hs, hnone⟩
            obtain rfl | hlt : n = k + 1 ∨ n < k + 1 := by omega
            · exact ⟨Option.some.inj (hat.symm.trans hs), rfl⟩
            · rw [hnone (k + 1) hlt (Nat.le_refl _)] at hat
              cases hat
      | none =>
          simp only [ih]
          constructor
          · rintro ⟨hpos, hle, hs, hnone⟩
            refine ⟨hpos, Nat.le_succ_of_le hle, hs, ?_⟩
            intro n' hlt hle'
            obtain rfl | hle' : n' = k + 1 ∨ n' ≤ k := by omega
            · exact hat
            · exact hnone n' hlt hle'
          · rintro ⟨hpos, hle, hs, hnone⟩
            obtain rfl | hle : n = k + 1 ∨ n ≤ k := by omega
            · rw [hat] at hs
              cases hs
            · exact ⟨hpos, hle, hs, fun n' hlt hle' => hnone n' hlt (Nat.le_succ_of_le hle')⟩

theorem qualified_iff (hpackage : env.package = file.packageName) {n : Nat} {s : Symbol} :
    Qualified env.table file o n s ↔
      0 < n ∧ env.qualifiedAt? (o.name :: o.members) n = some s := by
  rw [Qualified, Environment.qualifiedAt?]
  cases (o.name :: o.members)[n]? with
  | none => simp
  | some name => simp [visible?_eq_some_iff hpackage]

theorem lt_length_of_qualifiedAt? {parts : List String} {n : Nat} {s : Symbol}
    (h : env.qualifiedAt? parts n = some s) : n < parts.length := by
  rw [Environment.qualifiedAt?] at h
  split at h
  · next name hname => exact (List.getElem?_eq_some_iff.1 hname).1
  · cases h

theorem answers_qualified (hpackage : env.package = file.packageName) :
    Answers (qualified env.table file o)
      ((env.qualified? (o.name :: o.members)).map fun (s, n) => ⟨.external s, n⟩) := by
  intro b
  simp only [qualified, qualified_iff hpackage, Option.map_eq_some_iff, Environment.qualified?,
    Prod.exists, qualifiedUpTo?_eq_some_iff]
  constructor
  · rintro ⟨n, s, ⟨hpos, hs⟩, hlongest, rfl⟩
    have hlt := lt_length_of_qualifiedAt? hs
    refine ⟨s, n, ⟨hpos, by omega, hs, ?_⟩, rfl⟩
    intro n' hlt' _
    refine Option.eq_none_iff_forall_ne_some.2 fun s' hs' => ?_
    have hle := hlongest n' s' ⟨by omega, hs'⟩
    omega
  · rintro ⟨s, n, ⟨hpos, hle, hs, hnone⟩, rfl⟩
    refine ⟨n, s, ⟨hpos, hs⟩, ?_, rfl⟩
    rintro n' s' ⟨_, hs'⟩
    have hlt' := lt_length_of_qualifiedAt? hs'
    refine Nat.le_of_not_lt fun hlt => ?_
    rw [hnone n' hlt (by omega)] at hs'
    cases hs'

theorem answers_builtin : Answers (builtin o)
    (if isBuiltin o.name then some ⟨.builtin o.name, 0⟩ else none) :=
  answers_ite List.contains_iff_mem _

theorem answers_all {around : Option Script.ClassContext}
    (haround : Script.Class.Around o.type around) (henv : env.Holds file.imports)
    (hpackage : env.package = file.packageName)
    (hdeclared : env.declared = file.declaredNames) :
    List.Forall₂ Answers (all env.table file o)
      (env.answers ⟨⟨.ident, o.pos⟩, o.pos, o.name, o.members, contextOf o around⟩) := by
  simp only [Environment.answers, Environment.targetAnswers, Environment.symbolAnswers,
    List.map_cons, List.map_nil, Option.map_map, apply_ite (Option.map _),
    Option.map_some, Option.map_none, List.cons_append, List.nil_append]
  exact .cons answers_ofFunction <| .cons (answers_ofClass haround) <|
    .cons (answers_ofFile hdeclared) <| .cons (answers_imported henv) <|
    .cons (answers_opened henv hpackage) <| .cons (answers_ofPackage hpackage) <|
    .cons (answers_ofTopLevel hpackage) <| .cons (answers_qualified hpackage) <|
    .cons answers_builtin <| .cons (answers_inherited haround) .nil

end

end Rule

theorem map_reference_linkAll {env : Environment} {references : List Reference}
    (h : (linkAll env references).2 = []) :
    (linkAll env references).1.map (·.reference) = references := by
  induction references with
  | nil => rfl
  | cons r references ih =>
      rw [linkAll] at h ⊢
      cases hbind : env.bind r with
      | ok binding =>
          simp only [hbind] at h ⊢
          rw [List.map_cons, ih h]
      | error reason => simp [hbind] at h

theorem Module.binding?_of_mem {m : Module} (hnodup : (m.links.map (·.reference.key)).Nodup)
    {l : Link} (hl : l ∈ m.links) : m.binding? l.reference.key = some l.binding := by
  rw [binding?]
  cases hfound : m.links.find? (·.reference.key = l.reference.key) with
  | none =>
      have hne := List.find?_eq_none.1 hfound l hl
      simp at hne
  | some l' =>
      have hkey : l'.reference.key = l.reference.key := by simpa using List.find?_some hfound
      have hsame := List.inj_on_of_nodup_map hnodup (List.mem_of_find?_eq_some hfound) hl hkey
      rw [hsame, Option.map_some]

/-- The environment of a file after its imports, and the imports that were refused. -/
def opened (source : Source) (table : SymbolTable) : Environment × List Failure :=
  (Environment.ofFile table source.file).addImports source.file.imports

/-- A file is resolved if no import is refused and no reference fails. -/
theorem run_eq_ok_iff {source : Source} {table : SymbolTable} {m : Module} :
    run source table = .ok m ↔ (opened source table).2 = [] ∧
      (linkAll (opened source table).1 source.file.references).2 = [] ∧
      m = ⟨source, (linkAll (opened source table).1 source.file.references).1⟩ := by
  rw [opened, run]
  dsimp only
  split
  · next hnone =>
      obtain ⟨hrefused, hfailed⟩ := List.append_eq_nil_iff.1 hnone
      simp only [hrefused, hfailed, true_and, Except.ok.injEq, eq_comm]
  · next hsome =>
      refine iff_of_false ?_ ?_
      · intro h
        cases h
      · rintro ⟨hrefused, hfailed, _⟩
        exact hsome (List.append_eq_nil_iff.2 ⟨hrefused, hfailed⟩)

theorem run_eq_ok {source : Source} {table : SymbolTable} {m : Module}
    (h : run source table = .ok m) : ∃ env : Environment, env.table = table ∧
      env.package = source.file.packageName ∧ env.declared = source.file.declaredNames ∧
      env.Holds source.file.imports ∧ m.links.map (·.reference) = source.file.references ∧
      ∀ l ∈ m.links, env.bind l.reference = .ok l.binding := by
  obtain ⟨hrefused, hfailed, rfl⟩ := run_eq_ok_iff.1 h
  obtain ⟨hholds, htable, hpackage, hdeclared⟩ :=
    (Environment.holds_ofFile table source.file).addImports source.file.imports hrefused
  exact ⟨_, htable, hpackage, hdeclared, hholds, map_reference_linkAll hfailed,
    fun l hl => bind_of_mem_linkAll hl⟩

/-- The meaning of an identifier is the one of the first rule that applies to it. -/
theorem identifier_precedence (source : Source) (table : SymbolTable) (m : Module)
    (hrun : run source table = .ok m) (o : Occurrence) (ho : source.file.Mentions o) :
    ∃ b, (∀ b', FirstOf (Rule.all table source.file o) b' ↔ b' = b) ∧
      (∃ l ∈ m.links, l.reference.key = ⟨.ident, o.pos⟩ ∧ l.binding = b) ∧
      ∀ text, Script.parse text = .ok source.file → m.binding? ⟨.ident, o.pos⟩ = some b := by
  obtain ⟨env, rfl, hpackage, hdeclared, hholds, hreferences, hbind⟩ := run_eq_ok hrun
  obtain ⟨around, haround, hr⟩ := ho.reference
  rw [← hreferences] at hr
  obtain ⟨l, hl, hlr⟩ := List.mem_map.1 hr
  have hanswer : (env.answers l.reference).findSome? id = some l.binding := by
    have hl' := hbind l hl
    rw [hlr] at hl' ⊢
    exact Environment.identifier_ok hl'
  have hkey : l.reference.key = ⟨.ident, o.pos⟩ := by rw [hlr]
  refine ⟨l.binding, ?_, ⟨l, hl, hkey, rfl⟩, ?_⟩
  · intro b'
    rw [firstOf_iff (Rule.answers_all haround hholds hpackage hdeclared), ← hlr, hanswer,
      Option.some.injEq, eq_comm]
  · intro text hparse
    have hnodup := Script.nodup_keys_of_parse hparse
    rw [← hreferences, List.map_map] at hnodup
    rw [← hkey]
    exact Module.binding?_of_mem hnodup hl

/-- The body of a function literal that returns a name. -/
def returnedName : Script.Block :=
  ⟨⟨1, 78⟩, [.returns ⟨1, 80⟩ (some (.value (.plain ⟨⟨⟨1, 87⟩, [], ⟨.ident ⟨1, 87⟩ "y", [],
    none⟩⟩, []⟩)))]⟩

/-- A method that returns such a literal. -/
def returningMethod : Script.Function :=
  ⟨⟨1, 45⟩, "m", [], none, ⟨⟨1, 58⟩, [.returns ⟨1, 60⟩ (some (.value (.plain ⟨⟨⟨1, 67⟩, [],
    ⟨.function ⟨1, 67⟩ [] none returnedName, [], none⟩⟩, []⟩)))]⟩⟩

def subclass : Script.Class :=
  ⟨⟨1, 25⟩, "C", some ⟨⟨1, 41⟩, "B", []⟩, [], [⟨⟨1, 45⟩, [], .method returningMethod⟩]⟩

/-- A class with a superclass in the same file, and a method with a function literal. -/
def subclassSource : Source :=
  ⟨"C.as", ⟨⟨1, 1⟩, none, [], [⟨⟨1, 11⟩, [], .type ⟨⟨1, 11⟩, "B", none, [], []⟩⟩,
    ⟨⟨1, 25⟩, [], .type subclass⟩]⟩⟩

/-- The name that the literal returns. -/
def inheritedName : Occurrence :=
  ⟨"y", ⟨1, 87⟩, [], [⟨[], returnedName, true⟩, .ofFunction returningMethod], some subclass⟩

theorem mentions_inheritedName : subclassSource.file.Mentions inheritedName := by
  refine ⟨[.ofFunction returningMethod], .block returningMethod.body,
    ⟨.ident ⟨1, 87⟩ "y", [], none⟩,
    .method (List.mem_cons_of_mem _ List.mem_cons_self) rfl List.mem_cons_self rfl .body, ?_, rfl,
    rfl⟩
  refine .part (.item List.mem_cons_self) <| .part .result <| .part .value <| .part .plain <|
    .part .head <| .literal rfl .body ?_
  exact .part (.item List.mem_cons_self) <| .part .result <| .part .value <| .part .plain <|
    .part .head .here

theorem identifier_precedence_inherited : ∃ m, run subclassSource .empty = .ok m ∧
    m.binding? ⟨.ident, ⟨1, 87⟩⟩ = some ⟨.instance "y" "" true, 0⟩ ∧
    subclassSource.file.Mentions inheritedName ∧
    ∃ b, (∀ b', FirstOf (Rule.all .empty subclassSource.file inheritedName) b' ↔ b' = b) ∧
      (∃ l ∈ m.links, l.reference.key = ⟨.ident, inheritedName.pos⟩ ∧ l.binding = b) ∧
      ∀ text, Script.parse text = .ok subclassSource.file →
        m.binding? ⟨.ident, inheritedName.pos⟩ = some b := by
  have hbinding : (run subclassSource .empty).toOption.bind (·.binding? ⟨.ident, ⟨1, 87⟩⟩) =
      some ⟨.instance "y" "" true, 0⟩ := by decide
  cases hrun : run subclassSource .empty with
  | error fault => simp [hrun, Except.toOption] at hbinding
  | ok m =>
      rw [hrun] at hbinding
      exact ⟨m, rfl, hbinding, mentions_inheritedName,
        identifier_precedence _ _ m hrun _ mentions_inheritedName⟩

end Resolve
end ScriptWeave
