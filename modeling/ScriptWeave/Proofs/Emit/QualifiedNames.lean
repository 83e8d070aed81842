import ScriptWeave.Proofs.Resolve.Uses
import ScriptWeave.Proofs.Resolve.Visibility
import ScriptWeave.Proofs.Script.Wording

/-!
Qualified names. A binding counts the parts of a dotted name that it stands for: members that follow
an identifier, or parts of a type name with the first one. It never counts more than there are, and
when it counts the parts of a qualified name they spell the symbol. So printing leaves out those
parts and no others.
-/

namespace ScriptWeave

namespace Resolve

open Script (File Reference)

/-- The first `n` parts spell a symbol with its package, and no longer front of the parts spells one
that the file sees. -/
structure Spells (table : SymbolTable) (file : File) (parts : List String) (n : Nat) (s : Symbol) :
    Prop where
  dotted : ".".intercalate (parts.take n) = s.qualifiedName
  longest : ∀ package name rest s', parts = package ++ name :: rest → n ≤ package.length →
    table.lookup? (".".intercalate package) name = some s' → ¬ Rule.Visible file s'

theorem intercalate_cons_ne_empty {separator first : String} {rest : List String}
    (h : first ≠ "") : separator.intercalate (first :: rest) ≠ "" := by
  cases rest with
  | nil => simpa using h
  | cons next rest => simp [String.intercalate_cons_cons, h]

section

variable {env : Environment} {file : File} {r : Reference} {b : Binding} {s : Symbol}
  (hhomed : env.table.Homed) (hpackage : env.package = file.packageName) (hfirst : r.first ≠ "")
include hhomed hpackage hfirst

/-- A qualified name is spelled by its package and the part behind it. -/
theorem spells_of_qualified? {n : Nat} (h : env.qualified? r.parts = some (s, n)) :
    n < r.parts.length ∧ Spells env.table file r.parts (n + 1) s := by
  obtain ⟨hpos, hle, hat, hnone⟩ := Rule.qualifiedUpTo?_eq_some_iff.1 h
  have hlt := Rule.lt_length_of_qualifiedAt? hat
  refine ⟨hlt, ?_, ?_⟩
  · rw [Environment.qualifiedAt?] at hat
    split at hat
    · next name hname =>
        obtain ⟨hlookup, _⟩ := Option.filter_eq_some_iff.1 hat
        have hfront : r.parts.take n = r.first :: r.rest.take (n - 1) := by
          rw [Reference.parts, List.take_cons hpos]
        have hnonempty : ".".intercalate (r.parts.take n) ≠ "" :=
          hfront ▸ intercalate_cons_ne_empty hfirst
        rw [List.take_add_one, hname, Option.toList_some,
          String.intercalate_append_of_ne_nil (hfront ▸ List.cons_ne_nil _ _)
            (List.cons_ne_nil _ _),
          String.intercalate_singleton, Symbol.qualifiedName, qualify, hhomed _ _ _ hlookup,
          if_neg hnonempty, name_of_lookup? hlookup]
    · cases hat
  · intro package name rest s' hparts hlonger hlookup hvisible
    have hbehind : env.qualifiedAt? r.parts package.length = none := by
      refine hnone _ hlonger ?_
      rw [hparts, List.length_append, List.length_cons]
      omega
    rw [hparts, Environment.qualifiedAt?, List.getElem?_append_right (Nat.le_refl _), Nat.sub_self,
      List.getElem?_cons_zero, List.take_left] at hbehind
    have hsees := (Rule.visible?_eq_some_iff hpackage).2 ⟨hlookup, hvisible⟩
    cases hbehind.symm.trans hsees

/-- The members that the meaning of an identifier takes up. -/
theorem taken_of_identifier (h : env.identifier r = .ok b) : b.consume ≤ r.rest.length ∧
    ∀ s, b.target = .external s → 0 < b.consume →
      Spells env.table file r.parts (b.consume + 1) s := by
  obtain ⟨target, _, rfl⟩ | ⟨_, ⟨⟨s, n⟩, hqualified, rfl⟩ | ⟨_, ⟨_, rfl⟩ | ⟨_, target, _, rfl⟩⟩⟩ :=
    Environment.identifier_cases h
  · exact ⟨Nat.zero_le _, fun _ _ hpos => absurd hpos (Nat.lt_irrefl 0)⟩
  · obtain ⟨hlt, hspells⟩ := spells_of_qualified? hhomed hpackage hfirst hqualified
    refine ⟨Nat.le_of_lt_succ hlt, ?_⟩
    intro s' hs' _
    cases hs'
    exact hspells
  · exact ⟨Nat.zero_le _, fun _ _ hpos => absurd hpos (Nat.lt_irrefl 0)⟩
  · exact ⟨Nat.zero_le _, fun _ _ hpos => absurd hpos (Nat.lt_irrefl 0)⟩

/-- The parts that the meaning of a type name takes up. -/
theorem taken_of_typeName (h : env.typeName r = .ok b) :
    1 ≤ b.consume ∧ b.consume ≤ r.parts.length ∧
      ∀ s, b.target = .external s → 1 < b.consume → Spells env.table file r.parts b.consume s := by
  have hlength : 1 ≤ r.parts.length := Nat.succ_pos _
  obtain ⟨⟨s, n⟩, hqualified, rfl⟩ | ⟨_, ⟨target, _, rfl⟩ | ⟨_, _, rfl⟩⟩ :=
    Environment.typeName_cases h
  · obtain ⟨hlt, hspells⟩ := spells_of_qualified? hhomed hpackage hfirst hqualified
    refine ⟨Nat.succ_pos n, hlt, ?_⟩
    intro s' hs' _
    cases hs'
    exact hspells
  · exact ⟨Nat.le_refl 1, hlength, fun _ _ hmany => absurd hmany (Nat.lt_irrefl 1)⟩
  · exact ⟨Nat.le_refl 1, hlength, fun _ _ hmany => absurd hmany (Nat.lt_irrefl 1)⟩

end

end Resolve

namespace Script

/-- The name of a member suffix. -/
def Suffix.member? : Suffix → Option String
  | .member _ name => some name
  | .index _ _ | .call _ _ => none

/-- The first suffixes are members as long as the chain behind the primary lasts. -/
theorem take_suffixes {suffixes : List Suffix} {n : Nat}
    (h : n ≤ (Postfix.memberChain.chain suffixes).length) :
    (suffixes.take n).map (·.member?) = ((Postfix.memberChain.chain suffixes).take n).map some := by
  induction suffixes generalizing n with
  | nil => simp [Postfix.memberChain.chain]
  | cons suffix suffixes ih =>
      cases n with
      | zero => rfl
      | succ n =>
          cases suffix with
          | member pos name =>
              rw [Postfix.memberChain.chain, List.length_cons, Nat.succ_le_succ_iff] at h
              rw [List.take_succ_cons, List.map_cons, ih h]
              rfl
          | index | call => exact absurd h (Nat.not_succ_le_zero n)

namespace File

variable {file : File}

/-- An identifier that is the primary expression of an operand of the file. -/
def HasIdentifier (file : File) (p : Postfix) (pos : Position) (name : String) : Prop :=
  p.primary = .ident pos name ∧ ∃ home ls, file.HasOperand home ls p

/-- The name of a type in the file, behind `new` or `extends`. -/
inductive HasTypeName (file : File) : ReferenceKey → QualifiedName → Prop where
  | newBare {home : Home} {ls : List Layer} {p : Postfix} {pos : Position} {q : QualifiedName}
      (hp : file.HasOperand home ls p) (hnew : p.primary = .newBare pos q) :
      HasTypeName file ⟨.create, pos⟩ q
  | newCall {home : Home} {ls : List Layer} {p : Postfix} {pos : Position} {q : QualifiedName}
      {args : List Expr} (hp : file.HasOperand home ls p) (hnew : p.primary = .newCall pos q args) :
      HasTypeName file ⟨.create, pos⟩ q
  | base {d : Decl} {c : Class} {q : QualifiedName} (hd : d ∈ file.decls) (hc : d.body = .type c)
      (hq : c.base = some q) : HasTypeName file ⟨.base, q.pos⟩ q

/-- The references of an operand are references of its file. -/
theorem HasOperand.exists_context {home : Home} {ls : List Layer} {p : Postfix}
    (h : file.HasOperand home ls p) :
    ∃ ctx, ∀ r ∈ References.postfixExpr ctx p, r ∈ file.references := by
  obtain ⟨hhome, n, hcode, hdescends⟩ := h
  refine ⟨⟨(ls.filterMap Layer.function?).map Enclosing.frame, home.around⟩, fun r hr => ?_⟩
  refine hhome.references_subset hcode ?_
  have hreaches := hdescends.reaches
  rw [Home.layers, List.filterMap_map, show Layer.function? ∘ Layer.function = some from rfl,
    List.filterMap_some] at hreaches
  exact hreaches.references_subset hr

/-- An identifier is a reference with the members that directly follow. -/
theorem HasIdentifier.reference {p : Postfix} {pos : Position} {name : String}
    (h : file.HasIdentifier p pos name) :
    ∃ ctx, ⟨⟨.ident, pos⟩, pos, name, p.memberChain, ctx⟩ ∈ file.references := by
  obtain ⟨hident, home, ls, hp⟩ := h
  obtain ⟨ctx, hsubset⟩ := hp.exists_context
  refine ⟨ctx, hsubset _ ?_⟩
  rw [References.postfixExpr_eq, hident, References.primaryExpr]
  exact List.mem_cons_self

theorem HasTypeName.reference {key : ReferenceKey} {q : QualifiedName}
    (h : file.HasTypeName key q) : key.kind ≠ .ident ∧
      ∃ ctx, Reference.ofType key.kind key.pos q ctx ∈ file.references := by
  cases h with
  | newBare hp hnew | newCall hp hnew =>
      obtain ⟨ctx, hsubset⟩ := hp.exists_context
      refine ⟨ReferenceKind.noConfusion, ctx, hsubset _ ?_⟩
      rw [References.postfixExpr_eq, hnew, References.primaryExpr]
      exact List.mem_cons_self
  | base hd hc hq => exact ⟨ReferenceKind.noConfusion, .outer, base_mem_references hd hc hq⟩

theorem HasIdentifier.name_ne_empty {text : String} (hparse : parse text = .ok file) {p : Postfix}
    {pos : Position} {name : String} (h : file.HasIdentifier p pos name) : name ≠ "" := by
  obtain ⟨hident, home, ls, hp⟩ := h
  refine ne_empty_of_mem_spelling hparse (hp.mem_spelling (Fragment.words_primary ?_))
  rw [hident, Spelling.primary]
  exact List.mem_singleton_self name

theorem HasTypeName.first_ne_empty {text : String} (hparse : parse text = .ok file)
    {key : ReferenceKey} {q : QualifiedName} (h : file.HasTypeName key q) : q.first ≠ "" := by
  have hfirst : q.first ∈ Spelling.qualified q := List.mem_cons_self
  refine ne_empty_of_mem_spelling hparse ?_
  cases h with
  | newBare hp hnew =>
      refine hp.mem_spelling (Fragment.words_primary ?_)
      rw [hnew, Spelling.primary]
      exact List.mem_cons_of_mem _ hfirst
  | newCall hp hnew =>
      refine hp.mem_spelling (Fragment.words_primary ?_)
      rw [hnew, Spelling.primary]
      exact List.mem_append_left _ (List.mem_append_left _ (List.mem_cons_of_mem _ hfirst))
  | base hd hc hq => exact mem_spelling_base hd hc hq hfirst

/-- Whatever a file refers to is an identifier or the name of a type. -/
theorem exists_name {r : Reference} (hr : r ∈ file.references) :
    (∃ p pos name, file.HasIdentifier p pos name ∧ r.key = ⟨.ident, pos⟩) ∨
      ∃ q, file.HasTypeName r.key q := by
  by_cases hkind : r.key.kind = .base
  · obtain ⟨d, hd, c, q, hc, hq, hkey⟩ := exists_base hr hkind
    exact Or.inr ⟨q, hkey ▸ .base hd hc hq⟩
  · obtain ⟨home, ⟨key, name, ls⟩, ⟨p, hp, hrefers⟩, hkey⟩ := exists_useAt hr hkind
    rw [← hkey]
    dsimp only at hp hrefers ⊢
    clear hkey
    generalize hprimary : p.primary = primary at hrefers
    cases hrefers with
    | ident => exact Or.inl ⟨p, _, _, ⟨hprimary, home, ls, hp⟩, rfl⟩
    | newBare => exact Or.inr ⟨_, .newBare hp hprimary⟩
    | newCall => exact Or.inr ⟨_, .newCall hp hprimary⟩

end File
end Script

namespace Emit

open Script (parse File Position Postfix QualifiedName ReferenceKey)
open Resolve (Binding Module Spells)

/-- What an identifier with its suffixes is printed as: its meaning takes up members that directly
follow, and all other suffixes are printed behind it. -/
structure TakesMembers (table : SymbolTable) (m : Module) (p : Postfix) (name : String)
    (b : Binding) : Prop where
  bounded : b.consume ≤ p.memberChain.length
  printed : ∃ taken rest, p.suffixes = taken ++ rest ∧
    taken.map (·.member?) = (p.memberChain.take b.consume).map some ∧
    ∀ d, postfixExpr (.ofModule m) d p =
      target b.target ++ suffixParts (.ofModule m) d 0 rest ++ p.update.toList.map .word
  spelled : ∀ s, b.target = .external s → 0 < b.consume →
    Spells table m.source.file (name :: p.memberChain) (b.consume + 1) s

/-- What the name of a type is printed as: its meaning takes up parts from the first one on, and all
other parts are printed behind it. -/
structure TakesParts (table : SymbolTable) (m : Module) (key : ReferenceKey) (q : QualifiedName)
    (b : Binding) : Prop where
  positive : 1 ≤ b.consume
  bounded : b.consume ≤ q.parts.length
  printed : ∃ taken rest, q.parts = taken ++ rest ∧ taken.length = b.consume ∧
    typeName (.ofModule m) key q =
      target b.target ++ rest.flatMap fun part => [.word ".", .word part]
  spelled : ∀ s, b.target = .external s → 1 < b.consume →
    Spells table m.source.file q.parts b.consume s

/-- Every binding of a resolved file belongs to an identifier or to the name of a type, and takes up
what it stands for. -/
structure TakesQualifiedNames (table : SymbolTable) (file : File) (m : Module) : Prop where
  sites : ∀ key b, m.binding? key = some b →
    (∃ p pos name, file.HasIdentifier p pos name ∧ key = ⟨.ident, pos⟩) ∨
      ∃ q, file.HasTypeName key q
  identifiers : ∀ p pos name, file.HasIdentifier p pos name →
    ∃ b, m.binding? ⟨.ident, pos⟩ = some b ∧ TakesMembers table m p name b
  typeNames : ∀ key q, file.HasTypeName key q →
    ∃ b, m.binding? key = some b ∧ TakesParts table m key q b

theorem suffixParts_eq_drop (m : Meaning) (d n : Nat) (suffixes : List Script.Suffix) :
    suffixParts m d n suffixes = suffixParts m d 0 (suffixes.drop n) := by
  induction suffixes generalizing n with
  | nil => rw [List.drop_nil, suffixParts, suffixParts]
  | cons suffix suffixes ih =>
      cases n with
      | zero => rfl
      | succ n => rw [suffixParts, ih, List.drop_succ_cons]

theorem dotted_behind (part : String) (parts : List String) :
    dotted (part :: parts) = .word part :: parts.flatMap fun next => [.word ".", .word next] := by
  induction parts generalizing part with
  | nil => rfl
  | cons next parts ih =>
      rw [dotted, ih, List.flatMap_cons]
      · rfl
      · exact List.cons_ne_nil next parts

theorem typeName_of_binding? {m : Module} {key : ReferenceKey} {b : Binding}
    (hb : m.binding? key = some b) (q : QualifiedName) : typeName (.ofModule m) key q =
      target b.target ++ (q.parts.drop b.consume).flatMap fun part => [.word ".", .word part] := by
  have hmeaning : (Meaning.ofModule m).binding? key = some b := hb
  rw [typeName, hmeaning]
  dsimp only
  cases q.parts.drop b.consume with
  | nil => simp
  | cons part parts => simp [dotted_behind]

theorem postfixExpr_of_binding? {m : Module} {p : Postfix} {pos : Position} {name : String}
    {b : Binding} (hident : p.primary = .ident pos name) (hb : m.binding? ⟨.ident, pos⟩ = some b)
    (d : Nat) : postfixExpr (.ofModule m) d p = target b.target ++
      suffixParts (.ofModule m) d 0 (p.suffixes.drop b.consume) ++ p.update.toList.map .word := by
  obtain ⟨primary, suffixes, update⟩ := p
  cases hident
  have hmeaning : (Meaning.ofModule m).binding? ⟨.ident, pos⟩ = some b := hb
  rw [postfixExpr, hmeaning]
  dsimp only
  rw [suffixParts_eq_drop _ d b.consume]

section

variable {files : List (ModuleId × File)} {text : String} {source : Source} {m : Module}
  (hparse : parse text = .ok source.file) (hrun : Resolve.run source (.ofFiles files) = .ok m)
include hparse hrun

/-- The meaning of a reference of a parsed file, in an environment with the table. -/
theorem exists_bind {r : Script.Reference} (hr : r ∈ source.file.references) :
    ∃ env b, env.table = SymbolTable.ofFiles files ∧ env.package = source.file.packageName ∧
      m.binding? r.key = some b ∧ Resolve.Environment.bind env r = .ok b := by
  obtain ⟨env, htable, hpackage, _, _, _, hbind⟩ := Resolve.run_eq_ok hrun
  obtain ⟨l, hl, rfl, hbinding⟩ := Resolve.exists_link hparse hrun hr
  exact ⟨env, l.binding, htable, hpackage, hbinding, hbind l hl⟩

theorem takesMembers {p : Postfix} {pos : Position} {name : String}
    (h : source.file.HasIdentifier p pos name) : ∃ b, m.binding? ⟨.ident, pos⟩ = some b ∧
      TakesMembers (.ofFiles files) m p name b := by
  obtain ⟨ctx, hr⟩ := h.reference
  obtain ⟨env, b, htable, hpackage, hb, hbind⟩ := exists_bind hparse hrun hr
  have hhomed : env.table.Homed := htable ▸ SymbolTable.homed_ofFiles files
  obtain ⟨hbounded, hspelled⟩ :=
    Resolve.taken_of_identifier hhomed hpackage (h.name_ne_empty hparse) hbind
  refine ⟨b, hb, hbounded, ?_, ?_⟩
  · exact ⟨_, _, (List.take_append_drop b.consume p.suffixes).symm, Script.take_suffixes hbounded,
      postfixExpr_of_binding? h.1 hb⟩
  · rw [(Resolve.run_ok hrun).1, ← htable]
    exact hspelled

theorem takesParts {key : ReferenceKey} {q : QualifiedName} (h : source.file.HasTypeName key q) :
    ∃ b, m.binding? key = some b ∧ TakesParts (.ofFiles files) m key q b := by
  obtain ⟨hkind, ctx, hr⟩ := h.reference
  obtain ⟨env, b, htable, hpackage, hb, hbind⟩ := exists_bind hparse hrun hr
  have hhomed : env.table.Homed := htable ▸ SymbolTable.homed_ofFiles files
  have htype : env.typeName (.ofType key.kind key.pos q ctx) = .ok b := by
    rw [Resolve.Environment.bind] at hbind
    split at hbind
    · next hident => exact absurd hident hkind
    · exact hbind
    · exact hbind
  obtain ⟨hpositive, hbounded, hspelled⟩ :=
    Resolve.taken_of_typeName hhomed hpackage (h.first_ne_empty hparse) htype
  refine ⟨b, hb, hpositive, hbounded, ?_, ?_⟩
  · exact ⟨_, _, (List.take_append_drop b.consume q.parts).symm, List.length_take_of_le hbounded,
      typeName_of_binding? hb q⟩
  · rw [(Resolve.run_ok hrun).1, ← htable]
    exact hspelled

/-- In a resolved file every binding takes up members that directly follow an identifier, or parts
of the name of a type; if it stands for a qualified name they spell it, and printing leaves out
nothing else. -/
theorem takesQualifiedNames_of_run : TakesQualifiedNames (.ofFiles files) source.file m where
  sites key b hb := by
    obtain ⟨r, hr, rfl⟩ := Resolve.exists_reference_of_binding? hrun hb
    exact Script.File.exists_name hr
  identifiers _ _ _ := takesMembers hparse hrun
  typeNames _ _ := takesParts hparse hrun

end

/-- A superclass, a chain of members that an index ends, and a type with one more part, all of them
by qualified names. -/
def qualifiedText : String :=
  "package app \x7bclass C extends lib.Open \x7bfunction m() " ++
    "\x7breturn lib.Open.of[0].x(new lib.Open.Part);\x7d\x7d\x7d"

theorem takesQualifiedNames_of_text : ∃ source m, parse qualifiedText = .ok source.file ∧
    Resolve.run source (.ofFiles Resolve.packageFiles) = .ok m ∧
    m.links.map (fun l => (l.reference.key.kind, l.reference.parts, l.binding.consume)) =
      [(.base, ["lib", "Open"], 2), (.ident, ["lib", "Open", "of"], 1),
        (.create, ["lib", "Open", "Part"], 2)] ∧
    TakesQualifiedNames (.ofFiles Resolve.packageFiles) source.file m := by
  have hall : ((parse qualifiedText).toOption.any fun file =>
      (Resolve.run ⟨"C.as", file⟩ (.ofFiles Resolve.packageFiles)).toOption.any fun m =>
        m.links.map (fun l => (l.reference.key.kind, l.reference.parts, l.binding.consume)) =
          [(.base, ["lib", "Open"], 2), (.ident, ["lib", "Open", "of"], 1),
            (.create, ["lib", "Open", "Part"], 2)]) = true := by
    decide +kernel
  obtain ⟨file, hparse, hall⟩ := Script.exists_ok_of_any hall
  obtain ⟨m, hrun, hlinks⟩ := Script.exists_ok_of_any hall
  exact ⟨⟨"C.as", file⟩, m, hparse, hrun, of_decide_eq_true hlinks,
    takesQualifiedNames_of_run hparse hrun⟩

end Emit
end ScriptWeave
