import ScriptWeave.Emit.Printer

/-!
The symbols that printed code refers to. Printing writes words and blanks of its own and takes every
symbol from the meaning of a reference, so a property of the symbols that the meaning knows is one
of all symbols in the printed pieces.
-/

namespace ScriptWeave
namespace Emit

open Script
open Piece (space newline indent line commas words)
open Resolve (Target)

namespace Piece

variable {P : Symbol → Prop}

/-- The pieces refer only to symbols with the property. -/
def Within (P : Symbol → Prop) (pieces : List Piece) : Prop := ∀ s ∈ symbols pieces, P s

@[simp] theorem within_nil : Within P [] := by
  intro s hs
  exact absurd hs List.not_mem_nil

@[simp] theorem within_word_cons (text : String) (pieces : List Piece) :
    Within P (word text :: pieces) ↔ Within P pieces := Iff.rfl

@[simp] theorem within_space_cons (pieces : List Piece) :
    Within P (space :: pieces) ↔ Within P pieces := Iff.rfl

@[simp] theorem within_newline_cons (pieces : List Piece) :
    Within P (newline :: pieces) ↔ Within P pieces := Iff.rfl

@[simp] theorem within_indent_cons (depth : Nat) (pieces : List Piece) :
    Within P (indent depth :: pieces) ↔ Within P pieces := Iff.rfl

@[simp] theorem within_external (s : Symbol) : Within P [external s] ↔ P s := by
  simp [Within, symbols, symbol?]

@[simp] theorem within_append (xs ys : List Piece) :
    Within P (xs ++ ys) ↔ Within P xs ∧ Within P ys := by
  simp only [Within, symbols, List.filterMap_append, List.mem_append]
  constructor
  · intro h
    exact ⟨fun s hs => h s (Or.inl hs), fun s hs => h s (Or.inr hs)⟩
  · intro h s hs
    cases hs with
    | inl hs => exact h.1 s hs
    | inr hs => exact h.2 s hs

@[simp] theorem within_line (depth : Nat) (pieces : List Piece) :
    Within P (line depth pieces) ↔ Within P pieces := by
  simp [line]

@[simp] theorem within_map_word (texts : List String) : Within P (texts.map word) := by
  induction texts with
  | nil => exact within_nil
  | cons text texts ih => exact ih

@[simp] theorem within_words (texts : List String) : Within P (words texts) :=
  within_map_word texts

theorem within_commas {parts : List (List Piece)} (h : ∀ part ∈ parts, Within P part) :
    Within P (commas parts) := by
  fun_induction commas parts with
  | case1 => exact within_nil
  | case2 part => exact h part (List.mem_singleton_self part)
  | case3 part parts hparts ih =>
      rw [within_append, within_append]
      refine ⟨⟨h part List.mem_cons_self, by simp⟩, ?_⟩
      exact ih fun x hx => h x (List.mem_cons_of_mem _ hx)

theorem within_flatMap {α : Type} {xs : List α} {f : α → List Piece}
    (h : ∀ x ∈ xs, Within P (f x)) : Within P (xs.flatMap f) := by
  induction xs with
  | nil => exact within_nil
  | cons x xs ih =>
      rw [List.flatMap_cons, within_append]
      exact ⟨h x List.mem_cons_self, ih fun y hy => h y (List.mem_cons_of_mem _ hy)⟩

end Piece

open Piece (Within)

@[simp] theorem within_dotted {P : Symbol → Prop} (parts : List String) :
    Within P (dotted parts) := by
  fun_induction dotted parts with
  | case1 => exact Piece.within_nil
  | case2 part => exact Piece.within_nil
  | case3 part parts hparts ih => exact ih

@[simp] theorem within_startValue {P : Symbol → Prop} (type : Option TypeRef) :
    Within P (startValue type) := by
  simp only [startValue]
  split
  · split <;> simp
  · simp

@[simp] theorem within_unaryOps {P : Symbol → Prop} (ops : List String) :
    Within P (unaryOps ops) := by
  fun_induction unaryOps ops <;> simp_all

@[simp] theorem within_paramList {P : Symbol → Prop} (params : List Param) :
    Within P (paramList params) := by
  have hnames : Within P (commas (params.map fun p => [.word p.name])) := by
    apply Piece.within_commas
    intro part hpart
    obtain ⟨p, _, rfl⟩ := List.mem_map.1 hpart
    simp
  simp [paramList, hnames]

/-- Some reference means the symbol. -/
def Meaning.Knows (m : Meaning) (s : Symbol) : Prop :=
  ∃ key b, m.binding? key = some b ∧ b.target = .external s

variable {m : Meaning}

theorem within_target {key : ReferenceKey} {b : Resolve.Binding} (hb : m.binding? key = some b) :
    Within m.Knows (target b.target) := by
  cases htarget : b.target with
  | here name | builtin name => simp [target]
  | «instance» name type captured | static name type => simp [target]
  | external s =>
      rw [target, Piece.within_external]
      exact ⟨key, b, hb, htarget⟩

@[simp] theorem within_typeName (key : ReferenceKey) (q : QualifiedName) :
    Within m.Knows (typeName m key q) := by
  rw [typeName]
  split
  · simp
  · next b hb =>
      have htarget := within_target hb
      split <;> simp [htarget]

mutual

theorem within_expr (d : Nat) (e : Expr) : Within m.Knows (expr m d e) := by
  cases e with
  | value cond =>
      rw [expr]
      exact within_conditional d cond
  | assign lhs op value =>
      simp [expr, within_conditional d lhs, within_expr d value]

theorem within_exprTail (d : Nat) (es : List Expr) : Within m.Knows (exprTail m d es) := by
  cases es with
  | nil => simp [exprTail]
  | cons e es => simp [exprTail, within_expr d e, within_exprTail d es]

theorem within_exprs (d : Nat) (es : List Expr) : Within m.Knows (exprs m d es) := by
  cases es with
  | nil => simp [exprs]
  | cons e es => simp [exprs, within_expr d e, within_exprTail d es]

theorem within_exprOption (d : Nat) (e : Option Expr) : Within m.Knows (exprOption m d e) := by
  cases e with
  | none => simp [exprOption]
  | some e =>
      rw [exprOption]
      exact within_expr d e

theorem within_conditional (d : Nat) (c : Conditional) : Within m.Knows (conditional m d c) := by
  cases c with
  | plain test =>
      rw [conditional]
      exact within_binary d test
  | choice test yes no =>
      simp [conditional, within_binary d test, within_expr d yes, within_expr d no]

theorem within_binary (d : Nat) (b : Binary) : Within m.Knows (binary m d b) := by
  cases b with
  | mk head tail => simp [binary, within_unary d head, within_opTerms d tail]

theorem within_opTerms (d : Nat) (terms : List OpTerm) : Within m.Knows (opTerms m d terms) := by
  cases terms with
  | nil => simp [opTerms]
  | cons term rest =>
      cases term with
      | mk pos op operand => simp [opTerms, within_unary d operand, within_opTerms d rest]

theorem within_unary (d : Nat) (u : Unary) : Within m.Knows (unary m d u) := by
  cases u with
  | mk pos ops operand => simp [unary, within_postfixExpr d operand]

theorem within_postfixExpr (d : Nat) (p : Postfix) : Within m.Knows (postfixExpr m d p) := by
  cases p with
  | mk primary suffixes update =>
      have hprimary := within_primaryExpr d primary
      have hsuffixes := fun n => within_suffixParts d n suffixes
      cases primary with
      | super pos => simp [postfixExpr, within_superExpr d suffixes]
      | ident pos name =>
          rw [postfixExpr, Piece.within_append]
          refine ⟨?_, Piece.within_map_word _⟩
          split
          · simp [hsuffixes]
          · next b hb => simp [within_target hb, hsuffixes]
      | _ => simp [postfixExpr, hprimary, hsuffixes]

theorem within_superExpr (d : Nat) (suffixes : List Suffix) :
    Within m.Knows (superExpr m d suffixes) := by
  cases suffixes with
  | nil => simp [superExpr]
  | cons suffix rest =>
      have hrest := within_suffixParts d 0 rest
      cases suffix with
      | call pos args => simp [superExpr, within_exprTail d args, hrest]
      | index pos key => simp [superExpr, within_expr d key, hrest]
      | member pos name =>
          cases rest with
          | nil => simp [superExpr, hrest]
          | cons next rest =>
              cases next with
              | call pos args =>
                  simp [superExpr, within_exprTail d args, within_suffixParts d 0 rest]
              | index | member => simp [superExpr, hrest]

theorem within_suffixParts (d n : Nat) (suffixes : List Suffix) :
    Within m.Knows (suffixParts m d n suffixes) := by
  cases suffixes with
  | nil => simp [suffixParts]
  | cons suffix rest =>
      cases n with
      | succ n =>
          rw [suffixParts]
          exact within_suffixParts d n rest
      | zero =>
          cases suffix with
          | member pos name => simp [suffixParts, within_suffixParts d 0 rest]
          | index pos key =>
              simp [suffixParts, within_expr d key, within_suffixParts d 0 rest]
          | call pos args =>
              simp [suffixParts, within_exprs d args, within_suffixParts d 0 rest]

theorem within_primaryExpr (d : Nat) (p : Primary) : Within m.Knows (primaryExpr m d p) := by
  cases p with
  | number | string | bool | null | this | super | ident => simp [primaryExpr]
  | newBare pos type => simp [primaryExpr]
  | newCall pos type args => simp [primaryExpr, within_exprs d args]
  | function pos params result body =>
      simp [primaryExpr, within_defaults (d + 1) params, within_block d body]
  | array pos elements => simp [primaryExpr, within_exprs d elements]
  | object pos properties =>
      cases properties with
      | nil => simp [primaryExpr]
      | cons p ps => simp [primaryExpr, within_property d p, within_propertyTail d ps]
  | paren pos inner => simp [primaryExpr, within_expr d inner]

theorem within_property (d : Nat) (p : Property) : Within m.Knows (property m d p) := by
  cases p with
  | mk pos key value => simp [property, within_expr d value]

theorem within_propertyTail (d : Nat) (ps : List Property) :
    Within m.Knows (propertyTail m d ps) := by
  cases ps with
  | nil => simp [propertyTail]
  | cons p ps => simp [propertyTail, within_property d p, within_propertyTail d ps]

theorem within_defaults (d : Nat) (params : List Param) : Within m.Knows (defaults m d params) := by
  cases params with
  | nil => simp [defaults]
  | cons param rest =>
      cases param with
      | mk pos name type default =>
          cases default with
          | none =>
              rw [defaults]
              exact within_defaults d rest
          | some value => simp [defaults, within_expr (d + 1) value, within_defaults d rest]

theorem within_block (d : Nat) (b : Block) : Within m.Knows (block m d b) := by
  cases b with
  | mk pos body =>
      rw [block]
      exact within_stmts (d + 1) body

theorem within_stmts (d : Nat) (ss : List Stmt) : Within m.Knows (stmts m d ss) := by
  cases ss with
  | nil => simp [stmts]
  | cons s ss => simp [stmts, within_stmt false d s, within_stmts d ss]

theorem within_stmt (braced : Bool) (d : Nat) (s : Stmt) : Within m.Knows (stmt m braced d s) := by
  cases s with
  | block body =>
      rw [stmt]
      split <;> simp [within_block d body]
  | var decl => simp [stmt, within_varDecl _ decl]
  | returns pos value =>
      cases value with
      | none => simp [stmt]
      | some e => simp [stmt, within_expr _ e]
  | branch pos cond yes no =>
      simp [stmt, within_expr _ cond, within_stmt true _ yes, within_otherwise _ no]
  | whileLoop pos cond body => simp [stmt, within_expr _ cond, within_stmt true _ body]
  | forLoop pos init cond post body =>
      simp [stmt, within_forInit _ init, within_exprOption _ cond, within_exprOption _ post,
        within_stmt true _ body]
  | throws pos value => simp [stmt, within_expr _ value]
  | attempt pos body handler final =>
      simp [stmt, within_block _ body, within_catchOption _ handler, within_finallyOption _ final]
  | breaks | continues | empty => simp [stmt]
  | expr value => simp [stmt, within_expr _ value]

theorem within_otherwise (d : Nat) (s : Option Stmt) : Within m.Knows (otherwise m d s) := by
  cases s with
  | none => simp [otherwise]
  | some s =>
      have hs := within_stmt true d s
      cases s with
      | branch pos cond yes no =>
          simp [otherwise, within_expr d cond, within_stmt true d yes, within_otherwise d no]
      | _ => simp [otherwise, hs]

theorem within_forInit (d : Nat) (init : Option ForInit) : Within m.Knows (forInit m d init) := by
  cases init with
  | none => simp [forInit]
  | some init =>
      cases init with
      | var decl =>
          rw [forInit]
          exact within_varDecl d decl
      | expr value =>
          rw [forInit]
          exact within_expr d value

theorem within_catchOption (d : Nat) (handler : Option Catch) :
    Within m.Knows (catchOption m d handler) := by
  cases handler with
  | none => simp [catchOption]
  | some handler =>
      cases handler with
      | mk pos name type body => simp [catchOption, within_block d body]

theorem within_finallyOption (d : Nat) (final : Option Block) :
    Within m.Knows (finallyOption m d final) := by
  cases final with
  | none => simp [finallyOption]
  | some body => simp [finallyOption, within_block d body]

theorem within_varDecl (d : Nat) (v : VarDecl) : Within m.Knows (varDecl m d v) := by
  cases v with
  | mk pos isConst name type value =>
      cases value with
      | some value =>
          have hvalue := within_expr d value
          rw [varDecl]
          simpa using hvalue
      | none =>
          cases type with
          | none => simp [varDecl]
          | some type => simp [varDecl]

end

@[simp] theorem within_initialiser (d : Nat) (v : VarDecl) :
    Within m.Knows (initialiser m d v) := by
  rw [initialiser]
  split
  · exact within_expr d _
  · simp

theorem within_function (d : Nat) {header ending prologue : List Piece} (params : List Param)
    (body : Block) (hheader : Within m.Knows header) (hending : Within m.Knows ending)
    (hprologue : Within m.Knows prologue) :
    Within m.Knows (function m d header params body ending prologue) := by
  simp [function, hheader, hending, hprologue, within_defaults (d + 1) params, within_block d body]

@[simp] theorem within_saveReceiver (d : Nat) (needed : Bool) :
    Within m.Knows (saveReceiver d needed) := by
  rw [saveReceiver]
  split <;> simp

@[simp] theorem within_instanceFields (d : Nat) (c : Script.Class) :
    Within m.Knows (instanceFields m d c) := by
  apply Piece.within_flatMap
  intro member _
  split
  · split <;> simp
  · simp

@[simp] theorem within_staticFields (d : Nat) (c : Script.Class) :
    Within m.Knows (staticFields m d c) := by
  apply Piece.within_flatMap
  intro member _
  split
  · split <;> simp
  · simp

@[simp] theorem within_constructor (d : Nat) (c : Script.Class) :
    Within m.Knows (constructor m d c) := by
  rw [constructor]
  split
  · apply within_function <;> simp
  · split <;> simp

@[simp] theorem within_inheritance (d : Nat) (c : Script.Class) :
    Within m.Knows (inheritance d c) := by
  rw [inheritance]
  split <;> simp

@[simp] theorem within_methods (d : Nat) (c : Script.Class) : Within m.Knows (methods m d c) := by
  apply Piece.within_flatMap
  intro member _
  split
  · split
    · simp
    · apply within_function <;> simp
  · simp

theorem within_type (d : Nat) (c : Script.Class) : Within m.Knows (type m d c) := by
  rw [type]
  split <;> simp

theorem within_decl (d : Nat) (x : Decl) : Within m.Knows (decl m d x) := by
  rw [decl]
  split
  · exact within_type d _
  · apply within_function <;> simp
  · simp [within_varDecl]

/-- A printed file refers only to symbols that are the meaning of some reference. -/
theorem within_file (d : Nat) (f : File) : Within m.Knows (file m d f) := by
  apply Piece.within_flatMap
  intro x _
  exact within_decl d x

theorem Meaning.Knows.mem_uses {r : Resolve.Module} {s : Symbol}
    (h : (Meaning.ofModule r).Knows s) : s ∈ r.uses := by
  obtain ⟨key, b, hb, htarget⟩ := h
  obtain ⟨l, hl, hbinding⟩ := Option.map_eq_some_iff.1 hb
  refine List.mem_filterMap.2 ⟨l, List.mem_of_find?_eq_some hl, ?_⟩
  rw [Resolve.Link.symbol?, hbinding, htarget]

/-- The code of a resolved module refers only to symbols that the module uses. -/
theorem mem_uses_of_mem_symbols {r : Resolve.Module} {d : Nat} {s : Symbol}
    (h : s ∈ Piece.symbols (file (.ofModule r) d r.source.file)) : s ∈ r.uses :=
  (within_file d r.source.file s h).mem_uses

end Emit
end ScriptWeave
