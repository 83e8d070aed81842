import ScriptWeave.Proofs.Script.Homes
import ScriptWeave.Proofs.Script.Spelling
import ScriptWeave.Proofs.Script.Words

/-!
The words of code that stands inside of other code are among the words around it, and so among those
of the whole file. A word of a parsed file is a lexeme of the text, so no name is empty.
-/

namespace ScriptWeave
namespace Script

open Fragment

theorem Spelling.mem_separated {parts : List (List String)} {part : List String} (h : part ∈ parts)
    {w : String} (hw : w ∈ part) : w ∈ separated parts := by
  cases parts with
  | nil => cases h
  | cons first parts =>
      obtain rfl | h := List.mem_cons.1 h
      · exact List.mem_append_left _ hw
      · exact List.mem_append_right _ (List.mem_flatMap.2 ⟨part, h, List.mem_cons_of_mem _ hw⟩)

theorem Spelling.mem_exprs {es : List Expr} {e : Expr} (he : e ∈ es) {w : String}
    (hw : w ∈ expr e) : w ∈ exprs es := by
  rw [exprs_eq]
  exact mem_separated (List.mem_map.2 ⟨e, he, rfl⟩) hw

namespace Fragment

/-- The words that a fragment is spelled with. -/
def words : Fragment → List String
  | expr e => Spelling.expr e
  | conditional c => Spelling.conditional c
  | binary b => Spelling.binary b
  | operand p => Spelling.postfixExpr p
  | block b => Spelling.block b
  | stmt s => Spelling.stmt s
  | varDecl d => Spelling.varDecl d
  | handler clause => Spelling.catchClause clause

theorem words_suffix {p : Postfix} {suffix : Suffix} (h : suffix ∈ p.suffixes) {w : String}
    (hw : w ∈ Spelling.suffixPart suffix) : w ∈ (operand p).words := by
  obtain ⟨primary, suffixes, update⟩ := p
  rw [words, Spelling.postfixExpr, Spelling.suffixParts_eq]
  exact List.mem_append_left _ (List.mem_append_right _ (List.mem_flatMap.2 ⟨suffix, h, hw⟩))

theorem words_primary {p : Postfix} {w : String} (hw : w ∈ Spelling.primary p.primary) :
    w ∈ (operand p).words := by
  obtain ⟨primary, suffixes, update⟩ := p
  rw [words, Spelling.postfixExpr]
  exact List.mem_append_left _ (List.mem_append_left _ hw)

theorem Part.mem_words {n n' : Fragment} (h : Part n n') {w : String} (hw : w ∈ n'.words) :
    w ∈ n.words := by
  cases h
  case head b =>
    obtain ⟨⟨pos, ops, p⟩, tail⟩ := b
    simp only [words] at hw ⊢
    simp only [Spelling.binary, Spelling.unary, List.mem_append, hw, or_true, true_or]
  case tail b term hterm =>
    obtain ⟨head, tail⟩ := b
    obtain ⟨pos, op, ⟨pos', ops, p⟩⟩ := term
    rw [words, Spelling.binary, Spelling.opTerms_eq]
    refine List.mem_append_right _ (List.mem_flatMap.2 ⟨_, hterm, ?_⟩)
    exact List.mem_cons_of_mem _ (List.mem_append_right _ hw)
  case key hkey =>
    refine words_suffix hkey ?_
    exact List.mem_cons_of_mem _ (List.mem_append_left _ hw)
  case argument e hcall he =>
    refine words_suffix hcall ?_
    exact List.mem_cons_of_mem _ (List.mem_append_left _ (Spelling.mem_exprs he hw))
  case created type args e hnew he =>
    refine words_primary ?_
    rw [hnew, Spelling.primary]
    refine List.mem_append_left _ (List.mem_append_right _ (List.mem_cons_of_mem _ ?_))
    exact Spelling.mem_exprs he hw
  case element e harray he =>
    refine words_primary ?_
    rw [harray, Spelling.primary]
    exact List.mem_cons_of_mem _ (List.mem_append_left _ (Spelling.mem_exprs he hw))
  case property q hobject hq =>
    obtain ⟨pos, key, value⟩ := q
    refine words_primary ?_
    rw [hobject, Spelling.primary, Spelling.properties_eq]
    refine List.mem_cons_of_mem _ (List.mem_append_left _ ?_)
    refine Spelling.mem_separated (List.mem_map.2 ⟨_, hq, rfl⟩) ?_
    exact List.mem_cons_of_mem _ (List.mem_cons_of_mem _ hw)
  case inner hparen =>
    refine words_primary ?_
    rw [hparen, Spelling.primary]
    exact List.mem_cons_of_mem _ (List.mem_append_left _ hw)
  case item body s hs =>
    obtain ⟨pos, stmts⟩ := body
    rw [words, Spelling.block, Spelling.stmts_eq]
    refine List.mem_cons_of_mem _ (List.mem_append_left _ ?_)
    exact List.mem_flatMap.2 ⟨s, hs, hw⟩
  case initial d e hvalue =>
    obtain ⟨pos, isConst, name, type, value⟩ := d
    cases hvalue
    simp only [words] at hw ⊢
    simp only [Spelling.varDecl, Spelling.defaultValue, List.mem_append, List.mem_cons, hw, or_true]
  case handled clause =>
    obtain ⟨pos, name, type, body⟩ := clause
    simp only [words] at hw ⊢
    simp only [Spelling.catchClause, List.mem_append, List.mem_cons, hw, or_true]
  all_goals
    simp only [words] at hw ⊢
    simp only [Spelling.expr, Spelling.conditional, Spelling.stmt, Spelling.exprOption,
      Spelling.otherwise, Spelling.initOption, Spelling.forInit, Spelling.handling,
      Spelling.finishing, List.mem_append, List.mem_cons, hw, true_or, or_true]

end Fragment

variable {n m : Fragment} {w : String}

theorem Enclosing.Part.mem_words {f : Enclosing} (h : f.Part n) (hw : w ∈ n.words) :
    w ∈ Spelling.params f.params ∨ w ∈ Spelling.block f.body := by
  cases h with
  | @default p e hp he =>
      obtain ⟨pos, name, type, value⟩ := p
      cases he
      refine Or.inl ?_
      rw [Spelling.params_eq]
      refine Spelling.mem_separated (List.mem_map.2 ⟨_, hp, rfl⟩) ?_
      exact List.mem_append_right _ (List.mem_cons_of_mem _ hw)
  | body => exact Or.inr hw

theorem Descends.mem_words {ls ks : List Layer} (h : Descends ls n ks m) (hw : w ∈ m.words) :
    w ∈ n.words := by
  induction h with
  | here => exact hw
  | part _ hpart _ ih => exact hpart.mem_words (ih hw)
  | handled _ ih => exact Part.handled.mem_words (ih hw)
  | literal hp hn _ ih =>
      refine words_primary ?_
      rw [hp, Spelling.primary]
      cases hn.mem_words (ih hw) with
      | inl hparams => simp only [List.mem_append, List.mem_cons, hparams, or_true, true_or]
      | inr hbody => simp only [List.mem_append, List.mem_cons, hbody, or_true]

theorem mem_spelling_function {f : Function} (h : (Enclosing.ofFunction f).Part n)
    (hw : w ∈ n.words) : w ∈ Spelling.function f := by
  rw [Spelling.function]
  obtain hparams | hbody : w ∈ Spelling.params f.params ∨ w ∈ Spelling.block f.body :=
    h.mem_words hw
  · simp only [List.mem_append, List.mem_cons, hparams, or_true, true_or]
  · exact List.mem_append_right _ hbody

namespace File

variable {file : File}

theorem mem_spelling_decl {d : Decl} (hd : d ∈ file.decls) (hw : w ∈ Spelling.decl d) :
    w ∈ Spelling.file file := by
  rw [Spelling.file]
  exact List.mem_append_left _ (List.mem_append_right _ (List.mem_flatMap.2 ⟨d, hd, hw⟩))

theorem mem_spelling_type {d : Decl} {c : Class} (hd : d ∈ file.decls) (hc : d.body = .type c)
    (hw : w ∈ Spelling.type c) : w ∈ Spelling.file file := by
  refine mem_spelling_decl hd ?_
  rw [Spelling.decl, hc]
  exact List.mem_append_right _ hw

theorem mem_spelling_member {d : Decl} {c : Class} {m : Member} (hd : d ∈ file.decls)
    (hc : d.body = .type c) (hm : m ∈ c.members) (hw : w ∈ Spelling.member m) :
    w ∈ Spelling.file file := by
  refine mem_spelling_type hd hc ?_
  rw [Spelling.type]
  exact List.mem_append_left _ (List.mem_append_right _ (List.mem_cons_of_mem _
    (List.mem_flatMap.2 ⟨m, hm, hw⟩)))

theorem Has.mem_spelling {home : Home} (h : file.Has home) (hn : home.Code n) (hw : w ∈ n.words) :
    w ∈ Spelling.file file := by
  cases h with
  | global hd hv =>
      cases hn
      refine mem_spelling_decl hd ?_
      rw [Spelling.decl, hv]
      exact List.mem_append_right _ (List.mem_append_left _ hw)
  | function hd hf =>
      refine mem_spelling_decl hd ?_
      rw [Spelling.decl, hf]
      exact List.mem_append_right _ (mem_spelling_function hn hw)
  | method hd hc hm hf =>
      refine mem_spelling_member hd hc hm ?_
      rw [Spelling.member, hf]
      exact List.mem_append_right _ (mem_spelling_function hn hw)
  | field hd hc hm _ hv =>
      cases hn
      refine mem_spelling_member hd hc hm ?_
      rw [Spelling.member, hv]
      exact List.mem_append_right _ (List.mem_append_left _ hw)

/-- The words of an operand are words of its file. -/
theorem HasOperand.mem_spelling {home : Home} {ls : List Layer} {p : Postfix}
    (h : file.HasOperand home ls p) (hw : w ∈ Spelling.postfixExpr p) : w ∈ Spelling.file file := by
  obtain ⟨hhome, n, hcode, hdescends⟩ := h
  exact hhome.mem_spelling hcode (hdescends.mem_words hw)

theorem mem_spelling_base {d : Decl} {c : Class} {q : QualifiedName} (hd : d ∈ file.decls)
    (hc : d.body = .type c) (hq : c.base = some q) (hw : w ∈ Spelling.qualified q) :
    w ∈ Spelling.file file := by
  refine mem_spelling_type hd hc ?_
  rw [Spelling.type, hq, Spelling.extending]
  simp only [List.mem_append, List.mem_cons, hw, or_true, true_or]

/-- No word of a parsed file is empty. -/
theorem ne_empty_of_mem_spelling {text : String} (hparse : parse text = .ok file)
    (hw : w ∈ Spelling.file file) : w ≠ "" := by
  obtain ⟨all, stop, hscan, _, hspelling, _⟩ := parse_spelled text file hparse
  rw [hspelling] at hw
  obtain ⟨t, ht, rfl⟩ := List.mem_map.1 hw
  obtain ⟨hall, hlayout⟩ := List.mem_filter.1 ht
  intro hempty
  have hkind := Lexer.kind?_of_scan hscan t hall (by simpa using hlayout)
  rw [hempty] at hkind
  cases hkind

end File
end Script
end ScriptWeave
