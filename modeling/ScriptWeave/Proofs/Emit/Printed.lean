import ScriptWeave.Proofs.Emit.Layout

/-!
The printed text of a whole function: statements, with the braces that printing adds to their
bodies, and with them every production of a function.
-/

namespace ScriptWeave
namespace Emit

open Script Script.Lexeme
open Piece (space newline indent line commas words)
open Emit.Normal (Clean each_kind each_words each_listItems each_option each_defaulted)

variable {link : Symbol → String}

/-- Behind `else` a statement other than a condition stands between braces. -/
theorem laidStmt_of_braced {s : Stmt} (hs : ∀ pos cond yes no, s ≠ .branch pos cond yes no)
    (hplain : ∀ d, Written link (stmt .plain false d s) (Spelling.stmt (Normal.stmt s)) Anything)
    (hbraced : ∀ d, Written link (stmt .plain true d s) (inside (Normal.stmt s)) Anything) :
    LaidStmt link s := by
  refine ⟨hplain, hbraced, fun d => ?_⟩
  have hwords : Normal.chained (Normal.stmt s) = Normal.wrapped (Normal.stmt s) := by
    cases s with
    | branch pos cond yes no => exact absurd rfl (hs pos cond yes no)
    | _ => rfl
  have hpieces : otherwise .plain d (some s) =
      line d [.word "\x7d", space, .word "else", space, .word "\x7b"] ++ stmt .plain true d s
        ++ line d [.word "\x7d"] := by
    cases s with
    | branch pos cond yes no => exact absurd rfl (hs pos cond yes no)
    | _ => simp [otherwise]
  intro rest more _ hmore
  rw [hwords, hpieces, spelling_wrapped]
  simp only [chars_append, chars_line, chars_word, chars_space, chars_nil, List.append_assoc,
    List.cons_append, List.nil_append]
  exact .indent _ (.spaced (by decide) (.spaced (by decide) (.mark (by decide) (.newline
    (hbraced d _ _ trivial (.indent _ (.mark (by decide) (.newline hmore))))))))

/-- A statement with no braces of its own is printed between braces as elsewhere. -/
theorem written_braced {s : Stmt} (hs : ∀ b, s ≠ .block b)
    (hplain : ∀ d, Written link (stmt .plain false d s) (Spelling.stmt (Normal.stmt s)) Anything)
    (d : Nat) : Written link (stmt .plain true d s) (inside (Normal.stmt s)) Anything := by
  have hpieces : stmt .plain true d s = stmt .plain false (d + 1) s := by
    cases s with
    | block b => exact absurd rfl (hs b)
    | returns pos value => cases value <;> simp [stmt]
    | _ => simp [stmt]
  have hwords : inside (Normal.stmt s) = Spelling.stmt (Normal.stmt s) := by
    cases s with
    | block b => exact absurd rfl (hs b)
    | _ => rfl
  rw [hpieces, hwords]
  exact hplain (d + 1)

/-- Neither a block nor a condition. -/
def isSimple : Stmt → Bool
  | .block _ | .branch .. => false
  | _ => true

theorem laidStmt_of_plain {s : Stmt} (hs : isSimple s = true)
    (hplain : ∀ d, Written link (stmt .plain false d s) (Spelling.stmt (Normal.stmt s)) Anything) :
    LaidStmt link s := by
  have hblock : ∀ b, s ≠ .block b := by
    rintro b rfl
    cases hs
  have hbranch : ∀ pos cond yes no, s ≠ .branch pos cond yes no := by
    rintro pos cond yes no rfl
    cases hs
  exact laidStmt_of_braced hbranch hplain (written_braced hblock hplain)

/-- A line that ends a statement. -/
theorem written_line {pieces : List Piece} {words : List String}
    (h : Written link pieces words Ends) (d : Nat) :
    Written link (line d (pieces ++ [.word ";"])) (words ++ [";"]) Anything := by
  intro rest more _ hmore
  simp only [chars_line, chars_append, chars_word, chars_nil, List.append_assoc, List.cons_append,
    List.nil_append]
  exact .indent _ (h _ _ (ends_cons (by decide) _) (.mark (by decide) (.newline hmore)))

theorem written_word {w : String} (hw : (kind? w).isSome = true) :
    Written link [.word w] [w] Ends := by
  intro rest more hrest hmore
  rw [chars_word, chars_nil, List.append_nil]
  exact .apart hw hrest hmore

theorem written_keyword {pieces : List Piece} {words : List String} {w : String}
    (hw : (kind? w).isSome = true) (h : Written link pieces words Ends) :
    Written link ([.word w, space] ++ pieces) (w :: words) Ends := by
  intro rest more hrest hmore
  simp only [chars_word, chars_space, List.append_assoc, List.cons_append, List.nil_append]
  exact .spaced hw (h _ _ hrest hmore)

/-- The line that closes a body. -/
theorem written_closing (link : Symbol → String) (d : Nat) :
    Written link (line d [.word "\x7d"]) ["\x7d"] Anything := by
  intro rest more _ hmore
  simp only [chars_line, chars_word, chars_nil, List.append_assoc, List.cons_append,
    List.nil_append]
  exact .indent _ (.mark (by decide) (.newline hmore))

/-- The line that opens a body behind what stands between parentheses. -/
theorem lexed_head {w : String} {pieces : List Piece} {words : List String}
    (hw : (kind? w).isSome = true) (h : Written link pieces words Ends) {rest : List Char}
    {more : List String} (hmore : Lexed rest more) :
    Lexed (w.toList ++ ' ' :: ("(".toList ++ (chars link pieces ++ (")".toList ++ ' ' ::
        ("\x7b".toList ++ '\n' :: rest)))))
      (w :: "(" :: (words ++ ")" :: "\x7b" :: more)) :=
  .spaced hw (.mark (by decide) (h _ _ (ends_cons (by decide) _) (.mark (by decide) (.space
    (.mark (by decide) (.newline hmore))))))

theorem written_otherwise {no : Option Stmt} (h : ∀ s ∈ no, LaidStmt link s) (d : Nat) :
    Written link (otherwise .plain d no) ("\x7d" :: Spelling.otherwise (Normal.otherwise no))
      Anything := by
  cases no with
  | none =>
      rw [otherwise]
      exact written_closing link d
  | some s => exact (h s rfl).chained d

theorem laid_branch {pos : Position} {cond : Expr} {yes : Stmt} {no : Option Stmt}
    (hcond : Laid link .expr cond) (hyes : LaidStmt link yes) (hno : ∀ s ∈ no, LaidStmt link s) :
    LaidStmt link (.branch pos cond yes no) := by
  have hlexed : ∀ d {rest more}, Lexed rest more → Lexed ("if".toList ++ ' ' :: ("(".toList ++
      (chars link (expr .plain d cond) ++ (")".toList ++ ' ' :: ("\x7b".toList ++ '\n' ::
        (chars link (stmt .plain true d yes) ++ (chars link (otherwise .plain d no) ++ rest)))))))
      (Spelling.stmt (Normal.stmt (.branch pos cond yes no)) ++ more) := by
    intro d rest more hmore
    have hrest := hyes.braced d _ _ trivial (written_otherwise hno d _ _ trivial hmore)
    simpa [Normal.stmt_branch, Spelling.stmt, spelling_wrapped]
      using lexed_head (w := "if") (by decide) (hcond d) hrest
  have hplain : ∀ d, Written link (stmt .plain false d (.branch pos cond yes no))
      (Spelling.stmt (Normal.stmt (.branch pos cond yes no))) Anything := by
    intro d rest more _ hmore
    simp only [stmt, Bool.false_eq_true, if_false, chars_append, chars_line, chars_word,
      chars_space, chars_nil, List.append_assoc, List.cons_append, List.nil_append]
    exact .indent _ (hlexed d hmore)
  refine ⟨hplain, written_braced (by simp) hplain, fun d rest more _ hmore => ?_⟩
  simp only [otherwise, chars_append, chars_line, chars_word, chars_space, chars_nil,
    List.append_assoc, List.cons_append, List.nil_append]
  exact .indent _ (.spaced (by decide) (.spaced (by decide) (hlexed d hmore)))

theorem laid_while {pos : Position} {cond : Expr} {body : Stmt} (hcond : Laid link .expr cond)
    (hbody : LaidStmt link body) : LaidStmt link (.whileLoop pos cond body) := by
  refine laidStmt_of_plain rfl fun d rest more _ hmore => ?_
  have hrest := hbody.braced d _ _ trivial (written_closing link d _ _ trivial hmore)
  have hlexed := lexed_head (w := "while") (by decide) (hcond d) hrest
  simp only [stmt, Bool.false_eq_true, if_false, Normal.stmt_whileLoop, Spelling.stmt,
    spelling_wrapped,
    chars_append, chars_line, chars_word, chars_space, chars_nil, List.append_assoc,
    List.cons_append, List.nil_append] at hlexed ⊢
  exact .indent _ hlexed

theorem written_exprOption {value : Option Expr} (h : ∀ e ∈ value, Laid link .expr e) (d : Nat) :
    Written link (exprOption .plain d value) (Spelling.exprOption (Normal.exprOption value))
      Ends := by
  cases value with
  | none => exact fun _ _ _ h => h
  | some e => exact h e rfl d

theorem written_forInit {init : Option ForInit} (h : ∀ i ∈ init, Laid link .forInit i) (d : Nat) :
    Written link (forInit .plain d init) (Spelling.initOption (Normal.forInitOption init))
      Ends := by
  cases init with
  | none => exact fun _ _ _ h => h
  | some i => exact h i rfl d

theorem laid_for {pos : Position} {init : Option ForInit} {cond post : Option Expr} {body : Stmt}
    (hinit : ∀ i ∈ init, Laid link .forInit i) (hcond : ∀ e ∈ cond, Laid link .expr e)
    (hpost : ∀ e ∈ post, Laid link .expr e) (hbody : LaidStmt link body) :
    LaidStmt link (.forLoop pos init cond post body) := by
  refine laidStmt_of_plain rfl fun d rest more _ hmore => ?_
  have hhead : Written link (forInit .plain d init ++ [Piece.word ";", space]
        ++ exprOption .plain d cond ++ [Piece.word ";", space] ++ exprOption .plain d post)
      (Spelling.initOption (Normal.forInitOption init) ++ ";" ::
        (Spelling.exprOption (Normal.exprOption cond) ++ ";" ::
          Spelling.exprOption (Normal.exprOption post))) Ends := by
    intro rest more hrest hmore
    simp only [chars_append, chars_word, chars_space, List.append_assoc, List.cons_append,
      List.nil_append]
    exact written_forInit hinit d _ _ (ends_cons (by decide) _) (.mark (by decide) (.space
      (written_exprOption hcond d _ _ (ends_cons (by decide) _) (.mark (by decide) (.space
        (written_exprOption hpost d _ _ hrest hmore))))))
  have hrest := hbody.braced d _ _ trivial (written_closing link d _ _ trivial hmore)
  have hlexed := lexed_head (w := "for") (by decide) hhead hrest
  simp only [stmt, Bool.false_eq_true, if_false, Normal.stmt_forLoop, Spelling.stmt,
    spelling_wrapped,
    chars_append, chars_line, chars_word, chars_space, chars_nil, List.append_assoc,
    List.cons_append, List.nil_append] at hlexed ⊢
  exact .indent _ hlexed

theorem written_finally {final : Option Block} (h : ∀ b ∈ final, Laid link .block b) (d : Nat) :
    Written link (finallyOption .plain d final ++ line d [.word "\x7d"])
      ("\x7d" :: Spelling.finishing (Normal.blockOption final)) Anything := by
  cases final with
  | none => exact written_closing link d
  | some b =>
      intro rest more _ hmore
      have hrest := h b rfl d _ _ trivial (written_closing link d _ _ trivial hmore)
      simp only [finallyOption, Normal.blockOption, Spelling.finishing, Spelling.block,
        chars_append, chars_line, chars_word, chars_space, chars_nil, List.append_assoc,
        List.cons_append, List.nil_append] at hrest ⊢
      exact .indent _ (.spaced (by decide) (.spaced (by decide) (.mark (by decide)
        (.newline hrest))))

theorem written_catch {handler : Option Catch} {final : Option Block}
    (hhandler : ∀ c ∈ handler, Laid link .catchClause c)
    (hfinal : ∀ b ∈ final, Laid link .block b) (d : Nat) :
    Written link (catchOption .plain d handler ++ (finallyOption .plain d final ++
        line d [.word "\x7d"]))
      ("\x7d" :: (Spelling.handling (Normal.catchOption handler) ++
        Spelling.finishing (Normal.blockOption final))) Anything := by
  have hlast := written_finally hfinal d
  cases handler with
  | none => exact hlast
  | some c =>
      obtain ⟨pos, name, type, body⟩ := c
      obtain ⟨hname, hbody⟩ := hhandler _ rfl
      have hword : (kind? name).isSome = true := by simp [show kind? name = _ from hname]
      intro rest more _ hmore
      have hrest := hbody d _ _ trivial (hlast _ _ trivial hmore)
      simp only [catchOption, Normal.catchOption, Normal.catchClause, Spelling.handling,
        Spelling.catchClause, Spelling.typeMark, Spelling.block, chars_append, chars_line,
        chars_word, chars_space, chars_nil, List.append_assoc, List.cons_append,
        List.nil_append] at hrest ⊢
      exact .indent _ (.spaced (by decide) (.spaced (by decide) (.mark (by decide)
        (.apart hword (ends_cons (by decide) _) (.mark (by decide) (.space (.mark (by decide)
          (.newline hrest))))))))

theorem laid_try {pos : Position} {body : Block} {handler : Option Catch} {final : Option Block}
    (hbody : Laid link .block body) (hhandler : ∀ c ∈ handler, Laid link .catchClause c)
    (hfinal : ∀ b ∈ final, Laid link .block b) :
    LaidStmt link (.attempt pos body handler final) := by
  refine laidStmt_of_plain rfl fun d rest more _ hmore => ?_
  have hrest := hbody d _ _ trivial (written_catch hhandler hfinal d _ _ trivial hmore)
  simp only [stmt, Bool.false_eq_true, if_false, Normal.stmt_attempt, Spelling.stmt, Spelling.block,
    chars_append, chars_line, chars_word, chars_space, chars_nil, List.append_assoc,
    List.cons_append, List.nil_append] at hrest ⊢
  exact .indent _ (.spaced (by decide) (.mark (by decide) (.newline hrest)))

theorem laid_block {body : Block} (h : Laid link .block body) : LaidStmt link (.block body) := by
  have hbraced : ∀ d, Written link (stmt .plain true d (.block body))
      (inside (Normal.stmt (.block body))) Anything := by
    intro d
    simpa [stmt, Normal.stmt_block, inside] using h d
  refine laidStmt_of_braced (by simp) (fun d rest more _ hmore => ?_) hbraced
  have hrest := h d _ _ trivial (written_closing link d _ _ trivial hmore)
  simp only [stmt, Bool.false_eq_true, if_false, Normal.stmt_block, Spelling.stmt, Spelling.block,
    chars_append, chars_line, chars_word, chars_nil, List.append_assoc, List.cons_append,
    List.nil_append] at hrest ⊢
  exact .indent _ (.mark (by decide) (.newline hrest))

theorem each_isSome {options : List Terminal} {t : Token}
    (h : options.any (·.accepts t) = true ∧ Clean t) : (kind? t.text).isSome = true :=
  Option.isSome_of_eq_some h.2.1

theorem written_startValue (type : TypeRef) :
    Written link (startValue (some type)) (Spelling.expr (Normal.startValue type)) Ends := by
  cases type with
  | any pos => exact written_word (w := "undefined") (by decide)
  | void pos => exact written_word (w := "undefined") (by decide)
  | named name =>
      rw [startValue]
      split
      · next htext =>
          rw [Normal.startValue, htext]
          exact written_word (w := "0") (by decide)
      · next htext =>
          rw [Normal.startValue, htext]
          exact written_word (w := "0") (by decide)
      · next htext =>
          rw [Normal.startValue, htext]
          exact written_word (w := "NaN") (by decide)
      · next htext =>
          rw [Normal.startValue, htext]
          exact written_word (w := "false") (by decide)
      · next hint huint hnumber hboolean =>
          rw [Normal.startValue]
          split
          · next htext => exact absurd htext hint
          · next htext => exact absurd htext huint
          · next htext => exact absurd htext hnumber
          · next htext => exact absurd htext hboolean
          · exact written_word (w := "null") (by decide)

theorem laid_varDecl {v : VarDecl} (hname : kind? v.name = some .ident)
    (h : ∀ e ∈ v.value, Laid link .expr e) : Laid link .varDecl v := by
  obtain ⟨pos, isConst, name, type, value⟩ := v
  have hword : (kind? name).isSome = true := by simp [show kind? name = _ from hname]
  have hinit : ∀ {pieces words}, Written link pieces words Ends →
      Written link
        ([Piece.word "var", space, Piece.word name, space, Piece.word "=", space] ++ pieces)
        ("var" :: name :: "=" :: words) Ends := by
    intro pieces words h rest more hrest hmore
    simp only [chars_word, chars_space, List.append_assoc, List.cons_append, List.nil_append]
    exact .spaced (by decide) (.spaced hword (.spaced (by decide) (h _ _ hrest hmore)))
  intro d
  cases value with
  | some e => cases type <;> exact hinit (h e rfl d)
  | none =>
      cases type with
      | some type => exact hinit (written_startValue type)
      | none =>
          intro rest more hrest hmore
          simp only [varDecl, chars_word, chars_space, chars_nil, List.append_assoc,
            List.cons_append, List.append_nil]
          exact .spaced (by decide) (.apart hword hrest hmore)

section

variable {pos : Position}

theorem laid_build_qualifiedName {value : Production.qualifiedName.body.Value}
    (h : Production.qualifiedName.body.Each Clean (Laid link) value) :
    Laid link .qualifiedName (Production.qualifiedName.build pos value) := by
  obtain ⟨hfirst, hrest, _⟩ := h
  refine written_dotted (each_kind hfirst) ?_
  intro part hpart
  obtain ⟨item, hitem, rfl⟩ := List.mem_map.1 hpart
  exact each_kind (hrest item hitem).2.1

theorem laid_build_expr {value : Production.expr.body.Value}
    (h : Production.expr.body.Each Clean (Laid link) value) :
    Laid link .expr (Production.expr.build pos value) := by
  obtain ⟨target, assignment, ⟨⟩⟩ := value
  obtain ⟨htarget, hassignment, _⟩ := h
  cases assignment with
  | none => exact htarget
  | some parts =>
      obtain ⟨op, e, ⟨⟩⟩ := parts
      obtain ⟨hop, he, _⟩ := hassignment
      intro d rest more hrest hmore
      simp only [Production.build, expr, Normal.expr, Spelling.expr, chars_append, chars_word,
        chars_space, List.append_assoc, List.cons_append, List.nil_append]
      exact htarget d _ _ (ends_cons (by decide) _) (.space (.spaced (each_isSome hop)
        (he d _ _ hrest hmore)))

theorem laid_build_conditional {value : Production.conditional.body.Value}
    (h : Production.conditional.body.Each Clean (Laid link) value) :
    Laid link .conditional (Production.conditional.build pos value) := by
  obtain ⟨test, choice, ⟨⟩⟩ := value
  obtain ⟨htest, hchoice, _⟩ := h
  cases choice with
  | none => exact htest
  | some parts =>
      obtain ⟨question, yes, colon, no, ⟨⟩⟩ := parts
      obtain ⟨_, hyes, _, hno, _⟩ := hchoice
      intro d rest more hrest hmore
      simp only [Production.build, conditional, Normal.conditional, Spelling.conditional,
        chars_append, chars_word, chars_space, List.append_assoc, List.cons_append,
        List.nil_append]
      exact htest d _ _ (ends_cons (by decide) _) (.space (.spaced (by decide)
        (hyes d _ _ (ends_cons (by decide) _) (.space (.spaced (by decide)
          (hno d _ _ hrest hmore))))))

theorem laid_build_binary {value : Production.binary.body.Value}
    (h : Production.binary.body.Each Clean (Laid link) value) :
    Laid link .binary (Production.binary.build pos value) := by
  obtain ⟨head, tail, ⟨⟩⟩ := value
  obtain ⟨hhead, htail, _⟩ := h
  intro d rest more hrest hmore
  obtain ⟨hterms, hends⟩ := written_opTerms htail d
  simp only [Production.build, binary, Normal.binary, Spelling.binary, chars_append,
    List.append_assoc]
  exact hhead d _ _ (hends rest hrest) (hterms _ _ hrest hmore)

theorem laid_build_unary {value : Production.unary.body.Value}
    (h : Production.unary.body.Each Clean (Laid link) value) :
    Laid link .unary (Production.unary.build pos value) := by
  obtain ⟨ops, operand, ⟨⟩⟩ := value
  obtain ⟨hops, hoperand, _⟩ := h
  have hall : ∀ op ∈ ops.map Token.text, op ∈ Script.unaryOps := by
    rw [List.forall_mem_map]
    exact fun op hop => each_words (hops op hop)
  intro d rest more hrest hmore
  obtain ⟨hwritten, hsolid⟩ := hoperand d
  simp only [Production.build, unary, Normal.unary, Spelling.unary, chars_append,
    List.append_assoc]
  exact written_unaryOps hall _ _ (hsolid.append rest) (hwritten _ _ hrest hmore)

theorem laid_build_postfixExpr {value : Production.postfixExpr.body.Value}
    (h : Production.postfixExpr.body.Each Clean (Laid link) value) :
    Laid link .postfixExpr (Production.postfixExpr.build pos value) := by
  obtain ⟨inner, suffixes, update, ⟨⟩⟩ := value
  obtain ⟨hinner, hsuffixes, hupdate, _⟩ := h
  have hop : ∀ op ∈ update.map Token.text, op ∈ updateOps := by
    intro op hop
    obtain ⟨t, rfl, rfl⟩ := Option.map_eq_some_iff.1 hop
    exact each_words hupdate
  obtain ⟨hlast, hstops⟩ := written_update link hop
  intro d
  obtain ⟨hparts, hstops'⟩ := written_suffixParts hsuffixes d
  rw [Production.build, postfixExpr_eq d hinner.ordinary]
  constructor
  · intro rest more hrest hmore
    simp only [Normal.postfixExpr, Spelling.postfixExpr, chars_append, List.append_assoc]
    exact hinner.written d _ _ (hstops' _ (hstops _ hrest)) (hparts _ _ (hstops _ hrest)
      (hlast _ _ hrest hmore))
  · rw [chars_append]
    exact (hinner.solid d).append _

theorem laid_build_opTerm {value : Production.opTerm.body.Value}
    (h : Production.opTerm.body.Each Clean (Laid link) value) :
    Laid link .opTerm (Production.opTerm.build pos value) := by
  obtain ⟨hop, hoperand, _⟩ := h
  intro d rest more hrest hmore
  simp only [Production.build, opTerms, Normal.opTerm, Spelling.opTerm, chars_word, chars_space,
    List.append_assoc, List.cons_append, List.nil_append, List.append_nil]
  exact .space (.spaced (each_isSome hop) (hoperand d _ _ hrest hmore))

theorem laid_build_suffixPart {value : Production.suffixPart.body.Value}
    (h : Production.suffixPart.body.Each Clean (Laid link) value) :
    Laid link .suffixPart (Production.suffixPart.build pos value) := by
  rcases value with ⟨_, t, ⟨⟩⟩ | ⟨_, e, _, ⟨⟩⟩ | ⟨_, args, _, ⟨⟩⟩ | ⟨⟨⟩⟩
  · have hname := each_kind h.2.1
    intro d
    simp only [Production.build, Sum.elim_inl, suffixParts, List.append_nil]
    constructor
    · intro rest more hrest hmore
      simp only [chars_word, chars_nil, List.append_assoc, List.nil_append]
      exact .mark (by decide) (.word hname hrest hmore)
    · intro rest
      simp only [chars_word, chars_nil, List.append_assoc, List.nil_append]
      exact stops_point hname rest
  · intro d
    simp only [Production.build, Sum.elim_inl, Sum.elim_inr, suffixParts, List.append_nil]
    have hwritten := written_enclosed (by decide : kind? "[" = _) (by decide : kind? "]" = _)
      (fun rest => ends_cons (by decide) rest) (h.2.1 d)
    refine ⟨fun rest more _ => hwritten rest more trivial, fun rest => ?_⟩
    simp only [chars_append, chars_word, List.append_assoc]
    exact (ends_cons (by decide) _).stops
  · intro d
    simp only [Production.build, Sum.elim_inl, Sum.elim_inr, suffixParts, List.append_nil]
    have hwritten := written_enclosed (by decide : kind? "(" = _) (by decide : kind? ")" = _)
      (fun rest => ends_cons (by decide) rest) (written_exprs (each_listItems h.2.1) d)
    refine ⟨fun rest more _ => hwritten rest more trivial, fun rest => ?_⟩
    simp only [chars_append, chars_word, List.append_assoc]
    exact (ends_cons (by decide) _).stops

theorem laid_build_primary {value : Production.primary.body.Value}
    (h : Production.primary.body.Each Clean (Laid link) value) :
    Laid link .primary (Production.primary.build pos value) := by
  rcases value with t | t | t | t | t | t | e | e | e | e | t | ⟨_, e, _, ⟨⟩⟩ | ⟨⟨⟩⟩
  · exact laidPrimary_word (fun d => rfl) rfl (each_kind h) (by decide) (fun _ h => by cases h)
  · exact laidPrimary_word (fun d => rfl) rfl (each_kind h) (by decide) (fun _ h => by cases h)
  · have hall : ∀ w ∈ ["true", "false"], kind? w = some .keyword := by decide
    exact laidPrimary_word (fun d => rfl) rfl (hall _ (each_words h)) (by decide)
      (fun _ h => by cases h)
  · have hnull : kind? "null" = some .keyword := by decide
    exact laidPrimary_word (fun d => rfl) rfl hnull (by decide) (fun _ h => by cases h)
  · have hthis : kind? "this" = some .keyword := by decide
    exact laidPrimary_word (fun d => rfl) rfl hthis (by decide) (fun _ h => by cases h)
  · exact absurd (List.mem_singleton.1 (each_words h)) h.2.2
  · exact h
  · exact h
  · exact h
  · exact h
  · exact laidPrimary_word (fun d => rfl) rfl (each_kind h) (by decide) (fun _ h => by cases h)
  · exact laid_enclosed (fun d => rfl) rfl (by decide) (by decide)
      (fun rest => ends_cons (by decide) rest) h.2.1 (fun _ h => by cases h)

theorem laid_build_newExpr {value : Production.newExpr.body.Value}
    (h : Production.newExpr.body.Each Clean (Laid link) value) :
    Laid link .newExpr (Production.newExpr.build pos value) := by
  obtain ⟨_, type, args, ⟨⟩⟩ := value
  obtain ⟨_, htype, hargs, _⟩ := h
  cases args with
  | none =>
      have hnone : ∀ arg ∈ ([] : List Expr), Laid link .expr arg := by simp
      refine laid_newExpr (fun d => ?_) rfl htype hnone (fun _ h => by cases h)
      simp only [Production.build, primaryExpr, typeName, Meaning.plain, exprs, words,
        List.map_cons, List.map_nil, chars_append, chars_word, chars_space, chars_nil,
        List.cons_append, List.nil_append, List.append_nil]
  | some args =>
      refine laid_newExpr (fun d => ?_) rfl htype (each_listItems hargs.2.1) (fun _ h => by cases h)
      simp only [Production.build, primaryExpr, typeName, chars_append, chars_word, chars_space,
        chars_nil, List.append_assoc, List.cons_append, List.nil_append, List.append_nil]
      rfl

theorem laid_build_property {value : Production.property.body.Value}
    (h : Production.property.body.Each Clean (Laid link) value) :
    Laid link .property (Production.property.build pos value) := by
  obtain ⟨hkey, _, hvalue, _⟩ := h
  intro d rest more hrest hmore
  simp only [Production.build, property, Normal.property, Spelling.property, chars_word,
    chars_space, List.append_assoc, List.cons_append, List.nil_append]
  exact .apart (each_isSome hkey) (ends_cons (by decide) _) (.mark (by decide) (.space
    (hvalue d _ _ hrest hmore)))

theorem laid_build_forInit {value : Production.forInit.body.Value}
    (h : Production.forInit.body.Each Clean (Laid link) value) :
    Laid link .forInit (Production.forInit.build pos value) := by
  rcases value with v | e | ⟨⟨⟩⟩
  · exact h
  · exact h

theorem laid_build_returnStmt {value : Production.returnStmt.body.Value}
    (h : Production.returnStmt.body.Each Clean (Laid link) value) :
    Laid link .returnStmt (Production.returnStmt.build pos value) := by
  obtain ⟨_, result, _, ⟨⟩⟩ := value
  obtain ⟨_, hresult, _, _⟩ := h
  refine laidStmt_of_plain rfl fun d => ?_
  cases result with
  | none => exact written_line (written_word (by decide : (kind? "return").isSome = true)) d
  | some e => exact written_line (written_keyword (by decide) (hresult d)) d

theorem laid_build_ifStmt {value : Production.ifStmt.body.Value}
    (h : Production.ifStmt.body.Each Clean (Laid link) value) :
    Laid link .ifStmt (Production.ifStmt.build pos value) := by
  obtain ⟨_, _, cond, _, yes, no, ⟨⟩⟩ := value
  obtain ⟨_, _, hcond, _, hyes, hno, _⟩ := h
  refine laid_branch hcond hyes fun s hs => ?_
  cases no with
  | none => cases hs
  | some other =>
      cases hs
      exact hno.2.1

theorem laid_build_throwStmt {value : Production.throwStmt.body.Value}
    (h : Production.throwStmt.body.Each Clean (Laid link) value) :
    Laid link .throwStmt (Production.throwStmt.build pos value) := by
  obtain ⟨_, hvalue, _, _⟩ := h
  exact laidStmt_of_plain rfl fun d =>
    written_line (written_keyword (by decide) (hvalue d)) d

theorem laid_build_tryStmt {value : Production.tryStmt.body.Value}
    (h : Production.tryStmt.body.Each Clean (Laid link) value) :
    Laid link .tryStmt (Production.tryStmt.build pos value) := by
  obtain ⟨_, body, handler, final, ⟨⟩⟩ := value
  obtain ⟨_, hbody, hhandler, hfinal, _⟩ := h
  refine laid_try hbody (each_option hhandler) fun b hb => ?_
  cases final with
  | none => cases hb
  | some last =>
      cases hb
      exact hfinal.2.1

theorem laid_build_stmt {value : Production.stmt.body.Value}
    (h : Production.stmt.body.Each Clean (Laid link) value) :
    Laid link .stmt (Production.stmt.build pos value) := by
  rcases value with b | ⟨v, _, ⟨⟩⟩ | s | s | s | s | s | s | ⟨_, _, ⟨⟩⟩ | ⟨_, _, ⟨⟩⟩ | t |
    ⟨e, _, ⟨⟩⟩ | ⟨⟨⟩⟩
  · exact laid_block h
  · exact laidStmt_of_plain rfl fun d => written_line (h.1 d) d
  · exact h
  · exact h
  · exact h
  · exact h
  · exact h
  · exact h
  · exact laidStmt_of_plain rfl fun d => written_line (written_word (by decide)) d
  · exact laidStmt_of_plain rfl fun d => written_line (written_word (by decide)) d
  · have hnone : Written link [] [] Ends := fun _ _ _ h => h
    exact laidStmt_of_plain rfl fun d => written_line hnone d
  · exact laidStmt_of_plain rfl fun d => written_line (h.1 d) d

end

theorem laid_build (p : Production) (pos : Position) {value : p.body.Value}
    (h : p.body.Each Clean (Laid link) value) : Laid link p (p.build pos value) := by
  cases p with
  | file | importDecl | decl | classDecl | member | typeRef => trivial
  | qualifiedName => exact laid_build_qualifiedName h
  | function =>
      obtain ⟨_, hname, _, hparams, _, _, hbody, _⟩ := h
      exact laid_function (each_kind hname) (each_listItems hparams) hbody
  | param =>
      obtain ⟨hname, _, hvalue, _⟩ := h
      exact ⟨each_kind hname, each_defaulted hvalue⟩
  | expr => exact laid_build_expr h
  | conditional => exact laid_build_conditional h
  | binary => exact laid_build_binary h
  | unary => exact laid_build_unary h
  | postfixExpr => exact laid_build_postfixExpr h
  | opTerm => exact laid_build_opTerm h
  | suffixPart => exact laid_build_suffixPart h
  | primary => exact laid_build_primary h
  | newExpr => exact laid_build_newExpr h
  | functionExpr =>
      obtain ⟨_, _, hparams, _, _, hbody, _⟩ := h
      exact laid_functionExpr pos _ (each_listItems hparams) hbody
  | arrayLiteral =>
      exact laid_enclosed (fun d => rfl) rfl (by decide) (by decide)
        (fun rest => ends_cons (by decide) rest) (written_exprs (each_listItems h.2.1))
        (fun _ h => by cases h)
  | objectLiteral => exact laid_object pos (each_listItems h.2.1)
  | property => exact laid_build_property h
  | block =>
      obtain ⟨_, ss, _, ⟨⟩⟩ := value
      exact fun d => written_stmts h.2.1 (d + 1)
  | varDecl =>
      obtain ⟨_, hname, _, hvalue, _⟩ := h
      exact laid_varDecl (each_kind hname) (each_defaulted hvalue)
  | forInit => exact laid_build_forInit h
  | returnStmt => exact laid_build_returnStmt h
  | ifStmt => exact laid_build_ifStmt h
  | whileStmt =>
      obtain ⟨_, _, hcond, _, hbody, _⟩ := h
      exact laid_while hcond hbody
  | forStmt =>
      obtain ⟨_, _, hinit, _, hcond, _, hpost, _, hbody, _⟩ := h
      exact laid_for (each_option hinit) (each_option hcond) (each_option hpost) hbody
  | throwStmt => exact laid_build_throwStmt h
  | catchClause =>
      obtain ⟨_, _, hname, _, _, hbody, _⟩ := h
      exact ⟨each_kind hname, hbody⟩
  | tryStmt => exact laid_build_tryStmt h
  | stmt => exact laid_build_stmt h

/-- The printed text of a function that has been read is cut into the words of its normal form. -/
theorem written_function (link : Symbol → String) {stop : Position} {input rest : List Token}
    {f : Function} (h : Production.reads stop .function input = .matched f rest) :
    ∃ used, input = used ++ rest ∧ ((∀ t ∈ used, Clean t) → ∀ d, Written link
      (function .plain d [.word "function", space, .word f.name] f.params f.body [] [])
      (Spelling.function (Normal.function f)) Anything) := by
  let R : Judgement := fun p node used => (∀ t ∈ used, Clean t) → Laid link p node
  refine Production.reads_induction stop (R := R) ?_ .function h
  intro p input value rest used _ _ hfits hclean
  exact laid_build p _ (Gram.Fits.each (fun _ _ _ h => h) p.body hfits hclean)

end Emit
end ScriptWeave
