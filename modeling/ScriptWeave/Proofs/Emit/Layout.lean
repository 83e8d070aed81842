import ScriptWeave.Proofs.Emit.NormalReading
import ScriptWeave.Proofs.Emit.PlainNames

/-!
The words of printed text. Printing keeps words apart where they would run together: with blanks, or
because one of them is a punctuation mark, or because an operator stands next to an operand. So the
printed text is cut into the words of the normal form, whatever its layout.
-/

namespace ScriptWeave

namespace Script

open Lexeme

/-- Behind an expression: neither a name nor a numeral nor an operator goes on. -/
structure Ends (rest : List Char) : Prop where
  stops : Stops rest
  apart : Apart rest

theorem ends_cons {c : Char} (h : isNameChar c = false ∧ c ≠ '.' ∧ isOperatorChar c = false)
    (cs : List Char) : Ends (c :: cs) where
  stops := ⟨runLength_cons_of_neg h.1, fractionLength_cons h.2.1 cs⟩
  apart := runLength_cons_of_neg h.2.2

/-- A member of a numeral is not its fraction. -/
theorem stops_point {name : String} (h : kind? name = some .ident) (rest : List Char) :
    Stops (".".toList ++ (name.toList ++ rest)) := by
  obtain ⟨c, cs, heq, hfront, _⟩ := kind?_eq_some_iff.1 h
  have hstart : isNameStart c = true :=
    TokenKind.opens_of_recognise? (Lexer.front?_eq_some_iff.1 hfront).1
  have hdigit := TokenKind.not_isDigit_of_isNameStart hstart
  refine ⟨runLength_cons_of_neg (by decide), ?_⟩
  rw [heq]
  exact (fractionLength_point _).trans (if_pos (runLength_cons_of_neg hdigit))

namespace Lexed

variable {w : String} {rest : List Char} {words : List String}

theorem space (h : Lexed rest words) : Lexed (' ' :: rest) words := blank (by decide) h

theorem newline (h : Lexed rest words) : Lexed ('\n' :: rest) words := blank (by decide) h

theorem indent (n : Nat) (h : Lexed rest words) : Lexed (List.replicate n ' ' ++ rest) words := by
  refine blanks (fun c hc => ?_) h
  rw [List.eq_of_mem_replicate hc]
  decide

theorem mark (hw : kind? w = some .punctuation) (h : Lexed rest words) :
    Lexed (w.toList ++ rest) (w :: words) := word hw trivial h

/-- A word that nothing behind it could make longer. -/
theorem apart (hw : (kind? w).isSome = true) (hrest : Ends rest) (h : Lexed rest words) :
    Lexed (w.toList ++ rest) (w :: words) := by
  obtain ⟨kind, hkind⟩ := Option.isSome_iff_exists.1 hw
  refine word hkind ?_ h
  obtain ⟨_, _, _, _, hlayout⟩ := kind?_eq_some_iff.1 hkind
  cases kind with
  | comment => cases hlayout
  | blank => cases hlayout
  | string | punctuation => trivial
  | number | keyword | ident => exact hrest.stops
  | operator => exact hrest.apart

theorem spaced (hw : (kind? w).isSome = true) (h : Lexed rest words) :
    Lexed (w.toList ++ ' ' :: rest) (w :: words) :=
  apart hw (ends_cons (by decide) rest) (space h)

end Lexed
end Script

namespace Emit

open Script Script.Lexeme
open Piece (space newline indent line commas words)

/-- The characters of pieces, where `link` spells the symbols of other modules. -/
def chars (link : Symbol → String) (pieces : List Piece) : List Char :=
  (Piece.renderAll link pieces).toList

section

variable (link : Symbol → String)

theorem chars_nil : chars link [] = [] := rfl

theorem chars_append (xs ys : List Piece) :
    chars link (xs ++ ys) = chars link xs ++ chars link ys := by
  simp [chars, Piece.renderAll]

theorem chars_word (w : String) (xs : List Piece) :
    chars link (.word w :: xs) = w.toList ++ chars link xs := by
  simp [chars, Piece.renderAll, Piece.render]

theorem chars_space (xs : List Piece) : chars link (space :: xs) = ' ' :: chars link xs := by
  simp [chars, Piece.renderAll, Piece.render, space]

theorem chars_newline (xs : List Piece) : chars link (newline :: xs) = '\n' :: chars link xs := by
  simp [chars, Piece.renderAll, Piece.render, newline]

theorem chars_indent (d : Nat) (xs : List Piece) :
    chars link (indent d :: xs) = List.replicate (4 * d) ' ' ++ chars link xs := by
  simp [chars, Piece.renderAll, Piece.render, indent]

theorem chars_line (d : Nat) (xs : List Piece) :
    chars link (line d xs) = List.replicate (4 * d) ' ' ++ (chars link xs ++ ['\n']) := by
  rw [line, chars_indent, chars_append, chars_newline, chars_nil]

end

/-- The pieces are cut into these words before whatever may follow them. -/
def Written (link : Symbol → String) (pieces : List Piece) (words : List String)
    (P : List Char → Prop) : Prop :=
  ∀ rest more, P rest → Lexed rest more → Lexed (chars link pieces ++ rest) (words ++ more)

/-- Anything may follow. -/
def Anything (_ : List Char) : Prop := True

/-- The text begins, and not with an operator. -/
def Solid (cs : List Char) : Prop := ∃ c more, cs = c :: more ∧ isOperatorChar c = false

theorem Solid.append {cs : List Char} (h : Solid cs) (rest : List Char) : Solid (cs ++ rest) := by
  obtain ⟨c, more, rfl, hc⟩ := h
  exact ⟨c, more ++ rest, rfl, hc⟩

theorem Solid.apart {cs : List Char} (h : Solid cs) : Apart cs := by
  obtain ⟨c, more, rfl, hc⟩ := h
  exact runLength_cons_of_neg hc

theorem solid_word {w : String} {kind : TokenKind} (hw : kind? w = some kind)
    (hkind : kind ≠ .operator) (cs : List Char) : Solid (w.toList ++ cs) := by
  obtain ⟨c, more, heq, hfront, hlayout⟩ := kind?_eq_some_iff.1 hw
  rw [heq]
  refine ⟨c, more ++ cs, rfl, ?_⟩
  rw [← Bool.not_eq_true]
  intro hc
  have hopens := TokenKind.opens_of_recognise? (Lexer.front?_eq_some_iff.1 hfront).1
  have hoperator := TokenKind.not_opens_of_operator hc
  cases kind with
  | comment => cases hlayout
  | operator => exact hkind rfl
  | punctuation =>
      have hearlier := TokenKind.not_opens_of_punctuation hopens .operator (by decide)
      exact absurd hc (by rw [Bool.not_eq_true]; exact hearlier)
  | blank | string | number | keyword | ident =>
      rw [hoperator _ (by decide)] at hopens
      cases hopens

/-- The words between the braces of a statement that stands as a body. -/
def inside : Stmt → List String
  | .block body => Spelling.stmts body.stmts
  | s => Spelling.stmt s

theorem spelling_wrapped (s : Stmt) :
    Spelling.stmt (Normal.wrapped s) = "\x7b" :: inside s ++ ["\x7d"] := by
  cases s with
  | block body =>
      obtain ⟨_, body⟩ := body
      rfl
  | _ => simp [Normal.wrapped, inside, Spelling.stmt, Spelling.block, Spelling.stmts]

section

variable (link : Symbol → String)

/-- A statement on its own, between printed braces, and behind `else`. -/
structure LaidStmt (s : Stmt) : Prop where
  plain : ∀ d, Written link (stmt .plain false d s) (Spelling.stmt (Normal.stmt s)) Anything
  braced : ∀ d, Written link (stmt .plain true d s) (inside (Normal.stmt s)) Anything
  chained : ∀ d, Written link (otherwise .plain d (some s))
    ("\x7d" :: "else" :: Spelling.stmt (Normal.chained (Normal.stmt s))) Anything

/-- A primary other than `super`. -/
structure LaidPrimary (e : Primary) : Prop where
  written : ∀ d, Written link (primaryExpr .plain d e) (Spelling.primary (Normal.primary e)) Stops
  solid : ∀ d, Solid (chars link (primaryExpr .plain d e))
  ordinary : ∀ pos, e ≠ .super pos

/-- The printed text of a node is cut into the words of its normal form. -/
def Laid : (p : Production) → p.Node → Prop
  | .file, _ | .importDecl, _ | .decl, _ | .classDecl, _ | .member, _ | .typeRef, _ => True
  | .qualifiedName, q => Written link (dotted q.parts) (Spelling.qualified q.unplaced) Stops
  | .function, f => ∀ d, Written link
      (function .plain d [.word "function", space, .word f.name] f.params f.body [] [])
      (Spelling.function (Normal.function f)) Anything
  | .param, p => kind? p.name = some .ident ∧ ∀ e ∈ p.default, ∀ d,
      Written link (expr .plain d e) (Spelling.expr (Normal.expr e)) Ends
  | .expr, e => ∀ d, Written link (expr .plain d e) (Spelling.expr (Normal.expr e)) Ends
  | .conditional, c => ∀ d, Written link (conditional .plain d c)
      (Spelling.conditional (Normal.conditional c)) Ends
  | .binary, b => ∀ d, Written link (binary .plain d b) (Spelling.binary (Normal.binary b)) Ends
  | .unary, u => ∀ d, Written link (unary .plain d u) (Spelling.unary (Normal.unary u)) Ends
  | .opTerm, term => ∀ d, Written link (opTerms .plain d [term])
      (Spelling.opTerm (Normal.opTerm term)) Ends
  | .postfixExpr, e => ∀ d, Written link (postfixExpr .plain d e)
      (Spelling.postfixExpr (Normal.postfixExpr e)) Ends ∧
      Solid (chars link (postfixExpr .plain d e))
  | .suffixPart, part => ∀ d, Written link (suffixParts .plain d 0 [part])
      (Spelling.suffixPart (Normal.suffixPart part)) Stops ∧
      ∀ rest, Stops (chars link (suffixParts .plain d 0 [part]) ++ rest)
  | .primary, e | .newExpr, e | .functionExpr, e | .arrayLiteral, e | .objectLiteral, e =>
      LaidPrimary link e
  | .property, p => ∀ d, Written link (property .plain d p)
      (Spelling.property (Normal.property p)) Ends
  | .block, b => ∀ d, Written link (block .plain d b) (Spelling.stmts (Normal.block b)) Anything
  | .stmt, s | .returnStmt, s | .ifStmt, s | .whileStmt, s | .forStmt, s | .throwStmt, s
  | .tryStmt, s => LaidStmt link s
  | .varDecl, v => ∀ d, Written link (varDecl .plain d v)
      (Spelling.varDecl (Normal.varDecl v)) Ends
  | .forInit, i => ∀ d, Written link (forInit .plain d (some i))
      (Spelling.forInit (Normal.forInit i)) Ends
  | .catchClause, c => kind? c.name = some .ident ∧ ∀ d, Written link (block .plain d c.body)
      (Spelling.stmts (Normal.block c.body)) Anything

end

section

variable {link : Symbol → String}

theorem written_exprTail {es : List Expr} (h : ∀ e ∈ es, Laid link .expr e) (d : Nat) :
    Written link (exprTail .plain d es) (Spelling.exprTail (Normal.exprs es)) Ends ∧
      ∀ rest, Ends rest → Ends (chars link (exprTail .plain d es) ++ rest) := by
  induction es with
  | nil => exact ⟨fun _ _ _ h => h, fun _ h => h⟩
  | cons e es ih =>
      rw [List.forall_mem_cons] at h
      obtain ⟨htail, hends⟩ := ih h.2
      constructor
      · intro rest more hrest hmore
        simp only [exprTail, Normal.exprs, Spelling.exprTail, chars_append, chars_word, chars_space,
          List.append_assoc, List.cons_append, List.nil_append]
        exact .mark (by decide)
          (.space (h.1 d _ _ (hends rest hrest) (htail rest more hrest hmore)))
      · intro rest _
        simp only [exprTail, chars_append, chars_word, List.append_assoc]
        exact ends_cons (by decide) _

theorem written_exprs {es : List Expr} (h : ∀ e ∈ es, Laid link .expr e) (d : Nat) :
    Written link (exprs .plain d es) (Spelling.exprs (Normal.exprs es)) Ends := by
  cases es with
  | nil => exact fun _ _ _ h => h
  | cons e es =>
      rw [List.forall_mem_cons] at h
      obtain ⟨htail, hends⟩ := written_exprTail h.2 d
      intro rest more hrest hmore
      simp only [exprs, Normal.exprs, Spelling.exprs, chars_append, List.append_assoc]
      exact h.1 d _ _ (hends rest hrest) (htail rest more hrest hmore)

theorem opTerms_cons (d : Nat) (term : OpTerm) (terms : List OpTerm) :
    opTerms .plain d (term :: terms) = opTerms .plain d [term] ++ opTerms .plain d terms := by
  obtain ⟨_, _, _⟩ := term
  simp [opTerms]

theorem written_opTerms {terms : List OpTerm} (h : ∀ term ∈ terms, Laid link .opTerm term)
    (d : Nat) :
    Written link (opTerms .plain d terms) (Spelling.opTerms (Normal.opTerms terms)) Ends ∧
      ∀ rest, Ends rest → Ends (chars link (opTerms .plain d terms) ++ rest) := by
  induction terms with
  | nil => exact ⟨fun _ _ _ h => h, fun _ h => h⟩
  | cons term terms ih =>
      rw [List.forall_mem_cons] at h
      obtain ⟨hterms, hends⟩ := ih h.2
      constructor
      · intro rest more hrest hmore
        rw [opTerms_cons]
        simp only [Normal.opTerms, Spelling.opTerms, chars_append, List.append_assoc]
        exact h.1 d _ _ (hends rest hrest) (hterms rest more hrest hmore)
      · intro rest _
        obtain ⟨pos, op, operand⟩ := term
        simp only [opTerms, chars_append, chars_space, List.append_assoc]
        exact ends_cons (by decide) _

theorem suffixParts_cons (d : Nat) (part : Suffix) (parts : List Suffix) :
    suffixParts .plain d 0 (part :: parts) =
      suffixParts .plain d 0 [part] ++ suffixParts .plain d 0 parts := by
  cases part <;> simp [suffixParts]

theorem written_suffixParts {parts : List Suffix} (h : ∀ part ∈ parts, Laid link .suffixPart part)
    (d : Nat) :
    Written link (suffixParts .plain d 0 parts) (Spelling.suffixParts (Normal.suffixParts parts))
        Stops ∧
      ∀ rest, Stops rest → Stops (chars link (suffixParts .plain d 0 parts) ++ rest) := by
  induction parts with
  | nil => exact ⟨fun _ _ _ h => h, fun _ h => h⟩
  | cons part parts ih =>
      rw [List.forall_mem_cons] at h
      obtain ⟨hparts, hstops⟩ := ih h.2
      rw [suffixParts_cons]
      constructor
      · intro rest more hrest hmore
        simp only [Normal.suffixParts, Spelling.suffixParts, chars_append, List.append_assoc]
        exact (h.1 d).1 _ _ (hstops rest hrest) (hparts rest more hrest hmore)
      · intro rest _
        rw [chars_append, List.append_assoc]
        exact (h.1 d).2 _

theorem written_propertyTail {ps : List Property} (h : ∀ p ∈ ps, Laid link .property p) (d : Nat) :
    Written link (propertyTail .plain d ps) (Spelling.propertyTail (Normal.properties ps)) Ends ∧
      ∀ rest, Ends rest → Ends (chars link (propertyTail .plain d ps) ++ rest) := by
  induction ps with
  | nil => exact ⟨fun _ _ _ h => h, fun _ h => h⟩
  | cons p ps ih =>
      rw [List.forall_mem_cons] at h
      obtain ⟨htail, hends⟩ := ih h.2
      constructor
      · intro rest more hrest hmore
        simp only [propertyTail, Normal.properties, Spelling.propertyTail, chars_append, chars_word,
          chars_space, List.append_assoc, List.cons_append, List.nil_append]
        exact .mark (by decide)
          (.space (h.1 d _ _ (hends rest hrest) (htail rest more hrest hmore)))
      · intro rest _
        simp only [propertyTail, chars_append, chars_word, List.append_assoc]
        exact ends_cons (by decide) _

theorem written_stmts {ss : List Stmt} (h : ∀ s ∈ ss, Laid link .stmt s) (d : Nat) :
    Written link (stmts .plain d ss) (Spelling.stmts (Normal.stmts ss)) Anything := by
  induction ss with
  | nil => exact fun _ _ _ h => h
  | cons s ss ih =>
      rw [List.forall_mem_cons] at h
      intro rest more hrest hmore
      simp only [stmts, Normal.stmts, Spelling.stmts, chars_append, List.append_assoc]
      exact h.1.plain d _ _ trivial (ih h.2 rest more hrest hmore)

theorem written_dotted {parts : List String} {first : String}
    (hfirst : kind? first = some .ident) (hparts : ∀ part ∈ parts, kind? part = some .ident) :
    Written link (dotted (first :: parts)) (first :: parts.flatMap fun part => [".", part])
      Stops := by
  induction parts generalizing first with
  | nil =>
      intro rest more hrest hmore
      simp only [dotted, chars_word, chars_nil, List.append_nil, List.flatMap_nil]
      exact .word hfirst hrest hmore
  | cons part parts ih =>
      rw [List.forall_mem_cons] at hparts
      intro rest more hrest hmore
      have htail := ih hparts.1 hparts.2 rest more hrest hmore
      simp only [dotted, chars_word, List.append_assoc, List.flatMap_cons, List.cons_append,
        List.nil_append]
      refine .word hfirst ?_ (.mark (by decide) htail)
      obtain ⟨tail, heq⟩ : ∃ tail, chars link (dotted (part :: parts)) = part.toList ++ tail := by
        cases parts with
        | nil => exact ⟨_, chars_word link part []⟩
        | cons next parts => exact ⟨_, chars_word link part _⟩
      rw [heq, List.append_assoc]
      exact stops_point hparts.1 _

theorem written_paramList {ps : List Param} (h : ∀ p ∈ ps, Laid link .param p) :
    Written link (paramList ps) ("(" :: Spelling.params (ps.map Normal.param) ++ [")"])
      Anything := by
  have hnames : Written link (commas (ps.map fun p => [.word p.name]))
      (Spelling.params (ps.map Normal.param)) Ends := by
    induction ps with
    | nil => exact fun _ _ _ h => h
    | cons p ps ih =>
        rw [List.forall_mem_cons] at h
        have hname : (kind? p.name).isSome = true := by simp [h.1.1]
        intro rest more hrest hmore
        have htail := ih h.2 rest more hrest hmore
        cases ps with
        | nil =>
            simp only [List.map_cons, List.map_nil, commas, chars_word, chars_nil, List.append_nil]
            exact .apart hname hrest hmore
        | cons q ps =>
            simp only [List.map_cons, commas, chars_word, chars_space, List.append_assoc,
              List.nil_append, List.cons_append] at htail ⊢
            exact .apart hname (ends_cons (by decide) _) (.mark (by decide) (.space htail))
  intro rest more _ hmore
  simp only [paramList, chars_append, chars_word, chars_nil, List.append_assoc, List.cons_append,
    List.nil_append, List.append_nil]
  exact .mark (by decide) (hnames _ _ (ends_cons (by decide) _) (.mark (by decide) hmore))

theorem written_defaults {ps : List Param} (h : ∀ p ∈ ps, Laid link .param p) (d : Nat) :
    Written link (defaults .plain d ps) (Spelling.stmts (Normal.defaults ps)) Anything := by
  induction ps with
  | nil => exact fun _ _ _ h => h
  | cons p ps ih =>
      obtain ⟨pos, name, type, value⟩ := p
      rw [List.forall_mem_cons] at h
      cases value with
      | none => exact ih h.2
      | some e =>
          obtain ⟨⟨hname, he⟩, hps⟩ := h
          intro rest more hrest hmore
          have htail := ih hps rest more hrest hmore
          simp only [defaults, Normal.defaults, Normal.assignDefault, Spelling.stmts, Spelling.stmt,
            Spelling.otherwise, Spelling.block, Spelling.expr, Spelling.conditional,
              Spelling.binary,
            Spelling.opTerms, Spelling.opTerm, Spelling.unary, Spelling.postfixExpr,
            Spelling.suffixParts, Spelling.primary, Option.toList_none, chars_append, chars_line,
            chars_word, chars_space, chars_nil, List.append_assoc, List.cons_append,
            List.nil_append, List.append_nil]
          have hword : (kind? name).isSome = true := by simp [hname]
          exact .indent _ (.spaced (by decide) (.mark (by decide) (.spaced hword
            (.spaced (by decide) (.apart (by decide) (ends_cons (by decide) _) (.mark (by decide)
              (.space (.mark (by decide) (.newline (.indent _ (.spaced hword (.spaced (by decide)
                (he e rfl (d + 1) _ _ (ends_cons (by decide) _) (.mark (by decide) (.newline
                  (.indent _ (.mark (by decide) (.newline htail))))))))))))))))))

theorem postfixExpr_eq (d : Nat) {inner : Primary} (h : ∀ pos, inner ≠ .super pos)
    (suffixes : List Suffix) (update : Option String) :
    postfixExpr .plain d ⟨inner, suffixes, update⟩ =
      primaryExpr .plain d inner ++ (suffixParts .plain d 0 suffixes ++
        update.toList.map .word) := by
  cases inner with
  | super pos => exact absurd rfl (h pos)
  | ident pos name => simp [postfixExpr, primaryExpr, Meaning.plain]
  | _ => simp only [postfixExpr, List.append_assoc]

theorem written_unaryOps {ops : List String} (h : ∀ op ∈ ops, op ∈ Script.unaryOps) :
    Written link (unaryOps ops) ops Solid := by
  have hkinds : ∀ op ∈ Script.unaryOps,
      (kind? op).isSome = true ∧ (op ≠ "typeof" → kind? op = some .operator) := by decide
  induction ops with
  | nil => exact fun _ _ _ h => h
  | cons op ops ih =>
      rw [List.forall_mem_cons] at h
      obtain ⟨hsome, hoperator⟩ := hkinds op h.1
      intro rest more hrest hmore
      cases ops with
      | nil =>
          rw [unaryOps]
          split
          · simp only [chars_word, chars_space, chars_nil, List.append_assoc, List.cons_append,
              List.nil_append]
            exact .spaced hsome hmore
          · next hop =>
              rw [chars_word, chars_nil, List.append_nil]
              exact .word (hoperator hop) hrest.apart hmore
      | cons next ops =>
          simp only [unaryOps, chars_word, chars_space, List.append_assoc, List.cons_append]
          exact .spaced hsome (ih h.2 rest more hrest hmore)

theorem written_update (link : Symbol → String) {update : Option String}
    (h : ∀ op ∈ update, op ∈ updateOps) :
    Written link (update.toList.map .word) update.toList Ends ∧
      ∀ rest, Ends rest → Stops (chars link (update.toList.map .word) ++ rest) := by
  cases update with
  | none => exact ⟨fun _ _ _ h => h, fun _ h => h.stops⟩
  | some op =>
      have hop : op = "++" ∨ op = "--" := by simpa [updateOps] using h op rfl
      have hchars : chars link ((some op).toList.map .word) = op.toList := by
        simp [chars_word, chars_nil]
      rw [hchars]
      constructor
      · intro rest more hrest hmore
        rw [hchars]
        obtain rfl | rfl := hop <;> exact .apart (by decide) hrest hmore
      · intro rest _
        obtain rfl | rfl := hop <;>
          exact ⟨runLength_cons_of_neg (by decide), fractionLength_cons (by decide) _⟩

theorem laidPrimary_word {e : Primary} {w : String} {kind : TokenKind}
    (hpieces : ∀ d, primaryExpr .plain d e = [.word w])
    (hwords : Spelling.primary (Normal.primary e) = [w]) (hkind : kind? w = some kind)
    (hoperator : kind ≠ .operator) (hordinary : ∀ pos, e ≠ .super pos) : LaidPrimary link e where
  written d rest more hrest hmore := by
    rw [hpieces, hwords, chars_word, chars_nil, List.append_nil]
    refine .word hkind ?_ hmore
    obtain ⟨_, _, _, _, hlayout⟩ := kind?_eq_some_iff.1 hkind
    cases kind with
    | comment => cases hlayout
    | blank => cases hlayout
    | string | punctuation => trivial
    | number | keyword | ident => exact hrest
    | operator => exact absurd rfl hoperator
  solid d := by
    rw [hpieces, chars_word]
    exact solid_word hkind hoperator _
  ordinary := hordinary

/-- The parameters, the default values and the body of a function. -/
theorem lexed_body {ps : List Param} {body : Block} (hps : ∀ p ∈ ps, Laid link .param p)
    (hbody : Laid link .block body) (d : Nat) {rest : List Char} {more : List String}
    (hmore : Lexed rest more) :
    Lexed (chars link (paramList ps) ++ ' ' :: ("\x7b".toList ++ '\n' ::
        (chars link (defaults .plain (d + 1) ps) ++ (chars link (block .plain d body) ++
          (List.replicate (4 * d) ' ' ++ ("\x7d".toList ++ rest))))))
      ("(" :: (Spelling.params (ps.map Normal.param) ++ ")" :: (Spelling.block
        ⟨.start, Normal.defaults ps ++ Normal.block body⟩ ++ more))) := by
  have hwords : Spelling.stmts (Normal.defaults ps ++ Normal.block body) =
      Spelling.stmts (Normal.defaults ps) ++ Spelling.stmts (Normal.block body) := by
    simp [Spelling.stmts_eq]
  have htail := hbody d _ _ trivial (.indent (4 * d) (.mark (by decide : kind? "\x7d" = _) hmore))
  have hdefaults := written_defaults hps (d + 1) _ _ trivial htail
  have hparams := written_paramList hps _ _ trivial
    (.space (.mark (by decide : kind? "\x7b" = _) (.newline hdefaults)))
  simpa [Spelling.block, hwords] using hparams

theorem ends_paramList (ps : List Param) (rest : List Char) :
    Ends (chars link (paramList ps) ++ rest) := by
  simp only [paramList, chars_append, chars_word, List.append_assoc]
  exact ends_cons (by decide) _

theorem laid_function {f : Function} (hname : kind? f.name = some .ident)
    (hps : ∀ p ∈ f.params, Laid link .param p) (hbody : Laid link .block f.body) :
    Laid link .function f := by
  intro d rest more _ hmore
  have hword : (kind? f.name).isSome = true := by simp [hname]
  simp only [function, Normal.function, Spelling.function, Spelling.typeMark, chars_append,
    chars_line, chars_word, chars_space, chars_nil, List.append_assoc, List.cons_append,
    List.nil_append]
  exact .indent _ (.spaced (by decide) (.apart hword (ends_paramList _ _)
    (lexed_body hps hbody d (.newline hmore))))

theorem laid_functionExpr {ps : List Param} {body : Block} (pos : Position)
    (result : Option TypeRef) (hps : ∀ p ∈ ps, Laid link .param p)
    (hbody : Laid link .block body) : LaidPrimary link (.function pos ps result body) where
  written d rest more _ hmore := by
    simp only [primaryExpr, Normal.primary, Spelling.primary, Spelling.typeMark, chars_append,
      chars_word, chars_space, chars_newline, chars_indent, chars_nil, List.append_assoc,
      List.cons_append, List.nil_append]
    exact .spaced (by decide) (lexed_body hps hbody d hmore)
  solid d := by
    simp only [primaryExpr, chars_append, chars_word, List.append_assoc]
    exact solid_word (by decide : kind? "function" = some .keyword) (by decide) _
  ordinary _ h := by cases h

theorem laid_newExpr {type : QualifiedName} {args : List Expr} {e : Primary}
    (hpieces : ∀ d, chars link (primaryExpr .plain d e) = "new".toList ++ ' ' ::
      (chars link (dotted type.parts) ++ ("(".toList ++ (chars link (exprs .plain d args) ++
        ")".toList))))
    (hnormal : Normal.primary e = .newCall .start type.unplaced (Normal.exprs args))
    (htype : Laid link .qualifiedName type) (hargs : ∀ arg ∈ args, Laid link .expr arg)
    (hordinary : ∀ pos, e ≠ .super pos) : LaidPrimary link e where
  written d rest more _ hmore := by
    simp only [hpieces, hnormal, Spelling.primary, List.append_assoc, List.cons_append,
      List.nil_append]
    exact .spaced (by decide) (htype _ _ (ends_cons (by decide) _).stops (.mark (by decide)
      (written_exprs hargs d _ _ (ends_cons (by decide) _) (.mark (by decide) hmore))))
  solid d := by
    rw [hpieces]
    exact solid_word (by decide : kind? "new" = some .keyword) (by decide) _
  ordinary := hordinary

theorem laid_object {ps : List Property} (pos : Position)
    (hps : ∀ p ∈ ps, Laid link .property p) : LaidPrimary link (.object pos ps) where
  written d rest more _ hmore := by
    cases ps with
    | nil =>
        simp only [primaryExpr, words, List.map_cons, List.map_nil, chars_word, chars_nil,
          List.append_assoc, List.append_nil]
        exact .mark (by decide) (.mark (by decide) hmore)
    | cons p ps =>
        rw [List.forall_mem_cons] at hps
        obtain ⟨htail, hends⟩ := written_propertyTail hps.2 d
        simp only [primaryExpr, Normal.primary, Normal.properties, Spelling.primary,
          Spelling.properties, chars_append, chars_word, chars_space, chars_nil, List.append_assoc,
          List.cons_append, List.nil_append]
        exact .mark (by decide) (.space (hps.1 d _ _ (hends _ (ends_cons (by decide) _))
          (htail _ _ (ends_cons (by decide) _) (.space (.mark (by decide) hmore)))))
  solid d := by
    have hopen : kind? "\x7b" = some .punctuation := by decide
    cases ps <;>
      · simp only [primaryExpr, words, List.map_cons, chars_append, chars_word, List.append_assoc]
        exact solid_word hopen (by decide) _
  ordinary _ h := by cases h

/-- What stands between two marks. -/
theorem written_enclosed {pieces : List Piece} {words : List String} {opening closing : String}
    (hopening : kind? opening = some .punctuation) (hclosing : kind? closing = some .punctuation)
    (hends : ∀ rest, Ends (closing.toList ++ rest)) (h : Written link pieces words Ends) :
    Written link ([.word opening] ++ pieces ++ [.word closing]) (opening :: words ++ [closing])
      Anything := by
  intro rest more _ hmore
  simp only [chars_append, chars_word, chars_nil, List.append_assoc, List.cons_append,
    List.nil_append]
  exact .mark hopening (h _ _ (hends rest) (.mark hclosing hmore))

theorem laid_enclosed {e : Primary} {pieces : Nat → List Piece} {words : List String}
    {opening closing : String}
    (hpieces : ∀ d, primaryExpr .plain d e = [.word opening] ++ pieces d ++ [.word closing])
    (hwords : Spelling.primary (Normal.primary e) = opening :: words ++ [closing])
    (hopening : kind? opening = some .punctuation) (hclosing : kind? closing = some .punctuation)
    (hends : ∀ rest, Ends (closing.toList ++ rest)) (h : ∀ d, Written link (pieces d) words Ends)
    (hordinary : ∀ pos, e ≠ .super pos) : LaidPrimary link e where
  written d rest more _ hmore := by
    rw [hpieces, hwords]
    exact written_enclosed hopening hclosing hends (h d) rest more trivial hmore
  solid d := by
    rw [hpieces, List.append_assoc, chars_append, chars_word, List.append_assoc]
    exact solid_word hopening (by decide) _
  ordinary := hordinary

end

end Emit
end ScriptWeave
