import ScriptWeave.Proofs.Script.Exactness

/-!
Functions and statements that are read back from their spelling. A statement is told from the others
by its first word, but for expressions: an object literal at the front of a statement is first tried
as a block, and that attempt is dropped at the colon behind its first key.
-/

namespace ScriptWeave
namespace Script

open Gram Lexeme

/-- A key of an object literal. -/
def IsKey (key : String) : Prop :=
  kind? key = some .ident ∨ kind? key = some .string ∨ kind? key = some .number

/-- Words that begin with an object literal only if it has a key. -/
def Opening (words : List String) : Prop :=
  ∃ w more, words = w :: more ∧
    (w = "\x7b" → ∃ key more', more = key :: ":" :: more' ∧ IsKey key)

theorem opening_cons {w : String} (h : w ≠ "\x7b") (more : List String) : Opening (w :: more) :=
  ⟨w, more, rfl, fun hw => absurd hw h⟩

theorem Opening.append {words : List String} (h : Opening words) (more : List String) :
    Opening (words ++ more) := by
  obtain ⟨w, words, rfl, hobject⟩ := h
  refine ⟨w, words ++ more, rfl, fun hw => ?_⟩
  obtain ⟨key, rest, rfl, hkey⟩ := hobject hw
  exact ⟨key, rest ++ more, rfl, hkey⟩

theorem opening_of_kind {w : String} {kind : TokenKind} (h : kind? w = some kind)
    (hkind : kind ≠ .punctuation) (more : List String) : Opening (w :: more) := by
  refine opening_cons ?_ more
  rintro rfl
  have hbrace : kind? "\x7b" = some .punctuation := by decide
  exact hkind (Option.some.inj (h.symm.trans hbrace))

namespace ReadsBack

theorem param {name : String} (h : kind? name = some .ident) :
    ReadsBack .param [":", "="] ⟨.start, name, none, none⟩ := fun rest hrest =>
  matches_call (.seq (matches_kind h rest) (.cons (matches_typeMark (hrest.mono (by decide)))
    (.cons (matches_defaultValue (hrest.mono (by decide))) .nil))) rfl

theorem functionExpr {params : List Param} {body : Block}
    (hparams : ∀ p ∈ params, ReadsBack .param [":", "="] p) (hbody : ReadsBack .block [] body) :
    ReadsBack .functionExpr [] (.function .start params none body) := by
  intro rest hrest
  obtain ⟨value, rfl, hvalue⟩ :=
    matches_commaList .param ")" hparams (by decide) (by decide) (by decide)
      (Spelling.block body ++ rest)
  simp only [Spelling.node, Spelling.primary, Spelling.params_eq, Spelling.typeMark,
    List.append_assoc, List.cons_append, List.nil_append]
  exact matches_call (.seq (matches_word "function" _) (.cons (matches_word "(" _) (.cons hvalue
    (.cons (matches_word ")" _) (.cons (matches_typeMark (hbody.follows hrest (by decide)))
      (.cons (hbody rest hrest) .nil)))))) rfl

theorem function {name : String} {params : List Param} {body : Block}
    (hname : kind? name = some .ident) (hparams : ∀ p ∈ params, ReadsBack .param [":", "="] p)
    (hbody : ReadsBack .block [] body) :
    ReadsBack .function [] ⟨.start, name, params, none, body⟩ := by
  intro rest hrest
  obtain ⟨value, rfl, hvalue⟩ :=
    matches_commaList .param ")" hparams (by decide) (by decide) (by decide)
      (Spelling.block body ++ rest)
  simp only [Spelling.node, Spelling.function, Spelling.params_eq, Spelling.typeMark,
    List.append_assoc, List.cons_append, List.nil_append]
  exact matches_call (.seq (matches_word "function" _) (.cons (matches_kind hname _)
    (.cons (matches_word "(" _) (.cons hvalue (.cons (matches_word ")" _)
      (.cons (matches_typeMark (hbody.follows hrest (by decide)))
        (.cons (hbody rest hrest) .nil))))))) rfl

theorem block {body : List Stmt} (h : ∀ s ∈ body, ReadsBack .stmt stmtStops s) :
    ReadsBack .block [] ⟨.start, body⟩ := by
  intro rest _
  have hmany := matches_many (Gram.call .stmt) body (fun s => s) Spelling.stmt (Follows stmtStops)
    rfl (fun s hs more hmore => ⟨(h s hs).follows hmore (by decide), h s hs more hmore⟩)
    (.cons (by decide) rest) (drops_of_not_begins (t := Token.ofText "\x7d") rfl (by decide))
  simp only [Spelling.node, Spelling.block, Spelling.stmts_eq, List.append_assoc, List.cons_append,
    List.nil_append]
  refine matches_call (.seq (matches_word "\x7b" _)
    (.cons hmany.2 (.cons (matches_word "\x7d" rest) .nil))) ?_
  simp [Production.build]

theorem varDecl {name : String} {value : Option Expr} (hname : kind? name = some .ident)
    (hvalue : ∀ e ∈ value, ReadsBack .expr exprStops e) :
    ReadsBack .varDecl (":" :: exprStops) ⟨.start, false, name, none, value⟩ := by
  intro rest hrest
  have hvar : "var" ∈ ["var", "const"] := by decide
  cases value with
  | none =>
      exact matches_call (.seq (matches_words hvar _) (.cons (matches_kind hname rest)
        (.cons (matches_typeMark (hrest.mono (by decide)))
          (.cons (matches_defaultValue (hrest.mono (by decide))) .nil)))) rfl
  | some e =>
      have he := hvalue e rfl rest (hrest.mono (by decide))
      exact matches_call (.seq (matches_words hvar _) (.cons (matches_kind hname _)
        (.cons (matches_typeMark (.cons (by decide) _))
          (.cons (.some (.seq (matches_word "=" _) (.cons he .nil))) .nil)))) rfl

theorem ofBlock {body : Block} (h : ReadsBack .block [] body) : ReadsBack .stmt [] (.block body) :=
  h.branch rfl rfl fun _ _ h => matches_call (.alt (.here h)) rfl

theorem ofReturn {s : Stmt} {stops : List String} (h : ReadsBack .returnStmt stops s) :
    ReadsBack .stmt stops s :=
  h.branch rfl rfl fun _ _ h => matches_call (.alt (.after 2 (by decide) (.here h))) rfl

theorem ofIf {s : Stmt} {stops : List String} (h : ReadsBack .ifStmt stops s) :
    ReadsBack .stmt stops s :=
  h.branch rfl rfl fun _ _ h => matches_call (.alt (.after 3 (by decide) (.here h))) rfl

theorem ofWhile {s : Stmt} {stops : List String} (h : ReadsBack .whileStmt stops s) :
    ReadsBack .stmt stops s :=
  h.branch rfl rfl fun _ _ h => matches_call (.alt (.after 4 (by decide) (.here h))) rfl

theorem ofFor {s : Stmt} {stops : List String} (h : ReadsBack .forStmt stops s) :
    ReadsBack .stmt stops s :=
  h.branch rfl rfl fun _ _ h => matches_call (.alt (.after 5 (by decide) (.here h))) rfl

theorem ofThrow {s : Stmt} {stops : List String} (h : ReadsBack .throwStmt stops s) :
    ReadsBack .stmt stops s :=
  h.branch rfl rfl fun _ _ h => matches_call (.alt (.after 6 (by decide) (.here h))) rfl

theorem ofTry {s : Stmt} {stops : List String} (h : ReadsBack .tryStmt stops s) :
    ReadsBack .stmt stops s :=
  h.branch rfl rfl fun _ _ h => matches_call (.alt (.after 7 (by decide) (.here h))) rfl

theorem var {name : String} {value : Option Expr}
    (h : ReadsBack .varDecl (":" :: exprStops) ⟨.start, false, name, none, value⟩) :
    ReadsBack .stmt [] (.var ⟨.start, false, name, none, value⟩) := by
  intro rest _
  have hvar := h (";" :: rest) (.cons (by decide) rest)
  simp only [Spelling.node, Spelling.stmt, Spelling.varDecl, List.append_assoc, List.cons_append,
    List.nil_append] at hvar ⊢
  exact matches_call (.alt (.after 1 (by decide) (.here (.seq hvar
    (.cons (matches_word ";" rest) .nil))))) rfl

/-- An expression that may be missing before a word that closes it. -/
theorem matches_exprOption {value : Option Expr} (close : String)
    (hclose : close ∉ exprStops ∧ Production.expr.begins (Token.ofText close) = false)
    (h : ∀ e ∈ value, ReadsBack .expr exprStops e) (rest : List String) :
    Matches .start (opt (Gram.call .expr)) value
      (toks (Spelling.exprOption value ++ close :: rest)) (toks (close :: rest)) := by
  cases value with
  | none => exact .none (drops_of_not_begins rfl hclose.2)
  | some e => exact .some (h e rfl _ (.cons hclose.1 rest))

theorem returns {value : Option Expr} (h : ∀ e ∈ value, ReadsBack .expr exprStops e) :
    ReadsBack .returnStmt [] (.returns .start value) := by
  intro rest _
  have hvalue := matches_exprOption ";" (by decide) h rest
  simp only [Spelling.node, Spelling.stmt, List.append_assoc, List.cons_append, List.nil_append]
  exact matches_call (.seq (matches_word "return" _)
    (.cons hvalue (.cons (matches_word ";" rest) .nil))) rfl

theorem branchStmt {cond : Expr} {yes : Stmt} {no : Option Stmt}
    (hcond : ReadsBack .expr exprStops cond) (hyes : ReadsBack .stmt [] yes)
    (hno : ∀ s ∈ no, ReadsBack .stmt stmtStops s) :
    ReadsBack .ifStmt stmtStops (.branch .start cond yes no) := by
  intro rest hrest
  simp only [Spelling.node, Spelling.stmt, List.append_assoc, List.cons_append]
  have hhead := hcond (")" :: (Spelling.stmt yes ++ (Spelling.otherwise no ++ rest)))
    (.cons (by decide) _)
  cases no with
  | none =>
      exact matches_call (.seq (matches_word "if" _) (.cons (matches_word "(" _) (.cons hhead
        (.cons (matches_word ")" _) (.cons (hyes rest (hrest.mono (by simp)))
          (.cons (.none (drops_seq ["else"] (hrest.mono (by decide)))) .nil)))))) rfl
  | some s =>
      have hother := hno s rfl rest hrest
      exact matches_call (.seq (matches_word "if" _) (.cons (matches_word "(" _) (.cons hhead
        (.cons (matches_word ")" _) (.cons (hyes _ (.cons (by simp) _))
          (.cons (.some (.seq (matches_word "else" _) (.cons hother .nil))) .nil)))))) rfl

theorem whileLoop {cond : Expr} {body : Stmt} {stops : List String}
    (hcond : ReadsBack .expr exprStops cond) (hbody : ReadsBack .stmt stops body) :
    ReadsBack .whileStmt stops (.whileLoop .start cond body) := by
  intro rest hrest
  simp only [Spelling.node, Spelling.stmt, List.append_assoc, List.cons_append]
  exact matches_call (.seq (matches_word "while" _) (.cons (matches_word "(" _)
    (.cons (hcond _ (.cons (by decide) _)) (.cons (matches_word ")" _)
      (.cons (hbody rest hrest) .nil))))) rfl

theorem forVar {name : String} {value : Option Expr}
    (h : ReadsBack .varDecl (":" :: exprStops) ⟨.start, false, name, none, value⟩) :
    ReadsBack .forInit (":" :: exprStops) (.var ⟨.start, false, name, none, value⟩) :=
  fun rest hrest => matches_call (.alt (.here (h rest hrest))) rfl

theorem forExpr {value : Expr} (h : ReadsBack .expr exprStops value) :
    ReadsBack .forInit (":" :: exprStops) (.expr value) := by
  intro rest hrest
  have hrest' : Follows exprStops rest := hrest.mono (by simp +contextual)
  have hfollows : Follows ["var", "const"] (Spelling.expr value ++ rest) :=
    h.follows hrest' (by decide)
  have hdrops : Drops .start (Gram.call .varDecl) (toks (Spelling.expr value ++ rest)) :=
    drops_of_follows _ rfl (fun t ht => begins_of_body rfl ht) hfollows
  exact matches_call (.alt (.later hdrops (.here (h rest hrest')))) rfl

theorem forLoop {init : Option ForInit} {cond post : Option Expr} {body : Stmt}
    {stops : List String} (hinit : ∀ i ∈ init, ReadsBack .forInit (":" :: exprStops) i)
    (hcond : ∀ e ∈ cond, ReadsBack .expr exprStops e)
    (hpost : ∀ e ∈ post, ReadsBack .expr exprStops e) (hbody : ReadsBack .stmt stops body) :
    ReadsBack .forStmt stops (.forLoop .start init cond post body) := by
  intro rest hrest
  have hpost := matches_exprOption ")" (by decide) hpost (Spelling.stmt body ++ rest)
  have hcond := matches_exprOption ";" (by decide) hcond
    (Spelling.exprOption post ++ ")" :: (Spelling.stmt body ++ rest))
  have hinit : ∀ more, Matches .start (opt (Gram.call .forInit)) init
      (toks (Spelling.initOption init ++ ";" :: more)) (toks (";" :: more)) := by
    intro more
    cases init with
    | none => exact .none (drops_of_not_begins rfl (by decide))
    | some i => exact .some (hinit i rfl _ (.cons (by decide) more))
  simp only [Spelling.node, Spelling.stmt, List.append_assoc, List.cons_append]
  exact matches_call (.seq (matches_word "for" _) (.cons (matches_word "(" _) (.cons (hinit _)
    (.cons (matches_word ";" _) (.cons hcond (.cons (matches_word ";" _) (.cons hpost
      (.cons (matches_word ")" _) (.cons (hbody rest hrest) .nil))))))))) rfl

theorem throws {value : Expr} (h : ReadsBack .expr exprStops value) :
    ReadsBack .throwStmt [] (.throws .start value) := by
  intro rest _
  simp only [Spelling.node, Spelling.stmt, List.append_assoc, List.cons_append, List.nil_append]
  exact matches_call (.seq (matches_word "throw" _) (.cons (h _ (.cons (by decide) _))
    (.cons (matches_word ";" rest) .nil))) rfl

theorem catchClause {name : String} {body : Block} (hname : kind? name = some .ident)
    (hbody : ReadsBack .block [] body) :
    ReadsBack .catchClause [] ⟨.start, name, none, body⟩ := by
  intro rest hrest
  simp only [Spelling.node, Spelling.catchClause, Spelling.typeMark, List.cons_append,
    List.nil_append]
  exact matches_call (.seq (matches_word "catch" _) (.cons (matches_word "(" _)
    (.cons (matches_kind hname _) (.cons (matches_typeMark (.cons (by decide) _))
      (.cons (matches_word ")" _) (.cons (hbody rest hrest) .nil)))))) rfl

theorem attempt {body : Block} {handler : Option Catch} {final : Option Block}
    (hbody : ReadsBack .block [] body) (hhandler : ∀ c ∈ handler, ReadsBack .catchClause [] c)
    (hfinal : ∀ b ∈ final, ReadsBack .block [] b) :
    ReadsBack .tryStmt stmtStops (.attempt .start body handler final) := by
  intro rest hrest
  have hlast : Follows ["catch"] (Spelling.finishing final ++ rest) ∧
      ∃ value : (opt (seq (word "finally") [Gram.call .block])).Value,
        value.map (fun v => v.2.1) = final ∧
        Matches .start (opt (seq (word "finally") [Gram.call .block])) value
          (toks (Spelling.finishing final ++ rest)) (toks rest) := by
    cases final with
    | none =>
        exact ⟨hrest.mono (by decide), none, rfl,
          .none (drops_seq ["finally"] (hrest.mono (by decide)))⟩
    | some last =>
        exact ⟨.cons (by decide) _, some (Token.ofText "finally", last, ()), rfl,
          .some (.seq (matches_word "finally" _)
            (.cons (hfinal last rfl rest (hrest.mono (by simp))) .nil))⟩
  obtain ⟨hfollows, value, hmap, hvalue⟩ := hlast
  have hcatch : Follows [] (Spelling.handling handler ++ (Spelling.finishing final ++ rest)) ∧
      Matches .start (opt (Gram.call .catchClause)) handler
      (toks (Spelling.handling handler ++ (Spelling.finishing final ++ rest)))
      (toks (Spelling.finishing final ++ rest)) := by
    cases handler with
    | none =>
        exact ⟨hfollows.mono (by simp),
          .none (drops_of_follows _ rfl (fun t ht => begins_of_body rfl ht) hfollows)⟩
    | some c =>
        have hc := hhandler c rfl
        exact ⟨hc.follows (hfollows.mono (by simp)) (by simp),
          .some (hc _ (hfollows.mono (by simp)))⟩
  simp only [Spelling.node, Spelling.stmt, List.append_assoc, List.cons_append]
  refine matches_call (.seq (matches_word "try" _) (.cons (hbody _ hcatch.1)
    (.cons hcatch.2 (.cons hvalue .nil)))) ?_
  rw [← hmap]
  rfl

theorem breaks : ReadsBack .stmt [] (.breaks .start) := fun rest _ =>
  matches_call (.alt (.after 8 (by decide) (.here (.seq (matches_word "break" _)
    (.cons (matches_word ";" rest) .nil))))) rfl

theorem continues : ReadsBack .stmt [] (.continues .start) := fun rest _ =>
  matches_call (.alt (.after 9 (by decide) (.here (.seq (matches_word "continue" _)
    (.cons (matches_word ";" rest) .nil))))) rfl

theorem empty : ReadsBack .stmt [] (.empty .start) := fun rest _ =>
  matches_call (.alt (.after 10 (by decide) (.here (matches_word ";" rest)))) rfl

theorem operand {p : Primary} (h : ReadsBack .primary [] p) :
    ReadsBack .unary operandStops ⟨.start, [], ⟨p, [], none⟩⟩ :=
  unary (by simp) (postfixExpr h (by simp) (by simp))

theorem atom {p : Primary} (h : ReadsBack .primary [] p) : ReadsBack .expr exprStops (.atom p) :=
  value (plain (binary (operand h) (by simp))) (by decide)

/-- The words with which only a statement begins. -/
def stmtWords : List String :=
  ["var", "const", "return", "if", "while", "for", "throw", "try", "break", "continue", ";"]

/-- What begins with none of these words is passed over by all branches of a statement but the first
and the last. -/
theorem drops_branches {w : String} (h : w ∉ stmtWords) (more : List String) :
    ∀ g ∈ [seq (Gram.call .varDecl) [word ";"], Gram.call .returnStmt, .call .ifStmt,
      .call .whileStmt, .call .forStmt, .call .throwStmt, .call .tryStmt,
      seq (word "break") [word ";"], seq (word "continue") [word ";"], word ";"],
      Drops .start g (toks (w :: more)) := by
  simp only [stmtWords, List.mem_cons, List.not_mem_nil, or_false, not_or] at h
  simp only [List.forall_mem_cons]
  refine ⟨?_, ?_, ?_, ?_, ?_, ?_, ?_, ?_, ?_, ?_, by simp⟩
  all_goals
    refine drops_of_not_begins rfl ?_
    simp [Gram.begins, Gram.skips, Production.begins, Production.beginsUpTo, Terminal.accepts, h]

theorem drops_block_of_ne {w : String} (h : w ≠ "\x7b") (more : List String) :
    Drops .start (Gram.call .block) (toks (w :: more)) := by
  have hfollows : Follows ["\x7b"] (w :: more) := .cons (by simpa using h) more
  exact drops_of_follows _ rfl (fun t ht => begins_of_body rfl ht) hfollows

/-- An object literal is not the front of a block: its first key is not the front of a statement. -/
theorem drops_block {key : String} (h : IsKey key) (more : List String) :
    Drops .start (Gram.call .block) (toks ("\x7b" :: key :: ":" :: more)) := by
  have hatom : ∃ e, Matches .start (Gram.call .expr) e (toks (key :: ":" :: more))
      (toks (":" :: more)) := by
    obtain h | h | h := h
    · exact ⟨_, atom (ident h) _ (.cons (by decide) more)⟩
    · exact ⟨_, atom (string h) _ (.cons (by decide) more)⟩
    · exact ⟨_, atom (number h) _ (.cons (by decide) more)⟩
  obtain ⟨e, he⟩ := hatom
  have hkey : key ∉ "\x7b" :: "\x7d" :: stmtWords := by
    intro hmem
    have hall : ∀ w ∈ "\x7b" :: "\x7d" :: stmtWords, kind? w ≠ some .ident ∧
        kind? w ≠ some .string ∧ kind? w ≠ some .number := by decide
    obtain ⟨hident, hstring, hnumber⟩ := hall key hmem
    obtain h | h | h := h
    · exact hident h
    · exact hstring h
    · exact hnumber h
  simp only [List.mem_cons, not_or] at hkey
  have hexpr : Drops .start (seq (Gram.call .expr) [word ";"]) (toks (key :: ":" :: more)) :=
    .second he rfl (by simp [Matcher.lookahead])
  have hblock : Drops .start (Gram.call .block) (toks (key :: ":" :: more)) :=
    drops_block_of_ne hkey.1 _
  have hbranches := drops_branches hkey.2.2 (":" :: more)
  have hstmt : Drops .start (Gram.call .stmt) (toks (key :: ":" :: more)) := by
    refine .call (.alt ?_)
    simp only [List.forall_mem_cons] at hbranches ⊢
    obtain ⟨h1, h2, h3, h4, h5, h6, h7, h8, h9, h10, _⟩ := hbranches
    exact ⟨hblock, h1, h2, h3, h4, h5, h6, h7, h8, h9, h10, hexpr, by simp⟩
  have hclose : (word "\x7d").read (Production.reads .start) (toks (key :: ":" :: more)) =
      .unmatched := by
    rw [toks, List.map_cons, Gram.read, if_neg (by simp [Terminal.accepts, hkey])]
  exact .call (.third (matches_word "\x7b" _) (.finish hstmt) hclose (by simp [Matcher.lookahead]))

theorem exprStmt {value : Expr} (h : ReadsBack .expr exprStops value)
    (hopening : Opening (Spelling.expr value)) : ReadsBack .stmt [] (.expr value) := by
  intro rest _
  have hexpr := h (";" :: rest) (.cons (by decide) rest)
  obtain ⟨w, more, hwords, hobject⟩ := hopening
  have hw : w ∉ stmtWords := by
    have hfollows : Follows stmtWords (Spelling.expr value ++ ";" :: rest) :=
      h.follows (.cons (by decide) rest) (by decide)
    obtain ⟨w', more', heq, hw'⟩ := hfollows
    rw [hwords] at heq
    cases heq
    exact hw'
  simp only [Spelling.node, Spelling.stmt, List.append_assoc, List.cons_append, List.nil_append]
    at hexpr ⊢
  rw [hwords, List.cons_append] at hexpr ⊢
  have hblock : Drops .start (Gram.call .block) (toks (w :: (more ++ ";" :: rest))) := by
    by_cases hw' : w = "\x7b"
    · obtain ⟨key, more', rfl, hkey⟩ := hobject hw'
      rw [hw']
      exact drops_block hkey _
    · exact drops_block_of_ne hw' _
  have hbranches := drops_branches hw (more ++ ";" :: rest)
  simp only [List.forall_mem_cons] at hbranches
  obtain ⟨h1, h2, h3, h4, h5, h6, h7, h8, h9, h10, _⟩ := hbranches
  exact matches_call (.alt (.later hblock <| .later h1 <| .later h2 <| .later h3 <| .later h4 <|
    .later h5 <| .later h6 <| .later h7 <| .later h8 <| .later h9 <| .later h10 <|
    .here (.seq hexpr (.cons (matches_word ";" rest) .nil)))) rfl

/-- What is read by a production that never begins with a brace does not begin with one. -/
theorem opening {p : Production} {node : p.Node} (h : ReadsBack p [] node)
    (hp : p.begins (Token.ofText "\x7b") = false) : Opening (Spelling.node p node) := by
  have hend : Follows [] [";"] := .cons (by simp) []
  have hlt := (h _ hend).lt_length rfl
  obtain ⟨w, more, hwords, hbegins⟩ := exists_cons_of_matches (h _ hend)
  cases hnode : Spelling.node p node with
  | nil => simp [hnode] at hlt
  | cons w' words =>
      rw [hnode] at hwords
      cases hwords
      refine opening_cons ?_ words
      rintro rfl
      rw [hp] at hbegins
      cases hbegins

theorem functionDecl {f : Function} (h : ReadsBack .function [] f) :
    ReadsBack .decl [] ⟨.start, [], .function f⟩ :=
  h.branch rfl rfl fun more _ h => matches_call
    (.seq (.finish (drops_of_not_begins (t := Token.ofText "function") rfl (by decide)))
      (.cons (.alt (.after 1 (by decide) (.here h))) .nil)) rfl

/-- One declaration in the top-level package. -/
theorem file {d : Decl} (h : ReadsBack .decl [] d) :
    Matches .start (Gram.call .file) ⟨.start, none, [], [d]⟩
      (toks ("package" :: "\x7b" :: (Spelling.decl d ++ ["\x7d"]))) (toks []) := by
  have hend : Follows [] ["\x7d"] := .cons (by simp) []
  have hfollows : Follows ["import"] (Spelling.decl d ++ ["\x7d"]) := h.follows hend (by decide)
  have hpackage : Drops .start (Gram.call .qualifiedName)
      (toks ("\x7b" :: (Spelling.decl d ++ ["\x7d"]))) := drops_of_not_begins rfl (by decide)
  have himports : Drops .start (Gram.call .importDecl) (toks (Spelling.decl d ++ ["\x7d"])) :=
    drops_of_follows _ rfl (fun t ht => begins_of_body rfl ht) hfollows
  have hdecls : Drops .start (Gram.call .decl) (toks ["\x7d"]) :=
    drops_of_not_begins rfl (by decide)
  exact matches_call (.seq (matches_word "package" _) (.cons (.none hpackage)
    (.cons (matches_word "\x7b" _) (.cons (.finish himports)
      (.cons (.again rfl (h _ hend) (.finish hdecls)) (.cons (matches_word "\x7d" []) .nil)))))) rfl

end ReadsBack

end Script
end ScriptWeave
