import ScriptWeave.Proofs.Script.Matching
import ScriptWeave.Proofs.Script.Spelling
import ScriptWeave.Proofs.Script.Words

/-!
Trees that are read back from their spelling. The words of a node, with a word behind them that does
not continue it, are read as that node, and reading stops where they end. For each construct this
follows from the same of its parts; the words that would continue a part are listed per level of
binding strength.
-/

namespace ScriptWeave
namespace Script

open Gram Lexeme

/-- The tokens of words, without places. -/
abbrev toks (words : List String) : List Token := words.map Token.ofText

@[simp] theorem Token.text_ofText (w : String) : (Token.ofText w).text = w := rfl

theorem Token.kind_ofText {w : String} {kind : TokenKind} (h : kind? w = some kind) :
    (Token.ofText w).kind = kind := by
  simp [Token.ofText, h]

theorem placeOf_toks (words : List String) : placeOf .start (toks words) = .start := by
  cases words <;> rfl

/-- Some word follows, and it is none of these. -/
def Follows (stops rest : List String) : Prop := ∃ w more, rest = w :: more ∧ w ∉ stops

theorem Follows.mono {stops stops' rest : List String} (h : Follows stops rest)
    (hsub : ∀ w ∈ stops', w ∈ stops) : Follows stops' rest := by
  obtain ⟨w, more, rfl, hw⟩ := h
  exact ⟨w, more, rfl, fun hmem => hw (hsub w hmem)⟩

theorem Follows.cons {stops : List String} {w : String} (h : w ∉ stops) (more : List String) :
    Follows stops (w :: more) := ⟨w, more, rfl, h⟩

/-- The words of a node are read as the node, unless one of the given words follows. -/
def ReadsBack (p : Production) (stops : List String) (node : p.Node) : Prop :=
  ∀ rest, Follows stops rest →
    Matches .start (call p) node (toks (Spelling.node p node ++ rest)) (toks rest)

theorem ReadsBack.mono {p : Production} {stops stops' : List String} {node : p.Node}
    (h : ReadsBack p stops node) (hsub : ∀ w ∈ stops, w ∈ stops') : ReadsBack p stops' node :=
  fun rest hrest => h rest (hrest.mono hsub)

section

variable {words rest : List String}

theorem matches_call {p : Production} {value : p.body.Value} {node : p.Node}
    (h : Matches .start p.body value (toks words) (toks rest))
    (hnode : p.build .start value = node) :
    Matches .start (call p) node (toks words) (toks rest) := by
  have hcall := h.call
  rw [placeOf_toks, hnode] at hcall
  exact hcall

theorem matches_word (w : String) (rest : List String) :
    Matches .start (word w) (Token.ofText w) (toks (w :: rest)) (toks rest) :=
  .token (by simp [Terminal.accepts])

theorem matches_words {w : String} {texts : List String} (h : w ∈ texts) (rest : List String) :
    Matches .start (Gram.words texts) (Token.ofText w) (toks (w :: rest)) (toks rest) :=
  .token (List.any_eq_true.2 ⟨.word w, List.mem_map_of_mem h, by simp [Terminal.accepts]⟩)

theorem matches_kind {w : String} {kind : TokenKind} (h : kind? w = some kind)
    (rest : List String) :
    Matches .start (Gram.kind kind) (Token.ofText w) (toks (w :: rest)) (toks rest) :=
  .token (by simp [Terminal.accepts, Token.kind_ofText h])

theorem drops_of_follows (g : Gram) {stops : List String} (hg : g.skips = false)
    (h : ∀ t, g.begins Production.begins t = true → t.text ∈ stops) (hrest : Follows stops rest) :
    Drops .start g (toks rest) := by
  obtain ⟨w, more, rfl, hw⟩ := hrest
  refine drops_of_not_begins hg ?_
  rw [← Bool.not_eq_true]
  exact fun hbegins => hw (h _ hbegins)

/-- A repetition reads one part for each member of a list, when each part is read before whatever
may follow it. -/
theorem matches_many {α : Type} (g : Gram) (as : List α) (value : α → g.Value)
    (spell : α → List String) (P : List String → Prop) (hg : g.skips = false)
    (hitem : ∀ a ∈ as, ∀ more, P more → P (spell a ++ more) ∧
      Matches .start g (value a) (toks (spell a ++ more)) (toks more))
    (hrest : P rest) (hdrops : Drops .start g (toks rest)) :
    P (as.flatMap spell ++ rest) ∧
      Matches .start (many g) (as.map value) (toks (as.flatMap spell ++ rest)) (toks rest) := by
  induction as with
  | nil => exact ⟨hrest, .finish hdrops⟩
  | cons a as ih =>
      rw [List.forall_mem_cons] at hitem
      obtain ⟨hP, hmany⟩ := ih hitem.2
      obtain ⟨hPa, ha⟩ := hitem.1 _ hP
      rw [List.flatMap_cons, List.append_assoc]
      exact ⟨hPa, .again hg ha hmany⟩

end

/-- The operators between operands. -/
def binaryOps : List String :=
  ["||", "&&", "===", "!==", "==", "!=", "<=", ">=", "<", ">", "+", "-", "*", "/", "%",
    "instanceof"]

/-- The operators before an operand. -/
def unaryOps : List String := ["!", "-", "+", "++", "--", "typeof"]

/-- The operators behind an operand. -/
def updateOps : List String := ["++", "--"]

def assignOps : List String := ["=", "+=", "-=", "*=", "/=", "%="]

/-- The words that continue an operand, and those that continue larger and larger expressions. -/
def operandStops : List String := [".", "[", "(", "++", "--"]

def binaryStops : List String := operandStops ++ binaryOps

def choiceStops : List String := "?" :: binaryStops

def exprStops : List String := assignOps ++ choiceStops

/-- The words that continue a statement. -/
def stmtStops : List String := ["else", "catch", "finally"]

theorem begins_words (texts : List String) {t : Token}
    (h : (texts.map Terminal.word).any (·.accepts t) = true) : t.text ∈ texts := by
  obtain ⟨terminal, hmem, haccepts⟩ := List.any_eq_true.1 h
  obtain ⟨w, hw, rfl⟩ := List.mem_map.1 hmem
  rw [Terminal.accepts, decide_eq_true_eq] at haccepts
  exact haccepts ▸ hw

theorem begins_of_body {p : Production} {texts : List String} {gs : List Gram} {t : Token}
    (hbody : p.body = .seq (words texts) gs) (h : p.begins t = true) : t.text ∈ texts := by
  simp only [Production.begins, Production.beginsUpTo, hbody, Gram.begins, Gram.skips,
    Bool.false_and, Bool.or_false] at h
  exact begins_words texts h

theorem begins_suffixPart {t : Token} (h : Production.suffixPart.begins t = true) :
    t.text ∈ [".", "[", "("] := by
  simpa [Production.begins, Production.beginsUpTo, Gram.begins, Gram.skips, beginsAny,
    Terminal.accepts] using h

/-- What begins with certain words is not read where another word follows. -/
theorem drops_seq (texts : List String) {gs : List Gram} {rest : List String}
    (h : Follows texts rest) : Drops .start (seq (words texts) gs) (toks rest) := by
  refine drops_of_follows _ rfl (fun t ht => ?_) h
  simp only [Gram.begins, Gram.skips, Bool.false_and, Bool.or_false] at ht
  exact begins_words texts ht

theorem matches_typeMark {rest : List String} (h : Follows [":"] rest) :
    Matches .start typeMark none (toks rest) (toks rest) := .none (drops_seq [":"] h)

theorem matches_defaultValue {rest : List String} (h : Follows ["="] rest) :
    Matches .start defaultValue none (toks rest) (toks rest) := .none (drops_seq ["="] h)

/-- A list with commas between its items, up to the word that closes it. -/
theorem matches_commaList (p : Production) {nodes : List p.Node} {stops : List String}
    (close : String) (h : ∀ node ∈ nodes, ReadsBack p stops node) (hcomma : "," ∉ stops)
    (hclose : close ∉ [","] ∧ close ∉ stops) (hbegins : p.begins (Token.ofText close) = false)
    (rest : List String) :
    ∃ value, listItems value = nodes ∧ Matches .start (commaList p) value
      (toks (Spelling.separated (nodes.map (Spelling.node p)) ++ close :: rest))
      (toks (close :: rest)) := by
  have hstop : Follows stops (close :: rest) := .cons hclose.2 rest
  cases nodes with
  | nil =>
      refine ⟨none, rfl, .none (drops_of_not_begins rfl ?_)⟩
      simp [Gram.begins, Gram.skips, hbegins]
  | cons node nodes =>
      have hdrops : Drops .start (seq (Gram.word ",") [Gram.call p]) (toks (close :: rest)) :=
        drops_seq [","] (.cons hclose.1 rest)
      rw [List.forall_mem_cons] at h
      have hmany := matches_many (seq (Gram.word ",") [Gram.call p]) nodes
        (fun node => (Token.ofText ",", node, ())) (fun node => "," :: Spelling.node p node)
        (Follows stops) rfl
        (fun node hnode more hmore => ⟨.cons hcomma _,
          .seq (matches_word "," _) (.cons (h.2 node hnode more hmore) .nil)⟩)
        hstop hdrops
      refine ⟨some (node, nodes.map fun node => (Token.ofText ",", node, ()), ()), ?_, .some ?_⟩
      · simp [listItems, Function.comp_def]
      · simp only [List.map_cons, Spelling.separated, List.flatMap_map, List.append_assoc]
        exact .seq (h.1 _ hmany.1) (.cons hmany.2 .nil)

/-- The value of one of the later branches as a value of the choice. -/
def Gram.ofLater : (n : Nat) → (gs : List Gram) → ValueAny (gs.drop n) → ValueAny gs
  | 0, _, value => value
  | _ + 1, [], value => value
  | n + 1, _ :: gs, value => .inr (ofLater n gs value)

/-- The branches that begin with other words are passed over. -/
theorem Gram.MatchesAny.after (n : Nat) {gs : List Gram} {value : ValueAny (gs.drop n)} {w : String}
    {more rest : List String}
    (hbegins : ∀ g ∈ gs.take n,
      g.skips = false ∧ g.begins Production.begins (Token.ofText w) = false)
    (h : MatchesAny .start (gs.drop n) value (toks (w :: more)) (toks rest)) :
    MatchesAny .start gs (ofLater n gs value) (toks (w :: more)) (toks rest) := by
  induction n generalizing gs with
  | zero => exact h
  | succ n ih =>
      cases gs with
      | nil => exact h
      | cons g gs =>
          rw [List.take_succ_cons, List.forall_mem_cons] at hbegins
          obtain ⟨⟨hg, hw⟩, hothers⟩ := hbegins
          exact .later (drops_of_not_begins hg hw) (ih hothers h)

theorem exists_cons_of_matches {p : Production} {node : p.Node} {words : List String}
    {rest : List Token} (h : Matches .start (call p) node (toks words) rest) :
    ∃ w more, words = w :: more ∧ p.begins (Token.ofText w) = true := by
  obtain ⟨t, more, heq, hbegins⟩ := begins_of_matches rfl h
  cases words with
  | nil => cases heq
  | cons w words =>
      cases heq
      exact ⟨w, words, rfl, hbegins⟩

namespace ReadsBack

/-- A node that is read back begins with none of the words that no sentence begins with. -/
theorem follows {p : Production} {stops stops' rest : List String} {node : p.Node}
    (h : ReadsBack p stops node) (hrest : Follows stops rest)
    (hstops : ∀ w ∈ stops', p.begins (Token.ofText w) = false) :
    Follows stops' (Spelling.node p node ++ rest) := by
  obtain ⟨w, more, heq, hbegins⟩ := exists_cons_of_matches (h rest hrest)
  rw [heq]
  refine .cons (fun hmem => ?_) more
  rw [hstops w hmem] at hbegins
  cases hbegins

theorem qualifiedName {first : String} {parts : List String} (hfirst : kind? first = some .ident)
    (hparts : ∀ part ∈ parts, kind? part = some .ident) :
    ReadsBack .qualifiedName ["."] ⟨.start, first, parts⟩ := by
  intro rest hrest
  have hmany := matches_many (seq (Gram.word ".") [ident]) parts
    (fun part => (Token.ofText ".", Token.ofText part, ())) (fun part => [".", part])
    (fun _ => True) rfl
    (fun part hpart more _ => ⟨trivial, .seq (matches_word "." _)
      (.cons (matches_kind (hparts part hpart) more) .nil)⟩)
    trivial (drops_seq ["."] hrest)
  refine matches_call (.seq (matches_kind hfirst _) (.cons hmany.2 .nil)) ?_
  simp [Production.build, Function.comp_def]

theorem value {cond : Conditional} {stops : List String} (h : ReadsBack .conditional stops cond)
    (hstops : ∀ w ∈ stops, w ∈ exprStops) : ReadsBack .expr exprStops (.value cond) := by
  intro rest hrest
  exact matches_call (.seq (h rest (hrest.mono hstops))
    (.cons (.none (drops_seq assignOps (hrest.mono (by decide)))) .nil)) rfl

theorem assign {target : Conditional} {op : String} {value : Expr}
    (htarget : ReadsBack .conditional choiceStops target) (hop : op ∈ assignOps)
    (hvalue : ReadsBack .expr exprStops value) :
    ReadsBack .expr exprStops (.assign target op value) := by
  intro rest hrest
  have hstop : op ∉ choiceStops := by
    revert op
    decide
  simp only [Spelling.node, Spelling.expr, List.append_assoc, List.cons_append]
  exact matches_call (.seq (htarget _ (.cons hstop _))
    (.cons (.some (.seq (matches_words hop _) (.cons (hvalue rest hrest) .nil))) .nil)) rfl

theorem plain {test : Binary} (h : ReadsBack .binary binaryStops test) :
    ReadsBack .conditional choiceStops (.plain test) := by
  intro rest hrest
  exact matches_call (.seq (h rest (hrest.mono (by decide)))
    (.cons (.none (drops_seq ["?"] (hrest.mono (by decide)))) .nil)) rfl

theorem choice {test : Binary} {yes no : Expr} (htest : ReadsBack .binary binaryStops test)
    (hyes : ReadsBack .expr exprStops yes) (hno : ReadsBack .expr exprStops no) :
    ReadsBack .conditional exprStops (.choice test yes no) := by
  intro rest hrest
  simp only [Spelling.node, Spelling.conditional, List.append_assoc, List.cons_append]
  exact matches_call (.seq (htest _ (.cons (by decide) _)) (.cons (.some (.seq (matches_word "?" _)
    (.cons (hyes _ (.cons (by decide) _)) (.cons (matches_word ":" _)
      (.cons (hno rest hrest) .nil))))) .nil)) rfl

theorem opTerm {op : String} {operand : Unary} (hop : op ∈ binaryOps)
    (h : ReadsBack .unary operandStops operand) :
    ReadsBack .opTerm operandStops ⟨.start, op, operand⟩ := fun rest hrest =>
  matches_call (.seq (matches_words hop _) (.cons (h rest hrest) .nil)) rfl

theorem binary {head : Unary} {tail : List OpTerm} (hhead : ReadsBack .unary operandStops head)
    (htail : ∀ term ∈ tail, ReadsBack .opTerm operandStops term) :
    ReadsBack .binary binaryStops ⟨head, tail⟩ := by
  intro rest hrest
  have hmany := matches_many (call Production.opTerm) tail (fun term => term) Spelling.opTerm
    (Follows operandStops) rfl
    (fun term hterm more hmore => by
      have hall : ∀ w ∈ operandStops, Production.opTerm.begins (Token.ofText w) = false := by decide
      exact ⟨(htail term hterm).follows hmore hall, htail term hterm more hmore⟩)
    (hrest.mono (by decide))
    (drops_of_follows _ rfl (fun t ht => List.mem_append_right _ (begins_of_body rfl ht)) hrest)
  simp only [Spelling.node, Spelling.binary, Spelling.opTerms_eq, List.append_assoc]
  refine matches_call (.seq (hhead _ hmany.1) (.cons hmany.2 .nil)) ?_
  simp [Production.build]

theorem unary {ops : List String} {operand : Postfix}
    (hops : ∀ op ∈ ops, op ∈ unaryOps)
    (h : ReadsBack .postfixExpr operandStops operand) :
    ReadsBack .unary operandStops ⟨.start, ops, operand⟩ := by
  intro rest hrest
  have hoperand := h rest hrest
  have hdrops : Drops .start (Gram.words unaryOps)
      (toks (Spelling.postfixExpr operand ++ rest)) :=
    drops_of_follows _ rfl (fun t => begins_words unaryOps) (h.follows hrest (by decide))
  have hmany := matches_many (Gram.words unaryOps) ops Token.ofText (fun op => [op])
    (fun _ => True) rfl (fun op hop more _ => ⟨trivial, matches_words (hops op hop) more⟩) trivial
    hdrops
  rw [List.flatMap_singleton'] at hmany
  simp only [Spelling.node, Spelling.unary, List.append_assoc]
  refine matches_call (.seq hmany.2 (.cons hoperand .nil)) ?_
  simp [Production.build, Function.comp_def]

theorem member {name : String} (h : kind? name = some .ident) :
    ReadsBack .suffixPart [] (.member .start name) := fun _ _ =>
  matches_call (.alt (.here (.seq (matches_word "." _) (.cons (matches_kind h _) .nil)))) rfl

theorem index {key : Expr} (h : ReadsBack .expr exprStops key) :
    ReadsBack .suffixPart [] (.index .start key) := by
  intro rest _
  simp only [Spelling.node, Spelling.suffixPart, List.append_assoc, List.cons_append,
    List.nil_append]
  exact matches_call (.alt (.after 1 (by decide) (.here (.seq (matches_word "[" _)
    (.cons (h _ (.cons (by decide) _)) (.cons (matches_word "]" rest) .nil)))))) rfl

theorem call {args : List Expr} (h : ∀ arg ∈ args, ReadsBack .expr exprStops arg) :
    ReadsBack .suffixPart [] (.call .start args) := by
  intro rest _
  obtain ⟨value, rfl, hargs⟩ :=
    matches_commaList .expr ")" h (by decide) (by decide) (by decide) rest
  simp only [Spelling.node, Spelling.suffixPart, Spelling.exprs_eq, List.append_assoc,
    List.cons_append, List.nil_append]
  exact matches_call (.alt (.after 2 (by decide) (.here (.seq (matches_word "(" _)
    (.cons hargs (.cons (matches_word ")" rest) .nil)))))) rfl

theorem postfixExpr {inner : Primary} {suffixes : List Suffix} {update : Option String}
    (hinner : ReadsBack .primary [] inner)
    (hsuffixes : ∀ part ∈ suffixes, ReadsBack .suffixPart [] part)
    (hupdate : ∀ op ∈ update, op ∈ updateOps) :
    ReadsBack .postfixExpr operandStops ⟨inner, suffixes, update⟩ := by
  intro rest hrest
  have hend : Follows [".", "[", "("] (update.toList ++ rest) ∧
    ∃ value : (opt (words updateOps)).Value,
      value.map Token.text = update ∧
        Matches .start (opt (words updateOps)) value (toks (update.toList ++ rest))
          (toks rest) := by
    cases update with
    | none =>
        refine ⟨hrest.mono (by decide), none, rfl, .none ?_⟩
        exact drops_of_follows _ rfl (fun t ht => begins_words updateOps ht)
          (hrest.mono (by decide))
    | some op =>
        have hop := hupdate op rfl
        have hall : ∀ op ∈ updateOps, op ∉ [".", "[", "("] := by decide
        exact ⟨.cons (hall op hop) _, some (Token.ofText op), rfl, .some (matches_words hop rest)⟩
  obtain ⟨hfollows, value, rfl, hvalue⟩ := hend
  have hmany := matches_many (Gram.call .suffixPart) suffixes (fun part => part) Spelling.suffixPart
    (Follows []) rfl
    (fun part hpart more hmore =>
      ⟨(hsuffixes part hpart).follows hmore (by simp), hsuffixes part hpart more hmore⟩)
    (hfollows.mono (by simp)) (drops_of_follows _ rfl (fun t ht => begins_suffixPart ht) hfollows)
  simp only [Spelling.node, Spelling.postfixExpr, Spelling.suffixParts_eq, List.append_assoc]
  refine matches_call (.seq (hinner _ hmany.1) (.cons hmany.2 (.cons hvalue .nil))) ?_
  simp [Production.build]

theorem number {text : String} (h : kind? text = some .number) :
    ReadsBack .primary [] (.number .start text) := fun rest _ =>
  matches_call (.alt (.here (matches_kind h rest))) rfl

theorem string {text : String} (h : kind? text = some .string) :
    ReadsBack .primary [] (.string .start text) := by
  intro rest _
  refine matches_call (.alt (.later (drops_of_not_begins rfl ?_) (.here (matches_kind h rest)))) rfl
  simp [Gram.begins, Terminal.accepts, Token.kind_ofText h]

theorem bool {text : String} (h : text ∈ ["true", "false"]) :
    ReadsBack .primary [] (.bool .start text) := by
  intro rest _
  have hbegins : ∀ text ∈ ["true", "false"], ∀ g ∈ [kind .number, kind .string],
      g.skips = false ∧ g.begins Production.begins (Token.ofText text) = false := by decide
  exact matches_call (.alt (.after 2 (hbegins text h) (.here (matches_words h rest)))) rfl

theorem null : ReadsBack .primary [] (.null .start) := fun rest _ =>
  matches_call (.alt (.after 3 (by decide) (.here (matches_word "null" rest)))) rfl

theorem this : ReadsBack .primary [] (.this .start) := fun rest _ =>
  matches_call (.alt (.after 4 (by decide) (.here (matches_word "this" rest)))) rfl

theorem ident {name : String} (h : kind? name = some .ident) :
    ReadsBack .primary [] (.ident .start name) := by
  intro rest _
  have hname : name ∉ ["true", "false", "null", "this", "super", "new", "function", "[",
      "\x7b"] := by
    intro hmem
    have hall : ∀ w ∈ ["true", "false", "null", "this", "super", "new", "function", "[", "\x7b"],
        kind? w ≠ some .ident := by decide
    exact hall name hmem h
  simp only [List.mem_cons, List.not_mem_nil, or_false, not_or] at hname
  refine matches_call (.alt (.later ?_ (.later ?_ (.later ?_ (.later ?_ (.later ?_ (.later ?_
    (.later ?_ (.later ?_ (.later ?_ (.later ?_ (.here (matches_kind h rest))))))))))))) rfl
  all_goals
    refine drops_of_not_begins rfl ?_
    simp [Gram.begins, Gram.skips, Production.begins, Production.beginsUpTo, Terminal.accepts,
      Token.kind_ofText h, hname]

theorem newCall {type : QualifiedName} {args : List Expr}
    (htype : ReadsBack .qualifiedName ["."] type)
    (hargs : ∀ arg ∈ args, ReadsBack .expr exprStops arg) :
    ReadsBack .newExpr [] (.newCall .start type args) := by
  intro rest _
  obtain ⟨value, rfl, hargs⟩ :=
    matches_commaList .expr ")" hargs (by decide) (by decide) (by decide) rest
  simp only [Spelling.node, Spelling.primary, Spelling.exprs_eq, List.append_assoc,
    List.cons_append, List.nil_append]
  exact matches_call (.seq (matches_word "new" _) (.cons (htype _ (.cons (by decide) _))
    (.cons (.some (.seq (matches_word "(" _) (.cons hargs (.cons (matches_word ")" rest) .nil))))
      .nil))) rfl

theorem array {elements : List Expr} (h : ∀ e ∈ elements, ReadsBack .expr exprStops e) :
    ReadsBack .arrayLiteral [] (.array .start elements) := by
  intro rest _
  obtain ⟨value, rfl, helements⟩ :=
    matches_commaList .expr "]" h (by decide) (by decide) (by decide) rest
  simp only [Spelling.node, Spelling.primary, Spelling.exprs_eq, List.append_assoc,
    List.cons_append, List.nil_append]
  exact matches_call (.seq (matches_word "[" _)
    (.cons helements (.cons (matches_word "]" rest) .nil))) rfl

theorem property {key : String} {value : Expr}
    (hkey : kind? key = some .ident ∨ kind? key = some .string ∨ kind? key = some .number)
    (hvalue : ReadsBack .expr exprStops value) :
    ReadsBack .property exprStops ⟨.start, key, value⟩ := by
  intro rest hrest
  have hterminal : [Terminal.kind .ident, .kind .string, .kind .number].any
      (·.accepts (Token.ofText key)) = true := by
    obtain h | h | h := hkey <;> simp [Terminal.accepts, Token.kind_ofText h]
  exact matches_call (.seq (.token hterminal) (.cons (matches_word ":" _)
    (.cons (hvalue rest hrest) .nil))) rfl

theorem object {properties : List Property}
    (h : ∀ p ∈ properties, ReadsBack .property exprStops p) :
    ReadsBack .objectLiteral [] (.object .start properties) := by
  intro rest _
  obtain ⟨value, rfl, hproperties⟩ :=
    matches_commaList .property "\x7d" h (by decide) (by decide) (by decide) rest
  simp only [Spelling.node, Spelling.primary, Spelling.properties_eq, List.append_assoc,
    List.cons_append, List.nil_append]
  exact matches_call (.seq (matches_word "\x7b" _)
    (.cons hproperties (.cons (matches_word "\x7d" rest) .nil))) rfl

theorem paren {inner : Expr} (h : ReadsBack .expr exprStops inner) :
    ReadsBack .primary [] (.paren .start inner) := by
  intro rest _
  simp only [Spelling.node, Spelling.primary, List.append_assoc, List.cons_append, List.nil_append]
  exact matches_call (.alt (.after 11 (by decide) (.here (.seq (matches_word "(" _)
    (.cons (h _ (.cons (by decide) _)) (.cons (matches_word ")" rest) .nil)))))) rfl

/-- A production that begins with a fixed word, as a branch of another one. -/
theorem branch {p q : Production} {w : String} {gs : List Gram} {stops : List String}
    {node : p.Node} {node' : q.Node} (h : ReadsBack p stops node)
    (hbody : p.body = .seq (.words [w]) gs) (hspell : Spelling.node q node' = Spelling.node p node)
    (hbranch : ∀ more rest, Matches .start (Gram.call p) node (toks (w :: more)) (toks rest) →
      Matches .start (Gram.call q) node' (toks (w :: more)) (toks rest)) :
    ReadsBack q stops node' := by
  intro rest hrest
  have hnode := h rest hrest
  obtain ⟨w', more, hwords, hbegins⟩ := exists_cons_of_matches hnode
  obtain rfl : w' = w := List.mem_singleton.1 (begins_of_body hbody hbegins)
  rw [hspell, hwords]
  rw [hwords] at hnode
  exact hbranch more rest hnode

theorem ofNewExpr {inner : Primary} (h : ReadsBack .newExpr [] inner) :
    ReadsBack .primary [] inner :=
  h.branch rfl rfl fun _ _ h => matches_call (.alt (.after 6 (by decide) (.here h))) rfl

theorem ofFunctionExpr {inner : Primary} (h : ReadsBack .functionExpr [] inner) :
    ReadsBack .primary [] inner :=
  h.branch rfl rfl fun _ _ h => matches_call (.alt (.after 7 (by decide) (.here h))) rfl

theorem ofArrayLiteral {inner : Primary} (h : ReadsBack .arrayLiteral [] inner) :
    ReadsBack .primary [] inner :=
  h.branch rfl rfl fun _ _ h => matches_call (.alt (.after 8 (by decide) (.here h))) rfl

theorem ofObjectLiteral {inner : Primary} (h : ReadsBack .objectLiteral [] inner) :
    ReadsBack .primary [] inner :=
  h.branch rfl rfl fun _ _ h => matches_call (.alt (.after 9 (by decide) (.here h))) rfl

end ReadsBack

end Script
end ScriptWeave
