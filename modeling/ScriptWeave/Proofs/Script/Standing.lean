import ScriptWeave.Proofs.Script.Cutting
import ScriptWeave.Proofs.Script.Places
import ScriptWeave.Proofs.Script.Writing

/-!
Where the nodes of a tree stand. The tokens of a parsed text are shared out among the words and the
parts of the file, those of a part among its own words and parts, and so on; each node has the place
of the first token of its share. Together with the cut of the text into lexemes this says which
character of the text every place in a tree means.
-/

namespace ScriptWeave
namespace Script

/-- A word of a node, or a part of it. -/
inductive Item where
  | word (text : String)
  | part (p : Production) (node : p.Node)

/-- The items take up the tokens in order: a word the token of its text, a part those of its own. -/
inductive InOrder (R : Judgement) : List Item → List Token → Prop where
  | nil : InOrder R [] []
  | word {t : Token} {items : List Item} {used : List Token} (h : InOrder R items used) :
      InOrder R (.word t.text :: items) (t :: used)
  | part {p : Production} {node : p.Node} {own : List Token} {items : List Item}
      {used : List Token} (hown : R p node own) (h : InOrder R items used) :
      InOrder R (.part p node :: items) (own ++ used)

namespace Production

/-- The words and the parts of a node in reading order. -/
def items (p : Production) (node : p.Node) : List Item :=
  written (fun text => [.word text]) (fun q part => [.part q part]) p node

/-- The place of a node. -/
def place : (p : Production) → p.Node → Position
  | file, f => f.pos
  | qualifiedName, q => q.pos
  | importDecl, i => i.pos
  | decl, d => d.pos
  | classDecl, c => c.pos
  | member, m => m.pos
  | function, f => f.pos
  | param, p => p.pos
  | typeRef, t => t.pos
  | expr, e => e.pos
  | conditional, c => c.pos
  | binary, b => b.pos
  | unary, u => u.pos
  | postfixExpr, p => p.pos
  | primary, e | newExpr, e | functionExpr, e | arrayLiteral, e | objectLiteral, e => e.pos
  | block, b => b.pos
  | stmt, s | returnStmt, s | ifStmt, s | whileStmt, s | forStmt, s | throwStmt, s | tryStmt, s =>
      s.pos
  | varDecl, v => v.pos
  | forInit, i => i.pos
  | catchClause, c => c.pos
  | property, p => p.pos
  | suffixPart, s => s.pos
  | opTerm, term => term.pos

end Production

/-- A node has the place of its first token, and its parts, among which its tokens are shared out,
have the places of theirs. -/
inductive Stands : (p : Production) → p.Node → List Token → Prop where
  | intro {p : Production} {node : p.Node} {t : Token} {used : List Token}
      (first : p.place node = t.pos) (shared : InOrder Stands (p.items node) (t :: used)) :
      Stands p node (t :: used)

open Gram Production

theorem InOrder.append {R : Judgement} {items items' : List Item} {used used' : List Token}
    (h : InOrder R items used) (h' : InOrder R items' used') :
    InOrder R (items ++ items') (used ++ used') := by
  induction h with
  | nil => exact h'
  | word _ ih => exact .word ih
  | part hown _ ih =>
      rw [List.append_assoc]
      exact .part hown ih

theorem Stands.yields (p : Production) {node : p.Node} {used : List Token}
    (h : Stands p node used) : p.Yields node := by
  cases p with
  | newExpr | functionExpr | arrayLiteral | objectLiteral | returnStmt | ifStmt | whileStmt
  | forStmt | throwStmt | tryStmt =>
      obtain ⟨_, hshared⟩ := h
      cases node <;> first | rfl | cases hshared
  | _ => trivial

theorem Gram.Fits.inOrder {p : Production} (pos : Position) {value : p.body.Value}
    {used : List Token} (h : p.body.Fits Stands value used) :
    InOrder Stands (p.items (p.build pos value)) used := by
  have heach : p.body.Each (fun _ => True) Yields value :=
    Fits.each (fun q _ _ hnode _ => Stands.yields q hnode) p.body h fun _ _ => trivial
  have hcollect : InOrder Stands
      (p.body.collect (fun t => [.word t.text]) (fun q part => [.part q part]) value)
      (used.flatMap fun t => [t]) :=
    h.collect .nil .append (fun _ => .word .nil) fun q node own hnode => by
      have hitem := InOrder.part hnode .nil
      simpa using hitem
  rw [collect_body (fun text => [Item.word text]) (fun q part => [.part q part]) p pos heach]
    at hcollect
  simpa [items] using hcollect

/-- A part in front of a node stands at the first token of the node. -/
theorem Stands.place_of_append (p : Production) {node : p.Node} {front back : List Token}
    {t : Token} {used : List Token} (h : Stands p node front) (heq : t :: used = front ++ back) :
    p.place node = t.pos := by
  obtain ⟨hfirst, _⟩ := h
  cases heq
  exact hfirst

theorem Stands.place_of_cons (p : Production) {node : p.Node} {t : Token} {used : List Token}
    (h : Stands p node (t :: used)) : p.place node = t.pos :=
  h.place_of_append p (List.append_nil _).symm

/-- A node is built at the place that it has. -/
theorem place_build (p : Production) {value : p.body.Value} {t : Token} {used : List Token}
    (h : p.body.Fits Stands value (t :: used)) : p.place (p.build t.pos value) = t.pos := by
  cases p with
  | expr =>
      obtain ⟨target, assignment, ⟨⟩⟩ := value
      obtain ⟨front, back, heq, hfront, _⟩ := h
      have hplace := Stands.place_of_append conditional hfront heq
      cases assignment <;> exact hplace
  | conditional =>
      obtain ⟨test, choice, ⟨⟩⟩ := value
      obtain ⟨front, back, heq, hfront, _⟩ := h
      have hplace := Stands.place_of_append binary hfront heq
      cases choice <;> exact hplace
  | binary =>
      obtain ⟨front, back, heq, hfront, _⟩ := h
      exact Stands.place_of_append unary hfront heq
  | postfixExpr =>
      obtain ⟨front, back, heq, hfront, _⟩ := h
      exact Stands.place_of_append primary hfront heq
  | typeRef =>
      rcases value with _ | _ | q | ⟨⟨⟩⟩
      · rfl
      · rfl
      · exact Stands.place_of_cons qualifiedName h
  | primary =>
      rcases value with u | u | u | u | u | u | e | e | e | e | u | ⟨_, e, _, ⟨⟩⟩ | ⟨⟨⟩⟩
      case inr.inr.inr.inr.inr.inr.inl => exact Stands.place_of_cons newExpr h
      case inr.inr.inr.inr.inr.inr.inr.inl => exact Stands.place_of_cons functionExpr h
      case inr.inr.inr.inr.inr.inr.inr.inr.inl => exact Stands.place_of_cons arrayLiteral h
      case inr.inr.inr.inr.inr.inr.inr.inr.inr.inl => exact Stands.place_of_cons objectLiteral h
      all_goals rfl
  | newExpr =>
      obtain ⟨_, type, args, ⟨⟩⟩ := value
      cases args <;> rfl
  | stmt =>
      rcases value with b | ⟨v, _, ⟨⟩⟩ | s | s | s | s | s | s | ⟨_, _, ⟨⟩⟩ | ⟨_, _, ⟨⟩⟩ | u |
        ⟨e, _, ⟨⟩⟩ | ⟨⟨⟩⟩
      case inl => exact Stands.place_of_cons block h
      case inr.inl =>
        obtain ⟨front, back, heq, hfront, _⟩ := h
        exact Stands.place_of_append varDecl hfront heq
      case inr.inr.inl => exact Stands.place_of_cons returnStmt h
      case inr.inr.inr.inl => exact Stands.place_of_cons ifStmt h
      case inr.inr.inr.inr.inl => exact Stands.place_of_cons whileStmt h
      case inr.inr.inr.inr.inr.inl => exact Stands.place_of_cons forStmt h
      case inr.inr.inr.inr.inr.inr.inl => exact Stands.place_of_cons throwStmt h
      case inr.inr.inr.inr.inr.inr.inr.inl => exact Stands.place_of_cons tryStmt h
      case inr.inr.inr.inr.inr.inr.inr.inr.inr.inr.inr.inl =>
        obtain ⟨front, back, heq, hfront, _⟩ := h
        exact Stands.place_of_append expr hfront heq
      all_goals rfl
  | forInit =>
      rcases value with v | e | ⟨⟨⟩⟩
      · exact Stands.place_of_cons varDecl h
      · exact Stands.place_of_cons expr h
  | suffixPart =>
      rcases value with ⟨_, u, ⟨⟩⟩ | ⟨_, e, _, ⟨⟩⟩ | ⟨_, args, _, ⟨⟩⟩ | ⟨⟨⟩⟩ <;> rfl
  | _ => rfl

/-- What is read of a production stands where it was read. -/
theorem stands_of_reads (stop : Position) (p : Production) {input rest : List Token}
    {node : p.Node} (h : reads stop p input = .matched node rest) :
    ∃ used, input = used ++ rest ∧ Stands p node used := by
  refine judged_of_reads ?_ stop p h
  rintro p pos value _ hfits ⟨t, used, rfl, rfl⟩
  exact .intro (place_build p hfits) (hfits.inOrder t.pos)

/-- A text is cut into lexemes to its end, or up to the first place where no rule fits, and every
lexeme stands behind the text that it follows. Every node of a parsed text stands at the first of
its tokens. -/
theorem cut_and_stands (text : String) :
    (match Lexer.scan .start text.toList with
      | .ok (all, stop) => Lexer.Cut [] text.toList all [] ∧ stop = .behind text.toList
      | .error stuck => ∃ all, Lexer.Cut [] text.toList all stuck.rest ∧ stuck.rest ≠ [] ∧
          Lexer.Unreadable stuck.rest ∧ stuck.pos = .behind (all.flatMap (·.text.toList))) ∧
      ∀ file, parse text = .ok file → ∃ all stop, Lexer.scan .start text.toList = .ok (all, stop) ∧
        Stands .file file (all.filter fun t => !t.kind.isLayout) := by
  constructor
  · cases hscan : Lexer.scan .start text.toList with
    | ok lexed => exact Lexer.cut_of_scan_ok [] hscan
    | error stuck => exact Lexer.cut_of_scan_error [] hscan
  · intro file hparse
    obtain ⟨ts, stop, htokens, hreads⟩ := (parse_eq_ok_iff text file).1 hparse
    obtain ⟨all, hscan, rfl⟩ := tokens_eq_ok htokens
    obtain ⟨used, hused, hstands⟩ := stands_of_reads stop .file hreads
    rw [List.append_nil] at hused
    subst hused
    exact ⟨all, stop, hscan, hstands⟩

/-- A comment and a string that go over several lines, and a slash that opens no comment. -/
def manyLines : String :=
  "package /* a\n b */ \x7bvar s = 'x\ny' + z / 2; // end\n\x7d"

theorem cut_and_stands_manyLines :
    ∃ file all stop, parse manyLines = .ok file ∧
      Lexer.scan .start manyLines.toList = .ok (all, stop) ∧ stop = ⟨4, 2⟩ ∧
      Lexer.Cut [] manyLines.toList all [] ∧
      Stands .file file (all.filter fun t => !t.kind.isLayout) := by
  have hok : (parse manyLines).isOk = true := by decide +kernel
  cases hparse : parse manyLines with
  | error e => simp [hparse, Except.isOk, Except.toBool] at hok
  | ok file =>
      obtain ⟨hcut, hstands⟩ := cut_and_stands manyLines
      obtain ⟨all, stop, hscan, hstands⟩ := hstands file hparse
      rw [hscan] at hcut
      obtain ⟨hcut, hstop⟩ := hcut
      have hplace : Position.behind manyLines.toList = ⟨4, 2⟩ := by decide
      exact ⟨file, all, stop, rfl, hscan, hstop.trans hplace, hcut, hstands⟩

end Script
end ScriptWeave
