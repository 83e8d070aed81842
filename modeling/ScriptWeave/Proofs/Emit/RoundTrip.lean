import ScriptWeave.Proofs.Emit.Printed
import ScriptWeave.Proofs.Script.Homes

/-!
Printing and parsing. The printed text of a top-level function whose names stand for themselves is
parsed again, and what is parsed is the normal form of the function.
-/

namespace ScriptWeave

namespace Script

open Gram

/-- A function is read from lexemes of a text. -/
def Function.Read (f : Function) : Prop :=
  ∃ stop used rest, Production.reads stop .function (used ++ rest) = .matched f rest ∧
    ∀ t ∈ used, t.Genuine

/-- The top-level functions of a node have been read. -/
def FunctionsRead : (p : Production) → p.Node → Prop
  | .file, file => ∀ d ∈ file.decls, ∀ f, d.body = .function f → f.Read
  | .decl, d => ∀ f, d.body = .function f → f.Read
  | .function, f => f.Read
  | _, _ => True

theorem functionsRead_of_reads {stop : Position} (p : Production) {input rest : List Token}
    {node : p.Node} (h : Production.reads stop p input = .matched node rest) :
    ∃ used, input = used ++ rest ∧ ((∀ t ∈ used, t.Genuine) → FunctionsRead p node) := by
  let R : Judgement := fun p node used => (∀ t ∈ used, t.Genuine) → FunctionsRead p node
  refine Production.reads_induction stop (R := R) ?_ p h
  intro p input value rest used hread hused hfits hgenuine
  have heach := Fits.each (fun _ _ _ h => h) p.body hfits hgenuine
  cases p with
  | file => exact heach.2.2.2.2.1
  | decl =>
      obtain ⟨modifiers, body, ⟨⟩⟩ := value
      rcases body with c | f | ⟨v, _, ⟨⟩⟩ | ⟨⟨⟩⟩
      · exact fun f hf => by cases hf
      · rintro _ ⟨⟩
        exact heach.2.1
      · exact fun f hf => by cases hf
  | function =>
      refine ⟨stop, used, rest, ?_, hgenuine⟩
      rw [← hused, Production.reads_eq, hread]
      rfl
  | _ => trivial

/-- Every top-level function of a parsed file has been read from lexemes. -/
theorem function_read_of_parse {text : String} {file : File} (h : parse text = .ok file)
    {d : Decl} (hd : d ∈ file.decls) {f : Function} (hf : d.body = .function f) : f.Read := by
  obtain ⟨ts, stop, htokens, hreads⟩ := (parse_eq_ok_iff text file).1 h
  obtain ⟨all, hscan, rfl⟩ := tokens_eq_ok htokens
  obtain ⟨used, hused, hfunctions⟩ := functionsRead_of_reads .file hreads
  rw [List.append_nil] at hused
  subst hused
  refine hfunctions ?_ d hd f hf
  intro t ht
  rw [List.mem_filter, Bool.not_eq_true'] at ht
  exact Lexer.kind?_of_scan hscan t ht.1 ht.2

/-- A text that is cut into the words of one declaration in the top-level package is parsed. -/
theorem parse_of_lexed {text : String} {d : Decl}
    (htext : Lexed text.toList ("package" :: "\x7b" :: (Spelling.decl d ++ ["\x7d"])))
    (hd : ReadsBack .decl [] d) :
    ∃ file, parse text = .ok file ∧ Unplaced.file file = ⟨.start, none, [], [d]⟩ := by
  obtain ⟨ts, stop, htokens, hwords⟩ := htext.tokens_eq_ok
  have hmatch : Production.reads .start .file (ts.map Token.unplaced) =
      .matched ⟨.start, none, [], [d]⟩ [] := by
    rw [hwords]
    exact hd.file
  rw [Production.reads_unplaced stop] at hmatch
  cases hreads : Production.reads stop .file ts with
  | matched file rest =>
      rw [hreads] at hmatch
      obtain ⟨hfile, hrest⟩ : Unplaced.file file = _ ∧ rest.map Token.unplaced = [] := by
        simpa [Reading.unplaced, Unplaced.node] using hmatch
      cases List.map_eq_nil_iff.1 hrest
      exact ⟨file, (parse_eq_ok_iff text file).2 ⟨ts, stop, htokens, hreads⟩, hfile⟩
  | unmatched | failed left =>
      rw [hreads] at hmatch
      cases hmatch

end Script

namespace Emit

open Script Script.Lexeme
open Piece (space newline indent line commas words)

/-- The text of one declaration in the top-level package. -/
def packaged (link : Symbol → String) (pieces : List Piece) : String :=
  "package \x7b\n" ++ Piece.renderAll link pieces ++ "\x7d\n"

theorem lexed_packaged {link : Symbol → String} {pieces : List Piece} {words : List String}
    (h : Written link pieces words Anything) :
    Lexed (packaged link pieces).toList ("package" :: "\x7b" :: (words ++ ["\x7d"])) := by
  have hclose : Lexed ("\x7d".toList ++ ['\n']) ["\x7d"] :=
    .mark (by decide) (.newline .nil)
  have hopen : Lexed ("package".toList ++ ' ' :: ("\x7b".toList ++ '\n' ::
      (chars link pieces ++ ("\x7d".toList ++ ['\n'])))) _ :=
    .spaced (by decide) (.mark (by decide) (.newline (h _ _ trivial hclose)))
  simpa [packaged, chars] using hopen

/-- The function has no `super`, and all of its names stand for themselves. -/
def Bare (m : Resolve.Module) (f : Function) : Prop :=
  "super" ∉ Spelling.function f ∧
    ∀ r ∈ References.function .outer f, ∃ b ∈ m.binding? r.key, b.target.isBare = true

instance (m : Resolve.Module) (f : Function) : Decidable (Bare m f) :=
  inferInstanceAs (Decidable (_ ∧ _))

/-- The printed text of a function is parsed again, and yields its normal form. -/
theorem parse_printed_function (text : String) (source : Source) (table : SymbolTable)
    (m : Resolve.Module) (hparse : parse text = .ok source.file)
    (hrun : Resolve.run source table = .ok m) (d : Decl) (hd : d ∈ source.file.decls)
    (f : Function) (hf : d.body = .function f) (hbare : Bare m f) (link : Symbol → String)
    (depth : Nat) :
    ∃ file, parse (packaged link (decl (.ofModule m) depth d)) = .ok file ∧
      Unplaced.file file = ⟨.start, none, [], [⟨.start, [], .function (Normal.function f)⟩]⟩ := by
  obtain ⟨stop, used, rest, hreads, hgenuine⟩ := function_read_of_parse hparse hd hf
  have hclean : ∀ t ∈ used, Normal.Clean t := by
    obtain ⟨used', hused, hspelled, _⟩ := Production.spelled_of_reads stop .function hreads
    cases List.append_cancel_right hused
    intro t ht
    refine ⟨hgenuine t ht, fun htext => hbare.1 ?_⟩
    have hmem : t.text ∈ used.map (·.text) := List.mem_map_of_mem ht
    rw [hspelled, htext] at hmem
    exact hmem
  obtain ⟨used', hused, hback⟩ := Normal.readsBack_function hreads
  cases List.append_cancel_right hused
  obtain ⟨used', hused, hwritten⟩ := written_function link hreads
  cases List.append_cancel_right hused
  have hpieces : decl (.ofModule m) depth d = function .plain depth
      [.word "function", space, .word f.name] f.params f.body [] [] := by
    rw [decl, hf]
    exact keeps_function (keeps_of_run hparse hrun hd hf hbare.2) depth _ _ _
  rw [hpieces]
  exact parse_of_lexed (lexed_packaged (hwritten hclean depth)) (.functionDecl (hback hclean))

/-- Default values, a constant, a typed variable, two signs in a row, bodies without braces, a chain
of conditions, `new` without arguments, a member of a numeral, and a function literal. -/
def printedText : String :=
  "package a \x7bpublic function f(p:int = 1, q:* = null):void \x7bconst n = - -p;var t:Number;" ++
    "if (q) t = new Array; else if (p) return; else \x7bt++;\x7d " ++
    "while (1 .x) f(function(y = 2) \x7breturn y;\x7d);\x7d\x7d"

theorem parse_printed_function_sample : ∃ source m d f,
    parse printedText = .ok source.file ∧ Resolve.run source .empty = .ok m ∧
      d ∈ source.file.decls ∧ d.body = .function f ∧ Bare m f ∧
      ∀ link depth, ∃ file, parse (packaged link (decl (.ofModule m) depth d)) = .ok file ∧
        Unplaced.file file =
          ⟨.start, none, [], [⟨.start, [], .function (Normal.function f)⟩]⟩ := by
  have hall : ((parse printedText).toOption.any fun file =>
      (Resolve.run ⟨"a/f.as", file⟩ .empty).toOption.any fun m => file.decls.any fun d =>
        match d.body with
        | .function f => decide (Bare m f)
        | _ => false) = true := by decide +kernel
  obtain ⟨file, hparse, hall⟩ := Script.exists_ok_of_any hall
  obtain ⟨m, hrun, hall⟩ := Script.exists_ok_of_any hall
  obtain ⟨d, hd, hdecl⟩ := List.any_eq_true.1 hall
  cases hf : d.body with
  | function f =>
      rw [hf] at hdecl
      have hbare : Bare m f := of_decide_eq_true hdecl
      exact ⟨⟨"a/f.as", file⟩, m, d, f, hparse, hrun, hd, hf, hbare,
        parse_printed_function printedText ⟨"a/f.as", file⟩ .empty m hparse hrun d hd f hf hbare⟩
  | type c | var v => simp [hf] at hdecl

end Emit
end ScriptWeave
