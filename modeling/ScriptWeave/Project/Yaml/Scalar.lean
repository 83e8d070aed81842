import ScriptWeave.Project.Yaml.Cursor
import ScriptWeave.Text.Hex

/-!
Texts of scalars: plain words, quoted text and blocks of lines. A line break between two words
becomes a space, and of several breaks all but the first are kept.
-/

namespace ScriptWeave
namespace Project
namespace Yaml

/-- What stands between two words. -/
structure Gap where
  /-- Blanks before the first line break. -/
  blanks : List Char
  breaks : List Char
  /-- Whether the first line break was escaped, so that it does not count. -/
  escaped : Bool
deriving Repr

namespace Gap

def none : Gap := ⟨[], [], false⟩

/-- Whether the gap goes on in another line. -/
def crossesLine (g : Gap) : Bool := g.escaped || !g.breaks.isEmpty

/-- The text of a gap. -/
def text (g : Gap) : List Char :=
  if g.escaped then g.breaks
  else
    match g.breaks with
    | [] => g.blanks
    | ['\n'] => [' ']
    | '\n' :: breaks => breaks
    | breaks => breaks

end Gap

/-- The rest of a gap, and the place after it. A tab must not indent a line up to the given
column. -/
def readGap? (margin : Nat) : Nat → Gap → Cursor → Option (Gap × Cursor)
  | 0, _, _ => none
  | fuel + 1, g, c =>
      match c.rest with
      | [] => some (g, c)
      | x :: _ =>
          if isBlank x then
            if g.crossesLine then
              if x = '\t' && c.column < margin then none else readGap? margin fuel g (c.advance 1)
            else readGap? margin fuel { g with blanks := g.blanks ++ [x] } (c.advance 1)
          else
            match c.break? with
            | some (b, next) => readGap? margin fuel { g with breaks := g.breaks ++ [b] } next
            | none => some (g, c)

/-- The plain word at the start of a text. Brackets, commas and question marks end it inside of
brackets. -/
def plainWord (inFlow : Bool) : List Char → List Char
  | [] => []
  | x :: rest =>
      if endsWord (x :: rest) || (x = ':' && endsWord rest) ||
          (inFlow && [',', '?', '[', ']', '{', '}'].contains x) then []
      else x :: plainWord inFlow rest

/-- The rest of plain text after a gap; also tells whether a line break follows the last word. -/
def readPlain? (inFlow : Bool) (margin : Nat) :
    Nat → List Char → Gap → Cursor → Option (List Char × Bool × Cursor)
  | 0, _, _, _ => none
  | fuel + 1, text, g, c => do
      if c.atMark || c.rest.head? = some '#' then return (text, g.crossesLine, c)
      let word := plainWord inFlow c.rest
      let text := if word.isEmpty then text else text ++ g.text ++ word
      let pending := if word.isEmpty then g else Gap.none
      let c := c.advance word.length
      if c.rest.isEmpty || !endsWord c.rest then return (text, pending.crossesLine, c)
      let (next, c) ← readGap? margin (c.rest.length + 1) pending c
      if !inFlow && c.column < margin then return (text, next.crossesLine, c)
      readPlain? inFlow margin fuel text next c

/-- What an escape of one letter stands for. -/
def escaped? : Char → Option Char
  | '0' => some (Char.ofNat 0)
  | 'a' => some (Char.ofNat 7)
  | 'b' => some (Char.ofNat 8)
  | 't' | '\t' => some '\t'
  | 'n' => some '\n'
  | 'v' => some (Char.ofNat 11)
  | 'f' => some (Char.ofNat 12)
  | 'r' => some '\r'
  | 'e' => some (Char.ofNat 27)
  | ' ' => some ' '
  | '"' => some '"'
  | '\'' => some '\''
  | '\\' => some '\\'
  | 'N' => some (Char.ofNat 0x85)
  | '_' => some (Char.ofNat 0xa0)
  | 'L' => some (Char.ofNat 0x2028)
  | 'P' => some (Char.ofNat 0x2029)
  | _ => none

/-- How many hexadecimal digits follow an escape. -/
def hexLength? : Char → Option Nat
  | 'x' => some 2
  | 'u' => some 4
  | 'U' => some 8
  | _ => none

/-- The character of an escape after its backslash, and how many characters the escape takes. -/
def readEscape? : List Char → Option (Char × Nat)
  | [] => none
  | x :: rest =>
      match hexLength? x with
      | some n => do
          if (rest.take n).length < n then none
          let point ← Text.hexNumber? (rest.take n)
          if point.isValidChar then some (Char.ofNat point, n + 1) else none
      | none => (escaped? x).map fun char => (char, 1)

/-- A word of quoted text; also tells whether an escaped line break ends it. -/
def quotedWord? (quote : Char) : Nat → Cursor → Option (List Char × Bool × Cursor)
  | 0, _ => none
  | fuel + 1, c =>
      let and (x : Char) (next : Cursor) : Option (List Char × Bool × Cursor) :=
        (quotedWord? quote fuel next).map fun (word, atBreak, after) => (x :: word, atBreak, after)
      if endsWord c.rest then some ([], false, c)
      else
        match c.rest with
        | '\'' :: '\'' :: _ =>
            if quote = '\'' then and '\'' (c.advance 2) else and '\'' (c.advance 1)
        | x :: rest =>
            if x = quote then some ([], false, c)
            else if quote = '"' && x = '\\' then
              match (c.advance 1).break? with
              | some (_, next) => some ([], true, next)
              | none => do
                  let (char, length) ← readEscape? rest
                  and char (c.advance (length + 1))
            else and x (c.advance 1)
        | [] => none

/-- The rest of quoted text, and the place after the closing quote. -/
def readQuoted? (quote : Char) : Nat → List Char → Cursor → Option (List Char × Cursor)
  | 0, _, _ => none
  | fuel + 1, text, c => do
      if c.atMark || c.rest.isEmpty then none
      let (word, atBreak, c) ← quotedWord? quote (c.rest.length + 1) c
      if c.rest.head? = some quote then return (text ++ word, c.advance 1)
      let (g, c) ← readGap? 0 (c.rest.length + 1) { Gap.none with escaped := atBreak } c
      readQuoted? quote fuel (text ++ word ++ g.text) c

/-- Which line breaks at the end of a block belong to its text. -/
inductive Chomping where
  | strip
  | clip
  | keep
deriving DecidableEq, Repr

/-- Skips indentation and empty lines of a block. Without a column for the lines of the block, all
spaces are skipped, and the greatest column reached is told. -/
def readBlockGap? (column : Option Nat) : Nat → Nat → List Char → Cursor →
    Option (List Char × Nat × Cursor)
  | 0, _, _, _ => none
  | fuel + 1, reached, breaks, c => do
      let spaces := (c.rest.takeWhile (· = ' ')).length
      let skipped := match column with
        | none => spaces
        | some n => min spaces (n - c.column)
      let c := c.advance skipped
      let reached := max reached c.column
      if c.rest.head? = some '\t' && column.all (c.column < ·) then none
      match c.break? with
      | some (b, next) => readBlockGap? column fuel reached (breaks ++ [b]) next
      | none => return (breaks, reached, c)

/-- What has been read of a block. -/
structure Block where
  text : List Char
  /-- The break after the last line. -/
  lineBreak : List Char
  /-- The breaks of the empty lines that follow. -/
  breaks : List Char
  /-- Whether the last line starts with a blank. -/
  blank : Bool

/-- Reads the lines of a block. In a folded one, a break between two lines without blanks in front
becomes a space or goes away. -/
def readBlockLines? (folded : Bool) (column : Nat) : Nat → Block → Cursor → Option (Block × Cursor)
  | 0, _, _ => none
  | fuel + 1, b, c => do
      if c.column ≠ column || c.rest.isEmpty then return (b, c)
      let blank := c.rest.head?.any isBlank
      let joint :=
        if folded && !b.blank && !blank && b.lineBreak = ['\n'] then
          if b.breaks.isEmpty then [' '] else []
        else b.lineBreak
      let line := c.rest.takeWhile fun x => !isBreak x
      let c := c.advance line.length
      let (lineBreak, c) := match c.break? with
        | some (x, next) => ([x], next)
        | none => ([], c)
      let (breaks, _, c) ← readBlockGap? (some column) (c.rest.length + 1) 0 [] c
      readBlockLines? folded column fuel
        ⟨b.text ++ joint ++ b.breaks ++ line, lineBreak, breaks, blank⟩ c

/-- The marks after the indicator of a block: how it ends and how far it is indented; each may be
missing. -/
def readBlockMarks? (c : Cursor) : Option (Chomping × Option Nat × Cursor) :=
  let chomping? (c : Cursor) : Option Chomping :=
    if c.rest.head? = some '+' then some .keep
    else if c.rest.head? = some '-' then some .strip
    else none
  let indent? (c : Cursor) : Option Nat :=
    c.rest.head?.bind fun x => if x.isDigit then some (x.toNat - '0'.toNat) else none
  match chomping? c with
  | some chomping =>
      let c := c.advance 1
      match indent? c with
      | some 0 => none
      | some n => some (chomping, some n, c.advance 1)
      | none => some (chomping, none, c)
  | none =>
      match indent? c with
      | some 0 => none
      | some n =>
          let c := c.advance 1
          match chomping? c with
          | some chomping => some (chomping, some n, c.advance 1)
          | none => some (.clip, some n, c)
      | none => some (.clip, none, c)

/-- The text of a block after its indicator, which stands in a block whose lines start before the
column `margin`. -/
def readBlock? (folded : Bool) (margin : Nat) (c : Cursor) : Option (List Char × Cursor) := do
  let (chomping, indent, c) ← readBlockMarks? c
  let c := c.skipBlanks
  let c := if c.rest.head? = some '#' then c.skipLine else c
  if !endsLine c.rest then none
  let c := match c.break? with
    | some (_, next) => next
    | none => c
  let column := indent.map fun n => (margin - 1) + n
  let (breaks, reached, c) ← readBlockGap? column (c.rest.length + 1) 0 [] c
  let column := column.getD (max (max reached margin) 1)
  let (b, c) ← readBlockLines? folded column (c.rest.length + 1) ⟨[], [], breaks, false⟩ c
  let ending := match chomping with
    | .strip => []
    | .clip => b.lineBreak
    | .keep => b.lineBreak ++ b.breaks
  return (b.text ++ ending, c)

end Yaml
end Project
end ScriptWeave
