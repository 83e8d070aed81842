import ScriptWeave.Project.Yaml.Scalar
import ScriptWeave.Project.Yaml.Tag

/-!
The tokens of a file. Blocks have no brackets: they open where a line is indented further and close
where one is indented less. A key is only known by the colon after it, so tokens wait in a queue as
long as a key may start at the first of them.
-/

namespace ScriptWeave
namespace Project
namespace Yaml

inductive Token where
  | directive (directive : Directive)
  | documentStart
  | documentEnd
  | streamEnd
  | blockSequence
  | blockMapping
  | blockEnd
  | flowSequence
  | flowSequenceEnd
  | flowMapping
  | flowMappingEnd
  | flowEntry
  | entry
  | key
  | value
  | alias (name : String)
  | anchor (name : String)
  | tag (handle suffix : String)
  | scalar (plain : Bool) (text : String)
deriving DecidableEq, Repr

/-- A token that a key may start with. -/
structure Candidate where
  /-- How many tokens stand before it in the file. -/
  number : Nat
  /-- Whether nothing but a key may stand there. -/
  required : Bool
  index : Nat
  line : Nat
  column : Nat
deriving Repr

/-- Tokens that have been read, and what is needed to read more. -/
structure Scanner where
  cursor : Cursor
  queue : List Token
  /-- How many tokens have left the queue. -/
  taken : Nat
  /-- The least column of lines that belong to values in the innermost block; zero outside of
  all. -/
  margin : Nat
  outerMargins : List Nat
  /-- Where a key may have started inside of the innermost brackets. -/
  candidate : Option Candidate
  outerCandidates : List (Option Candidate)
  /-- Whether a key may start here. -/
  keyAllowed : Bool

namespace Scanner

/-- The first token stands for the start of a file and has already left the queue. -/
def ofCursor (c : Cursor) : Scanner := ⟨c, [], 1, 0, [], none, [], true⟩

/-- Whether brackets are open. -/
def inFlow (s : Scanner) : Bool := !s.outerCandidates.isEmpty

def push (s : Scanner) (t : Token) : Scanner := { s with queue := s.queue ++ [t] }

/-- Puts a token in front of the one with the given number. -/
def insert (s : Scanner) (number : Nat) (t : Token) : Scanner :=
  let n := number - s.taken
  { s with queue := s.queue.take n ++ t :: s.queue.drop n }

def nextNumber (s : Scanner) : Nat := s.taken + s.queue.length

/-- Whether a candidate may still be a key: it stands in the same line, and not too far away.
Nothing if it had to be one. -/
def isOpen? (s : Scanner) (k : Candidate) : Option Bool :=
  if k.line < s.cursor.line || k.index + 1024 < s.cursor.index then
    if k.required then none else some false
  else some true

/-- Gives a candidate up. -/
def dropCandidate? (s : Scanner) : Option Scanner :=
  if s.candidate.any (·.required) then none else some { s with candidate := none }

/-- Makes the next token a candidate if a key may start here. -/
def markCandidate? (s : Scanner) : Option Scanner :=
  if s.keyAllowed then
    let k : Candidate :=
      { number := s.nextNumber
        required := !s.inFlow && s.margin = s.cursor.column + 1
        index := s.cursor.index
        line := s.cursor.line
        column := s.cursor.column }
    s.dropCandidate?.map fun s => { s with candidate := some k }
  else some s

/-- Opens a block at a column if it lies further to the right than the innermost one. -/
def openBlock (s : Scanner) (column number : Nat) (t : Token) : Scanner :=
  if !s.inFlow && s.margin ≤ column then
    { s.insert number t with margin := column + 1, outerMargins := s.margin :: s.outerMargins }
  else s

/-- Closes the blocks, innermost first, whose margin is above the given one. -/
def closeBlocks (margin : Nat) : List Nat → Scanner → Scanner
  | [], s => s
  | outer :: more, s =>
      if margin < s.margin then
        closeBlocks margin more { s.push .blockEnd with margin := outer, outerMargins := more }
      else s

/-- Closes all blocks that a token at a column, or a token between documents, does not belong to. -/
def close (s : Scanner) (margin : Nat) : Scanner :=
  if s.inFlow then s else closeBlocks margin s.outerMargins s

/-- The place after a comment and the comments in the lines below it. -/
def skipComments : Nat → Cursor → Cursor
  | 0, c => c
  | fuel + 1, c =>
      let c := c.skipLine
      let isGap (x : Char) : Bool := isBlank x || x = '\n' || x = '\r'
      match c.rest with
      | x :: rest =>
          if isGap x && (rest.dropWhile isGap).head? = some '#' then
            skipComments fuel (skipGap (c.rest.length + 1) c)
          else c
      | [] => c
where
  skipGap : Nat → Cursor → Cursor
    | 0, c => c
    | fuel + 1, c =>
        match c.break? with
        | some (_, next) => skipGap fuel next
        | none => if c.rest.head?.any isBlank then skipGap fuel (c.advance 1) else c

/-- Skips everything up to the next token. -/
def skipToToken : Nat → Scanner → Scanner
  | 0, s => s
  | fuel + 1, s =>
      let c := s.cursor.skipWhile fun x => x = ' ' || (x = '\t' && (s.inFlow || !s.keyAllowed))
      let c := if c.rest.head? = some '#' then skipComments (c.rest.length + 1) c else c
      match c.break? with
      | some (_, next) =>
          skipToToken fuel { s with cursor := next, keyAllowed := s.keyAllowed || !s.inFlow }
      | none => { s with cursor := c }

/-- Skips a comment in the line of the token just read. -/
def skipLineComment (s : Scanner) : Scanner :=
  let c := s.cursor.skipBlanks
  if c.rest.head? = some '#' then { s with cursor := c.skipLine } else s

/-- Adds an indicator of one character. -/
def indicator (s : Scanner) (t : Token) : Scanner :=
  { s.push t with cursor := s.cursor.advance 1 }

def readFlowStart? (s : Scanner) (t : Token) : Option Scanner := do
  let s ← s.markCandidate?
  let s := { s with candidate := none, outerCandidates := s.candidate :: s.outerCandidates,
                    keyAllowed := true }
  return s.indicator t

def readFlowEnd? (s : Scanner) (t : Token) : Option Scanner := do
  let s ← s.dropCandidate?
  let s := match s.outerCandidates with
    | [] => s
    | outer :: more => { s with candidate := outer, outerCandidates := more }
  return { s with keyAllowed := false }.indicator t

def readFlowEntry? (s : Scanner) : Option Scanner := do
  let s ← s.dropCandidate?
  return { s with keyAllowed := true }.indicator .flowEntry

def readEntry? (s : Scanner) : Option Scanner := do
  if !s.inFlow && !s.keyAllowed then none
  let s := s.openBlock s.cursor.column s.nextNumber .blockSequence
  let s ← s.dropCandidate?
  return { s with keyAllowed := true }.indicator .entry

def readKey? (s : Scanner) : Option Scanner := do
  if !s.inFlow && !s.keyAllowed then none
  let s := s.openBlock s.cursor.column s.nextNumber .blockMapping
  let s ← s.dropCandidate?
  return { s with keyAllowed := !s.inFlow }.indicator .key

/-- A colon makes the candidate a key; without one, it follows a key that has been marked as
such. -/
def readValue? (s : Scanner) : Option Scanner := do
  let isKey ← match s.candidate with
    | some k => s.isOpen? k
    | none => some false
  match isKey, s.candidate with
  | true, some k =>
      let s := (s.insert k.number .key).openBlock k.column k.number .blockMapping
      return { s with candidate := none, keyAllowed := false }.indicator .value
  | _, _ =>
      if !s.inFlow && !s.keyAllowed then none
      let s := s.openBlock s.cursor.column s.nextNumber .blockMapping
      return { s with candidate := none, keyAllowed := !s.inFlow }.indicator .value

/-- Adds a token that starts a node and that a key may start with. -/
def readProperty? (s : Scanner) (read : Cursor → Option (Token × Cursor)) : Option Scanner := do
  let s ← s.markCandidate?
  let (t, c) ← read s.cursor
  return { s.push t with cursor := c, keyAllowed := false }

def readPlainScalar? (s : Scanner) : Option Scanner := do
  let s ← s.markCandidate?
  let (text, atBreak, c) ←
    readPlain? s.inFlow s.margin (s.cursor.rest.length + 1) [] Gap.none s.cursor
  let s := { s.push (.scalar true (String.ofList text)) with cursor := c, keyAllowed := atBreak }
  return if atBreak then s else s.skipLineComment

def readBlockScalar? (s : Scanner) (folded : Bool) : Option Scanner := do
  let s ← s.dropCandidate?
  let (text, c) ← readBlock? folded s.margin (s.cursor.advance 1)
  return { s.push (.scalar false (String.ofList text)) with cursor := c, keyAllowed := true }

/-- Adds a token that stands between documents. -/
def readBetween? (s : Scanner) (t : Token) (c : Cursor) : Option Scanner := do
  let s ← (s.close 0).dropCandidate?
  return { s.push t with cursor := c, keyAllowed := false }

/-- Characters that plain text never starts with. -/
def indicators : List Char :=
  [',', '[', ']', '{', '}', '#', '&', '*', '!', '|', '>', '\'', '"', '%', '@', '\x60']

/-- Whether plain text may start with these characters. -/
def startsPlain (inFlow : Bool) : List Char → Bool
  | [] => false
  | x :: rest =>
      if x = '-' then !rest.head?.any isBlank
      else if x = '?' ∨ x = ':' then !inFlow && !endsWord rest
      else !endsWord (x :: rest) && !indicators.contains x

/-- Reads the next token and what it implies about blocks and keys before it. -/
def readToken? (s : Scanner) : Option Scanner := do
  let s := skipToToken (s.cursor.rest.length + 1) s
  let s := s.close (s.cursor.column + 1)
  let c := s.cursor
  match c.rest with
  | [] =>
      let line := if c.column = 0 then c.line else c.line + 1
      s.readBetween? .streamEnd { c with line, column := 0 }
  | x :: rest =>
      if c.column = 0 && x = '%' then
        let (directive, after) ← readDirective? (c.advance 1)
        s.readBetween? (.directive directive) after
      else if c.atMark then
        s.readBetween? (if x = '-' then .documentStart else .documentEnd) (c.advance 3)
      else if x = '-' && endsWord rest then s.readEntry?
      else if (x = '|' || x = '>') && !s.inFlow then s.readBlockScalar? (x = '>')
      else if x = '[' then (s.readFlowStart? .flowSequence).map skipLineComment
      else if x = '{' then (s.readFlowStart? .flowMapping).map skipLineComment
      else if x = ']' then (s.readFlowEnd? .flowSequenceEnd).map skipLineComment
      else if x = '}' then (s.readFlowEnd? .flowMappingEnd).map skipLineComment
      else if x = ',' then s.readFlowEntry?.map skipLineComment
      else if x = '?' && (s.inFlow || endsWord rest) then s.readKey?.map skipLineComment
      else if x = ':' && (s.inFlow || endsWord rest) then s.readValue?.map skipLineComment
      else if x = '*' then
        (s.readProperty? fun c => do
          let (name, after) ← readName? (c.advance 1)
          return (.alias name, after)).map skipLineComment
      else if x = '&' then
        (s.readProperty? fun c => do
          let (name, after) ← readName? (c.advance 1)
          return (.anchor name, after)).map skipLineComment
      else if x = '!' then
        (s.readProperty? fun c => do
          let ((handle, suffix), after) ← readTag? c
          return (.tag handle suffix, after)).map skipLineComment
      else if x = '\'' || x = '"' then
        (s.readProperty? fun c => do
          let (text, after) ← readQuoted? x (c.rest.length + 1) [] (c.advance 1)
          return (.scalar false (String.ofList text), after)).map skipLineComment
      else if startsPlain s.inFlow c.rest then s.readPlainScalar?
      else none

/-- Whether more has to be read before the first token may leave the queue. Two tokens have to stand
behind it, and it must not be a candidate. -/
def needsMore? (s : Scanner) : Option Bool :=
  if s.queue.length < 3 then some true
  else
    match (s.candidate :: s.outerCandidates).reduceOption.find? (·.number = s.taken) with
    | some k => s.isOpen? k
    | none => some false

/-- Fills the queue. -/
def fill? : Nat → Scanner → Option Scanner
  | 0, _ => none
  | fuel + 1, s => do
      if ← s.needsMore? then fill? fuel (← s.readToken?) else return s

/-- The first token, which stays in the queue. -/
def peek? (s : Scanner) : Option (Token × Scanner) := do
  let s ← fill? (s.cursor.rest.length + 4) s
  return (← s.queue.head?, s)

/-- Takes the first token from the queue. -/
def drop (s : Scanner) : Scanner := { s with queue := s.queue.drop 1, taken := s.taken + 1 }

end Scanner
end Yaml
end Project
end ScriptWeave
