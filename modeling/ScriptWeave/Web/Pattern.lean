import ScriptWeave.Text.Affix
import ScriptWeave.Text.Case
import ScriptWeave.Text.Decimal
import ScriptWeave.Text.Utf8

/-!
Route patterns: fixed text and parameters in turn. A parameter with a name ends at a slash or in
front of the fixed text after it and may be optional; a star and a plus sign are greedy. Case and
slashes at the end do not count. A parameter may be restricted between angle brackets.
-/

namespace ScriptWeave

open Text

/-- A restriction of a parameter, by its name and its arguments. -/
structure Restriction where
  name : String
  arguments : List String
deriving DecidableEq, Repr

namespace Restriction

/-- A whole number in decimal digits with a sign. -/
def whole? (s : String) : Option Int :=
  let digits := match s.toList with
    | '-' :: cs | '+' :: cs => cs
    | cs => cs
  if digits.isEmpty || !digits.all Char.isDigit then none
  else
    let n : Int := decimalValue digits
    let signed := if beginsWith "-" s then -n else n
    if -(signedBound : Int) ≤ signed ∧ signed < signedBound then some signed else none

/-- A whole number, or zero. -/
def wholeOrZero (s : String) : Int := (whole? s).getD 0

/-- Whether a text is an identifier of 32 hexadecimal digits in groups. -/
def isIdentifier (s : String) : Bool :=
  let groups := split '-' s
  groups.map String.length = [8, 4, 4, 4, 12] &&
    groups.all fun group => group.toList.all fun c => (digitValue? c).any (· < 16)

/-- Restrictions that no value meets if their arguments are missing. -/
def demanding : List String :=
  ["minlen", "maxlen", "len", "betweenlen", "min", "max", "range", "datetime", "regex"]

/-- Whether a value meets a restriction. Unknown restrictions are met. -/
def isMet (r : Restriction) (value : String) : Bool :=
  let size : Int := value.utf8ByteSize
  match r.name, r.arguments with
  | "int", _ => (whole? value).isSome
  | "bool", _ => (readBool? value).isSome
  | "float", _ => (Decimal.read? value.toList).isSome
  | "alpha", _ => value.toList.all fun c => c.isAlpha || 0x80 ≤ c.toNat
  | "guid", _ => isIdentifier value
  | "minlen", n :: _ => wholeOrZero n ≤ size
  | "maxlen", n :: _ => size ≤ wholeOrZero n
  | "len", n :: _ => size = wholeOrZero n
  | "betweenlen", a :: b :: _ => wholeOrZero a ≤ size && size ≤ wholeOrZero b
  | "min", n :: _ => (whole? value).any (wholeOrZero n ≤ ·)
  | "max", n :: _ => (whole? value).any (· ≤ wholeOrZero n)
  | "range", a :: b :: _ => (whole? value).any fun v => wholeOrZero a ≤ v && v ≤ wholeOrZero b
  | name, _ => !demanding.contains name

end Restriction

inductive PatternPart where
  | fixed (text : List Char)
  | parameter (name : String) (greedy optional : Bool) (restrictions : List Restriction)
deriving DecidableEq, Repr

namespace PatternPart

def isParameter : PatternPart → Bool
  | parameter .. => true
  | fixed _ => false

def name? : PatternPart → Option String
  | parameter name .. => some name
  | fixed _ => none

end PatternPart

/-- A route path by its parts. -/
abbrev Pattern : Type := List PatternPart

namespace Pattern

/-- Characters that a parameter starts with. -/
def startMarks : List Char := [':', '*', '+']

/-- Characters that a parameter ends in front of. -/
def endMarks : List Char := [':', '\\', '/', '-', '.']

/-- Where the first of some characters stands that has no backslash in front. -/
def findMark? (marks : List Char) : Option Char → List Char → Option Nat
  | _, [] => none
  | before, c :: cs =>
      if marks.contains c && before ≠ some '\\' then some 0
      else (findMark? marks (some c) cs).map (· + 1)

/-- Where the first of some characters stands outside of a restriction, counting only the first
occurrence of each. -/
def findMarkOutside? (marks : List Char) (cs : List Char) : Option Nat :=
  let place (mark : Char) : Int := ((findMark? [mark] none cs).map Int.ofNat).getD (-1)
  let first := place '<'
  let last := place '>'
  let found : List Nat := marks.filterMap fun mark => (cs.findIdx? (· = mark)).filter fun i =>
    (first < (i : Int) && last < (i : Int)) || ((i : Int) < first && (i : Int) < last)
  found.min?

def withoutEscapes (cs : List Char) : List Char := cs.filter (· ≠ '\\')

/-- Where the next parameter starts; of two marks in front of a name the second one counts. -/
def nextParameter? (cs : List Char) : Option Nat :=
  (findMark? startMarks none cs).map fun i =>
    if cs[i]? ≠ some '*' && findMark? startMarks none (cs.drop (i + 1)) = some 0 then i + 1 else i

/-- How many characters belong to the parameter at the start. -/
def parameterLength (cs : List Char) : Nat :=
  let marks := '?' :: endMarks
  let found :=
    if cs.contains '<' && cs.contains '>' then findMarkOutside? marks (cs.drop 1)
    else findMark? marks none (cs.drop 1)
  if cs.head? ≠ some ':' then 1
  else
    match found with
    | none => cs.length
    | some i => if cs[i + 1]? = some '?' then i + 2 else i + 1

/-- The restrictions between angle brackets, separated by semicolons. -/
def restrictionsOf (cs : List Char) : List Restriction :=
  (splitChars ';' cs).map fun one =>
    match one.findIdx? (· = '('), findLastIn? [')'] one with
    | some i, some j =>
        ⟨String.ofList (one.take i),
          (splitChars ',' ((one.take j).drop (i + 1))).map fun argument =>
            String.ofList (withoutEscapes argument)⟩
    | _, _ => ⟨String.ofList one, []⟩

/-- The name of a parameter without its marks. -/
def trimName (cs : List Char) : String :=
  let cs := match cs with
    | ':' :: rest => if rest.getLast? = some '?' then rest.dropLast else rest
    | _ => cs
  String.ofList (withoutEscapes cs)

/-- A parameter by its text; greedy ones are numbered. -/
def readParameter (stars pluses : Nat) (cs : List Char) : PatternPart :=
  match cs with
  | '*' :: _ => .parameter ("*" ++ toString (stars + 1)) true true []
  | '+' :: _ => .parameter ("+" ++ toString (pluses + 1)) true false []
  | _ =>
      let optional := cs.getLast? = some '?'
      match findMark? ['<'] none cs.dropLast, findLastIn? ['>'] cs with
      | some i, some j =>
          .parameter (trimName (cs.take i)) false optional
            (restrictionsOf ((cs.take j).drop (i + 1)))
      | _, _ => .parameter (trimName cs) false optional []

/-- Reads the parts of a path. -/
def read : Nat → Nat → Nat → List Char → Pattern
  | 0, _, _, _ => []
  | _ + 1, _, _, [] => []
  | fuel + 1, stars, pluses, c :: cs =>
      match nextParameter? (c :: cs) with
      | some 0 =>
          let length := parameterLength (c :: cs)
          readParameter stars pluses ((c :: cs).take length) ::
            read fuel (if c = '*' then stars + 1 else stars)
              (if c = '+' then pluses + 1 else pluses) ((c :: cs).drop length)
      | next =>
          let length := next.getD (c :: cs).length
          .fixed (withoutEscapes ((c :: cs).take length)) ::
            read fuel stars pluses ((c :: cs).drop length)

def ofChars (cs : List Char) : Pattern := read (cs.length + 1) 0 0 cs

/-- Text without the slashes at its end. -/
def trimSlashes (cs : List Char) : List Char := (cs.reverse.dropWhile (· = '/')).reverse

/-- The fixed text that follows, by which the end of a parameter is found. -/
def nextText (following : Pattern) : List Char :=
  match following.findSome? (fun | .fixed text => some text | .parameter .. => none) with
  | some text => if 1 < text.length then trimSlashes text else text
  | none => []

/-- How often a text occurs in the fixed text that follows. -/
def occurrences (part : List Char) (following : Pattern) : Nat :=
  (following.map fun
    | .fixed text => countIn part text
    | .parameter .. => 0).foldl (· + ·) 0

/-- The text in front of the last occurrences of a part. -/
def beforeLast (part : List Char) : Nat → List Char → List Char
  | 0, cs => cs
  | n + 1, cs =>
      match findLastIn? part cs with
      | some i => beforeLast part n (cs.take i)
      | none => cs

/-- How many characters a parameter takes. -/
def valueLength (greedy : Bool) (following : Pattern) (cs : List Char) : Nat :=
  match following with
  | [] => if greedy then cs.length else (cs.takeWhile (· ≠ '/')).length
  | next :: _ =>
      let part := nextText following
      let single := !greedy && match next with
        | .parameter _ greedyNext _ _ => !greedyNext
        | .fixed _ => false
      if single && !cs.isEmpty then 1
      else
        let count := countIn part cs
        if greedy && 1 < count then
          (beforeLast part (min (if part.isEmpty then 0 else occurrences part following) count)
            cs).length
        else
          match findIn? part cs with
          | some i => if part.length ≠ 1 && !greedy && (cs.take i).contains '/' then 0 else i
          | none => cs.length

/-- Whether the slash at the end of fixed text may be missing. -/
def slashMayMiss : Pattern → Bool
  | [] => true
  | .parameter _ _ optional _ :: _ => optional
  | .fixed _ :: _ => false

/-- The values of a path's parameters. The path is compared in the form `folded`, and values are
taken from `path`. A pattern may also be asked to match only the start. -/
def match? (onlyStart : Bool) : Pattern → List Char → List Char → Option (List String)
  | [], folded, _ => if folded.isEmpty || onlyStart then some [] else none
  | .fixed text :: following, folded, path =>
      if text.getLast? = some '/' && slashMayMiss following && folded = text.dropLast then
        match? onlyStart following [] (path.drop folded.length)
      else if text.isPrefixOf folded then
        match? onlyStart following (folded.drop text.length) (path.drop text.length)
      else none
  | .parameter _ greedy optional restrictions :: following, folded, path =>
      let length := valueLength greedy following folded
      let value := String.ofList (path.take length)
      if length = 0 && !optional then none
      else if 0 < length && !restrictions.all (·.isMet value) then none
      else (match? onlyStart following (folded.drop length) (path.drop length)).map (value :: ·)

end Pattern

/-- A route of patterns. -/
structure PatternRoute (α : Type) where
  method : String
  /-- The path in lower case without slashes at its end. -/
  path : List Char
  pattern : Pattern
  names : List String
  handler : α

namespace PatternRoute

variable {α : Type}

def methods : List String :=
  ["GET", "HEAD", "POST", "PUT", "DELETE", "CONNECT", "OPTIONS", "TRACE", "PATCH"]

/-- The method of routes that take every method and all paths that start like them. -/
def anyMethod : String := "USE"

/-- A route, or the message about a method that does not exist. -/
def ofPath (method path : String) (handler : α) : Except String (PatternRoute α) :=
  let method := upper method
  if method ≠ anyMethod && !methods.contains method then
    .error ("add: invalid http method " ++ method ++ "\n")
  else
    let cs := if path.toList.head? = some '/' then path.toList else '/' :: path.toList
    let lowered := cs.map Char.toLower
    let folded := if 1 < cs.length then Pattern.trimSlashes lowered else lowered
    .ok ⟨method, folded, .ofChars folded, (Pattern.ofChars cs).filterMap (·.name?), handler⟩

/-- The area of a route: the first three bytes of its fixed text. -/
def area (r : PatternRoute α) : List UInt8 :=
  match r.pattern with
  | .fixed text :: _ =>
      let bytes := text.flatMap Utf8.ofChar
      if 3 ≤ bytes.length then bytes.take 3 else []
  | _ => []

/-- The values of a path's parameters, if the route takes the path. -/
def match? (r : PatternRoute α) (folded path : List Char) : Option (List String) :=
  if r.path = ['/'] && folded = ['/'] then some []
  else if r.path = "/*".toList then some [String.ofList (path.drop 1)]
  else
    let isAny := r.method = anyMethod
    let byPattern := if r.names.isEmpty then none else r.pattern.match? isAny folded path
    match byPattern with
    | some values => some values
    | none =>
        let text := Pattern.withoutEscapes r.path
        let taken := if isAny then r.path = ['/'] || text.isPrefixOf folded else text = folded
        if taken then some [] else none

/-- A path as it is compared: in lower case without slashes at its end. -/
def fold (path : List Char) : List Char :=
  let lowered := path.map Char.toLower
  if 1 < path.length then Pattern.trimSlashes lowered else lowered

/-- The routes of a method that are tried for a path: those of its area and those without one. -/
def tried (routes : List (PatternRoute α)) (method : String) (folded : List Char) :
    List (PatternRoute α) :=
  let bytes := (folded.flatMap Utf8.ofChar)
  let area := if 3 ≤ bytes.length then bytes.take 3 else []
  routes.filter fun r =>
    (r.method = method || r.method = anyMethod) && (r.area.isEmpty || r.area = area)

/-- The first route of a method that takes a path, with the values of its parameters. -/
def find? (routes : List (PatternRoute α)) (method path : String) :
    Option (PatternRoute α × List (String × String)) :=
  (tried routes method (fold path.toList)).findSome? fun r =>
    (r.match? (fold path.toList) path.toList).map fun values => (r, r.names.zip values)

/-- Whether a route of another method takes a path. -/
def isTakenOtherwise (routes : List (PatternRoute α)) (method path : String) : Bool :=
  methods.any fun other => other ≠ method &&
    (tried routes other (fold path.toList)).any fun r =>
      r.method ≠ anyMethod && (r.match? (fold path.toList) path.toList).isSome

end PatternRoute
end ScriptWeave
