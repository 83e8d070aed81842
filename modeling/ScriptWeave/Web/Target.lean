import ScriptWeave.Text.Affix
import ScriptWeave.Text.Hex
import ScriptWeave.Text.Quoted
import ScriptWeave.Text.Utf8

/-!
What a request asks for: a path and a query. Both may contain escaped bytes, a percent sign and two
hexadecimal digits each.
-/

namespace ScriptWeave

open Text

namespace Target

/-- The byte of two hexadecimal digits. -/
def hexByte? (a b : Char) : Option UInt8 := (hexNumber? [a, b]).map UInt8.ofNat

/-- The bytes of a text with its escapes replaced, or the start of a malformed escape. -/
def unescape (plusIsBlank : Bool) : List Char → Except String (List UInt8)
  | [] => .ok []
  | '%' :: a :: b :: cs =>
      match hexByte? a b with
      | some byte => (unescape plusIsBlank cs).map (byte :: ·)
      | none => .error (String.ofList ['%', a, b])
  | c :: cs =>
      if c = '%' then .error (String.ofList ((c :: cs).take 3))
      else
        (unescape plusIsBlank cs).map
          (Utf8.ofChar (if plusIsBlank && c = '+' then ' ' else c) ++ ·)

/-- A text with its escapes and plus signs replaced; malformed escapes stay as they are, and so does
everything after a percent sign with fewer than two characters behind it. -/
def unescapeLeniently : List Char → List UInt8
  | [] => []
  | '%' :: a :: b :: cs =>
      match hexByte? a b with
      | some byte => byte :: unescapeLeniently cs
      | none => Utf8.ofChar '%' ++ unescapeLeniently (a :: b :: cs)
  | c :: cs =>
      if c = '%' then (c :: cs).flatMap Utf8.ofChar
      else Utf8.ofChar (if c = '+' then ' ' else c) ++ unescapeLeniently cs

/-- Characters that need no escape in a path. -/
def isPathChar (c : Char) : Bool :=
  c.isAlphanum || ['-', '_', '.', '~', '$', '&', '+', ',', '/', ':', ';', '=', '@'].contains c

/-- Characters that may stand in a path without an escape though they are usually escaped. -/
def isTolerated (c : Char) : Bool := ['!', '\'', '(', ')', '*', '[', ']', '%'].contains c

/-- A path with exactly the escapes that it needs. -/
def escapePath (bytes : List UInt8) : String :=
  String.ofList (bytes.flatMap fun b =>
    let c := Char.ofNat b.toNat
    if b.toNat < 0x80 && isPathChar c then [c]
    else '%' :: (hexPadded 2 b.toNat).map Char.toUpper)

end Target

structure Target where
  /-- The path as it was written. -/
  written : String
  /-- The bytes of the path, with its escapes replaced. -/
  bytes : List UInt8
  query : String
  /-- Whether the target ends with a question mark and has no query. -/
  bareQuery : Bool
deriving DecidableEq, Repr

namespace Target

/-- The path with its escapes replaced. -/
def path (t : Target) : String := Utf8.decode t.bytes

/-- Whether a path is written with exactly the escapes that it needs. -/
def isCanonical (t : Target) : Bool := t.written = escapePath t.bytes

/-- The path by which an engine that respects needless escapes finds a route. -/
def routingPath (t : Target) : String := if t.isCanonical then t.path else t.written

/-- The path as it is sent on. -/
def sentPath (t : Target) : String :=
  if t.written.toList.all fun c => isPathChar c || isTolerated c then t.written
  else escapePath t.bytes

/-- The query with its question mark. -/
def querySuffix (t : Target) : String :=
  if t.query ≠ "" || t.bareQuery then "?" ++ t.query else ""

/-- A name and a value around the first equals sign. -/
def splitPair (pair : String) : List Char × List Char :=
  let key := pair.toList.takeWhile (· ≠ '=')
  (key, pair.toList.drop (key.length + 1))

/-- The first value of a name in the query. Pairs with semicolons or malformed escapes do not
count. -/
def parameter (t : Target) (name : String) : String :=
  ((split '&' t.query).findSome? fun pair =>
    let (key, value) := splitPair pair
    match unescape true key, unescape true value with
    | .ok k, .ok v =>
        if pair ≠ "" && !pair.toList.contains ';' && Utf8.decode k = name then some (Utf8.decode v)
        else none
    | _, _ => none).getD ""

/-- The first value of a name in the query up to a number sign, whatever characters the query
has. -/
def lenientParameter (t : Target) (name : String) : String :=
  ((split '&' (String.ofList (t.query.toList.takeWhile (· ≠ '#')))).findSome? fun pair =>
    let (key, value) := splitPair pair
    if pair ≠ "" && pair ≠ "=" && Utf8.decode (unescapeLeniently key) = name then
      some (Utf8.decode (unescapeLeniently value))
    else none).getD ""

/-- Why a target cannot be requested. -/
inductive Flaw where
  | empty
  | controlCharacter
  | notAPath
  | badEscape (start : String)
deriving DecidableEq, Repr

def Flaw.text : Flaw → String
  | empty => "empty url"
  | controlCharacter => "net/url: invalid control character in URL"
  | notAPath => "invalid URI for request"
  | badEscape start => "invalid URL escape " ++ quoted start

/-- The characters after the name of a protocol and a host, if both are there. -/
def afterHost? (cs : List Char) : Option (List Char) :=
  let scheme := cs.takeWhile fun c => c.isAlphanum || c = '+' || c = '-' || c = '.'
  match scheme, cs.drop scheme.length with
  | first :: _, ':' :: '/' :: '/' :: rest =>
      if first.isAlpha then some (rest.dropWhile fun c => c ≠ '/' && c ≠ '?') else none
  | _, _ => none

/-- Reads a target. The query starts at the first question mark. -/
def read (text : String) : Except Flaw Target :=
  let cs := text.toList
  if cs.any fun c => c.toNat < 0x20 || c.toNat = 0x7f then .error .controlCharacter
  else if cs.isEmpty then .error .empty
  else
    let rest := if cs = ['*'] || cs.head? = some '/' then some cs else afterHost? cs
    match rest with
    | none => .error .notAPath
    | some rest =>
        let written := rest.takeWhile (· ≠ '?')
        let query := rest.drop (written.length + 1)
        match unescape false written with
        | .error start => .error (.badEscape start)
        | .ok bytes =>
            .ok ⟨String.ofList written, bytes, String.ofList query,
              query.isEmpty && written.length < rest.length⟩

end Target
end ScriptWeave
