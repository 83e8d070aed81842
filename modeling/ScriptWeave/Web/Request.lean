import ScriptWeave.Text.Json
import ScriptWeave.Web.Target

/-!
Requests and their first lines: a method, a target and the version of the protocol, with blanks
between them.
-/

namespace ScriptWeave

open Text

structure Request where
  method : String
  target : Target
  headers : List (String × String)
  /-- Whether the client has gone away. -/
  cancelled : Bool

namespace Request

/-- The value of a header, whatever the case of its name. -/
def header (r : Request) (name : String) : String :=
  ((r.headers.find? fun h => h.1.toLower = name.toLower).map (·.2)).getD ""

/-- Why a first line is no request. -/
inductive Flaw where
  | line (text : String)
  | method (text : String)
  | version (text : String)
  | target (text : String) (flaw : Target.Flaw)
deriving DecidableEq, Repr

def Flaw.text : Flaw → String
  | line text => "malformed HTTP request " ++ quoted text
  | method text => "invalid method " ++ quoted text
  | version text => "malformed HTTP version " ++ quoted text
  | target text flaw => "parse " ++ quoted text ++ ": " ++ flaw.text

/-- Characters of methods. -/
def isMethodChar (c : Char) : Bool :=
  c.isAlphanum ||
    ['!', '#', '$', '%', '&', '\'', '*', '+', '-', '.', '^', '_', '\x60', '|', '~'].contains c

/-- The words around the first blank. -/
def cut (cs : List Char) : List Char × List Char :=
  let first := cs.takeWhile (· ≠ ' ')
  (first, cs.drop (first.length + 1))

/-- Reads a method and a target from a first line. -/
def readLine (line : List Char) : Except Flaw (String × Target) :=
  let (method, rest) := cut line
  let (target, version) := cut rest
  if !rest.contains ' ' then .error (.line (String.ofList line))
  else if method.isEmpty || !method.all isMethodChar then .error (.method (String.ofList method))
  else if version ≠ "HTTP/1.0".toList then .error (.version (String.ofList version))
  else
    match Target.read (String.ofList target) with
    | .ok t => .ok (String.ofList method, t)
    | .error flaw => .error (.target (String.ofList target) flaw)

/-- A request, or the message of a crash if there is no such request. Without a method it is
`GET`. -/
def read (method target : String) (headers : List (String × String)) (cancelled : Bool) :
    Except String Request :=
  let method := if method = "" then "GET" else method
  let line := (method ++ " " ++ target ++ " HTTP/1.0").toList.takeWhile (· ≠ '\n')
  match readLine line with
  | .ok (method, target) => .ok ⟨method, target, headers, cancelled⟩
  | .error flaw => .error ("invalid NewRequest arguments; " ++ flaw.text)

end Request

inductive ResponseBody where
  | empty
  | text (content : String)
  | json (content : Json)

structure Response where
  status : Nat
  mediaType : String
  headers : List (String × String)
  body : ResponseBody

namespace Response

def ofJson (status : Nat) (content : Json) : Response :=
  ⟨status, "application/json", [], .json content⟩

def ofText (status : Nat) (content : String) : Response := ⟨status, "text/plain", [], .text content⟩

/-- A response without any content. -/
def bare (status : Nat) : Response := ⟨status, "", [], .empty⟩

/-- A response whose content is only a message under a name. -/
def message (status : Nat) (name text : String) : Response :=
  ofJson status (.object [(name, .string text)])

/-- A response to a request that wants no content. -/
def withoutBody (r : Response) : Response := { r with body := .empty }

end Response
end ScriptWeave
