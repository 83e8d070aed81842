import ScriptWeave.Fault.Basic
import ScriptWeave.Text.Path
import ScriptWeave.Web.Pattern
import ScriptWeave.Web.Request
import ScriptWeave.Web.Route
import ScriptWeave.Web.SegmentTree
import ScriptWeave.Web.StepSearch

/-!
Web engines. An engine finds the endpoint of a request and has its own answers for requests that no
endpoint takes and for handlers that fail.
-/

namespace ScriptWeave

open Text

inductive Engine where
  | echo
  | gin
  | fiber
deriving DecidableEq, Repr

namespace Engine

def title : Engine → String
  | echo => "Echo"
  | gin => "Gin"
  | fiber => "Fiber"

def ofName (name : String) : Except Fault Engine :=
  if name = "echo" then .ok echo
  else if name = "gin" then .ok gin
  else if name = "fiber" then .ok fiber
  else .error (.plain ("unknown web engine " ++ quoted name) none)

/-- The path of a request as handlers see it. -/
def pathOf (e : Engine) (r : Request) : String :=
  match e with
  | echo | gin => r.target.path
  | fiber => r.target.sentPath

/-- The value of a name in the query of a request. -/
def queryOf (e : Engine) (r : Request) (name : String) : String :=
  match e with
  | echo | gin => r.target.parameter name
  | fiber => r.target.lenientParameter name

/-- The value of a header. One engine takes values without blanks around them, and in one line. -/
def headerOf (e : Engine) (r : Request) (name : String) : String :=
  match e with
  | echo | gin => r.header name
  | fiber =>
      let isBlank (c : Char) : Bool := c = ' ' || c = '\t'
      let line := (r.header name).toList.map fun c => if c = '\n' || c = '\r' then ' ' else c
      String.ofList ((line.dropWhile isBlank).reverse.dropWhile isBlank).reverse

/-- Whether handlers learn that the client has gone away. -/
def noticesCancelled (e : Engine) (r : Request) : Bool :=
  match e with
  | echo | gin => r.cancelled
  | fiber => false

end Engine

/-- A handler at a route. -/
structure Endpoint (α : Type) where
  method : String
  route : Route
  handler : α

/-- The routes of an engine in the form in which it searches them. -/
inductive Routing (α : Type) where
  | ways (ways : List (Way α))
  | trees (trees : List (String × SegmentTree α))
  | patterns (routes : List (PatternRoute α))

/-- The values of parameters by their names. -/
abbrev RouteValues : Type := List (String × String)

/-- Why no endpoint takes a request. -/
inductive Miss where
  | notFound
  | wrongMethod
  | unknownMethod
  | redirected (location : String)
deriving DecidableEq, Repr

namespace Miss

/-- Whether the layers around all endpoints see the request. -/
def passesLayers : Miss → Bool
  | notFound | wrongMethod => true
  | unknownMethod | redirected _ => false

end Miss

namespace Engine

variable {α : Type}

/-- A route in the form of an engine. -/
def pathFor (e : Engine) (route : Route) : String :=
  let star := if e = gin then "*path" else "*"
  String.join (route.map fun
    | .static text => text
    | .parameter name => ":" ++ name
    | .wildcard => star)

/-- The path of a tree; slashes are not doubled, but one at the end stays. -/
def treePath (path : String) : String :=
  let joined := Path.join ["/", path]
  if endsIn "/" path && !endsIn "/" joined then joined ++ "/" else joined

/-- Adds an endpoint to trees, one of which belongs to each method. -/
def addToTrees (trees : List (String × SegmentTree α)) (method path : String) (handler : α) :
    Except String (List (String × SegmentTree α)) :=
  if method = "" || !method.toList.all fun c => 'A' ≤ c && c ≤ 'Z' then
    .error ("http method " ++ method ++ " is not valid")
  else
    let tree := (trees.lookup method).getD .empty
    (tree.add (treePath path) handler).map fun tree =>
      if (trees.lookup method).isSome then
        trees.map fun (name, old) => (name, if name = method then tree else old)
      else trees ++ [(method, tree)]

/-- The routing of endpoints, or the message of a crash if an engine refuses one. -/
def register (e : Engine) (endpoints : List (Endpoint α)) : Except String (Routing α) :=
  match e with
  | echo =>
      .ok (.ways (endpoints.flatMap fun p => Way.ofPath p.method (e.pathFor p.route) p.handler))
  | gin =>
      (endpoints.foldlM (fun trees p => addToTrees trees p.method (e.pathFor p.route) p.handler)
        []).map .trees
  | fiber =>
      (endpoints.mapM fun p => PatternRoute.ofPath p.method (e.pathFor p.route) p.handler).map
        .patterns

/-- A path that stands in front of all others. Only letters, digits, dashes and single slashes
count. -/
def frontPath (header : String) : String :=
  let cleaned := Path.clean header
  if header = "" || cleaned = "." then ""
  else
    let kept := cleaned.toList.filter fun c => c.isAlphanum || c = '/' || c = '-'
    String.ofList (squeeze kept) ++ "/"
where
  squeeze : List Char → List Char
    | '/' :: '/' :: cs => squeeze ('/' :: cs)
    | c :: cs => c :: squeeze cs
    | [] => []

/-- Where a request is sent whose path has a slash too many or too few at its end. A path that
starts with two slashes names a host and stays as it is. -/
def redirectLocation (r : Request) : String :=
  let front := (frontPath (r.header "X-Forwarded-Prefix")).toUTF8.toList
  let bytes := front ++ r.target.bytes
  let slash : UInt8 := 47
  let path := Target.escapePath
    (if 1 < bytes.length && bytes.getLast? = some slash then bytes.dropLast else bytes ++ [slash])
  let location :=
    if beginsWith "//" path && !beginsWith "///" path then path
    else
      let cleaned := Path.clean path
      if endsIn "/" path && !endsIn "/" cleaned then cleaned ++ "/" else cleaned
  location ++ r.target.querySuffix

/-- The endpoint that takes a request, with the values of its parameters. -/
def dispatch (routing : Routing α) (r : Request) : Except Miss (α × RouteValues) :=
  match routing with
  | .ways ways =>
      match Way.find ways r.method r.target.routingPath with
      | (.found way values, _) => .ok (way.handler, way.names.zip values)
      | (_, met) => .error (if met then .wrongMethod else .notFound)
  | .trees trees =>
      match trees.lookup r.method with
      | none => .error .notFound
      | some tree =>
          match tree.find r.target.path with
          | .handler handler values => .ok (handler, values)
          | .nothing slashHelps =>
              if slashHelps && r.method ≠ "CONNECT" && r.target.path ≠ "/" then
                .error (.redirected (redirectLocation r))
              else .error .notFound
  | .patterns routes =>
      if !PatternRoute.methods.contains r.method then .error .unknownMethod
      else
        match PatternRoute.find? routes r.method r.target.sentPath with
        | some (route, values) => .ok (route.handler, values)
        | none =>
            if PatternRoute.isTakenOtherwise routes r.method r.target.sentPath then
              .error .wrongMethod
            else .error .notFound

/-- The value of a parameter. The name of the wildcard is a star; in two engines its value loses a
slash in front, and in the third the case of names does not count. -/
def parameter (e : Engine) (values : RouteValues) (name : String) : String :=
  match e with
  | echo =>
      let value := (values.lookup name).getD ""
      if name = "*" then dropFront "/" value else value
  | gin =>
      if name = "*" then dropFront "/" ((values.lookup "path").getD "")
      else (values.lookup name).getD ""
  | fiber =>
      let key := if name = "*" ∨ name = "+" then name ++ "1" else name
      ((values.find? fun v => v.1.toLower = key.toLower).map (·.2)).getD ""

/-- A text inside markup. -/
def escapeMarkup (s : String) : String :=
  String.join (s.toList.map fun c =>
    if c = '<' then "&lt;"
    else if c = '>' then "&gt;"
    else if c = '&' then "&amp;"
    else if c = '"' then "&#34;"
    else if c = '\'' then "&#39;"
    else String.singleton c)

/-- The answer that sends a client elsewhere. -/
def redirection (r : Request) (location : String) : Response :=
  if r.method = "GET" then
    ⟨301, "text/html", [],
      .text ("<a href=\"" ++ escapeMarkup location ++ "\">Moved Permanently</a>.\n\n")⟩
  else ⟨307, if r.method = "HEAD" then "text/html" else "", [], .empty⟩

/-- A response as it reaches the client. One engine sends no content to a request for headers
only. -/
def deliver (e : Engine) (r : Request) (response : Response) : Response :=
  if e = fiber && r.method = "HEAD" then response.withoutBody else response

/-- The answer to a request that no endpoint takes. -/
def answerMiss (e : Engine) (r : Request) (miss : Miss) : Response :=
  match e, miss with
  | _, .redirected location => redirection r location
  | _, .unknownMethod => .ofText 400 "Invalid http method"
  | echo, .notFound => if r.method = "HEAD" then .bare 404 else .message 404 "message" "Not Found"
  | echo, .wrongMethod =>
      if r.method = "OPTIONS" then .bare 204
      else if r.method = "HEAD" then .bare 405
      else .message 405 "message" "Method Not Allowed"
  | gin, _ => .ofText 404 "404 page not found"
  | fiber, .notFound =>
      e.deliver r (.message 404 "error"
        ("Cannot " ++ r.method ++ " " ++ escapeMarkup r.target.sentPath))
  | fiber, .wrongMethod => e.deliver r (.message 405 "error" "Method Not Allowed")

/-- The answer when a handler fails. -/
def failure (e : Engine) (fault : Fault) : Response :=
  match e with
  | echo => .message 500 "message" "Internal Server Error"
  | gin | fiber => .message 500 "error" fault.text

end Engine

/-- A handler inside layers, the first of which is the outermost. -/
def layered {β : Type} (layers : List (β → β)) (core : β) : β := layers.foldr (fun f b => f b) core

end ScriptWeave
