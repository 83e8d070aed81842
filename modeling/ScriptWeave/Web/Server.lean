import ScriptWeave.Build.Converter
import ScriptWeave.Build.GraphReport
import ScriptWeave.Web.Engine
import ScriptWeave.Web.Flight

/-!
A server of converted modules. Every request for content is answered from the build of the sources
as they are now; builds are kept by the digest of their sources. Requests are taken one at a time,
but a conversion goes on when its client has left, and who asks for the same build then waits for
it.
-/

namespace ScriptWeave

open Text

/-- What the server has at its routes. -/
inductive Resource where
  | health
  | manifest
  | graph
  | module
deriving DecidableEq, Repr

/-- A conversion that goes on after its client has left. -/
structure Leftover where
  files : List SourceFile
  digest : String
  /-- How it notices that its client has left. -/
  interruption : Interruption
  /-- What the reporter has answered it so far: whether a fault was reported elsewhere. -/
  heard : List Bool

structure Server where
  engine : Engine
  converter : Converter
  builds : Recent Build
  /-- The conversions whose clients have left, at most one for a digest. -/
  leftovers : List Leftover

namespace Server

/-- A server that keeps a positive number of builds. -/
def create (engine : Engine) (converter : Converter) (cacheSize : Int) : Except Fault Server :=
  if cacheSize < 1 then .error (.plain "must provide a positive size" none)
  else .ok ⟨engine, converter, .empty cacheSize.toNat, []⟩

/-- The routes of the server. -/
def endpoints : List (Endpoint Resource) :=
  [⟨"GET", .ofText "/healthz", .health⟩,
   ⟨"GET", .ofText "/manifest.json", .manifest⟩,
   ⟨"GET", .ofText "/graph.json", .graph⟩,
   ⟨"GET", .ofText "/modules/\x7b*\x7d", .module⟩]

/-- The routes of the server in the form of its engine. -/
def routing (e : Engine) : Routing Resource :=
  match e.register endpoints with
  | .ok routing => routing
  | .error _ => .ways []

/-- The entry about a build that was made. -/
def convertedEntry (b : Build) : LogEntry :=
  ⟨.info, "converted project", [("run_id", .text b.runId), ("digest", .text b.sourceDigest),
    ("modules", .number b.modules.length)]⟩

/-- What is there for sources that were read: their build, or nothing yet. -/
inductive Sought where
  | kept (b : Build)
  | missing (files : List SourceFile) (digest : String)

/-- Reads the sources as they are now and looks for their build. -/
def seek (s : Server) (d : Disk) (i : Interruption) : Except Fault Sought × Server :=
  match s.converter.loadUnder d i with
  | (.error fault, _, c) => (.error fault, { s with converter := c })
  | (.ok (files, digest), _, c) =>
      match s.builds.get? digest with
      | some (b, builds) => (.ok (.kept b), { s with converter := c, builds })
      | none => (.ok (.missing files digest), { s with converter := c })

/-- A build that was asked for, or why there is none, with what was logged and the server
afterwards. -/
abbrev Given : Type := Except Fault Build × List LogEntry × Server

/-- The conversion of sources that is under way. -/
def leftover? (s : Server) (digest : String) : Option Leftover :=
  s.leftovers.find? (·.digest = digest)

/-- Ends a conversion. Its build is kept. -/
def conclude (s : Server) (l : Leftover) : Given :=
  let (outcome, reports) := s.converter.convertAmid l.interruption
    (heardAt l.heard s.converter.faulted) l.files l.digest
  let s' := { s with
    converter := s.converter.after reports
    leftovers := s.leftovers.filter (·.digest ≠ l.digest) }
  match outcome with
  | .error fault => (.error fault, [], s')
  | .ok b => (.ok b, [convertedEntry b], { s' with builds := s.builds.insert l.digest b })

/-- The build of the sources as they are now. -/
def current (s : Server) (d : Disk) (cancelled : Bool) : Given :=
  match s.seek d (.always cancelled) with
  | (.error fault, s') => (.error fault, [], s')
  | (.ok (.kept b), s') => (.ok b, [], s')
  | (.ok (.missing files digest), s') =>
      match s'.leftover? digest with
      | none => s'.conclude ⟨files, digest, .always cancelled, []⟩
      | some l => if cancelled then (.error Flights.goneFault, [], s') else s'.conclude l

/-- The build of the sources as they are now, for a client that leaves, at the latest when it would
have to wait. -/
def currentLeft (s : Server) (d : Disk) (i : Interruption) : Given :=
  match s.seek d i with
  | (.error fault, s') => (.error fault, [], s')
  | (.ok (.kept b), s') => (.ok b, [], s')
  | (.ok (.missing files digest), s') =>
      (.error Flights.goneFault, [],
        if (s'.leftover? digest).isSome then s'
        else { s' with leftovers := s'.leftovers ++ [⟨files, digest, i, []⟩] })

/-- A conversion whose client has left asks the reporter for faults. -/
def ask (s : Server) (digest : String) : Server :=
  { s with leftovers := s.leftovers.map fun l =>
      if l.digest = digest then { l with heard := l.heard ++ [s.converter.faulted] } else l }

/-- A conversion whose client has left ends. -/
def settle (s : Server) (digest : String) : List LogEntry × Server :=
  match s.leftover? digest with
  | none => ([], s)
  | some l => (s.conclude l).2

/-- One issue in the answer about a failure. -/
def issueJson (i : Issue) : Json :=
  .object <| [("kind", .string i.code.name), ("message", .string i.text)] ++
    (if i.location.isEmpty then [] else [("location", .string i.location.render)])

/-- The answer about a failure: what failed, with every issue. -/
def failureResponse (fault : Fault) : Response :=
  let (label, issues) := match fault.phase?, fault.several? with
    | some (label, issues), _ => (label, issues)
    | none, some issues => (fault.text, issues)
    | none, none => (fault.text, [fault.toIssue .unknown])
  .ofJson 500 (.object [("error", .string label), ("errors", .array (issues.map issueJson))])

def failureEntry (path : String) (fault : Fault) : LogEntry :=
  ⟨.warning, "conversion failed", [("error", .text fault.text), ("path", .text path)]⟩

/-- The id of the module that a path names; the suffix may be missing. -/
def moduleId (name : String) : ModuleId := ⟨if endsIn ".js" name then name else name ++ ".js"⟩

def moduleResponse (b : Build) (name : String) : Response :=
  match b.module? (moduleId name) with
  | none => .message 404 "error" ("no module " ++ (moduleId name).path)
  | some m =>
      ⟨200, "application/javascript",
        [("X-As2amd-Run", b.runId), ("X-As2amd-Kind", m.kind.name)], .text m.content⟩

/-- The answer about a build, or the fault of one that cannot be described. -/
def buildResponse (b : Build) (moduleName : String) : Resource → Except Fault Response
  | .manifest => (Manifest.ofBuild b).map fun m => .ofJson 200 m.toJson
  | .graph => .ok (.ofJson 200 (GraphReport.ofBuild b).toJson)
  | .module => .ok (moduleResponse b moduleName)
  | .health => .ok (.bare 200)

def healthResponse (s : Server) : Response :=
  .ofJson 200 (.object [("status", .string "ok"), ("engine", .string s.engine.title),
    ("cached", .ofInt s.builds.size)])

/-- Answers a request for a resource that is a view of a build. -/
def present (s : Server) (r : Request) (resource : Resource) (values : RouteValues) :
    Given → Response × List LogEntry × Server
  | (.error fault, entries, s') =>
      (failureResponse fault, entries ++ [failureEntry (s.engine.pathOf r) fault], s')
  | (.ok b, entries, s') =>
      match buildResponse b (s.engine.parameter values "*") resource with
      | .ok response => (response, entries, s')
      | .error fault =>
          (failureResponse fault, entries ++ [failureEntry (s.engine.pathOf r) fault], s')

/-- Answers a request for a resource; `current` gives the build. -/
def respond (s : Server) (current : Server → Given) (r : Request) (resource : Resource)
    (values : RouteValues) : Response × List LogEntry × Server :=
  if resource = .health then (s.healthResponse, [], s)
  else s.present r resource values (current s)

def requestEntry (e : Engine) (r : Request) : LogEntry :=
  ⟨.debug, "request", [("method", .text r.method), ("path", .text (e.pathOf r))]⟩

/-- Answers a request. It is logged after what it caused, unless the engine answers it right
away. -/
def handle (s : Server) (current : Server → Given) (r : Request) :
    Response × List LogEntry × Server :=
  match Engine.dispatch (routing s.engine) r with
  | .ok (resource, values) =>
      let (response, entries, s') := s.respond current r resource values
      (response, entries ++ [requestEntry s.engine r], s')
  | .error miss =>
      (s.engine.answerMiss r miss, if miss.passesLayers then [requestEntry s.engine r] else [], s)

/-- Answers a request whose client stays, or has been gone from the start. -/
def serve (s : Server) (d : Disk) (r : Request) : Response × List LogEntry × Server :=
  s.handle (·.current d (s.engine.noticesCancelled r)) r

/-- Answers a request whose client leaves before it has a build, if the engine notices that. -/
def serveLeft (s : Server) (d : Disk) (r : Request) (i : Interruption) :
    Response × List LogEntry × Server :=
  if s.engine.noticesCancelled { r with cancelled := true } then s.handle (·.currentLeft d i) r
  else s.serve d r

end Server
end ScriptWeave
