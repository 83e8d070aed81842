import ScriptWeave.Resolve.Module
import ScriptWeave.Text.Json

/-!
A resolved module as a JSON value, for tools that look at the meaning of references.
-/

namespace ScriptWeave

open Text (Json)

/-- A symbol with everything that is known about it. -/
def Symbol.outline (s : Symbol) : Json :=
  .object [("name", .string s.name), ("package", .string s.package),
    ("kind", .string s.kind.name), ("public", .bool s.isPublic),
    ("path", .string s.exportPath.path), ("qualified", .string s.qualifiedName)]

/-- A symbol by its full name and the module that exports it. -/
def Symbol.address (s : Symbol) : String := s.qualifiedName ++ "@" ++ s.exportPath.path

namespace Resolve

/-- Whether a place does not come after another one. -/
def notAfter (a b : Script.Position) : Bool := !(b.before a)

namespace Target

def kindName : Target → String
  | here _ => "local"
  | builtin _ => "builtin"
  | .instance _ _ _ => "instance"
  | static _ _ => "static"
  | external _ => "external"

def name : Target → String
  | here name | builtin name | .instance name _ _ | static name _ => name
  | external s => s.name

/-- What else is known about a target. -/
def details : Target → List (String × Json)
  | here _ | builtin _ => []
  | .instance _ type captured =>
      (if type = "" then [] else [("class", .string type)]) ++
        (if captured then [("captured", .bool true)] else [])
  | static _ type => if type = "" then [] else [("class", .string type)]
  | external s => [("symbol", .string s.address)]

end Target

/-- What kind of node a reference is. -/
def nodeName : Script.ReferenceKind → String
  | .ident => "ident"
  | .create => "new"
  | .base => "extends"

def Link.outline (l : Link) : Json :=
  .object ([("at", .string l.reference.key.pos.render),
    ("node", .string (nodeName l.reference.key.kind)), ("consume", .ofInt l.binding.consume),
    ("kind", .string l.binding.target.kindName), ("name", .string l.binding.target.name)]
    ++ l.binding.target.details)

def exportOutline : Export → Json
  | .package name => .object [("package", .string name)]
  | .symbol _ s => s.outline

namespace Module

/-- The outline of a module; references stand in the order of their places. -/
def outline (m : Module) : Json :=
  let links := m.links.mergeSort fun a b => notAfter a.reference.key.pos b.reference.key.pos
  let captures := (m.captures.map (·.pos)).mergeSort notAfter
  .object [("path", .string m.source.path), ("id", .string m.source.id.path),
    ("names", .ofTexts m.exportNames),
    ("exports", .array ((m.source.file.exports m.source.id).map exportOutline)),
    ("bindings", .array (links.map Link.outline)),
    ("captures", .ofTexts (captures.map (·.render))),
    ("externals", .ofTexts (m.externals.map Symbol.address)),
    ("dependencies", .ofTexts (m.dependencies.map (·.path))),
    ("edges", .object (m.edges.map fun (id, n) => (id.path, .ofInt n)))]

end Module
end Resolve
end ScriptWeave
