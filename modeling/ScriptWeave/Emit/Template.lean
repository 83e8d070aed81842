import ScriptWeave.Fault.Kinds
import ScriptWeave.Text.JsonString

/-!
The texts around emitted code: a module that comes straight from a source, a module that holds the
members of a cycle, and a redirect to such a member.
-/

namespace ScriptWeave
namespace Emit

open Text (JsonString.literal)

/-- A module that a factory receives, with the name of the parameter. -/
structure Dependency where
  path : String
  var : String
deriving DecidableEq, Repr

structure DirectData where
  source : String
  deps : List Dependency
  /-- Statements that are already indented. -/
  body : String
  exports : List String

structure MemberData where
  key : String
  body : String
  exports : List String

structure MergedData where
  deps : List Dependency
  members : List MemberData

structure RedirectData where
  target : String
  key : String

/-- The object that a factory returns. -/
def exportObject (names : List String) : String :=
  if names.isEmpty then "\x7b\x7d"
  else "\x7b " ++ ", ".intercalate (names.map fun name => name ++ ": " ++ name) ++ " \x7d"

/-- The first line of a factory: the names of the dependencies, then its parameters. -/
def defineHeader (deps : List Dependency) : String :=
  "define([" ++ ", ".intercalate (deps.map fun d => JsonString.literal d.path)
    ++ "], function (" ++ ", ".intercalate (deps.map (·.var)) ++ ") \x7b\n"

def DirectData.render (t : DirectData) : String :=
  "// Code generated by as2amd from " ++ t.source ++ ". DO NOT EDIT.\n"
    ++ defineHeader t.deps ++ t.body
    ++ "    return " ++ exportObject t.exports ++ ";\n\x7d);\n"

def MemberData.render (t : MemberData) : String :=
  "    __merged[" ++ JsonString.literal t.key ++ "] = (function () \x7b\n" ++ t.body
    ++ "        return " ++ exportObject t.exports ++ ";\n    \x7d)();\n"

def MergedData.render (t : MergedData) : String :=
  "// Code generated by as2amd from " ++ toString t.members.length
    ++ " mutually dependent modules. DO NOT EDIT.\n"
    ++ defineHeader t.deps ++ "    var __merged = \x7b\x7d;\n"
    ++ String.join (t.members.map (·.render)) ++ "    return __merged;\n\x7d);\n"

def RedirectData.render (t : RedirectData) : String :=
  "// Code generated by as2amd. DO NOT EDIT.\n"
    ++ "define([" ++ JsonString.literal t.target ++ "], function (merged) \x7b\n"
    ++ "    return merged[" ++ JsonString.literal t.key ++ "];\n\x7d);\n"

inductive TemplateName where
  | direct
  | merged
  | redirect
deriving DecidableEq, Repr

def TemplateName.text : TemplateName → String
  | direct => "original-module"
  | merged => "merged-module"
  | redirect => "redirect-module"

/-- The template of a name. -/
def TemplateName.ofText (text : String) : Except Issue TemplateName :=
  match [direct, merged, redirect].find? (·.text = text) with
  | some name => .ok name
  | none => .error (.ofMessage .template ("template not found: " ++ text))

end Emit
end ScriptWeave
