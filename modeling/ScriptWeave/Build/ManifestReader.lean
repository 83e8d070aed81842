import ScriptWeave.Build.Manifest
import ScriptWeave.Text.Case
import ScriptWeave.Text.JsonReader

/-!
Reading of the record that a conversion left. Field names count whatever their case, and unknown
fields are ignored. A field that occurs again is read into what it was: text is replaced, null
leaves text as it is, and the entries of a list are read into the earlier entries at their places,
also into those that a shorter list hid.
-/

namespace ScriptWeave
namespace Manifest

open Text (Json)

/-- A value of another kind than its place in a record takes. -/
structure Mismatch where
  /-- The kind of the value. -/
  kind : String
  /-- The names and numbers on the way to the value. -/
  path : List String
  /-- What would have been taken. -/
  expected : String
deriving DecidableEq, Repr

namespace Mismatch

def text (m : Mismatch) : String :=
  "json: cannot unmarshal " ++ m.kind ++ " into Go " ++
    (if m.path.isEmpty then "value" else "struct field Manifest." ++ ".".intercalate m.path) ++
    " of type " ++ m.expected

def kindOf : Json → String
  | .null => "null"
  | .bool _ => "bool"
  | .number _ => "number"
  | .string _ => "string"
  | .array _ => "array"
  | .object _ => "object"

/-- The error about a value at the end of a path that is given backwards. -/
def refused {α : Type} (back : List String) (expected : String) (value : Json) :
    Except Mismatch α :=
  .error ⟨kindOf value, back.reverse, expected⟩

end Mismatch

/-- A list with the entries that an earlier, longer list had behind its end. -/
structure Shelf (α : Type) where
  items : List α
  hidden : List α

namespace Shelf

variable {α : Type}

/-- Reads values into the entries at their places, or into blank ones. -/
def fill (item : List String → α → Json → Except Mismatch α) (blank : α) (back : List String) :
    Nat → List α → List Json → Except Mismatch (Shelf α)
  | _, stored, [] => .ok ⟨[], stored⟩
  | n, stored, value :: values => do
      let entry ← item (toString n :: back) (stored.headD blank) value
      let shelf ← fill item blank back (n + 1) (stored.drop 1) values
      return { shelf with items := entry :: shelf.items }

/-- Reads a list into an earlier one. Null and the empty list forget the earlier entries. -/
def read (item : List String → α → Json → Except Mismatch α) (blank : α) (expected : String)
    (back : List String) (old : Option (Shelf α)) : Json → Except Mismatch (Option (Shelf α))
  | .null => .ok none
  | .array [] => .ok (some ⟨[], []⟩)
  | .array values =>
      let stored := (old.map fun shelf => shelf.items ++ shelf.hidden).getD []
      (fill item blank back 0 stored values).map some
  | value => Mismatch.refused back expected value

end Shelf

def readText (back : List String) (old : String) : Json → Except Mismatch String
  | .string s => .ok s
  | .null => .ok old
  | value => Mismatch.refused back "string" value

/-- An entry while it is read. -/
structure EntryDraft where
  id : String
  kind : String
  members : Option (Shelf String)
  target : String

namespace EntryDraft

def blank : EntryDraft := ⟨"", "", none, ""⟩

def readField (back : List String) (d : EntryDraft) (field : String × Json) :
    Except Mismatch EntryDraft :=
  let here := field.1 :: back
  match Text.fold field.1 with
  | "id" => do return { d with id := ← readText here d.id field.2 }
  | "kind" => do return { d with kind := ← readText here d.kind field.2 }
  | "members" => do
      return { d with members := ← Shelf.read readText "" "[]string" here d.members field.2 }
  | "target" => do return { d with target := ← readText here d.target field.2 }
  | _ => .ok d

def read (back : List String) (old : EntryDraft) : Json → Except Mismatch EntryDraft
  | .object fields => fields.foldlM (readField back) old
  | .null => .ok old
  | value => Mismatch.refused back "cli.ManifestEntry" value

def finish (d : EntryDraft) : ManifestEntry :=
  ⟨d.id, d.kind, (d.members.map (·.items)).getD [], d.target⟩

end EntryDraft

/-- A record while it is read. -/
structure Draft where
  runId : String
  sourceDigest : String
  outputDigest : String
  modules : Option (Shelf EntryDraft)

namespace Draft

def blank : Draft := ⟨"", "", "", none⟩

def readField (d : Draft) (field : String × Json) : Except Mismatch Draft :=
  let here := [field.1]
  match Text.fold field.1 with
  | "run_id" => do return { d with runId := ← readText here d.runId field.2 }
  | "source_digest" => do return { d with sourceDigest := ← readText here d.sourceDigest field.2 }
  | "output_digest" => do return { d with outputDigest := ← readText here d.outputDigest field.2 }
  | "modules" => do
      let modules ← Shelf.read EntryDraft.read .blank "[]cli.ManifestEntry" here d.modules field.2
      return { d with modules }
  | _ => .ok d

def read : Json → Except Mismatch Draft
  | .object fields => fields.foldlM readField blank
  | .null => .ok blank
  | value => Mismatch.refused [] "cli.Manifest" value

def finish (d : Draft) : Manifest :=
  ⟨d.runId, d.sourceDigest, d.outputDigest,
    d.modules.map fun shelf => shelf.items.map EntryDraft.finish⟩

end Draft

/-- The record that a text describes, or why it describes none. -/
def parse (text : String) : Except String Manifest :=
  match Json.parse text with
  | .error flaw => .error flaw.text
  | .ok value =>
      match Draft.read value with
      | .error mismatch => .error mismatch.text
      | .ok draft => .ok draft.finish

end Manifest
end ScriptWeave
