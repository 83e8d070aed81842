import ScriptWeave.Text.JsonString

/-!
JSON values and their written forms. Objects keep the order of their fields, and numbers
their spelling.
-/

namespace ScriptWeave
namespace Text

inductive Json where
  | null
  | bool (value : Bool)
  | number (spelling : String)
  | string (value : String)
  | array (items : List Json)
  | object (fields : List (String × Json))

namespace Json

def ofInt (n : Int) : Json := number (toString n)

def ofTexts (texts : List String) : Json := array (texts.map string)

mutual

/-- The written form without any layout. -/
def compact : Json → String
  | null => "null"
  | bool value => if value then "true" else "false"
  | number spelling => spelling
  | string value => JsonString.literal value
  | array items => "[" ++ ",".intercalate (compactItems items) ++ "]"
  | object fields => "\x7b" ++ ",".intercalate (compactFields fields) ++ "\x7d"

def compactItems : List Json → List String
  | [] => []
  | item :: items => compact item :: compactItems items

def compactFields : List (String × Json) → List String
  | [] => []
  | (name, value) :: fields =>
      (JsonString.literal name ++ ":" ++ compact value) :: compactFields fields

end

/-- A line break with the blanks of a depth of nesting, two for each level. -/
def lineBreak (depth : Nat) : String :=
  "\n" ++ String.ofList (List.replicate (2 * depth) ' ')

/-- Parts on lines of their own between brackets; without parts the brackets stand together. -/
def bracketed (depth : Nat) (left right : String) (parts : List String) : String :=
  if parts.isEmpty then left ++ right
  else
    left ++ lineBreak (depth + 1) ++ ("," ++ lineBreak (depth + 1)).intercalate parts
      ++ lineBreak depth ++ right

mutual

/-- The written form with every item and field on a line of its own. -/
def indented (depth : Nat) : Json → String
  | array items => bracketed depth "[" "]" (indentedItems depth items)
  | object fields => bracketed depth "\x7b" "\x7d" (indentedFields depth fields)
  | null => "null"
  | bool value => if value then "true" else "false"
  | number spelling => spelling
  | string value => JsonString.literal value

def indentedItems (depth : Nat) : List Json → List String
  | [] => []
  | item :: items => indented (depth + 1) item :: indentedItems depth items

def indentedFields (depth : Nat) : List (String × Json) → List String
  | [] => []
  | (name, value) :: fields =>
      (JsonString.literal name ++ ": " ++ indented (depth + 1) value) ::
        indentedFields depth fields

end

end Json
end Text
end ScriptWeave
