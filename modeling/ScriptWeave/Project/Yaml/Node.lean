import ScriptWeave.Project.Yaml.Token
import ScriptWeave.Text.Affix

/-!
The nodes of a document: scalars, sequences, mappings, and aliases of nodes named before. Only the
first document of a file is read.
-/

namespace ScriptWeave
namespace Project
namespace Yaml

inductive Node where
  /-- A scalar by its tag, which is empty if the text alone decides, and its text. -/
  | scalar (tag text : String)
  | sequence (items : List Node)
  | mapping (entries : List (Node × Node))
  /-- Another node by its name; there is none yet if the alias stands inside of that node. -/
  | alias (name : String) (target : Option Node)

namespace Node

def empty : Node := scalar "" ""

end Node

/-- What is known while a document is read. -/
structure Reader where
  scanner : Scanner
  /-- The tags that handles stand for. -/
  handles : List (String × String)
  /-- The named nodes, in the order of their starts; a node that is not complete yet is missing. -/
  anchors : Array (String × Option Node)

namespace Reader

def ofCursor (c : Cursor) : Reader := ⟨.ofCursor c, [], #[]⟩

/-- A step of reading, which fails on malformed documents. -/
abbrev Step : Type → Type := StateT Reader Option

def peek : Step Token := do
  let r ← get
  match r.scanner.peek? with
  | some (t, scanner) =>
      set { r with scanner }
      return t
  | none => failure

def skip : Step Unit := modify fun r => { r with scanner := r.scanner.drop }

/-- Skips a token, and tells the next one. -/
def next : Step Token := do
  skip
  peek

/-- The namespace of standard tags. -/
def standardTags : String := "tag:yaml.org,2002:"

/-- A tag with two exclamation marks in place of the standard namespace. -/
def shortTag (tag : String) : String :=
  if Text.beginsWith standardTags tag then "!!" ++ Text.dropFront standardTags tag else tag

/-- The tag of a handle and a suffix. -/
def resolveTag (handle suffix : String) : Step String := do
  if handle = "" then return suffix
  match (← get).handles.find? (·.1 = handle) with
  | some (_, stem) => return stem ++ suffix
  | none => failure

/-- The name and the tag in front of a node, each empty if it is missing, in either order. -/
def readProperties : Step (String × String) := do
  match ← peek with
  | .anchor name =>
      match ← next with
      | .tag handle suffix =>
          skip
          return (name, ← resolveTag handle suffix)
      | _ => return (name, "")
  | .tag handle suffix =>
      match ← next with
      | .anchor name =>
          skip
          return (name, ← resolveTag handle suffix)
      | _ => return ("", ← resolveTag handle suffix)
  | _ => return ("", "")

/-- Remembers the start of a named node, and tells its place among the names. -/
def openAnchor (name : String) : Step Nat := do
  let r ← get
  if name ≠ "" then set { r with anchors := r.anchors.push (name, none) }
  return r.anchors.size

/-- Remembers a complete node. -/
def closeAnchor (name : String) (place : Nat) (node : Node) : Step Node := do
  if name ≠ "" then
    modify fun r => { r with anchors := r.anchors.setIfInBounds place (name, some node) }
  return node

/-- The alias of the node that has a name. -/
def readAlias (name : String) : Step Node := do
  skip
  match (← get).anchors.toList.reverse.find? (·.1 = name) with
  | some (_, target) => return .alias name target
  | none => failure

/-- The node of a scalar. Text in quotes or in a block is a string unless a tag says otherwise. -/
def scalarNode (tag : String) (plain : Bool) (text : String) : Node :=
  if tag ≠ "" ∧ tag ≠ "!" then .scalar (shortTag tag) text
  else if !plain then .scalar "!!str" text
  else if text = "<<" then .scalar "!!merge" text
  else .scalar "" text

mutual

/-- Reads a node. Whether it may be a block, and a sequence that is not indented, depends on what it
belongs to. -/
def readNode : Nat → Bool → Bool → Step Node
  | 0, _, _ => failure
  | fuel + 1, block, indentless => do
      if let .alias name := ← peek then return ← readAlias name
      let (name, tag) ← readProperties
      let place ← openAnchor name
      match ← peek with
      | .scalar plain text =>
          skip
          closeAnchor name place (scalarNode tag plain text)
      | .flowSequence =>
          skip
          closeAnchor name place (.sequence (← readFlowItems fuel true))
      | .flowMapping =>
          skip
          closeAnchor name place (.mapping (← readFlowEntries fuel true))
      | t =>
          if indentless && t = .entry then
            closeAnchor name place (.sequence (← readIndentless fuel))
          else if block && t = .blockSequence then do
            skip
            closeAnchor name place (.sequence (← readBlockItems fuel))
          else if block && t = .blockMapping then do
            skip
            closeAnchor name place (.mapping (← readBlockEntries fuel))
          else if name ≠ "" || tag ≠ "" then closeAnchor name place (scalarNode tag true "")
          else failure

/-- Reads the items of an indented sequence. -/
def readBlockItems : Nat → Step (List Node)
  | 0 => failure
  | fuel + 1 => do
      match ← peek with
      | .entry => do
          let t ← next
          let item ←
            if t = .entry ∨ t = .blockEnd then pure Node.empty else readNode fuel true false
          return item :: (← readBlockItems fuel)
      | .blockEnd =>
          skip
          return []
      | _ => failure

/-- Reads the items of a sequence whose indicators stand in the column of the key before it. -/
def readIndentless : Nat → Step (List Node)
  | 0 => failure
  | fuel + 1 => do
      match ← peek with
      | .entry => do
          let t ← next
          let item ←
            if t = .entry ∨ t = .key ∨ t = .value ∨ t = .blockEnd then pure Node.empty
            else readNode fuel true false
          return item :: (← readIndentless fuel)
      | _ => return []

/-- Reads what follows the indicator of a key or a value in a block. -/
def readBlockPart : Nat → Step Node
  | 0 => failure
  | fuel + 1 => do
      let t ← next
      if t = .key ∨ t = .value ∨ t = .blockEnd then return Node.empty
      readNode fuel true true

/-- Reads the entries of an indented mapping. -/
def readBlockEntries : Nat → Step (List (Node × Node))
  | 0 => failure
  | fuel + 1 => do
      match ← peek with
      | .key => do
          let key ← readBlockPart fuel
          let value ← if (← peek) = .value then readBlockPart fuel else pure Node.empty
          return (key, value) :: (← readBlockEntries fuel)
      | .blockEnd =>
          skip
          return []
      | _ => failure

/-- Reads the items of a sequence in brackets. -/
def readFlowItems : Nat → Bool → Step (List Node)
  | 0, _ => failure
  | fuel + 1, first => do
      if (← peek) = .flowSequenceEnd then
        skip
        return []
      if !first then
        if (← peek) = .flowEntry then skip else failure
      match ← peek with
      | .flowSequenceEnd =>
          skip
          return []
      | .key => do
          skip
          let entry ← readFlowPair fuel
          return .mapping [entry] :: (← readFlowItems fuel false)
      | _ => do
          let item ← readNode fuel false false
          return item :: (← readFlowItems fuel false)

/-- Reads an entry that is an item of a sequence by itself. A key that is missing takes the next
indicator with it. -/
def readFlowPair : Nat → Step (Node × Node)
  | 0 => failure
  | fuel + 1 => do
      let t ← peek
      let key ←
        if t = .value ∨ t = .flowEntry ∨ t = .flowSequenceEnd then do
          skip
          pure Node.empty
        else readNode fuel false false
      if (← peek) = .value then
        let t ← next
        if t = .flowEntry ∨ t = .flowSequenceEnd then return (key, Node.empty)
        return (key, ← readNode fuel false false)
      else return (key, Node.empty)

/-- Reads the entries of a mapping in braces. -/
def readFlowEntries : Nat → Bool → Step (List (Node × Node))
  | 0, _ => failure
  | fuel + 1, first => do
      if (← peek) = .flowMappingEnd then
        skip
        return []
      if !first then
        if (← peek) = .flowEntry then skip else failure
      match ← peek with
      | .flowMappingEnd =>
          skip
          return []
      | .key => do
          let t ← next
          let key ←
            if t = .value ∨ t = .flowEntry ∨ t = .flowMappingEnd then pure Node.empty
            else readNode fuel false false
          let value ← readFlowValue fuel
          return (key, value) :: (← readFlowEntries fuel false)
      | _ => do
          let key ← readNode fuel false false
          return (key, Node.empty) :: (← readFlowEntries fuel false)

/-- Reads the value of an entry in braces, which may be missing. -/
def readFlowValue : Nat → Step Node
  | 0 => failure
  | fuel + 1 => do
      if (← peek) = .value then
        let t ← next
        if t = .flowEntry ∨ t = .flowMappingEnd then return Node.empty
        readNode fuel false false
      else return Node.empty

end

/-- Reads directives. There is at most one version, which has to be 1.1, and one tag for a
handle. -/
def readDirectives : Nat → Bool → Step Unit
  | 0, _ => failure
  | fuel + 1, versioned => do
      match ← peek with
      | .directive (.version major minor) =>
          if versioned || major ≠ 1 || minor ≠ 1 then failure
          skip
          readDirectives fuel true
      | .directive (.handle handle tag) =>
          let r ← get
          if r.handles.any (·.1 = handle) then failure
          set { r with handles := r.handles ++ [(handle, tag)] }
          skip
          readDirectives fuel versioned
      | _ => modify fun r =>
          { r with handles := r.handles ++ [("!", "!"), ("!!", standardTags)] }

/-- Reads the first document; there is none in a file without content. -/
def readDocument (fuel : Nat) : Step (Option Node) := do
  match ← peek with
  | .streamEnd => return none
  | .directive _ | .documentStart =>
      readDirectives fuel false
      if (← peek) ≠ .documentStart then failure
      let node ← match ← next with
        | .directive _ | .documentStart | .documentEnd | .streamEnd => pure Node.empty
        | _ => readNode fuel true false
      let _ ← peek
      return some node
  | _ =>
      readDirectives fuel false
      let node ← readNode fuel true false
      let _ ← peek
      return some node

end Reader

/-- The mark of an encoding that a text may start with. -/
def encodingMark : Char := Char.ofNat 0xfeff

/-- Where the content of a text starts. One mark does not count; a second one takes a column. -/
def start : List Char → Cursor
  | a :: b :: rest =>
      if a = encodingMark then
        if b = encodingMark then (Cursor.ofChars (b :: rest)).advance 1 else .ofChars (b :: rest)
      else .ofChars (a :: b :: rest)
  | cs => .ofChars (cs.filter (· ≠ encodingMark))

/-- The first document of a text; nothing inside if there is none. -/
def parse? (text : String) : Option (Option Node) :=
  if text.toList.all isAllowed then
    ((Reader.readDocument (8 * text.length + 32)).run (.ofCursor (start text.toList))).map (·.1)
  else none

end Yaml
end Project
end ScriptWeave
