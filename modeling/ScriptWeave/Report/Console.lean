/-!
Messages for people on two streams. A console shows a message when its level reaches the rank of the
message; marks and headings may be coloured, and messages may be indented.
-/

namespace ScriptWeave

inductive OutputStream where
  | standard
  | error
deriving DecidableEq, Repr

/-- Pieces of text written to the streams, the oldest first. -/
abbrev Transcript : Type := List (OutputStream × String)

namespace Transcript

/-- What one stream received. -/
def received (t : Transcript) (stream : OutputStream) : String :=
  String.join ((t.filter (·.1 = stream)).map (·.2))

/-- What a reader of both streams sees. -/
def together (t : Transcript) : String := String.join (t.map (·.2))

end Transcript

inductive Colour where
  | red
  | green
  | yellow
  | blue
  | magenta
  | cyan
  | grey
deriving DecidableEq, Repr

/-- The number that selects a colour on a terminal. -/
def Colour.code : Colour → Nat
  | red => 31
  | green => 32
  | yellow => 33
  | blue => 34
  | magenta => 35
  | cyan => 36
  | grey => 90

/-- The mark in front of a message. -/
inductive Mark where
  | error
  | warn
  | info
  | success
  | verbose
  | debug
deriving DecidableEq, Repr

namespace Mark

def label : Mark → String
  | error => "ERROR"
  | warn => "WARN"
  | info => "INFO"
  | success => "SUCCESS"
  | verbose => "VERBOSE"
  | debug => "DEBUG"

def all : List Mark := [error, warn, info, success, verbose, debug]

/-- The least level at which the message is shown. -/
def rank : Mark → Int
  | error => 1
  | warn => 2
  | info | success => 3
  | verbose => 4
  | debug => 5

def colour : Mark → Colour
  | error => .red
  | warn => .yellow
  | info => .blue
  | success => .green
  | verbose => .grey
  | debug => .magenta

def stream : Mark → OutputStream
  | error => .error
  | _ => .standard

end Mark

structure Console where
  level : Int
  colours : Bool
  depth : Nat
deriving DecidableEq, Repr

namespace Console

/-- A console without colours and indentation. -/
def plain (level : Int) : Console := ⟨level, false, 0⟩

def paint (c : Console) (colour : Colour) (text : String) : String :=
  if c.colours then s!"\x1b[{colour.code}m" ++ text ++ "\x1b[0m" else text

def indentation (c : Console) : String := String.join (List.replicate c.depth "  ")

def indent (c : Console) : Console := { c with depth := c.depth + 1 }

def unindent (c : Console) : Console := { c with depth := c.depth - 1 }

/-- Text on the standard stream, shown like information. -/
def line (c : Console) (text : String) : Transcript :=
  if Mark.info.rank ≤ c.level then [(.standard, text ++ "\n")] else []

/-- A message behind its mark. -/
def message (c : Console) (mark : Mark) (text : String) : Transcript :=
  if mark.rank ≤ c.level then
    [(mark.stream,
      c.indentation ++ c.paint mark.colour ("[" ++ mark.label ++ "]") ++ " " ++ text ++ "\n")]
  else []

def heading (c : Console) (title : String) : Transcript := c.line (c.paint .cyan title)

def listItem (c : Console) (text : String) : Transcript := c.line (c.indentation ++ "- " ++ text)

def phaseHeader (c : Console) (phase : String) : Transcript := c.line (c.paint .blue (phase ++ ":"))

def phaseItem (c : Console) (text : String) : Transcript := c.line (c.paint .green "✓ " ++ text)

end Console
end ScriptWeave
