import ScriptWeave.Digest.Base64
import ScriptWeave.Digest.Sha256
import ScriptWeave.Module.Output
import ScriptWeave.Text.Hex

/-!
Digests of sets of named texts. Every name contributes a line with the hash of its text, the lines
stand in the order of the names, and the digest is the hash of the lines. It does not depend on the
order in which the texts are given.
-/

namespace ScriptWeave
namespace Digest

/-- The message about a name that would break its line. -/
def newlineMessage : String := "dirhash: filenames with newlines are not supported"

def bytes (s : String) : List UInt8 := s.toUTF8.toList

/-- Bytes as hexadecimal digits. -/
def hex (bs : List UInt8) : List Char := bs.flatMap fun b => Text.hexPadded 2 b.toNat

/-- The text of a name; of several the last one counts. -/
def textOf (files : List (String × String)) (name : String) : String :=
  ((files.reverse.find? (·.1 = name)).map (·.2)).getD ""

/-- The line of a name under a hash function. -/
def line (hash : List UInt8 → List UInt8) (files : List (String × String)) (name : String) :
    String :=
  String.ofList (hex (hash (bytes (textOf files name)))) ++ "  " ++ name ++ "\n"

/-- The lines of a set of files. -/
def lines (hash : List UInt8 → List UInt8) (files : List (String × String)) : String :=
  String.join (((files.map (·.1)).mergeSort (· ≤ ·)).map (line hash files))

/-- The digest under a hash function; a name with a newline has none. -/
def compute? (hash : List UInt8 → List UInt8) (files : List (String × String)) : Option String :=
  if files.any (·.1.toList.contains '\n') then none
  else some ("h1:" ++ String.ofList (Base64.encode (hash (bytes (lines hash files)))))

/-- The digest of a set of sources. -/
def ofSources? (files : List SourceFile) : Option String :=
  compute? Sha256.hash (files.map fun f => (f.path, f.text))

/-- The digest of a set of emitted modules. -/
def ofModules? (modules : List GeneratedModule) : Option String :=
  compute? Sha256.hash (modules.map fun m => (m.id.path, m.content))

end Digest
end ScriptWeave
