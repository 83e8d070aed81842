import ScriptWeave.Fault.Basic
import ScriptWeave.Text.Affix

/-!
The full account of a failed conversion: every issue with its place, details and hints, a count by
kind, and help for the kinds that users meet most.
-/

namespace ScriptWeave

/-- The end of every account. -/
def Fault.generalHelp : String :=
  "For more help:\n" ++
  "  - Run with --verbose for more detailed output\n" ++
  "  - Run 'as2amd graph' to inspect module dependencies\n"

/-- Help for issues of a kind; only some kinds have it. -/
def FaultCode.help : FaultCode → String
  | parse =>
      "Parse Errors:\n" ++
      "  - Every file needs exactly one package block\n" ++
      "  - Metadata tags and E4X literals are not supported\n\n"
  | resolution =>
      "Unresolved References:\n" ++
      "  - Check the import list of the file\n" ++
      "  - Only public top-level declarations are visible to other files\n\n"
  | exportConflict =>
      "Resolving Export Conflicts:\n" ++
      "  - Each package can export a name once\n" ++
      "  - Drop --strict-exports to keep the last file read instead\n\n"
  | _ => ""

namespace Details

/-- The details that are shown first, in this order. -/
def wellKnown : List String := ["path", "identifier", "package", "existing", "component"]

/-- Shown in place of bytes that are no character. -/
def replacementMark : Char := Char.ofNat 0xfffd

/-- A word with a capital first letter. Letters are those of ASCII; any other first character is
shown as one replacement mark for each byte of its encoding. -/
def capitalised (word : String) : String :=
  match word.toList with
  | [] => ""
  | c :: rest =>
      if c.toNat < 128 then String.ofList (c.toUpper :: rest)
      else String.ofList (List.replicate c.utf8Size replacementMark ++ rest)

/-- How the name of a detail is shown. -/
def title (name : String) : String :=
  if name = "path" then "File"
  else if name = "existing" then "Already Exported By"
  else if name = "config_type" then "Config"
  else " ".intercalate ((Text.split '_' name).map capitalised)

/-- The details in the order in which they are shown. -/
def arranged (ds : Details) : Details :=
  (wellKnown.filterMap fun name => (ds.get? name).map fun value => (name, value)) ++
    sorted (ds.filter fun entry => !wellKnown.contains entry.1)

def account (ds : Details) : String :=
  if ds.isEmpty then ""
  else
    "Context:\n" ++
      String.join (ds.arranged.map fun (name, value) =>
        "   " ++ title name ++ ": " ++ value.render ++ "\n") ++ "\n"

end Details

namespace Issue

/-- Blanks of every script that may make a line of a hint empty. -/
def isBlankCharacter (c : Char) : Bool :=
  (0x09 ≤ c.toNat && c.toNat ≤ 0x0d) || c.toNat = 0x20 || c.toNat = 0x85 || c.toNat = 0xa0 ||
    c.toNat = 0x1680 || (0x2000 ≤ c.toNat && c.toNat ≤ 0x200a) || c.toNat = 0x2028 ||
    c.toNat = 0x2029 || c.toNat = 0x202f || c.toNat = 0x205f || c.toNat = 0x3000

/-- A numbered hint; its further lines stand below it unless they are blank. -/
def hintAccount (number : Nat) (hint : String) : String :=
  match Text.split '\n' hint with
  | [] => s!"   {number}. \n"
  | first :: rest =>
      s!"   {number}. {first}\n" ++
        String.join ((rest.filter fun line => !line.toList.all isBlankCharacter).map fun line =>
          "      " ++ line ++ "\n")

def hintsAccount (hints : List String) : String :=
  if hints.isEmpty then ""
  else
    "Suggestions:\n" ++
      String.join (hints.zipIdx.map fun (hint, i) => hintAccount (i + 1) hint) ++ "\n"

def locationAccount (l : Location) : String :=
  if l.isEmpty then ""
  else if 0 < l.line then "Location: " ++ l.render ++ "\n\n"
  else "File: " ++ l.file ++ "\n\n"

/-- What only a verbose account shows: the number of the code and the chain of causes. -/
def technicalAccount (i : Issue) : String :=
  let chain := (Fault.issue i).chain
  s!"Verbose Debug Information:\n  Error Type Code: {i.code.number}\n" ++
    (if chain.isEmpty then ""
     else
      "  Error Chain:\n" ++
        String.join (chain.zipIdx.map fun (text, k) => s!"    {k + 1}. {text}\n")) ++ "\n"

def account (verbose : Bool) (i : Issue) : String :=
  "Type: " ++ i.code.name ++ "\n" ++
    String.ofList (List.replicate (i.code.name.length + 6) '-') ++ "\n\n" ++
    "Message: " ++ i.message ++ "\n\n" ++ locationAccount i.location ++ i.context.account ++
    hintsAccount i.hints ++ (if verbose then i.technicalAccount else "")

/-- The codes of issues in order of their first occurrence. -/
def codes (issues : List Issue) : List FaultCode :=
  issues.foldl (fun seen i => if seen.contains i.code then seen else seen ++ [i.code]) []

/-- How many issues have a code. -/
def countOf (issues : List Issue) (code : FaultCode) : Nat := issues.countP (·.code = code)

/-- The number of issues by code, when there is more than one code. -/
def countsAccount (issues : List Issue) : String :=
  if (codes issues).length ≤ 1 then ""
  else
    "Errors by type:\n" ++
      String.join ((codes issues).map fun code => s!"   {code.name}: {countOf issues code}\n") ++
        "\n"

def accountAll (verbose : Bool) (issues : List Issue) : String :=
  let count := issues.length
  String.join (issues.zipIdx.map fun (i, k) =>
      (if 1 < count then s!"[{k + 1}/{count}] " else "") ++ i.account verbose) ++
    countsAccount issues ++
    String.join (([.parse, .resolution, .exportConflict].filter fun code =>
      countOf issues code ≠ 0).map FaultCode.help)

end Issue

/-- The account of a failure. -/
def Fault.account (verbose : Bool) (fault : Fault) : String :=
  "\nERROR: Conversion Failed\n========================\n\n" ++
    (match fault.phase?, fault.several?, fault.issue? with
     | some (label, issues), _, _ =>
         s!"{label} prevented project from being converted ({issues.length} errors)\n\n" ++
           Issue.accountAll verbose issues
     | none, some issues, _ => Issue.accountAll verbose issues
     | none, none, some i => i.account verbose ++ i.code.help
     | none, none, none => "Message: " ++ fault.text ++ "\n\n") ++
    generalHelp ++ "\n"

end ScriptWeave
