import ScriptWeave.Text.Affix
import ScriptWeave.Web.Engine

/-!
Addresses to listen on: a host and a port with a colon between them. A host with colons of its own
stands in brackets. The port is a number or the name of a service.
-/

namespace ScriptWeave
namespace Address

open Text

/-- Why nobody can listen on an address. -/
inductive Objection where
  /-- Something about a part of the address. -/
  | about (part reason : String)
  | unknownService (name : String)
  | unknownHost (host : String)
deriving DecidableEq, Repr

def Objection.text : Objection → String
  | about part reason => "address " ++ part ++ ": " ++ reason
  | unknownService name => "lookup tcp/" ++ name ++ ": unknown port"
  | unknownHost host => "lookup " ++ host ++ ": no such host"

/-- The host and the port of an address. -/
def divide (address : String) : Except Objection (String × String) :=
  let cs := address.toList
  let port := (cs.reverse.takeWhile (· ≠ ':')).reverse
  let refused (reason : String) : Except Objection (String × String) :=
    .error (.about address reason)
  if !cs.contains ':' then refused "missing port in address"
  else
    let checked (host opened closed : List Char) : Except Objection (String × String) :=
      if opened.contains '[' then refused "unexpected '[' in address"
      else if closed.contains ']' then refused "unexpected ']' in address"
      else .ok (String.ofList host, String.ofList port)
    if cs.head? = some '[' then
      let host := (cs.drop 1).takeWhile (· ≠ ']')
      match (cs.drop 1).dropWhile (· ≠ ']') with
      | [] => refused "missing ']' in address"
      | _ :: ':' :: rest =>
          if rest.contains ':' then refused "too many colons in address"
          else checked host (cs.drop 1) rest
      | _ => refused "missing port in address"
    else
      let host := cs.take (cs.length - port.length - 1)
      if host.contains ':' then refused "too many colons in address" else checked host cs cs

/-- From here on a port is far too large, and is not read any further. -/
def portLimit : UInt32 := 0x40000000

/-- Reads the digits of a port into a word of 32 bits; nothing if another character is met. -/
def readDigits? : UInt32 → List Char → Option UInt32
  | n, [] => some n
  | n, c :: cs =>
      if !c.isDigit then none
      else if portLimit ≤ n then some (0 - 1)
      else
        let shifted := n * 10
        let next := shifted + UInt32.ofNat (c.toNat - '0'.toNat)
        if next < shifted then some (0 - 1) else readDigits? next cs

/-- The number of a port with an optional sign. -/
def portNumber? (port : String) : Option Int :=
  match port.toList with
  | '-' :: cs => (readDigits? 0 cs).map fun n => - (min n portLimit).toNat
  | '+' :: cs => (readDigits? 0 cs).map fun n => (min n (portLimit - 1)).toNat
  | cs => (readDigits? 0 cs).map fun n => (min n (portLimit - 1)).toNat

/-- Services with a port of their own. -/
def services : List String :=
  ["ftp", "ftps", "gopher", "http", "https", "imap2", "imap3", "imaps", "pop3", "pop3s", "smtp",
   "submissions", "ssh", "telnet"]

def portObjection? (port : String) : Option Objection :=
  match portNumber? port with
  | some n => if 0 ≤ n ∧ n ≤ 65535 then none else some (.about port "invalid port")
  | none => if services.contains port.toLower then none else some (.unknownService port)

/-- The four numbers of a dotted address. -/
def dotted? (cs : List Char) : Option (List Nat) :=
  let numbers := (splitChars '.' cs).filterMap fun field =>
    let n := field.foldl (fun n c => 10 * n + (c.toNat - '0'.toNat)) 0
    if field.all (·.isDigit) ∧ 1 ≤ field.length ∧ field.length ≤ 3 ∧ n ≤ 255 ∧
      (field.head? ≠ some '0' ∨ field.length = 1) then some n else none
  if (splitChars '.' cs).length = 4 ∧ numbers.length = 4 then some numbers else none

/-- The value of one to four hexadecimal digits. -/
def group? (cs : List Char) : Option Nat :=
  if 1 ≤ cs.length ∧ cs.length ≤ 4 then
    cs.foldlM (fun n c => do
      let d ← digitValue? c
      if d < 16 then some (16 * n + d) else none) 0
  else none

/-- The values of fields with colons between them; the last field of an address may be dotted. -/
def groups? (last : Bool) (cs : List Char) : Option (List Nat) :=
  let read : List (List Char) → Option (List Nat)
    | fields =>
        match fields.getLast?, last with
        | some field, true =>
            match dotted? field with
            | some [a, b, c, d] => do
                return (← fields.dropLast.mapM group?) ++ [256 * a + b, 256 * c + d]
            | _ => fields.mapM group?
        | _, _ => fields.mapM group?
  if cs.isEmpty then some [] else read (splitChars ':' cs)

/-- Divides a text at its first two colons in a row. -/
def atGap? : List Char → Option (List Char × List Char)
  | ':' :: ':' :: cs => some ([], cs)
  | c :: cs => (atGap? cs).map fun (before, after) => (c :: before, after)
  | [] => none

/-- The eight groups of a long address. A gap stands for at least one group of zeros, and a zone may
follow a percent sign. -/
def longAddress? (host : String) : Option (List Nat) :=
  let cs := host.toList.takeWhile (· ≠ '%')
  if host.toList.drop cs.length = ['%'] ∨ !cs.contains ':' then none
  else
    match atGap? cs with
    | none => (groups? true cs).bind fun groups => if groups.length = 8 then some groups else none
    | some (before, after) => do
        let front ← groups? false before
        let back ← groups? true after
        let gap := 8 - (front.length + back.length)
        if gap = 0 then none else some (front ++ List.replicate gap 0 ++ back)

/-- Whether a long address can be written as a dotted one, or stands for every address. -/
def hasShortForm (groups : List Nat) : Bool :=
  groups.take 6 = [0, 0, 0, 0, 0, 0xffff] || groups.all (· = 0)

/-- Whether a text could be the name of a host: labels of letters, digits, underscores and inner
dashes with dots between them, at least one of them not a number. -/
def isHostName (host : String) : Bool :=
  let cs := host.toList
  let labels := splitChars '.' (if cs.getLast? = some '.' then cs.dropLast else cs)
  host = "." || (cs.length ≤ (if cs.getLast? = some '.' then 254 else 253) &&
    labels.all (fun label => 1 ≤ label.length && label.length ≤ 63 &&
      label.head? ≠ some '-' && label.getLast? ≠ some '-' &&
      label.all fun c => c.isAlphanum || c = '_' || c = '-') &&
    cs.any fun c => c.isAlpha || c = '_' || c = '-')

/-- Only some engines listen on long addresses. -/
def hostObjection? (longAddresses : Bool) (host : String) : Option Objection :=
  if host = "" ∨ (dotted? host.toList).isSome then none
  else
    match longAddress? host with
    | some groups =>
        if longAddresses || hasShortForm groups then none
        else some (.about host "no suitable address found")
    | none => if isHostName host then none else some (.unknownHost host)

/-- Why nobody can listen on an address; an empty one stands for every host and some port. -/
def objection? (longAddresses : Bool) (address : String) : Option Objection :=
  if address = "" then none
  else
    match divide address with
    | .error objection => some objection
    | .ok (host, port) => portObjection? port <|> hostObjection? longAddresses host

/-- The message of an engine that cannot listen on an address. -/
def refusal? (e : Engine) (address : String) : Option String :=
  match e with
  | .echo | .gin => (objection? true address).map fun o => "listen tcp: " ++ o.text
  | .fiber => (objection? false address).map fun o => "failed to listen: listen tcp4: " ++ o.text

end Address
end ScriptWeave
