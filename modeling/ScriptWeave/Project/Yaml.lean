import ScriptWeave.Project.Settings
import ScriptWeave.Project.Yaml.Meaning
import ScriptWeave.Project.Yaml.Node

/-!
Settings in YAML: a mapping of keys to scalars. A mapping may take entries over from others under
the key `<<`; its own entries come first, then those of the mapping named first.
-/

namespace ScriptWeave
namespace Project
namespace Yaml

/-- The words for truth values that are text otherwise. -/
def readWord? (s : String) : Option Bool :=
  if ["y", "Y", "yes", "Yes", "YES", "on", "On", "ON"].contains s then some true
  else if ["n", "N", "no", "No", "NO", "off", "Off", "OFF"].contains s then some false
  else none

/-- Gives a setting the value of a scalar; nothing at all leaves it as it is. -/
def assign? (c : Settings) (setting : Setting) (tag s : String) : Option Settings := do
  match setting, ← Meaning.ofTagged? tag s with
  | _, .nothing => return c
  | .text t, .text value => return c.setText value t
  | .text t, _ => return c.setText s t
  | .flag f, .flag value => return c.setFlag value f
  | .flag f, .text value => return c.setFlag (← readWord? value) f
  | .count n, .integer value => if value < Text.signedBound then return c.setCount value n else none
  | .count n, .fraction value => return c.setCount (← value) n
  | _, _ => none

namespace Node

/-- The node that an alias stands for; an alias inside of its own node stands for none. -/
def target? : Node → Option Node
  | .alias _ target => target
  | node => some node

/-- Whether two keys are the same by their kind and their text. -/
def isSameKey : Node → Node → Bool
  | scalar _ a, scalar _ b => a = b
  | sequence _, sequence _ => true
  | mapping _, mapping _ => true
  | .alias a _, .alias b _ => a = b
  | _, _ => false

/-- The text of a key; a key that stands for nothing has none. -/
def keyText? (key : Node) : Option (Option String) := do
  match ← key.target? with
  | scalar tag s =>
      match ← Meaning.ofTagged? tag s with
      | .nothing => return none
      | .text value => return some value
      | _ => return some s
  | _ => none

/-- Whether a key asks for the entries of other mappings. -/
def isMerge : Node → Bool
  | scalar tag s => tag = "!!merge" && s = "<<"
  | _ => false

end Node

/-- Settings and the keys that have been met. -/
structure Progress where
  settings : Settings
  met : List String

/-- Applies an entry. A key that has been met does not count again in a mapping that is only
referred to; in the file's own mapping a setting must not have two keys. -/
def applyEntry? (referred : Bool) (p : Progress) (name : String) (value : Node) : Option Progress :=
  match Setting.ofKey? name with
  | none => some { p with met := name :: p.met }
  | some setting =>
      if p.met.contains name then if referred then some p else none
      else
        match value.target? with
        | some (.scalar tag s) =>
            (assign? p.settings setting tag s).map fun settings => ⟨settings, name :: p.met⟩
        | _ => none

/-- Whether no key occurs twice. -/
def haveDistinctKeys : List (Node × Node) → Bool
  | [] => true
  | (key, _) :: rest => rest.all (fun (other, _) => !key.isSameKey other) && haveDistinctKeys rest

/-- Applies the entries of a mapping, and then those of the mappings that it refers to. -/
def applyMapping? : Nat → Bool → Progress → Node → Option Progress
  | 0, _, _, _ => none
  | fuel + 1, referred, p, node => do
      match ← node.target? with
      | .mapping entries =>
          if !haveDistinctKeys entries then none
          let p ← entries.foldlM (fun p (key, value) => do
            if key.isMerge then return p
            match ← key.keyText? with
            | none => return p
            | some name => applyEntry? referred p name value) p
          match entries.find? (·.1.isMerge) with
          | none => return p
          | some (_, .sequence items) => items.foldlM (applyMapping? fuel true) p
          | some (_, merged) => applyMapping? fuel true p merged
      | _ => none

/-- Settings changed by a file, or nothing if the file is malformed or a value does not fit. -/
def decode? (c : Settings) (text : String) : Option Settings := do
  match ← parse? text with
  | none => return c
  | some (.scalar tag s) => if (← Meaning.ofTagged? tag s) = .nothing then return c else none
  | some node => return (← applyMapping? (text.length + 1) false ⟨c, []⟩ node).settings

end Yaml
end Project
end ScriptWeave
