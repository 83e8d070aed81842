import ScriptWeave.Text.Affix

/-!
Source files and the modules that are emitted for them. A module is identified by its output path;
its logical name, the path without the suffix, is the name under which a loader asks for it.

Logical names of modules. Dropping the suffix loses nothing as long as the path ends in it, as the
paths of all emitted modules do; so no two of these share a logical name, and none has the empty
path.
-/

namespace ScriptWeave

/-- A file of the project with its path relative to the source root. -/
structure SourceFile where
  path : String
  text : String
deriving DecidableEq, Repr

structure ModuleId where
  path : String
deriving DecidableEq, Repr, Inhabited

namespace ModuleId

/-- The id of no module. -/
def unset : ModuleId := ⟨""⟩

/-- The end of every module path. -/
def suffix : String := ".js"

/-- The end of the path of a source file. -/
def sourceSuffix : String := ".as"

/-- The module that is emitted for a source path. -/
def ofSource (path : String) : ModuleId := ⟨Text.dropTail sourceSuffix path ++ suffix⟩

/-- The name under which loaders know the module. -/
def logicalName (id : ModuleId) : String := Text.dropTail suffix id.path

/-- The path ends as the path of a module does. -/
def Suffixed (id : ModuleId) : Prop := ∃ stem, id.path = stem ++ suffix

theorem dropTail_append (tail stem : String) : Text.dropTail tail (stem ++ tail) = stem := by
  have hends : Text.endsIn tail (stem ++ tail) = true := by
    simp [Text.endsIn, List.isSuffixOf_iff_suffix]
  rw [Text.dropTail, if_pos hends]
  simp

theorem Suffixed.path_eq {id : ModuleId} (h : id.Suffixed) :
    id.path = id.logicalName ++ suffix := by
  obtain ⟨stem, hstem⟩ := h
  rw [logicalName, hstem, dropTail_append]

theorem Suffixed.eq_of_logicalName_eq {a b : ModuleId} (ha : a.Suffixed) (hb : b.Suffixed)
    (h : a.logicalName = b.logicalName) : a = b := by
  have hpath : a.path = b.path := by rw [ha.path_eq, hb.path_eq, h]
  cases a
  cases b
  exact congrArg ModuleId.mk hpath

theorem suffixed_ofSource (path : String) : (ofSource path).Suffixed := ⟨_, rfl⟩

theorem Suffixed.getD_eq_iff {o : Option ModuleId} {id : ModuleId} (hid : id.Suffixed) :
    o.getD ⟨""⟩ = id ↔ o = some id := by
  cases o with
  | some x => simp
  | none =>
      have hne : (⟨""⟩ : ModuleId) ≠ id := by
        intro heq
        have hpath := hid.path_eq
        rw [← heq] at hpath
        have hlength := congrArg String.length hpath
        rw [String.length_append, show ModuleId.suffix.length = 3 from rfl] at hlength
        exact absurd hlength (by simp)
      simpa using hne

end ModuleId
end ScriptWeave
