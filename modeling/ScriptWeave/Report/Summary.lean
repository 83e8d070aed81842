/-!
What a finished conversion did.
-/

namespace ScriptWeave

structure Summary where
  runId : String
  sourceFiles : Int
  substituted : Int
  modulesEmitted : Int
  mergedModules : Int
  redirects : Int
  outDir : String
  /-- The modules written, in order. -/
  generated : List String
  /-- The stale modules removed, in order. -/
  removed : List String
deriving DecidableEq, Repr

namespace Summary

/-- The account of a success; a verbose one lists the modules. -/
def account (verbose : Bool) (s : Summary) : String :=
  "\nConversion Completed Successfully!\n==================================\n\n" ++
    s!"Converted {s.sourceFiles} source files\nEmitted {s.modulesEmitted} modules\n" ++
    (if 0 < s.mergedModules then
      s!"Merged {s.mergedModules} circular dependency groups ({s.redirects} redirects)\n"
     else "") ++
    (if 0 < s.substituted then s!"Replaced {s.substituted} JSON library files\n" else "") ++
    (if s.removed.isEmpty then "" else s!"Removed {s.removed.length} stale modules\n") ++
    (if verbose && !s.generated.isEmpty then
      "\nGenerated files:\n" ++ String.join (s.generated.map fun file => "  - " ++ file ++ "\n")
     else "") ++
    "\nOutput written to " ++ s.outDir ++ "\n"

end Summary

/-- A warning on a line of its own. -/
def warningLine (message : String) : String := "! " ++ message ++ "\n"

end ScriptWeave
