import ScriptWeave.Fault.Basic

/-!
What a conversion tells about itself: steps with a level and details, and issues.
-/

namespace ScriptWeave

inductive Level where
  | debug
  | info
  | warn
  /-- A level outside the scale; it is named like `info` and shown like `debug`. -/
  | other
deriving DecidableEq, Repr

def Level.name : Level → String
  | debug => "debug"
  | info | other => "info"
  | warn => "warn"

/-- One step of a conversion. -/
structure Event where
  phase : String
  message : String
  level : Level
  context : Option Details

/-- What reporters receive: a step, or a fault of a phase. -/
inductive Report where
  | step (event : Event)
  | fault (phase : String) (fault : Fault)

namespace Report

def event? : Report → Option Event
  | step event => some event
  | fault _ _ => none

def isFault : Report → Bool
  | step _ => false
  | fault _ _ => true

end Report
end ScriptWeave
