import ScriptWeave.Report.Event

/-!
The setting of a conversion run. A run keeps a journal of everything it reports. It is stopped from
outside by cancellation, which may depend on what has been reported, and by a reporter that says it
has seen a fault. The jobs of a phase may be performed in any order; each leaves its result in a
place of its own.
-/

namespace ScriptWeave
namespace Pipeline

/-- Everything reported so far, the oldest first, and how often the reporter was asked for
faults. -/
structure Journal where
  reports : List Report
  queries : Nat
  /-- The jobs performed so far, each by its phase and its place. -/
  performed : List (String × Nat)

def Journal.empty : Journal := ⟨[], 0, []⟩

/-- What the outside answers during a run. -/
structure Signals where
  /-- Whether the run is cancelled once these reports were made. -/
  cancelled : List Report → Bool
  /-- Whether the reporter signals a fault, asked for the `n`-th time after these reports. -/
  faulty : Nat → List Report → Bool

/-- Nobody cancels, and the reporter signals a fault exactly after one was reported. -/
def Signals.quiet : Signals := ⟨fun _ => false, fun _ reports => reports.any (·.isFault)⟩

abbrev Run : Type → Type := ExceptT Fault (StateM Journal)

/-- Makes a report. -/
def tell (report : Report) : Run Unit :=
  modify fun j => { j with reports := j.reports ++ [report] }

def step (phase : String) (level : Level) (message : String) (context : Option Details) :
    Run Unit :=
  tell (.step ⟨phase, message, level, context⟩)

/-- Asks the reporter for faults. -/
def askReporter (signals : Signals) : Run Bool := do
  let j ← get
  set { j with queries := j.queries + 1 }
  return signals.faulty (j.queries + 1) j.reports

/-- One job of a phase: what it announces when it starts, and its result. -/
structure Job (α : Type) where
  announcement : Option Event
  result : Except Fault α

def Job.announce {α : Type} (job : Job α) (j : Journal) : Journal :=
  match job.announcement with
  | none => j
  | some event => { j with reports := j.reports ++ [.step event] }

/-- Begins the job at a place of a phase. -/
def Job.start {α : Type} (job : Job α) (phase : String) (place : Nat) (j : Journal) : Journal :=
  { job.announce j with performed := j.performed ++ [(phase, place)] }

/-- Performs the jobs at the given places one after another, until the run is cancelled. -/
def perform {α : Type} (signals : Signals) (phase : String) (jobs : List (Job α)) :
    List Nat → Journal → List (Nat × Except Fault α) × Journal
  | [], j => ([], j)
  | i :: rest, j =>
      if signals.cancelled j.reports then ([], j)
      else
        match jobs[i]? with
        | none => perform signals phase jobs rest j
        | some job =>
            let (done, j') := perform signals phase jobs rest (job.start phase i j)
            ((i, job.result) :: done, j')

/-- The fault of a run that was cancelled. -/
def cancelledFault : Fault :=
  .issue (.wrap .cancelled "conversion cancelled" (some (.plain "context canceled" none)))

/-- The results of all jobs by place, whatever the order in which they were performed. -/
def each {α : Type} (signals : Signals) (order : String → Nat → List Nat) (phase : String)
    (jobs : List (Job α)) : Run (List (Except Fault α)) := do
  let (done, j) := perform signals phase jobs (order phase jobs.length) (← get)
  set j
  if signals.cancelled j.reports then throw cancelledFault
  return (List.range jobs.length).filterMap (done.lookup ·)

end Pipeline
end ScriptWeave
