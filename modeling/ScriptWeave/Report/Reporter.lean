import ScriptWeave.Report.Console
import ScriptWeave.Report.Log

/-!
Reporters as views of what was reported. Every reporter receives every report; what it shows or
remembers is a function of the reports alone.
-/

namespace ScriptWeave

inductive Reporter where
  /-- Takes no notice of anything. -/
  | discard
  /-- Remembers everything. -/
  | record
  /-- Shows messages to people. -/
  | console (console : Console)
  /-- Writes entries with some fields of its own. -/
  | log (logger : Logger) (fields : Details)

namespace Report

/-- The issue that a fault is about, or only its text. -/
def faultLine (phase : String) (fault : Fault) : String :=
  match fault.issue? with
  | some i => phase ++ ": [" ++ i.code.name ++ "] " ++ i.text
  | none => phase ++ ": " ++ fault.text

/-- The mark of a step on a console. -/
def markOf : Level → Mark
  | .warn => .warn
  | .info => .info
  | .debug | .other => .verbose

def shown (c : Console) : Report → Transcript
  | step e => c.message (markOf e.level) (e.phase ++ ": " ++ e.message)
  | fault phase f => c.message .error (faultLine phase f)

/-- The fields of an entry about a fault. -/
def faultFields (fields : Details) (phase : String) (f : Fault) : Details :=
  let own := (fields.insert "phase" (.text phase)).insert "error" (.text f.text)
  match f.issue? with
  | none => own
  | some i =>
      let coded := own.insert "code" (.text i.code.name)
      if i.location.isEmpty then coded else coded.insert "location" (.text i.location.render)

def logged (fields : Details) : Report → LogEntry
  | step e =>
      ⟨.ofLevel e.level, e.message,
        (e.context.getD []).foldl (fun ds (name, value) => ds.insert name value)
          (fields.insert "phase" (.text e.phase))⟩
  | fault phase f => ⟨.error, "conversion error", faultFields fields phase f⟩

/-- The faults among reports. -/
def fault? : Report → Option Fault
  | step _ => none
  | fault _ f => some f

/-- The steps of a phase. -/
def eventsOf (reports : List Report) (phase : String) : List Event :=
  (reports.filterMap event?).filter (·.phase = phase)

end Report

namespace Reporter

/-- Whether a reporter takes notice of faults. -/
def hears : Reporter → Bool
  | discard => false
  | record | console _ | log _ _ => true

/-- Whether a reporter signals a fault after these reports. -/
def hasFault (reports : List Report) (r : Reporter) : Bool := r.hears && reports.any (·.isFault)

/-- Several reporters signal a fault when one of them does. -/
def anyFault (reporters : List Reporter) (reports : List Report) : Bool :=
  reporters.any (·.hasFault reports)

/-- The entries that a reporter leaves in its log. -/
def entries (reports : List Report) : Reporter → List LogEntry
  | log logger fields => (reports.map (·.logged fields)).filter logger.keeps
  | _ => []

/-- What a reporter writes about one report. -/
def written (time : String) (report : Report) : Reporter → Transcript
  | console c => report.shown c
  | log logger fields => [(.error, logger.line time (report.logged fields))]
  | discard | record => []

end Reporter

inductive Remark where
  | header (text : String)
  | item (text : String)
  | verbose (text : String)
  | debug (text : String)
deriving DecidableEq, Repr

def Remark.shown (c : Console) : Remark → Transcript
  | header text => c.phaseHeader text
  | item text => c.phaseItem text
  | verbose text => c.message .verbose text
  | debug text => c.message .debug text

inductive Notice where
  | remark (remark : Remark)
  | report (report : Report)

/-- What a notice looks like: remarks on the console, reports by the reporter. -/
def Notice.written (time : String) (c : Console) (r : Reporter) : Notice → Transcript
  | remark rm => rm.shown c
  | report rp => r.written time rp

end ScriptWeave
