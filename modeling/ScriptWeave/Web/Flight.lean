import ScriptWeave.Build.Converter
import ScriptWeave.Web.Recent

/-!
What happens when requests overlap. A request that finds no build of its sources joins the
conversion of these sources that is under way, or starts one, which then belongs to it. A request
whose client goes away is answered at once; the conversion that it started may notice. All
conversions use one reporter, and one that asks it for faults hears of those that were reported
elsewhere.
-/

namespace ScriptWeave

/-- What the reporter answers a conversion that asks for the `n`-th time whether a fault was
reported elsewhere: what it has answered, and from then on what it says last. -/
def heardAt (heard : List Bool) (last : Bool) (n : Nat) : Bool := heard.getD (n - 1) last

/-- What comes of converting the sources with a digest, by how that is interrupted and what the
reporter answers: the outcome, and whether a fault is reported. -/
abbrev Attempt (β : Type) : Type :=
  String → Interruption → (Nat → Bool) → Except Fault β × Bool

/-- A conversion under way. -/
structure Flight (β : Type) where
  digest : String
  /-- The request that started the conversion. -/
  leader : Nat
  /-- The requests that wait for it, unless their clients went away. -/
  waiting : List Nat
  /-- Whether the client of the first request went away before the conversion ended. -/
  abandoned : Bool
  /-- What the reporter has answered it so far: whether a fault was reported elsewhere. -/
  heard : List Bool
  /-- How it ended; nobody has been told yet. -/
  outcome : Option (Except Fault β)

/-- Requests by number, the conversions that they share, and the answers that they got. -/
structure Flights (β : Type) where
  builds : Recent β
  /-- Requests that found no build of the sources with a digest, and wait for nothing yet. -/
  missed : List (Nat × String)
  running : List (Flight β)
  /-- Requests whose clients went away. -/
  gone : List Nat
  answers : List (Nat × Except Fault β)
  /-- Whether a fault was reported to the reporter. -/
  faulted : Bool

inductive FlightEvent where
  /-- A request has read sources with a digest and looks for their build. -/
  | arrive (call : Nat) (digest : String)
  /-- A request that found no build joins a conversion or starts one. -/
  | join (call : Nat)
  /-- The client of a request goes away. -/
  | leave (call : Nat)
  /-- The conversion of the sources with a digest asks the reporter for faults. -/
  | ask (digest : String)
  /-- A fault is reported, but not by a conversion. -/
  | fault
  /-- The conversion of the sources with a digest ends; if it was abandoned, that is how it was
  interrupted. -/
  | finish (digest : String) (interruption : Interruption)
  /-- Those who wait for a conversion that has ended are told its outcome. -/
  | deliver (digest : String)

namespace Flight

variable {β : Type}

def join (call : Nat) (flight : Flight β) : Flight β :=
  { flight with waiting := flight.waiting ++ [call] }

def leave (call : Nat) (flight : Flight β) : Flight β :=
  { flight with
    waiting := flight.waiting.filter (· ≠ call)
    abandoned := flight.abandoned || (flight.leader = call && flight.outcome.isNone) }

/-- The reporter answers. -/
def ask (faulted : Bool) (flight : Flight β) : Flight β :=
  { flight with heard := flight.heard ++ [faulted] }

/-- What comes of a conversion that ends now. -/
def result (convert : Attempt β) (i : Interruption) (faulted : Bool) (flight : Flight β) :
    Except Fault β × Bool :=
  convert flight.digest (if flight.abandoned then i else .never) (heardAt flight.heard faulted)

/-- Ends a conversion. From here on the reporter has given its last answer. -/
def finish (convert : Attempt β) (i : Interruption) (faulted : Bool) (flight : Flight β) :
    Flight β :=
  { flight.ask faulted with outcome := some (flight.result convert i faulted).1 }

/-- What those who wait are told. -/
def answers (flight : Flight β) : List (Nat × Except Fault β) :=
  match flight.outcome with
  | none => []
  | some outcome => flight.waiting.map fun call => (call, outcome)

end Flight

namespace Flights

variable {β : Type}

def empty (capacity : Nat) : Flights β := ⟨.empty capacity, [], [], [], [], false⟩

/-- The fault of a request whose client went away. -/
def goneFault : Fault := .plain "context canceled" none

def flight? (f : Flights β) (digest : String) : Option (Flight β) :=
  f.running.find? (·.digest = digest)

/-- Changes the conversions of the sources with a digest. -/
def update (f : Flights β) (digest : String) (change : Flight β → Flight β) : List (Flight β) :=
  f.running.map fun flight => if flight.digest = digest then change flight else flight

/-- A request is answered from the builds that are kept, or found none. -/
def arrive (f : Flights β) (call : Nat) (digest : String) : Flights β :=
  match f.builds.get? digest with
  | some (build, builds) => { f with builds, answers := f.answers ++ [(call, .ok build)] }
  | none => { f with missed := f.missed ++ [(call, digest)] }

/-- A request whose client is gone already does not wait, though it may start a conversion. -/
def join (f : Flights β) (call : Nat) : Flights β :=
  match f.missed.lookup call with
  | none => f
  | some digest =>
      let missed := f.missed.filter fun entry => entry.1 ≠ call
      let left := f.gone.contains call
      let answers := if left then f.answers ++ [(call, .error goneFault)] else f.answers
      match f.flight? digest with
      | some _ =>
          { f with missed, answers, running := f.update digest fun flight =>
              if left then flight else flight.join call }
      | none =>
          { f with missed, answers, running := f.running ++
              [⟨digest, call, if left then [] else [call], left, [], none⟩] }

/-- A waiting request whose client goes away is answered at once. -/
def leave (f : Flights β) (call : Nat) : Flights β :=
  let waits := f.running.any (·.waiting.contains call)
  { f with
    gone := call :: f.gone
    running := f.running.map (Flight.leave call)
    answers := if waits then f.answers ++ [(call, .error goneFault)] else f.answers }

/-- A conversion that has not ended asks the reporter. -/
def ask (f : Flights β) (digest : String) : Flights β :=
  { f with running := f.update digest fun flight =>
      if flight.outcome.isSome then flight else flight.ask f.faulted }

/-- A conversion ends, unless it has ended before. Its build is kept. -/
def finish (convert : Attempt β) (f : Flights β) (digest : String) (i : Interruption) : Flights β :=
  match f.flight? digest with
  | none => f
  | some flight =>
      if flight.outcome.isSome then f
      else
        let (outcome, faults) := flight.result convert i f.faulted
        { f with
          running := f.update digest (Flight.finish convert i f.faulted)
          faulted := f.faulted || faults
          builds := match outcome with
            | .ok build => f.builds.insert digest build
            | .error _ => f.builds }

/-- The outcome of a conversion that ended reaches those who wait for it. -/
def deliver (f : Flights β) (digest : String) : Flights β :=
  let ended (flight : Flight β) : Bool := flight.digest = digest && flight.outcome.isSome
  { f with
    running := f.running.filter fun flight => !ended flight
    answers := f.answers ++ (f.running.filter ended).flatMap Flight.answers }

def step (convert : Attempt β) (f : Flights β) : FlightEvent → Flights β
  | .arrive call digest => f.arrive call digest
  | .join call => f.join call
  | .leave call => f.leave call
  | .ask digest => f.ask digest
  | .fault => { f with faulted := true }
  | .finish digest i => f.finish convert digest i
  | .deliver digest => f.deliver digest

/-- The state after events in order. -/
def run (convert : Attempt β) (f : Flights β) (events : List FlightEvent) : Flights β :=
  events.foldl (step convert) f

/-- The answer that a request got. -/
def answer? (f : Flights β) (call : Nat) : Option (Except Fault β) := f.answers.lookup call

end Flights

/-- What comes of converting sources by their digest. -/
def Converter.conversion (c : Converter) (sources : String → List SourceFile) : Attempt Build :=
  fun digest i heard =>
    let (outcome, reports) := c.convertAmid i heard (sources digest) digest
    (outcome, reports.any (·.isFault))

end ScriptWeave
