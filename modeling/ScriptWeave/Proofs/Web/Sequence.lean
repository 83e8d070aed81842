import ScriptWeave.Proofs.Web.Flight

/-!
The server that takes one request at a time does what requests do that overlap. What it holds is a
state of theirs: every conversion that goes on without its client is one that nobody waits for. Each
of its steps is a run of events from that state.
-/

namespace ScriptWeave

variable {β : Type} {convert : Attempt β}

namespace Flights

variable {f : Flights β} {digest : String} {flight : Flight β}

/-- A request that waits for its conversion is told at once when its client goes away. -/
theorem answer?_leave {call : Nat} (hanswers : f.answers = [])
    (hwaits : f.running.any (·.waiting.contains call) = true) :
    (f.leave call).answer? call = some (.error goneFault) := by
  rw [answer?, leave, hwaits, hanswers]
  simp

theorem flight?_update (f : Flights β) {change : Flight β → Flight β}
    (hdigest : ∀ flight : Flight β, (change flight).digest = flight.digest) :
    (f.update digest change).find? (·.digest = digest) = (f.flight? digest).map change := by
  rw [update, flight?]
  induction f.running with
  | nil => rfl
  | cons flight flights ih =>
      rw [List.map_cons, List.find?_cons, List.find?_cons]
      by_cases heq : flight.digest = digest
      · simp [heq, hdigest]
      · simp [heq, ih]

theorem finish_eq (convert : Attempt β) (i : Interruption)
    (hflight : f.flight? digest = some flight) (hopen : flight.outcome = none) :
    f.finish convert digest i = { f with
      running := f.update digest (Flight.finish convert i f.faulted)
      faulted := f.faulted || (flight.result convert i f.faulted).2
      builds := match (flight.result convert i f.faulted).1 with
        | .ok build => f.builds.insert digest build
        | .error _ => f.builds } := by
  rw [finish, hflight]
  dsimp only
  rw [hopen]
  rfl

/-- Changing the conversion of some sources changes no other. -/
theorem filter_update (f : Flights β) {change : Flight β → Flight β}
    (hdigest : ∀ flight : Flight β, (change flight).digest = flight.digest) :
    (f.update digest change).filter (·.digest ≠ digest) =
      f.running.filter (·.digest ≠ digest) := by
  rw [update]
  induction f.running with
  | nil => rfl
  | cons flight flights ih =>
      rw [List.map_cons, List.filter_cons, List.filter_cons, ih]
      by_cases heq : flight.digest = digest
      · simp [heq, hdigest]
      · simp [heq]

/-- When a conversion has ended and its outcome is delivered, no other conversion has changed. -/
theorem running_delivered (convert : Attempt β) (i : Interruption)
    (hflight : f.flight? digest = some flight) (hopen : flight.outcome = none) :
    ((f.finish convert digest i).deliver digest).running =
      f.running.filter (·.digest ≠ digest) := by
  have hended : ∀ flight ∈ f.update digest (Flight.finish convert i f.faulted),
      (!(decide (flight.digest = digest) && flight.outcome.isSome)) =
        decide (flight.digest ≠ digest) := by
    intro flight hmem
    obtain ⟨old, _, rfl⟩ := List.mem_map.1 hmem
    by_cases heq : old.digest = digest
    · simp [heq, Flight.finish, Flight.ask]
    · simp [heq]
  rw [finish_eq convert i hflight hopen, deliver]
  exact (List.filter_congr hended).trans (f.filter_update fun _ => rfl)

/-- Who alone waits for the conversion is told its outcome first. -/
theorem lookup_delivered {call : Nat} (convert : Attempt β) (i : Interruption)
    (hflight : f.flight? digest = some flight) (hopen : flight.outcome = none)
    (hwaiting : flight.waiting = [call]) (hanswers : f.answers = []) :
    ((f.finish convert digest i).deliver digest).answer? call =
      some (flight.result convert i f.faulted).1 := by
  rw [finish_eq convert i hflight hopen, answer?, deliver, update, hanswers]
  dsimp only
  rw [List.nil_append]
  generalize f.faulted = faulted
  rw [flight?] at hflight
  generalize f.running = flights at hflight ⊢
  induction flights with
  | nil => cases hflight
  | cons other flights ih =>
      rw [List.find?_cons] at hflight
      rw [List.map_cons, List.filter_cons]
      by_cases heq : other.digest = digest
      · simp only [heq, decide_true] at hflight
        cases hflight
        simp [heq, Flight.finish, Flight.ask, Flight.answers, hwaiting]
      · simp only [heq, decide_false] at hflight
        rw [if_neg heq, if_neg (by simp [heq])]
        exact ih hflight

end Flights

/-- A conversion whose client has left, among those that requests share. -/
def Leftover.flight (leaders : String → Nat) (l : Leftover) : Flight Build :=
  ⟨l.digest, leaders l.digest, [], true, l.heard, none⟩

namespace Server

/-- What requests that overlap have come to when the server takes the next one. -/
def flights (leaders : String → Nat) (s : Server) : Flights Build :=
  ⟨s.builds, [], s.leftovers.map (·.flight leaders), [], [], s.converter.faulted⟩

/-- Requests that overlap have come to what the server has. -/
structure Matches (leaders : String → Nat) (s : Server) (f : Flights Build) : Prop where
  builds : f.builds = s.builds
  running : f.running = s.leftovers.map (·.flight leaders)
  faulted : f.faulted = s.converter.faulted

variable {s : Server} {d : Disk} {files : List SourceFile} {digest : String}
  {leaders : String → Nat} {sources : String → List SourceFile}

@[simp] theorem missed_flights : (s.flights leaders).missed = [] := rfl

@[simp] theorem gone_flights : (s.flights leaders).gone = [] := rfl

@[simp] theorem answers_flights : (s.flights leaders).answers = [] := rfl

theorem flight?_flights (s : Server) (leaders : String → Nat) (digest : String) :
    (s.flights leaders).flight? digest = (s.leftover? digest).map (·.flight leaders) :=
  List.find?_map

theorem filter_flights (leaders : String → Nat) (leftovers : List Leftover) (digest : String) :
    (leftovers.map (·.flight leaders)).filter (·.digest ≠ digest) =
      (leftovers.filter (·.digest ≠ digest)).map (·.flight leaders) :=
  List.filter_map

/-- A conversion that requests share is about to come to what the server's comes to. -/
structure Mirrors (s : Server) (l : Leftover) (f : Flights Build) (flight : Flight Build) :
    Prop where
  found : f.flight? l.digest = some flight
  going : flight.outcome = none
  heard : flight.heard = l.heard
  interrupted : (if flight.abandoned then l.interruption else .never) = l.interruption
  builds : f.builds = s.builds
  faulted : f.faulted = s.converter.faulted

section

variable {f : Flights Build} {flight : Flight Build} {l : Leftover} (h : Mirrors s l f flight)
  (hsources : sources l.digest = l.files)
include h hsources

theorem Mirrors.result {outcome : Except Fault Build} {reports : List Report}
    (hconverted : s.converter.convertAmid l.interruption (heardAt l.heard s.converter.faulted)
      l.files l.digest = (outcome, reports)) :
    flight.result (s.converter.conversion sources) l.interruption s.converter.faulted =
      (outcome, reports.any (·.isFault)) := by
  rw [Flight.result, h.interrupted, Flights.digest_of_flight? h.found, h.heard,
    Converter.conversion, hsources, hconverted]

theorem Mirrors.outcome :
    (flight.result (s.converter.conversion sources) l.interruption f.faulted).1 =
      (s.conclude l).1 := by
  rw [h.faulted, conclude]
  rcases hconverted : s.converter.convertAmid l.interruption (heardAt l.heard s.converter.faulted)
    l.files l.digest with ⟨outcome, reports⟩
  rw [h.result hsources hconverted]
  cases outcome <;> rfl

/-- Ending a conversion is ending it among those that requests share. -/
theorem Mirrors.matches (hrunning : f.running.filter (·.digest ≠ l.digest) =
      (s.leftovers.filter (·.digest ≠ l.digest)).map (·.flight leaders)) :
    (s.conclude l).2.2.Matches leaders
      ((f.finish (s.converter.conversion sources) l.digest l.interruption).deliver l.digest) := by
  have hends := (Flights.running_delivered (s.converter.conversion sources) l.interruption h.found
    h.going).trans hrunning
  rw [conclude]
  rcases hconverted : s.converter.convertAmid l.interruption (heardAt l.heard s.converter.faulted)
    l.files l.digest with ⟨outcome, reports⟩
  have hfinished := Flights.finish_eq (s.converter.conversion sources) l.interruption
    h.found h.going
  rw [h.faulted, h.result hsources hconverted, h.builds] at hfinished
  rw [hfinished] at hends ⊢
  cases outcome <;> exact ⟨rfl, hends, rfl⟩

/-- Who alone waits for that conversion is told what the server's comes to. -/
theorem Mirrors.delivers {call : Nat} (hwaiting : flight.waiting = [call])
    (hanswers : f.answers = []) (hrunning : f.running.filter (·.digest ≠ l.digest) =
      (s.leftovers.filter (·.digest ≠ l.digest)).map (·.flight leaders)) :
    ∃ i, let shared :=
        (f.finish (s.converter.conversion sources) l.digest i).deliver l.digest
      shared.answer? call = some (s.conclude l).1 ∧ (s.conclude l).2.2.Matches leaders shared := by
  refine ⟨l.interruption, ?_, h.matches hsources hrunning⟩
  rw [Flights.lookup_delivered _ _ h.found h.going hwaiting hanswers, h.outcome hsources]

end

/-- A conversion whose client has left ends like one of those that requests share. -/
theorem matches_settle {l : Leftover} (hl : s.leftover? digest = some l)
    (hsources : sources digest = l.files) : (s.settle digest).2.Matches leaders
      ((s.flights leaders).run (s.converter.conversion sources)
        [.finish digest l.interruption, .deliver digest]) := by
  have hdigest : l.digest = digest := by simpa using List.find?_some hl
  subst hdigest
  have hfound : (s.flights leaders).flight? l.digest = some (l.flight leaders) := by
    rw [flight?_flights, hl, Option.map_some]
  have hmirrors : Mirrors s l (s.flights leaders) (l.flight leaders) :=
    ⟨hfound, rfl, rfl, rfl, rfl, rfl⟩
  rw [settle, hl]
  exact hmirrors.matches hsources (filter_flights leaders s.leftovers l.digest)

theorem get?_of_seek {s' : Server} {i : Interruption}
    (h : s.seek d i = (.ok (.missing files digest), s')) :
    s'.builds.get? digest = none := by
  rw [seek] at h
  split at h
  · cases h
  · split at h
    · cases h
    · next hnone =>
        cases h
        exact hnone

/-- A request that comes while no build is kept joins the conversion that is under way, or starts
one. -/
theorem run_arrive_join (hmissing : s.builds.get? digest = none) (leaders : String → Nat)
    (convert : Attempt Build) (call : Nat) :
    (s.flights leaders).run convert [.arrive call digest, .join call] =
      { s.flights leaders with
        running := match s.leftover? digest with
          | some _ => (s.flights leaders).update digest (Flight.join call)
          | none => (s.flights leaders).running ++ [⟨digest, call, [call], false, [], none⟩] } := by
  have harrived : (s.flights leaders).arrive call digest =
      { s.flights leaders with missed := [(call, digest)] } := by
    rw [Flights.arrive, flights, hmissing]
    rfl
  have hfound := s.flight?_flights leaders digest
  rw [Flights.flight?] at hfound
  rw [Flights.run, List.foldl_cons, List.foldl_cons, List.foldl_nil, Flights.step, Flights.step,
    harrived]
  cases hleft : s.leftover? digest <;> rw [hleft] at hfound <;>
    simp [Flights.join, Flights.flight?, Flights.update, hfound]

/-- The server makes a build like a request that shares the conversion that is under way, or that
starts one and stays. -/
theorem matches_current {s' : Server}
    (hseek : s.seek d (.always false) = (.ok (.missing files digest), s'))
    (hfiles : sources digest = files) (hleft : ∀ l ∈ s'.leftovers, sources l.digest = l.files)
    (leaders : String → Nat) (call : Nat) :
    ∃ i, let shared := (s'.flights leaders).run (s'.converter.conversion sources)
          (.arrive call digest :: Flights.closing call digest i)
      shared.answer? call = some (s.current d false).1 ∧
        (s.current d false).2.2.Matches leaders shared := by
  have hjoined := run_arrive_join (get?_of_seek hseek) leaders
    (s'.converter.conversion sources) call
  have hfound := s'.flight?_flights leaders digest
  have hothers := filter_flights leaders s'.leftovers digest
  have hclosed (i : Interruption) : (s'.flights leaders).run (s'.converter.conversion sources)
      (.arrive call digest :: Flights.closing call digest i) =
        (((s'.flights leaders).run (s'.converter.conversion sources)
          [.arrive call digest, .join call]).finish (s'.converter.conversion sources) digest
            i).deliver digest := rfl
  rw [current, hseek]
  simp only [hclosed, hjoined]
  cases hl : s'.leftover? digest with
  | none =>
      rw [hl] at hfound
      refine Mirrors.delivers (show Mirrors s' ⟨files, digest, .always false, []⟩ _
        ⟨digest, call, [call], false, [], none⟩ from ⟨?_, rfl, rfl, rfl, rfl, rfl⟩) hfiles
          rfl rfl ?_
      · rw [Flights.flight?, List.find?_append, show List.find? _ _ = none from hfound]
        simp
      · rw [List.filter_append, show List.filter _ (s'.flights leaders).running = _ from hothers]
        simp
  | some l =>
      have hdigest : l.digest = digest := by simpa using List.find?_some hl
      have hfiles' : sources l.digest = l.files := hleft l (List.mem_of_find?_eq_some hl)
      subst hdigest
      rw [hl] at hfound
      refine Mirrors.delivers (show Mirrors s' l _ ((l.flight leaders).join call) from
        ⟨?_, rfl, rfl, rfl, rfl, rfl⟩) hfiles' rfl rfl ?_
      · have hupdated : ((s'.flights leaders).update l.digest (Flight.join call)).find?
            (·.digest = l.digest) = _ := Flights.flight?_update _ fun _ => rfl
        rw [hfound] at hupdated
        exact hupdated
      · have hupdated : ((s'.flights leaders).update l.digest (Flight.join call)).filter
            (·.digest ≠ l.digest) = _ := Flights.filter_update _ fun _ => rfl
        exact hupdated.trans hothers

theorem leave_flight (leaders : String → Nat) (l : Leftover) (call : Nat) :
    (l.flight leaders).leave call = l.flight leaders := by
  simp [Leftover.flight, Flight.leave]

theorem leave_join_flight (leaders : String → Nat) (l : Leftover) (call : Nat) :
    ((l.flight leaders).join call).leave call = l.flight leaders := by
  simp [Leftover.flight, Flight.leave, Flight.join]

/-- A request whose client leaves when it would have to wait is told so at once, and the conversion
that it has started goes on. -/
theorem matches_currentLeft {s' : Server} {i : Interruption}
    (hseek : s.seek d i = (.ok (.missing files digest), s')) {call : Nat}
    (hleader : s'.leftover? digest = none → leaders digest = call) :
    let shared := (s'.flights leaders).run (s'.converter.conversion sources)
      [.arrive call digest, .join call, .leave call]
    shared.answer? call = some (s.currentLeft d i).1 ∧
      (s.currentLeft d i).2.2.Matches leaders shared := by
  have hjoined := run_arrive_join (get?_of_seek hseek) leaders
    (s'.converter.conversion sources) call
  have hleft : (s'.flights leaders).run (s'.converter.conversion sources)
      [.arrive call digest, .join call, .leave call] =
        ((s'.flights leaders).run (s'.converter.conversion sources)
          [.arrive call digest, .join call]).leave call := rfl
  rw [currentLeft, hseek]
  simp only [hleft, hjoined]
  cases hl : s'.leftover? digest with
  | none =>
      refine ⟨Flights.answer?_leave rfl (by simp), rfl, ?_, rfl⟩
      simp [Flights.leave, flights, Leftover.flight, Flight.leave, hleader hl]
  | some l =>
      have hdigest : l.digest = digest := by simpa using List.find?_some hl
      have hmem : l.flight leaders ∈ (s'.flights leaders).running :=
        List.mem_map_of_mem (List.mem_of_find?_eq_some hl)
      have hwaits : ((s'.flights leaders).update digest (Flight.join call)).any
          (·.waiting.contains call) = true := by
        refine List.any_eq_true.2 ⟨_, List.mem_map_of_mem hmem, ?_⟩
        rw [if_pos (show (l.flight leaders).digest = digest from hdigest)]
        simp [Flight.join]
      refine ⟨Flights.answer?_leave rfl hwaits, rfl, ?_, rfl⟩
      change List.map _ (List.map _ (List.map _ s'.leftovers)) = _
      rw [List.map_map, List.map_map]
      refine List.map_congr_left fun l' _ => ?_
      rw [Function.comp_apply, Function.comp_apply]
      split
      · exact leave_join_flight leaders l' call
      · exact leave_flight leaders l' call

/-- A conversion whose client has left is told of faults like one of those that requests share. -/
theorem matches_ask (s : Server) (leaders : String → Nat) (convert : Attempt Build)
    (digest : String) :
    (s.ask digest).Matches leaders ((s.flights leaders).run convert [.ask digest]) := by
  refine ⟨rfl, ?_, rfl⟩
  change (s.leftovers.map (·.flight leaders)).map _ = (s.leftovers.map _).map _
  rw [List.map_map, List.map_map]
  refine List.map_congr_left fun l _ => ?_
  by_cases hdigest : l.digest = digest
  · simp [hdigest, Leftover.flight, Flight.ask, flights]
  · simp [hdigest, Leftover.flight]

end Server
end ScriptWeave
