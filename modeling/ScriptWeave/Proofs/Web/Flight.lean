import Mathlib.Data.List.Infix
import ScriptWeave.Proofs.Build.Conversions
import ScriptWeave.Proofs.Web.History

/-!
What a request gets that shares a conversion with others. Whatever the order in which requests come
and go and conversions end, a request that stays is answered with a build of its sources, unless it
waits for a conversion whose first request went away, or that was told of a fault: that conversion
may notice, and everybody who waits for it is told so.
-/

namespace ScriptWeave

variable {β : Type} {convert : Attempt β}

namespace Flight

variable {flight : Flight β} {call other : Nat} {i : Interruption} {faulted : Bool}

theorem mem_waiting_leave (h : call ≠ other) :
    call ∈ (flight.leave other).waiting ↔ call ∈ flight.waiting := by
  simp [leave, h]

/-- A conversion that has ended did so with the outcome for its sources, as if nobody had
interrupted it unless it was abandoned, and as if no fault was reported elsewhere unless it was told
of one. -/
def Sound (convert : Attempt β) (flight : Flight β) : Prop :=
  ∀ outcome, flight.outcome = some outcome →
    ∃ i heard, (convert flight.digest i heard).1 = outcome ∧
      (flight.abandoned = false → i = .never) ∧ (true ∉ flight.heard → heard = fun _ => false)

theorem Sound.join (h : flight.Sound convert) : (flight.join call).Sound convert := h

theorem Sound.leave (h : flight.Sound convert) : (flight.leave call).Sound convert := by
  intro outcome houtcome
  obtain ⟨i, heard, hi, hnever, hunheard⟩ := h outcome houtcome
  refine ⟨i, heard, hi, fun habandoned => hnever ?_, hunheard⟩
  exact (Bool.or_eq_false_iff.1 habandoned).1

theorem heardAt_of_not_mem {heard : List Bool} {last : Bool} (h : true ∉ heard ++ [last]) :
    heardAt heard last = fun _ => false := by
  have hfalse : ∀ b ∈ heard ++ [last], b = false := fun b hb =>
    Bool.eq_false_iff.2 fun htrue => h (htrue ▸ hb)
  funext n
  rw [heardAt, List.getD_eq_getElem?_getD]
  cases hget : heard[n - 1]? with
  | none => exact hfalse last (List.mem_append_right _ (List.mem_singleton_self _))
  | some b => exact hfalse b (List.mem_append_left _ (List.mem_of_getElem? hget))

theorem sound_finish (convert : Attempt β) (i : Interruption) (faulted : Bool) (flight : Flight β) :
    (flight.finish convert i faulted).Sound convert := by
  intro outcome houtcome
  cases houtcome
  refine ⟨_, _, rfl, fun habandoned => ?_, heardAt_of_not_mem⟩
  change flight.abandoned = false at habandoned
  rw [habandoned]
  rfl

end Flight

namespace Flights

variable {f : Flights β} {call : Nat} {digest : String}

/-- No conversion that the request waits for was abandoned, or was told of a fault that was reported
elsewhere. -/
def Secure (f : Flights β) (call : Nat) : Prop :=
  ∀ flight ∈ f.running, call ∈ flight.waiting → flight.abandoned = false ∧ true ∉ flight.heard

instance (f : Flights β) (call : Nat) : Decidable (f.Secure call) :=
  inferInstanceAs (Decidable (∀ flight ∈ f.running, call ∈ flight.waiting →
    flight.abandoned = false ∧ true ∉ flight.heard))

/-- A request for sources with a digest is looked after: its client is there, it waits for nothing
but the conversion of its sources, and if it got an answer, that is a build of them. -/
structure Attended (convert : Attempt β) (f : Flights β) (call : Nat) (digest : String) : Prop where
  kept : ∀ item ∈ f.builds.items, ∃ i heard, (convert item.1 i heard).1 = .ok item.2
  /-- Sources with one digest are converted once at a time. -/
  single : (f.running.map (·.digest)).Nodup
  sound : ∀ flight ∈ f.running, flight.Sound convert
  here : call ∉ f.gone
  missed : ∀ d, (call, d) ∈ f.missed → d = digest
  waits : ∀ flight ∈ f.running, call ∈ flight.waiting → flight.digest = digest
  told : ∀ outcome, (call, outcome) ∈ f.answers →
    ∃ build i heard, outcome = .ok build ∧ (convert digest i heard).1 = .ok build

/-- The request was answered. -/
def Told (f : Flights β) (call : Nat) : Prop := ∃ outcome, (call, outcome) ∈ f.answers

/-- The request waits for a conversion. -/
def Waits (f : Flights β) (call : Nat) : Prop := ∃ flight ∈ f.running, call ∈ flight.waiting

/-- The request has come: it was answered, waits for a conversion, or is about to join one. -/
def Present (f : Flights β) (call : Nat) : Prop :=
  f.Told call ∨ f.Waits call ∨ ∃ digest, (call, digest) ∈ f.missed

theorem attended_empty (capacity : Nat) : Attended convert (.empty capacity) call digest where
  kept := fun _ h => absurd h List.not_mem_nil
  single := List.nodup_nil
  sound := fun _ h => absurd h List.not_mem_nil
  here := List.not_mem_nil
  missed := fun _ h => absurd h List.not_mem_nil
  waits := fun _ h => absurd h List.not_mem_nil
  told := fun _ h => absurd h List.not_mem_nil

theorem digest_of_flight? {flight : Flight β} (h : f.flight? digest = some flight) :
    flight.digest = digest := by
  simpa using List.find?_some h

/-- Where sources are converted once at a time, that conversion is found. -/
theorem flight?_of_mem {flight : Flight β} (hsingle : (f.running.map (·.digest)).Nodup)
    (h : flight ∈ f.running) : f.flight? flight.digest = some flight := by
  cases hfound : f.flight? flight.digest with
  | none => exact absurd (List.find?_eq_none.1 hfound flight h) (by simp)
  | some found =>
      rw [List.inj_on_of_nodup_map hsingle (List.mem_of_find?_eq_some hfound) h
        (digest_of_flight? hfound)]

theorem map_digest_update (f : Flights β) (d : String) {change : Flight β → Flight β}
    (hdigest : ∀ flight : Flight β, (change flight).digest = flight.digest) :
    (f.update d change).map (·.digest) = f.running.map (·.digest) := by
  rw [update, List.map_map]
  refine List.map_congr_left fun flight _ => ?_
  rw [Function.comp_apply]
  split
  · exact hdigest flight
  · rfl

namespace Attended

theorem arrive (h : Attended convert f call digest) {other : Nat} {d : String}
    (hown : other = call → d = digest) : Attended convert (f.arrive other d) call digest := by
  rw [Flights.arrive]
  cases hget : f.builds.get? d with
  | some found =>
      obtain ⟨build, builds⟩ := found
      obtain ⟨i, heard, hi⟩ := h.kept _ (Recent.mem_of_get? hget)
      refine { h with kept := ?_, told := ?_ }
      · intro item hitem
        exact h.kept item (Recent.items_of_get? hget hitem)
      · intro outcome houtcome
        obtain hold | hnew := List.mem_append.1 houtcome
        · exact h.told outcome hold
        · cases List.mem_singleton.1 hnew
          exact ⟨build, i, heard, rfl, hown rfl ▸ hi⟩
  | none =>
      refine { h with missed := ?_ }
      intro d' hd'
      obtain hold | hnew := List.mem_append.1 hd'
      · exact h.missed d' hold
      · cases List.mem_singleton.1 hnew
        exact hown rfl

/-- Changing conversions without moving a request from one to another. -/
theorem update (h : Attended convert f call digest) {d : String} {change : Flight β → Flight β}
    (hdigest : ∀ flight : Flight β, (change flight).digest = flight.digest)
    (hwaiting : ∀ flight : Flight β,
      call ∈ (change flight).waiting → call ∈ flight.waiting ∨ d = digest)
    (hsound : ∀ flight : Flight β, flight.Sound convert → (change flight).Sound convert) :
    Attended convert { f with running := f.update d change } call digest := by
  refine { h with single := ?_, sound := ?_, waits := ?_ }
  · exact (f.map_digest_update d hdigest).symm ▸ h.single
  · intro flight hflight
    obtain ⟨old, hold, rfl⟩ := List.mem_map.1 hflight
    split
    · exact hsound old (h.sound old hold)
    · exact h.sound old hold
  · intro flight hflight hcall
    obtain ⟨old, hold, rfl⟩ := List.mem_map.1 hflight
    by_cases heq : old.digest = d
    · rw [if_pos heq] at hcall ⊢
      rw [hdigest]
      obtain hwaits | hown := hwaiting old hcall
      · exact h.waits old hold hwaits
      · exact heq.trans hown
    · rw [if_neg heq] at hcall ⊢
      exact h.waits old hold hcall

theorem start (h : Attended convert f call digest) {flight : Flight β}
    (hnone : f.flight? flight.digest = none)
    (hwaits : call ∈ flight.waiting → flight.digest = digest) (hsound : flight.Sound convert) :
    Attended convert { f with running := f.running ++ [flight] } call digest := by
  refine { h with single := ?_, sound := ?_, waits := ?_ }
  · rw [List.map_append]
    refine List.nodup_append.2 ⟨h.single, List.nodup_singleton _, ?_⟩
    intro d hd d' hd' heq
    obtain ⟨old, hold, rfl⟩ := List.mem_map.1 hd
    cases List.mem_singleton.1 hd'
    exact absurd (List.find?_eq_none.1 hnone old hold) (by simp [heq])
  · intro other hother
    obtain hold | hnew := List.mem_append.1 hother
    · exact h.sound other hold
    · exact List.mem_singleton.1 hnew ▸ hsound
  · intro other hother hcall
    obtain hold | hnew := List.mem_append.1 hother
    · exact h.waits other hold hcall
    · rw [List.mem_singleton.1 hnew] at hcall ⊢
      exact hwaits hcall

/-- Answering another request. -/
theorem tell (h : Attended convert f call digest) {other : Nat} (hother : other ≠ call)
    (outcome : Except Fault β) :
    Attended convert { f with answers := f.answers ++ [(other, outcome)] } call digest := by
  refine { h with told := ?_ }
  intro outcome' houtcome
  obtain hold | hnew := List.mem_append.1 houtcome
  · exact h.told outcome' hold
  · exact absurd (congrArg Prod.fst (List.mem_singleton.1 hnew)).symm hother

theorem join (h : Attended convert f call digest) (other : Nat) :
    Attended convert (f.join other) call digest := by
  rw [Flights.join]
  cases hlookup : f.missed.lookup other with
  | none => exact h
  | some d =>
      have hown (heq : other = call) : d = digest :=
        h.missed d (heq ▸ mem_of_lookup hlookup)
      have hmissed : Attended convert
          { f with missed := f.missed.filter fun entry => entry.1 ≠ other } call digest :=
        { h with missed := fun d' hd' => h.missed d' (List.mem_of_mem_filter hd') }
      have hnew (waiting : List Nat) (left : Bool) :
          Flight.Sound convert ⟨d, other, waiting, left, [], none⟩ := fun _ hnone => nomatch hnone
      by_cases hleft : f.gone.contains other = true
      · have hother : other ≠ call := by
          rintro rfl
          exact h.here (List.contains_iff_mem.1 hleft)
        have htold := hmissed.tell hother (.error goneFault)
        simp only [hleft, if_true]
        split
        · exact htold.update (fun _ => rfl) (fun _ => .inl) fun _ => id
        · next hnone =>
            exact htold.start hnone (fun hcall => absurd hcall List.not_mem_nil) (hnew _ _)
      · simp only [hleft]
        split
        · refine hmissed.update (fun _ => rfl) ?_ fun _ => Flight.Sound.join
          intro flight hcall
          obtain hold | hcall := List.mem_append.1 hcall
          · exact .inl hold
          · exact .inr (hown (List.mem_singleton.1 hcall).symm)
        · next hnone =>
            exact hmissed.start hnone (fun hcall => hown (List.mem_singleton.1 hcall).symm)
              (hnew _ _)

theorem leave (h : Attended convert f call digest) {other : Nat} (hother : other ≠ call) :
    Attended convert (f.leave other) call digest := by
  have hgone : Attended convert
      { f with gone := other :: f.gone, running := f.running.map (Flight.leave other) }
      call digest := by
    refine { h with single := ?_, sound := ?_, here := ?_, waits := ?_ }
    · rw [List.map_map]
      exact h.single
    · intro flight hflight
      obtain ⟨old, hold, rfl⟩ := List.mem_map.1 hflight
      exact (h.sound old hold).leave
    · exact fun hcall => (List.mem_cons.1 hcall).elim (fun heq => hother heq.symm) h.here
    · intro flight hflight hcall
      obtain ⟨old, hold, rfl⟩ := List.mem_map.1 hflight
      exact h.waits old hold ((Flight.mem_waiting_leave hother.symm).1 hcall)
  rw [Flights.leave]
  split
  · exact hgone.tell hother _
  · exact hgone

theorem ask (h : Attended convert f call digest) (d : String) :
    Attended convert (f.ask d) call digest := by
  refine h.update ?_ ?_ ?_
  · intro flight
    split <;> rfl
  · intro flight hcall
    split at hcall <;> exact .inl hcall
  · intro flight hsound outcome houtcome
    split at houtcome
    · next hended =>
        rw [if_pos hended]
        exact hsound outcome houtcome
    · next hopen =>
        change flight.outcome = some outcome at houtcome
        rw [houtcome] at hopen
        exact absurd rfl hopen

theorem finish (h : Attended convert f call digest) (d : String) (i : Interruption) :
    Attended convert (f.finish convert d i) call digest := by
  rw [Flights.finish]
  cases hflight : f.flight? d with
  | none => exact h
  | some flight =>
      dsimp only
      split
      · exact h
      · have hended : Attended convert
            { f with running := f.update d (Flight.finish convert i f.faulted) } call digest :=
          h.update (fun _ => rfl) (fun _ => .inl) fun flight _ =>
            flight.sound_finish convert i f.faulted
        refine { hended with kept := ?_ }
        intro item hitem
        dsimp only at hitem
        split at hitem
        · next build hbuild =>
            obtain rfl | hold := Recent.mem_insert hitem
            · rw [Flight.result, digest_of_flight? hflight] at hbuild
              exact ⟨_, _, hbuild⟩
            · exact h.kept item hold
        · exact h.kept item hitem

/-- What a request is told that waits for a conversion of its own sources is a build of them, if the
sources can be converted. -/
theorem deliver (h : Attended convert f call digest) (hsecure : f.Secure call)
    {build : β} (hconverts : (convert digest .never fun _ => false).1 = .ok build) (d : String) :
    Attended convert (f.deliver d) call digest := by
  rw [Flights.deliver]
  dsimp only
  refine { h with single := ?_, sound := ?_, waits := ?_, told := ?_ }
  · exact h.single.sublist (List.filter_sublist.map _)
  · exact fun flight hflight => h.sound flight (List.mem_of_mem_filter hflight)
  · exact fun flight hflight => h.waits flight (List.mem_of_mem_filter hflight)
  · intro outcome houtcome
    obtain hold | hnew := List.mem_append.1 houtcome
    · exact h.told outcome hold
    · obtain ⟨flight, hflight, htold⟩ := List.mem_flatMap.1 hnew
      have hmem := List.mem_of_mem_filter hflight
      rw [Flight.answers] at htold
      split at htold
      · exact absurd htold List.not_mem_nil
      · next outcome' hended =>
          obtain ⟨other, hwaits, heq⟩ := List.mem_map.1 htold
          cases heq
          obtain ⟨i, heard, hi, hnever, hunheard⟩ := h.sound flight hmem outcome hended
          obtain ⟨hstaying, hsilent⟩ := hsecure flight hmem hwaits
          rw [h.waits flight hmem hwaits, hnever hstaying, hunheard hsilent, hconverts] at hi
          exact ⟨build, .never, _, hi.symm, hconverts⟩

theorem step (h : Attended convert f call digest) (hsecure : f.Secure call) {build : β}
    (hconverts : (convert digest .never fun _ => false).1 = .ok build) {event : FlightEvent}
    (harrives : ∀ d, event = .arrive call d → d = digest) (hstays : event ≠ .leave call) :
    Attended convert (f.step convert event) call digest := by
  cases event with
  | arrive other d => exact h.arrive fun heq => harrives d (heq ▸ rfl)
  | join other => exact h.join other
  | leave other => exact h.leave fun heq => hstays (heq ▸ rfl)
  | ask d => exact h.ask d
  | fault => exact { h with }
  | finish d i => exact h.finish d i
  | deliver d => exact h.deliver hsecure hconverts d

end Attended

section

variable (f : Flights β) (convert : Attempt β) (d : String) (i : Interruption)

@[simp] theorem answers_finish : (f.finish convert d i).answers = f.answers := by
  rw [finish]
  split
  · rfl
  · split <;> rfl

@[simp] theorem missed_finish : (f.finish convert d i).missed = f.missed := by
  rw [finish]
  split
  · rfl
  · split <;> rfl

@[simp] theorem gone_finish : (f.finish convert d i).gone = f.gone := by
  rw [finish]
  split
  · rfl
  · split <;> rfl

end

theorem Told.step (h : f.Told call) (convert : Attempt β) (event : FlightEvent) :
    (f.step convert event).Told call := by
  obtain ⟨outcome, h⟩ := h
  refine ⟨outcome, ?_⟩
  cases event with
  | arrive other d =>
      simp only [Flights.step, arrive]
      split
      · exact List.mem_append_left _ h
      · exact h
  | join other =>
      simp only [Flights.step, join]
      split
      · exact h
      · split <;> dsimp only <;> split <;> first | exact List.mem_append_left _ h | exact h
  | leave other =>
      simp only [Flights.step, leave]
      split
      · exact List.mem_append_left _ h
      · exact h
  | ask | fault => exact h
  | finish d i => exact (answers_finish f convert d i).symm ▸ h
  | deliver d => exact List.mem_append_left _ h

/-- A request keeps waiting while conversions change without letting it go. -/
theorem Waits.update (h : f.Waits call) (d : String) (change : Flight β → Flight β)
    (hwaiting : ∀ flight : Flight β, call ∈ flight.waiting → call ∈ (change flight).waiting) :
    ∃ flight ∈ f.update d change, call ∈ flight.waiting := by
  obtain ⟨flight, hflight, hcall⟩ := h
  refine ⟨_, List.mem_map_of_mem hflight, ?_⟩
  split
  · exact hwaiting flight hcall
  · exact hcall

theorem Waits.step (h : f.Waits call) (convert : Attempt β) {event : FlightEvent}
    (hstays : event ≠ .leave call) :
    (f.step convert event).Told call ∨ (f.step convert event).Waits call := by
  cases event with
  | arrive other d =>
      simp only [Flights.step, arrive]
      split <;> exact .inr h
  | join other =>
      simp only [Flights.step, join]
      split
      · exact .inr h
      · split
        · refine .inr (h.update _ _ fun flight hcall => ?_)
          split
          · exact hcall
          · exact List.mem_append_left _ hcall
        · obtain ⟨flight, hflight, hcall⟩ := h
          exact .inr ⟨flight, List.mem_append_left _ hflight, hcall⟩
  | leave other =>
      obtain ⟨flight, hflight, hcall⟩ := h
      have hother : call ≠ other := fun heq => hstays (heq ▸ rfl)
      exact .inr ⟨_, List.mem_map_of_mem hflight, (Flight.mem_waiting_leave hother).2 hcall⟩
  | ask d =>
      refine .inr (h.update d _ fun flight hcall => ?_)
      split <;> exact hcall
  | fault => exact .inr h
  | finish d i =>
      simp only [Flights.step, finish]
      split
      · exact .inr h
      · split
        · exact .inr h
        · exact .inr (h.update d _ fun _ hcall => hcall)
  | deliver d =>
      obtain ⟨flight, hflight, hcall⟩ := h
      by_cases hended : (flight.digest = d && flight.outcome.isSome) = true
      · obtain ⟨outcome, houtcome⟩ :=
          Option.isSome_iff_exists.1 (Bool.and_eq_true_iff.1 hended).2
        refine .inl ⟨outcome, List.mem_append_right _ (List.mem_flatMap.2
          ⟨flight, List.mem_filter.2 ⟨hflight, hended⟩, ?_⟩)⟩
        rw [Flight.answers, houtcome]
        exact List.mem_map_of_mem hcall
      · have hopen : (!(flight.digest = d && flight.outcome.isSome)) = true := by
          rw [eq_false_of_ne_true hended]
          rfl
        exact .inr ⟨flight, List.mem_filter.2 ⟨hflight, hopen⟩, hcall⟩

theorem present_arrive (f : Flights β) (call : Nat) (d : String) :
    (f.arrive call d).Present call := by
  rw [arrive]
  split
  · exact .inl ⟨_, List.mem_append_right _ (List.mem_singleton_self _)⟩
  · exact .inr (.inr ⟨d, List.mem_append_right _ (List.mem_singleton_self _)⟩)

/-- A request that has come has joined a conversion once it gets to it. -/
theorem Present.join (h : f.Present call) (hhere : call ∉ f.gone) :
    (f.join call).Told call ∨ (f.join call).Waits call := by
  obtain htold | hwaits | ⟨d, hmissed⟩ := h
  · exact .inl (htold.step (fun _ _ _ => (.error goneFault, false)) (.join call))
  · have hstays : FlightEvent.join call ≠ .leave call := nofun
    exact hwaits.step (fun _ _ _ => (.error goneFault, false)) hstays
  · obtain ⟨d', hlookup⟩ := exists_lookup_of_mem hmissed
    have hleft : f.gone.contains call = false := by simpa using hhere
    simp only [Flights.join, hlookup, hleft]
    cases hflight : f.flight? d' with
    | some flight =>
        refine .inr ⟨_, List.mem_map_of_mem (List.mem_of_find?_eq_some hflight), ?_⟩
        rw [if_pos (digest_of_flight? hflight)]
        exact List.mem_append_right _ (List.mem_singleton_self _)
    | none =>
        exact .inr ⟨_, List.mem_append_right _ (List.mem_singleton_self _),
          List.mem_singleton_self _⟩

theorem Present.step (h : f.Present call) (hhere : call ∉ f.gone) {event : FlightEvent}
    (hstays : event ≠ .leave call) : (f.step convert event).Present call := by
  obtain htold | hwaits | ⟨d, hmissed⟩ := id h
  · exact .inl (htold.step convert event)
  · exact (hwaits.step convert hstays).imp_right .inl
  · cases event with
    | arrive other d' =>
        refine .inr (.inr ⟨d, ?_⟩)
        simp only [Flights.step, arrive]
        split
        · exact hmissed
        · exact List.mem_append_left _ hmissed
    | join other =>
        by_cases heq : other = call
        · subst heq
          exact (h.join hhere).imp_right .inl
        · refine .inr (.inr ⟨d, ?_⟩)
          simp only [Flights.step, Flights.join]
          have hkept : (call, d) ∈ f.missed.filter fun entry => entry.1 ≠ other :=
            List.mem_filter.2 ⟨hmissed, by simpa using Ne.symm heq⟩
          split
          · exact hmissed
          · split <;> exact hkept
    | leave | ask | fault | deliver => exact .inr (.inr ⟨d, hmissed⟩)
    | finish d' i => exact .inr (.inr ⟨d, (missed_finish f convert d' i).symm ▸ hmissed⟩)

/-- A conversion of its own is over when it ends, or has ended before. -/
theorem ended_finish (hsingle : (f.running.map (·.digest)).Nodup) {flight : Flight β}
    (hflight : flight ∈ f.running) (convert : Attempt β) (i : Interruption) :
    ∃ ended ∈ (f.finish convert flight.digest i).running, ended.digest = flight.digest ∧
      ended.waiting = flight.waiting ∧ ended.outcome.isSome = true := by
  rw [finish, flight?_of_mem hsingle hflight]
  dsimp only
  split
  · next hended => exact ⟨flight, hflight, rfl, rfl, hended⟩
  · refine ⟨flight.finish convert i f.faulted, ?_, rfl, rfl, rfl⟩
    exact List.mem_map.2 ⟨flight, hflight, if_pos rfl⟩

/-- A request that waits is told the outcome once its conversion has ended. -/
theorem Waits.finished (h : f.Waits call) (hsingle : (f.running.map (·.digest)).Nodup)
    (hdigest : ∀ flight ∈ f.running, call ∈ flight.waiting → flight.digest = digest)
    (i : Interruption) :
    ((f.finish convert digest i).deliver digest).Told call := by
  obtain ⟨flight, hflight, hcall⟩ := h
  have hown := hdigest flight hflight hcall
  subst hown
  obtain ⟨ended, hmem, hdigest, hwaiting, hended⟩ := ended_finish hsingle hflight convert i
  obtain ⟨outcome, houtcome⟩ := Option.isSome_iff_exists.1 hended
  refine ⟨outcome, List.mem_append_right _ (List.mem_flatMap.2
    ⟨ended, List.mem_filter.2 ⟨hmem, ?_⟩, ?_⟩)⟩
  · simp [hdigest, hended]
  · rw [Flight.answers, houtcome, hwaiting]
    exact List.mem_map_of_mem hcall

theorem Attended.run {events : List FlightEvent} {build : β}
    (hconverts : (convert digest .never fun _ => false).1 = .ok build)
    (harrives : ∀ d, .arrive call d ∈ events → d = digest) (hstays : .leave call ∉ events)
    (hsecure : ∀ before, before <+: events → (f.run convert before).Secure call)
    (h : Attended convert f call digest) : Attended convert (f.run convert events) call digest := by
  induction events generalizing f with
  | nil => exact h
  | cons event events ih =>
      have hstep : Attended convert (f.step convert event) call digest :=
        h.step (hsecure [] (List.nil_prefix)) hconverts
          (fun d heq => harrives d (heq ▸ List.mem_cons_self))
          (fun heq => hstays (heq ▸ List.mem_cons_self))
      exact ih (fun d hd => harrives d (List.mem_cons_of_mem _ hd))
        (fun hleave => hstays (List.mem_cons_of_mem _ hleave))
        (fun before hbefore => hsecure (event :: before) (List.cons_prefix_cons.2 ⟨rfl, hbefore⟩))
        hstep

theorem gone_step (f : Flights β) {event : FlightEvent} (hstays : event ≠ .leave call)
    (hhere : call ∉ f.gone) : call ∉ (f.step convert event).gone := by
  cases event with
  | arrive other d =>
      simp only [Flights.step, arrive]
      split <;> exact hhere
  | join other =>
      simp only [Flights.step, join]
      split
      · exact hhere
      · split <;> exact hhere
  | leave other =>
      exact fun hgone => (List.mem_cons.1 hgone).elim (fun heq => hstays (heq ▸ rfl)) hhere
  | ask | fault | deliver => exact hhere
  | finish d i => exact (gone_finish f convert d i).symm ▸ hhere

theorem Present.run {events : List FlightEvent} (hstays : .leave call ∉ events)
    (hhere : call ∉ f.gone) (h : f.Present call ∨ .arrive call digest ∈ events) :
    (f.run convert events).Present call := by
  induction events generalizing f with
  | nil => exact h.resolve_right List.not_mem_nil
  | cons event events ih =>
      have hevent : event ≠ .leave call := fun heq => hstays (heq ▸ List.mem_cons_self)
      refine ih (fun hleave => hstays (List.mem_cons_of_mem _ hleave)) (gone_step f hevent hhere) ?_
      obtain hpresent | hmem := h
      · exact .inl (hpresent.step hhere hevent)
      · obtain rfl | hlater := List.mem_cons.1 hmem
        · exact .inl (present_arrive f call digest)
        · exact .inr hlater

/-- The end of a request's wait: it joins a conversion if it has not done so yet, and the conversion
ends. -/
def closing (call : Nat) (digest : String) (i : Interruption) : List FlightEvent :=
  [.join call, .finish digest i, .deliver digest]

theorem Present.closed (h : f.Present call) (hattended : Attended convert f call digest)
    (i : Interruption) : (f.run convert (closing call digest i)).Told call := by
  obtain htold | hwaits := h.join hattended.here
  · exact (htold.step convert (.finish digest i)).step convert (.deliver digest)
  · have hjoined := hattended.join call
    exact hwaits.finished hjoined.single hjoined.waits i

theorem run_append (f : Flights β) (events more : List FlightEvent) :
    f.run convert (events ++ more) = (f.run convert events).run convert more :=
  List.foldl_append

/-- A request that stays and whose sources can be converted is answered with a build of them as soon
as its conversion ends, if no conversion that it ever waits for is abandoned or told of a fault. -/
theorem answered {capacity : Nat} {events : List FlightEvent} {i : Interruption} {build : β}
    (hcomes : .arrive call digest ∈ events) (harrives : ∀ d, .arrive call d ∈ events → d = digest)
    (hstays : .leave call ∉ events)
    (hconverts : (convert digest .never fun _ => false).1 = .ok build)
    (hsecure : ∀ before, before <+: events ++ closing call digest i →
      ((empty capacity).run convert before).Secure call) :
    ∃ b j heard, ((empty capacity).run convert (events ++ closing call digest i)).answer? call =
      some (.ok b) ∧ (convert digest j heard).1 = .ok b := by
  have hattended : Attended convert ((empty capacity).run convert events) call digest :=
    Attended.run hconverts harrives hstays
      (fun before hbefore => hsecure before (hbefore.trans (List.prefix_append _ _)))
      (attended_empty capacity)
  have hclosed : Attended convert
      ((empty capacity).run convert (events ++ closing call digest i)) call digest := by
    refine Attended.run hconverts ?_ ?_ hsecure (attended_empty capacity)
    · intro d hd
      obtain hevents | hclosing := List.mem_append.1 hd
      · exact harrives d hevents
      · simp [closing] at hclosing
    · intro hleave
      obtain hevents | hclosing := List.mem_append.1 hleave
      · exact hstays hevents
      · simp [closing] at hclosing
  have hpresent : ((empty capacity).run convert events).Present call :=
    Present.run hstays List.not_mem_nil (.inr hcomes)
  obtain ⟨outcome, htold⟩ := hpresent.closed hattended i
  rw [← run_append] at htold
  obtain ⟨answer, hanswer⟩ := exists_lookup_of_mem htold
  obtain ⟨b, j, heard, rfl, hj⟩ := hclosed.told answer (mem_of_lookup hanswer)
  exact ⟨b, j, heard, hanswer, hj⟩

/-- A request that stays and whose sources can be converted is answered with the build that they
come to, however other requests come and go, if the request that started the conversion it waits for
does not go away before the conversion ends, and the conversion is not told of a fault. -/
theorem staying_request_gets_build (c : Converter) (sources : String → List SourceFile)
    (capacity : Nat) (events : List FlightEvent) (call : Nat) (digest : String) (i : Interruption)
    (hcomes : .arrive call digest ∈ events) (harrives : ∀ d, .arrive call d ∈ events → d = digest)
    (hstays : .leave call ∉ events)
    (hconverts : ∃ b, c.plain (sources digest) digest = .ok b)
    (hsecure : ∀ before, before <+: events ++ closing call digest i →
      ((empty capacity).run (c.conversion sources) before).Secure call) :
    ∃ b, ((empty capacity).run (c.conversion sources)
      (events ++ closing call digest i)).answer? call = some (.ok b) ∧
        c.plain (sources digest) digest = .ok b ∧ b.sourceDigest = digest := by
  obtain ⟨build, hbuild⟩ := hconverts
  obtain ⟨b, j, heard, hanswer, hj⟩ := answered hcomes harrives hstays hbuild hsecure
  obtain ⟨_, _, _, _, _, hb⟩ := Converter.exists_of_convertAmid hj
  exact ⟨b, hanswer, Converter.plain_of_convertAmid hj, hb ▸ rfl⟩

section

/-- A converter that tells nobody what it does. -/
def quietConverter : Converter := .ofSettings .standard .discard

/-- The same sources, whatever the digest: a package without exports. -/
def emptyPackage (_ : String) : List SourceFile := [⟨"A.as", "package { }"⟩]

theorem emptyPackage_converts : ∃ b, quietConverter.plain (emptyPackage "d") "d" = .ok b := by
  have hok : (quietConverter.plain (emptyPackage "d") "d").isOk = true := by
    decide +kernel
  cases hplain : quietConverter.plain (emptyPackage "d") "d" with
  | ok b => exact ⟨b, rfl⟩
  | error fault =>
      rw [hplain] at hok
      cases hok

/-- Two requests share a conversion. -/
def sharedConversion : List FlightEvent := [.arrive 0 "d", .join 0, .arrive 1 "d", .join 1]

theorem staying_leader_gets_build :
    ∃ b, ((empty 1).run (quietConverter.conversion emptyPackage)
      ((sharedConversion ++ [.leave 1]) ++ closing 0 "d" .never)).answer? 0 = some (.ok b) ∧
        quietConverter.plain (emptyPackage "d") "d" = .ok b ∧ b.sourceDigest = "d" := by
  refine staying_request_gets_build quietConverter emptyPackage 1 (sharedConversion ++ [.leave 1])
    0 "d" .never List.mem_cons_self ?_ ?_ emptyPackage_converts ?_
  · intro d hd
    simpa [sharedConversion] using hd
  · simp [sharedConversion]
  · have hsecure : ∀ before ∈
        ((sharedConversion ++ [FlightEvent.leave 1]) ++ closing 0 "d" .never).inits,
        ((empty 1).run (quietConverter.conversion emptyPackage) before).Secure 0 := by
      decide
    exact fun before hbefore => hsecure before ((List.mem_inits _ _).2 hbefore)

/-- Interrupted as soon as anything was reported. -/
def onceReported : Interruption :=
  ⟨fun _ => false, fun reports => !reports.isEmpty, fun _ => false⟩

/-- A request that stays is told that its conversion was cancelled, although its sources can be
converted, when the request that started the conversion goes away. -/
theorem staying_follower_is_cancelled :
    FlightEvent.leave 1 ∉ sharedConversion ++ [.leave 0] ∧
    (∃ b, quietConverter.plain (emptyPackage "d") "d" = .ok b) ∧
    ((empty 1).run (quietConverter.conversion emptyPackage)
      ((sharedConversion ++ [.leave 0]) ++ closing 1 "d" onceReported)).answer? 1 =
        some (.error Pipeline.cancelledFault) :=
  ⟨by simp [sharedConversion], emptyPackage_converts, rfl⟩

end

end Flights

end ScriptWeave
