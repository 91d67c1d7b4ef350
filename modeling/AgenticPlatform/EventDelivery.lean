import AgenticPlatform.EventBus

/-!
# Following a run to its end

A subscriber is to receive every event of its run from the subscription on, up to the
event that names the end, and then the stream ends. The entity records the change to the
terminal status first, and that change is enough for the stream to close itself: whoever
is subscribed when the run ends never gets the final event.
-/

namespace AgenticPlatform

/-- `run_id_of`. Worker events carry none; they are not part of this event type. -/
def runIdOf (event : DomainEvent) : Option RunId := some event.body.runId

def isTerminalForRun (event : DomainEvent) : Bool := event.body.isTerminalForRun

def isFinal (event : DomainEvent) : Bool := event.body.isFinal

def endsRun (event : DomainEvent) : Bool := event.body.endsRun

theorem isTerminalForRun_eq (event : DomainEvent) :
    isTerminalForRun event = (isFinal event || endsRun event) := rfl

/-- A change of status is not the final event. -/
theorem isFinal_of_endsRun {event : DomainEvent} (h : endsRun event = true) :
    isFinal event = false := by
  obtain ⟨occurredAt, body⟩ := event
  cases body <;> first | rfl | cases h

theorem filter_of_quiet {events : List DomainEvent} (h : Quiet events) :
    events.filter isTerminalForRun = [] := by
  rw [List.filter_eq_nil_iff]
  intro event hmem
  have hterminal : isTerminalForRun event = false := h event hmem
  simp [hterminal]

/-- The events of a history that end the run: none, or the change and the final event. -/
theorem Recorded.ends {was is : Bool} {events : List DomainEvent} (h : Recorded was is events) :
    events.filter isTerminalForRun = [] ∨
    ∃ changed final, events.filter isTerminalForRun = [changed, final] ∧ endsRun changed = true ∧
      isFinal final = true := by
  rcases h with ⟨-, hquiet⟩ | ⟨before, changed, final, later, -, -, rfl, hbefore, hchanged, hfinal, hlater⟩
  · exact .inl (filter_of_quiet hquiet)
  · refine .inr ⟨changed, final, ?_, hchanged, hfinal⟩
    have hc : isTerminalForRun changed = true := by
      rw [isTerminalForRun_eq]
      exact Bool.or_eq_true_iff.mpr (.inr hchanged)
    have hf : isTerminalForRun final = true := by
      rw [isTerminalForRun_eq]
      exact Bool.or_eq_true_iff.mpr (.inl hfinal)
    simp [filter_of_quiet hbefore, filter_of_quiet hlater, hc, hf]

namespace EventStream

theorem closing_congr {E : Type} {p q : E → Bool} {events : List E}
    (h : ∀ event ∈ events, p event = q event) : closing p events = closing q events := by
  induction events with
  | nil => rfl
  | cons event rest ih =>
    have hrest := ih fun other hmem => h other (List.mem_cons_of_mem _ hmem)
    simp only [closing, h event List.mem_cons_self, hrest]

theorem closing_ne_end {E : Type} (p : E → Bool) (events : List E) : closing p events ≠ [none] := by
  cases events with
  | nil => simp [closing]
  | cons event rest =>
    simp only [closing]
    split <;> simp

theorem closing_quiet {E : Type} {p : E → Bool} {quiet : List E} (h : ∀ event ∈ quiet, ¬ p event = true)
    (rest : List E) : closing p (quiet ++ rest) = quiet.map some ++ closing p rest := by
  induction quiet with
  | nil => rfl
  | cons event others ih =>
    have hothers := ih fun other hmem => h other (List.mem_cons_of_mem _ hmem)
    have hevent := h event List.mem_cons_self
    simp [closing, hevent, hothers]

/-- The end of a stream, and every terminal event in it, comes from a terminal event. -/
theorem any_of_end {E : Type} {p : E → Bool} {events : List E} {item : Option E}
    (h : item ∈ closing p events) (hitem : ∀ event, item = some event → p event = true) :
    events.any p = true := by
  induction events with
  | nil => cases h
  | cons event rest ih =>
    cases hevent : p event with
    | true => simp [hevent]
    | false =>
      simp only [closing, hevent, Bool.false_eq_true, if_false, List.mem_cons] at h
      rcases h with rfl | hrest
      · rw [hitem event rfl] at hevent
        cases hevent
      · simp [ih hrest]

/-- Closing on either event that ends the run is closing on the final one exactly where
    the change of status was not seen. -/
theorem closing_eq_iff {was is : Bool} {history before later : List DomainEvent}
    (hrecorded : Recorded was is history) (hstart : before ++ later <+: history) :
    closing isTerminalForRun later = closing isFinal later ↔
      ∀ event ∈ later, endsRun event = false := by
  constructor
  · intro heq event hmem
    cases hends : endsRun event with
    | false => rfl
    | true =>
      exfalso
      have hterminal : isTerminalForRun event = true := by
        rw [isTerminalForRun_eq, hends, Bool.or_true]
      have hshown : event ∈ later.filter isTerminalForRun := List.mem_filter.mpr ⟨hmem, hterminal⟩
      -- the change of status is the first event of `later` that ends the run
      have hfirst : ∃ changed rest, later.filter isTerminalForRun = changed :: rest ∧
          endsRun changed = true := by
        have hfiltered := hstart.filter isTerminalForRun
        rw [List.filter_append] at hfiltered
        rcases hrecorded.ends with hnone | ⟨changed, final, htwo, hchanged, hfinal⟩
        · rw [hnone, List.prefix_nil, List.append_eq_nil_iff] at hfiltered
          rw [hfiltered.2] at hshown
          cases hshown
        · rw [htwo] at hfiltered
          cases hearlier : before.filter isTerminalForRun with
          | nil =>
            rw [hearlier, List.nil_append] at hfiltered
            cases hlater : later.filter isTerminalForRun with
            | nil =>
              rw [hlater] at hshown
              cases hshown
            | cons first rest =>
              rw [hlater, List.cons_prefix_cons] at hfiltered
              exact ⟨first, rest, rfl, by rw [hfiltered.1]; exact hchanged⟩
          | cons first more =>
            -- the change was published before, so only the final event is left
            rw [hearlier, List.cons_append, List.cons_prefix_cons] at hfiltered
            have honly : event = final :=
              List.mem_singleton.mp (hfiltered.2.subset (List.mem_append_right _ hshown))
            rw [honly] at hends
            rw [isFinal_of_endsRun hends] at hfinal
            cases hfinal
      obtain ⟨changed, rest, hlater, hchanged⟩ := hfirst
      obtain ⟨quiet, tail, rfl, hquiet, hterminalChanged, -⟩ := List.filter_eq_cons_iff.mp hlater
      have hnotFinal : ∀ event ∈ quiet, ¬ isFinal event = true := by
        intro event hmem hfinal
        apply hquiet event hmem
        rw [isTerminalForRun_eq, hfinal, Bool.true_or]
      rw [closing_quiet hquiet, closing_quiet hnotFinal] at heq
      have htail := List.append_cancel_left heq
      simp only [closing, hterminalChanged, isFinal_of_endsRun hchanged, if_true,
        Bool.false_eq_true, if_false, List.cons.injEq, true_and] at htail
      exact closing_ne_end isFinal tail htail.symm
  · intro hquiet
    apply closing_congr
    intro event hmem
    rw [isTerminalForRun_eq, hquiet event hmem, Bool.or_false]

end EventStream

namespace EventBus

/-- The bus of the platform after a run of moves. -/
abbrev following (bus : EventBus DomainEvent) (moves : List (BusMove DomainEvent)) :
    EventBus DomainEvent := bus.after runIdOf isTerminalForRun moves

/-- **Delivery to the end, exactly.** A subscriber whose backlog does not overflow is
    served every event of the run from its subscription on, up to the final one, and then
    the end of the stream, exactly if no change of the run to a terminal status is
    published after it subscribed. -/
theorem delivered_iff (backlog : Nat) (earlier moves : List (BusMove DomainEvent)) (run : Run)
    (transactions : List RunTransaction) (stream : EventStream DomainEvent)
    (hpublished : traffic runIdOf run.id earlier ++ traffic runIdOf run.id moves <+:
      RunTransaction.history run transactions)
    (hstays : ∀ move ∈ moves, move ≠ .aclose ((empty backlog).following earlier).streams.length)
    (hstream : ((empty backlog).following (earlier ++ .subscribe run.id :: moves)).streams[
      ((empty backlog).following earlier).streams.length]? = some stream)
    (hroom : stream.dropped = 0) :
    stream.seen = EventStream.closing isFinal (traffic runIdOf run.id moves) ↔
      ∀ event ∈ traffic runIdOf run.id moves, endsRun event = false := by
  have hlisted : ((empty backlog).following earlier).Listed := (listed_empty backlog).after earlier
  have hopened : (((empty backlog).following earlier).subscribe run.id).Serves isTerminalForRun
      ((empty backlog).following earlier).streams.length run.id [] :=
    ⟨⟨run.id, [], false, [], 0⟩, by simp [subscribe], rfl, EventStream.follows_opened _ _⟩
  have hserves : ((empty backlog).following (earlier ++ .subscribe run.id :: moves)).Serves
      isTerminalForRun ((empty backlog).following earlier).streams.length run.id
      ([] ++ traffic runIdOf run.id moves) := by
    unfold following after
    rw [Runs.after_append, Runs.after_cons]
    exact hopened.after (hlisted.subscribe run.id) hstays
  obtain ⟨served, hserved, -, hfollows⟩ := hserves
  rw [hstream, Option.some.injEq] at hserved
  subst hserved
  obtain ⟨is, hrecorded⟩ := RunTransaction.history_recorded run transactions
  rw [hfollows.seen hroom, List.nil_append]
  exact EventStream.closing_eq_iff hrecorded hpublished

end EventBus

/-! ### A subscriber that is there when the run ends -/

namespace Sample

/-- A run without a planning stage. -/
def followedRun : Run :=
  Run.create ⟨2⟩ ⟨1⟩ "fix the build" 0 1 {} none [] objective_given count_one count_three

def codingStarted : RunTransaction := ⟨[], [.startCoding 1], [], Run.quiet_nil, Run.quiet_nil⟩

def runFailed : RunTransaction :=
  ⟨[], [.fail 2 .infrastructure "no worker"], [], Run.quiet_nil, Run.quiet_nil⟩

/-- What the two transactions publish. -/
def codingEvents : List DomainEvent := [⟨1, .runStateChanged ⟨2⟩ .created .coding none⟩]

def failedChange : DomainEvent := ⟨2, .runStateChanged ⟨2⟩ .coding .failed none⟩

def failedFinal : DomainEvent := ⟨2, .runFailed ⟨2⟩ .infrastructure "no worker"⟩

end Sample

namespace EventBus

/-- While the run goes on, the subscriber is served what is published. -/
theorem delivered_iff_sample :
    ∃ stream, ((empty 10).following ([] ++ .subscribe Sample.followedRun.id ::
        [.publish Sample.codingEvents, .pull 0])).streams[0]? = some stream ∧
      stream.seen = [some ⟨1, .runStateChanged ⟨2⟩ .created .coding none⟩] := by
  refine ⟨_, rfl, ?_⟩
  refine (delivered_iff 10 [] [.publish Sample.codingEvents, .pull 0] Sample.followedRun
    [Sample.codingStarted, Sample.runFailed] _ ?_ ?_ rfl rfl).mpr ?_
  · decide
  · intro move hmove
    simp only [List.mem_cons, List.not_mem_nil, or_false] at hmove
    rcases hmove with rfl | rfl
    · simp
    · simp
  · decide

/-- The run fails while the subscriber listens: it is served the change of status and
    the end of the stream, and never the final event, which was published. -/
theorem final_event_lost :
    traffic runIdOf ⟨2⟩ [.publish (Sample.codingEvents ++ [Sample.failedChange, Sample.failedFinal])] =
      RunTransaction.history Sample.followedRun [Sample.codingStarted, Sample.runFailed] ∧
    ∃ stream, ((empty 10).following (.subscribe ⟨2⟩ ::
        [.publish (Sample.codingEvents ++ [Sample.failedChange, Sample.failedFinal])])).streams[0]? =
        some stream ∧
      stream.dropped = 0 ∧ some Sample.failedFinal ∉ stream.seen ∧ none ∈ stream.seen := by
  refine ⟨by decide, _, rfl, rfl, by decide, by decide⟩

end EventBus

end AgenticPlatform
