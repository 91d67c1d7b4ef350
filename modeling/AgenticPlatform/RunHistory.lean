import AgenticPlatform.Run

/-!
# What a run records

The events that the methods of a run leave behind. A run ends once, and the operation that
ends it records the change of status first and the event that names the end right after it. A transaction drains the run's buffer together with the events
of the other aggregates it collected; those say nothing about how the run ends.
-/

namespace AgenticPlatform

namespace EventBody

/-- The run an event belongs to. -/
def runId : EventBody → RunId
  | .jobEnqueued _ runId _ _ => runId
  | .jobLeased _ runId _ _ => runId
  | .jobCompleted _ runId _ _ => runId
  | .jobFailed _ runId _ _ _ _ => runId
  | .jobLeaseExpired _ runId _ => runId
  | .jobRequeued _ runId _ _ => runId
  | .runCreated runId _ _ _ => runId
  | .runStateChanged runId _ _ _ => runId
  | .planRequested runId _ => runId
  | .planCompleted runId _ _ _ => runId
  | .candidateStarted runId _ _ _ => runId
  | .candidateCompleted runId _ _ _ => runId
  | .validationStarted runId _ => runId
  | .validationCompleted runId _ _ _ => runId
  | .reviewRequested runId _ _ => runId
  | .repairRequested runId _ _ _ => runId
  | .candidateSelected runId _ _ => runId
  | .runCompleted runId _ => runId
  | .runFailed runId _ _ => runId
  | .runCancelled runId _ => runId

/-- The event names how the run ended: `_RUN_TERMINAL_NAMES`, `TERMINAL_EVENT_NAMES`. -/
def isFinal : EventBody → Bool
  | .runCompleted _ _ | .runFailed _ _ _ | .runCancelled _ _ => true
  | _ => false

/-- The event is the change of status that ends the run. -/
def endsRun : EventBody → Bool
  | .runStateChanged _ _ current _ => current.isTerminal
  | _ => false

/-- `is_terminal_for_run`. -/
def isTerminalForRun (body : EventBody) : Bool := body.isFinal || body.endsRun

end EventBody

/-! ### How a run ends -/

/-- None of the events says that the run ends. -/
def Quiet (events : List DomainEvent) : Prop :=
  ∀ event ∈ events, event.body.isTerminalForRun = false

theorem Quiet.append {first second : List DomainEvent} (h : Quiet first) (h' : Quiet second) :
    Quiet (first ++ second) := by
  intro event hmem
  rcases List.mem_append.mp hmem with hfirst | hsecond
  · exact h event hfirst
  · exact h' event hsecond

/-- What is recorded while a run goes from ended or not to ended or not: nothing that
    ends it, or the change of status with the final event right behind it. -/
inductive Recorded (was is : Bool) (events : List DomainEvent) : Prop
  | quiet : is = was → Quiet events → Recorded was is events
  | ended (before : List DomainEvent) (changed final : DomainEvent) (later : List DomainEvent) :
      was = false → is = true → events = before ++ changed :: final :: later → Quiet before →
      changed.body.endsRun = true → final.body.isFinal = true → Quiet later →
      Recorded was is events

namespace Recorded

variable {was mid is : Bool} {events first second : List DomainEvent}

theorem nil (was : Bool) : Recorded was was [] := .quiet rfl (fun _ h => nomatch h)

theorem append (h : Recorded was mid first) (h' : Recorded mid is second) :
    Recorded was is (first ++ second) := by
  rcases h with ⟨hsame, hquiet⟩ | ⟨before, changed, final, later, hwas, hmid, rfl, hbefore, hchanged, hfinal, hlater⟩
  · rcases h' with ⟨hsame', hquiet'⟩ | ⟨before, changed, final, later, hmid', his, rfl, hbefore, hchanged, hfinal, hlater⟩
    · exact .quiet (hsame'.trans hsame) (hquiet.append hquiet')
    · refine .ended (first ++ before) changed final later (hsame ▸ hmid') his ?_
        (hquiet.append hbefore) hchanged hfinal hlater
      rw [List.append_assoc]
  · rcases h' with ⟨hsame', hquiet'⟩ | ⟨-, -, -, -, hmid', -⟩
    · refine .ended before changed final (later ++ second) hwas (hsame'.trans hmid) ?_ hbefore
        hchanged hfinal (hlater.append hquiet')
      rw [List.append_assoc]
      rfl
    · rw [hmid] at hmid'
      cases hmid'

/-- Events that say nothing about the end may stand on both sides. -/
theorem surrounded (h : Recorded was is events) (hfirst : Quiet first) (hsecond : Quiet second) :
    Recorded was is (first ++ events ++ second) :=
  ((Recorded.quiet rfl hfirst).append h).append (.quiet rfl hsecond)

end Recorded

namespace Run

/-- `run'` is `run` after some recording. -/
def RecordsTo (run run' : Run) : Prop :=
  run'.id = run.id ∧ ∃ recorded, run'.events = run.events ++ recorded ∧
    (∀ event ∈ recorded, event.body.runId = run.id) ∧
    Recorded run.status.isTerminal run'.status.isTerminal recorded

variable {run run' : Run} {target : RunStatus} {now : Instant} {reason : Option String}

theorem RecordsTo.refl (run : Run) : run.RecordsTo run :=
  ⟨rfl, [], (List.append_nil _).symm, (fun _ h => nomatch h), .nil _⟩

theorem RecordsTo.trans {run'' : Run} (h : run.RecordsTo run') (h' : run'.RecordsTo run'') :
    run.RecordsTo run'' := by
  obtain ⟨hid, recorded, hevents, hown, hrecorded⟩ := h
  obtain ⟨hid', recorded', hevents', hown', hrecorded'⟩ := h'
  refine ⟨hid'.trans hid, recorded ++ recorded', ?_, ?_, hrecorded.append hrecorded'⟩
  · rw [hevents', hevents, List.append_assoc]
  · intro event hmem
    rcases List.mem_append.mp hmem with hfirst | hsecond
    · exact hown event hfirst
    · exact (hown' event hsecond).trans hid

/-- A change to a status that is not terminal, with what is recorded along with it. -/
theorem recorded_change {id : RunId} {previous : RunStatus} {more : List DomainEvent}
    (htarget : target.isTerminal = false) (hmore : Quiet more) :
    Recorded false target.isTerminal (⟨now, .runStateChanged id previous target reason⟩ :: more) := by
  refine .quiet htarget fun event hmem => ?_
  rcases List.mem_cons.mp hmem with rfl | hmem
  · simp [EventBody.isTerminalForRun, EventBody.isFinal, EventBody.endsRun, htarget]
  · exact hmore event hmem

/-- A change to a terminal status, with the event that names the end. -/
theorem recorded_end {id : RunId} {previous : RunStatus} {body : EventBody}
    (htarget : target.isTerminal = true) (hfinal : body.isFinal = true) :
    Recorded false target.isTerminal
      [⟨now, .runStateChanged id previous target reason⟩, ⟨now, body⟩] :=
  .ended [] _ _ [] rfl htarget rfl (fun _ h => nomatch h) htarget hfinal (fun _ h => nomatch h)

theorem quiet_nil : Quiet [] := fun _ h => nomatch h

theorem quiet_one {body : EventBody} (h : body.isTerminalForRun = false) : Quiet [⟨now, body⟩] := by
  intro event hmem
  rw [List.mem_singleton.mp hmem]
  exact h

theorem own_nil {id : RunId} : ∀ event ∈ ([] : List DomainEvent), event.body.runId = id :=
  fun _ h => nomatch h

theorem own_one {id : RunId} {body : EventBody} (h : body.runId = id) :
    ∀ event ∈ [(⟨now, body⟩ : DomainEvent)], event.body.runId = id := by
  intro event hmem
  rw [List.mem_singleton.mp hmem]
  exact h

/-- A method built on a transition records the change and what `rest` adds to it. -/
theorem recordsTo_transitioning {α : Type} {rest : Run → Run × α}
    (hrest : ∀ moved : Run, (rest moved).1.id = moved.id ∧ (rest moved).1.status = moved.status ∧
      ∃ more, (rest moved).1.events = moved.events ++ more ∧
        (∀ event ∈ more, event.body.runId = moved.id) ∧ ∀ previous,
        Recorded false target.isTerminal (⟨now, .runStateChanged run.id previous target reason⟩ :: more)) :
    run.RecordsTo (run.transitioning target now reason rest).self := by
  cases hcan : RunStateMachine.can run.status target with
  | false =>
    rw [transitioning_of_cannot hcan]
    exact .refl run
  | true =>
    have hlive : run.status.isTerminal = false := by
      cases hterminal : run.status.isTerminal with
      | false => rfl
      | true =>
        rw [RunStateMachine.can_of_terminal hterminal] at hcan
        cases hcan
    obtain ⟨hid, hstatus, more, hevents, hown, hrecorded⟩ := hrest (run.moved target now reason)
    rw [transitioning_of_can hcan]
    refine ⟨hid, ⟨now, .runStateChanged run.id run.status target reason⟩ :: more, ?_, ?_, ?_⟩
    · show (rest (run.moved target now reason)).1.events = _
      rw [hevents]
      simp [moved, record]
    · intro event hmem
      rcases List.mem_cons.mp hmem with rfl | hmem
      · rfl
      · exact hown event hmem
    · show Recorded _ (rest (run.moved target now reason)).1.status.isTerminal _
      rw [hstatus, hlive]
      exact hrecorded run.status

/-- **What an operation records.** -/
theorem recordsTo_step (run : Run) (operation : RunOp) : run.RecordsTo (run.step operation) := by
  cases operation with
  | startPlanning now =>
    exact recordsTo_transitioning fun moved =>
      ⟨rfl, rfl, _, rfl, own_one rfl, fun _ => recorded_change rfl (quiet_one rfl)⟩
  | planReady planId taskCount now =>
    exact recordsTo_transitioning fun moved =>
      ⟨rfl, rfl, _, rfl, own_one rfl, fun _ => recorded_change rfl (quiet_one rfl)⟩
  | startCoding now =>
    exact recordsTo_transitioning fun moved =>
      ⟨rfl, rfl, [], (List.append_nil _).symm, own_nil, fun _ => recorded_change rfl quiet_nil⟩
  | startValidating now =>
    exact recordsTo_transitioning fun moved =>
      ⟨rfl, rfl, [], (List.append_nil _).symm, own_nil, fun _ => recorded_change rfl quiet_nil⟩
  | startReviewing candidateId now =>
    exact recordsTo_transitioning fun moved =>
      ⟨rfl, rfl, _, rfl, own_one rfl, fun _ => recorded_change rfl (quiet_one rfl)⟩
  | requestRepair candidateId reason now =>
    show run.RecordsTo (run.requestRepair candidateId reason now).self
    unfold requestRepair
    split
    · exact recordsTo_transitioning fun moved =>
        ⟨rfl, rfl, _, rfl, own_one rfl, fun _ => recorded_change rfl (quiet_one rfl)⟩
    · exact .refl run
  | requestPlanRevision now =>
    show run.RecordsTo (run.requestPlanRevision now).self
    unfold requestPlanRevision
    split
    · exact recordsTo_transitioning fun moved =>
        ⟨rfl, rfl, _, rfl, own_one rfl, fun _ => recorded_change rfl (quiet_one rfl)⟩
    · exact .refl run
  | selectCandidate candidateId rationale now =>
    exact ⟨rfl, _, rfl, own_one rfl, .quiet rfl (quiet_one rfl)⟩
  | complete now candidateId =>
    exact recordsTo_transitioning fun moved =>
      ⟨rfl, rfl, _, rfl, own_one rfl, fun _ => recorded_end rfl rfl⟩
  | fail now kind reason =>
    show run.RecordsTo (run.fail now kind reason).self
    unfold fail
    split
    · exact .refl run
    · exact recordsTo_transitioning fun moved =>
        ⟨rfl, rfl, _, rfl, own_one rfl, fun _ => recorded_end rfl rfl⟩
  | requestCancellation now reason =>
    show run.RecordsTo (run.requestCancellation now reason).self
    unfold requestCancellation
    split
    · exact .refl run
    · exact recordsTo_transitioning fun moved =>
        ⟨rfl, rfl, [], (List.append_nil _).symm, own_nil, fun _ => recorded_change rfl quiet_nil⟩
  | confirmCancelled now reason =>
    show run.RecordsTo (run.confirmCancelled now reason).self
    unfold confirmCancelled
    split
    · exact .refl run
    · exact recordsTo_transitioning fun moved =>
        ⟨rfl, rfl, _, rfl, own_one rfl, fun _ => recorded_end rfl rfl⟩
  | addTokenUsage usage now => exact ⟨rfl, [], (List.append_nil _).symm, own_nil, .nil _⟩

theorem recordsTo_operations (operations : List RunOp) (run : Run) :
    run.RecordsTo (operations.foldl Run.step run) := by
  induction operations generalizing run with
  | nil => exact .refl run
  | cons operation rest ih => exact (recordsTo_step run operation).trans (ih _)

end Run

/-! ### Transactions -/

/-- What a transaction does to a run, with the events of the other aggregates that it
    collected before and after the run. -/
structure RunTransaction where
  first : List DomainEvent
  operations : List RunOp
  last : List DomainEvent
  first_quiet : Quiet first
  last_quiet : Quiet last

namespace RunTransaction

/-- The run as the transaction leaves it in memory; it was loaded with an empty buffer. -/
def work (transaction : RunTransaction) (run : Run) : Run :=
  transaction.operations.foldl Run.step { run with events := [] }

/-- The row after the commit, which drained the buffer. -/
def commit (transaction : RunTransaction) (run : Run) : Run :=
  { transaction.work run with events := [] }

/-- The events the commit drained, in the order of collection. -/
def batch (transaction : RunTransaction) (run : Run) : List DomainEvent :=
  transaction.first ++ (transaction.work run).events ++ transaction.last

theorem work_recorded (transaction : RunTransaction) (run : Run) :
    (transaction.commit run).id = run.id ∧
    (∀ event ∈ (transaction.work run).events, event.body.runId = run.id) ∧
    Recorded run.status.isTerminal (transaction.commit run).status.isTerminal
      (transaction.work run).events := by
  obtain ⟨hid, recorded, hevents, hown, hrecorded⟩ :=
    Run.recordsTo_operations transaction.operations { run with events := [] }
  have hwork : (transaction.work run).events = recorded := hevents
  rw [hwork]
  exact ⟨hid, hown, hrecorded⟩

theorem batch_recorded (transaction : RunTransaction) (run : Run) :
    Recorded run.status.isTerminal (transaction.commit run).status.isTerminal
      (transaction.batch run) :=
  (transaction.work_recorded run).2.2.surrounded transaction.first_quiet transaction.last_quiet

/-- What the event store files under the run. -/
theorem filed_recorded (transaction : RunTransaction) (run : Run) :
    Recorded run.status.isTerminal (transaction.commit run).status.isTerminal
      ((transaction.batch run).filter fun event => decide (event.body.runId = run.id)) := by
  obtain ⟨-, hown, hrecorded⟩ := transaction.work_recorded run
  have hall : (transaction.work run).events.filter (fun event => decide (event.body.runId = run.id)) =
      (transaction.work run).events := by
    rw [List.filter_eq_self]
    intro event hmem
    exact decide_eq_true (hown event hmem)
  unfold batch
  rw [List.filter_append, List.filter_append, hall]
  apply hrecorded.surrounded
  · exact fun event hmem => transaction.first_quiet event (List.mem_filter.mp hmem).1
  · exact fun event hmem => transaction.last_quiet event (List.mem_filter.mp hmem).1

/-- The events of one transaction after the other. -/
def history (run : Run) : List RunTransaction → List DomainEvent
  | [] => []
  | transaction :: rest => transaction.batch run ++ history (transaction.commit run) rest

/-- **A run ends once**, and its end is recorded as a change of status with the final
    event right behind it. -/
theorem history_recorded (run : Run) (transactions : List RunTransaction) :
    ∃ is, Recorded run.status.isTerminal is (history run transactions) := by
  induction transactions generalizing run with
  | nil => exact ⟨_, .nil _⟩
  | cons transaction rest ih =>
    obtain ⟨is, hrest⟩ := ih (transaction.commit run)
    exact ⟨is, (transaction.batch_recorded run).append hrest⟩

end RunTransaction

end AgenticPlatform
