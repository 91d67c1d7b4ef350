import AgenticPlatform.Run
import AgenticPlatform.Runs
import AgenticPlatform.Timestamps

/-!
# The discipline of the run entity

What holds of a run whatever is called on it, and whatever of that raises: the recorded
changes of status are a path through the transition table, the repair budget is kept, and
the time of completion is there exactly once the run is over. Every method is a turn of
one of two kinds; the invariant is derived from the kinds, not from the methods. A time
without a zone breaks it: the status is assigned before the event refuses the time.
-/

namespace AgenticPlatform

/-! ### Recorded changes of status -/

/-- A path through the table as it was recorded, one change after the other. -/
inductive RunStateMachine.Trail : List (RunStatus × RunStatus) → RunStatus → Prop where
  | start : Trail [] .created
  | step {changes : List (RunStatus × RunStatus)} {s t : RunStatus} :
      Trail changes s → can s t = true → Trail (changes ++ [(s, t)]) t

/-- Before any change the status is the first one. -/
theorem RunStateMachine.Trail.eq_created {changes : List (RunStatus × RunStatus)} {s : RunStatus}
    (h : RunStateMachine.Trail changes s) (hnone : changes = []) : s = .created := by
  cases h with
  | start => rfl
  | step _ _ => simp at hnone

/-- The changes of status among recorded events. -/
def stateChanges (events : List DomainEvent) : List (RunStatus × RunStatus) :=
  events.filterMap fun event =>
    match event.body with
    | .runStateChanged _ previous current _ => some (previous, current)
    | _ => none

@[simp] theorem stateChanges_append (events later : List DomainEvent) :
    stateChanges (events ++ later) = stateChanges events ++ stateChanges later :=
  List.filterMap_append

/-! ### What a call does -/

namespace Run

/-- What a call does to a run: it leaves what the discipline speaks of alone, or changes
    the status along the table and records that. -/
inductive Turn (run run' : Run) : Prop where
  | same : run'.status = run.status → run'.completedAt = run.completedAt →
      run'.repairIterations = run.repairIterations → run'.limits = run.limits →
      stateChanges run'.events = stateChanges run.events → Turn run run'
  | moved {target : RunStatus} : RunStateMachine.can run.status target = true →
      run'.status = target → run'.limits = run.limits →
      stateChanges run'.events = stateChanges run.events ++ [(run.status, target)] →
      (target.isTerminal = true → run'.completedAt ≠ none) →
      (target.isTerminal = false → run'.completedAt = run.completedAt) →
      (run'.repairIterations = run.repairIterations ∨
        run.canRepair = true ∧ run'.repairIterations = run.repairIterations + 1) → Turn run run'

variable {run : Run} {target : RunStatus} {now : Instant} {reason : Option String}

theorem Turn.refl (run : Run) : Turn run run := .same rfl rfl rfl rfl rfl

@[simp] theorem stateChanges_moved (run : Run) (target : RunStatus) (now : Instant)
    (reason : Option String) : stateChanges (run.moved target now reason).events =
      stateChanges run.events ++ [(run.status, target)] := by
  simp [moved, record, stateChanges]

/-- A method that starts with a transition is a turn, if the rest of it does not change
    the status once more and completes the run exactly when it is over. -/
theorem transitioning_turn {α : Type} {rest : Run → Run × α}
    (hrest : ∀ run, (rest run).1.status = run.status ∧ (rest run).1.limits = run.limits ∧
      stateChanges (rest run).1.events = stateChanges run.events)
    (hover : target.isTerminal = true → ∀ run, (rest run).1.completedAt ≠ none)
    (hlive : target.isTerminal = false → ∀ run, (rest run).1.completedAt = run.completedAt)
    (hrepairs : (∀ run, (rest run).1.repairIterations = run.repairIterations) ∨
      run.canRepair = true ∧ ∀ run, (rest run).1.repairIterations = run.repairIterations + 1) :
    Turn run (run.transitioning target now reason rest).self := by
  cases hcan : RunStateMachine.can run.status target with
  | false =>
    rw [transitioning_of_cannot hcan]
    exact .refl run
  | true =>
    rw [transitioning_of_can hcan]
    obtain ⟨hstatus, hlimits, hchanges⟩ := hrest (run.moved target now reason)
    refine .moved hcan hstatus hlimits ?_ (fun h => hover h _) (fun h => hlive h _) ?_
    · rw [Call.self_returned, hchanges, stateChanges_moved]
    · rcases hrepairs with hsame | ⟨hbudget, hmore⟩
      · exact .inl (hsame _)
      · exact .inr ⟨hbudget, hmore _⟩

/-- **Every call is a turn.** -/
theorem step_turn (run : Run) (op : RunOp) : Turn run (run.step op) := by
  have hrecord : ∀ (run : Run) (now : Instant) (body : EventBody),
      (∀ id previous current reason, body ≠ .runStateChanged id previous current reason) →
      stateChanges (run.record now body).events = stateChanges run.events := by
    intro run now body hbody
    have hnone : stateChanges [⟨now, body⟩] = [] := by
      cases body <;> first | rfl | exact absurd rfl (hbody _ _ _ _)
    rw [record, stateChanges_append, hnone, List.append_nil]
  unfold step
  cases op with
  | startPlanning now =>
    exact transitioning_turn (fun run => ⟨rfl, rfl, hrecord _ _ _ (by simp)⟩) (by simp [RunStatus.isTerminal])
      (fun _ _ => rfl) (.inl fun _ => rfl)
  | planReady planId taskCount now =>
    exact transitioning_turn (fun run => ⟨rfl, rfl, hrecord _ _ _ (by simp)⟩) (by simp [RunStatus.isTerminal])
      (fun _ _ => rfl) (.inl fun _ => rfl)
  | startCoding now =>
    exact transitioning_turn (fun run => ⟨rfl, rfl, rfl⟩) (by simp [RunStatus.isTerminal])
      (fun _ _ => rfl) (.inl fun _ => rfl)
  | startValidating now =>
    exact transitioning_turn (fun run => ⟨rfl, rfl, rfl⟩) (by simp [RunStatus.isTerminal])
      (fun _ _ => rfl) (.inl fun _ => rfl)
  | startReviewing candidateId now =>
    exact transitioning_turn (fun run => ⟨rfl, rfl, hrecord _ _ _ (by simp)⟩) (by simp [RunStatus.isTerminal])
      (fun _ _ => rfl) (.inl fun _ => rfl)
  | requestRepair candidateId reason now =>
    simp only [perform, Call.self_void, requestRepair]
    split
    · rename_i hbudget
      exact transitioning_turn (fun run => ⟨rfl, rfl, hrecord _ _ _ (by simp)⟩) (by simp [RunStatus.isTerminal])
        (fun _ _ => rfl) (.inr ⟨hbudget, fun _ => rfl⟩)
    · exact .refl run
  | requestPlanRevision now =>
    simp only [perform, Call.self_void, requestPlanRevision]
    split
    · exact transitioning_turn (fun run => ⟨rfl, rfl, hrecord _ _ _ (by simp)⟩) (by simp [RunStatus.isTerminal])
        (fun _ _ => rfl) (.inl fun _ => rfl)
    · exact .refl run
  | selectCandidate candidateId rationale now =>
    exact .same rfl rfl rfl rfl (hrecord _ _ _ (by simp))
  | complete now candidateId =>
    exact transitioning_turn (fun run => ⟨rfl, rfl, hrecord _ _ _ (by simp)⟩) (fun _ _ => by simp [record])
      (by simp [RunStatus.isTerminal]) (.inl fun _ => rfl)
  | fail now kind reason =>
    simp only [perform, fail]
    split
    · exact .refl run
    · exact transitioning_turn (fun run => ⟨rfl, rfl, hrecord _ _ _ (by simp)⟩) (fun _ _ => by simp [record])
        (by simp [RunStatus.isTerminal]) (.inl fun _ => rfl)
  | requestCancellation now reason =>
    simp only [perform, Call.self_void, requestCancellation]
    split
    · exact .refl run
    · exact transitioning_turn (fun run => ⟨rfl, rfl, rfl⟩) (by simp [RunStatus.isTerminal])
        (fun _ _ => rfl) (.inl fun _ => rfl)
  | confirmCancelled now reason =>
    simp only [perform, confirmCancelled]
    split
    · exact .refl run
    · exact transitioning_turn (fun run => ⟨rfl, rfl, hrecord _ _ _ (by simp)⟩) (fun _ _ => by simp [record])
        (by simp [RunStatus.isTerminal]) (.inl fun _ => rfl)
  | addTokenUsage usage now => exact .same rfl rfl rfl rfl rfl

theorem transitioning_charter {α : Type} {rest : Run → Run × α}
    (hrest : ∀ run, (rest run).1.charter = run.charter) :
    (run.transitioning target now reason rest).self.charter = run.charter := by
  cases hcan : RunStateMachine.can run.status target with
  | false => rw [transitioning_of_cannot hcan, Call.self_raised]
  | true =>
    rw [transitioning_of_can hcan, Call.self_returned, hrest]
    rfl

/-- No call changes what is fixed when the run is created. -/
theorem step_charter (run : Run) (op : RunOp) : (run.step op).charter = run.charter := by
  unfold step
  cases op with
  | startPlanning now => exact transitioning_charter fun _ => rfl
  | planReady planId taskCount now => exact transitioning_charter fun _ => rfl
  | startCoding now => exact transitioning_charter fun _ => rfl
  | startValidating now => exact transitioning_charter fun _ => rfl
  | startReviewing candidateId now => exact transitioning_charter fun _ => rfl
  | requestRepair candidateId reason now =>
    simp only [perform, Call.self_void, requestRepair]
    split
    · exact transitioning_charter fun _ => rfl
    · rfl
  | requestPlanRevision now =>
    simp only [perform, Call.self_void, requestPlanRevision]
    split
    · exact transitioning_charter fun _ => rfl
    · rfl
  | selectCandidate candidateId rationale now => rfl
  | complete now candidateId => exact transitioning_charter fun _ => rfl
  | fail now kind reason =>
    simp only [perform, fail]
    split
    · rfl
    · exact transitioning_charter fun _ => rfl
  | requestCancellation now reason =>
    simp only [perform, Call.self_void, requestCancellation]
    split
    · rfl
    · exact transitioning_charter fun _ => rfl
  | confirmCancelled now reason =>
    simp only [perform, confirmCancelled]
    split
    · rfl
    · exact transitioning_charter fun _ => rfl
  | addTokenUsage usage now => rfl

/-- A method that starts with a transition raises before it has written anything. -/
theorem transitioning_raised {α : Type} {rest : Run → Run × α} {e : PyError}
    (h : (run.transitioning target now reason rest).result = .error e) :
    (run.transitioning target now reason rest).self = run := by
  cases hcan : RunStateMachine.can run.status target with
  | false =>
    rw [transitioning_of_cannot hcan]
    rfl
  | true =>
    rw [transitioning_of_can hcan] at h
    cases h

/-- **A call that raises leaves the run as it was**, its event buffer included. -/
theorem perform_raised {op : RunOp} {e : PyError} (h : (run.perform op).result = .error e) :
    (run.perform op).self = run := by
  cases op with
  | startPlanning now => exact transitioning_raised h
  | planReady planId taskCount now => exact transitioning_raised h
  | startCoding now => exact transitioning_raised h
  | startValidating now => exact transitioning_raised h
  | startReviewing candidateId now => exact transitioning_raised h
  | requestRepair candidateId reason now =>
    replace h := Call.error_of_void h
    unfold requestRepair at h
    simp only [perform, Call.self_void, requestRepair]
    split
    · rename_i hbudget
      rw [if_pos hbudget] at h
      exact transitioning_raised h
    · rfl
  | requestPlanRevision now =>
    replace h := Call.error_of_void h
    unfold requestPlanRevision at h
    simp only [perform, Call.self_void, requestPlanRevision]
    split
    · rename_i hbudget
      rw [if_pos hbudget] at h
      exact transitioning_raised h
    · rfl
  | selectCandidate candidateId rationale now => cases h
  | complete now candidateId => exact transitioning_raised h
  | fail now kind reason =>
    simp only [perform, fail] at h ⊢
    split
    · rfl
    · rename_i hlive
      rw [if_neg hlive] at h
      exact transitioning_raised h
  | requestCancellation now reason =>
    replace h := Call.error_of_void h
    unfold requestCancellation at h
    simp only [perform, Call.self_void, requestCancellation]
    split
    · rfl
    · rename_i hlive
      rw [if_neg hlive] at h
      exact transitioning_raised h
  | confirmCancelled now reason =>
    simp only [perform, confirmCancelled] at h ⊢
    split
    · rfl
    · rename_i hlive
      rw [if_neg hlive] at h
      exact transitioning_raised h
  | addTokenUsage usage now => cases h

/-! ### Sequences of calls -/

/-- What holds of a run between two calls. -/
structure Disciplined (run : Run) : Prop where
  trail : RunStateMachine.Trail (stateChanges run.events) run.status
  budget : run.repairIterations ≤ run.limits.maxRepairIterations
  completed : run.completedAt ≠ none ↔ run.status.isTerminal = true

theorem create_disciplined (runId : RunId) (projectId : ProjectId) (objective : String)
    (now : Instant) (candidateCount : Nat) (limits : RunLimits) (idempotencyKey : Option String)
    (metadata : Mapping) (hobjective : isBlank objective = false) (hpos : 1 ≤ candidateCount)
    (hle : candidateCount ≤ limits.maxParallelCandidates) :
    (create runId projectId objective now candidateCount limits idempotencyKey metadata hobjective
      hpos hle).Disciplined where
  trail := .start
  budget := Nat.zero_le _
  completed := by simp [create, record, RunStatus.isTerminal]

theorem Turn.disciplined {run' : Run} (h : Turn run run') (hrun : run.Disciplined) :
    run'.Disciplined := by
  cases h with
  | same hstatus hcompleted hrepairs hlimits hchanges =>
    constructor
    · rw [hchanges, hstatus]
      exact hrun.trail
    · rw [hrepairs, hlimits]
      exact hrun.budget
    · rw [hcompleted, hstatus]
      exact hrun.completed
  | @moved target hcan hstatus hlimits hchanges hover hlive hrepairs =>
    refine ⟨?_, ?_, ?_⟩
    · rw [hchanges, hstatus]
      exact hrun.trail.step hcan
    · rw [hlimits]
      have hbudget := hrun.budget
      rcases hrepairs with hsame | ⟨hleft, hmore⟩
      · omega
      · unfold canRepair at hleft
        have := of_decide_eq_true hleft
        omega
    · rw [hstatus]
      cases hterminal : target.isTerminal with
      | true => exact ⟨fun _ => rfl, fun _ => hover hterminal⟩
      | false =>
        -- the table has a way out of the old status, so the run was live before as well
        have hopen : run.status.isTerminal = false := by
          cases hclosed : run.status.isTerminal with
          | false => rfl
          | true =>
            rw [RunStateMachine.can_of_terminal hclosed] at hcan
            cases hcan
        rw [hlive hterminal, hrun.completed, hopen]

/-- Once a run is over, no call changes its status. -/
theorem Turn.terminal {run' : Run} (h : Turn run run') (hover : run.status.isTerminal = true) :
    run'.status = run.status := by
  cases h with
  | same hstatus => exact hstatus
  | moved hcan =>
    rw [RunStateMachine.can_of_terminal hover] at hcan
    cases hcan

/-! ### Times without a zone -/

/-- The status a method asks for, unless it returns before it asks. -/
def targetOf (run : Run) : RunOp → Option RunStatus
  | .startPlanning _ => some .planning
  | .planReady _ _ _ => some .planReady
  | .startCoding _ => some .coding
  | .startValidating _ => some .validating
  | .startReviewing _ _ => some .reviewing
  | .requestRepair _ _ _ => if run.canRepair then some .repairing else none
  | .requestPlanRevision _ => if run.canRevisePlan then some .planning else none
  | .selectCandidate _ _ _ => none
  | .complete _ _ => some .completed
  | .fail _ _ _ => if run.status.isTerminal then none else some .failed
  | .requestCancellation _ _ =>
      if run.status.isTerminal ∨ run.status = .cancelling then none else some .cancelling
  | .confirmCancelled _ _ => if run.status = .cancelled then none else some .cancelled
  | .addTokenUsage _ _ => none

/-- `_transition` at a time without a zone: the status and `updated_at` are assigned, and the
    event is refused. -/
def halfMoved (run : Run) (target : RunStatus) (now : Instant) : Call Run Unit :=
  match RunStateMachine.ensure run.status target with
  | .error e => .raised run e
  | .ok () => .raised { run with status := target, updatedAt := now } zonelessEvent

/-- The method at a time without a zone, which reads `now` on the clock. -/
def performZoneless (run : Run) (op : RunOp) (now : Instant) : Call Run Unit :=
  match op with
  | .selectCandidate candidateId _ _ =>
      .raised { run with selectedCandidateId := some candidateId, updatedAt := now } zonelessEvent
  | .addTokenUsage usage _ => .returned (run.addTokenUsage usage now) ()
  | op =>
      match run.targetOf op with
      | none => .returned run ()
      | some target => run.halfMoved target now

end Run

/-- A call, whether the time it is given has a zone, and the clock it reads if not. -/
structure RunCall where
  op : RunOp
  aware : Bool
  clock : Instant

namespace Run

variable {run : Run} {target : RunStatus} {now : Instant}

def performAt (run : Run) (call : RunCall) : Call Run Unit :=
  if call.aware then run.perform call.op else run.performZoneless call.op call.clock

/-- The run after one call, whether it returned or raised. -/
def stepAt (run : Run) (call : RunCall) : Run := (run.performAt call).self

/-- The call chooses a candidate. -/
def Selects : RunOp → Prop
  | .selectCandidate _ _ _ => True
  | _ => False

/-- At a time without a zone the call writes nothing that an event would have to follow: it
    chooses no candidate, and returns early or asks for what the table forbids. -/
def Heeds (run : Run) (call : RunCall) : Prop :=
  call.aware = false → ¬ Selects call.op ∧
    ∀ target ∈ run.targetOf call.op, RunStateMachine.can run.status target = false

theorem halfMoved_of_cannot (h : RunStateMachine.can run.status target = false) :
    (run.halfMoved target now).self = run := by
  simp [halfMoved, RunStateMachine.ensure, h]

/-- A call that heeds the zone is one at an instant, or leaves the run as it is, or counts
    tokens. -/
theorem performAt_of_heeds {call : RunCall} (h : run.Heeds call) :
    run.performAt call = run.perform call.op ∨ (run.performAt call).self = run ∨
      ∃ usage, run.performAt call = .returned (run.addTokenUsage usage call.clock) () := by
  obtain ⟨op, aware, clock⟩ := call
  cases aware with
  | true => exact .inl rfl
  | false =>
    obtain ⟨hselects, hcannot⟩ := h rfl
    refine .inr ?_
    have hquiet : ∀ found : Option RunStatus,
        (∀ target ∈ found, RunStateMachine.can run.status target = false) →
        (match found with
          | none => Call.returned run ()
          | some target => run.halfMoved target clock).self = run := by
      intro found hfound
      cases found with
      | none => rfl
      | some target => exact halfMoved_of_cannot (hfound target rfl)
    cases op with
    | selectCandidate candidateId rationale now => exact absurd trivial hselects
    | addTokenUsage usage now => exact .inr ⟨usage, rfl⟩
    | startPlanning now => exact .inl (hquiet _ hcannot)
    | planReady planId taskCount now => exact .inl (hquiet _ hcannot)
    | startCoding now => exact .inl (hquiet _ hcannot)
    | startValidating now => exact .inl (hquiet _ hcannot)
    | startReviewing candidateId now => exact .inl (hquiet _ hcannot)
    | requestRepair candidateId reason now => exact .inl (hquiet _ hcannot)
    | requestPlanRevision now => exact .inl (hquiet _ hcannot)
    | complete now candidateId => exact .inl (hquiet _ hcannot)
    | fail now kind reason => exact .inl (hquiet _ hcannot)
    | requestCancellation now reason => exact .inl (hquiet _ hcannot)
    | confirmCancelled now reason => exact .inl (hquiet _ hcannot)

theorem stepAt_turn {call : RunCall} (h : run.Heeds call) : Turn run (run.stepAt call) := by
  unfold stepAt
  rcases performAt_of_heeds h with hplain | hsame | ⟨usage, hcounted⟩
  · rw [hplain]
    exact step_turn run call.op
  · rw [hsame]
    exact .refl run
  · rw [hcounted]
    exact .same rfl rfl rfl rfl rfl

theorem performAt_raised {call : RunCall} {e : PyError} (h : run.Heeds call)
    (hraised : (run.performAt call).result = .error e) : (run.performAt call).self = run := by
  rcases performAt_of_heeds h with hplain | hsame | ⟨usage, hcounted⟩
  · rw [hplain] at hraised ⊢
    exact perform_raised hraised
  · exact hsame
  · rw [hcounted] at hraised
    cases hraised

theorem after_terminal {calls : List RunCall} (hcalls : Runs.Along stepAt Heeds run calls)
    (hover : run.status.isTerminal = true) : (Runs.after stepAt run calls).status = run.status := by
  induction calls generalizing run with
  | nil => rfl
  | cons call rest ih =>
    have hsame := (stepAt_turn hcalls.1).terminal hover
    rw [Runs.after_cons, ih hcalls.2 (by rw [hsame]; exact hover), hsame]

/-- **The discipline of the run entity**: it holds after any calls on a run that was
    created, a run that is over stays in its status, and a call that raises changes
    nothing, if the calls heed the zone. -/
theorem create_run_disciplined (runId : RunId) (projectId : ProjectId) (objective : String)
    (now : Instant) (candidateCount : Nat) (limits : RunLimits) (idempotencyKey : Option String)
    (metadata : Mapping) (hobjective : isBlank objective = false) (hpos : 1 ≤ candidateCount)
    (hle : candidateCount ≤ limits.maxParallelCandidates) (calls : List RunCall)
    (hcalls : Runs.Along stepAt Heeds (create runId projectId objective now candidateCount limits
      idempotencyKey metadata hobjective hpos hle) calls) :
    let run := Runs.after stepAt (create runId projectId objective now candidateCount limits
      idempotencyKey metadata hobjective hpos hle) calls
    run.Disciplined ∧
      (∀ later, Runs.Along stepAt Heeds run later → run.status.isTerminal = true →
        (Runs.after stepAt run later).status = run.status) ∧
      ∀ call, run.Heeds call → ∀ e, (run.performAt call).result = .error e →
        (run.performAt call).self = run := by
  refine ⟨?_, fun later => after_terminal, fun call hcall e h => performAt_raised hcall h⟩
  exact hcalls.invariant (create_disciplined ..) fun run call h hcall =>
    (stepAt_turn hcall).disciplined h

end Run

namespace Sample

theorem failing_test_given : isBlank "Fix the failing test" = false := by decide

def createdRun : Run :=
  Run.create ⟨1⟩ ⟨2⟩ "Fix the failing test" 0 2 {} none [] failing_test_given count_two two_within

/-- A run that is planned, cancelled and then asked to plan again, the last time on a clock
    without a zone. -/
def cancelledCalls : List RunCall :=
  [⟨.startPlanning 1, true, 1⟩, ⟨.requestCancellation 2 none, true, 2⟩,
   ⟨.confirmCancelled 3 none, true, 3⟩, ⟨.startPlanning 4, false, 4⟩]

end Sample

namespace Run

theorem create_run_disciplined_sample :
    ∃ run : Run, run.Disciplined ∧ run.status = .cancelled ∧
      stateChanges run.events =
        [(.created, .planning), (.planning, .cancelling), (.cancelling, .cancelled)] := by
  have hcalls : Runs.Along stepAt Heeds Sample.createdRun Sample.cancelledCalls := by
    refine ⟨nofun, nofun, nofun, fun _ => ⟨fun h => h, fun target htarget => ?_⟩, trivial⟩
    obtain rfl : RunStatus.planning = target := Option.some.inj htarget
    decide +kernel
  have h := (create_run_disciplined ⟨1⟩ ⟨2⟩ "Fix the failing test" 0 2 {} none []
    Sample.failing_test_given count_two Sample.two_within Sample.cancelledCalls hcalls).1
  exact ⟨_, h, by decide +kernel, by decide +kernel⟩

/-- Planning is asked for on a clock without a zone: the call raises, the run is PLANNING, and
    no event says so. -/
theorem zoneless_planning_unrecorded :
    let call : RunCall := ⟨.startPlanning 1, false, 1⟩
    (Sample.createdRun.performAt call).result = .error zonelessEvent ∧
      (Sample.createdRun.stepAt call).status = .planning ∧
      stateChanges (Sample.createdRun.stepAt call).events = [] ∧
      ¬ (Sample.createdRun.stepAt call).Disciplined := by
  intro call
  refine ⟨by decide +kernel, rfl, rfl, fun h => ?_⟩
  have hcreated : (Sample.createdRun.stepAt call).status = .created := h.trail.eq_created rfl
  cases hcreated

end Run

end AgenticPlatform
