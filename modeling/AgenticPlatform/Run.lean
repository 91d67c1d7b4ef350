import AgenticPlatform.Events
import AgenticPlatform.RunStateMachine

/-!
# The run aggregate

One agentic objective against one project: its workflow status, its budgets and its
token account. Every change of status goes through `transition`, which asks the state
machine first and records the change.
-/

namespace AgenticPlatform

/-- Per-run bounds on the agentic loops; the constructor's checks are proof fields
    (the other budgets are natural numbers). -/
structure RunLimits where
  maxPlanRevisions : Nat := 2
  maxCoderIterations : Nat := 6
  maxRepairIterations : Nat := 3
  maxWorkerRetries : Nat := 3
  maxParallelCandidates : Nat := 3
  max_parallel_candidates_pos : 1 ≤ maxParallelCandidates := by first | exact count_three | decide
  max_worker_retries_pos : 1 ≤ maxWorkerRetries := by first | exact count_three | decide

structure TokenUsage where
  inputTokens : Nat := 0
  outputTokens : Nat := 0
deriving DecidableEq, Repr

namespace TokenUsage

def add (left right : TokenUsage) : TokenUsage :=
  ⟨left.inputTokens + right.inputTokens, left.outputTokens + right.outputTokens⟩

instance : Add TokenUsage := ⟨add⟩
instance : Zero TokenUsage := ⟨{}⟩

@[ext] theorem ext {left right : TokenUsage} (hin : left.inputTokens = right.inputTokens)
    (hout : left.outputTokens = right.outputTokens) : left = right := by
  cases left; cases right; simp_all

@[simp] theorem add_inputTokens (left right : TokenUsage) :
    (left + right).inputTokens = left.inputTokens + right.inputTokens := rfl

@[simp] theorem add_outputTokens (left right : TokenUsage) :
    (left + right).outputTokens = left.outputTokens + right.outputTokens := rfl

@[simp] theorem zero_inputTokens : (0 : TokenUsage).inputTokens = 0 := rfl

@[simp] theorem zero_outputTokens : (0 : TokenUsage).outputTokens = 0 := rfl

end TokenUsage

structure Run where
  id : RunId
  projectId : ProjectId
  objective : String
  createdAt : Instant
  candidateCount : Nat
  limits : RunLimits
  status : RunStatus
  planId : Option PlanId
  planRevisions : Nat
  repairIterations : Nat
  reviewIterations : Nat
  selectedCandidateId : Option CandidateId
  tokenUsage : TokenUsage
  idempotencyKey : Option String
  metadata : Mapping
  startedAt : Option Instant
  completedAt : Option Instant
  updatedAt : Instant
  failureKind : Option FailureKind
  failureReason : Option String
  events : List DomainEvent
  objective_nonblank : isBlank objective = false
  candidate_count_pos : 1 ≤ candidateCount
  candidate_count_le : candidateCount ≤ limits.maxParallelCandidates

namespace Run

def record (run : Run) (now : Instant) (body : EventBody) : Run :=
  { run with events := run.events ++ [⟨now, body⟩] }

/-- `Run.create`; the objective arrives stripped. -/
def create (runId : RunId) (projectId : ProjectId) (objective : String) (now : Instant)
    (candidateCount : Nat) (limits : RunLimits) (idempotencyKey : Option String)
    (metadata : Mapping) (objective_nonblank : isBlank objective = false)
    (candidate_count_pos : 1 ≤ candidateCount)
    (candidate_count_le : candidateCount ≤ limits.maxParallelCandidates) : Run :=
  let run : Run := {
    id := runId, projectId, objective, createdAt := now, candidateCount, limits
    status := .created, planId := none, planRevisions := 0, repairIterations := 0
    reviewIterations := 0, selectedCandidateId := none, tokenUsage := {}
    idempotencyKey, metadata, startedAt := none, completedAt := none, updatedAt := now
    failureKind := none, failureReason := none, events := []
    objective_nonblank, candidate_count_pos, candidate_count_le }
  run.record now (.runCreated runId projectId objective candidateCount)

def isTerminal (run : Run) : Bool := run.status.isTerminal

def isCancelling (run : Run) : Bool := run.status.isCancellingOrCancelled

def canRevisePlan (run : Run) : Bool :=
  decide (run.planRevisions < run.limits.maxPlanRevisions + 1)

def canRepair (run : Run) : Bool :=
  decide (run.repairIterations < run.limits.maxRepairIterations)

/-! ### Workflow -/

/-- The run once it changed status. -/
def moved (run : Run) (target : RunStatus) (now : Instant) (reason : Option String) : Run :=
  { run with status := target, updatedAt := now }.record now
    (.runStateChanged run.id run.status target reason)

/-- `_transition`: the state machine is asked before anything is written. -/
def transition (run : Run) (target : RunStatus) (now : Instant)
    (reason : Option String) : Except PyError Run :=
  match RunStateMachine.ensure run.status target with
  | .error e => .error e
  | .ok () => .ok (run.moved target now reason)

/-- A method whose only failure is the transition it starts with. -/
def transitioning {α : Type} (run : Run) (target : RunStatus) (now : Instant)
    (reason : Option String) (rest : Run → Run × α) : Call Run α :=
  match run.transition target now reason with
  | .error e => .raised run e
  | .ok run => .returned (rest run).1 (rest run).2

def startPlanning (run : Run) (now : Instant) : Call Run Unit :=
  run.transitioning .planning now none fun run =>
    let run := { run with
      startedAt := some (run.startedAt.getD now), planRevisions := run.planRevisions + 1 }
    (run.record now (.planRequested run.id run.planRevisions), ())

def planReady (run : Run) (planId : PlanId) (taskCount : Nat) (now : Instant) :
    Call Run Unit :=
  run.transitioning .planReady now none fun run =>
    ({ run with planId := some planId }.record now
      (.planCompleted run.id planId run.planRevisions taskCount), ())

/-- Enter the coding stage, either after planning or from a repair loop. -/
def startCoding (run : Run) (now : Instant) : Call Run Unit :=
  run.transitioning .coding now none fun run =>
    ({ run with startedAt := some (run.startedAt.getD now) }, ())

def startValidating (run : Run) (now : Instant) : Call Run Unit :=
  run.transitioning .validating now none fun run => (run, ())

def startReviewing (run : Run) (candidateId : CandidateId) (now : Instant) : Call Run Unit :=
  run.transitioning .reviewing now none fun run =>
    let run := { run with reviewIterations := run.reviewIterations + 1 }
    (run.record now (.reviewRequested run.id candidateId run.reviewIterations), ())

/-- Enter a repair iteration; `false` when the budget is exhausted. -/
def requestRepair (run : Run) (candidateId : CandidateId) (reason : String)
    (now : Instant) : Call Run Bool :=
  if run.canRepair then
    run.transitioning .repairing now none fun run =>
      let run := { run with repairIterations := run.repairIterations + 1 }
      (run.record now (.repairRequested run.id candidateId run.repairIterations reason), true)
  else .returned run false

/-- Ask the planner for another revision if the budget allows it. -/
def requestPlanRevision (run : Run) (now : Instant) : Call Run Bool :=
  if run.canRevisePlan then
    run.transitioning .planning now none fun run =>
      let run := { run with planRevisions := run.planRevisions + 1 }
      (run.record now (.planRequested run.id run.planRevisions), true)
  else .returned run false

def selectCandidate (run : Run) (candidateId : CandidateId) (rationale : String)
    (now : Instant) : Run :=
  { run with selectedCandidateId := some candidateId, updatedAt := now }.record now
    (.candidateSelected run.id candidateId rationale)

def complete (run : Run) (now : Instant) (candidateId : Option CandidateId) : Call Run Unit :=
  run.transitioning .completed now none fun run =>
    let run := { run with
      selectedCandidateId := candidateId.orElse fun _ => run.selectedCandidateId
      completedAt := some now }
    (run.record now (.runCompleted run.id run.selectedCandidateId), ())

def fail (run : Run) (now : Instant) (kind : FailureKind) (reason : String) :
    Call Run Unit :=
  if run.status.isTerminal then .returned run ()
  else
    run.transitioning .failed now none fun run =>
      ({ run with
        failureKind := some kind
        failureReason := some reason
        completedAt := some now }.record now (.runFailed run.id kind reason), ())

/-! ### Cancellation -/

/-- Mark the run as cancelling; `false` if it is already stopping. -/
def requestCancellation (run : Run) (now : Instant) (reason : Option String) :
    Call Run Bool :=
  if run.status.isTerminal ∨ run.status = .cancelling then .returned run false
  else run.transitioning .cancelling now reason fun run => (run, true)

def confirmCancelled (run : Run) (now : Instant) (reason : Option String) : Call Run Unit :=
  if run.status = .cancelled then .returned run ()
  else
    run.transitioning .cancelled now reason fun run =>
      ({ run with failureKind := some .cancelled, completedAt := some now }.record now
        (.runCancelled run.id reason), ())

/-! ### Accounting -/

def addTokenUsage (run : Run) (usage : TokenUsage) (now : Instant) : Run :=
  { run with tokenUsage := run.tokenUsage + usage, updatedAt := now }

/-! ### What no method changes -/

/-- The fields fixed when the run is created. -/
structure Charter where
  id : RunId
  projectId : ProjectId
  objective : String
  createdAt : Instant
  candidateCount : Nat
  limits : RunLimits
  idempotencyKey : Option String
  metadata : Mapping

def charter (run : Run) : Charter where
  id := run.id
  projectId := run.projectId
  objective := run.objective
  createdAt := run.createdAt
  candidateCount := run.candidateCount
  limits := run.limits
  idempotencyKey := run.idempotencyKey
  metadata := run.metadata

theorem id_of_charter {left right : Run} (h : left.charter = right.charter) :
    left.id = right.id := congrArg Charter.id h

theorem projectId_of_charter {left right : Run} (h : left.charter = right.charter) :
    left.projectId = right.projectId := congrArg Charter.projectId h

theorem limits_of_charter {left right : Run} (h : left.charter = right.charter) :
    left.limits = right.limits := congrArg Charter.limits h

theorem candidateCount_of_charter {left right : Run} (h : left.charter = right.charter) :
    left.candidateCount = right.candidateCount := congrArg Charter.candidateCount h

/-! ### What a transition does -/

variable {run run' : Run} {target : RunStatus} {now : Instant}

theorem transitioning_of_can {α : Type} (h : RunStateMachine.can run.status target = true)
    (now : Instant) (reason : Option String) (rest : Run → Run × α) :
    run.transitioning target now reason rest =
      .returned (rest (run.moved target now reason)).1 (rest (run.moved target now reason)).2 := by
  simp [transitioning, transition, RunStateMachine.ensure, h]

theorem transitioning_of_cannot {α : Type} (h : RunStateMachine.can run.status target = false)
    (now : Instant) (reason : Option String) (rest : Run → Run × α) :
    run.transitioning target now reason rest =
      .raised run (.invalidStateTransition "Run" run.status.value target.value) := by
  simp [transitioning, transition, RunStateMachine.ensure, h]

/-- A method built on a transition returns exactly when the table allows it. -/
theorem transitioning_after {α : Type} {reason : Option String} {rest : Run → Run × α} :
    (run.transitioning target now reason rest).after = .ok run' ↔
      RunStateMachine.can run.status target = true ∧
        (rest (run.moved target now reason)).1 = run' := by
  cases h : RunStateMachine.can run.status target with
  | true => simp [transitioning_of_can h]
  | false => simp [transitioning_of_cannot h]

/-- A live run can always be failed. -/
theorem fail_of_live (h : run.isTerminal = false) (now : Instant) (kind : FailureKind)
    (reason : String) :
    ∃ failed, (run.fail now kind reason).after = .ok failed ∧ failed.status = .failed ∧
      failed.charter = run.charter := by
  have hlive : run.status.isTerminal = false := h
  have hcan := RunStateMachine.can_failed hlive
  unfold fail
  rw [if_neg (by simp [hlive]), transitioning_of_can hcan]
  exact ⟨_, rfl, rfl, rfl⟩

/-- A granted repair consumed budget; a refused one left the run alone. -/
theorem requestRepair_outcome {candidateId : CandidateId} {reason : String} {granted : Bool}
    (h : (run.requestRepair candidateId reason now).outcome = .ok (run', granted)) :
    (granted = true ∧ run.canRepair = true ∧
      RunStateMachine.can run.status .repairing = true ∧ run'.status = .repairing ∧
      run'.repairIterations = run.repairIterations + 1 ∧ run'.charter = run.charter ∧
      run'.tokenUsage = run.tokenUsage) ∨
    (granted = false ∧ run.canRepair = false ∧ run' = run) := by
  unfold requestRepair at h
  by_cases hrepair : run.canRepair = true
  · rw [if_pos hrepair] at h
    cases hcan : RunStateMachine.can run.status .repairing with
    | true =>
      rw [transitioning_of_can hcan, Call.outcome_returned, Except.ok.injEq, Prod.mk.injEq] at h
      obtain ⟨rfl, rfl⟩ := h
      exact .inl ⟨rfl, hrepair, rfl, rfl, rfl, rfl, rfl⟩
    | false =>
      rw [transitioning_of_cannot hcan, Call.outcome_raised] at h
      cases h
  · rw [if_neg hrepair, Call.outcome_returned, Except.ok.injEq, Prod.mk.injEq] at h
    obtain ⟨rfl, rfl⟩ := h
    exact .inr ⟨rfl, by simpa using hrepair, rfl⟩

end Run

/-! ### The methods -/

/-- The methods that change a run, with their arguments. -/
inductive RunOp where
  | startPlanning (now : Instant)
  | planReady (planId : PlanId) (taskCount : Nat) (now : Instant)
  | startCoding (now : Instant)
  | startValidating (now : Instant)
  | startReviewing (candidateId : CandidateId) (now : Instant)
  | requestRepair (candidateId : CandidateId) (reason : String) (now : Instant)
  | requestPlanRevision (now : Instant)
  | selectCandidate (candidateId : CandidateId) (rationale : String) (now : Instant)
  | complete (now : Instant) (candidateId : Option CandidateId)
  | fail (now : Instant) (kind : FailureKind) (reason : String)
  | requestCancellation (now : Instant) (reason : Option String)
  | confirmCancelled (now : Instant) (reason : Option String)
  | addTokenUsage (usage : TokenUsage) (now : Instant)

namespace Run

/-- Call a method. The value it returns is of no interest here. -/
def perform (run : Run) : RunOp → Call Run Unit
  | .startPlanning now => run.startPlanning now
  | .planReady planId taskCount now => run.planReady planId taskCount now
  | .startCoding now => run.startCoding now
  | .startValidating now => run.startValidating now
  | .startReviewing candidateId now => run.startReviewing candidateId now
  | .requestRepair candidateId reason now => (run.requestRepair candidateId reason now).void
  | .requestPlanRevision now => (run.requestPlanRevision now).void
  | .selectCandidate candidateId rationale now =>
      .returned (run.selectCandidate candidateId rationale now) ()
  | .complete now candidateId => run.complete now candidateId
  | .fail now kind reason => run.fail now kind reason
  | .requestCancellation now reason => (run.requestCancellation now reason).void
  | .confirmCancelled now reason => run.confirmCancelled now reason
  | .addTokenUsage usage now => .returned (run.addTokenUsage usage now) ()

/-- The run after one call, whether it returned or raised. -/
def step (run : Run) (op : RunOp) : Run := (run.perform op).self

end Run

theorem Sample.two_within : 2 ≤ ({} : RunLimits).maxParallelCandidates := by decide

theorem Sample.objective_given : isBlank "fix the build" = false := by decide

end AgenticPlatform
