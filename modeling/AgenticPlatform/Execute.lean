import AgenticPlatform.Advance

/-!
# Executing a claimed job

`RunOrchestrator.execute`: dispatch to a stage handler, and the failure path. The four
handlers share one shape: open and read, work outside any transaction, then one
completing transaction that stores the stage's effect together with the job. `Answers`
is everything the outside contributes to one attempt: what the agent or tool answered,
and at which `Site` of the dispatch, if any, a repository or the queue raised.

The `Job` a handler works on is the holder's own object: `complete` changes it before
the transaction commits, and a rollback does not change it back.
-/

namespace AgenticPlatform

/-! ### What the outside answers -/

structure PlanOutcome where
  draft : PlanDraft
  usage : TokenUsage
  promptVersion : String
  repairs : Nat
  workerId : WorkerId

/-- The coder's answer, with the patch as it was read back from the workspace. -/
structure CodeOutcome where
  summary : String
  uncertainties : List String
  patch : Patch
  usage : TokenUsage
  promptVersion : String
  workerId : WorkerId

structure ReviewOutcome where
  draft : ReviewDraft
  usage : TokenUsage
  promptVersion : String
  workerId : WorkerId

/-- The awaited calls of a dispatch that can raise besides the agents and tools. -/
inductive Site where
  | opening | reading | adding | jobsUpdate | candidatesUpdate | runsUpdate | commit
  | acknowledge
deriving DecidableEq, Repr

structure Answers where
  now : Instant
  workspaceKnown : WorkspaceId → Bool
  planner : Except PyError PlanOutcome
  coder : Except PyError CodeOutcome
  tool : Except PyError ToolResult
  reviewer : Except PyError ReviewOutcome
  fault : Site → Option PyError

/-- Raise what the outside raises at a site. -/
def Answers.check (a : Answers) (site : Site) : Except PyError Unit :=
  match a.fault site with
  | none => .ok ()
  | some e => .error e

/-- The same for a call that is made under a condition. -/
def Answers.checkIf (a : Answers) (called : Bool) (site : Site) : Except PyError Unit :=
  if called then a.check site else .ok ()

/-- `_require_workspace`, as far as the handlers depend on it. -/
def Answers.requireWorkspace (a : Answers) (candidate : Candidate) : Except PyError Unit :=
  match candidate.workspaceId with
  | none => .error (.workspace ("candidate has no workspace (candidate_id=" ++
      quoted candidate.id.str ++ ")"))
  | some id =>
      if a.workspaceKnown id then .ok ()
      else .error (.workspace ("workspace no longer exists (workspace_id=" ++ quoted id.str ++ ")"))

/-! ### The stage handlers -/

/-- What a completing transaction stores next to the job. -/
structure Effect where
  run : Option Run
  candidate : Option Candidate
  plan : Option Plan
  review : Option Review
  toolResults : List StoredToolResult
  result : Mapping
  issued : Nat

namespace Orchestrator

variable (o : Orchestrator)

/-- The tasks of `_plan_from_draft`, one identifier each. -/
def planTasks : Nat → List TaskDraft → Except PyError (List PlanTask)
  | _, [] => .ok []
  | issued, draft :: rest => do
      let task ← PlanTask.build ⟨o.ids.draw issued⟩ draft
      let others ← planTasks (issued + 1) rest
      return task :: others

def planFromDraft (now : Instant) (issued : Nat) (run : Run) (outcome : PlanOutcome) :
    Except PyError Plan := do
  let tasks ← o.planTasks (issued + 1) outcome.draft.tasks
  let objective := if outcome.draft.objective = "" then run.objective else outcome.draft.objective
  Plan.create ⟨o.ids.draw issued⟩ run.id run.planRevisions objective tasks now outcome.draft
    outcome.promptVersion

/-- `_run_planner` up to `job.complete`. -/
def runPlanner (a : Answers) (job : Job) (w : World) : Except PyError Effect := do
  let run ← w.db.requireRun job.runId
  let _ ← w.db.requireProject run
  let outcome ← a.planner
  let plan ← o.planFromDraft a.now w.issued run outcome
  a.check .reading
  a.check .adding
  let run ← (run.planReady plan.id plan.taskCount a.now).after
  let run := run.addTokenUsage outcome.usage a.now
  return {
    run := some run
    candidate := none
    plan := some plan
    review := none
    toolResults := []
    result := [("plan_id", .str plan.id.str), ("task_count", .int plan.taskCount),
      ("worker_id", .str outcome.workerId.str), ("prompt_version", .str outcome.promptVersion),
      ("repairs", .int outcome.repairs)]
    issued := w.issued + 1 + outcome.draft.tasks.length }

/-- `candidate_id = job.candidate_id`, which every handler but the planner requires. -/
def namedCandidate (job : Job) (kind : String) : Except PyError CandidateId :=
  match job.candidateId with
  | some id => .ok id
  | none => .error (.domainError ("a " ++ kind ++ " job must name its candidate (job_id=" ++
      quoted job.id.str ++ ")"))

/-- `_run_coder` up to `job.complete`. -/
def runCoder (a : Answers) (job : Job) (w : World) : Except PyError Effect := do
  let candidateId ← namedCandidate job "CODE"
  let run ← w.db.requireRun job.runId
  let _ ← w.db.requireProject run
  let candidate ← w.db.requireCandidate candidateId
  a.requireWorkspace candidate
  let outcome ← a.coder
  a.check .reading
  let candidate := candidate.recordWorker outcome.workerId
  let candidate ← (candidate.submitPatch outcome.patch outcome.summary outcome.uncertainties).after
  let candidate ← (candidate.startValidation a.now).after
  let run := run.addTokenUsage outcome.usage a.now
  return {
    run := some run
    candidate := some candidate
    plan := none
    review := none
    toolResults := []
    result := [("candidate_id", .str candidateId.str),
      ("changed_files", .int outcome.patch.files.length),
      ("worker_id", .str outcome.workerId.str), ("prompt_version", .str outcome.promptVersion)]
    issued := w.issued }

/-- The results of a stage: one, of the tool's own kind, or none when the project
    configures no such command and so offers no such tool. -/
def stageResults (a : Answers) (project : Project) (stage : ValidationStage) :
    Except PyError (List ToolResult) :=
  if stageIsConfigured project stage then
    a.tool.map fun result => [{ result with tool := stage.tool, kind := stage.kind }]
  else .ok []

/-- `_run_validation_stage` up to `job.complete`. -/
def runValidationStage (a : Answers) (stage : ValidationStage) (job : Job) (w : World) :
    Except PyError Effect := do
  let candidateId ← namedCandidate job "validation"
  let run ← w.db.requireRun job.runId
  let project ← w.db.requireProject run
  let candidate ← w.db.requireCandidate candidateId
  a.requireWorkspace candidate
  let results ← stageResults a project stage
  a.check .reading
  let candidate ← (candidate.appendValidation results).after
  a.checkIf (!results.isEmpty) .adding
  return {
    run := none
    candidate := some candidate
    plan := none
    review := none
    toolResults := results.map fun result => ⟨job.runId, candidateId, result⟩
    result := [("stage", .str job.type.value),
      ("exit_codes", .list (results.map fun result => .int result.exitCode)),
      ("skipped", .bool results.isEmpty)]
    issued := w.issued }

/-- The findings of a review, rebuilt from the draft. -/
def reviewFindings : List FindingDraft → Except PyError (List ReviewFinding)
  | [] => .ok []
  | draft :: rest => do
      let finding ← ReviewFinding.build draft
      let others ← reviewFindings rest
      return finding :: others

/-- `_run_reviewer` up to `job.complete`. -/
def runReviewer (a : Answers) (job : Job) (w : World) : Except PyError Effect := do
  let candidateId ← namedCandidate job "REVIEW"
  let run ← w.db.requireRun job.runId
  let _ ← w.db.requireProject run
  let candidate ← w.db.requireCandidate candidateId
  let previous := w.db.reviewsOf candidateId
  let outcome ← a.reviewer
  let findings ← reviewFindings outcome.draft.findings
  let review ← Review.build ⟨o.ids.draw w.issued⟩ job.runId candidateId outcome.draft.verdict
    (previous.length + 1) a.now outcome.draft.summary findings outcome.promptVersion
  a.check .reading
  a.check .adding
  let candidate := candidate.recordReview outcome.draft.verdict
  let run := run.addTokenUsage outcome.usage a.now
  return {
    run := some run
    candidate := some candidate
    plan := none
    review := some review
    toolResults := []
    result := [("verdict", .str (match outcome.draft.verdict with
        | .pass => "PASS"
        | .fail => "FAIL")),
      ("findings", .int outcome.draft.findings.length),
      ("worker_id", .str outcome.workerId.str), ("prompt_version", .str outcome.promptVersion)]
    issued := w.issued + 1 }

/-- The handler of a job type. -/
def stageEffect (a : Answers) (job : Job) (w : World) : Except PyError Effect :=
  match job.type with
  | .plan => o.runPlanner a job w
  | .code => runCoder a job w
  | .review => o.runReviewer a job w
  | .build => runValidationStage a .build job w
  | .test => runValidationStage a .test job w
  | .staticAnalysis => runValidationStage a .staticAnalysis job w
  | .llmInference | .patchApply =>
      .error (.domainError ("no handler for job type " ++ job.type.value ++
        " (job_type=" ++ quoted job.type.value ++ ")"))

end Orchestrator

/-! ### The completing transaction -/

/-- The tables once the effect of a stage is stored next to its job. -/
def Db.complete (db : Db) (effect : Effect) (job : Job) : Db :=
  let db := db.setJob job
  let db := match effect.run with
    | some run => db.setRun run
    | none => db
  let db := match effect.candidate with
    | some candidate => db.setCandidate candidate
    | none => db
  { db with
    plans := db.plans ++ effect.plan.toList
    reviews := db.reviews ++ effect.review.toList
    toolResults := db.toolResults ++ effect.toolResults
    events := db.events ++ (effect.run.map Run.events).getD [] ++ job.events ++
      (effect.candidate.map Candidate.events).getD [] }

/-- The tables with the run an effect changed, if it changed one. -/
def Db.withRun (db : Db) : Option Run → Db
  | some run => db.setRun run
  | none => db

/-- The repository calls between `job.complete` and the commit. -/
def Answers.flush (a : Answers) (db : Db) (effect : Effect) (job : Job) : Except PyError Unit := do
  a.check .jobsUpdate
  let _ ← db.updateJob job
  a.checkIf effect.candidate.isSome .candidatesUpdate
  a.checkIf effect.run.isSome .runsUpdate

/-- `job.complete(...)` to the end of the completing transaction. The job keeps what
    `complete` did to it whatever happens next; a commit also drains its events. -/
def completing (a : Answers) (job : Job) (lease : Lease) (effect : Effect) (db : Db) :
    Call Job Db :=
  let call := job.complete (some lease.token) a.now (some effect.result)
  match call.result with
  | .error e => .raised call.self e
  | .ok () =>
      match a.flush db effect call.self with
      | .error e => .raised call.self e
      | .ok () =>
          match a.check .commit with
          | .error e => .raised call.self.stored e
          | .ok () => .returned call.self.stored (db.complete effect call.self)

/-- `queue.acknowledge`, once the transaction committed. -/
def acknowledging (a : Answers) (job : Job) (lease : Lease) (w : World) : Call (World × Job) Unit :=
  match a.check .acknowledge with
  | .error e => .raised (w, job) e
  | .ok () => .returned ({ w with queue := w.queue.acknowledge job.id lease.token }, job) ()

namespace Orchestrator

variable (o : Orchestrator)

/-- A stage handler, from its first read to the acknowledgement. -/
def runStage (a : Answers) (job : Job) (lease : Lease) (w : World) : Call (World × Job) Unit :=
  match o.stageEffect a job w with
  | .error e => .raised (w, job) e
  | .ok effect =>
      let call := completing a job lease effect w.db
      match call.result with
      | .error e => .raised (w, call.self) e
      | .ok db => acknowledging a call.self lease { w with db, issued := effect.issued }

/-- The transaction of `_dispatch` for a run that is stopping: the job is cancelled. -/
def cancelling (a : Answers) (job : Job) (db : Db) : Call Job Db :=
  let job := job.cancel a.now
  match a.check .jobsUpdate with
  | .error e => .raised job e
  | .ok () =>
      match db.updateJob job with
      | .error e => .raised job e
      | .ok db =>
          match a.check .commit with
          | .error e => .raised job e
          | .ok () => .returned job db

/-- The branch of `_dispatch` for a run that is stopping. -/
def cancelJob (a : Answers) (job : Job) (lease : Lease) (w : World) : Call (World × Job) Unit :=
  let call := cancelling a job w.db
  match call.result with
  | .error e => .raised (w, call.self) e
  | .ok db => acknowledging a call.self lease { w with db }

/-- `_dispatch`. -/
def dispatch (a : Answers) (job : Job) (lease : Lease) (w : World) : Call (World × Job) Unit :=
  match a.check .opening with
  | .error e => .raised (w, job) e
  | .ok () =>
      match w.db.requireRun job.runId with
      | .error e => .raised (w, job) e
      | .ok run =>
          if run.isCancelling ∨ run.isTerminal then cancelJob a job lease w
          else o.runStage a job lease w

end Orchestrator

/-! ### Failures -/

/-- `_classify`. -/
def classify : PyError → FailureKind
  | .structuredOutput _ => .invalidStructuredOutput
  | .llmTimeout _ => .inference
  | .inference _ => .inference
  | .noCompatibleWorker _ => .infrastructure
  | .toolExecution _ => .tool
  | .workspace _ => .infrastructure
  | _ => .infrastructure

namespace Orchestrator

variable (o : Orchestrator)

/-- The first transaction of `_handle_failure`: the job's failure, and the run's when the
    job will not be retried and the produced code is not to blame. -/
def recordFailure (now : Instant) (job : Job) (e : PyError) (retryable : Bool) (db : Db) :
    Except PyError Db := do
  let kind := classify e
  let run := db.run? job.runId
  let failed := (job.fail none now kind e.str (some retryable)).self
  let db ← db.updateJob failed
  match run with
  | none => return db.append failed.events
  | some run =>
      if retryable = false ∧ run.isTerminal = false ∧ kind.isCodeDefect = false then
        let run ← (run.fail now kind e.str).after
        return (db.setRun run).append (run.events ++ failed.events)
      else return db.append failed.events

/-- The second transaction of `_handle_failure`, and the publication after it. -/
def requeueFailed (now : Instant) (jobId : JobId) (reason : String) (w : World) :
    Call World Unit :=
  match w.db.job? jobId with
  | none => .returned w ()
  | some stored =>
      let call := stored.requeue now reason
      match call.result with
      | .error e => .raised w e
      | .ok () =>
          .returned { w with
            db := (w.db.setJob call.self).append call.self.events
            queue := w.queue.enqueue call.self.stored } ()

/-- `_handle_failure`. -/
def handleFailure (ws : Workspaces) (now : Instant) (job : Job) (lease : Lease) (e : PyError)
    (w : World) : Call World Unit :=
  let decision := o.retry.decide (classify e) job.attempt
  match recordFailure now job e decision.shouldRetryJob w.db with
  | .error e => .raised w e
  | .ok db =>
      let release := w.queue.release job.id lease.token decision.shouldRetryJob
      let w := { w with db, queue := release.self }
      match release.result with
      | .error e => .raised w e
      | .ok () =>
          if decision.shouldRetryJob then requeueFailed now job.id decision.reason w
          else o.advance ws now job.runId w

/-- `execute`: run one claimed job to completion and advance the workflow. -/
def execute (ws : Workspaces) (a : Answers) (job : Job) (lease : Lease) (w : World) :
    Call World Unit :=
  let attempt := o.dispatch a job lease w
  match attempt.result with
  | .error e => o.handleFailure ws a.now attempt.self.2 lease e attempt.self.1
  | .ok () => o.advance ws a.now job.runId attempt.self.1

end Orchestrator

end AgenticPlatform
