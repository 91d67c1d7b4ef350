import AgenticPlatform.Store
import AgenticPlatform.RetryPolicy

/-!
# Workflow advancement

The part of `RunOrchestrator` that decides the next step of a run: `start`, `_advance`
and its helpers, the publication of follow-up jobs, and `handle_dead_job`. A decision
reads the run, its project and its candidates and leaves a `Progress`: the aggregates as
they are in memory when the transaction commits, and the jobs to create. Every call
reads the clock once, and the identifiers it draws are those from `issued` on.
-/

namespace AgenticPlatform

/-! ### Wiring -/

structure OrchestratorConfig where
  jobMaxAttempts : Nat := 3
  staticAnalysisIsBlocking : Bool := false
  integrateOnSuccess : Bool := true
  job_max_attempts_pos : 1 ≤ jobMaxAttempts := by first | exact count_three | decide

/-- The identifier generator never repeats itself. -/
structure IdGenerator where
  draw : Nat → Nat
  draw_injective : ∀ m n, draw m = draw n → m = n

/-- The orchestrator's collaborators that decide something. -/
structure Orchestrator where
  config : OrchestratorConfig
  retry : RetryPolicy
  ids : IdGenerator

/-- How the workspace manager answers during one call. What it raises is a
    `WorkspaceError` with a text. Releasing workspaces decides nothing, and it is presumed
    to return (git can raise there, on a timeout or when it cannot be started), so
    `release_run` is not part of the model. -/
structure Workspaces where
  create : RunId → CandidateId → Except String WorkspaceId
  get : WorkspaceId → Bool
  integrate : WorkspaceId → String → Except String Unit

/-- `raise WorkspaceError(text)` out of the workspace manager. -/
def workspaceCall {α : Type} (answer : Except String α) : Except PyError α :=
  match answer with
  | .ok value => .ok value
  | .error text => .error (.workspace text)

/-! ### Validation stages -/

/-- The members of `_VALIDATION_STAGES`. -/
inductive ValidationStage where
  | build | test | staticAnalysis
deriving DecidableEq, Repr

namespace ValidationStage

def jobType : ValidationStage → JobType
  | build => .build
  | test => .test
  | staticAnalysis => .staticAnalysis

/-- `_STAGE_TOOLS`. -/
def tool : ValidationStage → String
  | build => "build"
  | test => "run_tests"
  | staticAnalysis => "static_analysis"

def kind : ValidationStage → ToolKind
  | build => .build
  | test => .test
  | staticAnalysis => .staticAnalysis

def ofJobType : JobType → Option ValidationStage
  | .build => some build
  | .test => some test
  | .staticAnalysis => some staticAnalysis
  | _ => none

def command (toolchain : ToolchainConfig) : ValidationStage → Option String
  | build => toolchain.buildCommand
  | test => toolchain.testCommand
  | staticAnalysis => toolchain.staticAnalysisCommand

def done (report : ValidationReport) : ValidationStage → Option Bool
  | build => report.buildPassed
  | test => report.testsPassed
  | staticAnalysis => report.staticAnalysisPassed

end ValidationStage

def validationStages : List ValidationStage := [.build, .test, .staticAnalysis]

def stageIsConfigured (project : Project) (stage : ValidationStage) : Bool :=
  commandGiven (stage.command project.toolchain)

/-- The loop of `_next_stage`. -/
def nextStageAmong (project : Project) (report : ValidationReport) :
    List ValidationStage → Option ValidationStage
  | [] => none
  | stage :: rest =>
      if stage.done report = some false then none
      else if stage.done report = none ∧ stageIsConfigured project stage = true then some stage
      else nextStageAmong project report rest

/-- The next configured stage that has not run yet; none after the first failure. -/
def nextStage (project : Project) (report : ValidationReport) : Option ValidationStage :=
  nextStageAmong project report validationStages

/-- `_has_unfinished`. -/
def hasUnfinished (jobs : List Job) : Bool := jobs.any fun job => !job.status.isTerminal

/-! ### Decisions -/

/-- What one decision leaves to be stored. -/
structure Progress where
  run : Run
  candidates : List Candidate
  opened : List Candidate
  followUps : List Job
  issued : Nat

namespace Orchestrator

variable (o : Orchestrator)

/-- `_new_job`, with the `issued`-th identifier. -/
def newJob (issued : Nat) (run : Run) (jobType : JobType) (role : Option AgentRole)
    (candidateId : Option CandidateId) (priority : Priority) (now : Instant)
    (role_given : jobType.requiresInference = true → role ≠ none) : Job :=
  Job.create ⟨o.ids.draw issued⟩ run.id run.projectId jobType now role candidateId priority
    o.config.jobMaxAttempts role_given o.config.job_max_attempts_pos

def planJob (issued : Nat) (run : Run) (now : Instant) : Job :=
  o.newJob issued run .plan (some .planner) none .normal now (by simp)

def codeJob (issued : Nat) (run : Run) (candidateId : CandidateId) (priority : Priority)
    (now : Instant) : Job :=
  o.newJob issued run .code (some .coder) (some candidateId) priority now (by simp)

def reviewJob (issued : Nat) (run : Run) (candidateId : CandidateId) (now : Instant) : Job :=
  o.newJob issued run .review (some .reviewer) (some candidateId) .normal now (by simp)

def stageJob (issued : Nat) (run : Run) (stage : ValidationStage) (candidateId : CandidateId)
    (now : Instant) : Job :=
  o.newJob issued run stage.jobType none (some candidateId) .high now
    (by cases stage <;> simp [ValidationStage.jobType, JobType.requiresInference])

/-- One turn of the loop of `_open_candidates`. -/
def openCandidate (ws : Workspaces) (now : Instant) (run : Run) (issued index : Nat) :
    Except PyError (Candidate × Job) := do
  let candidate := Candidate.create ⟨o.ids.draw issued⟩ run.id index now
  let workspace ← workspaceCall (ws.create run.id candidate.id)
  let candidate ← (candidate.attachWorkspace workspace).after
  let candidate ← (candidate.startCoding now none).after
  return (candidate, o.codeJob (issued + 1) run candidate.id .normal now)

def openEach (ws : Workspaces) (now : Instant) (run : Run) :
    Nat → List Nat → Except PyError (List (Candidate × Job))
  | _, [] => .ok []
  | issued, index :: rest => do
      let first ← o.openCandidate ws now run issued index
      let others ← openEach ws now run (issued + 2) rest
      return first :: others

/-- Create the candidates and their isolated workspaces, then their jobs. -/
def openCandidates (ws : Workspaces) (now : Instant) (issued : Nat) (run : Run)
    (candidates : List Candidate) : Except PyError Progress := do
  let opened ← o.openEach ws now run issued (List.range run.candidateCount)
  return {
    run
    candidates
    opened := opened.map Prod.fst
    followUps := opened.map Prod.snd
    issued := issued + 2 * run.candidateCount }

/-- `bool(run.metadata.get("requires_plan", True))`. -/
def requiresPlan (run : Run) : Bool := (Mapping.get run.metadata "requires_plan" (.bool true)).truthy

/-- The first jobs of a run: plan, or code directly. -/
def openFirstStage (ws : Workspaces) (now : Instant) (issued : Nat) (run : Run)
    (candidates : List Candidate) : Except PyError Progress :=
  if requiresPlan run then do
    let run ← (run.startPlanning now).after
    return ⟨run, candidates, [], [o.planJob issued run now], issued + 1⟩
  else do
    let run ← (run.startCoding now).after
    o.openCandidates ws now issued run candidates

/-- Write a changed candidate back into the list it was taken from. -/
def replaceCandidate (candidates : List Candidate) (changed : Candidate) : List Candidate :=
  Table.put Candidate.id candidates changed

/-- `reason; repair budget exhausted`: the run ends. -/
def failForReview (now : Instant) (issued : Nat) (run : Run) (candidates : List Candidate)
    (reason : String) : Except PyError Progress := do
  let run ← (run.fail now .review (reason ++ "; repair budget exhausted")).after
  return ⟨run, candidates, [], [], issued⟩

/-- `_repair_or_fail`: send the first of `targets` back to the coder, or end the run. -/
def repairOrFail (now : Instant) (issued : Nat) (run : Run)
    (candidates targets : List Candidate) (reason : String) : Except PyError Progress :=
  match targets with
  | [] => failForReview now issued run candidates reason
  | target :: _ => do
      let (run, mayRepair) ← (run.requestRepair target.id reason now).outcome
      if mayRepair then
        let target ← (target.startRepair now).after
        let run ← (run.startCoding now).after
        return {
          run
          candidates := replaceCandidate candidates target
          opened := []
          followUps := [o.codeJob issued run target.id .high now]
          issued := issued + 1 }
      else failForReview now issued run candidates reason

/-- The stage a candidate waits for, if it is being validated. -/
def pendingStage (project : Project) (candidate : Candidate) : Option ValidationStage :=
  if candidate.status = .validating then nextStage project candidate.validation else none

/-- The follow-ups of the loop of `_advance_candidates`. -/
def stageJobs (now : Instant) (run : Run) (project : Project) : Nat → List Candidate → List Job
  | _, [] => []
  | issued, candidate :: rest =>
      match pendingStage project candidate with
      | some stage =>
          o.stageJob issued run stage candidate.id now :: stageJobs now run project (issued + 1) rest
      | none => stageJobs now run project issued rest

/-- What the same loop does to a candidate that has no stage left. -/
def settle (now : Instant) (project : Project) (candidate : Candidate) : Candidate :=
  if candidate.status = .validating ∧ nextStage project candidate.validation = none then
    (candidate.recordValidation now none o.config.staticAnalysisIsBlocking).self
  else candidate

/-- Push each candidate through its remaining validation stages. -/
def advanceCandidates (now : Instant) (issued : Nat) (run : Run)
    (project : Project) (candidates : List Candidate) : Except PyError Progress :=
  let followUps := o.stageJobs now run project issued candidates
  let candidates := candidates.map (o.settle now project)
  if followUps ≠ [] then do
    let run ← if run.status = .validating then .ok run else (run.startValidating now).after
    return ⟨run, candidates, [], followUps, issued + followUps.length⟩
  else
    let settled := candidates.filter fun candidate => candidate.status == .validated
    if settled = [] then .ok ⟨run, candidates, [], [], issued⟩
    else
      match CandidateSelection.viable settled with
      | first :: rest => do
          let best := (CandidateSelection.select (first :: rest)).winner.getD first
          let run ← if run.status = .reviewing then .ok run
            else (run.startReviewing best.id now).after
          return ⟨run, candidates, [], [o.reviewJob issued run best.id now], issued + 1⟩
      | [] =>
          o.repairOrFail now issued run candidates settled
            "no candidate survived deterministic validation"

/-- `_require_workspace`. -/
def requireWorkspace (ws : Workspaces) (candidate : Candidate) : Except PyError WorkspaceId :=
  match candidate.workspaceId with
  | none => .error (.workspace ("candidate has no workspace (candidate_id=" ++
      quoted candidate.id.str ++ ")"))
  | some id =>
      if ws.get id then .ok id
      else .error (.workspace ("workspace no longer exists (workspace_id=" ++ quoted id.str ++ ")"))

/-- `_integrate`. -/
def integrate (ws : Workspaces) (run : Run) (candidate : Candidate) : Except PyError Unit := do
  let workspace ← requireWorkspace ws candidate
  workspaceCall (ws.integrate workspace
    ("agentic run " ++ run.id.str ++ ": " ++ run.objective))

/-- `if self._config.integrate_on_success: await self._integrate(...)`. -/
def integrateOnSuccess (ws : Workspaces) (run : Run) (winner : Candidate) : Except PyError Unit :=
  if o.config.integrateOnSuccess then integrate ws run winner else .ok ()

/-- The winner is selected and every other candidate rejected. -/
def crown (now : Instant) (winner candidate : Candidate) : Candidate :=
  if candidate.id = winner.id then (candidate.select now).self
  else candidate.reject now "another candidate was selected"

/-- Settle a round of review: complete the run, or send a candidate back. -/
def advanceReview (ws : Workspaces) (now : Instant) (issued : Nat) (run : Run)
    (candidates : List Candidate) : Except PyError Progress :=
  let reviewed := candidates.filter fun candidate => candidate.reviewVerdict.isSome
  let passed := reviewed.filter fun candidate => candidate.reviewVerdict == some .pass
  match passed with
  | first :: rest => do
      let selection := CandidateSelection.select (first :: rest)
      let winner := selection.winner.getD first
      o.integrateOnSuccess ws run winner
      let _ ← (winner.select now).after
      let run := run.selectCandidate winner.id selection.rationale now
      let run ← (run.complete now (some winner.id)).after
      return ⟨run, candidates.map (crown now winner), [], [], issued⟩
  | [] =>
      let failing := reviewed.find? fun candidate => candidate.reviewVerdict == some .fail
      o.repairOrFail now issued run candidates
        (match failing with
          | some candidate => [candidate]
          | none => candidates)
        "the reviewer rejected every candidate"

/-- The branches of `_advance` on the status of a live run with no unfinished job. -/
def nextStep (ws : Workspaces) (now : Instant) (issued : Nat) (run : Run) (project : Project)
    (candidates : List Candidate) : Except PyError Progress :=
  match run.status with
  | .created => o.openFirstStage ws now issued run candidates
  | .planReady => do
      let run ← (run.startCoding now).after
      o.openCandidates ws now issued run candidates
  | .coding | .validating | .repairing =>
      o.advanceCandidates now issued run project candidates
  | .reviewing => o.advanceReview ws now issued run candidates
  | _ => .ok ⟨run, candidates, [], [], issued⟩

end Orchestrator

/-! ### Persistence and publication -/

/-- `_persist_jobs` on one job. -/
def Job.persisted (job : Job) (now : Instant) : Job := (job.enqueue now).self

/-- Everything a decision changed, in one transaction. -/
def Db.store (db : Db) (progress : Progress) (now : Instant) : Db :=
  let jobs := progress.followUps.map fun job => job.persisted now
  { db with
    runs := Table.put Run.id db.runs progress.run.stored
    candidates :=
      Table.putAll Candidate.id db.candidates (progress.candidates.map Candidate.stored) ++
        progress.opened.map Candidate.stored
    jobs := db.jobs ++ jobs.map Job.stored
    events := db.events ++ progress.opened.flatMap Candidate.events ++
      jobs.flatMap Job.events ++ progress.run.events ++
      progress.candidates.flatMap Candidate.events }

/-- `_publish_jobs`. -/
def JobQueue.publish (q : JobQueue) (jobs : List Job) : JobQueue := jobs.foldl JobQueue.enqueue q

namespace Orchestrator

variable (o : Orchestrator)

/-- The transaction of `_advance`: the world once it committed, and the jobs still to be
    published. -/
def advanceCommit (ws : Workspaces) (now : Instant) (runId : RunId) (w : World) :
    Except PyError (World × List Job) :=
  match w.db.run? runId with
  | none => .ok (w, [])
  | some run =>
      if run.isTerminal ∨ run.isCancelling then .ok (w, [])
      else do
        let project ← w.db.requireProject run
        if hasUnfinished (w.db.jobsOf runId) then .ok (w, [])
        else do
          let progress ← o.nextStep ws now w.issued run project (w.db.candidatesOf runId)
          return ({ w with db := w.db.store progress now, issued := progress.issued },
            progress.followUps.map fun job => (job.persisted now).stored)

/-- `_advance`: commit, then publish. A transaction that raises changes nothing. -/
def advance (ws : Workspaces) (now : Instant) (runId : RunId) (w : World) : Call World Unit :=
  match o.advanceCommit ws now runId w with
  | .error e => .raised w e
  | .ok (w, jobs) => .returned { w with queue := w.queue.publish jobs } ()

/-- The transaction of `start`. -/
def startCommit (ws : Workspaces) (now : Instant) (runId : RunId) (w : World) :
    Except PyError (World × List Job) := do
  let run ← w.db.requireRun runId
  if run.status ≠ .created then .ok (w, [])
  else do
    let _ ← w.db.requireProject run
    -- no candidate of the run is loaded here, so none is written back
    let progress ← o.openFirstStage ws now w.issued run []
    return ({ w with db := w.db.store progress now, issued := progress.issued },
      progress.followUps.map fun job => (job.persisted now).stored)

/-- `start`: schedule the first stage of a freshly created run. -/
def start (ws : Workspaces) (now : Instant) (runId : RunId) (w : World) : Call World Unit :=
  match o.startCommit ws now runId w with
  | .error e => .raised w e
  | .ok (w, jobs) => .returned { w with queue := w.queue.publish jobs } ()

/-- Advance each run in turn; the first exception ends the sweep. -/
def advanceEach (ws : Workspaces) (now : Instant) : List RunId → World → Call World Unit
  | [], w => .returned w ()
  | runId :: rest, w =>
      let first := o.advance ws now runId w
      match first.result with
      | .error e => .raised first.self e
      | .ok () => advanceEach ws now rest first.self

/-- `start_pending_runs`: start runs that were created but never scheduled. -/
def startPendingRuns (ws : Workspaces) (now : Instant) (w : World) : Call World Unit :=
  o.advanceEach ws now
    ((w.db.activeRuns.filter fun run => run.status == .created).map Run.id) w

/-- `resume_active_runs`: re-schedule work for runs left in flight by a restart. -/
def resumeActiveRuns (ws : Workspaces) (now : Instant) (w : World) : Call World Unit :=
  o.advanceEach ws now (w.db.activeRuns.map Run.id) w

/-- The text of a run failed by a job without a reason of its own. -/
def deadJobReason (job : Job) : String :=
  match job.failureReason with
  | some reason => if reason = "" then fallback else reason
  | none => fallback
where
  fallback : String :=
    job.type.value ++ " job exhausted its retry budget after " ++ toString job.attempt ++
      " attempt(s)"

/-- `handle_dead_job`: a job that exhausted its attempts must not leave its run waiting. -/
def handleDeadJob (now : Instant) (job : Job) (w : World) : Call World Unit :=
  match w.db.run? job.runId with
  | none => .returned w ()
  | some run =>
      if run.isTerminal then .returned w ()
      else
        match (run.fail now (job.failureKind.getD .infrastructure) (deadJobReason job)).after with
        | .error e => .raised w e
        | .ok run => .returned { w with db := (w.db.setRun run).append run.events } ()

end Orchestrator

/-! ### A fresh deployment -/

/-- One project and one run, nothing scheduled yet. -/
def World.fresh (project : Project) (run : Run) : World where
  db := {
    projects := [project]
    runs := [run]
    jobs := []
    candidates := []
    plans := []
    reviews := []
    toolResults := []
    events := [] }
  queue := JobQueue.empty
  issued := 0

/-- A workspace manager that never fails. -/
def Workspaces.calm : Workspaces where
  create _ candidateId := .ok ⟨candidateId.value⟩
  get _ := true
  integrate _ _ := .ok ()

/-- Identifiers counted from zero. -/
def IdGenerator.counting : IdGenerator := ⟨fun n => n, fun _ _ h => h⟩

namespace Sample

/-- A project with the given commands. -/
def project (toolchain : ToolchainConfig) : Project where
  id := ⟨1⟩
  name := "demo"
  repositoryUrl := none
  defaultBranch := "main"
  createdAt := 0
  toolchain := toolchain
  localPath := some "/srv/demo"

/-- A run of `project` that skips the planner and allows one repair. -/
def run (candidateCount : Nat) (candidate_count_pos : 1 ≤ candidateCount)
    (candidate_count_le : candidateCount ≤ 3) : Run :=
  Run.create ⟨2⟩ ⟨1⟩ "fix the build" 0 candidateCount { maxRepairIterations := 1 } none
    [("requires_plan", .bool false)] objective_given candidate_count_pos candidate_count_le

/-- An orchestrator with the retry policy the container wires. -/
def orchestrator (jobMaxAttempts : Nat) (job_max_attempts_pos : 1 ≤ jobMaxAttempts) :
    Orchestrator where
  config := { jobMaxAttempts, job_max_attempts_pos }
  retry := {}
  ids := .counting

end Sample

end AgenticPlatform
