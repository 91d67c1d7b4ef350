import AgenticPlatform.Execute

/-!
# What a stage handler can store

One inversion lemma for each of the four handlers: which rows it read, which answer it
used, and what it hands to the completing transaction. Later proofs read these lemmas
and never unfold the handlers.
-/

namespace AgenticPlatform

namespace Db

variable {db : Db}

theorem requireRun_ok {id : RunId} {run : Run} (h : db.requireRun id = .ok run) :
    db.run? id = some run := by
  unfold requireRun at h
  split at h
  · cases h
  · rename_i found hfound
    cases h
    exact hfound

theorem requireProject_ok {run : Run} {project : Project} (h : db.requireProject run = .ok project) :
    db.project? run.projectId = some project := by
  unfold requireProject at h
  split at h
  · cases h
  · rename_i found hfound
    cases h
    exact hfound

theorem requireCandidate_ok {id : CandidateId} {candidate : Candidate}
    (h : db.requireCandidate id = .ok candidate) : db.candidate? id = some candidate := by
  unfold requireCandidate at h
  split at h
  · cases h
  · rename_i found hfound
    cases h
    exact hfound

end Db

namespace Orchestrator

variable {o : Orchestrator} {a : Answers} {job : Job} {w : World} {effect : Effect}

/-- A plan was made: the run moves to PLAN_READY and pays for it. -/
structure Planned (a : Answers) (job : Job) (w : World) (effect : Effect) (run run' : Run)
    (outcome : PlanOutcome) : Prop where
  run_row : w.db.run? job.runId = some run
  answer : a.planner = .ok outcome
  allowed : RunStateMachine.can run.status .planReady = true
  run_eq : effect.run = some run'
  status : run'.status = .planReady
  charter : run'.charter = run.charter
  repairIterations : run'.repairIterations = run.repairIterations
  tokenUsage : run'.tokenUsage = run.tokenUsage + outcome.usage
  candidate_eq : effect.candidate = none
  plan_eq : ∃ plan, effect.plan = some plan
  grows : w.issued ≤ effect.issued

theorem runPlanner_ok (h : o.runPlanner a job w = .ok effect) :
    ∃ run run' outcome, Planned a job w effect run run' outcome := by
  unfold runPlanner at h
  obtain ⟨run, hrun, h⟩ := bind_eq_ok.mp h
  obtain ⟨-, -, h⟩ := bind_eq_ok.mp h
  obtain ⟨outcome, houtcome, h⟩ := bind_eq_ok.mp h
  obtain ⟨plan, -, h⟩ := bind_eq_ok.mp h
  obtain ⟨-, -, h⟩ := bind_eq_ok.mp h
  obtain ⟨-, -, h⟩ := bind_eq_ok.mp h
  obtain ⟨ready, hready, h⟩ := bind_eq_ok.mp h
  simp only [pure_eq_ok, Except.ok.injEq] at h
  subst h
  obtain ⟨hcan, rfl⟩ := Run.transitioning_after.mp hready
  exact ⟨run, _, outcome, Db.requireRun_ok hrun, houtcome, hcan, rfl, rfl, rfl, rfl, rfl, rfl,
    ⟨plan, rfl⟩, by simp only; omega⟩

theorem namedCandidate_ok {kind : String} {id : CandidateId}
    (h : namedCandidate job kind = .ok id) : job.candidateId = some id := by
  unfold namedCandidate at h
  split at h
  · rename_i found hfound
    cases h
    exact hfound
  · cases h

/-- A patch was submitted: the candidate that was being coded is now being validated. -/
structure Coded (a : Answers) (job : Job) (w : World) (effect : Effect) (run : Run)
    (candidate changed : Candidate) (outcome : CodeOutcome) : Prop where
  run_row : w.db.run? job.runId = some run
  named : job.candidateId = some candidate.id
  candidate_row : w.db.candidate? candidate.id = some candidate
  answer : a.coder = .ok outcome
  coding : candidate.status = .coding
  run_eq : effect.run = some (run.addTokenUsage outcome.usage a.now)
  candidate_eq : effect.candidate = some changed
  id : changed.id = candidate.id
  runId : changed.runId = candidate.runId
  index : changed.index = candidate.index
  status : changed.status = .validating
  patch : changed.patch = some outcome.patch
  validation : changed.validation = candidate.validation
  reviewVerdict : changed.reviewVerdict = candidate.reviewVerdict
  repairIterations : changed.repairIterations = candidate.repairIterations
  workspaceId : changed.workspaceId = candidate.workspaceId
  plan_eq : effect.plan = none
  review_eq : effect.review = none
  issued_eq : effect.issued = w.issued

theorem runCoder_ok (h : runCoder a job w = .ok effect) :
    ∃ run candidate changed outcome, Coded a job w effect run candidate changed outcome := by
  unfold runCoder at h
  obtain ⟨candidateId, hnamed, h⟩ := bind_eq_ok.mp h
  obtain ⟨run, hrun, h⟩ := bind_eq_ok.mp h
  obtain ⟨-, -, h⟩ := bind_eq_ok.mp h
  obtain ⟨candidate, hcandidate, h⟩ := bind_eq_ok.mp h
  obtain ⟨-, -, h⟩ := bind_eq_ok.mp h
  obtain ⟨outcome, houtcome, h⟩ := bind_eq_ok.mp h
  obtain ⟨-, -, h⟩ := bind_eq_ok.mp h
  obtain ⟨submitted, hsubmitted, h⟩ := bind_eq_ok.mp h
  obtain ⟨validating, hvalidating, h⟩ := bind_eq_ok.mp h
  simp only [pure_eq_ok, Except.ok.injEq] at h
  subst h
  have hrow := Db.requireCandidate_ok hcandidate
  have hid : candidate.id = candidateId := Table.find_key hrow
  subst hid
  by_cases hcoding : candidate.status = .coding
  · simp only [Candidate.submitPatch, Candidate.recordWorker, hcoding, if_true,
      Call.after_returned, Except.ok.injEq] at hsubmitted
    subst hsubmitted
    simp only [Candidate.startValidation, true_or, if_true, Call.after_returned,
      Except.ok.injEq] at hvalidating
    subst hvalidating
    exact ⟨run, candidate, _, outcome, Db.requireRun_ok hrun, namedCandidate_ok hnamed, hrow,
      houtcome, hcoding, rfl, rfl, rfl, rfl, rfl, rfl, rfl, rfl, rfl, rfl, rfl, rfl, rfl, rfl⟩
  · simp [Candidate.submitPatch, Candidate.recordWorker, hcoding] at hsubmitted

/-- A stage ran, or was skipped: its results are appended to the candidate's report. -/
structure Validated (a : Answers) (stage : ValidationStage) (job : Job) (w : World)
    (effect : Effect) (run : Run) (project : Project) (candidate changed : Candidate)
    (results : List ToolResult) : Prop where
  run_row : w.db.run? job.runId = some run
  project_row : w.db.project? run.projectId = some project
  named : job.candidateId = some candidate.id
  candidate_row : w.db.candidate? candidate.id = some candidate
  validating : candidate.status = .validating
  results_eq : stageResults a project stage = .ok results
  run_eq : effect.run = none
  candidate_eq : effect.candidate = some changed
  changed_eq : changed = { candidate with validation := candidate.validation.extendedWith results }
  toolResults_eq : effect.toolResults = results.map fun result => ⟨job.runId, candidate.id, result⟩
  plan_eq : effect.plan = none
  review_eq : effect.review = none
  issued_eq : effect.issued = w.issued

theorem runValidationStage_ok {stage : ValidationStage}
    (h : runValidationStage a stage job w = .ok effect) :
    ∃ run project candidate changed results,
      Validated a stage job w effect run project candidate changed results := by
  unfold runValidationStage at h
  obtain ⟨candidateId, hnamed, h⟩ := bind_eq_ok.mp h
  obtain ⟨run, hrun, h⟩ := bind_eq_ok.mp h
  obtain ⟨project, hproject, h⟩ := bind_eq_ok.mp h
  obtain ⟨candidate, hcandidate, h⟩ := bind_eq_ok.mp h
  obtain ⟨-, -, h⟩ := bind_eq_ok.mp h
  obtain ⟨results, hresults, h⟩ := bind_eq_ok.mp h
  obtain ⟨-, -, h⟩ := bind_eq_ok.mp h
  obtain ⟨changed, hchanged, h⟩ := bind_eq_ok.mp h
  have hrow := Db.requireCandidate_ok hcandidate
  have hid : candidate.id = candidateId := Table.find_key hrow
  subst hid
  by_cases hvalidating : candidate.status = .validating
  · simp only [Candidate.appendValidation, hvalidating, if_true, Call.after_returned,
      Except.ok.injEq] at hchanged
    subst hchanged
    obtain ⟨-, -, h⟩ := bind_eq_ok.mp h
    simp only [pure_eq_ok, Except.ok.injEq] at h
    subst h
    refine ⟨run, project, candidate, _, results, Db.requireRun_ok hrun, Db.requireProject_ok hproject,
      namedCandidate_ok hnamed, hrow, hvalidating, hresults, rfl, rfl, ?_, rfl, rfl, rfl, rfl⟩
    simp [hvalidating]
  · simp [Candidate.appendValidation, hvalidating] at hchanged

/-- A verdict was recorded. -/
structure Reviewed (a : Answers) (job : Job) (w : World) (effect : Effect) (run : Run)
    (candidate : Candidate) (outcome : ReviewOutcome) : Prop where
  run_row : w.db.run? job.runId = some run
  named : job.candidateId = some candidate.id
  candidate_row : w.db.candidate? candidate.id = some candidate
  answer : a.reviewer = .ok outcome
  run_eq : effect.run = some (run.addTokenUsage outcome.usage a.now)
  candidate_eq : effect.candidate = some (candidate.recordReview outcome.draft.verdict)
  plan_eq : effect.plan = none
  review_eq : ∃ review, effect.review = some review ∧ review.verdict = outcome.draft.verdict
  grows : w.issued ≤ effect.issued

theorem reviewBuild_ok {id : ReviewId} {runId : RunId} {candidateId : CandidateId}
    {verdict : ReviewVerdict} {iteration : Nat} {now : Instant} {summary promptVersion : String}
    {findings : List ReviewFinding} {review : Review}
    (h : Review.build id runId candidateId verdict iteration now summary findings promptVersion =
      .ok review) : review.verdict = verdict := by
  unfold Review.build at h
  split at h
  · split at h
    · cases h
      rfl
    · cases h
  · cases h

theorem runReviewer_ok (h : o.runReviewer a job w = .ok effect) :
    ∃ run candidate outcome, Reviewed a job w effect run candidate outcome := by
  unfold runReviewer at h
  obtain ⟨candidateId, hnamed, h⟩ := bind_eq_ok.mp h
  obtain ⟨run, hrun, h⟩ := bind_eq_ok.mp h
  obtain ⟨-, -, h⟩ := bind_eq_ok.mp h
  obtain ⟨candidate, hcandidate, h⟩ := bind_eq_ok.mp h
  obtain ⟨outcome, houtcome, h⟩ := bind_eq_ok.mp h
  obtain ⟨findings, -, h⟩ := bind_eq_ok.mp h
  obtain ⟨review, hreview, h⟩ := bind_eq_ok.mp h
  obtain ⟨-, -, h⟩ := bind_eq_ok.mp h
  obtain ⟨-, -, h⟩ := bind_eq_ok.mp h
  simp only [pure_eq_ok, Except.ok.injEq] at h
  subst h
  have hrow := Db.requireCandidate_ok hcandidate
  have hid : candidate.id = candidateId := Table.find_key hrow
  subst hid
  exact ⟨run, candidate, outcome, Db.requireRun_ok hrun, namedCandidate_ok hnamed, hrow, houtcome,
    rfl, rfl, rfl, ⟨review, rfl, reviewBuild_ok hreview⟩, by simp only; omega⟩

/-- **The four stages.** A job that reached `complete` is a plan, a patch, a validation
    stage or a review. -/
theorem stageEffect_ok (h : o.stageEffect a job w = .ok effect) :
    (job.type = .plan ∧ ∃ run run' outcome, Planned a job w effect run run' outcome) ∨
    (job.type = .code ∧
      ∃ run candidate changed outcome, Coded a job w effect run candidate changed outcome) ∨
    (∃ stage, job.type = stage.jobType ∧ ∃ run project candidate changed results,
      Validated a stage job w effect run project candidate changed results) ∨
    (job.type = .review ∧
      ∃ run candidate outcome, Reviewed a job w effect run candidate outcome) := by
  unfold stageEffect at h
  split at h
  · rename_i htype
    exact .inl ⟨htype, runPlanner_ok h⟩
  · rename_i htype
    exact .inr (.inl ⟨htype, runCoder_ok h⟩)
  · rename_i htype
    exact .inr (.inr (.inr ⟨htype, runReviewer_ok h⟩))
  · rename_i htype
    exact .inr (.inr (.inl ⟨.build, htype, runValidationStage_ok h⟩))
  · rename_i htype
    exact .inr (.inr (.inl ⟨.test, htype, runValidationStage_ok h⟩))
  · rename_i htype
    exact .inr (.inr (.inl ⟨.staticAnalysis, htype, runValidationStage_ok h⟩))
  · cases h
  · cases h

/-! ### The completing transaction -/

/-- The job row a completing transaction stores. -/
theorem job?_complete {db : Db} {done old : Job} (effect : Effect)
    (h : db.job? done.id = some old) : (db.complete effect done).job? done.id = some done.stored := by
  have hset := Db.job?_setJob h done.id
  rw [if_pos rfl] at hset
  unfold Db.complete
  cases effect.run with
  | none => cases effect.candidate <;> exact hset
  | some run => cases effect.candidate <;> exact hset

/-- The tables of runs and jobs once a stage was stored. -/
theorem run?_complete (db : Db) (effect : Effect) (done : Job) (runId : RunId) :
    (db.complete effect done).run? runId = (db.withRun effect.run).run? runId := by
  unfold Db.complete
  cases effect.run <;> cases effect.candidate <;> rfl

theorem job?_complete_other {db : Db} {done : Job} (effect : Effect) {id : JobId}
    (hid : id ≠ done.id) : (db.complete effect done).job? id = db.job? id := by
  have hset : (db.setJob done).job? id = db.job? id := Table.find_put_ne db.jobs done.stored hid
  unfold Db.complete
  cases effect.run <;> cases effect.candidate <;> exact hset

/-- The tables a completing transaction writes, and one it does not. -/
theorem jobs_complete (db : Db) (effect : Effect) (done : Job) :
    (db.complete effect done).jobs = Table.put Job.id db.jobs done.stored := by
  unfold Db.complete
  cases effect.run <;> cases effect.candidate <;> rfl

theorem candidates_complete (db : Db) (effect : Effect) (done : Job) :
    (db.complete effect done).candidates =
      match effect.candidate with
      | some changed => Table.put Candidate.id db.candidates changed.stored
      | none => db.candidates := by
  unfold Db.complete
  cases effect.run <;> cases effect.candidate <;> rfl

theorem projects_complete (db : Db) (effect : Effect) (done : Job) :
    (db.complete effect done).projects = db.projects := by
  unfold Db.complete
  cases effect.run <;> cases effect.candidate <;> rfl

end Orchestrator

end AgenticPlatform
