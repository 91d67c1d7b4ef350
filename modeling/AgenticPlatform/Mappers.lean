import AgenticPlatform.CandidateEvidence
import AgenticPlatform.JobDiscipline
import AgenticPlatform.JsonValues
import AgenticPlatform.RunDiscipline

/-!
# Rows of runs, jobs, workers and candidates

A row is inserted for one state of an entity and updated for its later states.
`apply_*` leaves the columns alone that never change; the rest it writes in full, so the
row always loads the state that was applied last. Loading goes through the constructors
of the entities and of their parts.
-/

namespace AgenticPlatform

/-- A row as it was inserted for one state and updated for others. -/
def savedRow {E R : Type} (insert : E → R) (update : R → E → R) (first : E) (later : List E) : R :=
  later.foldl update (insert first)

/-- What an update leaves alone is as it was inserted. -/
theorem savedRow_keeps {E R β : Type} (insert : E → R) (update : R → E → R) (column : R → β)
    (h : ∀ row state, column (update row state) = column row) (first : E) (later : List E) :
    column (savedRow insert update first later) = column (insert first) := by
  have hfold : ∀ row, column (later.foldl update row) = column row := by
    induction later with
    | nil => exact fun _ => rfl
    | cons state rest ih => exact fun row => (ih _).trans (h row state)
  exact hfold (insert first)

/-! ### Parts with a constructor of their own -/

/-- `RunLimits(...)`: the checks of its constructor that `readNat` did not make. -/
def RunLimits.build (maxPlanRevisions maxCoderIterations maxRepairIterations maxWorkerRetries
    maxParallelCandidates : Nat) : Except PyError RunLimits :=
  if hcandidates : 1 ≤ maxParallelCandidates then
    if hretries : 1 ≤ maxWorkerRetries then
      .ok ⟨maxPlanRevisions, maxCoderIterations, maxRepairIterations, maxWorkerRetries,
        maxParallelCandidates, hcandidates, hretries⟩
    else .error (.valueError "max_worker_retries must be at least 1")
  else .error (.valueError "max_parallel_candidates must be at least 1")

/-- What the constructor of `IdempotencyKey` asks for. -/
def isIdempotencyKey (text : String) : Bool := !isBlank text && decide (text.length ≤ 255)

/-- `IdempotencyKey(text) if text else None`. -/
def loadIdempotencyKey (text : Option String) : Except PyError (Option String) :=
  match text with
  | none => .ok none
  | some text =>
      if text = "" then .ok none
      else if isBlank text then .error (.valueError "idempotency key must not be blank")
      else if 255 < text.length then
        .error (.valueError "idempotency key must be at most 255 characters")
      else .ok (some text)

theorem loadIdempotencyKey_eq {text : Option String}
    (h : ∀ key ∈ text, isIdempotencyKey key = true) : loadIdempotencyKey text = .ok text := by
  cases text with
  | none => rfl
  | some key =>
    have hkey := h key rfl
    unfold isIdempotencyKey at hkey
    rw [Bool.and_eq_true, Bool.not_eq_true', decide_eq_true_eq] at hkey
    unfold loadIdempotencyKey
    by_cases hempty : key = ""
    · subst hempty
      simp [isBlank] at hkey
    · simp only [if_neg hempty, hkey.1, Bool.false_eq_true, if_false]
      rw [if_neg (Nat.not_lt.mpr hkey.2)]

def LeaseToken.build (text : String) : Except PyError LeaseToken :=
  if h : text = "" then .error (.valueError "lease token must not be empty") else .ok ⟨text, h⟩

/-! ### Runs -/

structure RunModel where
  id : Nat
  projectId : Nat
  objective : String
  status : String
  candidateCount : Nat
  limits : Mapping := []
  planId : Option Nat := none
  planRevisions : Nat := 0
  repairIterations : Nat := 0
  reviewIterations : Nat := 0
  selectedCandidateId : Option Nat := none
  inputTokens : Nat := 0
  outputTokens : Nat := 0
  idempotencyKey : Option String := none
  metadata : Mapping := []
  createdAt : Instant
  startedAt : Option Instant := none
  completedAt : Option Instant := none
  updatedAt : Instant
  failureKind : Option String := none
  failureReason : Option String := none

/-- `_dump_limits`. -/
def dumpLimits (limits : RunLimits) : Mapping :=
  [("max_plan_revisions", .int limits.maxPlanRevisions),
    ("max_coder_iterations", .int limits.maxCoderIterations),
    ("max_repair_iterations", .int limits.maxRepairIterations),
    ("max_worker_retries", .int limits.maxWorkerRetries),
    ("max_parallel_candidates", .int limits.maxParallelCandidates)]

/-- `_load_limits`. -/
def loadLimits (raw : Mapping) : Except PyError RunLimits := do
  let defaults : RunLimits := {}
  let read := fun key (default : Nat) => (Mapping.get raw key (.int default)).readNat key
  let maxPlanRevisions ← read "max_plan_revisions" defaults.maxPlanRevisions
  let maxCoderIterations ← read "max_coder_iterations" defaults.maxCoderIterations
  let maxRepairIterations ← read "max_repair_iterations" defaults.maxRepairIterations
  let maxWorkerRetries ← read "max_worker_retries" defaults.maxWorkerRetries
  let maxParallelCandidates ← read "max_parallel_candidates" defaults.maxParallelCandidates
  RunLimits.build maxPlanRevisions maxCoderIterations maxRepairIterations maxWorkerRetries
    maxParallelCandidates

@[simp] theorem loadLimits_dumpLimits (limits : RunLimits) :
    loadLimits (dumpLimits limits) = .ok limits := by
  simp [loadLimits, dumpLimits, Mapping.get, List.lookup_cons, RunLimits.build,
    limits.max_parallel_candidates_pos, limits.max_worker_retries_pos]

/-- `apply_run`. -/
def applyRun (model : RunModel) (run : Run) : RunModel :=
  { model with
    status := run.status.value
    candidateCount := run.candidateCount
    limits := dumpLimits run.limits
    planId := run.planId.map EntityId.value
    planRevisions := run.planRevisions
    repairIterations := run.repairIterations
    reviewIterations := run.reviewIterations
    selectedCandidateId := run.selectedCandidateId.map EntityId.value
    inputTokens := run.tokenUsage.inputTokens
    outputTokens := run.tokenUsage.outputTokens
    idempotencyKey := run.idempotencyKey
    metadata := run.metadata
    startedAt := run.startedAt
    completedAt := run.completedAt
    updatedAt := run.updatedAt
    failureKind := run.failureKind.map FailureKind.value
    failureReason := run.failureReason }

def runToModel (run : Run) : RunModel :=
  applyRun
    { id := run.id.value
      projectId := run.projectId.value
      objective := run.objective
      candidateCount := run.candidateCount
      createdAt := run.createdAt
      status := run.status.value
      updatedAt := run.updatedAt }
    run

/-- `run_to_domain`, with the checks of the constructor of `Run`. -/
def runToDomain (model : RunModel) : Except PyError Run := do
  let limits ← loadLimits model.limits
  let status ← StrEnum.parse RunStatus model.status
  let idempotencyKey ← loadIdempotencyKey model.idempotencyKey
  let failureKind ← StrEnum.parseOptional FailureKind model.failureKind
  if hobjective : isBlank (strip model.objective) = false then
    if hcount : 1 ≤ model.candidateCount then
      if hlimit : model.candidateCount ≤ limits.maxParallelCandidates then
        return {
          id := ⟨model.id⟩
          projectId := ⟨model.projectId⟩
          objective := strip model.objective
          createdAt := model.createdAt
          candidateCount := model.candidateCount
          limits
          status
          planId := model.planId.map EntityId.mk
          planRevisions := model.planRevisions
          repairIterations := model.repairIterations
          reviewIterations := model.reviewIterations
          selectedCandidateId := model.selectedCandidateId.map EntityId.mk
          tokenUsage := ⟨model.inputTokens, model.outputTokens⟩
          idempotencyKey
          metadata := model.metadata
          startedAt := model.startedAt
          completedAt := model.completedAt
          updatedAt := model.updatedAt
          failureKind
          failureReason := model.failureReason
          events := []
          objective_nonblank := hobjective
          candidate_count_pos := hcount
          candidate_count_le := hlimit }
      else .error (.valueError ("candidate_count " ++ toString model.candidateCount ++
        " exceeds the configured maximum " ++ toString limits.maxParallelCandidates))
    else .error (.valueError "candidate_count must be at least 1")
  else .error (.valueError "a run needs a non-empty objective")

/-- What the constructors of a run and of its key guarantee besides the proof fields. -/
structure Run.Constructed (run : Run) : Prop where
  objective_stripped : strip run.objective = run.objective
  key_valid : ∀ key ∈ run.idempotencyKey, isIdempotencyKey key = true

/-- No method touches what the constructors checked. -/
theorem Run.Constructed.step {run : Run} (h : run.Constructed) (op : RunOp) :
    (run.step op).Constructed := by
  have hcharter := Run.step_charter run op
  constructor
  · rw [show (run.step op).objective = run.objective from congrArg Run.Charter.objective hcharter]
    exact h.objective_stripped
  · rw [show (run.step op).idempotencyKey = run.idempotencyKey from
      congrArg Run.Charter.idempotencyKey hcharter]
    exact h.key_valid

/-- The columns of a run's row that are never updated. -/
theorem savedRun_charter (first : Run) (later : List Run) :
    (savedRow runToModel applyRun first later).id = first.id.value ∧
      (savedRow runToModel applyRun first later).projectId = first.projectId.value ∧
      (savedRow runToModel applyRun first later).objective = first.objective ∧
      (savedRow runToModel applyRun first later).createdAt = first.createdAt := by
  refine ⟨?_, ?_, ?_, ?_⟩
  · exact savedRow_keeps runToModel applyRun RunModel.id (fun _ _ => rfl) first later
  · exact savedRow_keeps runToModel applyRun RunModel.projectId (fun _ _ => rfl) first later
  · exact savedRow_keeps runToModel applyRun RunModel.objective (fun _ _ => rfl) first later
  · exact savedRow_keeps runToModel applyRun RunModel.createdAt (fun _ _ => rfl) first later

/-- **The row of a run loads the state that was applied last**, but for its events. -/
theorem runToDomain_applyRun {first run : Run} (later : List Run)
    (hsame : first.charter = run.charter) (hrun : run.Constructed) :
    runToDomain (applyRun (savedRow runToModel applyRun first later) run) =
      .ok { run with events := [] } := by
  obtain ⟨hid, hproject, hobjective, hcreated⟩ := savedRun_charter first later
  rw [Run.id_of_charter hsame] at hid
  rw [Run.projectId_of_charter hsame] at hproject
  rw [show first.objective = run.objective from congrArg Run.Charter.objective hsame] at hobjective
  rw [show first.createdAt = run.createdAt from congrArg Run.Charter.createdAt hsame] at hcreated
  have hstatus : StrEnum.parse RunStatus run.status.value = .ok run.status :=
    StrEnum.parse_value run.status
  have hfailure : StrEnum.parseOptional FailureKind (run.failureKind.map FailureKind.value) =
      .ok run.failureKind := StrEnum.parseOptional_value run.failureKind
  have hkey := loadIdempotencyKey_eq hrun.key_valid
  generalize savedRow runToModel applyRun first later = row at hid hproject hobjective hcreated
  simp only [runToDomain, applyRun, loadLimits_dumpLimits, hstatus, hkey, hfailure, ok_bind, hid,
    hproject, hobjective, hcreated, hrun.objective_stripped, run.objective_nonblank,
    run.candidate_count_pos, run.candidate_count_le, dif_pos, EntityId.map_mk_value]
  rfl

/-! ### Jobs -/

structure JobModel where
  id : Nat
  runId : Nat
  projectId : Nat
  type : String
  role : Option String := none
  candidateId : Option Nat := none
  priority : String
  status : String
  attempt : Nat := 0
  maxAttempts : Nat := 3
  payload : Mapping := []
  requirements : Option Mapping := none
  idempotencyKey : Option String := none
  leaseToken : Option String := none
  leaseHolderId : Option Nat := none
  leaseAcquiredAt : Option Instant := none
  leaseExpiresAt : Option Instant := none
  assignedWorkerId : Option Nat := none
  createdAt : Instant
  startedAt : Option Instant := none
  completedAt : Option Instant := none
  result : Option Mapping := none
  failureKind : Option String := none
  failureReason : Option String := none

/-- `_dump_requirements`. -/
def dumpRequirements (requirements : Option JobRequirements) : Option Mapping :=
  requirements.map fun requirements =>
    [("role", .str requirements.role.value),
      ("model_id", .ofText requirements.modelId),
      ("estimated_prompt_tokens", .int requirements.estimatedPromptTokens),
      ("requires_tools", .bool requirements.requiresTools),
      ("requires_json_schema", .bool requirements.requiresJsonSchema)]

/-- `_load_requirements`. -/
def loadRequirements (raw : Option Mapping) : Except PyError (Option JobRequirements) :=
  match raw with
  | none => .ok none
  | some [] => .ok none
  | some raw => do
      let role ← (← Mapping.require raw "role").readText
      let role ← StrEnum.parse AgentRole role
      let modelId ← (Mapping.get raw "model_id" .none).readOptional PyValue.readText
      let estimatedPromptTokens ←
        (Mapping.get raw "estimated_prompt_tokens" (.int 0)).readNat "estimated_prompt_tokens"
      let requiresTools ← (Mapping.get raw "requires_tools" (.bool false)).readBool
      let requiresJsonSchema ← (Mapping.get raw "requires_json_schema" (.bool true)).readBool
      return some { role, modelId, estimatedPromptTokens, requiresTools, requiresJsonSchema }

@[simp] theorem loadRequirements_dumpRequirements (requirements : Option JobRequirements) :
    loadRequirements (dumpRequirements requirements) = .ok requirements := by
  cases requirements with
  | none => rfl
  | some requirements =>
    have hrole : StrEnum.parse AgentRole requirements.role.value = .ok requirements.role :=
      StrEnum.parse_value requirements.role
    simp [loadRequirements, dumpRequirements, Mapping.require, Mapping.get, List.lookup_cons, hrole]

/-- `apply_job`; the lease is flattened into columns. -/
def applyJob (model : JobModel) (job : Job) : JobModel :=
  { model with
    role := job.role.map AgentRole.value
    candidateId := job.candidateId.map EntityId.value
    priority := job.priority.value
    status := job.status.value
    attempt := job.attempt
    maxAttempts := job.maxAttempts
    payload := job.payload
    requirements := dumpRequirements job.requirements
    idempotencyKey := job.idempotencyKey
    leaseToken := job.lease.map fun lease => lease.token.value
    leaseHolderId := job.lease.map fun lease => lease.holder.value
    leaseAcquiredAt := job.lease.map Lease.acquiredAt
    leaseExpiresAt := job.lease.map Lease.expiresAt
    assignedWorkerId := job.assignedWorkerId.map EntityId.value
    startedAt := job.startedAt
    completedAt := job.completedAt
    result := job.result
    failureKind := job.failureKind.map FailureKind.value
    failureReason := job.failureReason }

def jobToModel (job : Job) : JobModel :=
  applyJob
    { id := job.id.value
      runId := job.runId.value
      projectId := job.projectId.value
      type := job.type.value
      priority := job.priority.value
      status := job.status.value
      createdAt := job.createdAt }
    job

/-- `_load_lease`: a lease is there when all of its columns are. -/
def loadLease (model : JobModel) : Except PyError (Option Lease) :=
  match model.leaseToken, model.leaseHolderId, model.leaseAcquiredAt, model.leaseExpiresAt with
  | some token, some holder, some acquiredAt, some expiresAt => do
      let token ← LeaseToken.build token
      (Lease.build ⟨model.id⟩ ⟨holder⟩ token acquiredAt expiresAt).map some
  | _, _, _, _ => .ok none

/-- `job_to_domain`, with the checks of the constructor of `Job`. -/
def jobToDomain (model : JobModel) : Except PyError Job := do
  let type ← StrEnum.parse JobType model.type
  let role ← StrEnum.parseOptional AgentRole model.role
  let priority ← StrEnum.parse Priority model.priority
  let status ← StrEnum.parse JobStatus model.status
  let requirements ← loadRequirements model.requirements
  let idempotencyKey ← loadIdempotencyKey model.idempotencyKey
  let lease ← loadLease model
  let failureKind ← StrEnum.parseOptional FailureKind model.failureKind
  if hrole : type.requiresInference = true → role ≠ none then
    if hmax : 1 ≤ model.maxAttempts then
      return {
        id := ⟨model.id⟩
        runId := ⟨model.runId⟩
        projectId := ⟨model.projectId⟩
        type
        createdAt := model.createdAt
        role
        candidateId := model.candidateId.map EntityId.mk
        priority
        status
        attempt := model.attempt
        maxAttempts := model.maxAttempts
        payload := model.payload
        requirements
        idempotencyKey
        lease
        assignedWorkerId := model.assignedWorkerId.map EntityId.mk
        startedAt := model.startedAt
        completedAt := model.completedAt
        result := model.result
        failureKind
        failureReason := model.failureReason
        events := []
        role_given := hrole
        max_attempts_pos := hmax }
    else .error (.valueError "max_attempts must be at least 1")
  else .error (.valueError (type.value ++ " is an inference job and requires an agent role"))

/-- What holds of a job besides the proof fields: its key was checked, and a lease on it is
    its own. -/
structure Job.Constructed (job : Job) : Prop where
  key_valid : ∀ key ∈ job.idempotencyKey, isIdempotencyKey key = true
  owns_lease : job.OwnsLease

/-- The columns of a job's row that are never updated. -/
theorem savedJob_work (first : Job) (later : List Job) :
    (savedRow jobToModel applyJob first later).id = first.id.value ∧
      (savedRow jobToModel applyJob first later).runId = first.runId.value ∧
      (savedRow jobToModel applyJob first later).projectId = first.projectId.value ∧
      (savedRow jobToModel applyJob first later).type = first.type.value ∧
      (savedRow jobToModel applyJob first later).createdAt = first.createdAt := by
  refine ⟨?_, ?_, ?_, ?_, ?_⟩
  · exact savedRow_keeps jobToModel applyJob JobModel.id (fun _ _ => rfl) first later
  · exact savedRow_keeps jobToModel applyJob JobModel.runId (fun _ _ => rfl) first later
  · exact savedRow_keeps jobToModel applyJob JobModel.projectId (fun _ _ => rfl) first later
  · exact savedRow_keeps jobToModel applyJob JobModel.type (fun _ _ => rfl) first later
  · exact savedRow_keeps jobToModel applyJob JobModel.createdAt (fun _ _ => rfl) first later

theorem LeaseToken.build_value (token : LeaseToken) : LeaseToken.build token.value = .ok token :=
  dif_neg token.nonempty

/-- The flattened lease is put together again. -/
theorem loadLease_applyJob {row : JobModel} {job : Job} (hid : row.id = job.id.value)
    (hown : job.OwnsLease) :
    loadLease (applyJob row job) = .ok job.lease := by
  unfold loadLease applyJob
  cases hlease : job.lease with
  | none => rfl
  | some lease =>
    have hjob : (⟨row.id⟩ : JobId) = lease.jobId := by
      rw [hid, hown lease hlease]
    simp only [Option.map_some, LeaseToken.build_value, ok_bind, hjob]
    rw [Lease.build, dif_pos lease.ends_after_acquired]
    rfl

/-- **The row of a job loads the state that was applied last**, but for its events. -/
theorem jobToDomain_applyJob {first job : Job} (later : List Job) (hsame : first.work = job.work)
    (hjob : job.Constructed) :
    jobToDomain (applyJob (savedRow jobToModel applyJob first later) job) =
      .ok { job with events := [] } := by
  obtain ⟨hid, hrun, hproject, htype, hcreated⟩ := savedJob_work first later
  rw [Job.id_of_work hsame] at hid
  rw [Job.runId_of_work hsame] at hrun
  rw [show first.projectId = job.projectId from congrArg Job.Work.projectId hsame] at hproject
  rw [Job.type_of_work hsame] at htype
  rw [show first.createdAt = job.createdAt from congrArg Job.Work.createdAt hsame] at hcreated
  have hparsed : StrEnum.parse JobType job.type.value = .ok job.type := StrEnum.parse_value job.type
  have hrole : StrEnum.parseOptional AgentRole (job.role.map AgentRole.value) = .ok job.role :=
    StrEnum.parseOptional_value job.role
  have hpriority : StrEnum.parse Priority job.priority.value = .ok job.priority :=
    StrEnum.parse_value job.priority
  have hstatus : StrEnum.parse JobStatus job.status.value = .ok job.status :=
    StrEnum.parse_value job.status
  have hfailure : StrEnum.parseOptional FailureKind (job.failureKind.map FailureKind.value) =
      .ok job.failureKind := StrEnum.parseOptional_value job.failureKind
  have hlease := loadLease_applyJob hid hjob.owns_lease
  have hkey := loadIdempotencyKey_eq hjob.key_valid
  generalize savedRow jobToModel applyJob first later = row at hid hrun hproject htype hcreated hlease
  simp only [jobToDomain, hlease, ok_bind]
  simp only [applyJob, htype, hparsed, hrole, hpriority, hstatus, hkey, hfailure, ok_bind, hid, hrun,
    hproject, hcreated, loadRequirements_dumpRequirements, EntityId.map_mk_value]
  rw [dif_pos job.role_given, dif_pos job.max_attempts_pos]
  rfl

/-! ### Workers -/

structure WorkerModel where
  id : Nat
  endpoint : String
  status : String
  capabilities : Mapping := []
  activeJobs : Nat := 0
  queuedJobs : Nat := 0
  registeredAt : Instant
  lastHeartbeatAt : Instant
  metadata : Mapping := []

/-- The `"gpu"` object of the capabilities. -/
def dumpGpu (gpu : GpuSpec) : Mapping :=
  [("gpu_type", .ofText gpu.gpuType),
    ("gpu_count", .int gpu.gpuCount),
    ("memory_gb", .ofFloat gpu.memoryGb),
    ("tensor_parallel_size", .int gpu.tensorParallelSize)]

def loadGpu (raw : Mapping) : Except PyError GpuSpec := do
  let gpuType ← (Mapping.get raw "gpu_type" .none).readOptional PyValue.readText
  let gpuCount ← (Mapping.get raw "gpu_count" (.int 1)).readNat "gpu_count"
  let memoryGb ← (Mapping.get raw "memory_gb" .none).readOptional PyValue.readFloat
  let tensorParallelSize ←
    (Mapping.get raw "tensor_parallel_size" (.int 1)).readNat "tensor_parallel_size"
  if h : 1 ≤ tensorParallelSize then
    return { gpuType, gpuCount, memoryGb, tensorParallelSize, parallel_pos := h }
  else .error (.valueError "tensor_parallel_size must be at least 1")

@[simp] theorem loadGpu_dumpGpu (gpu : GpuSpec) : loadGpu (dumpGpu gpu) = .ok gpu := by
  simp [loadGpu, dumpGpu, Mapping.get, List.lookup_cons, gpu.parallel_pos]

/-- `WorkerCapabilities(...)`. -/
def WorkerCapabilities.build (modelId : String) (contextLength maxConcurrency : Nat)
    (supportedRoles : Finset AgentRole) (gpu : GpuSpec) (supportsTools supportsJsonSchema : Bool)
    (metadata : Mapping) : Except PyError WorkerCapabilities :=
  if hmodel : modelId = "" then .error (.valueError "model_id must not be empty")
  else if hcontext : 0 < contextLength then
    if hconcurrency : 1 ≤ maxConcurrency then
      if hroles : supportedRoles = ∅ then
        .error (.valueError "a worker must support at least one role")
      else .ok {
        modelId, contextLength, maxConcurrency, supportedRoles, gpu, supportsTools
        supportsJsonSchema, metadata, model_given := hmodel, context_pos := hcontext
        concurrency_pos := hconcurrency, roles_given := hroles }
    else .error (.valueError "max_concurrency must be at least 1")
  else .error (.valueError "context_length must be positive")

theorem WorkerCapabilities.build_self (capabilities : WorkerCapabilities) (metadata : Mapping) :
    build capabilities.modelId capabilities.contextLength capabilities.maxConcurrency
      capabilities.supportedRoles capabilities.gpu capabilities.supportsTools
      capabilities.supportsJsonSchema metadata = .ok { capabilities with metadata } := by
  unfold build
  rw [dif_neg capabilities.model_given, dif_pos capabilities.context_pos,
    dif_pos capabilities.concurrency_pos, dif_neg capabilities.roles_given]

/-- `_dump_capabilities`. -/
def dumpCapabilities (capabilities : WorkerCapabilities) : Mapping :=
  [("model_id", .str capabilities.modelId),
    ("context_length", .int capabilities.contextLength),
    ("max_concurrency", .int capabilities.maxConcurrency),
    ("supported_roles", .ofTexts (roleTexts capabilities.supportedRoles)),
    ("gpu", .dict (dumpGpu capabilities.gpu)),
    ("supports_tools", .bool capabilities.supportsTools),
    ("supports_json_schema", .bool capabilities.supportsJsonSchema),
    ("metadata", .dict capabilities.metadata)]

/-- `_load_capabilities`. -/
def loadCapabilities (raw : Mapping) : Except PyError WorkerCapabilities := do
  let rawGpu ← (Mapping.get raw "gpu" .none).orEmpty.readDict
  let modelId ← (← Mapping.require raw "model_id").readText
  let contextLength ← (← Mapping.require raw "context_length").readNat "context_length"
  let maxConcurrency ← (Mapping.get raw "max_concurrency" (.int 1)).readNat "max_concurrency"
  let supportedRoles ← readRoles (Mapping.get raw "supported_roles" (.list []))
  let gpu ← loadGpu rawGpu
  let supportsTools ← (Mapping.get raw "supports_tools" (.bool true)).readBool
  let supportsJsonSchema ← (Mapping.get raw "supports_json_schema" (.bool true)).readBool
  let metadata ← (Mapping.get raw "metadata" .none).orEmpty.readDict
  WorkerCapabilities.build modelId contextLength maxConcurrency supportedRoles gpu supportsTools
    supportsJsonSchema metadata

@[simp] theorem loadCapabilities_dumpCapabilities (capabilities : WorkerCapabilities) :
    loadCapabilities (dumpCapabilities capabilities) = .ok capabilities := by
  have hbuild := capabilities.build_self capabilities.metadata
  simp [loadCapabilities, dumpCapabilities, Mapping.get, Mapping.require, List.lookup_cons, hbuild]

/-- What the constructor of `WorkerEndpoint` asks for. -/
def isHttpUrl (url : String) : Bool :=
  "http://".toList.isPrefixOf url.toList || "https://".toList.isPrefixOf url.toList

/-- `WorkerEndpoint(url)`. -/
def loadEndpoint (url : String) : Except PyError String :=
  if isHttpUrl url then .ok url
  else .error (.valueError ("worker endpoint must be an http(s) URL, got " ++ quoted url))

/-- `apply_worker`. -/
def applyWorker (model : WorkerModel) (worker : Worker) : WorkerModel :=
  { model with
    endpoint := worker.endpoint
    status := worker.status.value
    capabilities := dumpCapabilities worker.capabilities
    activeJobs := worker.load.activeJobs
    queuedJobs := worker.load.queuedJobs
    lastHeartbeatAt := worker.lastHeartbeatAt
    metadata := worker.metadata }

def workerToModel (worker : Worker) : WorkerModel :=
  applyWorker
    { id := worker.id.value
      endpoint := worker.endpoint
      status := worker.status.value
      registeredAt := worker.registeredAt
      lastHeartbeatAt := worker.lastHeartbeatAt }
    worker

def workerToDomain (model : WorkerModel) : Except PyError Worker := do
  let endpoint ← loadEndpoint model.endpoint
  let capabilities ← loadCapabilities model.capabilities
  let status ← StrEnum.parse WorkerStatus model.status
  return {
    id := ⟨model.id⟩
    endpoint
    capabilities
    registeredAt := model.registeredAt
    status
    load := ⟨model.activeJobs, model.queuedJobs⟩
    lastHeartbeatAt := model.lastHeartbeatAt
    metadata := model.metadata
    events := [] }

/-- What is fixed when a worker registers. -/
def Worker.origin (worker : Worker) : WorkerId × Instant := (worker.id, worker.registeredAt)

section WorkerMethods

variable (worker : Worker) (now : Instant)

@[simp] theorem Worker.transition_origin (target : WorkerStatus) :
    (worker.transition target now).origin = worker.origin := by
  unfold transition
  split <;> rfl

@[simp] theorem Worker.syncBusy_origin : worker.syncBusy.origin = worker.origin := by
  unfold syncBusy
  split <;> rfl

end WorkerMethods

/-- The columns of a worker's row that are never updated. -/
theorem savedWorker_origin (first : Worker) (later : List Worker) :
    (savedRow workerToModel applyWorker first later).id = first.id.value ∧
      (savedRow workerToModel applyWorker first later).registeredAt = first.registeredAt := by
  constructor
  · exact savedRow_keeps workerToModel applyWorker WorkerModel.id (fun _ _ => rfl) first later
  · exact savedRow_keeps workerToModel applyWorker WorkerModel.registeredAt (fun _ _ => rfl) first later

/-- **The row of a worker loads the state that was applied last**, but for its events. -/
theorem workerToDomain_applyWorker {first worker : Worker} (later : List Worker)
    (hsame : first.origin = worker.origin) (hendpoint : isHttpUrl worker.endpoint = true) :
    workerToDomain (applyWorker (savedRow workerToModel applyWorker first later) worker) =
      .ok { worker with events := [] } := by
  obtain ⟨hid, hregistered⟩ := savedWorker_origin first later
  rw [show first.id = worker.id from congrArg Prod.fst hsame] at hid
  rw [show first.registeredAt = worker.registeredAt from congrArg Prod.snd hsame] at hregistered
  have hstatus : StrEnum.parse WorkerStatus worker.status.value = .ok worker.status :=
    StrEnum.parse_value worker.status
  generalize savedRow workerToModel applyWorker first later = row at hid hregistered
  simp only [workerToDomain, applyWorker, loadEndpoint, if_pos hendpoint, hstatus, ok_bind, hid,
    hregistered, loadCapabilities_dumpCapabilities]
  rfl

/-! ### Candidates -/

structure CandidateModel where
  id : Nat
  runId : Nat
  candidateIndex : Nat
  workspaceId : Option Nat := none
  status : String
  patch : Option Mapping := none
  validation : Mapping := []
  summary : String := ""
  uncertainties : List String := []
  coderIterations : Nat := 0
  repairIterations : Nat := 0
  workerId : Option Nat := none
  lastJobId : Option Nat := none
  reviewVerdict : Option String := none
  createdAt : Instant
  startedAt : Option Instant := none
  completedAt : Option Instant := none
  failureKind : Option String := none
  failureReason : Option String := none

def dumpFileChange (change : FileChange) : PyValue :=
  .dict [("path", .str change.path), ("added_lines", .int change.addedLines),
    ("removed_lines", .int change.removedLines)]

def loadFileChange (value : PyValue) : Except PyError FileChange := do
  let raw ← value.readDict
  let path ← (← Mapping.require raw "path").readText
  let addedLines ← (Mapping.get raw "added_lines" (.int 0)).readNat "added_lines"
  let removedLines ← (Mapping.get raw "removed_lines" (.int 0)).readNat "removed_lines"
  return { path, addedLines, removedLines }

@[simp] theorem loadFileChange_dumpFileChange (change : FileChange) :
    loadFileChange (dumpFileChange change) = .ok change := by
  simp [loadFileChange, dumpFileChange, Mapping.require, Mapping.get, List.lookup_cons]

/-- `_dump_patch`. -/
def dumpPatch (patch : Option Patch) : Option Mapping :=
  patch.map fun patch =>
    [("diff", .str patch.diff), ("base_revision", .ofText patch.baseRevision),
      ("files", .list (patch.files.map dumpFileChange))]

/-- `_load_patch`. -/
def loadPatch (raw : Option Mapping) : Except PyError (Option Patch) :=
  match raw with
  | none => .ok none
  | some raw => do
      let diff ← (Mapping.get raw "diff" (.str "")).readText
      let baseRevision ← (Mapping.get raw "base_revision" .none).readOptional PyValue.readText
      let files ← (Mapping.get raw "files" (.list [])).readList loadFileChange
      return some { diff, baseRevision, files }

@[simp] theorem loadPatch_dumpPatch (patch : Option Patch) :
    loadPatch (dumpPatch patch) = .ok patch := by
  cases patch with
  | none => rfl
  | some patch =>
    have hfiles : PyValue.readList loadFileChange (.list (patch.files.map dumpFileChange)) =
        .ok patch.files := PyValue.readList_map fun change _ => loadFileChange_dumpFileChange change
    simp [loadPatch, dumpPatch, Mapping.get, List.lookup_cons, hfiles]

/-- `_dump_tool_result`. -/
def dumpToolResult (result : ToolResult) : PyValue :=
  .dict [("tool", .str result.tool), ("kind", .str result.kind.value),
    ("command", .str result.command), ("exit_code", .int result.exitCode),
    ("stdout", .str result.stdout), ("stderr", .str result.stderr),
    ("duration_ms", .int result.durationMs), ("truncated", .bool result.truncated),
    ("artifacts", .ofTexts result.artifacts), ("metadata", .dict result.metadata)]

/-- `_load_tool_result`. -/
def loadToolResult (value : PyValue) : Except PyError ToolResult := do
  let raw ← value.readDict
  let tool ← (← Mapping.require raw "tool").readText
  let kind ← (← Mapping.require raw "kind").readText
  let kind ← StrEnum.parse ToolKind kind
  let command ← (Mapping.get raw "command" (.str "")).readText
  let exitCode ← (Mapping.get raw "exit_code" (.int 0)).readInt
  let stdout ← (Mapping.get raw "stdout" (.str "")).readText
  let stderr ← (Mapping.get raw "stderr" (.str "")).readText
  let durationMs ← (Mapping.get raw "duration_ms" (.int 0)).readInt
  let truncated ← (Mapping.get raw "truncated" (.bool false)).readBool
  let artifacts ← (Mapping.get raw "artifacts" (.list [])).readList PyValue.readText
  let metadata ← (Mapping.get raw "metadata" .none).orEmpty.readDict
  return { tool, kind, command, exitCode, stdout, stderr, durationMs, truncated, artifacts, metadata }

@[simp] theorem loadToolResult_dumpToolResult (result : ToolResult) :
    loadToolResult (dumpToolResult result) = .ok result := by
  have hkind : StrEnum.parse ToolKind result.kind.value = .ok result.kind :=
    StrEnum.parse_value result.kind
  simp [loadToolResult, dumpToolResult, Mapping.require, Mapping.get, List.lookup_cons, hkind]

/-- `_dump_validation`. -/
def dumpValidation (report : ValidationReport) : Mapping :=
  [("results", .list (report.results.map dumpToolResult)),
    ("static_analysis_is_blocking", .bool report.staticAnalysisIsBlocking)]

/-- `_load_validation`. -/
def loadValidation (raw : Mapping) : Except PyError ValidationReport := do
  let results ← (Mapping.get raw "results" (.list [])).readList loadToolResult
  let staticAnalysisIsBlocking ←
    (Mapping.get raw "static_analysis_is_blocking" (.bool false)).readBool
  return { results, staticAnalysisIsBlocking }

@[simp] theorem loadValidation_dumpValidation (report : ValidationReport) :
    loadValidation (dumpValidation report) = .ok report := by
  have hresults : PyValue.readList loadToolResult (.list (report.results.map dumpToolResult)) =
      .ok report.results := PyValue.readList_map fun result _ => loadToolResult_dumpToolResult result
  simp [loadValidation, dumpValidation, Mapping.get, List.lookup_cons, hresults]

/-- `apply_candidate`. -/
def applyCandidate (model : CandidateModel) (candidate : Candidate) : CandidateModel :=
  { model with
    status := candidate.status.value
    workspaceId := candidate.workspaceId.map EntityId.value
    patch := dumpPatch candidate.patch
    validation := dumpValidation candidate.validation
    summary := candidate.summary
    uncertainties := candidate.uncertainties
    coderIterations := candidate.coderIterations
    repairIterations := candidate.repairIterations
    workerId := candidate.workerId.map EntityId.value
    lastJobId := candidate.lastJobId.map EntityId.value
    reviewVerdict := candidate.reviewVerdict.map ReviewVerdict.value
    startedAt := candidate.startedAt
    completedAt := candidate.completedAt
    failureKind := candidate.failureKind.map FailureKind.value
    failureReason := candidate.failureReason }

def candidateToModel (candidate : Candidate) : CandidateModel :=
  applyCandidate
    { id := candidate.id.value
      runId := candidate.runId.value
      candidateIndex := candidate.index
      status := candidate.status.value
      createdAt := candidate.createdAt }
    candidate

def candidateToDomain (model : CandidateModel) : Except PyError Candidate := do
  let status ← StrEnum.parse CandidateStatus model.status
  let patch ← loadPatch model.patch
  let validation ← loadValidation model.validation
  let reviewVerdict ← StrEnum.parseOptional ReviewVerdict model.reviewVerdict
  let failureKind ← StrEnum.parseOptional FailureKind model.failureKind
  return {
    id := ⟨model.id⟩
    runId := ⟨model.runId⟩
    index := model.candidateIndex
    createdAt := model.createdAt
    workspaceId := model.workspaceId.map EntityId.mk
    status
    patch
    validation
    summary := model.summary
    uncertainties := model.uncertainties
    coderIterations := model.coderIterations
    repairIterations := model.repairIterations
    workerId := model.workerId.map EntityId.mk
    lastJobId := model.lastJobId.map EntityId.mk
    reviewVerdict
    startedAt := model.startedAt
    completedAt := model.completedAt
    failureKind
    failureReason := model.failureReason
    events := [] }

/-- What is fixed when a candidate is created. -/
def Candidate.origin (candidate : Candidate) : CandidateId × RunId × Nat × Instant :=
  (candidate.id, candidate.runId, candidate.index, candidate.createdAt)

/-- The columns of a candidate's row that are never updated. -/
theorem savedCandidate_origin (first : Candidate) (later : List Candidate) :
    (savedRow candidateToModel applyCandidate first later).id = first.id.value ∧
      (savedRow candidateToModel applyCandidate first later).runId = first.runId.value ∧
      (savedRow candidateToModel applyCandidate first later).candidateIndex = first.index ∧
      (savedRow candidateToModel applyCandidate first later).createdAt = first.createdAt := by
  refine ⟨?_, ?_, ?_, ?_⟩
  · exact savedRow_keeps candidateToModel applyCandidate CandidateModel.id (fun _ _ => rfl) first later
  · exact savedRow_keeps candidateToModel applyCandidate CandidateModel.runId (fun _ _ => rfl) first later
  · exact savedRow_keeps candidateToModel applyCandidate CandidateModel.candidateIndex (fun _ _ => rfl)
      first later
  · exact savedRow_keeps candidateToModel applyCandidate CandidateModel.createdAt (fun _ _ => rfl)
      first later

/-- **The row of a candidate loads the state that was applied last**, but for its events. -/
theorem candidateToDomain_applyCandidate {first candidate : Candidate} (later : List Candidate)
    (hsame : first.origin = candidate.origin) :
    candidateToDomain
        (applyCandidate (savedRow candidateToModel applyCandidate first later) candidate) =
      .ok { candidate with events := [] } := by
  obtain ⟨hid, hrun, hindex, hcreated⟩ := savedCandidate_origin first later
  simp only [Candidate.origin, Prod.mk.injEq] at hsame
  rw [hsame.1] at hid
  rw [hsame.2.1] at hrun
  rw [hsame.2.2.1] at hindex
  rw [hsame.2.2.2] at hcreated
  have hstatus : StrEnum.parse CandidateStatus candidate.status.value = .ok candidate.status :=
    StrEnum.parse_value candidate.status
  have hverdict : StrEnum.parseOptional ReviewVerdict
      (candidate.reviewVerdict.map ReviewVerdict.value) = .ok candidate.reviewVerdict :=
    StrEnum.parseOptional_value candidate.reviewVerdict
  have hfailure : StrEnum.parseOptional FailureKind
      (candidate.failureKind.map FailureKind.value) = .ok candidate.failureKind :=
    StrEnum.parseOptional_value candidate.failureKind
  generalize savedRow candidateToModel applyCandidate first later = row at hid hrun hindex hcreated
  simp only [candidateToDomain, applyCandidate, hstatus, hverdict, hfailure, ok_bind, hid, hrun, hindex,
    hcreated, loadPatch_dumpPatch, loadValidation_dumpValidation, EntityId.map_mk_value]
  rfl

end AgenticPlatform
