import AgenticPlatform.JsonText

/-!
# The vocabulary of domain events

Every event class with its wire name and its annotated fields, as `domain.events` exports
them. An event is an instance of a class; its payload renders identifiers and
enumerations as text, so that only the annotations tell what a text was.
-/

namespace AgenticPlatform

/-- The enumerations that event fields carry. -/
inductive EventEnum where
  | runStatus | candidateStatus | reviewVerdict | failureKind | jobType | workerStatus
deriving DecidableEq

def EventEnum.Member : EventEnum → Type
  | .runStatus => RunStatus
  | .candidateStatus => CandidateStatus
  | .reviewVerdict => ReviewVerdict
  | .failureKind => FailureKind
  | .jobType => JobType
  | .workerStatus => WorkerStatus

instance EventEnum.strEnum : (type : EventEnum) → StrEnum type.Member
  | .runStatus => inferInstanceAs (StrEnum RunStatus)
  | .candidateStatus => inferInstanceAs (StrEnum CandidateStatus)
  | .reviewVerdict => inferInstanceAs (StrEnum ReviewVerdict)
  | .failureKind => inferInstanceAs (StrEnum FailureKind)
  | .jobType => inferInstanceAs (StrEnum JobType)
  | .workerStatus => inferInstanceAs (StrEnum WorkerStatus)

/-- A field annotation: a class, `X | None`, `list[X]` or `tuple[X, ..]`, or anything else. -/
inductive Annotation where
  | entityId (kind : IdKind)
  | enum (type : EventEnum)
  | idempotencyKey
  | datetime
  | uuid
  | bool
  | int
  | float
  | str
  | optional (hint : Annotation)
  | sequence (item : Annotation)
  | any
deriving DecidableEq

/-- The value of an event field. Values that JSON has are themselves. -/
inductive FieldValue where
  | json (value : PyValue)
  | entityId (kind : IdKind) (id : EntityId kind)
  | member (type : EventEnum) (m : type.Member)
  | idempotencyKey (text : String)
  | moment (instant : Instant)
  | uuid (value : Nat)
  | sequence (items : List FieldValue)

mutual

/-- `_render`. -/
def FieldValue.render (iso : IsoCodec) : FieldValue → PyValue
  | .json value => value
  | .entityId _ id => .str id.str
  | .member _ m => .str (StrEnum.value m)
  | .idempotencyKey text => .str text
  | .moment instant => .str (iso.isoformat instant)
  | .uuid value => .str (uuidText value)
  | .sequence items => .list (renderItems iso items)

def renderItems (iso : IsoCodec) : List FieldValue → List PyValue
  | [] => []
  | item :: rest => item.render iso :: renderItems iso rest

end

structure EventField where
  name : String
  hint : Annotation
  default : Option FieldValue := none

/-- A dataclass that derives from `DomainEvent`; `name` is its wire identifier. -/
structure EventClass where
  className : String
  name : String
  fields : List EventField

/-- An instance of an event class, with its envelope. -/
structure Event where
  type : EventClass
  fields : List (String × FieldValue)
  occurredAt : Instant
  eventId : Nat

/-- `payload`: the body without the envelope fields. -/
def Event.payload (iso : IsoCodec) (event : Event) : Mapping :=
  event.fields.map fun field => (field.1, field.2.render iso)

/-- The argument for one field, or its default. -/
def EventClass.argument (type : EventClass) (body : List (String × FieldValue)) (field : EventField) :
    Except PyError (String × FieldValue) :=
  match (List.lookup field.name body).or field.default with
  | some value => .ok (field.name, value)
  | none => .error (.other
      ("TypeError: " ++ type.className ++ " missing a required keyword argument: " ++ quoted field.name))

/-- `event_type(occurred_at=.., event_id=.., **body)`. -/
def EventClass.construct (type : EventClass) (occurredAt : Instant) (eventId : Nat)
    (body : List (String × FieldValue)) : Except PyError Event :=
  match body.find? fun entry => entry.1 ∉ type.fields.map EventField.name with
  | some entry => .error (.other
      ("TypeError: " ++ type.className ++ " got an unexpected keyword argument " ++ quoted entry.1))
  | none => do
      let fields ← type.fields.mapM (type.argument body)
      return ⟨type, fields, occurredAt, eventId⟩

/-! ### The exported classes -/

namespace EventClass

def domainEvent : EventClass := ⟨"DomainEvent", "domain.event", []⟩

section Run

def runId : EventField := { name := "run_id", hint := .entityId .run }

def candidateId : EventField := { name := "candidate_id", hint := .entityId .candidate }

def runCreated : EventClass := ⟨"RunCreated", "run.created",
  [runId, { name := "project_id", hint := .entityId .project },
    { name := "objective", hint := .str }, { name := "candidate_count", hint := .int }]⟩

def runStateChanged : EventClass := ⟨"RunStateChanged", "run.state_changed",
  [runId, { name := "previous", hint := .enum .runStatus },
    { name := "current", hint := .enum .runStatus },
    { name := "reason", hint := .optional .str, default := some (.json .none) }]⟩

def planRequested : EventClass := ⟨"PlanRequested", "run.plan_requested",
  [runId, { name := "revision", hint := .int }]⟩

def planCompleted : EventClass := ⟨"PlanCompleted", "run.plan_completed",
  [runId, { name := "plan_id", hint := .entityId .plan },
    { name := "revision", hint := .int }, { name := "task_count", hint := .int }]⟩

def candidateStarted : EventClass := ⟨"CandidateStarted", "candidate.started",
  [runId, candidateId, { name := "index", hint := .int },
    { name := "job_id", hint := .optional (.entityId .job), default := some (.json .none) }]⟩

def candidateCompleted : EventClass := ⟨"CandidateCompleted", "candidate.completed",
  [runId, candidateId, { name := "status", hint := .enum .candidateStatus },
    { name := "changed_files", hint := .int, default := some (.json (.int 0)) }]⟩

def validationStarted : EventClass := ⟨"ValidationStarted", "candidate.validation_started",
  [runId, candidateId]⟩

def validationCompleted : EventClass := ⟨"ValidationCompleted", "candidate.validation_completed",
  [runId, candidateId, { name := "viable", hint := .bool }, { name := "summary", hint := .str }]⟩

def reviewRequested : EventClass := ⟨"ReviewRequested", "review.requested",
  [runId, candidateId, { name := "iteration", hint := .int }]⟩

def reviewCompleted : EventClass := ⟨"ReviewCompleted", "review.completed",
  [runId, candidateId, { name := "verdict", hint := .enum .reviewVerdict },
    { name := "finding_count", hint := .int, default := some (.json (.int 0)) }]⟩

def repairRequested : EventClass := ⟨"RepairRequested", "run.repair_requested",
  [runId, candidateId, { name := "iteration", hint := .int },
    { name := "reason", hint := .str }]⟩

def candidateSelected : EventClass := ⟨"CandidateSelected", "candidate.selected",
  [runId, candidateId, { name := "rationale", hint := .str }]⟩

def runCompleted : EventClass := ⟨"RunCompleted", "run.completed",
  [runId,
    { name := "candidate_id", hint := .optional (.entityId .candidate), default := some (.json .none) }]⟩

def runFailed : EventClass := ⟨"RunFailed", "run.failed",
  [runId, { name := "failure_kind", hint := .enum .failureKind },
    { name := "reason", hint := .str }]⟩

def runCancelled : EventClass := ⟨"RunCancelled", "run.cancelled",
  [runId, { name := "reason", hint := .optional .str, default := some (.json .none) }]⟩

end Run

section Job

def jobId : EventField := { name := "job_id", hint := .entityId .job }

def jobEnqueued : EventClass := ⟨"JobEnqueued", "job.enqueued",
  [jobId, runId, { name := "job_type", hint := .enum .jobType },
    { name := "attempt", hint := .int }]⟩

def jobLeased : EventClass := ⟨"JobLeased", "job.leased",
  [jobId, runId, { name := "worker_id", hint := .entityId .worker },
    { name := "attempt", hint := .int }]⟩

def jobCompleted : EventClass := ⟨"JobCompleted", "job.completed",
  [jobId, runId, { name := "job_type", hint := .enum .jobType },
    { name := "duration_ms", hint := .int, default := some (.json (.int 0)) }]⟩

def jobFailed : EventClass := ⟨"JobFailed", "job.failed",
  [jobId, runId, { name := "failure_kind", hint := .enum .failureKind },
    { name := "reason", hint := .str }, { name := "attempt", hint := .int },
    { name := "retryable", hint := .bool }]⟩

def jobLeaseExpired : EventClass := ⟨"JobLeaseExpired", "job.lease_expired",
  [jobId, runId, { name := "holder", hint := .entityId .worker }]⟩

def jobRequeued : EventClass := ⟨"JobRequeued", "job.requeued",
  [jobId, runId, { name := "attempt", hint := .int }, { name := "reason", hint := .str }]⟩

end Job

section Worker

def workerId : EventField := { name := "worker_id", hint := .entityId .worker }

def workerRegistered : EventClass := ⟨"WorkerRegistered", "worker.registered",
  [workerId, { name := "model_id", hint := .str }, { name := "endpoint", hint := .str },
    { name := "max_concurrency", hint := .int }]⟩

def workerHeartbeatReceived : EventClass := ⟨"WorkerHeartbeatReceived", "worker.heartbeat",
  [workerId, { name := "status", hint := .enum .workerStatus },
    { name := "active_jobs", hint := .int }]⟩

def workerStatusChanged : EventClass := ⟨"WorkerStatusChanged", "worker.status_changed",
  [workerId, { name := "previous", hint := .enum .workerStatus },
    { name := "current", hint := .enum .workerStatus }]⟩

def workerDraining : EventClass := ⟨"WorkerDraining", "worker.draining",
  [workerId, { name := "active_jobs", hint := .int }]⟩

def workerUnavailable : EventClass := ⟨"WorkerUnavailable", "worker.unavailable",
  [workerId, { name := "reason", hint := .str }]⟩

def workerDeregistered : EventClass := ⟨"WorkerDeregistered", "worker.deregistered",
  [workerId, { name := "graceful", hint := .bool }]⟩

end Worker

/-- `domain.events.__all__`, without the type alias in it. -/
def exported : List EventClass :=
  [candidateCompleted, candidateSelected, candidateStarted, domainEvent, jobCompleted, jobEnqueued,
    jobFailed, jobLeaseExpired, jobLeased, jobRequeued, planCompleted, planRequested, repairRequested,
    reviewCompleted, reviewRequested, runCancelled, runCompleted, runCreated, runFailed, runStateChanged,
    validationCompleted, validationStarted, workerDeregistered, workerDraining, workerHeartbeatReceived,
    workerRegistered, workerStatusChanged, workerUnavailable]

/-- No two classes share a wire name, and no class has two fields of one name. -/
theorem exported_names : (exported.map EventClass.name).Nodup ∧
    ∀ type ∈ exported, (type.fields.map EventField.name).Nodup := by
  decide

end EventClass

end AgenticPlatform
