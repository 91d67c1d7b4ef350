import AgenticPlatform.JobQueue
import AgenticPlatform.JsonText
import AgenticPlatform.Mappers
import AgenticPlatform.NumberText

/-!
# Redis records of jobs and workers

Redis stores flat strings: a record is a hash of texts in which the empty text stands for
`None`. Reconstruction goes through the constructors of the aggregates and of their parts,
so that a decoded entity is the one the application built, without its buffered events.
-/

namespace AgenticPlatform

/-- The job with its dictionaries as they compare. -/
def Job.canonical (job : Job) : Job :=
  { job with payload := job.payload.canonical, result := job.result.map Mapping.canonical }

def WorkerCapabilities.canonical (capabilities : WorkerCapabilities) : WorkerCapabilities :=
  { capabilities with metadata := capabilities.metadata.canonical }

/-- The worker with its dictionaries as they compare. -/
def Worker.canonical (worker : Worker) : Worker :=
  { worker with
    capabilities := worker.capabilities.canonical, metadata := worker.metadata.canonical }

namespace RedisCodecs

variable (json : JsonCodec) (iso : IsoCodec)

/-! ### Scalars

A record is read through `raw.get`. -/

/-- `_text`: a hash field, with the empty string normalised back to `None`. -/
def text (raw : String → Option String) (field : String) : Option String :=
  (raw field).filter fun value => value ≠ ""

/-- `_require`. -/
def require (raw : String → Option String) (field : String) : Except PyError String :=
  match text raw field with
  | some value => .ok value
  | none => .error (.valueError ("malformed redis record: missing field " ++ quoted field))

/-- `_moment`. -/
def moment (raw : String → Option String) (field : String) : Except PyError (Option Instant) :=
  match text raw field with
  | some value => (iso.fromisoformat value).map some
  | none => .ok none

/-- `_int`, of a field that is not negative. -/
def int (raw : String → Option String) (field : String) (default : Nat) : Except PyError Nat :=
  match text raw field with
  | none => .ok default
  | some value =>
      match parseInt 10 value with
      | none => .error (.valueError ("invalid literal for int() with base 10: " ++ quoted value))
      | some n => (PyValue.int n).readNat field

/-- `_json_object`. -/
def jsonObject (raw : String → Option String) (field : String) : Except PyError (Option Mapping) :=
  match text raw field with
  | none => .ok none
  | some value => do
      match ← json.loads value with
      | .dict items => return some items
      | _ => .error (.valueError ("field " ++ quoted field ++ " should hold a JSON object"))

/-- `X.parse(text) if text else None`. -/
def parseOptional (kind : IdKind) (text : Option String) : Except PyError (Option (EntityId kind)) :=
  match text with
  | none => .ok none
  | some text => (EntityId.parse kind text).map some

/-! ### Workers -/

/-- `_capabilities_to_json`; the object is the one that the row of a worker holds. -/
def capabilitiesToJson (capabilities : WorkerCapabilities) : String :=
  json.dumps (dumpCapabilities capabilities)

/-- `_capabilities_from_json`. -/
def capabilitiesFromJson (payload : Mapping) : Except PyError WorkerCapabilities := do
  let rawGpu ← (Mapping.get payload "gpu" .none).orEmpty.readDict
  let modelId ← (← Mapping.require payload "model_id").readText
  let contextLength ← (← Mapping.require payload "context_length").readNat "context_length"
  let maxConcurrency ← (← Mapping.require payload "max_concurrency").readNat "max_concurrency"
  let supportedRoles ← readRoles (← Mapping.require payload "supported_roles")
  let gpu ← loadGpu rawGpu
  let supportsTools ← (Mapping.get payload "supports_tools" (.bool true)).readBool
  let supportsJsonSchema ← (Mapping.get payload "supports_json_schema" (.bool true)).readBool
  let metadata ← (Mapping.get payload "metadata" .none).orEmpty.readDict
  WorkerCapabilities.build modelId contextLength maxConcurrency supportedRoles gpu supportsTools
    supportsJsonSchema metadata

/-- `worker_to_mapping`. -/
def workerToMapping (worker : Worker) : List (String × String) :=
  [("id", worker.id.str),
    ("endpoint", worker.endpoint),
    ("status", worker.status.value),
    ("registered_at", iso.isoformat worker.registeredAt),
    ("last_heartbeat_at", iso.isoformat worker.lastHeartbeatAt),
    ("active_jobs", toString worker.load.activeJobs),
    ("queued_jobs", toString worker.load.queuedJobs),
    ("capabilities", capabilitiesToJson json worker.capabilities),
    ("metadata", json.dumps worker.metadata)]

/-- `worker_from_mapping`. -/
def workerFromMapping (raw : String → Option String) : Except PyError Worker := do
  match ← jsonObject json raw "capabilities" with
  | none => .error (.valueError "malformed redis record: missing worker capabilities")
  | some capabilities =>
      match ← moment iso raw "registered_at" with
      | none => .error (.valueError "malformed redis record: missing field 'registered_at'")
      | some registeredAt =>
          let id ← EntityId.parse .worker (← require raw "id")
          let endpoint ← loadEndpoint (← require raw "endpoint")
          let capabilities ← capabilitiesFromJson capabilities
          let status ← StrEnum.parse WorkerStatus (← require raw "status")
          let activeJobs ← int raw "active_jobs" 0
          let queuedJobs ← int raw "queued_jobs" 0
          let lastHeartbeatAt ← moment iso raw "last_heartbeat_at"
          let metadata ← jsonObject json raw "metadata"
          return {
            id, endpoint, capabilities, registeredAt, status
            load := ⟨activeJobs, queuedJobs⟩
            lastHeartbeatAt := lastHeartbeatAt.getD registeredAt
            metadata := metadata.getD []
            events := [] }

/-! ### Jobs -/

/-- `_requirements_to_json`; the object is the one that the row of a job holds. -/
def requirementsToJson (requirements : Option JobRequirements) : String :=
  ((dumpRequirements requirements).map json.dumps).getD ""

/-- `job_to_mapping`. -/
def jobToMapping (job : Job) : List (String × String) :=
  let lease := job.lease
  [("id", job.id.str),
    ("run_id", job.runId.str),
    ("project_id", job.projectId.str),
    ("type", job.type.value),
    ("role", (job.role.map AgentRole.value).getD ""),
    ("candidate_id", (job.candidateId.map EntityId.str).getD ""),
    ("priority", job.priority.value),
    ("status", job.status.value),
    ("attempt", toString job.attempt),
    ("max_attempts", toString job.maxAttempts),
    ("payload", json.dumps job.payload),
    ("requirements", requirementsToJson json job.requirements),
    ("idempotency_key", job.idempotencyKey.getD ""),
    ("created_at", iso.isoformat job.createdAt),
    ("started_at", (job.startedAt.map iso.isoformat).getD ""),
    ("completed_at", (job.completedAt.map iso.isoformat).getD ""),
    ("result", (job.result.map json.dumps).getD ""),
    ("failure_kind", (job.failureKind.map FailureKind.value).getD ""),
    ("failure_reason", job.failureReason.getD ""),
    ("assigned_worker_id", (job.assignedWorkerId.map EntityId.str).getD ""),
    ("lease_token", (lease.map fun lease => lease.token.value).getD ""),
    ("lease_holder", (lease.map fun lease => lease.holder.str).getD ""),
    ("lease_acquired_at", (lease.map fun lease => iso.isoformat lease.acquiredAt).getD ""),
    ("lease_expires_at", (lease.map fun lease => iso.isoformat lease.expiresAt).getD ""),
    ("score", toString (queueScore job.priority job.createdAt)),
    ("acked", "")]

/-- `lease_from_mapping`. -/
def leaseFromMapping (raw : String → Option String) : Except PyError (Option Lease) := do
  let acquiredAt ← moment iso raw "lease_acquired_at"
  let expiresAt ← moment iso raw "lease_expires_at"
  match text raw "lease_token", text raw "lease_holder", acquiredAt, expiresAt with
  | some token, some holder, some acquiredAt, some expiresAt =>
      let jobId ← EntityId.parse .job (← require raw "id")
      let holder ← EntityId.parse .worker holder
      let token ← LeaseToken.build token
      (Lease.build jobId holder token acquiredAt expiresAt).map some
  | _, _, _, _ => .ok none

/-- `job_from_mapping`, with the checks of the constructor of `Job`. -/
def jobFromMapping (raw : String → Option String) : Except PyError Job := do
  match ← moment iso raw "created_at" with
  | none => .error (.valueError "malformed redis record: missing field 'created_at'")
  | some createdAt =>
      let requirements ← jsonObject json raw "requirements"
      let id ← EntityId.parse .job (← require raw "id")
      let runId ← EntityId.parse .run (← require raw "run_id")
      let projectId ← EntityId.parse .project (← require raw "project_id")
      let type ← StrEnum.parse JobType (← require raw "type")
      let role ← StrEnum.parseOptional AgentRole (text raw "role")
      let candidateId ← parseOptional .candidate (text raw "candidate_id")
      let priority ← StrEnum.parse Priority (← require raw "priority")
      let status ← StrEnum.parse JobStatus (← require raw "status")
      let attempt ← int raw "attempt" 0
      let maxAttempts ← int raw "max_attempts" 1
      let payload ← jsonObject json raw "payload"
      let requirements ← loadRequirements requirements
      let idempotencyKey ← loadIdempotencyKey (text raw "idempotency_key")
      let lease ← leaseFromMapping iso raw
      let assignedWorkerId ← parseOptional .worker (text raw "assigned_worker_id")
      let startedAt ← moment iso raw "started_at"
      let completedAt ← moment iso raw "completed_at"
      let result ← jsonObject json raw "result"
      let failureKind ← StrEnum.parseOptional FailureKind (text raw "failure_kind")
      let failureReason := text raw "failure_reason"
      if hrole : type.requiresInference = true → role ≠ none then
        if hmax : 1 ≤ maxAttempts then
          return {
            id, runId, projectId, type, createdAt, role, candidateId, priority, status, attempt
            maxAttempts
            payload := payload.getD []
            requirements, idempotencyKey, lease, assignedWorkerId, startedAt, completedAt, result
            failureKind, failureReason
            events := []
            role_given := hrole
            max_attempts_pos := hmax }
        else .error (.valueError "max_attempts must be at least 1")
      else .error (.valueError (type.value ++ " is an inference job and requires an agent role"))

/-! ### Fields are read as they were written -/

section Fields

variable {json iso}
variable {raw : String → Option String} {field : String}

theorem text_optional (value : Option String) (h : raw field = some (value.getD ""))
    (hne : ∀ v ∈ value, v ≠ "") : text raw field = value := by
  unfold text
  rw [h]
  cases value with
  | none => rfl
  | some v => simp [hne v rfl]

theorem require_eq {value : String} (h : raw field = some value) (hne : value ≠ "") :
    require raw field = .ok value := by
  unfold require
  rw [text_optional (some value) h (by simpa using hne)]

theorem moment_optional {value : Option Instant}
    (h : raw field = some ((value.map iso.isoformat).getD "")) : moment iso raw field = .ok value := by
  unfold moment
  rw [text_optional _ h (by simpa using fun a _ => iso.nonempty a)]
  cases value with
  | none => rfl
  | some value => simp [iso.inverse, Except.map]

theorem int_eq {n default : Nat} (h : raw field = some (toString n)) :
    int raw field default = .ok n := by
  unfold int
  rw [text_optional (some (toString n)) h (by rintro v ⟨rfl⟩; exact toString_nonempty n)]
  simp only [parseInt_toString, PyValue.readNat_natCast]

theorem jsonObject_optional (value : Option Mapping)
    (h : raw field = some ((value.map json.dumps).getD ""))
    (hrep : ∀ v ∈ value, json.Representable v) :
    jsonObject json raw field = .ok (value.map Mapping.canonical) := by
  unfold jsonObject
  rw [text_optional _ h (by simpa using fun a ha => (hrep a ha).2)]
  cases value with
  | none => rfl
  | some value => simp [(hrep value rfl).1]

theorem parseOptional_map_str {kind : IdKind} {id : Option (EntityId kind)}
    (h : ∀ i ∈ id, IsUuid i.value) : parseOptional kind (id.map EntityId.str) = .ok id := by
  cases id with
  | none => rfl
  | some id => simp [parseOptional, EntityId.parse_str (h id rfl), Except.map]

theorem text_id {kind : IdKind} {id : Option (EntityId kind)}
    (h : raw field = some ((id.map EntityId.str).getD "")) :
    text raw field = id.map EntityId.str :=
  text_optional _ h (by simpa using fun a _ => a.str_nonempty)

theorem text_enum {α : Type} [StrEnum α] {m : Option α}
    (h : raw field = some ((m.map StrEnum.value).getD "")) :
    text raw field = m.map StrEnum.value :=
  text_optional _ h (by simpa using fun a _ => StrEnum.value_nonempty a)

end Fields

/-! ### Objects inside a record -/

theorem loadRequirements_canonical (requirements : Option JobRequirements) :
    loadRequirements ((dumpRequirements requirements).map Mapping.canonical) = .ok requirements := by
  cases requirements with
  | none => rfl
  | some requirements =>
    obtain ⟨object, hobject⟩ : ∃ object, dumpRequirements (some requirements) = some object := ⟨_, rfl⟩
    have hfields := hobject
    simp only [dumpRequirements, Option.map_some, Option.some.injEq] at hfields
    have hnodup : (object.map Prod.fst).Nodup := by
      rw [← hfields]
      simp
    have hlookup := Mapping.lookup_canonical hnodup
    have hrole : StrEnum.parse AgentRole requirements.role.value = .ok requirements.role :=
      StrEnum.parse_value requirements.role
    rw [hobject, Option.map_some]
    cases hcanonical : object.canonical with
    | nil =>
      rw [Mapping.canonical_eq_nil.mp hcanonical] at hfields
      cases hfields
    | cons entry rest =>
      rw [hcanonical] at hlookup
      simp only [loadRequirements, Mapping.require, Mapping.get, hlookup, ← hfields]
      simp [List.lookup_cons, hrole]

theorem loadGpu_canonical (gpu : GpuSpec) : loadGpu (Mapping.canonical (dumpGpu gpu)) = .ok gpu := by
  have hnodup : ((dumpGpu gpu).map Prod.fst).Nodup := by
    simp [dumpGpu]
  have hlookup := Mapping.lookup_canonical hnodup
  simp [loadGpu, Mapping.get, hlookup]
  simp [dumpGpu, List.lookup_cons, gpu.parallel_pos]

theorem capabilitiesFromJson_canonical (capabilities : WorkerCapabilities) :
    capabilitiesFromJson (Mapping.canonical (dumpCapabilities capabilities)) = .ok capabilities.canonical := by
  have hnodup : ((dumpCapabilities capabilities).map Prod.fst).Nodup := by
    simp [dumpCapabilities]
  have hlookup := Mapping.lookup_canonical hnodup
  have hbuild := capabilities.build_self capabilities.metadata.canonical
  simp [capabilitiesFromJson, Mapping.get, Mapping.require, hlookup]
  simp [dumpCapabilities, List.lookup_cons, loadGpu_canonical, hbuild]
  rfl

/-! ### Round trips -/

/-- What the codec asks of a worker: its identifier is a UUID, its endpoint one that the
    constructor admits, and JSON carries its dictionaries. -/
structure WorkerEncodable (worker : Worker) : Prop where
  id_uuid : IsUuid worker.id.value
  endpoint_valid : isHttpUrl worker.endpoint = true
  capabilities_representable : json.Representable (dumpCapabilities worker.capabilities)
  metadata_representable : json.Representable worker.metadata

/-- The identifiers in a job. -/
structure JobIds (job : Job) : Prop where
  id : IsUuid job.id.value
  runId : IsUuid job.runId.value
  projectId : IsUuid job.projectId.value
  candidateId : ∀ id ∈ job.candidateId, IsUuid id.value
  assignedWorkerId : ∀ id ∈ job.assignedWorkerId, IsUuid id.value
  holder : ∀ lease ∈ job.lease, IsUuid lease.holder.value

/-- What the codec asks of a job. -/
structure JobEncodable (job : Job) : Prop where
  constructed : job.Constructed
  ids : JobIds job
  reason_nonempty : job.failureReason ≠ some ""
  payload_representable : json.Representable job.payload
  result_representable : ∀ result ∈ job.result, json.Representable result
  requirements_representable :
    ∀ requirements ∈ dumpRequirements job.requirements, json.Representable requirements

variable {json iso}

/-- **`worker_from_mapping` undoes `worker_to_mapping`.** -/
theorem workerFromMapping_workerToMapping {worker : Worker} (h : WorkerEncodable json worker) :
    workerFromMapping json iso (fun field => List.lookup field (workerToMapping json iso worker)) =
      .ok { worker.canonical with events := [] } := by
  generalize hraw : (fun field => List.lookup field (workerToMapping json iso worker)) = raw
  have hfield : ∀ field, raw field = List.lookup field (workerToMapping json iso worker) :=
    fun field => by rw [← hraw]
  have hid : require raw "id" = .ok worker.id.str :=
    require_eq (by rw [hfield]; simp [workerToMapping]) worker.id.str_nonempty
  have hendpoint : require raw "endpoint" = .ok worker.endpoint := by
    refine require_eq (by rw [hfield]; simp [workerToMapping, List.lookup_cons]) ?_
    intro hempty
    have hvalid := h.endpoint_valid
    rw [hempty] at hvalid
    revert hvalid
    decide
  have hstatus : require raw "status" = .ok worker.status.value :=
    require_eq (by rw [hfield]; simp [workerToMapping, List.lookup_cons]) (StrEnum.value_nonempty worker.status)
  have hregistered : moment iso raw "registered_at" = .ok (some worker.registeredAt) :=
    moment_optional (by rw [hfield]; simp [workerToMapping, List.lookup_cons])
  have hheartbeat : moment iso raw "last_heartbeat_at" = .ok (some worker.lastHeartbeatAt) :=
    moment_optional (by rw [hfield]; simp [workerToMapping, List.lookup_cons])
  have hactive : int raw "active_jobs" 0 = .ok worker.load.activeJobs :=
    int_eq (by rw [hfield]; simp [workerToMapping, List.lookup_cons])
  have hqueued : int raw "queued_jobs" 0 = .ok worker.load.queuedJobs :=
    int_eq (by rw [hfield]; simp [workerToMapping, List.lookup_cons])
  have hcapabilities : jsonObject json raw "capabilities" =
      .ok (some (Mapping.canonical (dumpCapabilities worker.capabilities))) :=
    jsonObject_optional (some (dumpCapabilities worker.capabilities))
      (by rw [hfield]; simp [workerToMapping, List.lookup_cons, capabilitiesToJson])
      (by rintro _ ⟨rfl⟩; exact h.capabilities_representable)
  have hmetadata : jsonObject json raw "metadata" = .ok (some worker.metadata.canonical) :=
    jsonObject_optional (some worker.metadata)
      (by rw [hfield]; simp [workerToMapping, List.lookup_cons])
      (by rintro _ ⟨rfl⟩; exact h.metadata_representable)
  have hparsed : StrEnum.parse WorkerStatus worker.status.value = .ok worker.status :=
    StrEnum.parse_value worker.status
  have hurl : loadEndpoint worker.endpoint = .ok worker.endpoint := if_pos h.endpoint_valid
  simp only [workerFromMapping, hcapabilities, ok_bind, hregistered, hid, EntityId.parse_str h.id_uuid,
    hendpoint, hurl, capabilitiesFromJson_canonical, hstatus, hparsed, hactive, hqueued, hheartbeat,
    hmetadata, Option.getD_some]
  rfl

/-- A lease is there exactly when its token is. -/
theorem leaseFromMapping_jobToMapping {job : Job} {raw : String → Option String}
    (hfield : ∀ field, raw field = List.lookup field (jobToMapping json iso job))
    (hids : JobIds job) (hown : job.OwnsLease) :
    leaseFromMapping iso raw = .ok job.lease := by
  have hacquired : moment iso raw "lease_acquired_at" = .ok (job.lease.map Lease.acquiredAt) :=
    moment_optional (by rw [hfield]; simp [jobToMapping, List.lookup_cons, Function.comp_def])
  have hexpires : moment iso raw "lease_expires_at" = .ok (job.lease.map Lease.expiresAt) :=
    moment_optional (by rw [hfield]; simp [jobToMapping, List.lookup_cons, Function.comp_def])
  have htoken : text raw "lease_token" = job.lease.map fun lease => lease.token.value :=
    text_optional _ (by rw [hfield]; simp [jobToMapping, List.lookup_cons])
      (by simpa using fun lease _ => lease.token.nonempty)
  have hholder : text raw "lease_holder" = (job.lease.map Lease.holder).map EntityId.str :=
    text_id (by rw [hfield]; simp [jobToMapping, List.lookup_cons, Function.comp_def])
  have hid : require raw "id" = .ok job.id.str :=
    require_eq (by rw [hfield]; simp [jobToMapping]) job.id.str_nonempty
  unfold leaseFromMapping
  rw [hacquired, hexpires, htoken, hholder, hid]
  cases hlease : job.lease with
  | none => rfl
  | some lease =>
    have hjob : EntityId.parse .job job.id.str = .ok lease.jobId := by
      rw [EntityId.parse_str hids.id, hown lease hlease]
    have hworker := EntityId.parse_str (hids.holder lease hlease)
    simp only [Option.map_some, ok_bind, hjob, hworker, LeaseToken.build_value]
    rw [Lease.build, dif_pos lease.ends_after_acquired]
    rfl

/-- **`job_from_mapping` undoes `job_to_mapping`.** -/
theorem jobFromMapping_jobToMapping {job : Job} (h : JobEncodable json job) :
    jobFromMapping json iso (fun field => List.lookup field (jobToMapping json iso job)) =
      .ok { job.canonical with events := [] } := by
  generalize hraw : (fun field => List.lookup field (jobToMapping json iso job)) = raw
  have hfield : ∀ field, raw field = List.lookup field (jobToMapping json iso job) :=
    fun field => by rw [← hraw]
  have hid : require raw "id" = .ok job.id.str :=
    require_eq (by rw [hfield]; simp [jobToMapping]) job.id.str_nonempty
  have hrun : require raw "run_id" = .ok job.runId.str :=
    require_eq (by rw [hfield]; simp [jobToMapping, List.lookup_cons]) job.runId.str_nonempty
  have hproject : require raw "project_id" = .ok job.projectId.str :=
    require_eq (by rw [hfield]; simp [jobToMapping, List.lookup_cons]) job.projectId.str_nonempty
  have htype : require raw "type" = .ok job.type.value :=
    require_eq (by rw [hfield]; simp [jobToMapping, List.lookup_cons]) (StrEnum.value_nonempty job.type)
  have hpriority : require raw "priority" = .ok job.priority.value :=
    require_eq (by rw [hfield]; simp [jobToMapping, List.lookup_cons]) (StrEnum.value_nonempty job.priority)
  have hstatus : require raw "status" = .ok job.status.value :=
    require_eq (by rw [hfield]; simp [jobToMapping, List.lookup_cons]) (StrEnum.value_nonempty job.status)
  have hrole : text raw "role" = job.role.map StrEnum.value :=
    text_enum (by rw [hfield]; simp [jobToMapping, List.lookup_cons]; rfl)
  have hkind : text raw "failure_kind" = job.failureKind.map StrEnum.value :=
    text_enum (by rw [hfield]; simp [jobToMapping, List.lookup_cons]; rfl)
  have hcandidate : text raw "candidate_id" = job.candidateId.map EntityId.str :=
    text_id (by rw [hfield]; simp [jobToMapping, List.lookup_cons])
  have hassigned : text raw "assigned_worker_id" = job.assignedWorkerId.map EntityId.str :=
    text_id (by rw [hfield]; simp [jobToMapping, List.lookup_cons])
  have hkey : text raw "idempotency_key" = job.idempotencyKey := by
    refine text_optional _ (by rw [hfield]; simp [jobToMapping, List.lookup_cons]) fun key hkey => ?_
    have hvalid := h.constructed.key_valid key hkey
    rintro rfl
    simp [isIdempotencyKey, isBlank] at hvalid
  have hreason : text raw "failure_reason" = job.failureReason := by
    refine text_optional _ (by rw [hfield]; simp [jobToMapping, List.lookup_cons]) fun reason hreason => ?_
    rintro rfl
    exact h.reason_nonempty hreason
  have hattempt : int raw "attempt" 0 = .ok job.attempt :=
    int_eq (by rw [hfield]; simp [jobToMapping, List.lookup_cons])
  have hmax : int raw "max_attempts" 1 = .ok job.maxAttempts :=
    int_eq (by rw [hfield]; simp [jobToMapping, List.lookup_cons])
  have hcreated : moment iso raw "created_at" = .ok (some job.createdAt) :=
    moment_optional (by rw [hfield]; simp [jobToMapping, List.lookup_cons])
  have hstarted : moment iso raw "started_at" = .ok job.startedAt :=
    moment_optional (by rw [hfield]; simp [jobToMapping, List.lookup_cons])
  have hcompleted : moment iso raw "completed_at" = .ok job.completedAt :=
    moment_optional (by rw [hfield]; simp [jobToMapping, List.lookup_cons])
  have hpayload : jsonObject json raw "payload" = .ok (some job.payload.canonical) :=
    jsonObject_optional (some job.payload) (by rw [hfield]; simp [jobToMapping, List.lookup_cons])
      (by rintro _ ⟨rfl⟩; exact h.payload_representable)
  have hrequirements : jsonObject json raw "requirements" =
      .ok ((dumpRequirements job.requirements).map Mapping.canonical) :=
    jsonObject_optional _ (by rw [hfield]; simp [jobToMapping, List.lookup_cons, requirementsToJson])
      h.requirements_representable
  have hresult : jsonObject json raw "result" = .ok (job.result.map Mapping.canonical) :=
    jsonObject_optional _ (by rw [hfield]; simp [jobToMapping, List.lookup_cons]) h.result_representable
  have hlease := leaseFromMapping_jobToMapping hfield h.ids h.constructed.owns_lease
  have hparsedType : StrEnum.parse JobType job.type.value = .ok job.type := StrEnum.parse_value job.type
  have hparsedPriority : StrEnum.parse Priority job.priority.value = .ok job.priority :=
    StrEnum.parse_value job.priority
  have hparsedStatus : StrEnum.parse JobStatus job.status.value = .ok job.status :=
    StrEnum.parse_value job.status
  simp only [jobFromMapping, hcreated, ok_bind, hrequirements, hid, hrun, hproject,
    EntityId.parse_str h.ids.id, EntityId.parse_str h.ids.runId, EntityId.parse_str h.ids.projectId, htype,
    hparsedType, hrole, StrEnum.parseOptional_value, hcandidate, parseOptional_map_str h.ids.candidateId,
    hpriority, hparsedPriority, hstatus, hparsedStatus, hattempt, hmax, hpayload,
    loadRequirements_canonical, hkey, loadIdempotencyKey_eq h.constructed.key_valid, hlease, hassigned,
    parseOptional_map_str h.ids.assignedWorkerId, hstarted, hcompleted, hresult, hkind, hreason,
    Option.getD_some]
  rw [dif_pos job.role_given, dif_pos job.max_attempts_pos]
  rfl

/-- **Redis record codecs are inverse.** -/
theorem record_codecs_inverse (json : JsonCodec) (iso : IsoCodec) :
    (∀ job : Job, JobEncodable json job →
      jobFromMapping json iso (fun field => List.lookup field (jobToMapping json iso job)) =
        .ok { job.canonical with events := [] }) ∧
    (∀ worker : Worker, WorkerEncodable json worker →
      workerFromMapping json iso (fun field => List.lookup field (workerToMapping json iso worker)) =
        .ok { worker.canonical with events := [] }) :=
  ⟨fun _ h => jobFromMapping_jobToMapping h, fun _ h => workerFromMapping_workerToMapping h⟩

/-! ### A job and a worker -/

namespace Sample

def requirements : JobRequirements := ⟨.coder, none, 1200, false, true⟩

def capabilities : WorkerCapabilities where
  modelId := "qwen"
  contextLength := 8192
  maxConcurrency := 2
  supportedRoles := {.coder}
  supportsTools := true
  supportsJsonSchema := true
  model_given := AgenticPlatform.Sample.model_named
  context_pos := by decide
  concurrency_pos := count_two
  roles_given := by decide

def payload : Mapping := [("instruction", .str "fix")]

/-- A failed attempt that is leased again: an empty result object, a lease and a failure. -/
def job : Job :=
  { Job.create ⟨1⟩ ⟨2⟩ ⟨3⟩ .code IsoCodec.sampleStart (some .coder) (some ⟨4⟩) .high 3
      (by decide) count_three with
    status := .leased
    attempt := 2
    payload := payload
    requirements := some requirements
    idempotencyKey := some "replay-1"
    lease := some ⟨⟨1⟩, ⟨5⟩, ⟨"lease-1", AgenticPlatform.Sample.first_lease_named⟩, IsoCodec.sampleStart, IsoCodec.sampleEnd, by decide⟩
    assignedWorkerId := some ⟨5⟩
    startedAt := some IsoCodec.sampleStart
    result := some []
    failureKind := some .inference
    failureReason := some "timeout" }

def worker : Worker := Worker.register ⟨5⟩ "http://gpu-1:8000" capabilities IsoCodec.sampleStart

def requirementsText : String :=
  "\x7b\"estimated_prompt_tokens\":1200,\"model_id\":null,\"requires_json_schema\":true," ++
    "\"requires_tools\":false,\"role\":\"CODER\"\x7d"

def capabilitiesText : String :=
  "\x7b\"context_length\":8192,\"gpu\":\x7b\"gpu_count\":1,\"gpu_type\":null," ++
    "\"memory_gb\":null,\"tensor_parallel_size\":1\x7d,\"max_concurrency\":2," ++
    "\"metadata\":\x7b\x7d,\"model_id\":\"qwen\",\"supported_roles\":[\"CODER\"]," ++
    "\"supports_json_schema\":true,\"supports_tools\":true\x7d"

def payloadText : String := "\x7b\"instruction\":\"fix\"\x7d"

/-- The JSON text of the four objects above. -/
def codec : JsonCodec where
  dumps mapping :=
    if (List.lookup "role" mapping).isSome then requirementsText
    else if (List.lookup "gpu" mapping).isSome then capabilitiesText
    else if (List.lookup "instruction" mapping).isSome then payloadText
    else "\x7b\x7d"
  loads text :=
    if text = requirementsText then
      .ok (.dict (Mapping.canonical ((dumpRequirements (some requirements)).getD [])))
    else if text = capabilitiesText then .ok (.dict (Mapping.canonical (dumpCapabilities capabilities)))
    else if text = payloadText then .ok (.dict payload.canonical)
    else if text = "\x7b\x7d" then .ok (.dict (Mapping.canonical []))
    else .error (.valueError "Expecting value")

theorem job_encodable : JobEncodable codec job where
  constructed := ⟨by rintro key ⟨rfl⟩; decide, by rintro lease ⟨rfl⟩; rfl⟩
  ids := ⟨by decide, by decide, by decide, by decide, by decide, by rintro lease ⟨rfl⟩; decide⟩
  reason_nonempty := by decide
  payload_representable := ⟨rfl, by decide⟩
  result_representable := by
    rintro result ⟨rfl⟩
    exact ⟨rfl, by decide⟩
  requirements_representable := by
    rintro requirements ⟨rfl⟩
    exact ⟨rfl, by decide⟩

theorem worker_encodable : WorkerEncodable codec worker where
  id_uuid := by decide
  endpoint_valid := by decide
  capabilities_representable := by
    have hne : capabilitiesText ≠ requirementsText := by decide
    have hloads : codec.loads capabilitiesText =
        .ok (.dict (Mapping.canonical (dumpCapabilities capabilities))) := by
      unfold codec
      dsimp only
      rw [if_neg hne, if_pos rfl]
    exact ⟨hloads, show capabilitiesText ≠ "" by decide⟩
  metadata_representable := ⟨rfl, show "\x7b\x7d" ≠ "" by decide⟩

end Sample

theorem record_codecs_inverse_sample :
    jobFromMapping Sample.codec .sample
        (fun field => List.lookup field (jobToMapping Sample.codec .sample Sample.job)) =
      .ok { Sample.job.canonical with events := [] } ∧
    workerFromMapping Sample.codec .sample
        (fun field => List.lookup field (workerToMapping Sample.codec .sample Sample.worker)) =
      .ok { Sample.worker.canonical with events := [] } :=
  ⟨(record_codecs_inverse Sample.codec .sample).1 Sample.job Sample.job_encodable,
    (record_codecs_inverse Sample.codec .sample).2 Sample.worker Sample.worker_encodable⟩

end RedisCodecs

end AgenticPlatform
