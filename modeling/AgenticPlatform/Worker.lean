import AgenticPlatform.Job
import AgenticPlatform.Rounding
import Mathlib.Data.Finset.Insert
import Mathlib.Data.List.Sort

/-!
# Workers and the policies that choose one

The worker aggregate, with its eligibility rules, its lifecycle and its occupancy, and
the two scheduling policies. READY and BUSY are computed from the free slots after
every reservation, release and heartbeat; no other status is touched by that.
-/

namespace AgenticPlatform

inductive WorkerStatus where
  | starting | registering | ready | busy | draining | offline | unhealthy
deriving DecidableEq, Repr

namespace WorkerStatus

def value : WorkerStatus → String
  | starting => "STARTING"
  | registering => "REGISTERING"
  | ready => "READY"
  | busy => "BUSY"
  | draining => "DRAINING"
  | offline => "OFFLINE"
  | unhealthy => "UNHEALTHY"

/-- BUSY still accepts work as long as capacity remains; DRAINING never does. -/
def acceptsNewJobs : WorkerStatus → Bool
  | ready | busy => true
  | _ => false

def isLive : WorkerStatus → Bool
  | offline | unhealthy => false
  | _ => true

end WorkerStatus

/-- Hardware the worker reports; the memory is a float, `mantissa * 2 ^ exponent`. -/
structure GpuSpec where
  gpuType : Option String := none
  gpuCount : Nat := 1
  memoryGb : Option (Int × Int) := none
  tensorParallelSize : Nat := 1
  parallel_pos : 1 ≤ tensorParallelSize := by first | exact count_one | decide

/-- What a worker declares it can do; the checks of the constructor are the proof fields. -/
structure WorkerCapabilities where
  modelId : String
  contextLength : Nat
  maxConcurrency : Nat
  supportedRoles : Finset AgentRole
  gpu : GpuSpec := {}
  supportsTools : Bool
  supportsJsonSchema : Bool
  metadata : Mapping := []
  model_given : modelId ≠ ""
  context_pos : 0 < contextLength
  concurrency_pos : 1 ≤ maxConcurrency
  roles_given : supportedRoles ≠ ∅

structure WorkerLoad where
  activeJobs : Nat
  queuedJobs : Nat
deriving DecidableEq, Repr

inductive WorkerEvent where
  | workerRegistered (workerId : WorkerId) (modelId endpoint : String) (maxConcurrency : Nat)
  | workerHeartbeatReceived (workerId : WorkerId) (status : WorkerStatus) (activeJobs : Nat)
  | workerStatusChanged (workerId : WorkerId) (previous current : WorkerStatus)
  | workerDraining (workerId : WorkerId) (activeJobs : Nat)
  | workerUnavailable (workerId : WorkerId) (reason : String)
  | workerDeregistered (workerId : WorkerId) (graceful : Bool)
deriving DecidableEq, Repr

structure Worker where
  id : WorkerId
  endpoint : String
  capabilities : WorkerCapabilities
  registeredAt : Instant
  status : WorkerStatus
  load : WorkerLoad
  lastHeartbeatAt : Instant
  metadata : Mapping := []
  events : List (Instant × WorkerEvent)

namespace Worker

def record (worker : Worker) (now : Instant) (event : WorkerEvent) : Worker :=
  { worker with events := worker.events ++ [(now, event)] }

def register (workerId : WorkerId) (endpoint : String) (capabilities : WorkerCapabilities)
    (now : Instant) (metadata : Mapping := []) : Worker :=
  Worker.record
    { id := workerId
      endpoint := endpoint
      capabilities := capabilities
      registeredAt := now
      status := .ready
      load := ⟨0, 0⟩
      lastHeartbeatAt := now
      metadata := metadata
      events := [] }
    now (.workerRegistered workerId capabilities.modelId endpoint capabilities.maxConcurrency)

/-- `max(max_concurrency - active_jobs, 0)`. -/
def availableSlots (worker : Worker) : Nat :=
  worker.capabilities.maxConcurrency - worker.load.activeJobs

/-! ### Eligibility -/

/-- Heartbeat silence beyond the configured timeout. -/
def isStale (worker : Worker) (now : Instant) (timeout : Duration) : Bool :=
  decide (timeout < now - worker.lastHeartbeatAt)

/-- Whether this worker may take that job right now. -/
def canAccept (worker : Worker) (requirements : JobRequirements) : Bool :=
  if !worker.status.acceptsNewJobs then false
  else if worker.availableSlots = 0 then false
  else if requirements.role ∉ worker.capabilities.supportedRoles then false
  else if requirements.modelId ≠ none ∧
      requirements.modelId ≠ some worker.capabilities.modelId then false
  else if requirements.requiresTools && !worker.capabilities.supportsTools then false
  else if requirements.requiresJsonSchema && !worker.capabilities.supportsJsonSchema then false
  else decide (requirements.estimatedPromptTokens ≤ worker.capabilities.contextLength)

/-- Why `can_accept` said no; used for diagnosable scheduling errors. -/
def rejectionReason (worker : Worker) (requirements : JobRequirements) : Option String :=
  if !worker.status.acceptsNewJobs then some ("status=" ++ worker.status.value)
  else if worker.availableSlots = 0 then some "at capacity"
  else if requirements.role ∉ worker.capabilities.supportedRoles then
    some ("role " ++ requirements.role.value ++ " unsupported")
  else if requirements.modelId ≠ none ∧
      requirements.modelId ≠ some worker.capabilities.modelId then
    some ("model " ++ worker.capabilities.modelId ++ " != " ++ requirements.modelId.getD "None")
  else if requirements.requiresTools && !worker.capabilities.supportsTools then
    some "tool calling unsupported"
  else if requirements.requiresJsonSchema && !worker.capabilities.supportsJsonSchema then
    some "structured output unsupported"
  else if ¬ requirements.estimatedPromptTokens ≤ worker.capabilities.contextLength then
    some ("prompt exceeds context length " ++ toString worker.capabilities.contextLength)
  else none

/-! ### Lifecycle -/

def transition (worker : Worker) (target : WorkerStatus) (now : Instant) : Worker :=
  if worker.status = target then worker
  else { worker with status := target }.record now
    (.workerStatusChanged worker.id worker.status target)

/-- `_sync_busy`: keep READY/BUSY consistent with capacity; never override DRAINING. -/
def syncBusy (worker : Worker) : Worker :=
  if worker.status.acceptsNewJobs then
    { worker with status := if worker.availableSlots = 0 then .busy else .ready }
  else worker

/-- Record a heartbeat. A worker that reports after being declared unavailable is
    readmitted: a network partition must not permanently remove a healthy GPU. -/
def heartbeat (worker : Worker) (now : Instant) (status : Option WorkerStatus)
    (load : Option WorkerLoad) (capabilities : Option WorkerCapabilities) : Worker :=
  let reported := { worker with
    lastHeartbeatAt := now
    capabilities := capabilities.getD worker.capabilities
    load := load.getD worker.load }
  let admitted := match status with
    | some target =>
        if target ≠ worker.status then reported.transition target now
        else if !worker.status.isLive then reported.transition .ready now
        else reported
    | none => if !worker.status.isLive then reported.transition .ready now else reported
  let synced := admitted.syncBusy
  synced.record now (.workerHeartbeatReceived worker.id synced.status synced.load.activeJobs)

/-- Stop accepting new jobs; already-accepted work may finish. -/
def startDraining (worker : Worker) (now : Instant) : Call Worker Unit :=
  if worker.status = .draining then .returned worker ()
  else if !worker.status.isLive then
    .raised worker (.invalidStateTransition "Worker" worker.status.value WorkerStatus.draining.value)
  else
    .returned ((worker.transition .draining now).record now
      (.workerDraining worker.id worker.load.activeJobs)) ()

/-- Heartbeat timeout: its jobs become retryable. -/
def markUnavailable (worker : Worker) (now : Instant) (reason : String) : Worker :=
  if worker.status = .offline then worker
  else (worker.transition .offline now).record now (.workerUnavailable worker.id reason)

/-- A failed health probe: its jobs become retryable. -/
def markUnhealthy (worker : Worker) (now : Instant) (reason : String) : Worker :=
  if worker.status = .unhealthy then worker
  else (worker.transition .unhealthy now).record now (.workerUnavailable worker.id reason)

def deregister (worker : Worker) (now : Instant) (graceful : Bool) : Worker :=
  (if worker.status ≠ .offline then worker.transition .offline now else worker).record now
    (.workerDeregistered worker.id graceful)

/-! ### Occupancy -/

/-- Account for a job assigned to this worker. -/
def reserveSlot (worker : Worker) (requirements : JobRequirements) : Call Worker Unit :=
  if !worker.canAccept requirements then
    .raised worker (.domainError ("worker is not available (status=" ++ quoted worker.status.value ++
      ", worker_id=" ++ quoted worker.id.str ++ ")"))
  else
    .returned { worker with
      load := ⟨worker.load.activeJobs + 1, worker.load.queuedJobs⟩ }.syncBusy ()

def releaseSlot (worker : Worker) : Worker :=
  { worker with load := ⟨worker.load.activeJobs - 1, worker.load.queuedJobs⟩ }.syncBusy

/-- `_copy_worker`: a detached copy, with an empty event buffer. -/
def copy (worker : Worker) : Worker := { worker with events := [] }

/-! ### What the methods leave alone -/

section Methods

variable (worker : Worker) (now : Instant)

@[simp] theorem transition_id (target : WorkerStatus) : (worker.transition target now).id = worker.id := by
  unfold transition
  split <;> rfl

@[simp] theorem transition_status (target : WorkerStatus) :
    (worker.transition target now).status = target := by
  unfold transition
  split
  · assumption
  · rfl

@[simp] theorem syncBusy_id : worker.syncBusy.id = worker.id := by
  unfold syncBusy
  split <;> rfl

@[simp] theorem syncBusy_load : worker.syncBusy.load = worker.load := by
  unfold syncBusy
  split <;> rfl

@[simp] theorem syncBusy_capabilities : worker.syncBusy.capabilities = worker.capabilities := by
  unfold syncBusy
  split <;> rfl

/-- READY and BUSY are exchanged for one another only. -/
@[simp] theorem syncBusy_accepts :
    worker.syncBusy.status.acceptsNewJobs = worker.status.acceptsNewJobs := by
  unfold syncBusy
  split
  · rename_i haccepts
    rw [haccepts]
    dsimp only
    split <;> rfl
  · rfl

@[simp] theorem heartbeat_id (status : Option WorkerStatus) (load : Option WorkerLoad)
    (capabilities : Option WorkerCapabilities) :
    (worker.heartbeat now status load capabilities).id = worker.id := by
  unfold heartbeat record
  dsimp only
  rw [syncBusy_id]
  split
  · split
    · simp
    · split <;> simp
  · split <;> simp

/-- A heartbeat that reports no status leaves a live worker that takes no jobs so. -/
theorem heartbeat_declines (load : Option WorkerLoad) (capabilities : Option WorkerCapabilities)
    (hlive : worker.status.isLive = true) (h : worker.status.acceptsNewJobs = false) :
    (worker.heartbeat now none load capabilities).status.acceptsNewJobs = false := by
  unfold heartbeat record
  simp [hlive, h]

theorem startDraining_status (h : (worker.startDraining now).result = .ok ()) :
    (worker.startDraining now).self.status = .draining := by
  unfold startDraining at h ⊢
  split
  · assumption
  · rename_i hnot
    rw [if_neg hnot] at h
    split
    · rename_i hdead
      rw [if_pos hdead] at h
      cases h
    · simp [record]

theorem markUnavailable_id (reason : String) : (worker.markUnavailable now reason).id = worker.id := by
  unfold markUnavailable
  split
  · rfl
  · simp [record]

theorem markUnavailable_status (reason : String) :
    (worker.markUnavailable now reason).status = .offline := by
  unfold markUnavailable
  split
  · assumption
  · simp [record]

/-- A worker that takes a job has a free slot for it. -/
theorem free_of_canAccept {worker : Worker} {requirements : JobRequirements}
    (h : worker.canAccept requirements = true) :
    worker.status.acceptsNewJobs = true ∧
      worker.load.activeJobs < worker.capabilities.maxConcurrency := by
  unfold canAccept at h
  split at h
  · cases h
  · rename_i haccepts
    split at h
    · cases h
    · rename_i hslots
      refine ⟨by simpa using haccepts, ?_⟩
      unfold availableSlots at hslots
      omega

/-- What a reservation that returns did to the copy. -/
theorem reserveSlot_ok {requirements : JobRequirements}
    (h : worker.canAccept requirements = true) :
    (worker.reserveSlot requirements).result = .ok () ∧
      (worker.reserveSlot requirements).self.id = worker.id ∧
      (worker.reserveSlot requirements).self.capabilities = worker.capabilities ∧
      (worker.reserveSlot requirements).self.load.activeJobs = worker.load.activeJobs + 1 ∧
      (worker.reserveSlot requirements).self.status.acceptsNewJobs = true := by
  have haccepts := (free_of_canAccept h).1
  unfold reserveSlot
  simp [h, haccepts]

@[simp] theorem releaseSlot_id : worker.releaseSlot.id = worker.id := by
  simp [releaseSlot]

@[simp] theorem releaseSlot_capabilities : worker.releaseSlot.capabilities = worker.capabilities := by
  simp [releaseSlot]

@[simp] theorem releaseSlot_activeJobs :
    worker.releaseSlot.load.activeJobs = worker.load.activeJobs - 1 := by
  simp [releaseSlot]

@[simp] theorem releaseSlot_accepts :
    worker.releaseSlot.status.acceptsNewJobs = worker.status.acceptsNewJobs := by
  simp [releaseSlot]

end Methods

end Worker

/-! ### Scheduling policies -/

/-- A policy with its own state: what it picks, and that it only picks among the
    candidates one that can take the job. -/
structure WorkerScheduler where
  State : Type
  initial : State
  select : State → List Worker → JobRequirements → State × Option Worker
  selects : ∀ {state workers requirements chosen},
    (select state workers requirements).2 = some chosen →
      chosen ∈ workers ∧ chosen.canAccept requirements = true

namespace WorkerScheduler

/-- Workers that may take this job right now. -/
def eligibleWorkers (workers : List Worker) (requirements : JobRequirements) : List Worker :=
  workers.filter fun worker => worker.canAccept requirements

theorem mem_eligibleWorkers {workers : List Worker} {requirements : JobRequirements}
    {worker : Worker} : worker ∈ eligibleWorkers workers requirements ↔
      worker ∈ workers ∧ worker.canAccept requirements = true := List.mem_filter

/-- `active_jobs / max_concurrency`, a binary64 number as `(m, e)` for `m * 2 ^ e`. -/
def utilization (worker : Worker) : Nat × Int :=
  trueDivide worker.load.activeJobs worker.capabilities.maxConcurrency

/-- `left < right` on binary64 numbers. -/
def doubleLt (left right : Nat × Int) : Bool :=
  let low := min left.2 right.2
  decide (left.1 * 2 ^ (left.2 - low).toNat < right.1 * 2 ^ (right.2 - low).toNat)

/-- The key of the default policy: utilisation, free slots, context window, id. -/
def rankLt (left right : Worker) : Bool :=
  if doubleLt (utilization left) (utilization right) then true
  else if doubleLt (utilization right) (utilization left) then false
  else if left.availableSlots ≠ right.availableSlots then
    decide (right.availableSlots < left.availableSlots)
  else if left.capabilities.contextLength ≠ right.capabilities.contextLength then
    decide (right.capabilities.contextLength < left.capabilities.contextLength)
  else decide (left.id.chars < right.id.chars)

/-- Stable, smallest key first. -/
def sortedBy (less : Worker → Worker → Bool) (workers : List Worker) : List Worker :=
  workers.insertionSort fun left right => less right left = false

theorem mem_sortedBy {less : Worker → Worker → Bool} {workers : List Worker} {worker : Worker} :
    worker ∈ sortedBy less workers ↔ worker ∈ workers := List.mem_insertionSort _

/-- `LeastLoadedCompatibleScheduler`: the compatible worker with the most headroom. -/
def leastLoaded : WorkerScheduler where
  State := Unit
  initial := ()
  select _ workers requirements :=
    ((), (sortedBy rankLt (eligibleWorkers workers requirements)).head?)
  selects h := mem_eligibleWorkers.mp (mem_sortedBy.mp (List.mem_of_mem_head? h))

/-- `RoundRobinScheduler`: even distribution, ignoring load. -/
def roundRobin : WorkerScheduler where
  State := Nat
  initial := 0
  select cursor workers requirements :=
    let ranked := sortedBy (fun left right => decide (left.id.chars < right.id.chars))
      (eligibleWorkers workers requirements)
    if ranked.isEmpty then (cursor, none)
    else ((cursor + 1) % ranked.length, ranked[cursor % ranked.length]?)
  selects := by
    intro cursor workers requirements chosen h
    dsimp only at h
    split at h
    · cases h
    · exact mem_eligibleWorkers.mp (mem_sortedBy.mp (List.mem_of_getElem? h))

end WorkerScheduler

theorem Sample.model_named : "qwen" ≠ "" := by decide

end AgenticPlatform
