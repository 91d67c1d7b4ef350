import AgenticPlatform.RedisWorkerRegistry
import AgenticPlatform.WorkerCapacity
import AgenticPlatform.WorkerDraining

/-!
# Registering a worker again

`RegisterWorkerUseCase.execute` reads the registry once and writes it once, and other
tasks may call the registry in between. A first registration builds the worker from the
command; a later one sends the stored worker a heartbeat with the capabilities of the
command, and its address and metadata stay what they were.
-/

namespace AgenticPlatform

open Dict

/-- A worker announcing itself. -/
structure RegisterWorkerCommand where
  endpoint : String
  modelId : String
  contextLength : Int
  maxConcurrency : Int := 1
  workerId : Option WorkerId := none
  supportedRoles : Finset AgentRole := {.planner, .coder, .reviewer}
  gpu : GpuSpec := {}
  supportsTools : Bool := true
  supportsJsonSchema : Bool := true
  metadata : Mapping := []

/-- `WorkerCapabilities(...)` of a command. A negative count is refused as zero is. -/
def RegisterWorkerCommand.capabilities (command : RegisterWorkerCommand) :
    Except PyError WorkerCapabilities :=
  WorkerCapabilities.build command.modelId command.contextLength.toNat command.maxConcurrency.toNat
    command.supportedRoles command.gpu command.supportsTools command.supportsJsonSchema
    command.metadata

structure WorkerView where
  id : WorkerId
  modelId : String
  status : WorkerStatus
  endpoint : String
  capacity : Nat
  activeJobs : Nat
  contextLength : Nat
  gpuType : Option String
  gpuCount : Nat
  supportedRoles : List String
  registeredAt : Instant
  lastHeartbeatAt : Instant

/-- `WorkerView.of`. -/
def WorkerView.of (worker : Worker) : WorkerView where
  id := worker.id
  modelId := worker.capabilities.modelId
  status := worker.status
  endpoint := worker.endpoint
  capacity := worker.capabilities.maxConcurrency
  activeJobs := worker.load.activeJobs
  contextLength := worker.capabilities.contextLength
  gpuType := worker.capabilities.gpu.gpuType
  gpuCount := worker.capabilities.gpu.gpuCount
  supportedRoles := (worker.capabilities.supportedRoles.image AgentRole.value).sort (· ≤ ·)
  registeredAt := worker.registeredAt
  lastHeartbeatAt := worker.lastHeartbeatAt

/-- The registry after a list of calls. -/
abbrev WorkerRegistry.after : WorkerRegistry → List RegistryCall → WorkerRegistry :=
  Runs.after fun registry call => (registry.apply call).1

namespace RegisterWorkerUseCase

/-- The worker that is registered, given what the registry had under its id. -/
def admitted (command : RegisterWorkerCommand) (capabilities : WorkerCapabilities)
    (endpoint : String) (workerId : WorkerId) (now : Instant) : Option Worker → Worker
  | some existing => existing.heartbeat now (some .ready) none (some capabilities)
  | none => Worker.register workerId endpoint capabilities now command.metadata

/-- `execute`, with the registry calls that other tasks make between its own two, and the
    id that `next_id` would draw. It returns the view and the events it publishes. -/
def execute (command : RegisterWorkerCommand) (now : Instant) (nextId : WorkerId)
    (registry : WorkerRegistry) (meanwhile : List RegistryCall) :
    Call WorkerRegistry (WorkerView × List (Instant × WorkerEvent)) :=
  match command.capabilities with
  | .error e => .raised registry e
  | .ok capabilities =>
      match loadEndpoint command.endpoint with
      | .error e => .raised registry e
      | .ok endpoint =>
          let existing := command.workerId.bind registry.get
          let worker := admitted command capabilities endpoint (command.workerId.getD nextId) now
            existing
          .returned ((registry.after meanwhile).register worker) (.of worker, worker.events)

end RegisterWorkerUseCase

/-! ### Every worker stays under its id -/

namespace WorkerRegistry

variable {registry : WorkerRegistry}

theorem Keyed.erase (h : registry.Keyed) (id : WorkerId) :
    WorkerRegistry.Keyed (registry.erase id) := by
  intro id' worker hfound
  rw [lookup_erase_ite] at hfound
  split at hfound
  · cases hfound
  · exact h id' worker hfound

theorem Keyed.reap (h : registry.Keyed) (now : Instant) (timeout : Duration) :
    (registry.reap now timeout).1.Keyed := by
  suffices hturns : ∀ (workers : List Worker) (reaped : WorkerRegistry × List Worker),
      reaped.1.Keyed → (workers.foldl (reapTurn now timeout) reaped).1.Keyed from
    hturns registry.sorted (registry, []) h
  intro workers
  induction workers with
  | nil => exact fun _ hkeyed => hkeyed
  | cons stored rest ih =>
    intro reaped hkeyed
    apply ih
    rw [reapTurn]
    split
    · exact hkeyed
    · exact hkeyed.insert rfl

theorem Keyed.apply (h : registry.Keyed) (call : RegistryCall) : (registry.apply call).1.Keyed := by
  cases call with
  | register worker => exact h.insert rfl
  | heartbeat workerId load reportedAt => exact h.heartbeat workerId load reportedAt
  | update worker => exact h.update worker
  | deregister workerId => exact h.erase workerId
  | get workerId => exact h
  | listAll => exact h
  | listAvailable => exact h
  | reapStale now timeout => exact h.reap now timeout

theorem Keyed.after (h : registry.Keyed) (calls : List RegistryCall) :
    (registry.after calls).Keyed :=
  Runs.after_invariant h fun _ call hkeyed => hkeyed.apply call

theorem keyed_empty : WorkerRegistry.Keyed ∅ := by
  intro id worker hfound
  cases hfound

/-- Once it takes jobs, a worker is listed exactly when it has a free slot. -/
theorem Keyed.listed_iff (h : registry.Keyed) {id : WorkerId} {worker : Worker}
    (hfound : registry.lookup id = some worker) (haccepts : worker.status.acceptsNewJobs = true) :
    (∃ listed ∈ registry.listAvailable, listed.id = id) ↔ 0 < worker.availableSlots := by
  constructor
  · rintro ⟨listed, hlisted, hid⟩
    obtain ⟨id', stored, hstored, -, hslots, hcopy⟩ := mem_listAvailable.mp hlisted
    have hsame : stored.id = id := by
      rw [← hid, ← hcopy]
      rfl
    rw [← h id' stored hstored, hsame, hfound] at hstored
    cases hstored
    exact hslots
  · intro hslots
    have hlisted := mem_listAvailable.mpr ⟨id, worker, hfound, haccepts, hslots, rfl⟩
    exact ⟨worker.copy, hlisted, h id worker hfound⟩

end WorkerRegistry

namespace RegisterWorkerUseCase

variable {command : RegisterWorkerCommand} {capabilities : WorkerCapabilities} {endpoint : String}
  {id nextId : WorkerId} {now : Instant} {registry : WorkerRegistry} {meanwhile : List RegistryCall}

/-! ### The worker that is written -/

theorem heartbeat_ready (worker : Worker) (now : Instant) (load : Option WorkerLoad)
    (capabilities : Option WorkerCapabilities) :
    (worker.heartbeat now (some .ready) load capabilities).status.acceptsNewJobs = true := by
  unfold Worker.heartbeat Worker.record
  dsimp only
  rw [Worker.syncBusy_accepts]
  split
  · rw [Worker.transition_status]
    rfl
  · rename_i hready
    have hstatus : worker.status = .ready := by simpa using Eq.symm (not_not.mp hready)
    rw [if_neg (by rw [hstatus]; decide)]
    show worker.status.acceptsNewJobs = true
    rw [hstatus]
    rfl

/-- What both ways of registering have in common. -/
theorem admitted_spec {existing : Option Worker} (hid : ∀ worker ∈ existing, worker.id = id) :
    let worker := admitted command capabilities endpoint id now existing
    worker.id = id ∧ worker.capabilities = capabilities ∧
      worker.status.acceptsNewJobs = true := by
  cases existing with
  | none => exact ⟨rfl, rfl, rfl⟩
  | some existing =>
    refine ⟨?_, ?_, heartbeat_ready _ _ _ _⟩
    · rw [admitted, Worker.heartbeat_id]
      exact hid existing rfl
    · rw [admitted, Worker.heartbeat_eq]
      rfl

/-- A first registration takes address and metadata from the command, and a later one
    leaves those of the stored worker. -/
theorem admitted_address (existing : Option Worker) :
    ((admitted command capabilities command.endpoint id now existing).endpoint = command.endpoint ∧
      (admitted command capabilities command.endpoint id now existing).metadata =
        command.metadata) ↔
      ∀ stored ∈ existing, stored.endpoint = command.endpoint ∧
        stored.metadata = command.metadata := by
  cases existing with
  | none => simp [admitted, Worker.register, Worker.record]
  | some existing =>
    rw [admitted, Worker.heartbeat_eq]
    simp

/-! ### The record that is left -/

/-- The record of the worker has the address, the metadata and the capabilities of the
    command, and is offered to the scheduler exactly when it has a free slot. -/
def Refreshed (registry : WorkerRegistry) (id : WorkerId) (command : RegisterWorkerCommand) : Prop :=
  ∃ worker, registry.lookup id = some worker ∧ worker.endpoint = command.endpoint ∧
    .ok worker.capabilities = command.capabilities ∧ worker.metadata = command.metadata ∧
    ((∃ listed ∈ registry.listAvailable, listed.id = id) ↔ 0 < worker.availableSlots)

theorem loadEndpoint_ok {url : String} (h : loadEndpoint url = .ok endpoint) : endpoint = url := by
  rw [loadEndpoint] at h
  split at h
  · cases h
    rfl
  · cases h

/-- What `execute` did if it returned. -/
theorem execute_eq_returned {answer : WorkerView × List (Instant × WorkerEvent)}
    (h : (execute command now nextId registry meanwhile).result = .ok answer) :
    ∃ capabilities, command.capabilities = .ok capabilities ∧
      (execute command now nextId registry meanwhile).self =
        (registry.after meanwhile).register (admitted command capabilities command.endpoint
          (command.workerId.getD nextId) now (command.workerId.bind registry.get)) := by
  rcases hcapabilities : command.capabilities with e | capabilities
  · simp [execute, hcapabilities] at h
  · rcases haddress : loadEndpoint command.endpoint with e | endpoint
    · simp [execute, hcapabilities, haddress] at h
    · obtain rfl := loadEndpoint_ok haddress
      exact ⟨capabilities, rfl, by simp [execute, hcapabilities, haddress]⟩

/-- **Re-registration leaves the announced record exactly when nothing else was stored.**
    Whatever happened to the worker before, and whatever other tasks do meanwhile, the
    record has the capabilities of the command and is offered exactly when it has a free
    slot; address and metadata are those of the command if and only if the worker was not
    registered, or was registered with them. -/
theorem refreshed_iff (before meanwhile : List RegistryCall) (hid : command.workerId = some id)
    (answer : WorkerView × List (Instant × WorkerEvent))
    (hreturned : (execute command now nextId (WorkerRegistry.after ∅ before) meanwhile).result =
      .ok answer) :
    Refreshed (execute command now nextId (WorkerRegistry.after ∅ before) meanwhile).self id command ↔
      ∀ stored, (WorkerRegistry.after ∅ before).lookup id = some stored →
        stored.endpoint = command.endpoint ∧ stored.metadata = command.metadata := by
  have hkeyed : (WorkerRegistry.after ∅ before).Keyed := WorkerRegistry.keyed_empty.after before
  generalize WorkerRegistry.after ∅ before = registry at hreturned hkeyed ⊢
  obtain ⟨capabilities, hcapabilities, hself⟩ := execute_eq_returned hreturned
  rw [hid] at hself
  have hstored : ∀ worker ∈ registry.get id, worker.id = id := by
    intro worker hget
    obtain ⟨stored, hfound, rfl⟩ := Option.map_eq_some_iff.mp hget
    exact hkeyed id stored hfound
  obtain ⟨hworker, hdeclared, haccepts⟩ :=
    @admitted_spec command capabilities command.endpoint id now _ hstored
  have haddress := @admitted_address command capabilities id now (registry.get id)
  rw [hself]
  show Refreshed ((registry.after meanwhile).register (admitted command capabilities
    command.endpoint id now (registry.get id))) id command ↔ _
  generalize admitted command capabilities command.endpoint id now (registry.get id) = worker at *
  have hlookup : ((registry.after meanwhile).register worker).lookup id = some worker.copy := by
    rw [WorkerRegistry.register, hworker, lookup_insert_ite, if_pos rfl]
  have hinserted : WorkerRegistry.Keyed ((registry.after meanwhile).insert worker.id worker.copy) :=
    (hkeyed.after meanwhile).insert rfl
  have hlisted := hinserted.listed_iff hlookup haccepts
  have hsame : (∀ stored ∈ registry.get id, stored.endpoint = command.endpoint ∧
      stored.metadata = command.metadata) ↔ ∀ stored, registry.lookup id = some stored →
        stored.endpoint = command.endpoint ∧ stored.metadata = command.metadata := by
    simp [WorkerRegistry.get, Worker.copy]
  rw [← hsame, ← haddress]
  constructor
  · rintro ⟨found, hfound, hendpoint, -, hmetadata, -⟩
    rw [hlookup] at hfound
    cases hfound
    exact ⟨hendpoint, hmetadata⟩
  · rintro ⟨hendpoint, hmetadata⟩
    refine ⟨worker.copy, hlookup, hendpoint, ?_, hmetadata, hlisted⟩
    rw [hcapabilities]
    exact congrArg Except.ok hdeclared

end RegisterWorkerUseCase

/-! ### A worker that restarts elsewhere -/

namespace Sample

/-- What a worker with the given address sends. -/
def announcement (endpoint : String) : RegisterWorkerCommand where
  endpoint := endpoint
  modelId := "qwen"
  contextLength := 8192
  workerId := some ⟨4⟩

end Sample

namespace RegisterWorkerUseCase

/-- A worker that restarts at its old address. -/
theorem refreshed_iff_sample :
    Refreshed (execute (Sample.announcement "http://10.0.0.1:8000") 60 ⟨9⟩
      (WorkerRegistry.after ∅ [.register (Worker.register ⟨4⟩ "http://10.0.0.1:8000" Sample.gpu 0)])
      []).self ⟨4⟩ (Sample.announcement "http://10.0.0.1:8000") := by
  refine (refreshed_iff [.register (Worker.register ⟨4⟩ "http://10.0.0.1:8000" Sample.gpu 0)] []
    rfl _ rfl).mpr ?_
  intro stored hfound
  cases hfound
  exact ⟨rfl, rfl⟩

/-- A worker registers, restarts on another host and registers again: the command is
    accepted, and jobs still go to the host it left. -/
theorem moved_worker_keeps_address :
    ∃ registry answer,
      (execute (Sample.announcement "http://10.0.0.1:8000") 0 ⟨9⟩ ∅ []).self = registry ∧
      (execute (Sample.announcement "http://10.0.0.2:8000") 60 ⟨9⟩ registry []).result = .ok answer ∧
      (execute (Sample.announcement "http://10.0.0.2:8000") 60 ⟨9⟩ registry
        []).self.listAvailable.map Worker.endpoint = ["http://10.0.0.1:8000"] ∧
      ¬ Refreshed (execute (Sample.announcement "http://10.0.0.2:8000") 60 ⟨9⟩ registry []).self ⟨4⟩
        (Sample.announcement "http://10.0.0.2:8000") := by
  refine ⟨_, _, rfl, rfl, by decide +kernel, ?_⟩
  rintro ⟨worker, hfound, hendpoint, -⟩
  have hstale : ((execute (Sample.announcement "http://10.0.0.2:8000") 60 ⟨9⟩
      (execute (Sample.announcement "http://10.0.0.1:8000") 0 ⟨9⟩ ∅ []).self
      []).self.lookup ⟨4⟩).map Worker.endpoint = some "http://10.0.0.1:8000" := by decide +kernel
  rw [hfound] at hstale
  have hold : worker.endpoint = "http://10.0.0.1:8000" := by simpa using hstale
  rw [hendpoint] at hold
  exact absurd hold (by decide)

end RegisterWorkerUseCase

end AgenticPlatform
