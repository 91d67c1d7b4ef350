import AgenticPlatform.RedisCodecs
import AgenticPlatform.WorkerPool
import Mathlib.Data.Finset.Sort

/-!
# The Redis worker registry

`RedisWorkerRegistry`: a hash for each worker, written field by field, and the set of the
registered ids. `WORKER_UPDATE` rewrites fields of a hash that exists and never creates
one. The calls of a registry and their answers are those of both adapters.
-/

namespace AgenticPlatform

open Dict

/-- A call of a worker registry. -/
inductive RegistryCall where
  | register (worker : Worker)
  | heartbeat (workerId : WorkerId) (load : WorkerLoad) (reportedAt : Instant)
  | update (worker : Worker)
  | deregister (workerId : WorkerId)
  | get (workerId : WorkerId)
  | listAll
  | listAvailable
  | reapStale (now : Instant) (timeout : Duration)

/-- What a call returns. -/
inductive RegistryReply where
  | done
  | refreshed (known : Bool)
  | found (worker : Option Worker)
  | workers (workers : List Worker)

/-! ### The in-memory registry -/

namespace WorkerRegistry

/-- Every known worker, including draining and unavailable ones. -/
def listAll (registry : WorkerRegistry) : List Worker := registry.sorted.map Worker.copy

def deregister (registry : WorkerRegistry) (workerId : WorkerId) : WorkerRegistry :=
  registry.erase workerId

/-- One turn of the loop of `reap_stale`, with the workers reaped so far. -/
def reapTurn (now : Instant) (timeout : Duration) (reaped : WorkerRegistry × List Worker)
    (stored : Worker) : WorkerRegistry × List Worker :=
  if !stored.status.isLive || !stored.isStale now timeout then reaped
  else
    let reapedWorker := stored.copy.markUnavailable now "heartbeat timeout"
    (reaped.1.insert reapedWorker.id reapedWorker.copy, reaped.2 ++ [reapedWorker])

/-- Mark silent workers unavailable and return them, events included. -/
def reap (registry : WorkerRegistry) (now : Instant) (timeout : Duration) :
    WorkerRegistry × List Worker :=
  registry.sorted.foldl (reapTurn now timeout) (registry, [])

/-- The registry after a call, and the answer. -/
def apply (registry : WorkerRegistry) : RegistryCall → WorkerRegistry × RegistryReply
  | .register worker => (registry.register worker, .done)
  | .heartbeat workerId load reportedAt =>
      ((registry.heartbeat workerId load reportedAt).1,
        .refreshed (registry.heartbeat workerId load reportedAt).2)
  | .update worker => (registry.update worker, .done)
  | .deregister workerId => (registry.deregister workerId, .done)
  | .get workerId => (registry, .found (registry.get workerId))
  | .listAll => (registry, .workers registry.listAll)
  | .listAvailable => (registry, .workers registry.listAvailable)
  | .reapStale now timeout => ((registry.reap now timeout).1, .workers (registry.reap now timeout).2)

end WorkerRegistry

/-! ### The keyspace -/

/-- `HSET key field value ..` -/
def hset (hash : Dict String String) (fields : List (String × String)) : Dict String String :=
  fields.foldl (fun hash field => hash.insert field.1 field.2) hash

/-- The hashes under the text of a worker's id, and the set `workers`. A hash has a field,
    so an empty reply to `HGETALL` means that there is none. -/
structure RedisWorkers where
  hashes : Dict String (Dict String String)
  index : Finset String

namespace RedisWorkers

variable (json : JsonCodec) (iso : IsoCodec)

def empty : RedisWorkers := ⟨∅, ∅⟩

/-- `WORKER_UPDATE`. -/
def workerUpdate (db : RedisWorkers) (key : String) (fields : List (String × String)) :
    RedisWorkers × Bool :=
  match db.hashes.lookup key with
  | none => (db, false)
  | some hash => ({ db with hashes := db.hashes.insert key (hset hash fields) }, true)

/-- `_write`. -/
def write (db : RedisWorkers) (workerId : WorkerId) (fields : List (String × String)) :
    RedisWorkers × Bool := db.workerUpdate workerId.str fields

/-- Registering twice overwrites rather than conflicts. -/
def register (db : RedisWorkers) (worker : Worker) : RedisWorkers where
  hashes := db.hashes.insert worker.id.str
    (hset ((db.hashes.lookup worker.id.str).getD ∅) (RedisCodecs.workerToMapping json iso worker))
  index := insert worker.id.str db.index

/-- The fields that a heartbeat rewrites. -/
def heartbeatFields (worker : Worker) : List (String × String) :=
  [("status", worker.status.value),
    ("last_heartbeat_at", iso.isoformat worker.lastHeartbeatAt),
    ("active_jobs", toString worker.load.activeJobs),
    ("queued_jobs", toString worker.load.queuedJobs)]

/-- `worker_from_mapping` of a hash. -/
def decode (hash : Dict String String) : Except PyError Worker :=
  RedisCodecs.workerFromMapping json iso fun field => hash.lookup field

/-- Refresh liveness and self-reported load. -/
def heartbeat (db : RedisWorkers) (workerId : WorkerId) (load : WorkerLoad) (reportedAt : Instant) :
    Call RedisWorkers Bool :=
  match db.hashes.lookup workerId.str with
  | none => .returned { db with index := db.index.erase workerId.str } false
  | some raw =>
      match decode json iso raw with
      | .error e => .raised db e
      | .ok worker =>
          let worker := worker.heartbeat reportedAt none (some load) none
          let written := db.write workerId (heartbeatFields iso worker)
          .returned written.1 written.2

def update (db : RedisWorkers) (worker : Worker) : RedisWorkers :=
  (db.write worker.id (RedisCodecs.workerToMapping json iso worker)).1

def deregister (db : RedisWorkers) (workerId : WorkerId) : RedisWorkers :=
  ⟨db.hashes.erase workerId.str, db.index.erase workerId.str⟩

def get (db : RedisWorkers) (workerId : WorkerId) : Except PyError (Option Worker) :=
  match db.hashes.lookup workerId.str with
  | none => .ok none
  | some raw => (decode json iso raw).map some

/-- Every known worker; ids without a record are dropped from the index. -/
def listAll (db : RedisWorkers) : Call RedisWorkers (List Worker) :=
  let records := (db.index.sort (· ≤ ·)).filterMap fun workerId => db.hashes.lookup workerId
  match records.mapM (decode json iso) with
  | .error e => .raised db e
  | .ok workers =>
      .returned { db with index := db.index.filter fun workerId => workerId ∈ db.hashes } workers

/-- Workers that may receive new jobs right now. -/
def listAvailable (db : RedisWorkers) : Call RedisWorkers (List Worker) :=
  let call := db.listAll json iso
  ⟨call.self, call.result.map fun workers => workers.filter fun worker =>
    worker.status.acceptsNewJobs && decide (0 < worker.availableSlots)⟩

/-- One turn of the loop of `reap_stale`. -/
def reapTurn (now : Instant) (timeout : Duration) (reaped : RedisWorkers × List Worker)
    (worker : Worker) : RedisWorkers × List Worker :=
  if !worker.status.isLive || !worker.isStale now timeout then reaped
  else
    let worker := worker.markUnavailable now "heartbeat timeout"
    let written := reaped.1.write worker.id [("status", worker.status.value)]
    (written.1, if written.2 then reaped.2 ++ [worker] else reaped.2)

/-- Mark silent workers unavailable and return them, events included. -/
def reapStale (db : RedisWorkers) (now : Instant) (timeout : Duration) :
    Call RedisWorkers (List Worker) :=
  let call := db.listAll json iso
  match call.result with
  | .error e => .raised call.self e
  | .ok workers =>
      let reaped := workers.foldl (reapTurn now timeout) (call.self, [])
      .returned reaped.1 reaped.2

/-- The keyspace after a call, and the answer. -/
def apply (db : RedisWorkers) : RegistryCall → Call RedisWorkers RegistryReply
  | .register worker => .returned (db.register json iso worker) .done
  | .heartbeat workerId load reportedAt =>
      let call := db.heartbeat json iso workerId load reportedAt
      ⟨call.self, call.result.map .refreshed⟩
  | .update worker => .returned (db.update json iso worker) .done
  | .deregister workerId => .returned (db.deregister workerId) .done
  | .get workerId => ⟨db, (db.get json iso workerId).map .found⟩
  | .listAll =>
      let call := db.listAll json iso
      ⟨call.self, call.result.map .workers⟩
  | .listAvailable =>
      let call := db.listAvailable json iso
      ⟨call.self, call.result.map .workers⟩
  | .reapStale now timeout =>
      let call := db.reapStale json iso now timeout
      ⟨call.self, call.result.map .workers⟩

end RedisWorkers

end AgenticPlatform
