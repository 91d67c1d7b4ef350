import AgenticPlatform.RegistryEquivalence
import AgenticPlatform.WorkerCapacity

/-!
# The registries' calls with the times they are given

`heartbeat` and `reap_stale` are handed a `datetime`. A heartbeat whose time has no zone
raises in both registries, but the one in memory calls the method on the worker it stores,
and what the method has assigned by then stays, where Redis has written nothing. A time
without a zone does not reach the methods when stale workers are looked for: subtracting a
stored time raises before.
-/

namespace AgenticPlatform

open Dict

/-- What subtracting a time with a zone from one without raises. -/
def mixedDifference : PyError := .other "can't subtract offset-naive and offset-aware datetimes"

/-- One call of a registry, with its time as the caller has it. -/
inductive TimedRegistryCall where
  | register (worker : Worker)
  | heartbeat (workerId : WorkerId) (load : WorkerLoad) (reportedAt : CallTime)
  | update (worker : Worker)
  | deregister (workerId : WorkerId)
  | get (workerId : WorkerId)
  | listAll
  | listAvailable
  | reapStale (now : CallTime) (timeout : Duration)

/-- The call at the instant its time stands for. -/
def TimedRegistryCall.plain : TimedRegistryCall → RegistryCall
  | .register worker => .register worker
  | .heartbeat workerId load reportedAt => .heartbeat workerId load reportedAt.instant
  | .update worker => .update worker
  | .deregister workerId => .deregister workerId
  | .get workerId => .get workerId
  | .listAll => .listAll
  | .listAvailable => .listAvailable
  | .reapStale now timeout => .reapStale now.instant timeout

namespace WorkerRegistry

/-- The stored worker is changed in place; its heartbeat then may be without a zone. -/
def heartbeatAt (registry : WorkerRegistry) (workerId : WorkerId) (load : WorkerLoad)
    (reportedAt : CallTime) : Call WorkerRegistry Bool :=
  match registry.lookup workerId with
  | none => .returned registry false
  | some worker =>
      let call := worker.heartbeatAt reportedAt none (some load) none
      match call.result with
      | .error e => .raised (registry.insert workerId call.self) e
      | .ok _ => .returned (registry.insert workerId call.self.copy) true

/-- The first live worker is asked how long it has been silent, before any is changed. -/
def reapAt (registry : WorkerRegistry) (now : CallTime) (timeout : Duration) :
    Call WorkerRegistry (List Worker) :=
  if now.aware then
    .returned (registry.reap now.instant timeout).1 (registry.reap now.instant timeout).2
  else if registry.sorted.any (fun worker => worker.status.isLive) then .raised registry mixedDifference
  else .returned registry []

/-- The registry after a call, and the answer. -/
def applyAt (registry : WorkerRegistry) : TimedRegistryCall → Call WorkerRegistry RegistryReply
  | .heartbeat workerId load reportedAt =>
      let call := registry.heartbeatAt workerId load reportedAt
      ⟨call.self, call.result.map .refreshed⟩
  | .reapStale now timeout =>
      let call := registry.reapAt now timeout
      ⟨call.self, call.result.map .workers⟩
  | call => .returned (registry.apply call.plain).1 (registry.apply call.plain).2

end WorkerRegistry

namespace RedisWorkers

variable (json : JsonCodec) (iso : IsoCodec)

/-- The method is called on the decoded record, which is written back if it returns. -/
def heartbeatAt (db : RedisWorkers) (workerId : WorkerId) (load : WorkerLoad)
    (reportedAt : CallTime) : Call RedisWorkers Bool :=
  match db.hashes.lookup workerId.str with
  | none => .returned { db with index := db.index.erase workerId.str } false
  | some raw =>
      match decode json iso raw with
      | .error e => .raised db e
      | .ok worker =>
          let call := worker.heartbeatAt reportedAt none (some load) none
          match call.result with
          | .error e => .raised db e
          | .ok _ =>
              let written := db.write workerId (heartbeatFields iso call.self)
              .returned written.1 written.2

def reapStaleAt (db : RedisWorkers) (now : CallTime) (timeout : Duration) :
    Call RedisWorkers (List Worker) :=
  if now.aware then db.reapStale json iso now.instant timeout
  else
    let call := db.listAll json iso
    match call.result with
    | .error e => .raised call.self e
    | .ok workers =>
        if workers.any fun worker => worker.status.isLive then .raised call.self mixedDifference
        else .returned call.self []

def applyAt (db : RedisWorkers) : TimedRegistryCall → Call RedisWorkers RegistryReply
  | .heartbeat workerId load reportedAt =>
      let call := db.heartbeatAt json iso workerId load reportedAt
      ⟨call.self, call.result.map .refreshed⟩
  | .reapStale now timeout =>
      let call := db.reapStaleAt json iso now timeout
      ⟨call.self, call.result.map .workers⟩
  | call => db.apply json iso call.plain

end RedisWorkers

namespace Registries

variable {json : JsonCodec} {iso : IsoCodec} {registries : Registries}

def timedStep (json : JsonCodec) (iso : IsoCodec) (registries : Registries)
    (call : TimedRegistryCall) : Registries :=
  ⟨(registries.redis.applyAt json iso call).self, (registries.memory.applyAt call).self⟩

/-- Both registries return or raise, and what they return or raise is equal. -/
def AgreeAt (json : JsonCodec) (iso : IsoCodec) (registries : Registries)
    (call : TimedRegistryCall) : Prop :=
  (registries.redis.applyAt json iso call).result =
    (registries.memory.applyAt call).result.map RegistryReply.canonical

/-- A heartbeat of a registered worker is at a time with a zone. -/
def Zoned (registries : Registries) : TimedRegistryCall → Prop
  | .heartbeat workerId _ reportedAt =>
      registries.memory.lookup workerId ≠ none → reportedAt.aware = true
  | _ => True

/-! ### Calls at an instant -/

theorem memory_heartbeatAt {registry : WorkerRegistry} {workerId : WorkerId}
    {reportedAt : CallTime} (load : WorkerLoad)
    (h : registry.lookup workerId ≠ none → reportedAt.aware = true) :
    registry.heartbeatAt workerId load reportedAt =
      .returned (registry.heartbeat workerId load reportedAt.instant).1
        (registry.heartbeat workerId load reportedAt.instant).2 := by
  unfold WorkerRegistry.heartbeatAt WorkerRegistry.heartbeat
  cases hstored : registry.lookup workerId with
  | none => rfl
  | some worker =>
    have haware := h (by rw [hstored]; exact Option.some_ne_none worker)
    simp only [Worker.heartbeatAt_eq haware, Call.result_returned, Call.self_returned]

theorem redis_heartbeatAt {db : RedisWorkers} {workerId : WorkerId} {reportedAt : CallTime}
    (load : WorkerLoad) (h : db.hashes.lookup workerId.str ≠ none → reportedAt.aware = true) :
    db.heartbeatAt json iso workerId load reportedAt =
      db.heartbeat json iso workerId load reportedAt.instant := by
  unfold RedisWorkers.heartbeatAt RedisWorkers.heartbeat
  cases hstored : db.hashes.lookup workerId.str with
  | none => rfl
  | some raw =>
    have haware := h (by rw [hstored]; exact Option.some_ne_none raw)
    simp only [Worker.heartbeatAt_eq haware, Call.result_returned, Call.self_returned] <;> rfl

/-- At a time without a zone a heartbeat raises, whatever it has assigned by then. -/
theorem heartbeatAt_raises (worker : Worker) {reportedAt : CallTime} (h : reportedAt.aware = false)
    (load : WorkerLoad) :
    (worker.heartbeatAt reportedAt none (some load) none).result = .error zonelessEvent := by
  unfold Worker.heartbeatAt
  cases htarget : worker.heartbeatTarget none with
  | none =>
    simp only [Call.result_returned]
    simp [Worker.recordAt, h]
  | some target =>
    have hother : worker.status ≠ target := Worker.heartbeatTarget_ne htarget
    have hne : (worker.reported reportedAt (some load) none).status ≠ target := hother
    simp only [Worker.transitionAt_result hne h, Call.result_raised]

/-- Redis writes nothing then. -/
theorem redis_zoneless_hashes (db : RedisWorkers) (workerId : WorkerId) (load : WorkerLoad)
    {reportedAt : CallTime} (h : reportedAt.aware = false) :
    (db.heartbeatAt json iso workerId load reportedAt).self.hashes = db.hashes := by
  unfold RedisWorkers.heartbeatAt
  split
  · rfl
  · split
    · rfl
    · simp only [heartbeatAt_raises _ h, Call.self_raised]

/-- One call: the keyspace stays a mirror and the answers are equal. -/
theorem timed_step_mirrors (h : RedisWorkers.Mirrors json iso registries.redis registries.memory)
    {call : TimedRegistryCall} (hcall : call.plain.Encodable json) (hzoned : registries.Zoned call) :
    RedisWorkers.Mirrors json iso (registries.timedStep json iso call).redis
      (registries.timedStep json iso call).memory ∧ registries.AgreeAt json iso call := by
  obtain ⟨hnext, hagree⟩ := step_mirrors h hcall
  cases call with
  | register worker => exact ⟨hnext, hagree⟩
  | heartbeat workerId load reportedAt =>
    have hredis : registries.redis.heartbeatAt json iso workerId load reportedAt =
        registries.redis.heartbeat json iso workerId load reportedAt.instant := by
      refine redis_heartbeatAt load fun hstored => hzoned fun hnone => hstored ?_
      exact h.absent workerId hcall hnone
    have hmemory := memory_heartbeatAt load hzoned
    unfold AgreeAt timedStep
    simp only [RedisWorkers.applyAt, WorkerRegistry.applyAt, hredis, hmemory]
    exact ⟨hnext, hagree⟩
  | update worker => exact ⟨hnext, hagree⟩
  | deregister workerId => exact ⟨hnext, hagree⟩
  | get workerId => exact ⟨hnext, hagree⟩
  | listAll => exact ⟨hnext, hagree⟩
  | listAvailable => exact ⟨hnext, hagree⟩
  | reapStale now timeout =>
    unfold AgreeAt timedStep
    by_cases haware : now.aware = true
    · simp only [RedisWorkers.applyAt, WorkerRegistry.applyAt, RedisWorkers.reapStaleAt,
        WorkerRegistry.reapAt, if_pos haware]
      exact ⟨hnext, hagree⟩
    · have hlive : (registries.memory.sorted.map Worker.canonical).any
          (fun worker => worker.status.isLive) =
          registries.memory.sorted.any fun worker => worker.status.isLive := by
        rw [List.any_map]
        rfl
      simp only [RedisWorkers.applyAt, WorkerRegistry.applyAt, RedisWorkers.reapStaleAt,
        WorkerRegistry.reapAt, if_neg haware, h.listAll, Call.result_returned, Call.self_returned, hlive]
      cases registries.memory.sorted.any fun worker => worker.status.isLive with
      | true => exact ⟨h, rfl⟩
      | false => exact ⟨h, rfl⟩

end Registries

namespace Sample

/-- The jobs that a worker which was found reports. -/
def foundJobs : Except PyError RegistryReply → Option Nat
  | .ok (.found (some worker)) => some worker.load.activeJobs
  | _ => none

theorem foundJobs_canonical (found : Option Worker) :
    foundJobs (.ok (.found (found.map Worker.canonical))) = foundJobs (.ok (.found found)) := by
  cases found <;> rfl

theorem first_report_in_range : 0 ≤ IsoCodec.sampleEnd + epochWall ∧
    IsoCodec.sampleEnd + epochWall ≤ maxWall := by decide

end Sample

namespace Registries

variable {json : JsonCodec} {iso : IsoCodec}

/-- A heartbeat without a zone that changes the jobs shows in one registry only. -/
theorem split_by_heartbeat {worker : Worker} {load : WorkerLoad} {reportedAt : CallTime}
    {stored reported : Nat} (hencodable : RedisCodecs.WorkerEncodable json worker)
    (haware : reportedAt.aware = false) (hne : stored ≠ reported)
    (hstored : Sample.foundJobs
      (.ok (.found (((∅ : WorkerRegistry).register worker).get worker.id))) = some stored)
    (hreported : Sample.foundJobs (.ok (.found ((((∅ : WorkerRegistry).register worker).heartbeatAt
      worker.id load reportedAt).self.get worker.id))) = some reported) :
    ¬ Runs.Along (timedStep json iso) (fun registries call => registries.AgreeAt json iso call) empty
      [.register worker, .heartbeat worker.id load reportedAt, .get worker.id] := by
  rintro ⟨-, -, hget, -⟩
  have hmirrors := (@timed_step_mirrors json iso empty RedisWorkers.mirrors_empty (.register worker)
    hencodable trivial).1
  have hredis := hmirrors.get hencodable.id_uuid
  have hhashes := @redis_zoneless_hashes json iso (timedStep json iso empty (.register worker)).redis
    worker.id load reportedAt haware
  unfold RedisWorkers.get at hredis
  rw [← hhashes] at hredis
  have hkept := congrArg (fun found => Sample.foundJobs (found.map RegistryReply.found)) hredis
  have hbefore := hkept.trans ((Sample.foundJobs_canonical _).trans hstored)
  have hafter := (congrArg Sample.foundJobs hget).trans
    ((Sample.foundJobs_canonical _).trans hreported)
  have hsame : some stored = some reported := hbefore.symm.trans hafter
  exact hne (Option.some.inj hsame)

end Registries

end AgenticPlatform
