import AgenticPlatform.JobQueue
import AgenticPlatform.SortedSet

/-!
# The Redis queue's scripts

The keyspace of `RedisJobQueue` and the scripts that change it. Redis runs a script to
completion, so each of them is one function of the keyspace. A hash field is the value
its text stands for, and an absent or empty field is `none`; a JSON field is the mapping
it decodes to.
-/

namespace AgenticPlatform

open Dict

/-- The job hash: the fields of `job_to_mapping`. -/
structure JobHash where
  id : JobId
  runId : RunId
  projectId : ProjectId
  type : JobType
  role : Option AgentRole
  candidateId : Option CandidateId
  priority : Priority
  status : JobStatus
  attempt : Nat
  maxAttempts : Nat
  payload : Mapping
  requirements : Option JobRequirements
  idempotencyKey : Option String
  createdAt : Instant
  startedAt : Option Instant
  completedAt : Option Instant
  result : Option Mapping
  failureKind : Option FailureKind
  failureReason : Option String
  assignedWorkerId : Option WorkerId
  leaseToken : Option LeaseToken
  leaseHolder : Option WorkerId
  leaseAcquiredAt : Option Instant
  leaseExpiresAt : Option Instant
  score : Int
  acked : Bool

/-- `CLEAR_LEASE`. -/
def JobHash.clearLease (hash : JobHash) : JobHash :=
  { hash with
    assignedWorkerId := none
    leaseToken := none
    leaseHolder := none
    leaseAcquiredAt := none
    leaseExpiresAt := none }

/-- The keys of `Keyspace` that hold the queue. -/
structure RedisQueue where
  jobs : Dict JobId JobHash
  ready : Dict JobType (SortedSet JobId)
  leases : SortedSet JobId
  runs : Dict RunId (List JobId)

/-- `SMEMBERS` returns the members of a set in an order of the server's own. -/
structure SetOrder where
  smembers : List JobId → List JobId
  perm : ∀ members, (smembers members).Perm members

namespace RedisQueue

def empty : RedisQueue := ⟨∅, ∅, ∅, ∅⟩

/-- `ENQUEUE`. -/
def enqueueScript (db : RedisQueue) (jobId : JobId) (jobType : JobType) (runId : RunId)
    (score : Int) (record : JobHash) : RedisQueue :=
  let status := (db.jobs.lookup jobId).map JobHash.status
  if status = some .leased ∨ status = some .running then db
  else if (db.jobs.lookup jobId).map JobHash.acked = some true then db
  else
    { db with
      jobs := db.jobs.insert jobId record
      ready := setInner db.ready jobType jobId score
      runs := db.runs.insert runId (((db.runs.lookup runId).getD []).insert jobId) }

/-- Keep the better of two heads; the set read first wins a tie. -/
def betterHead (best : Option (JobType × JobId × Int)) (jobType : JobType)
    (head : Option (JobId × Int)) : Option (JobType × JobId × Int) :=
  match head with
  | none => best
  | some (jobId, score) =>
      match best with
      | none => some (jobType, jobId, score)
      | some (bestType, bestId, bestScore) =>
          if score < bestScore then some (jobType, jobId, score)
          else some (bestType, bestId, bestScore)

/-- The scan over the ready sets of `CLAIM`. -/
def bestHead (db : RedisQueue) (jobTypes : List JobType) : Option (JobType × JobId × Int) :=
  jobTypes.foldl (fun best jobType =>
    betterHead best jobType (SortedSet.head EntityId.chars (inner db.ready jobType))) none

/-- The rounds of `CLAIM`; the answer is the record as it was before the lease. -/
def claimRounds (jobTypes : List JobType) (consumer : WorkerId) (token : LeaseToken)
    (now expiresAt : Instant) (expiryMs : Int) : Nat → RedisQueue → RedisQueue × Option JobHash
  | 0, db => (db, none)
  | rounds + 1, db =>
      match db.bestHead jobTypes with
      | none => (db, none)
      | some (jobType, jobId, _) =>
          let db := { db with ready := popInner db.ready jobType jobId }
          match db.jobs.lookup jobId with
          | none => claimRounds jobTypes consumer token now expiresAt expiryMs rounds db
          | some before =>
              if before.status = .queued then
                ({ db with
                    jobs := db.jobs.insert jobId { before with
                      status := .leased
                      attempt := before.attempt + 1
                      assignedWorkerId := some consumer
                      startedAt := some (before.startedAt.getD now)
                      leaseToken := some token
                      leaseHolder := some consumer
                      leaseAcquiredAt := some now
                      leaseExpiresAt := some expiresAt }
                    leases := db.leases.insert jobId expiryMs }, some before)
              else claimRounds jobTypes consumer token now expiresAt expiryMs rounds db

/-- `CLAIM`. -/
def claimScript (db : RedisQueue) (jobTypes : List JobType) (consumer : WorkerId)
    (token : LeaseToken) (now expiresAt : Instant) (expiryMs : Int) :
    RedisQueue × Option JobHash :=
  claimRounds jobTypes consumer token now expiresAt expiryMs 64 db

/-- `RENEW`; the answer is when the lease was acquired and by whom. -/
def renewScript (db : RedisQueue) (jobId : JobId) (token : LeaseToken) (nowMs expiryMs : Int)
    (expiresAt : Instant) : RedisQueue × Option (Option Instant × Option WorkerId) :=
  match db.jobs.lookup jobId with
  | none => (db, none)
  | some hash =>
      if hash.leaseToken = some token then
        match db.leases.lookup jobId with
        | none => (db, none)
        | some expiry =>
            if expiry ≤ nowMs then (db, none)
            else
              ({ db with
                  jobs := db.jobs.insert jobId { hash with leaseExpiresAt := some expiresAt }
                  leases := db.leases.insert jobId expiryMs },
                some (hash.leaseAcquiredAt, hash.leaseHolder))
      else (db, none)

/-- `SREM`. -/
def srem (runs : Dict RunId (List JobId)) (runId : RunId) (jobId : JobId) :
    Dict RunId (List JobId) :=
  runs.insert runId (((runs.lookup runId).getD []).filter fun other => other ≠ jobId)

/-- `ACKNOWLEDGE`. -/
def acknowledgeScript (db : RedisQueue) (jobId : JobId) (token : LeaseToken) : RedisQueue :=
  match db.jobs.lookup jobId with
  | none => db
  | some hash =>
      if hash.leaseToken = some token then
        { db with
          leases := db.leases.erase jobId
          jobs := db.jobs.insert jobId { hash.clearLease with acked := true }
          runs := srem db.runs hash.runId jobId }
      else db

/-- `RELEASE`. -/
def releaseScript (db : RedisQueue) (jobId : JobId) (token : LeaseToken) (requeue : Bool) :
    RedisQueue :=
  match db.jobs.lookup jobId with
  | none => db
  | some hash =>
      if hash.leaseToken = some token then
        let db := { db with leases := db.leases.erase jobId }
        if requeue then
          { db with
            jobs := db.jobs.insert jobId { hash.clearLease with status := .queued }
            ready := setInner db.ready hash.type jobId hash.score }
        else { db with jobs := db.jobs.insert jobId { hash.clearLease with status := .pending } }
      else db

/-- One turn of the loop of `RECLAIM_EXPIRED`. -/
def reclaimTurn (db : RedisQueue) (now : Instant) (jobId : JobId) : RedisQueue × Option JobId :=
  let db := { db with leases := db.leases.erase jobId }
  match db.jobs.lookup jobId with
  | none => (db, none)
  | some hash =>
      if hash.attempt < hash.maxAttempts then
        ({ db with
            jobs := db.jobs.insert jobId { hash.clearLease with status := .queued }
            ready := setInner db.ready hash.type jobId hash.score }, some jobId)
      else
        ({ db with
            jobs := db.jobs.insert jobId { hash.clearLease with
              status := .dead
              failureKind := some .infrastructure
              failureReason := some "lease expired and retry budget exhausted"
              completedAt := some now } }, some jobId)

/-- One turn of the loop of `CANCEL_RUN_JOBS`. -/
def cancelTurn (db : RedisQueue) (runId : RunId) (jobId : JobId) : RedisQueue × Option JobId :=
  match db.jobs.lookup jobId with
  | none => ({ db with runs := srem db.runs runId jobId }, none)
  | some hash =>
      if hash.status ≠ .succeeded ∧ hash.status ≠ .dead ∧ hash.status ≠ .cancelled then
        ({ db with
            ready := popInner db.ready hash.type jobId
            leases := db.leases.erase jobId
            jobs := db.jobs.insert jobId { hash.clearLease with
              status := .cancelled
              failureKind := some .cancelled } }, some jobId)
      else (db, none)

/-- The `for _, job_id in ipairs(...)` of the last two scripts, collecting the ids a turn
    appends. -/
def forEach (turn : RedisQueue → JobId → RedisQueue × Option JobId) :
    List JobId → RedisQueue → RedisQueue × List JobId
  | [], db => (db, [])
  | jobId :: rest, db =>
      let first := turn db jobId
      let others := forEach turn rest first.1
      (others.1, first.2.toList ++ others.2)

/-- `RECLAIM_EXPIRED`. -/
def reclaimExpiredScript (db : RedisQueue) (nowMs limit : Int) (now : Instant) :
    RedisQueue × List JobId :=
  forEach (fun db jobId => db.reclaimTurn now jobId)
    (SortedSet.rangeByScore EntityId.chars db.leases nowMs limit) db

/-- `CANCEL_RUN_JOBS`. -/
def cancelRunJobsScript (db : RedisQueue) (order : SetOrder) (runId : RunId) :
    RedisQueue × List JobId :=
  forEach (fun db jobId => db.cancelTurn runId jobId)
    (order.smembers ((db.runs.lookup runId).getD [])) db

end RedisQueue

end AgenticPlatform
