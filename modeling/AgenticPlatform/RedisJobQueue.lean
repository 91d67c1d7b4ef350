import AgenticPlatform.QueueTimes
import AgenticPlatform.RedisScripts

/-!
# The Redis job queue

`RedisJobQueue`: each method runs one script and translates between jobs and hashes.
The transition of a claim is replayed on the job that the hash decodes to. A payload and a
result travel as JSON text, which the encoder may refuse and which may read back as something
else: a tuple becomes a list.
-/

namespace AgenticPlatform

open Dict

/-- `_text`: the empty string stands for `None`. -/
def hashText (text : Option String) : Option String := text.filter fun text => text ≠ ""

/-- The trip of a dictionary through JSON: what `json.dumps` raises, or what `json.loads` reads
    from the text it writes. -/
structure JsonTrip where
  carry : Mapping → Except PyError Mapping

/-- What the trip makes of a dictionary that it takes. -/
def JsonTrip.kept (json : JsonTrip) (mapping : Mapping) : Mapping :=
  (json.carry mapping).toOption.getD mapping

/-- The hash of a job whose JSON fields hold the given dictionaries. -/
def jobHash (job : Job) (payload : Mapping) (result : Option Mapping) : JobHash where
  id := job.id
  runId := job.runId
  projectId := job.projectId
  type := job.type
  role := job.role
  candidateId := job.candidateId
  priority := job.priority
  status := job.status
  attempt := job.attempt
  maxAttempts := job.maxAttempts
  payload := payload
  requirements := job.requirements
  idempotencyKey := hashText job.idempotencyKey
  createdAt := job.createdAt
  startedAt := job.startedAt
  completedAt := job.completedAt
  result := result
  failureKind := job.failureKind
  failureReason := hashText job.failureReason
  assignedWorkerId := job.assignedWorkerId
  leaseToken := job.lease.map Lease.token
  leaseHolder := job.lease.map Lease.holder
  leaseAcquiredAt := job.lease.map Lease.acquiredAt
  leaseExpiresAt := job.lease.map Lease.expiresAt
  score := queueScore job.priority job.createdAt
  acked := false

/-- `job_to_mapping`. -/
def jobToMapping (json : JsonTrip) (job : Job) : Except PyError JobHash := do
  let payload ← json.carry job.payload
  match job.result with
  | none => return jobHash job payload none
  | some result =>
      let result ← json.carry result
      return jobHash job payload (some result)

/-- `lease_from_mapping`. -/
def leaseFromMapping (raw : JobHash) : Except PyError (Option Lease) :=
  match raw.leaseToken, raw.leaseHolder, raw.leaseAcquiredAt, raw.leaseExpiresAt with
  | some token, some holder, some acquiredAt, some expiresAt =>
      (Lease.build raw.id holder token acquiredAt expiresAt).map some
  | _, _, _, _ => .ok none

/-- `job_from_mapping`, with the checks of the constructor of `Job`. -/
def jobFromMapping (raw : JobHash) : Except PyError Job := do
  let lease ← leaseFromMapping raw
  if hrole : raw.type.requiresInference = true → raw.role ≠ none then
    if hmax : 1 ≤ raw.maxAttempts then
      return {
        id := raw.id
        runId := raw.runId
        projectId := raw.projectId
        type := raw.type
        createdAt := raw.createdAt
        role := raw.role
        candidateId := raw.candidateId
        priority := raw.priority
        status := raw.status
        attempt := raw.attempt
        maxAttempts := raw.maxAttempts
        payload := raw.payload
        requirements := raw.requirements
        idempotencyKey := raw.idempotencyKey
        lease := lease
        assignedWorkerId := raw.assignedWorkerId
        startedAt := raw.startedAt
        completedAt := raw.completedAt
        result := raw.result
        failureKind := raw.failureKind
        failureReason := raw.failureReason
        events := []
        role_given := hrole
        max_attempts_pos := hmax }
    else .error (.valueError "max_attempts must be at least 1")
  else .error (.valueError
    (raw.type.value ++ " is an inference job and requires an agent role"))

namespace RedisQueue

/-- Publish a job. The stored status is forced to `QUEUED`. -/
def enqueue (json : JsonTrip) (db : RedisQueue) (job : Job) : Call RedisQueue Unit :=
  match jobToMapping json job with
  | .error e => .raised db e
  | .ok record =>
      .returned (db.enqueueScript job.id job.type job.runId (queueScore job.priority job.createdAt)
        { record with status := .queued }) ()

/-- Take the highest-priority eligible job. `token` is the fresh `LeaseToken.generate()`. -/
def claim (db : RedisQueue) (consumer : WorkerId) (jobTypes : List JobType)
    (leaseDuration : Duration) (now : Instant) (token : LeaseToken) :
    Call RedisQueue (Option (Job × Lease)) :=
  let wanted := jobTypes.eraseDups
  if wanted = [] then .returned db none
  else
    let expiresAt := now + leaseDuration
    let reply := db.claimScript wanted consumer token now expiresAt (wholeMillis expiresAt)
    match reply.2 with
    | none => .returned reply.1 none
    | some raw =>
        match jobFromMapping raw with
        | .error e => .raised reply.1 e
        | .ok job =>
            let call := job.leaseTo consumer now leaseDuration token
            match call.result with
            | .error e => .raised reply.1 e
            | .ok lease => .returned reply.1 (some (call.self, lease))

/-- Extend a held lease. -/
def renew (db : RedisQueue) (jobId : JobId) (token : LeaseToken) (duration : Duration)
    (now : Instant) : Call RedisQueue Lease :=
  let expiresAt := now + duration
  let reply := db.renewScript jobId token (wholeMillis now) (wholeMillis expiresAt) expiresAt
  match reply.2 with
  | none => .raised reply.1 (.jobLeaseExpired jobId none)
  | some (acquiredAt, holder) =>
      match holder, acquiredAt with
      | none, _ => .raised reply.1 (.valueError ("invalid WorkerId: " ++ quoted ""))
      | some _, none => .raised reply.1 (.valueError ("Invalid isoformat string: " ++ quoted ""))
      | some holder, some acquiredAt =>
          ⟨reply.1, Lease.build jobId holder token acquiredAt expiresAt⟩

def acknowledge (db : RedisQueue) (jobId : JobId) (token : LeaseToken) : RedisQueue :=
  db.acknowledgeScript jobId token

def release (db : RedisQueue) (jobId : JobId) (token : LeaseToken) (requeue : Bool) :
    RedisQueue := db.releaseScript jobId token requeue

def reclaimExpired (db : RedisQueue) (now : Instant) (limit : Int) : RedisQueue × List JobId :=
  db.reclaimExpiredScript (wholeMillis now) limit now

def cancelRunJobs (db : RedisQueue) (order : SetOrder) (runId : RunId) :
    RedisQueue × List JobId := db.cancelRunJobsScript order runId

/-- `depth(job_type)`. -/
def depthOf (db : RedisQueue) (jobType : JobType) : Nat := SortedSet.card (inner db.ready jobType)

/-- `depth()`. -/
def depth (db : RedisQueue) : Nat := (JobType.all.map db.depthOf).sum

end RedisQueue

/-- What the adapter rests on: the encoder, the order in which the server lists a set, and what
    becomes of a call at a time without a zone, which is read in the zone of the process. -/
structure RedisClient where
  json : JsonTrip
  order : SetOrder
  zoneless : RedisQueue → TimedCall → RedisQueue × QueueReply

namespace RedisQueue

/-- `claim`: the end of the lease is computed before the script runs. -/
def claimAt (db : RedisQueue) (consumer : WorkerId) (jobTypes : List JobType)
    (leaseDuration : Duration) (now : CallTime) (token : LeaseToken) :
    Call RedisQueue (Option (Job × Lease)) :=
  if jobTypes = [] then .returned db none
  else if now.Reaches leaseDuration then
    db.claim consumer jobTypes leaseDuration now.instant token
  else .raised db (.other "date value out of range")

/-- `renew`: the new expiry is computed before the script runs. -/
def renewAt (db : RedisQueue) (jobId : JobId) (token : LeaseToken) (duration : Duration)
    (now : CallTime) : Call RedisQueue Lease :=
  if now.Reaches duration then db.renew jobId token duration now.instant
  else .raised db (.other "date value out of range")

/-- The keyspace after a call, and the answer. -/
def apply (client : RedisClient) (db : RedisQueue) (call : TimedCall) : RedisQueue × QueueReply :=
  match call with
  | .enqueue job =>
      let published := db.enqueue client.json job
      (published.self, .of (fun _ => .done) published.result)
  | .claim consumer jobTypes duration now token =>
      if now.aware ∨ jobTypes = [] then
        let claimed := db.claimAt consumer jobTypes duration now token
        (claimed.self, .of .claimed claimed.result)
      else client.zoneless db call
  | .renew id token duration now =>
      if now.aware then
        let renewed := db.renewAt id token duration now
        (renewed.self, .of .renewed renewed.result)
      else client.zoneless db call
  | .acknowledge id token => (db.acknowledge id token, .done)
  | .release id token requeue => (db.release id token requeue, .done)
  | .reclaimExpired now limit =>
      if now.aware then
        ((db.reclaimExpired now.instant limit).1, .ids (db.reclaimExpired now.instant limit).2)
      else client.zoneless db call
  | .cancelRunJobs runId =>
      ((db.cancelRunJobs client.order runId).1, .ids (db.cancelRunJobs client.order runId).2)

end RedisQueue

end AgenticPlatform
