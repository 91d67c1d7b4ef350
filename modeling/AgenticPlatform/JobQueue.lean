import AgenticPlatform.Dict
import AgenticPlatform.Job
import Mathlib.Data.List.Sort

/-!
# The in-memory job queue

`InMemoryJobQueue`, one dictionary for each of the source's. Every operation runs
under the queue's lock, so it is one function of the state. The queue stores copies
of jobs (`rebuild`), never the caller's object: what a holder does to its own job does
not reach the record kept here, and the other way round.
-/

namespace AgenticPlatform

open Dict

/-- `_rebuild(job)`: a copy through the constructor, with an empty event buffer. -/
def Job.rebuild (job : Job) : Job := { job with events := [] }

/-- `PRIORITY_BAND`. -/
def priorityBand : Int := 10 ^ 13

/-- `queue_score`: priority first, age as the tie-breaker; lower comes first. -/
def queueScore (priority : Priority) (createdAt : Instant) : Int :=
  -priority.rank * priorityBand + wholeMillis createdAt

structure JobQueue where
  jobs : Dict JobId Job
  ready : Dict JobType (Dict JobId Int)
  scores : Dict JobId Int
  leases : Dict JobId Instant
  runs : Dict RunId (List JobId)
  acknowledged : List JobId

namespace JobQueue

def empty : JobQueue := ⟨∅, ∅, ∅, ∅, ∅, []⟩

/-! ### Publication -/

/-- Someone is holding the job, or it is already finished: a redelivered publication
    must lose to both. -/
def refuses (q : JobQueue) (jobId : JobId) : Bool :=
  match q.jobs.lookup jobId with
  | none => false
  | some stored => stored.status.isInFlight || decide (jobId ∈ q.acknowledged)

/-- Publish a job. Enqueuing the same job twice does not duplicate work. -/
def enqueue (q : JobQueue) (job : Job) : JobQueue :=
  if q.refuses job.id then q
  else
    let score := queueScore job.priority job.createdAt
    { q with
      jobs := q.jobs.insert job.id { job.rebuild with status := .queued }
      scores := q.scores.insert job.id score
      ready := setInner q.ready job.type job.id score
      runs := q.runs.insert job.runId (((q.runs.lookup job.runId).getD []).insert job.id) }

/-! ### Consumption -/

/-- The key `(score, str(job_id))` of the ready entries, compared lexicographically. -/
def keyLt (left right : Int × JobId) : Bool :=
  decide (left.1 < right.1 ∨ (left.1 = right.1 ∧ left.2.chars < right.2.chars))

/-- Keep the better of two ready entries; the first one seen wins a tie. -/
def better (best : Option (Int × JobType × JobId)) (jobType : JobType) (entry : JobId × Int) :
    Option (Int × JobType × JobId) :=
  match best with
  | none => some (entry.2, jobType, entry.1)
  | some (score, bestType, bestId) =>
      if keyLt (entry.2, entry.1) (score, bestId) then some (entry.2, jobType, entry.1)
      else some (score, bestType, bestId)

/-- `_next_ready`: lowest score across the requested types, ties broken by id. -/
def nextReady (q : JobQueue) (wanted : List JobType) : Option (JobType × JobId) :=
  let best := wanted.foldl (fun best jobType =>
    (inner q.ready jobType).entries.foldl
      (fun best entry => better best jobType (entry.1, entry.2)) best) none
  best.map fun found => (found.2.1, found.2.2)

/-- The lease step of `claim`, once a queued record was found. -/
def grant (q : JobQueue) (jobId : JobId) (stored : Job) (consumer : WorkerId) (leaseDuration : Duration)
    (now : Instant) (token : LeaseToken) : Call JobQueue (Option (Job × Lease)) :=
  let call := stored.rebuild.leaseTo consumer now leaseDuration token
  match call.result with
  | .error e => .raised q e
  | .ok lease =>
      .returned { q with
        jobs := q.jobs.insert jobId call.self.rebuild
        leases := q.leases.insert jobId lease.expiresAt } (some (call.self, lease))

/-- The `while True` of `claim`: each round removes one ready entry, so the number of
    ready entries bounds the number of rounds. -/
def claimLoop (wanted : List JobType) (consumer : WorkerId) (leaseDuration : Duration)
    (now : Instant) (token : LeaseToken) :
    Nat → JobQueue → Call JobQueue (Option (Job × Lease))
  | 0, q => .returned q none
  | rounds + 1, q =>
      match q.nextReady wanted with
      | none => .returned q none
      | some (jobType, jobId) =>
          let q := { q with ready := popInner q.ready jobType jobId }
          match q.jobs.lookup jobId with
          | none => claimLoop wanted consumer leaseDuration now token rounds q
          | some stored =>
              -- cancelled or already taken: the entry was stale, look on
              if stored.status = .queued then
                q.grant jobId stored consumer leaseDuration now token
              else claimLoop wanted consumer leaseDuration now token rounds q

/-- `sum(len(ready) for ready in self._ready.values())`. -/
def depth (q : JobQueue) : Nat := (q.ready.entries.map fun entry => entry.2.entries.length).sum

/-- Atomically take the highest-priority eligible job, or `none`. `token` is the fresh
    `LeaseToken.generate()`. -/
def claim (q : JobQueue) (consumer : WorkerId) (jobTypes : List JobType)
    (leaseDuration : Duration) (now : Instant) (token : LeaseToken) :
    Call JobQueue (Option (Job × Lease)) :=
  claimLoop jobTypes.eraseDups consumer leaseDuration now token (q.depth + 1) q

/-- Extend a held lease. -/
def renew (q : JobQueue) (jobId : JobId) (token : LeaseToken) (duration : Duration)
    (now : Instant) : Call JobQueue Lease :=
  match q.jobs.lookup jobId with
  | none => .raised q (.jobLeaseExpired jobId none)
  | some job =>
      let call := job.renewLease token now duration
      match call.result with
      | .error e => .raised q e
      | .ok renewed =>
          .returned { q with
            jobs := q.jobs.insert jobId call.self.rebuild
            leases := q.leases.insert jobId renewed.expiresAt } renewed

/-- `_holds`: the report comes from the worker that currently owns the job. -/
def holds (job : Job) (token : LeaseToken) : Bool :=
  match job.lease with
  | none => false
  | some lease => decide (lease.token = token)

/-- `self._runs.get(run_id, set()).discard(job_id)`. -/
def discard (runs : Dict RunId (List JobId)) (runId : RunId) (jobId : JobId) :
    Dict RunId (List JobId) :=
  match runs.lookup runId with
  | none => runs
  | some ids => runs.insert runId (ids.filter fun other => other ≠ jobId)

/-- Remove a finished job from the queue. -/
def acknowledge (q : JobQueue) (jobId : JobId) (token : LeaseToken) : JobQueue :=
  match q.jobs.lookup jobId with
  | none => q
  | some job =>
      if holds job token then
        { q with
          leases := q.leases.erase jobId
          runs := discard q.runs job.runId jobId
          acknowledged := q.acknowledged.insert jobId
          jobs := q.jobs.insert jobId { job.rebuild with lease := none, assignedWorkerId := none } }
      else q

/-- `self._ready.setdefault(job.type, {})[job_id] = self._scores[job_id]`. -/
def makeReady (q : JobQueue) (jobType : JobType) (jobId : JobId) : Except PyError JobQueue :=
  match q.scores.lookup jobId with
  | none => .error (.keyError jobId.str)
  | some score => .ok { q with ready := setInner q.ready jobType jobId score }

/-- Give a job back, optionally making it immediately claimable again. -/
def release (q : JobQueue) (jobId : JobId) (token : LeaseToken) (requeue : Bool) :
    Call JobQueue Unit :=
  match q.jobs.lookup jobId with
  | none => .returned q ()
  | some job =>
      if holds job token then
        let q := { q with
          leases := q.leases.erase jobId
          jobs := q.jobs.insert jobId { job.rebuild with
            status := if requeue then .queued else .pending
            lease := none
            assignedWorkerId := none } }
        if requeue then
          match q.makeReady job.type jobId with
          | .error e => .raised q e
          | .ok q => .returned q ()
        else .returned q ()
      else .returned q ()

/-! ### Recovery -/

/-- The lapsed leases, oldest expiry first, then by id. -/
def lapsed (q : JobQueue) (now : Instant) : List (Int × JobId) :=
  ((q.leases.entries.filter fun entry => decide (entry.2 ≤ now)).map
    fun entry => (entry.2, entry.1)).insertionSort fun left right => keyLt right left = false

/-- One turn of the loop of `reclaim_expired`. -/
def reclaimOne (q : JobQueue) (now : Instant) (jobId : JobId) : Call JobQueue (Option JobId) :=
  let q := { q with leases := q.leases.erase jobId }
  match q.jobs.lookup jobId with
  | none => .returned q none
  | some job =>
      let (job, mayRetry) := job.expireLease now
      if mayRetry then
        let call := job.requeue now "lease expired"
        match call.result with
        | .error e => .raised { q with jobs := q.jobs.insert jobId call.self } e
        | .ok () =>
            match q.makeReady call.self.type jobId with
            | .error e => .raised { q with jobs := q.jobs.insert jobId call.self } e
            | .ok q =>
                .returned { q with jobs := q.jobs.insert jobId call.self.rebuild } (some jobId)
      else .returned { q with jobs := q.jobs.insert jobId job.rebuild } (some jobId)

def reclaimAll (now : Instant) : List JobId → JobQueue → Call JobQueue (List JobId)
  | [], q => .returned q []
  | jobId :: rest, q =>
      let first := q.reclaimOne now jobId
      match first.result with
      | .error e => .raised first.self e
      | .ok reclaimed =>
          let others := reclaimAll now rest first.self
          match others.result with
          | .error e => .raised others.self e
          | .ok ids => .returned others.self (reclaimed.toList ++ ids)

/-- Return jobs whose lease lapsed so the orchestrator can retry them. -/
def reclaimExpired (q : JobQueue) (now : Instant) (limit : Nat) : Call JobQueue (List JobId) :=
  reclaimAll now (((q.lapsed now).take limit).map Prod.snd) q

/-- One turn of the loop of `cancel_run_jobs`. -/
def cancelOne (q : JobQueue) (jobId : JobId) : JobQueue × Option JobId :=
  match q.jobs.lookup jobId with
  | none => (q, none)
  | some job =>
      if job.status.isTerminal then (q, none)
      else
        ({ q with
          ready := popInner q.ready job.type jobId
          leases := q.leases.erase jobId
          jobs := q.jobs.insert jobId { job.rebuild with
            status := .cancelled
            failureKind := some .cancelled
            lease := none
            assignedWorkerId := none } }, some jobId)

def cancelAll : List JobId → JobQueue → JobQueue × List JobId
  | [], q => (q, [])
  | jobId :: rest, q =>
      let first := q.cancelOne jobId
      let others := cancelAll rest first.1
      (others.1, first.2.toList ++ others.2)

/-- Drop every pending job of a run; in-flight ones are cancelled by lease. -/
def cancelRunJobs (q : JobQueue) (runId : RunId) : JobQueue × List JobId :=
  cancelAll (((q.runs.lookup runId).getD []).insertionSort
    fun left right => ¬ right.chars < left.chars) q

end JobQueue

end AgenticPlatform
