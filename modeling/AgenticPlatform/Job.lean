import AgenticPlatform.Events
import AgenticPlatform.Lease

/-!
# The job entity

One attemptable unit of work with its retry budget. Every lifecycle method follows
the order of checks and assignments of the source, so that what a method has already
written when it raises stays visible (`leaseTo` is the one that does so).
-/

namespace AgenticPlatform

structure JobRequirements where
  role : AgentRole
  modelId : Option String
  estimatedPromptTokens : Nat
  requiresTools : Bool
  requiresJsonSchema : Bool

/-- The checks of the constructor are the two proof fields. -/
structure Job where
  id : JobId
  runId : RunId
  projectId : ProjectId
  type : JobType
  createdAt : Instant
  role : Option AgentRole
  candidateId : Option CandidateId
  priority : Priority
  status : JobStatus
  attempt : Nat
  maxAttempts : Nat
  payload : Mapping
  requirements : Option JobRequirements
  idempotencyKey : Option String
  lease : Option Lease
  assignedWorkerId : Option WorkerId
  startedAt : Option Instant
  completedAt : Option Instant
  result : Option Mapping
  failureKind : Option FailureKind
  failureReason : Option String
  events : List DomainEvent
  role_given : type.requiresInference = true → role ≠ none
  max_attempts_pos : 1 ≤ maxAttempts

namespace Job

def create (jobId : JobId) (runId : RunId) (projectId : ProjectId) (jobType : JobType)
    (now : Instant) (role : Option AgentRole) (candidateId : Option CandidateId)
    (priority : Priority) (maxAttempts : Nat)
    (role_given : jobType.requiresInference = true → role ≠ none)
    (max_attempts_pos : 1 ≤ maxAttempts) : Job where
  id := jobId
  runId := runId
  projectId := projectId
  type := jobType
  createdAt := now
  role := role
  candidateId := candidateId
  priority := priority
  status := .pending
  attempt := 0
  maxAttempts := maxAttempts
  payload := []
  requirements := none
  idempotencyKey := none
  lease := none
  assignedWorkerId := none
  startedAt := none
  completedAt := none
  result := none
  failureKind := none
  failureReason := none
  events := []
  role_given := role_given
  max_attempts_pos := max_attempts_pos

def record (job : Job) (now : Instant) (body : EventBody) : Job :=
  { job with events := job.events ++ [⟨now, body⟩] }

def attemptsRemaining (job : Job) : Nat := job.maxAttempts - job.attempt

def durationMs (job : Job) : Int :=
  match job.startedAt, job.completedAt with
  | some started, some completed => wholeMillis (completed - started)
  | _, _ => 0

/-! ### Lifecycle -/

def transitionError (job : Job) (requested : JobStatus) : PyError :=
  .invalidStateTransition "Job" job.status.value requested.value

/-- Publish to the queue. Re-enqueuing a queued job is a no-op. -/
def enqueue (job : Job) (now : Instant) : Call Job Unit :=
  if job.status = .queued then .returned job ()
  else if job.status = .pending ∨ job.status = .failed then
    let job := { job with status := .queued, lease := none, assignedWorkerId := none }
    .returned (job.record now (.jobEnqueued job.id job.runId job.type job.attempt)) ()
  else .raised job (job.transitionError .queued)

/-- Claim the job for a worker and start an attempt. The attempt counter and the
    status are written before the lease is built, and building it may raise. -/
def leaseTo (job : Job) (workerId : WorkerId) (now : Instant) (duration : Duration)
    (token : LeaseToken) : Call Job Lease :=
  if job.status = .queued then
    let job := { job with
      attempt := job.attempt + 1
      status := .leased
      assignedWorkerId := some workerId
      startedAt := some (job.startedAt.getD now) }
    match Lease.granted job.id workerId now duration token with
    | .error e => .raised job e
    | .ok lease =>
        let job := { job with lease := some lease }
        .returned (job.record now (.jobLeased job.id job.runId workerId job.attempt)) lease
  else .raised job (job.transitionError .leased)

/-- `_assert_lease`. -/
def assertLease (job : Job) (token : LeaseToken) (now : Instant) : Except PyError Lease :=
  match job.lease with
  | none => .error (.jobLeaseExpired job.id job.assignedWorkerId)
  | some lease =>
      if lease.token = token then
        if lease.isExpired now then .error (.jobLeaseExpired job.id (some lease.holder))
        else .ok lease
      else .error (.jobLeaseExpired job.id job.assignedWorkerId)

/-- `if token is not None: self._assert_lease(token, now)`. -/
def checkToken (job : Job) (token : Option LeaseToken) (now : Instant) : Except PyError Unit :=
  match token with
  | none => .ok ()
  | some token => (job.assertLease token now).map fun _ => ()

def markRunning (job : Job) (token : LeaseToken) (now : Instant) : Call Job Unit :=
  match job.assertLease token now with
  | .error e => .raised job e
  | .ok _ =>
      if job.status = .running then .returned job ()
      else .returned { job with
        status := .running, startedAt := some (job.startedAt.getD now) } ()

def renewLease (job : Job) (token : LeaseToken) (now : Instant) (duration : Duration) :
    Call Job Lease :=
  match job.assertLease token now with
  | .error e => .raised job e
  | .ok lease =>
      match lease.renewed now duration with
      | .error e => .raised job e
      | .ok renewed => .returned { job with lease := some renewed } renewed

/-- Record success. Replaying a completion is a no-op, not an error. -/
def complete (job : Job) (token : Option LeaseToken) (now : Instant)
    (result : Option Mapping) : Call Job Unit :=
  if job.status = .succeeded then .returned job ()
  else
    match job.checkToken token now with
    | .error e => .raised job e
    | .ok () =>
        let job := { job with
          status := .succeeded, completedAt := some now, result := result, lease := none }
        .returned (job.record now (.jobCompleted job.id job.runId job.type job.durationMs)) ()

/-- Record a failure and return whether another attempt is allowed. `retryable = none`
    is the domain rule. -/
def fail (job : Job) (token : Option LeaseToken) (now : Instant) (kind : FailureKind)
    (reason : String) (retryable : Option Bool) : Call Job Bool :=
  if job.status.isTerminal then .returned job false
  else
    match job.checkToken token now with
    | .error e => .raised job e
    | .ok () =>
        let retryable := retryable.getD
          (kind.isInfrastructure || decide (kind = .invalidStructuredOutput))
        let mayRetry := retryable && decide (0 < job.attemptsRemaining)
        let job := { job with
          status := if mayRetry then .failed else .dead
          failureKind := some kind
          failureReason := some reason
          completedAt := some now
          lease := none
          assignedWorkerId := none }
        .returned (job.record now
          (.jobFailed job.id job.runId kind reason job.attempt mayRetry)) mayRetry

/-- Reclaim a job whose holder went silent; the value is whether it may retry. -/
def expireLease (job : Job) (now : Instant) : Job × Bool :=
  match job.lease with
  | none => (job, false)
  | some lease =>
      if lease.isExpired now then
        let job := { job with lease := none, assignedWorkerId := none }
        let job := job.record now (.jobLeaseExpired job.id job.runId lease.holder)
        if 0 < job.attemptsRemaining then ({ job with status := .failed }, true)
        else
          ({ job with
            status := .dead
            failureKind := some .infrastructure
            failureReason := some "lease expired and retry budget exhausted"
            completedAt := some now }, false)
      else (job, false)

/-- Return a failed-but-retryable job to the queue. -/
def requeue (job : Job) (now : Instant) (reason : String) : Call Job Unit :=
  if job.status = .failed ∧ 0 < job.attemptsRemaining then
    let job := { job with
      status := .queued, completedAt := none, lease := none, assignedWorkerId := none }
    .returned (job.record now (.jobRequeued job.id job.runId job.attempt reason)) ()
  else .raised job (job.transitionError .queued)

/-- Cancellation is idempotent and never fails on a terminal job. -/
def cancel (job : Job) (now : Instant) : Job :=
  if job.status.isTerminal then job
  else { job with
    status := .cancelled
    completedAt := some now
    lease := none
    assignedWorkerId := none
    failureKind := some .cancelled }

/-! ### What no method changes -/

/-- The fields fixed when the job is created: what is to be done, for whom, and with
    how many attempts. -/
structure Work where
  id : JobId
  runId : RunId
  projectId : ProjectId
  type : JobType
  createdAt : Instant
  role : Option AgentRole
  candidateId : Option CandidateId
  priority : Priority
  maxAttempts : Nat

def work (job : Job) : Work where
  id := job.id
  runId := job.runId
  projectId := job.projectId
  type := job.type
  createdAt := job.createdAt
  role := job.role
  candidateId := job.candidateId
  priority := job.priority
  maxAttempts := job.maxAttempts

theorem id_of_work {left right : Job} (h : left.work = right.work) : left.id = right.id :=
  congrArg Work.id h

theorem runId_of_work {left right : Job} (h : left.work = right.work) :
    left.runId = right.runId := congrArg Work.runId h

theorem type_of_work {left right : Job} (h : left.work = right.work) :
    left.type = right.type := congrArg Work.type h

theorem candidateId_of_work {left right : Job} (h : left.work = right.work) :
    left.candidateId = right.candidateId := congrArg Work.candidateId h

theorem maxAttempts_of_work {left right : Job} (h : left.work = right.work) :
    left.maxAttempts = right.maxAttempts := congrArg Work.maxAttempts h

@[simp] theorem enqueue_work (job : Job) (now : Instant) :
    (job.enqueue now).self.work = job.work := by
  unfold enqueue
  split
  · rfl
  · split <;> rfl

@[simp] theorem leaseTo_work (job : Job) (workerId : WorkerId) (now : Instant)
    (duration : Duration) (token : LeaseToken) :
    (job.leaseTo workerId now duration token).self.work = job.work := by
  unfold leaseTo
  split
  · dsimp only
    split <;> rfl
  · rfl

@[simp] theorem renewLease_work (job : Job) (token : LeaseToken) (now : Instant)
    (duration : Duration) : (job.renewLease token now duration).self.work = job.work := by
  unfold renewLease
  split
  · rfl
  · split <;> rfl

@[simp] theorem complete_work (job : Job) (token : Option LeaseToken) (now : Instant)
    (result : Option Mapping) : (job.complete token now result).self.work = job.work := by
  unfold complete
  split
  · rfl
  · split <;> rfl

@[simp] theorem fail_work (job : Job) (token : Option LeaseToken) (now : Instant)
    (kind : FailureKind) (reason : String) (retryable : Option Bool) :
    (job.fail token now kind reason retryable).self.work = job.work := by
  unfold fail
  split
  · rfl
  · split <;> rfl

@[simp] theorem expireLease_work (job : Job) (now : Instant) :
    (job.expireLease now).1.work = job.work := by
  unfold expireLease
  split
  · rfl
  · split
    · dsimp only
      split <;> rfl
    · rfl

@[simp] theorem requeue_work (job : Job) (now : Instant) (reason : String) :
    (job.requeue now reason).self.work = job.work := by
  unfold requeue
  split <;> rfl

@[simp] theorem cancel_work (job : Job) (now : Instant) : (job.cancel now).work = job.work := by
  unfold cancel
  split <;> rfl

/-! ### What each method does when it returns -/

/-- A queued job leased for a positive time. -/
theorem leaseTo_of_queued {job : Job} (h : job.status = .queued) (workerId : WorkerId)
    (now : Instant) {duration : Duration} (hd : 0 < duration) (token : LeaseToken) :
    ∃ lease, (job.leaseTo workerId now duration token).result = .ok lease ∧
      lease.token = token ∧ lease.expiresAt = now + duration ∧
      (job.leaseTo workerId now duration token).self.status = .leased ∧
      (job.leaseTo workerId now duration token).self.lease = some lease ∧
      (job.leaseTo workerId now duration token).self.attempt = job.attempt + 1 := by
  have hlt : now < now + duration := Int.lt_add_of_pos_right now hd
  simp only [leaseTo, h, if_true, Lease.granted, Lease.build, dif_pos hlt]
  exact ⟨_, rfl, rfl, rfl, rfl, rfl, rfl⟩

/-- A lease that was granted is on the job, under the token it was granted with. -/
theorem leaseTo_eq_ok {job : Job} {workerId : WorkerId} {now : Instant} {duration : Duration}
    {token : LeaseToken} {lease : Lease}
    (h : (job.leaseTo workerId now duration token).result = .ok lease) :
    (job.leaseTo workerId now duration token).self.status = .leased ∧
      (job.leaseTo workerId now duration token).self.lease = some lease ∧ lease.token = token := by
  unfold leaseTo at h ⊢
  by_cases hqueued : job.status = .queued
  · simp only [hqueued, if_true] at h ⊢
    cases hgrant : Lease.granted job.id workerId now duration token with
    | error e => simp [hgrant] at h
    | ok granted =>
      simp only [hgrant, Call.result_returned, Except.ok.injEq] at h
      subst h
      exact ⟨rfl, rfl, (Lease.granted_eq_ok hgrant).1⟩
  · simp [hqueued] at h

/-- Only a queued job is leased, and its attempt is counted. -/
theorem leaseTo_attempt {job : Job} {workerId : WorkerId} {now : Instant} {duration : Duration}
    {token : LeaseToken} {lease : Lease}
    (h : (job.leaseTo workerId now duration token).result = .ok lease) :
    job.status = .queued ∧
      (job.leaseTo workerId now duration token).self.attempt = job.attempt + 1 := by
  unfold leaseTo at h ⊢
  by_cases hqueued : job.status = .queued
  · simp only [hqueued, if_true] at h ⊢
    cases hgrant : Lease.granted job.id workerId now duration token with
    | error e => simp [hgrant] at h
    | ok granted => exact ⟨trivial, rfl⟩
  · simp [hqueued] at h

theorem assertLease_eq_ok {job : Job} {token : LeaseToken} {now : Instant} {lease : Lease} :
    job.assertLease token now = .ok lease ↔
      job.lease = some lease ∧ lease.token = token ∧ now < lease.expiresAt := by
  unfold assertLease
  cases hl : job.lease with
  | none => simp
  | some held =>
    by_cases ht : held.token = token
    · by_cases he : held.isExpired now = true
      · simp only [ht, he, if_true, reduceCtorEq, Option.some.injEq, false_iff]
        rintro ⟨rfl, -, hlt⟩
        exact absurd (Lease.isExpired_iff.mp he) (Int.not_le.mpr hlt)
      · have hlt := Lease.not_isExpired_iff.mp (by simpa using he)
        simp only [ht, he, if_true, Bool.false_eq_true, if_false, Except.ok.injEq,
          Option.some.injEq]
        constructor
        · rintro rfl
          exact ⟨rfl, ht, hlt⟩
        · exact fun h => h.1
    · simp only [ht, if_false, reduceCtorEq, Option.some.injEq, false_iff]
      rintro ⟨rfl, h, -⟩
      exact ht h

theorem renewLease_eq_ok {job : Job} {token : LeaseToken} {now : Instant}
    {duration : Duration} {renewed : Lease}
    (h : (job.renewLease token now duration).result = .ok renewed) :
    ∃ lease, job.lease = some lease ∧ lease.token = token ∧ now < lease.expiresAt ∧
      renewed.token = token ∧ renewed.expiresAt = now + duration ∧
      (job.renewLease token now duration).self = { job with lease := some renewed } := by
  unfold renewLease at h ⊢
  cases ha : job.assertLease token now with
  | error e => simp [ha] at h
  | ok lease =>
    obtain ⟨hlease, htoken, hlive⟩ := assertLease_eq_ok.mp ha
    simp only [ha] at h ⊢
    cases hr : lease.renewed now duration with
    | error e => simp [hr] at h
    | ok lease' =>
      simp only [hr, Call.result_returned, Except.ok.injEq] at h ⊢
      subst h
      have hspec := Lease.renewed_eq_ok hr
      exact ⟨lease, hlease, htoken, hlive, hspec.2.1.trans htoken, hspec.2.2, rfl⟩

/-- A completion with a token returns only under a live lease, unless the job already
    succeeded. -/
theorem complete_result (job : Job) (token : LeaseToken) (now : Instant)
    (result : Option Mapping) :
    (job.complete (some token) now result).result = .ok () ↔
      job.status = .succeeded ∨
        ∃ lease, job.lease = some lease ∧ lease.token = token ∧ now < lease.expiresAt := by
  unfold complete
  by_cases hs : job.status = .succeeded
  · simp [hs]
  · simp only [hs, if_false, false_or, checkToken]
    cases ha : job.assertLease token now with
    | error e =>
      simp only [Except.map, Call.result_raised, reduceCtorEq, false_iff]
      rintro ⟨lease, hlease⟩
      rw [assertLease_eq_ok.mpr hlease] at ha
      cases ha
    | ok lease =>
      simp only [Except.map, Call.result_returned, true_iff]
      exact ⟨lease, assertLease_eq_ok.mp ha⟩

theorem complete_status {job : Job} {token : Option LeaseToken} {now : Instant}
    {result : Option Mapping} (h : (job.complete token now result).result = .ok ()) :
    (job.complete token now result).self.status = .succeeded := by
  unfold complete at h ⊢
  split
  · assumption
  · rename_i hs
    rw [if_neg hs] at h
    cases hc : job.checkToken token now with
    | error e => simp [hc] at h
    | ok u => rfl

theorem complete_lease {job : Job} {token : Option LeaseToken} {now : Instant}
    {result : Option Mapping} (hs : job.status ≠ .succeeded)
    (h : (job.complete token now result).result = .ok ()) :
    (job.complete token now result).self.lease = none := by
  unfold complete at h ⊢
  rw [if_neg hs] at h ⊢
  cases hc : job.checkToken token now with
  | error e => simp [hc] at h
  | ok u => rfl

/-- A completion that raises leaves the job as it was. -/
theorem complete_raised {job : Job} {token : Option LeaseToken} {now : Instant}
    {result : Option Mapping} {e : PyError}
    (h : (job.complete token now result).result = .error e) :
    (job.complete token now result).self = job := by
  unfold complete at h ⊢
  split
  · rfl
  · rename_i hs
    rw [if_neg hs] at h
    cases hc : job.checkToken token now with
    | error e => rfl
    | ok u => simp [hc] at h

/-- A failure report kills the job or leaves it retryable; a terminal job is not touched. -/
theorem fail_self_of_terminal {job : Job} (h : job.status.isTerminal = true)
    (token : Option LeaseToken) (now : Instant) (kind : FailureKind) (reason : String)
    (retryable : Option Bool) : (job.fail token now kind reason retryable).self = job := by
  simp [fail, h]

theorem fail_status {job : Job} (h : job.status.isTerminal = false) (now : Instant)
    (kind : FailureKind) (reason : String) (retryable : Bool) :
    (job.fail none now kind reason (some retryable)).self.status =
      if retryable = true ∧ 0 < job.attemptsRemaining then .failed else .dead := by
  simp [fail, h, checkToken, record]

theorem fail_attempt (job : Job) (token : Option LeaseToken) (now : Instant)
    (kind : FailureKind) (reason : String) (retryable : Option Bool) :
    (job.fail token now kind reason retryable).self.attempt = job.attempt := by
  unfold fail
  split
  · rfl
  · split <;> rfl

theorem requeue_result (job : Job) (now : Instant) (reason : String) :
    (job.requeue now reason).result = .ok () ↔
      job.status = .failed ∧ 0 < job.attemptsRemaining := by
  unfold requeue
  split <;> simp [*]

theorem requeue_self {job : Job} (now : Instant) (reason : String)
    (h : (job.requeue now reason).result = .ok ()) :
    (job.requeue now reason).self.status = .queued ∧
      (job.requeue now reason).self.lease = none := by
  have hcond := (requeue_result job now reason).mp h
  simp [requeue, hcond.1, hcond.2, record]

end Job

end AgenticPlatform
