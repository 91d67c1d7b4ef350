import AgenticPlatform.JobDiscipline
import AgenticPlatform.Timestamps

/-!
# What a call leaves that raises

The job entity over times as they are, with or without a zone and within their range. A
lifecycle method writes the fields first and builds its event last, and the event refuses
a time without a zone; a lease is built after the attempt is counted, and refuses a
duration that is not positive or leads out of range. Where that happens the call raises and
what it wrote stays.
-/

namespace AgenticPlatform

/-- `Lease`; the checks of the constructor are the two proof fields. -/
structure StampedLease where
  jobId : JobId
  holder : WorkerId
  token : LeaseToken
  acquiredAt : Stamp
  expiresAt : Stamp
  ends_after_acquired : expiresAt.outlasts acquiredAt = true
  aware : acquiredAt.aware = true ∧ expiresAt.aware = true

namespace StampedLease

/-- `Lease(...)`, with its checks in the order of the source. -/
def build (jobId : JobId) (holder : WorkerId) (token : LeaseToken)
    (acquiredAt expiresAt : Stamp) : Except PyError StampedLease :=
  match acquiredAt.ge expiresAt with
  | .error e => .error e
  | .ok _ =>
      if h : expiresAt.outlasts acquiredAt = true then
        if h' : acquiredAt.aware = true ∧ expiresAt.aware = true then
          .ok { jobId, holder, token, acquiredAt, expiresAt, ends_after_acquired := h, aware := h' }
        else .error (.valueError "lease timestamps must be timezone-aware")
      else .error (.valueError "lease must expire strictly after it was acquired")

def granted (jobId : JobId) (holder : WorkerId) (now : Stamp) (duration : Duration)
    (token : LeaseToken) : Except PyError StampedLease :=
  match now.add duration with
  | .error e => .error e
  | .ok expiresAt => build jobId holder token now expiresAt

def isExpired (lease : StampedLease) (now : Stamp) : Except PyError Bool := now.ge lease.expiresAt

/-- Extend the lease; `replace` runs the constructor's checks again. -/
def renewed (lease : StampedLease) (now : Stamp) (duration : Duration) :
    Except PyError StampedLease :=
  match lease.isExpired now with
  | .error e => .error e
  | .ok true =>
      .error (.valueError "an expired lease cannot be renewed; the job was reassigned")
  | .ok false =>
      match now.add duration with
      | .error e => .error e
      | .ok expiresAt => build lease.jobId lease.holder lease.token lease.acquiredAt expiresAt

end StampedLease

/-- A job; `work` is what no method changes, with the three fields after it. -/
structure StampedJob where
  work : Job.Work
  payload : Mapping
  requirements : Option JobRequirements
  idempotencyKey : Option String
  status : JobStatus
  attempt : Nat
  lease : Option StampedLease
  assignedWorkerId : Option WorkerId
  startedAt : Option Stamp
  completedAt : Option Stamp
  result : Option Mapping
  failureKind : Option FailureKind
  failureReason : Option String
  events : List (Stamp × EventBody)

/-- The lifecycle methods, with their arguments. `fresh` is the token that is generated
    where `leaseTo` is given none. -/
inductive StampedOp where
  | enqueue (now : Stamp)
  | leaseTo (workerId : WorkerId) (now : Stamp) (duration : Duration) (token : Option LeaseToken)
      (fresh : LeaseToken)
  | markRunning (token : LeaseToken) (now : Stamp)
  | renewLease (token : LeaseToken) (now : Stamp) (duration : Duration)
  | complete (token : Option LeaseToken) (now : Stamp) (result : Option Mapping)
  | fail (token : Option LeaseToken) (now : Stamp) (kind : FailureKind) (reason : String)
      (retryable : Option Bool)
  | requeue (now : Stamp) (reason : String)

namespace StampedJob

/-- Build the event and record it; the constructor refuses a time without a zone. -/
def record (job : StampedJob) (now : Stamp) (body : EventBody) : Call StampedJob Unit :=
  if now.aware then .returned { job with events := job.events ++ [(now, body)] } ()
  else .raised job (.valueError "event timestamps must be timezone-aware")

def attemptsRemaining (job : StampedJob) : Nat := job.work.maxAttempts - job.attempt

def durationMs (job : StampedJob) : Except PyError Int :=
  match job.startedAt, job.completedAt with
  | some started, some completed => (completed.sub started).map wholeMillis
  | _, _ => .ok 0

def transitionError (job : StampedJob) (requested : JobStatus) : PyError :=
  .invalidStateTransition "Job" job.status.value requested.value

/-! ### Lifecycle -/

/-- What `enqueue` assigns. -/
def enqueued (job : StampedJob) : StampedJob :=
  { job with status := .queued, lease := none, assignedWorkerId := none }

def enqueue (job : StampedJob) (now : Stamp) : Call StampedJob Unit :=
  if job.status = .queued then .returned job ()
  else if job.status = .pending ∨ job.status = .failed then
    job.enqueued.record now
      (.jobEnqueued job.work.id job.work.runId job.work.type job.attempt)
  else .raised job (job.transitionError .queued)

/-- What `lease_to` assigns before it builds the lease. -/
def claimed (job : StampedJob) (workerId : WorkerId) (now : Stamp) : StampedJob :=
  { job with
    attempt := job.attempt + 1
    status := .leased
    assignedWorkerId := some workerId
    startedAt := some (job.startedAt.getD now) }

def leaseTo (job : StampedJob) (workerId : WorkerId) (now : Stamp) (duration : Duration)
    (token : Option LeaseToken) (fresh : LeaseToken) : Call StampedJob Unit :=
  if job.status = .queued then
    match StampedLease.granted job.work.id workerId now duration (token.getD fresh) with
    | .error e => .raised (job.claimed workerId now) e
    | .ok lease =>
        ({ job.claimed workerId now with lease := some lease } : StampedJob).record now
          (.jobLeased job.work.id job.work.runId workerId (job.attempt + 1))
  else .raised job (job.transitionError .leased)

/-- `_assert_lease`. -/
def assertLease (job : StampedJob) (token : LeaseToken) (now : Stamp) :
    Except PyError StampedLease :=
  match job.lease with
  | none => .error (.jobLeaseExpired job.work.id job.assignedWorkerId)
  | some lease =>
      if lease.token = token then
        match lease.isExpired now with
        | .error e => .error e
        | .ok true => .error (.jobLeaseExpired job.work.id (some lease.holder))
        | .ok false => .ok lease
      else .error (.jobLeaseExpired job.work.id job.assignedWorkerId)

/-- `if token is not None: self._assert_lease(token, now)`. -/
def checkToken (job : StampedJob) (token : Option LeaseToken) (now : Stamp) :
    Except PyError Unit :=
  match token with
  | none => .ok ()
  | some token => (job.assertLease token now).map fun _ => ()

def markRunning (job : StampedJob) (token : LeaseToken) (now : Stamp) : Call StampedJob Unit :=
  match job.assertLease token now with
  | .error e => .raised job e
  | .ok _ =>
      if job.status = .running then .returned job ()
      else .returned { job with
        status := .running, startedAt := some (job.startedAt.getD now) } ()

def renewLease (job : StampedJob) (token : LeaseToken) (now : Stamp) (duration : Duration) :
    Call StampedJob Unit :=
  match job.assertLease token now with
  | .error e => .raised job e
  | .ok lease =>
      match lease.renewed now duration with
      | .error e => .raised job e
      | .ok renewed => .returned { job with lease := some renewed } ()

/-- What `complete` assigns. -/
def completed (job : StampedJob) (now : Stamp) (result : Option Mapping) : StampedJob :=
  { job with status := .succeeded, completedAt := some now, result := result, lease := none }

/-- The duration is computed for the event, after the assignments. -/
def complete (job : StampedJob) (token : Option LeaseToken) (now : Stamp)
    (result : Option Mapping) : Call StampedJob Unit :=
  if job.status = .succeeded then .returned job ()
  else
    match job.checkToken token now with
    | .error e => .raised job e
    | .ok () =>
        match (job.completed now result).durationMs with
        | .error e => .raised (job.completed now result) e
        | .ok millis => (job.completed now result).record now
            (.jobCompleted job.work.id job.work.runId job.work.type millis)

/-- `retryable = none` is the domain rule. -/
def mayRetry (job : StampedJob) (kind : FailureKind) (retryable : Option Bool) : Bool :=
  retryable.getD (kind.isInfrastructure || decide (kind = .invalidStructuredOutput)) &&
    decide (0 < job.attemptsRemaining)

/-- What `fail` assigns. -/
def failed (job : StampedJob) (now : Stamp) (kind : FailureKind) (reason : String)
    (mayRetry : Bool) : StampedJob :=
  { job with
    status := if mayRetry then .failed else .dead
    failureKind := some kind
    failureReason := some reason
    completedAt := some now
    lease := none
    assignedWorkerId := none }

def fail (job : StampedJob) (token : Option LeaseToken) (now : Stamp) (kind : FailureKind)
    (reason : String) (retryable : Option Bool) : Call StampedJob Unit :=
  if job.status.isTerminal then .returned job ()
  else
    match job.checkToken token now with
    | .error e => .raised job e
    | .ok () =>
        (job.failed now kind reason (job.mayRetry kind retryable)).record now
          (.jobFailed job.work.id job.work.runId kind reason job.attempt
            (job.mayRetry kind retryable))

/-- What `requeue` assigns. -/
def requeued (job : StampedJob) : StampedJob :=
  { job with status := .queued, completedAt := none, lease := none, assignedWorkerId := none }

def requeue (job : StampedJob) (now : Stamp) (reason : String) : Call StampedJob Unit :=
  if job.status = .failed ∧ 0 < job.attemptsRemaining then
    job.requeued.record now (.jobRequeued job.work.id job.work.runId job.attempt reason)
  else .raised job (job.transitionError .queued)

/-- Call a method. The value it returns is of no interest here. -/
def perform (job : StampedJob) : StampedOp → Call StampedJob Unit
  | .enqueue now => job.enqueue now
  | .leaseTo workerId now duration token fresh => job.leaseTo workerId now duration token fresh
  | .markRunning token now => job.markRunning token now
  | .renewLease token now duration => job.renewLease token now duration
  | .complete token now result => job.complete token now result
  | .fail token now kind reason retryable => job.fail token now kind reason retryable
  | .requeue now reason => job.requeue now reason

/-! ### Calls that raise -/

/-- A call that raises leaves the job and its events as they were. -/
def FailsCleanly (job : StampedJob) (op : StampedOp) : Prop :=
  ∀ error, (job.perform op).result = .error error → (job.perform op).self = job

/-- Where the checks before the assignments let a call through, the event can be built, and
    the lease before it. A failure may also repeat what the job already says. -/
def Recordable (job : StampedJob) : StampedOp → Prop
  | .enqueue now => job.status = .pending ∨ job.status = .failed → now.aware = true
  | .leaseTo _ now duration _ _ => job.status = .queued →
      now.aware = true ∧ 0 < duration ∧ now.wall + duration ≤ maxWall
  | .markRunning _ _ => True
  | .renewLease _ _ _ => True
  | .complete token now _ => job.status ≠ .succeeded → job.checkToken token now = .ok () →
      now.aware = true ∧ ∀ started ∈ job.startedAt, started.aware = true
  | .fail token now kind reason retryable => job.status.isTerminal = false →
      job.checkToken token now = .ok () →
        now.aware = true ∨ job.failed now kind reason (job.mayRetry kind retryable) = job
  | .requeue now _ => job.status = .failed → 0 < job.attemptsRemaining → now.aware = true

variable {job before assigned : StampedJob} {now : Stamp} {duration : Duration}

/-- An event that is recorded last spoils a call exactly where it cannot be built and
    something has been assigned. -/
theorem record_cleanly_iff (body : EventBody) :
    (∀ error, (assigned.record now body).result = .error error →
      (assigned.record now body).self = before) ↔ now.aware = true ∨ assigned = before := by
  unfold record
  cases haware : now.aware with
  | true =>
    refine iff_of_true ?_ (Or.inl rfl)
    intro error herror
    cases herror
  | false =>
    constructor
    · intro h
      exact Or.inr (h _ rfl)
    · rintro (h | rfl) error -
      · cases h
      · rfl

/-- The status tells an assigned job from the one before. -/
theorem ne_of_status (h : assigned.status ≠ before.status) : assigned ≠ before := by
  rintro rfl
  exact h rfl

/-! ### Leases -/

/-- A lease is granted exactly for a positive duration from a time with a zone, up to the end
    of the calendar. -/
theorem granted_isOk_iff (jobId : JobId) (holder : WorkerId) (token : LeaseToken) :
    (∃ lease, StampedLease.granted jobId holder now duration token = .ok lease) ↔
      now.aware = true ∧ 0 < duration ∧ now.wall + duration ≤ maxWall := by
  have hrange := now.in_range
  unfold StampedLease.granted
  rcases hadd : now.add duration with error | expiresAt
  · have hover : ¬ (0 ≤ now.wall + duration ∧ now.wall + duration ≤ maxWall) := by
      intro h
      rw [Stamp.add, dif_pos h] at hadd
      cases hadd
    refine iff_of_false ?_ ?_
    · rintro ⟨lease, hlease⟩
      cases hlease
    · rintro ⟨-, hpos, hle⟩
      exact hover ⟨by unfold Duration at *; omega, hle⟩
  · obtain ⟨hwall, hzone⟩ := Stamp.add_eq_ok hadd
    have haware : expiresAt.aware = now.aware := congrArg Option.isSome hzone
    have hlater : expiresAt.elapsed now = some duration := by
      rw [Stamp.elapsed_of_zone hzone, hwall]
      congr 1
      unfold Duration at *
      omega
    have hearlier : now.ge expiresAt = .ok (decide (0 ≤ now.wall - expiresAt.wall)) := by
      unfold Stamp.ge
      rw [Stamp.elapsed_of_zone hzone.symm]
    have hmax : now.wall + duration ≤ maxWall := by
      rw [← hwall]
      exact expiresAt.in_range.2
    have hlasts : expiresAt.outlasts now = decide (0 < duration) := by
      unfold Stamp.outlasts
      rw [hlater]
    dsimp only
    unfold StampedLease.build
    rw [hearlier]
    dsimp only
    by_cases hpos : 0 < duration
    · rw [dif_pos (by rw [hlasts]; exact decide_eq_true hpos)]
      by_cases hnow : now.aware = true
      · rw [dif_pos ⟨hnow, haware.trans hnow⟩]
        exact iff_of_true ⟨_, rfl⟩ ⟨hnow, hpos, hmax⟩
      · rw [dif_neg (fun h => hnow h.1)]
        refine iff_of_false ?_ (fun h => hnow h.1)
        rintro ⟨lease, hlease⟩
        cases hlease
    · rw [dif_neg (by rw [hlasts]; exact fun h => hpos (of_decide_eq_true h))]
      refine iff_of_false ?_ (fun h => hpos h.2.1)
      rintro ⟨lease, hlease⟩
      cases hlease

/-! ### The calls -/

theorem enqueue_cleanly_iff : job.FailsCleanly (.enqueue now) ↔ job.Recordable (.enqueue now) := by
  unfold FailsCleanly Recordable perform
  dsimp only
  unfold enqueue
  by_cases hqueued : job.status = .queued
  · rw [if_pos hqueued]
    refine iff_of_true ?_ ?_
    · intro error herror
      cases herror
    · rw [hqueued]
      rintro (h | h) <;> cases h
  · rw [if_neg hqueued]
    by_cases hopen : job.status = .pending ∨ job.status = .failed
    · have hne : job.enqueued ≠ job := ne_of_status (Ne.symm hqueued)
      rw [if_pos hopen, record_cleanly_iff]
      simp [hne, hopen]
    · rw [if_neg hopen]
      refine iff_of_true ?_ (fun h => absurd h hopen)
      intro error _
      rfl

theorem leaseTo_cleanly_iff {workerId : WorkerId} {token : Option LeaseToken}
    {fresh : LeaseToken} : job.FailsCleanly (.leaseTo workerId now duration token fresh) ↔
      job.Recordable (.leaseTo workerId now duration token fresh) := by
  unfold FailsCleanly Recordable perform
  dsimp only
  unfold leaseTo
  by_cases hqueued : job.status = .queued
  · have hgranted :=
      @granted_isOk_iff now duration job.work.id workerId (token.getD fresh)
    rw [if_pos hqueued, ← hgranted]
    rcases hlease : StampedLease.granted job.work.id workerId now duration (token.getD fresh) with
      error | lease
    · have hne : job.claimed workerId now ≠ job := by
        apply ne_of_status
        rw [hqueued]
        exact fun h => by cases h
      refine iff_of_false (fun h => hne (h error rfl)) ?_
      intro h
      obtain ⟨lease, hok⟩ := h hqueued
      cases hok
    · rw [hlease] at hgranted
      have haware := (hgranted.mp ⟨lease, rfl⟩).1
      refine iff_of_true ?_ (fun _ => ⟨lease, rfl⟩)
      exact (record_cleanly_iff _).mpr (Or.inl haware)
  · rw [if_neg hqueued]
    refine iff_of_true ?_ (fun h => absurd h hqueued)
    intro error _
    rfl

theorem complete_cleanly_iff {token : Option LeaseToken} {result : Option Mapping} :
    job.FailsCleanly (.complete token now result) ↔
      job.Recordable (.complete token now result) := by
  unfold FailsCleanly Recordable perform
  dsimp only
  unfold complete
  by_cases hdone : job.status = .succeeded
  · rw [if_pos hdone]
    refine iff_of_true ?_ (fun h => absurd hdone h)
    intro error herror
    cases herror
  · rw [if_neg hdone]
    rcases hcheck : job.checkToken token now with error | ⟨⟩
    · refine iff_of_true ?_ (fun _ h => by cases h)
      intro error _
      rfl
    · have hne : job.completed now result ≠ job := ne_of_status (Ne.symm hdone)
      dsimp only
      rcases hmillis : (job.completed now result).durationMs with error | millis
      · refine iff_of_false (fun h => hne (h error rfl)) ?_
        intro h
        obtain ⟨haware, hstarted⟩ := h hdone rfl
        unfold durationMs completed at hmillis
        dsimp only at hmillis
        rcases hstart : job.startedAt with - | started
        · rw [hstart] at hmillis
          cases hmillis
        · obtain ⟨elapsed, helapsed⟩ :=
            Stamp.elapsed_of_aware (haware.trans (hstarted started hstart).symm)
          rw [hstart] at hmillis
          dsimp only at hmillis
          rw [Stamp.sub, helapsed] at hmillis
          cases hmillis
      · rw [record_cleanly_iff]
        constructor
        · rintro (haware | hsame) - -
          · refine ⟨haware, ?_⟩
            intro started hstart
            unfold durationMs completed at hmillis
            rw [hstart] at hmillis
            dsimp only at hmillis
            unfold Stamp.sub at hmillis
            split at hmillis
            · rename_i elapsed helapsed
              have hsame : now.aware = started.aware :=
                Stamp.elapsed_isSome_iff.mp (by rw [helapsed]; rfl)
              exact hsame.symm.trans haware
            · cases hmillis
          · exact absurd hsame hne
        · intro h
          exact Or.inl (h hdone rfl).1

theorem fail_cleanly_iff {token : Option LeaseToken} {kind : FailureKind} {reason : String}
    {retryable : Option Bool} : job.FailsCleanly (.fail token now kind reason retryable) ↔
      job.Recordable (.fail token now kind reason retryable) := by
  unfold FailsCleanly Recordable perform
  dsimp only
  unfold fail
  by_cases hover : job.status.isTerminal = true
  · rw [if_pos hover]
    refine iff_of_true ?_ (fun h => by rw [hover] at h; cases h)
    intro error herror
    cases herror
  · rw [if_neg hover]
    rcases hcheck : job.checkToken token now with error | ⟨⟩
    · refine iff_of_true ?_ (fun _ h => by cases h)
      intro error _
      rfl
    · dsimp only
      rw [record_cleanly_iff]
      simp [hover]

theorem requeue_cleanly_iff {reason : String} :
    job.FailsCleanly (.requeue now reason) ↔ job.Recordable (.requeue now reason) := by
  unfold FailsCleanly Recordable perform
  dsimp only
  unfold requeue
  by_cases hopen : job.status = .failed ∧ 0 < job.attemptsRemaining
  · have hne : job.requeued ≠ job := by
      apply ne_of_status
      rw [hopen.1]
      exact fun h => by cases h
    rw [if_pos hopen, record_cleanly_iff]
    simp [hne, hopen]
  · rw [if_neg hopen]
    refine iff_of_true ?_ (fun h h' => absurd ⟨h, h'⟩ hopen)
    intro error _
    rfl

/-- The two calls that assign last. -/
theorem markRunning_cleanly (token : LeaseToken) : job.FailsCleanly (.markRunning token now) := by
  unfold FailsCleanly perform
  dsimp only
  unfold markRunning
  intro error herror
  split
  · rfl
  · rename_i lease hlease
    rw [hlease] at herror
    dsimp only at herror
    split at herror <;> cases herror

theorem renewLease_cleanly (token : LeaseToken) :
    job.FailsCleanly (.renewLease token now duration) := by
  unfold FailsCleanly perform
  dsimp only
  unfold renewLease
  intro error herror
  split
  · rfl
  · rename_i lease hlease
    rw [hlease] at herror
    dsimp only at herror
    split
    · rfl
    · rename_i renewed hrenewed
      rw [hrenewed] at herror
      cases herror

/-- A call that raises leaves the job alone exactly where what it records can be built. -/
theorem fails_cleanly_iff (job : StampedJob) (op : StampedOp) :
    job.FailsCleanly op ↔ job.Recordable op := by
  cases op with
  | enqueue now => exact enqueue_cleanly_iff
  | leaseTo workerId now duration token fresh => exact leaseTo_cleanly_iff
  | markRunning token now => exact iff_of_true (markRunning_cleanly token) trivial
  | renewLease token now duration => exact iff_of_true (renewLease_cleanly token) trivial
  | complete token now result => exact complete_cleanly_iff
  | fail token now kind reason retryable => exact fail_cleanly_iff
  | requeue now reason => exact requeue_cleanly_iff

end StampedJob

namespace Sample

theorem new_year_in_range : (0 : Int) ≤ 63902908800000000 ∧ (63902908800000000 : Int) ≤ maxWall := by
  decide

/-- 1 January 2026 in UTC. -/
def newYear : Stamp where
  wall := 63902908800000000
  zone := some ⟨0, fun _ => 0⟩
  in_range := new_year_in_range

def leaseToken : LeaseToken := ⟨"lease-1", first_lease_named⟩

def waitingJob : StampedJob where
  work := ⟨⟨3⟩, ⟨2⟩, ⟨1⟩, .test, 0, none, none, .normal, 3⟩
  payload := []
  requirements := none
  idempotencyKey := none
  status := .queued
  attempt := 0
  lease := none
  assignedWorkerId := none
  startedAt := none
  completedAt := none
  result := none
  failureKind := none
  failureReason := none
  events := []

end Sample

namespace StampedJob

/-- Leased for no time, a queued job has spent an attempt, is leased and has no lease. -/
theorem half_leased : ¬ Sample.waitingJob.FailsCleanly
    (.leaseTo ⟨4⟩ Sample.newYear 0 (some Sample.leaseToken) Sample.leaseToken) := by
  intro h
  have hsame := h (.valueError "lease must expire strictly after it was acquired") (by rfl)
  have hattempt := congrArg StampedJob.attempt hsame
  exact absurd hattempt (by decide)

end StampedJob

end AgenticPlatform
