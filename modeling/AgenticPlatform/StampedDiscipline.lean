import AgenticPlatform.Runs
import AgenticPlatform.StampedJob

/-!
# The discipline of the job entity

What holds of a job whatever is called on it, at whatever times, and whatever of that
raises: a lease is there exactly in flight, and a status that is final stays. Two calls can
break it. A completion without a token does not ask whether the job is over, and a claim
writes LEASED before it builds the lease, which may be refused.
-/

namespace AgenticPlatform

/-- The lifecycle methods: those of `StampedOp`, and the two besides them. -/
inductive LifecycleCall where
  | call (op : StampedOp)
  | expireLease (now : Stamp)
  | cancel (now : Stamp)

namespace StampedJob

/-- `Job.create`: the checks of the constructor are about what is to be done alone. -/
def created (work : Job.Work) (payload : Mapping) (requirements : Option JobRequirements)
    (idempotencyKey : Option String) : StampedJob where
  work := work
  payload := payload
  requirements := requirements
  idempotencyKey := idempotencyKey
  status := .pending
  attempt := 0
  lease := none
  assignedWorkerId := none
  startedAt := none
  completedAt := none
  result := none
  failureKind := none
  failureReason := none
  events := []

/-- Reclaim a job whose holder went silent; the value is whether it may retry. -/
def expireLease (job : StampedJob) (now : Stamp) : Call StampedJob Bool :=
  match job.lease with
  | none => .returned job false
  | some lease =>
      match lease.isExpired now with
      | .error e => .raised job e
      | .ok false => .returned job false
      | .ok true =>
          let expired := ({ job with lease := none, assignedWorkerId := none } : StampedJob).record
            now (.jobLeaseExpired job.work.id job.work.runId lease.holder)
          match expired.result with
          | .error e => .raised expired.self e
          | .ok () =>
              if 0 < job.attemptsRemaining then .returned { expired.self with status := .failed } true
              else
                .returned { expired.self with
                  status := .dead
                  failureKind := some .infrastructure
                  failureReason := some "lease expired and retry budget exhausted"
                  completedAt := some now } false

/-- Cancellation is idempotent and never fails on a terminal job. -/
def cancel (job : StampedJob) (now : Stamp) : StampedJob :=
  if job.status.isTerminal then job
  else { job with
    status := .cancelled
    completedAt := some now
    lease := none
    assignedWorkerId := none
    failureKind := some .cancelled }

/-- The job after one call, whether it returned or raised. -/
def step (job : StampedJob) : LifecycleCall → StampedJob
  | .call op => (job.perform op).self
  | .expireLease now => (job.expireLease now).self
  | .cancel now => job.cancel now

/-- A lease is present exactly while the job is in flight. -/
def LeasedInFlight (job : StampedJob) : Prop := job.lease.isSome = job.status.isInFlight

/-- What a call has to leave: the lease where it belongs, and a job that was over as it
    ended. -/
structure Keeps (job : StampedJob) (call : LifecycleCall) : Prop where
  lease : (job.step call).LeasedInFlight
  ended : job.status.isTerminal = true → (job.step call).status = job.status

/-- A completion without token is of a job that is not over otherwise, and a queued job is
    leased from a time with a zone, for a positive time, up to the end of the calendar. -/
def Careful (job : StampedJob) : LifecycleCall → Prop
  | .call (.leaseTo _ now duration _ _) => job.status = .queued →
      now.aware = true ∧ 0 < duration ∧ now.wall + duration ≤ maxWall
  | .call (.complete none _ _) => job.status.isTerminal = true → job.status = .succeeded
  | _ => True

variable {job : StampedJob} {now : Stamp}

/-! ### What each call keeps -/

@[simp] theorem record_lease (job : StampedJob) (now : Stamp) (body : EventBody) :
    (job.record now body).self.lease = job.lease := by
  unfold record
  split <;> rfl

@[simp] theorem record_status (job : StampedJob) (now : Stamp) (body : EventBody) :
    (job.record now body).self.status = job.status := by
  unfold record
  split <;> rfl

/-- A call that leaves status and lease alone. -/
theorem Keeps.of_same {call : LifecycleCall} (h : job.LeasedInFlight)
    (hlease : (job.step call).lease = job.lease) (hstatus : (job.step call).status = job.status) :
    job.Keeps call :=
  ⟨by unfold LeasedInFlight; rw [hlease, hstatus]; exact h, fun _ => hstatus⟩

/-- A call that leaves the job alone. -/
theorem Keeps.of_self {call : LifecycleCall} (h : job.LeasedInFlight) (hsame : job.step call = job) :
    job.Keeps call :=
  .of_same h (by rw [hsame]) (by rw [hsame])

/-- A call that takes a job which is not over to a status in which nobody holds it. -/
theorem Keeps.of_settled {call : LifecycleCall} (hlive : job.status.isTerminal = false)
    (hlease : (job.step call).lease = none)
    (hidle : (job.step call).status.isInFlight = false) : job.Keeps call :=
  ⟨by unfold LeasedInFlight; rw [hlease, hidle]; rfl, fun h => absurd h (by simp [hlive])⟩

/-- A call that leaves a live job with a lease, in flight. -/
theorem Keeps.of_held {call : LifecycleCall} (hlive : job.status.isTerminal = false)
    (hlease : (job.step call).lease ≠ none)
    (hflight : (job.step call).status.isInFlight = true) : job.Keeps call :=
  ⟨by unfold LeasedInFlight; rw [hflight]; exact Option.isSome_iff_ne_none.mpr hlease,
    fun h => absurd h (by simp [hlive])⟩

/-- A job whose lease was asked for is not over. -/
theorem LeasedInFlight.live {lease : StampedLease} (h : job.LeasedInFlight)
    (hlease : job.lease = some lease) : job.status.isTerminal = false := by
  unfold LeasedInFlight at h
  rw [hlease] at h
  have hflight : job.status.isInFlight = true := h.symm
  cases hstatus : job.status <;> rw [hstatus] at hflight <;> first | rfl | cases hflight

theorem lease_of_assertLease {token : LeaseToken} {lease : StampedLease}
    (h : job.assertLease token now = .ok lease) : job.lease = some lease := by
  unfold assertLease at h
  split at h
  · cases h
  · rename_i held hheld
    split at h
    · split at h
      · cases h
      · cases h
      · cases h
        exact hheld
    · cases h

theorem checkToken_some {token : LeaseToken} (h : job.checkToken (some token) now = .ok ()) :
    ∃ lease, job.lease = some lease := by
  cases hassert : job.assertLease token now with
  | error e => simp [checkToken, hassert, Except.map] at h
  | ok lease => exact ⟨lease, lease_of_assertLease hassert⟩

theorem enqueue_keeps (h : job.LeasedInFlight) : job.Keeps (.call (.enqueue now)) := by
  by_cases hqueued : job.status = .queued
  · exact .of_self h (by simp [step, perform, enqueue, hqueued])
  · by_cases hopen : job.status = .pending ∨ job.status = .failed
    · apply Keeps.of_settled
      · rcases hopen with hopen | hopen <;> rw [hopen] <;> rfl
      · simp [step, perform, enqueue, hqueued, hopen, enqueued]
      · simp [step, perform, enqueue, hqueued, hopen, enqueued, JobStatus.isInFlight]
    · exact .of_self h (by simp [step, perform, enqueue, hqueued, hopen])

/-- Leasing a queued job keeps the discipline exactly where a lease can be granted: the
    status is written before it is built. -/
theorem leaseTo_keeps {workerId : WorkerId} {duration : Duration} {token : Option LeaseToken}
    {fresh : LeaseToken} (h : job.LeasedInFlight) :
    job.Keeps (.call (.leaseTo workerId now duration token fresh)) ↔
      job.Careful (.call (.leaseTo workerId now duration token fresh)) := by
  show _ ↔ (job.status = .queued → now.aware = true ∧ 0 < duration ∧ now.wall + duration ≤ maxWall)
  by_cases hqueued : job.status = .queued
  · have hlease : job.lease = none := by
      unfold LeasedInFlight at h
      rw [hqueued] at h
      simpa [JobStatus.isInFlight] using h
    rw [← granted_isOk_iff job.work.id workerId (token.getD fresh)]
    cases hgrant : StampedLease.granted job.work.id workerId now duration (token.getD fresh) with
    | error e =>
      constructor
      · intro hkeeps
        have hbad := hkeeps.lease
        simp [LeasedInFlight, step, perform, leaseTo, hqueued, hgrant, claimed, hlease,
          JobStatus.isInFlight] at hbad
      · intro hcareful
        obtain ⟨lease, hgranted⟩ := hcareful hqueued
        cases hgranted
    | ok lease =>
      refine ⟨fun _ _ => ⟨lease, rfl⟩, fun _ => Keeps.of_held ?_ ?_ ?_⟩
      · rw [hqueued]
        rfl
      · simp [step, perform, leaseTo, hqueued, hgrant]
      · simp [step, perform, leaseTo, hqueued, hgrant, claimed, JobStatus.isInFlight]
  · refine iff_of_true (.of_self h ?_) fun hq => absurd hq hqueued
    simp [step, perform, leaseTo, hqueued]

theorem markRunning_keeps {token : LeaseToken} (h : job.LeasedInFlight) :
    job.Keeps (.call (.markRunning token now)) := by
  cases hassert : job.assertLease token now with
  | error e => exact .of_self h (by simp [step, perform, markRunning, hassert])
  | ok lease =>
    have hlease := lease_of_assertLease hassert
    by_cases hrunning : job.status = .running
    · exact .of_self h (by simp [step, perform, markRunning, hassert, hrunning])
    · apply Keeps.of_held (h.live hlease)
      · simp [step, perform, markRunning, hassert, hrunning, hlease]
      · simp [step, perform, markRunning, hassert, hrunning, JobStatus.isInFlight]

theorem renewLease_keeps {token : LeaseToken} {duration : Duration} (h : job.LeasedInFlight) :
    job.Keeps (.call (.renewLease token now duration)) := by
  cases hassert : job.assertLease token now with
  | error e => exact .of_self h (by simp [step, perform, renewLease, hassert])
  | ok lease =>
    have hlease := lease_of_assertLease hassert
    cases hrenew : lease.renewed now duration with
    | error e => exact .of_self h (by simp [step, perform, renewLease, hassert, hrenew])
    | ok renewed =>
      apply Keeps.of_held (h.live hlease)
      · simp [step, perform, renewLease, hassert, hrenew]
      · unfold LeasedInFlight at h
        rw [hlease] at h
        simp [step, perform, renewLease, hassert, hrenew, ← h]

theorem complete_parts {token : Option LeaseToken} {result : Option Mapping}
    (hdone : job.status ≠ .succeeded) (hcheck : job.checkToken token now = .ok ()) :
    (job.step (.call (.complete token now result))).lease = none ∧
      (job.step (.call (.complete token now result))).status = .succeeded := by
  simp only [step, perform, complete, if_neg hdone, hcheck]
  split
  · exact ⟨rfl, rfl⟩
  · rw [record_lease, record_status]
    exact ⟨rfl, rfl⟩

/-- A completion keeps the discipline unless it is one without token of a job that ended
    otherwise: nothing then asks whether the job is over. -/
theorem complete_keeps {token : Option LeaseToken} {result : Option Mapping}
    (h : job.LeasedInFlight) :
    job.Keeps (.call (.complete token now result)) ↔ job.Careful (.call (.complete token now result)) := by
  by_cases hdone : job.status = .succeeded
  · have hkeeps : job.Keeps (.call (.complete token now result)) :=
      .of_self h (by simp [step, perform, complete, hdone])
    refine ⟨fun _ => ?_, fun _ => hkeeps⟩
    cases token with
    | none => exact fun _ => hdone
    | some token => trivial
  · cases hcheck : job.checkToken token now with
    | error e =>
      have hkeeps : job.Keeps (.call (.complete token now result)) :=
        .of_self h (by simp [step, perform, complete, hdone, hcheck])
      refine ⟨fun _ => ?_, fun _ => hkeeps⟩
      cases token with
      | none => cases hcheck
      | some token => trivial
    | ok =>
      obtain ⟨hlease, hstatus⟩ := @complete_parts job now token result hdone hcheck
      cases hover : job.status.isTerminal with
      | false =>
        refine ⟨fun _ => ?_, fun _ => .of_settled hover hlease (by rw [hstatus]; rfl)⟩
        cases token with
        | none => exact fun hterminal => by rw [hover] at hterminal; cases hterminal
        | some token => trivial
      | true =>
        constructor
        · intro hkeeps
          exact absurd ((hkeeps.ended hover).symm.trans hstatus) hdone
        · intro hcareful
          cases token with
          | none => exact absurd (hcareful hover) hdone
          | some token =>
            -- a job that is over has no lease for the token to match
            obtain ⟨lease, hheld⟩ := checkToken_some hcheck
            rw [h.live hheld] at hover
            cases hover

theorem fail_keeps {token : Option LeaseToken} {kind : FailureKind} {reason : String}
    {retryable : Option Bool} (h : job.LeasedInFlight) :
    job.Keeps (.call (.fail token now kind reason retryable)) := by
  cases hover : job.status.isTerminal with
  | true => exact .of_self h (by simp [step, perform, fail, hover])
  | false =>
    cases hcheck : job.checkToken token now with
    | error e => exact .of_self h (by simp [step, perform, fail, hover, hcheck])
    | ok =>
      apply Keeps.of_settled hover
      · simp [step, perform, fail, hover, hcheck, failed]
      · simp only [step, perform, fail, hover, hcheck, record_status, failed, Bool.false_eq_true, if_false]
        split <;> rfl

theorem expireLease_keeps (h : job.LeasedInFlight) : job.Keeps (.expireLease now) := by
  cases hlease : job.lease with
  | none => exact .of_self h (by simp [step, expireLease, hlease])
  | some lease =>
    cases hexpired : lease.isExpired now with
    | error e => exact .of_self h (by simp [step, expireLease, hlease, hexpired])
    | ok expired =>
      cases expired with
      | false => exact .of_self h (by simp [step, expireLease, hlease, hexpired])
      | true =>
        -- the lease was compared with the time, so the event takes it
        have haware : now.aware = true := (Stamp.ge_eq_ok hexpired).trans lease.aware.2
        by_cases hleft : 0 < job.attemptsRemaining
        · apply Keeps.of_settled (h.live hlease) <;>
            simp [step, expireLease, hlease, hexpired, record, haware, hleft, JobStatus.isInFlight]
        · apply Keeps.of_settled (h.live hlease) <;>
            simp [step, expireLease, hlease, hexpired, record, haware, hleft, JobStatus.isInFlight]

theorem requeue_keeps {reason : String} (h : job.LeasedInFlight) :
    job.Keeps (.call (.requeue now reason)) := by
  by_cases hfailed : job.status = .failed ∧ 0 < job.attemptsRemaining
  · apply Keeps.of_settled
    · rw [hfailed.1]
      rfl
    · simp [step, perform, requeue, hfailed, requeued]
    · simp [step, perform, requeue, hfailed, requeued, JobStatus.isInFlight]
  · refine .of_self h ?_
    simp only [step, perform, requeue, if_neg hfailed, Call.self_raised]

theorem cancel_keeps (h : job.LeasedInFlight) : job.Keeps (.cancel now) := by
  cases hover : job.status.isTerminal with
  | true => exact .of_self h (by simp [step, cancel, hover])
  | false =>
    apply Keeps.of_settled hover <;> simp [step, cancel, hover, JobStatus.isInFlight]

/-- **A call keeps the discipline exactly when it is careful.** -/
theorem keeps_iff_careful (h : job.LeasedInFlight) (call : LifecycleCall) :
    job.Keeps call ↔ job.Careful call := by
  cases call with
  | call op =>
    cases op with
    | enqueue now => exact iff_of_true (enqueue_keeps h) trivial
    | leaseTo workerId now duration token fresh => exact leaseTo_keeps h
    | markRunning token now => exact iff_of_true (markRunning_keeps h) trivial
    | renewLease token now duration => exact iff_of_true (renewLease_keeps h) trivial
    | complete token now result => exact complete_keeps h
    | fail token now kind reason retryable => exact iff_of_true (fail_keeps h) trivial
    | requeue now reason => exact iff_of_true (requeue_keeps h) trivial
  | expireLease now => exact iff_of_true (expireLease_keeps h) trivial
  | cancel now => exact iff_of_true (cancel_keeps h) trivial

/-! ### Sequences of calls -/

/-- **The discipline of the job entity**: in every state of a sequence of calls on a
    created job a lease is present exactly in flight, and no call changes a status that
    is final, if and only if every call of the sequence is careful. -/
theorem create_job_disciplined (work : Job.Work) (payload : Mapping)
    (requirements : Option JobRequirements) (idempotencyKey : Option String)
    (calls : List LifecycleCall) :
    let job := created work payload requirements idempotencyKey
    job.LeasedInFlight ∧
      (Runs.Along step Keeps job calls ↔ Runs.Along step Careful job calls) := by
  intro job
  have hstart : job.LeasedInFlight := rfl
  exact ⟨hstart, Runs.along_congr hstart (fun _ _ _ h => h.lease) fun _ call h => keeps_iff_careful h call⟩

end StampedJob

namespace Sample

theorem year_one : 0 ≤ (1 : Int) ∧ (1 : Int) ≤ maxWall := by decide

def buildWork : Job.Work := ⟨⟨1⟩, ⟨2⟩, ⟨3⟩, .build, 0, none, none, .normal, 3⟩

/-- A job is cancelled, and completed without a token. -/
def completedLate : List LifecycleCall :=
  [.cancel ⟨1, none, year_one⟩, .call (.complete none ⟨1, none, year_one⟩ none)]

end Sample

namespace StampedJob

/-- **A cancelled job succeeds**, if it is completed without a token. -/
theorem cancelled_job_completed :
    let job := created Sample.buildWork [] none none
    (Runs.after step job (Sample.completedLate.take 1)).status = .cancelled ∧
      (Runs.after step job Sample.completedLate).status = .succeeded ∧
      ¬ Runs.Along step Keeps job Sample.completedLate := by
  refine ⟨rfl, rfl, fun h => ?_⟩
  have hsame := h.2.1.ended rfl
  cases hsame

end StampedJob

end AgenticPlatform
