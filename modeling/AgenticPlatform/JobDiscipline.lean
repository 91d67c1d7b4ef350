import AgenticPlatform.Job
import AgenticPlatform.Runs

/-!
# What no call on a job changes

The lifecycle methods as moves. None of them touches what is to be done, and a lease that one
of them leaves on a job is the job's own.
-/

namespace AgenticPlatform

/-- The lifecycle methods, with their arguments. -/
inductive JobOp where
  | enqueue (now : Instant)
  | leaseTo (workerId : WorkerId) (now : Instant) (duration : Duration) (token : LeaseToken)
  | markRunning (token : LeaseToken) (now : Instant)
  | renewLease (token : LeaseToken) (now : Instant) (duration : Duration)
  | complete (token : Option LeaseToken) (now : Instant) (result : Option Mapping)
  | fail (token : Option LeaseToken) (now : Instant) (kind : FailureKind) (reason : String)
      (retryable : Option Bool)
  | expireLease (now : Instant)
  | requeue (now : Instant) (reason : String)
  | cancel (now : Instant)

namespace Job

/-- Call a method. The value it returns is of no interest here. -/
def perform (job : Job) : JobOp → Call Job Unit
  | .enqueue now => job.enqueue now
  | .leaseTo workerId now duration token => (job.leaseTo workerId now duration token).void
  | .markRunning token now => job.markRunning token now
  | .renewLease token now duration => (job.renewLease token now duration).void
  | .complete token now result => job.complete token now result
  | .fail token now kind reason retryable => (job.fail token now kind reason retryable).void
  | .expireLease now => .returned (job.expireLease now).1 ()
  | .requeue now reason => job.requeue now reason
  | .cancel now => .returned (job.cancel now) ()

/-- The job after one call, whether it returned or raised. -/
def step (job : Job) (op : JobOp) : Job := (job.perform op).self

variable {job : Job}

/-! ### What no call changes -/

/-- A lease on a job is its own. -/
def OwnsLease (job : Job) : Prop := ∀ lease ∈ job.lease, lease.jobId = job.id

theorem step_work (job : Job) (op : JobOp) : (job.step op).work = job.work := by
  unfold step
  cases op with
  | enqueue now => exact enqueue_work job now
  | leaseTo workerId now duration token => exact leaseTo_work job workerId now duration token
  | markRunning token now =>
    simp only [perform, markRunning]
    split
    · rfl
    · split <;> rfl
  | renewLease token now duration => exact renewLease_work job token now duration
  | complete token now result => exact complete_work job token now result
  | fail token now kind reason retryable => exact fail_work job token now kind reason retryable
  | expireLease now => exact expireLease_work job now
  | requeue now reason => exact requeue_work job now reason
  | cancel now => exact cancel_work job now

/-- **Leases stay with their jobs**: a lease that a call leaves was there before, or the call
    built it for the job. -/
theorem OwnsLease.step (hown : job.OwnsLease) (op : JobOp) : (job.step op).OwnsLease := by
  intro lease h
  rw [id_of_work (step_work job op)]
  unfold Job.step at h
  cases op with
  | enqueue now =>
    simp only [perform, enqueue] at h
    split at h
    · exact hown lease h
    · split at h
      · cases h
      · exact hown lease h
  | leaseTo workerId now duration token =>
    simp only [perform, Call.self_void, leaseTo] at h
    split at h
    · cases hgrant : Lease.granted job.id workerId now duration token with
      | error e =>
        simp only [hgrant] at h
        exact hown lease h
      | ok granted =>
        simp only [hgrant] at h
        cases h
        exact (Lease.build_eq_ok hgrant).1
    · exact hown lease h
  | markRunning token now =>
    simp only [perform, markRunning] at h
    split at h
    · exact hown lease h
    · split at h <;> exact hown lease h
  | renewLease token now duration =>
    simp only [perform, Call.self_void, renewLease] at h
    cases hassert : job.assertLease token now with
    | error e =>
      simp only [hassert] at h
      exact hown lease h
    | ok held =>
      simp only [hassert] at h
      cases hrenew : held.renewed now duration with
      | error e =>
        simp only [hrenew] at h
        exact hown lease h
      | ok renewed =>
        simp only [hrenew] at h
        cases h
        rw [Lease.renewed_jobId hrenew]
        exact hown held (assertLease_eq_ok.mp hassert).1
  | complete token now result =>
    simp only [perform, complete] at h
    split at h
    · exact hown lease h
    · split at h
      · exact hown lease h
      · cases h
  | fail token now kind reason retryable =>
    simp only [perform, Call.self_void, fail] at h
    split at h
    · exact hown lease h
    · split at h
      · exact hown lease h
      · cases h
  | expireLease now =>
    simp only [perform, expireLease, Call.self_returned] at h
    split at h
    · exact hown lease h
    · split at h
      · split at h <;> cases h
      · exact hown lease h
  | requeue now reason =>
    simp only [perform, requeue] at h
    split at h
    · cases h
    · exact hown lease h
  | cancel now =>
    simp only [perform, cancel, Call.self_returned] at h
    split at h
    · exact hown lease h
    · cases h

end Job

end AgenticPlatform
