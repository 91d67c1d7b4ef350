import AgenticPlatform.StampedDiscipline
import Mathlib.Data.List.Forall2

/-!
# The job over instants

The platform keeps its times in UTC. Where every time is one in UTC, and no lease runs past the
calendar, the job entity over times as they are does what the one over instants does: it raises
where that raises, and what it leaves shows what that leaves.
-/

namespace AgenticPlatform

def Zone.utc : Zone := ⟨0, fun _ => 0⟩

/-! ### Times in UTC -/

/-- The time in UTC of an instant. -/
structure Stamp.Shows (stamp : Stamp) (instant : Instant) : Prop where
  zone : stamp.zone = some .utc
  wall : stamp.wall = epochWall + instant

/-- The time so much later is in the calendar. -/
def Stamp.InCalendar (instant : Instant) (duration : Duration) : Prop :=
  0 ≤ epochWall + instant + duration ∧ epochWall + instant + duration ≤ maxWall

namespace Stamp.Shows

variable {left right now : Stamp} {i j : Instant} {duration : Duration}

theorem aware (h : now.Shows i) : now.aware = true := by
  rw [Stamp.aware, h.zone]
  rfl

theorem elapsed (h : left.Shows i) (h' : right.Shows j) : left.elapsed right = some (i - j) := by
  rw [elapsed_of_zone (h.zone.trans h'.zone.symm), h.wall, h'.wall]
  congr 1
  unfold Instant at *
  omega

theorem ge (h : left.Shows i) (h' : right.Shows j) : left.ge right = .ok (decide (j ≤ i)) := by
  have hle : (0 ≤ i - j) ↔ j ≤ i := Int.sub_nonneg
  rw [Stamp.ge, h.elapsed h']
  simp only [hle]

theorem sub (h : left.Shows i) (h' : right.Shows j) : left.sub right = .ok (i - j) := by
  rw [Stamp.sub, h.elapsed h']

theorem outlasts (h : left.Shows i) (h' : right.Shows j) :
    left.outlasts right = decide (j < i) := by
  have hlt : (0 < i - j) ↔ j < i := Int.sub_pos
  rw [Stamp.outlasts, h.elapsed h']
  simp only [hlt]

theorem add (h : now.Shows i) (hreaches : InCalendar i duration) :
    ∃ sum, now.add duration = .ok sum ∧ sum.Shows (i + duration) := by
  have hrange : 0 ≤ now.wall + duration ∧ now.wall + duration ≤ maxWall := by
    rw [h.wall]
    exact hreaches
  refine ⟨_, dif_pos hrange, h.zone, ?_⟩
  show now.wall + duration = epochWall + (i + duration)
  rw [h.wall, Int.add_assoc]

/-- The first of two times, if there is one. -/
theorem getD {stamp : Option Stamp} {instant : Option Instant} (h : Option.Rel Shows stamp instant)
    (hnow : now.Shows i) : Option.Rel Shows (some (stamp.getD now)) (some (instant.getD i)) := by
  cases h with
  | none => exact .some hnow
  | some h => exact .some h

end Stamp.Shows

/-! ### Leases -/

structure StampedLease.Shows (stamped : StampedLease) (lease : Lease) : Prop where
  jobId : stamped.jobId = lease.jobId
  holder : stamped.holder = lease.holder
  token : stamped.token = lease.token
  acquiredAt : stamped.acquiredAt.Shows lease.acquiredAt
  expiresAt : stamped.expiresAt.Shows lease.expiresAt

/-- Both compute what stands for the same, or raise the same. -/
inductive SameOutcome {α β : Type} (shows' : α → β → Prop) :
    Except PyError α → Except PyError β → Prop
  | ok {a : α} {b : β} (h : shows' a b) : SameOutcome shows' (.ok a) (.ok b)
  | error (e : PyError) : SameOutcome shows' (.error e) (.error e)

theorem SameOutcome.void {α β : Type} {shows' : α → β → Prop} {left : Except PyError α}
    {right : Except PyError β} (h : SameOutcome shows' left right) :
    (left.map fun _ => ()) = right.map fun _ => () := by
  cases h with
  | ok h => rfl
  | error e => rfl

namespace StampedLease

variable {stamped : StampedLease} {lease : Lease} {now acquiredAt expiresAt : Stamp}
  {i j : Instant} {duration : Duration}

theorem build_shows (hacquired : acquiredAt.Shows i) (hexpires : expiresAt.Shows j) (jobId : JobId)
    (holder : WorkerId) (token : LeaseToken) :
    SameOutcome Shows (build jobId holder token acquiredAt expiresAt)
      (Lease.build jobId holder token i j) := by
  have hlasts := hexpires.outlasts hacquired
  rw [build, hacquired.ge hexpires, Lease.build]
  dsimp only
  by_cases hlt : i < j
  · have hlater : expiresAt.outlasts acquiredAt = true := hlasts.trans (decide_eq_true hlt)
    rw [dif_pos hlater, dif_pos ⟨hacquired.aware, hexpires.aware⟩, dif_pos hlt]
    exact .ok ⟨rfl, rfl, rfl, hacquired, hexpires⟩
  · have hearlier : ¬ expiresAt.outlasts acquiredAt = true := by
      rw [hlasts, decide_eq_true_iff]
      exact hlt
    rw [dif_neg hearlier, dif_neg hlt]
    exact .error _

theorem granted_shows (hnow : now.Shows i) (hreaches : Stamp.InCalendar i duration)
    (jobId : JobId) (holder : WorkerId) (token : LeaseToken) :
    SameOutcome Shows (granted jobId holder now duration token)
      (Lease.granted jobId holder i duration token) := by
  obtain ⟨expiresAt, hadd, hexpires⟩ := hnow.add hreaches
  rw [granted, hadd, Lease.granted]
  exact build_shows hnow hexpires jobId holder token

theorem isExpired_shows (h : stamped.Shows lease) (hnow : now.Shows i) :
    stamped.isExpired now = .ok (lease.isExpired i) :=
  hnow.ge h.expiresAt

theorem renewed_shows (h : stamped.Shows lease) (hnow : now.Shows i)
    (hreaches : Stamp.InCalendar i duration) :
    SameOutcome Shows (stamped.renewed now duration) (lease.renewed i duration) := by
  obtain ⟨expiresAt, hadd, hexpires⟩ := hnow.add hreaches
  rw [renewed, isExpired_shows h hnow, Lease.renewed]
  cases lease.isExpired i with
  | true => exact .error _
  | false =>
    simp only [hadd, Bool.false_eq_true, if_false, h.jobId, h.holder, h.token]
    exact build_shows h.acquiredAt hexpires _ _ _

end StampedLease

/-! ### Jobs -/

/-- The job over times in UTC that stands for one over instants. -/
structure StampedJob.Shows (stamped : StampedJob) (job : Job) : Prop where
  work : stamped.work = job.work
  payload : stamped.payload = job.payload
  requirements : stamped.requirements = job.requirements
  idempotencyKey : stamped.idempotencyKey = job.idempotencyKey
  status : stamped.status = job.status
  attempt : stamped.attempt = job.attempt
  lease : Option.Rel StampedLease.Shows stamped.lease job.lease
  assignedWorkerId : stamped.assignedWorkerId = job.assignedWorkerId
  startedAt : Option.Rel Stamp.Shows stamped.startedAt job.startedAt
  completedAt : Option.Rel Stamp.Shows stamped.completedAt job.completedAt
  result : stamped.result = job.result
  failureKind : stamped.failureKind = job.failureKind
  failureReason : stamped.failureReason = job.failureReason
  events : List.Forall₂ (fun recorded event => Stamp.Shows recorded.1 event.occurredAt ∧
    recorded.2 = event.body) stamped.events job.events

/-- Two calls that leave jobs of which one stands for the other, and return or raise the same. -/
structure SameCall {α : Type} (left : Call StampedJob α) (right : Call Job α) : Prop where
  self : left.self.Shows right.self
  result : left.result = right.result

namespace StampedJob

variable {stamped : StampedJob} {job : Job} {now : Stamp} {i : Instant}

theorem Shows.id (h : stamped.Shows job) : stamped.work.id = job.id := congrArg Job.Work.id h.work

theorem Shows.runId (h : stamped.Shows job) : stamped.work.runId = job.runId :=
  congrArg Job.Work.runId h.work

theorem Shows.type (h : stamped.Shows job) : stamped.work.type = job.type :=
  congrArg Job.Work.type h.work

theorem Shows.attemptsRemaining (h : stamped.Shows job) :
    stamped.attemptsRemaining = job.attemptsRemaining := by
  rw [StampedJob.attemptsRemaining, h.work, h.attempt]
  rfl

theorem Shows.transitionError (h : stamped.Shows job) (requested : JobStatus) :
    stamped.transitionError requested = job.transitionError requested := by
  rw [StampedJob.transitionError, h.status]
  rfl

theorem Shows.record (h : stamped.Shows job) (hnow : now.Shows i) (body : EventBody) :
    stamped.record now body =
      .returned { stamped with events := stamped.events ++ [(now, body)] } () ∧
    ({ stamped with events := stamped.events ++ [(now, body)] } : StampedJob).Shows
      (job.record i body) := by
  refine ⟨if_pos hnow.aware, { h with events := ?_ }⟩
  exact List.rel_append h.events (.cons ⟨hnow, rfl⟩ .nil)

/-- A call that ends with an event. -/
theorem Shows.recorded (h : stamped.Shows job) (hnow : now.Shows i) (body : EventBody) :
    SameCall (stamped.record now body) (.returned (job.record i body) ()) := by
  obtain ⟨hrecord, hshows⟩ := h.record hnow body
  rw [hrecord]
  exact ⟨hshows, rfl⟩

theorem Shows.raised (h : stamped.Shows job) {e e' : PyError} (he : e = e') :
    SameCall (.raised stamped e : Call StampedJob Unit) (.raised job e') :=
  ⟨h, congrArg Except.error he⟩

theorem Shows.returned (h : stamped.Shows job) :
    SameCall (.returned stamped () : Call StampedJob Unit) (.returned job ()) :=
  ⟨h, rfl⟩

theorem Shows.durationMs (h : stamped.Shows job) : stamped.durationMs = .ok job.durationMs := by
  have hstarted := h.startedAt
  have hcompleted := h.completedAt
  unfold StampedJob.durationMs Job.durationMs
  generalize stamped.startedAt = started, job.startedAt = started' at hstarted
  generalize stamped.completedAt = completed, job.completedAt = completed' at hcompleted
  cases hstarted with
  | none => rfl
  | some hstarted =>
    cases hcompleted with
    | none => rfl
    | some hcompleted =>
      simp only [hcompleted.sub hstarted]
      rfl

/-! ### The token -/

theorem assertLease_shows (h : stamped.Shows job) (hnow : now.Shows i) (token : LeaseToken) :
    SameOutcome StampedLease.Shows (stamped.assertLease token now) (job.assertLease token i) := by
  have hlease := h.lease
  unfold assertLease Job.assertLease
  rw [h.id, h.assignedWorkerId]
  generalize stamped.lease = lease, job.lease = lease' at hlease
  cases hlease with
  | none => exact .error _
  | @some left right hlease =>
    dsimp only
    rw [hlease.token]
    by_cases htoken : right.token = token
    · rw [if_pos htoken, if_pos htoken, StampedLease.isExpired_shows hlease hnow, hlease.holder]
      cases right.isExpired i with
      | true => exact .error _
      | false => exact .ok hlease
    · rw [if_neg htoken, if_neg htoken]
      exact .error _

theorem checkToken_shows (h : stamped.Shows job) (hnow : now.Shows i) (token : Option LeaseToken) :
    stamped.checkToken token now = job.checkToken token i := by
  cases token with
  | none => rfl
  | some token => exact (assertLease_shows h hnow token).void

/-! ### The calls -/

theorem enqueue_shows (h : stamped.Shows job) (hnow : now.Shows i) :
    SameCall (stamped.enqueue now) (job.enqueue i) := by
  have henqueued : stamped.enqueued.Shows { job with
      status := .queued, lease := none, assignedWorkerId := none } :=
    { h with status := rfl, lease := .none, assignedWorkerId := rfl }
  unfold enqueue Job.enqueue
  rw [h.status, h.id, h.runId, h.type, h.attempt]
  split
  · exact h.returned
  · split
    · exact henqueued.recorded hnow _
    · exact h.raised (h.transitionError _)

theorem leaseTo_shows (h : stamped.Shows job) (hnow : now.Shows i) {duration : Duration}
    (hreaches : Stamp.InCalendar i duration) (workerId : WorkerId) (token : Option LeaseToken)
    (fresh : LeaseToken) : SameCall (stamped.leaseTo workerId now duration token fresh)
      (job.leaseTo workerId i duration (token.getD fresh)).void := by
  have hlease := StampedLease.granted_shows hnow hreaches job.id workerId (token.getD fresh)
  have hclaimed : (stamped.claimed workerId now).Shows { job with
      attempt := job.attempt + 1
      status := .leased
      assignedWorkerId := some workerId
      startedAt := some (job.startedAt.getD i) } :=
    { h with
      status := rfl
      attempt := congrArg (· + 1) h.attempt
      assignedWorkerId := rfl
      startedAt := Stamp.Shows.getD h.startedAt hnow }
  unfold leaseTo Job.leaseTo
  rw [h.status, h.id, h.runId, h.attempt]
  split
  · dsimp only
    generalize StampedLease.granted job.id workerId now duration (token.getD fresh) = granted,
      Lease.granted job.id workerId i duration (token.getD fresh) = granted' at hlease
    cases hlease with
    | @ok left right hlease =>
      have hleased : ({ stamped.claimed workerId now with lease := some left } : StampedJob).Shows
          { job with
            attempt := job.attempt + 1
            status := .leased
            assignedWorkerId := some workerId
            startedAt := some (job.startedAt.getD i)
            lease := some right } :=
        { hclaimed with lease := .some hlease }
      exact hleased.recorded hnow _
    | error e => exact hclaimed.raised rfl
  · exact h.raised (h.transitionError _)

theorem markRunning_shows (h : stamped.Shows job) (hnow : now.Shows i) (token : LeaseToken) :
    SameCall (stamped.markRunning token now) (job.markRunning token i) := by
  have hlease := assertLease_shows h hnow token
  unfold markRunning Job.markRunning
  generalize stamped.assertLease token now = found, job.assertLease token i = found' at hlease
  cases hlease with
  | error e => exact h.raised rfl
  | ok hlease =>
    dsimp only
    rw [h.status]
    split
    · exact h.returned
    · exact Shows.returned { h with
        status := rfl
        startedAt := Stamp.Shows.getD h.startedAt hnow }

theorem renewLease_shows (h : stamped.Shows job) (hnow : now.Shows i) {duration : Duration}
    (hreaches : Stamp.InCalendar i duration) (token : LeaseToken) :
    SameCall (stamped.renewLease token now duration) (job.renewLease token i duration).void := by
  have hlease := assertLease_shows h hnow token
  unfold renewLease Job.renewLease
  generalize stamped.assertLease token now = found, job.assertLease token i = found' at hlease
  cases hlease with
  | error e => exact h.raised rfl
  | @ok left right hlease =>
    have hrenewed := StampedLease.renewed_shows hlease hnow hreaches
    dsimp only
    generalize left.renewed now duration = renewed, right.renewed i duration = renewed' at hrenewed
    cases hrenewed with
    | error e => exact h.raised rfl
    | ok hrenewed => exact Shows.returned { h with lease := .some hrenewed }

theorem complete_shows (h : stamped.Shows job) (hnow : now.Shows i) (token : Option LeaseToken)
    (result : Option Mapping) :
    SameCall (stamped.complete token now result) (job.complete token i result) := by
  have hcompleted : (stamped.completed now result).Shows { job with
      status := .succeeded, completedAt := some i, result := result, lease := none } :=
    { h with status := rfl, completedAt := .some hnow, result := rfl, lease := .none }
  unfold complete Job.complete
  rw [h.status, checkToken_shows h hnow, hcompleted.durationMs, h.id, h.runId, h.type]
  split
  · exact h.returned
  · cases job.checkToken token i with
    | error e => exact h.raised rfl
    | ok _ => exact hcompleted.recorded hnow _

theorem fail_shows (h : stamped.Shows job) (hnow : now.Shows i) (token : Option LeaseToken)
    (kind : FailureKind) (reason : String) (retryable : Option Bool) :
    SameCall (stamped.fail token now kind reason retryable)
      (job.fail token i kind reason retryable).void := by
  have hretry : stamped.mayRetry kind retryable =
      (retryable.getD (kind.isInfrastructure || decide (kind = .invalidStructuredOutput)) &&
        decide (0 < job.attemptsRemaining)) := by
    rw [mayRetry, h.attemptsRemaining]
  have hfailed : ∀ mayRetry : Bool, (stamped.failed now kind reason mayRetry).Shows { job with
      status := if mayRetry then .failed else .dead
      failureKind := some kind
      failureReason := some reason
      completedAt := some i
      lease := none
      assignedWorkerId := none } := fun mayRetry =>
    { h with
      status := rfl
      failureKind := rfl
      failureReason := rfl
      completedAt := .some hnow
      lease := .none
      assignedWorkerId := rfl }
  unfold fail Job.fail
  rw [h.status, checkToken_shows h hnow, hretry, h.id, h.runId, h.attempt]
  split
  · exact h.returned
  · cases job.checkToken token i with
    | error e => exact h.raised rfl
    | ok _ => exact (hfailed _).recorded hnow _

theorem requeue_shows (h : stamped.Shows job) (hnow : now.Shows i) (reason : String) :
    SameCall (stamped.requeue now reason) (job.requeue i reason) := by
  have hrequeued : stamped.requeued.Shows { job with
      status := .queued, completedAt := none, lease := none, assignedWorkerId := none } :=
    { h with status := rfl, completedAt := .none, lease := .none, assignedWorkerId := rfl }
  unfold requeue Job.requeue
  rw [h.status, h.attemptsRemaining, h.id, h.runId, h.attempt]
  split
  · exact hrequeued.recorded hnow _
  · exact h.raised (h.transitionError _)

theorem expireLease_shows (h : stamped.Shows job) (hnow : now.Shows i) :
    SameCall (stamped.expireLease now)
      (.returned (job.expireLease i).1 (job.expireLease i).2) := by
  have hlease := h.lease
  have hexpired : ({ stamped with lease := none, assignedWorkerId := none } : StampedJob).Shows
      { job with lease := none, assignedWorkerId := none } :=
    { h with lease := .none, assignedWorkerId := rfl }
  unfold expireLease Job.expireLease
  generalize hleft : stamped.lease = left, hright : job.lease = right at hlease
  cases hlease with
  | none => exact ⟨h, rfl⟩
  | @some left right hlease =>
    dsimp only
    rw [StampedLease.isExpired_shows hlease hnow, hlease.holder, h.id, h.runId,
      h.attemptsRemaining]
    obtain ⟨hrecord, hrecorded⟩ := hexpired.record hnow
      (.jobLeaseExpired job.id job.runId right.holder)
    cases right.isExpired i with
    | false => exact ⟨h, rfl⟩
    | true =>
      by_cases hremaining : 0 < job.maxAttempts - job.attempt
      · simp only [hrecord, Call.result_returned, Call.self_returned, Job.record,
          Job.attemptsRemaining, hremaining, if_true]
        exact ⟨{ hrecorded with status := rfl }, rfl⟩
      · simp only [hrecord, Call.result_returned, Call.self_returned, Job.record,
          Job.attemptsRemaining, hremaining, if_true, if_false]
        exact ⟨{ hrecorded with
          status := rfl
          failureKind := rfl
          failureReason := rfl
          completedAt := .some hnow }, rfl⟩

theorem cancel_shows (h : stamped.Shows job) (hnow : now.Shows i) :
    (stamped.cancel now).Shows (job.cancel i) := by
  unfold cancel Job.cancel
  rw [h.status]
  split
  · exact h
  · exact { h with
      status := rfl
      completedAt := .some hnow
      lease := .none
      assignedWorkerId := rfl
      failureKind := rfl }

end StampedJob

/-! ### Whole histories -/

/-- A call at a time in UTC, and the one at its instant; a lease does not leave the calendar. -/
inductive LifecycleCall.Shows : LifecycleCall → JobOp → Prop
  | enqueue {now : Stamp} {i : Instant} (hnow : now.Shows i) :
      Shows (.call (.enqueue now)) (.enqueue i)
  | leaseTo {now : Stamp} {i : Instant} (hnow : now.Shows i) (workerId : WorkerId)
      {duration : Duration} (hreaches : Stamp.InCalendar i duration) (token : Option LeaseToken)
      (fresh : LeaseToken) : Shows (.call (.leaseTo workerId now duration token fresh))
        (.leaseTo workerId i duration (token.getD fresh))
  | markRunning {now : Stamp} {i : Instant} (hnow : now.Shows i) (token : LeaseToken) :
      Shows (.call (.markRunning token now)) (.markRunning token i)
  | renewLease {now : Stamp} {i : Instant} (hnow : now.Shows i) {duration : Duration}
      (hreaches : Stamp.InCalendar i duration) (token : LeaseToken) :
      Shows (.call (.renewLease token now duration)) (.renewLease token i duration)
  | complete {now : Stamp} {i : Instant} (hnow : now.Shows i) (token : Option LeaseToken)
      (result : Option Mapping) :
      Shows (.call (.complete token now result)) (.complete token i result)
  | fail {now : Stamp} {i : Instant} (hnow : now.Shows i) (token : Option LeaseToken)
      (kind : FailureKind) (reason : String) (retryable : Option Bool) :
      Shows (.call (.fail token now kind reason retryable)) (.fail token i kind reason retryable)
  | expireLease {now : Stamp} {i : Instant} (hnow : now.Shows i) :
      Shows (.expireLease now) (.expireLease i)
  | requeue {now : Stamp} {i : Instant} (hnow : now.Shows i) (reason : String) :
      Shows (.call (.requeue now reason)) (.requeue i reason)
  | cancel {now : Stamp} {i : Instant} (hnow : now.Shows i) : Shows (.cancel now) (.cancel i)

namespace StampedJob

variable {stamped : StampedJob} {job : Job} {call : LifecycleCall} {op : JobOp}

/-- A call leaves a job that shows what the call at the instant leaves. -/
theorem step_shows (h : stamped.Shows job) (hcall : call.Shows op) :
    (stamped.step call).Shows (job.step op) := by
  cases hcall with
  | enqueue hnow => exact (enqueue_shows h hnow).self
  | leaseTo hnow workerId hreaches token fresh =>
    exact (leaseTo_shows h hnow hreaches workerId token fresh).self
  | markRunning hnow token => exact (markRunning_shows h hnow token).self
  | renewLease hnow hreaches token => exact (renewLease_shows h hnow hreaches token).self
  | complete hnow token result => exact (complete_shows h hnow token result).self
  | fail hnow token kind reason retryable =>
    exact (fail_shows h hnow token kind reason retryable).self
  | expireLease hnow => exact (expireLease_shows h hnow).self
  | requeue hnow reason => exact (requeue_shows h hnow reason).self
  | cancel hnow => exact cancel_shows h hnow

/-- A method raises what the method at the instant raises. -/
theorem perform_raises {stampedOp : StampedOp} (h : stamped.Shows job)
    (hcall : (LifecycleCall.call stampedOp).Shows op) :
    (stamped.perform stampedOp).result = (job.perform op).result := by
  cases hcall with
  | enqueue hnow => exact (enqueue_shows h hnow).result
  | leaseTo hnow workerId hreaches token fresh =>
    exact (leaseTo_shows h hnow hreaches workerId token fresh).result
  | markRunning hnow token => exact (markRunning_shows h hnow token).result
  | renewLease hnow hreaches token => exact (renewLease_shows h hnow hreaches token).result
  | complete hnow token result => exact (complete_shows h hnow token result).result
  | fail hnow token kind reason retryable =>
    exact (fail_shows h hnow token kind reason retryable).result
  | requeue hnow reason => exact (requeue_shows h hnow reason).result

/-- **Over times in UTC a job goes through what the job over instants goes through.** -/
theorem after_shows {calls : List LifecycleCall} {ops : List JobOp} (h : stamped.Shows job)
    (hcalls : List.Forall₂ LifecycleCall.Shows calls ops) :
    (Runs.after step stamped calls).Shows (Runs.after Job.step job ops) := by
  induction hcalls generalizing stamped job with
  | nil => exact h
  | cons hcall hrest ih => exact ih (step_shows h hcall)

/-- Both begin in the same way. -/
theorem created_shows (jobId : JobId) (runId : RunId) (projectId : ProjectId) (jobType : JobType)
    (now : Instant) (role : Option AgentRole) (candidateId : Option CandidateId)
    (priority : Priority) (maxAttempts : Nat)
    (hrole : jobType.requiresInference = true → role ≠ none) (hattempts : 1 ≤ maxAttempts) :
    (created ⟨jobId, runId, projectId, jobType, now, role, candidateId, priority, maxAttempts⟩ []
      none none).Shows
      (Job.create jobId runId projectId jobType now role candidateId priority maxAttempts hrole
        hattempts) :=
  ⟨rfl, rfl, rfl, rfl, rfl, rfl, .none, rfl, .none, .none, rfl, rfl, rfl, .nil⟩

end StampedJob

end AgenticPlatform
