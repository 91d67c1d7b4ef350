import AgenticPlatform.Enums

/-!
# Domain events

The facts aggregates buffer while they change. An event carries the time at which
it occurred; the random `event_id` of the envelope is not part of the model.
-/

namespace AgenticPlatform

inductive EventBody where
  | jobEnqueued (jobId : JobId) (runId : RunId) (jobType : JobType) (attempt : Nat)
  | jobLeased (jobId : JobId) (runId : RunId) (workerId : WorkerId) (attempt : Nat)
  | jobCompleted (jobId : JobId) (runId : RunId) (jobType : JobType) (durationMs : Int)
  | jobFailed (jobId : JobId) (runId : RunId) (failureKind : FailureKind) (reason : String)
      (attempt : Nat) (retryable : Bool)
  | jobLeaseExpired (jobId : JobId) (runId : RunId) (holder : WorkerId)
  | jobRequeued (jobId : JobId) (runId : RunId) (attempt : Nat) (reason : String)
  | runCreated (runId : RunId) (projectId : ProjectId) (objective : String)
      (candidateCount : Nat)
  | runStateChanged (runId : RunId) (previous current : RunStatus) (reason : Option String)
  | planRequested (runId : RunId) (revision : Nat)
  | planCompleted (runId : RunId) (planId : PlanId) (revision taskCount : Nat)
  | candidateStarted (runId : RunId) (candidateId : CandidateId) (index : Nat)
      (jobId : Option JobId)
  | candidateCompleted (runId : RunId) (candidateId : CandidateId)
      (status : CandidateStatus) (changedFiles : Nat)
  | validationStarted (runId : RunId) (candidateId : CandidateId)
  | validationCompleted (runId : RunId) (candidateId : CandidateId) (viable : Bool)
      (summary : String)
  | reviewRequested (runId : RunId) (candidateId : CandidateId) (iteration : Nat)
  | repairRequested (runId : RunId) (candidateId : CandidateId) (iteration : Nat)
      (reason : String)
  | candidateSelected (runId : RunId) (candidateId : CandidateId) (rationale : String)
  | runCompleted (runId : RunId) (candidateId : Option CandidateId)
  | runFailed (runId : RunId) (failureKind : FailureKind) (reason : String)
  | runCancelled (runId : RunId) (reason : Option String)
deriving DecidableEq, Repr

structure DomainEvent where
  occurredAt : Instant
  body : EventBody
deriving DecidableEq, Repr

end AgenticPlatform
