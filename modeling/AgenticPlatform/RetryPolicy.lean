import AgenticPlatform.Enums

/-!
# Retry decisions

What to do after an attempt failed, by failure kind. The policy has budgets of its
own, independent of the attempt budget a job carries.
-/

namespace AgenticPlatform

inductive RetryAction where
  | retrySameWorker | retryOtherWorker | repairPrompt | agenticRepair | fail
deriving DecidableEq, Repr

structure RetryDecision where
  action : RetryAction
  delay : Duration
  reason : String

def RetryDecision.shouldRetryJob (decision : RetryDecision) : Bool :=
  decision.action == .retrySameWorker || decision.action == .retryOtherWorker ||
    decision.action == .repairPrompt

/-- The defaults are those of `RetryPolicy()`, the policy the container wires. -/
structure RetryPolicy where
  maxAttempts : Nat := 3
  baseDelay : Duration := 1000000
  maxDelay : Duration := 30000000
  maxStructuredOutputRepairs : Nat := 2
  max_attempts_pos : 1 ≤ maxAttempts := by first | exact count_three | decide

namespace RetryPolicy

/-- Exponential backoff, capped; `attempt` is 1-based. -/
def backoff (policy : RetryPolicy) (attempt : Nat) : Duration :=
  min (policy.baseDelay * 2 ^ (attempt - 1)) policy.maxDelay

def decide (policy : RetryPolicy) (kind : FailureKind) (attempt : Nat) : RetryDecision :=
  if kind = .cancelled then ⟨.fail, 0, "run cancelled"⟩
  else if kind.isCodeDefect then
    ⟨.agenticRepair, 0, kind.value ++ " is repaired by the coder, not retried"⟩
  else if kind = .invalidStructuredOutput then
    if policy.maxStructuredOutputRepairs ≤ attempt then
      ⟨.fail, 0, "structured output still invalid after repairs"⟩
    else ⟨.repairPrompt, 0, "re-ask the model with the schema violation attached"⟩
  else if policy.maxAttempts ≤ attempt then ⟨.fail, 0, "retry budget exhausted"⟩
  else
    match kind with
    | .infrastructure =>
        ⟨.retryOtherWorker, policy.backoff attempt, "worker or transport failed"⟩
    | .inference =>
        ⟨.retryOtherWorker, policy.backoff attempt, "inference failed; another worker may succeed"⟩
    | .tool =>
        ⟨.retrySameWorker, policy.backoff attempt,
          "tool could not run; the workspace is unchanged"⟩
    | kind => ⟨.fail, 0, "unhandled failure kind " ++ kind.value⟩

end RetryPolicy

end AgenticPlatform
