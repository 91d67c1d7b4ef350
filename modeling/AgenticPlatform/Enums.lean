import AgenticPlatform.Basics

/-!
# Domain enumerations

The states of runs, jobs and candidates, the kinds of job and of failure, with the
classification predicates the rest of the platform branches on. `value` is the
string that persistence and error messages use.
-/

namespace AgenticPlatform

/-! ### Runs -/

inductive RunStatus where
  | created | planning | planReady | coding | validating | reviewing | repairing
  | completed | failed | cancelling | cancelled
deriving DecidableEq, Repr

namespace RunStatus

def value : RunStatus → String
  | created => "CREATED"
  | planning => "PLANNING"
  | planReady => "PLAN_READY"
  | coding => "CODING"
  | validating => "VALIDATING"
  | reviewing => "REVIEWING"
  | repairing => "REPAIRING"
  | completed => "COMPLETED"
  | failed => "FAILED"
  | cancelling => "CANCELLING"
  | cancelled => "CANCELLED"

def isTerminal : RunStatus → Bool
  | completed | failed | cancelled => true
  | _ => false

def isCancellingOrCancelled : RunStatus → Bool
  | cancelling | cancelled => true
  | _ => false

end RunStatus

/-! ### Jobs -/

inductive JobStatus where
  | pending | queued | leased | running | succeeded | failed | dead | cancelled
deriving DecidableEq, Repr

namespace JobStatus

def value : JobStatus → String
  | pending => "PENDING"
  | queued => "QUEUED"
  | leased => "LEASED"
  | running => "RUNNING"
  | succeeded => "SUCCEEDED"
  | failed => "FAILED"
  | dead => "DEAD"
  | cancelled => "CANCELLED"

def isTerminal : JobStatus → Bool
  | succeeded | dead | cancelled => true
  | _ => false

def isInFlight : JobStatus → Bool
  | leased | running => true
  | _ => false

end JobStatus

inductive JobType where
  | plan | code | review | llmInference | build | test | staticAnalysis | patchApply
deriving DecidableEq, Repr

namespace JobType

def value : JobType → String
  | plan => "PLAN"
  | code => "CODE"
  | review => "REVIEW"
  | llmInference => "LLM_INFERENCE"
  | build => "BUILD"
  | test => "TEST"
  | staticAnalysis => "STATIC_ANALYSIS"
  | patchApply => "PATCH_APPLY"

def requiresInference : JobType → Bool
  | plan | code | review | llmInference => true
  | _ => false

/-- `tuple(JobType)`, in declaration order. -/
def all : List JobType :=
  [plan, code, review, llmInference, build, test, staticAnalysis, patchApply]

end JobType

inductive AgentRole where
  | planner | coder | reviewer
deriving DecidableEq, Repr

namespace AgentRole

def value : AgentRole → String
  | planner => "PLANNER"
  | coder => "CODER"
  | reviewer => "REVIEWER"

/-- `tuple(AgentRole)`, in declaration order. -/
def all : List AgentRole := [planner, coder, reviewer]

end AgentRole

inductive Priority where
  | low | normal | high | critical
deriving DecidableEq, Repr

def Priority.value : Priority → String
  | low => "LOW"
  | normal => "NORMAL"
  | high => "HIGH"
  | critical => "CRITICAL"

def Priority.rank : Priority → Int
  | low => 0
  | normal => 10
  | high => 20
  | critical => 30

/-! ### Candidates and reviews -/

inductive CandidateStatus where
  | created | coding | validating | validated | rejected | selected | failed | cancelled
deriving DecidableEq, Repr

namespace CandidateStatus

def value : CandidateStatus → String
  | created => "CREATED"
  | coding => "CODING"
  | validating => "VALIDATING"
  | validated => "VALIDATED"
  | rejected => "REJECTED"
  | selected => "SELECTED"
  | failed => "FAILED"
  | cancelled => "CANCELLED"

def isTerminal : CandidateStatus → Bool
  | rejected | selected | failed | cancelled => true
  | _ => false

end CandidateStatus

inductive ReviewVerdict where
  | pass | fail
deriving DecidableEq, Repr

def ReviewVerdict.value : ReviewVerdict → String
  | pass => "PASS"
  | fail => "FAIL"

/-! ### Failures -/

inductive FailureKind where
  | infrastructure | inference | invalidStructuredOutput | tool | compilation | test
  | review | cancelled
deriving DecidableEq, Repr

namespace FailureKind

def value : FailureKind → String
  | infrastructure => "INFRASTRUCTURE"
  | inference => "INFERENCE"
  | invalidStructuredOutput => "INVALID_STRUCTURED_OUTPUT"
  | tool => "TOOL"
  | compilation => "COMPILATION"
  | test => "TEST"
  | review => "REVIEW"
  | cancelled => "CANCELLED"

def isInfrastructure : FailureKind → Bool
  | infrastructure | inference | tool => true
  | _ => false

def isCodeDefect : FailureKind → Bool
  | compilation | test | review => true
  | _ => false

end FailureKind

/-! ### Tools -/

inductive ToolKind where
  | search | read | edit | patch | command | build | test | staticAnalysis | vcs
deriving DecidableEq, Repr

def ToolKind.value : ToolKind → String
  | search => "SEARCH"
  | read => "READ"
  | edit => "EDIT"
  | patch => "PATCH"
  | command => "COMMAND"
  | build => "BUILD"
  | test => "TEST"
  | staticAnalysis => "STATIC_ANALYSIS"
  | vcs => "VCS"

end AgenticPlatform
