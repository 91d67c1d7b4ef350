import AgenticPlatform.Events
import AgenticPlatform.Validation

/-!
# The candidate entity

One best-of-N attempt: a patch, the deterministic evidence about it, and the
reviewer's verdict. `startRepair` discards the evidence of the previous round but
leaves the patch and the verdict where they are.
-/

namespace AgenticPlatform

structure Candidate where
  id : CandidateId
  runId : RunId
  index : Nat
  createdAt : Instant
  workspaceId : Option WorkspaceId
  status : CandidateStatus
  patch : Option Patch
  validation : ValidationReport
  summary : String
  uncertainties : List String
  coderIterations : Nat
  repairIterations : Nat
  workerId : Option WorkerId
  lastJobId : Option JobId
  reviewVerdict : Option ReviewVerdict
  startedAt : Option Instant
  completedAt : Option Instant
  failureKind : Option FailureKind
  failureReason : Option String
  events : List DomainEvent

namespace Candidate

def create (candidateId : CandidateId) (runId : RunId) (index : Nat) (now : Instant) :
    Candidate where
  id := candidateId
  runId := runId
  index := index
  createdAt := now
  workspaceId := none
  status := .created
  patch := none
  validation := {}
  summary := ""
  uncertainties := []
  coderIterations := 0
  repairIterations := 0
  workerId := none
  lastJobId := none
  reviewVerdict := none
  startedAt := none
  completedAt := none
  failureKind := none
  failureReason := none
  events := []

def record (candidate : Candidate) (now : Instant) (body : EventBody) : Candidate :=
  { candidate with events := candidate.events ++ [⟨now, body⟩] }

/-- `patch is not None and not patch.is_empty`. -/
def hasPatch (candidate : Candidate) : Bool :=
  match candidate.patch with
  | none => false
  | some patch => !patch.isEmpty

/-- A non-empty patch and no deterministic evidence against it. -/
def isViable (candidate : Candidate) : Bool := candidate.hasPatch && candidate.validation.isViable

/-! ### Lifecycle -/

def transitionError (candidate : Candidate) (requested : CandidateStatus) : PyError :=
  .invalidStateTransition "Candidate" candidate.status.value requested.value

/-- `attach_workspace`. -/
def attachWorkspace (candidate : Candidate) (workspaceId : WorkspaceId) :
    Call Candidate Unit :=
  match candidate.workspaceId with
  | none => .returned { candidate with workspaceId := some workspaceId } ()
  | some owned =>
      if owned = workspaceId then .returned candidate ()
      else .raised candidate (.domainError ("candidate already owns a workspace (candidate_id=" ++
        quoted candidate.id.str ++ ", workspace_id=" ++ quoted owned.str ++ ")"))

def startCoding (candidate : Candidate) (now : Instant) (jobId : Option JobId) :
    Call Candidate Unit :=
  if candidate.status.isTerminal then .raised candidate (candidate.transitionError .coding)
  else
    .returned ({ candidate with
      status := .coding
      coderIterations := candidate.coderIterations + 1
      startedAt := some (candidate.startedAt.getD now)
      lastJobId := jobId }.record now
        (.candidateStarted candidate.runId candidate.id candidate.index jobId)) ()

def recordWorker (candidate : Candidate) (workerId : WorkerId) : Candidate :=
  { candidate with workerId := some workerId }

def submitPatch (candidate : Candidate) (patch : Patch) (summary : String)
    (uncertainties : List String) : Call Candidate Unit :=
  if candidate.status = .coding then
    .returned { candidate with patch := some patch, summary, uncertainties } ()
  else .raised candidate (candidate.transitionError .validating)

def startValidation (candidate : Candidate) (now : Instant) : Call Candidate Unit :=
  if candidate.status = .coding ∨ candidate.status = .validating then
    .returned ({ candidate with status := .validating }.record now
      (.validationStarted candidate.runId candidate.id)) ()
  else .raised candidate (candidate.transitionError .validating)

/-- Accumulate the results of one deterministic stage. -/
def appendValidation (candidate : Candidate) (results : List ToolResult) :
    Call Candidate Unit :=
  if candidate.status = .validating then
    .returned { candidate with validation := candidate.validation.extendedWith results } ()
  else .raised candidate (candidate.transitionError .validating)

/-- Close validation on the accumulated evidence, or on a given report. -/
def recordValidation (candidate : Candidate) (now : Instant)
    (report : Option ValidationReport) (staticAnalysisIsBlocking : Bool) :
    Call Candidate Unit :=
  if candidate.status = .validating then
    let final := report.getD candidate.validation
    let validation := { final with staticAnalysisIsBlocking }
    .returned ({ candidate with validation, status := .validated }.record now
      (.validationCompleted candidate.runId candidate.id validation.isViable
        validation.summary)) ()
  else .raised candidate (candidate.transitionError .validated)

def recordReview (candidate : Candidate) (verdict : ReviewVerdict) : Candidate :=
  { candidate with reviewVerdict := some verdict }

/-- Send the candidate back to the coder with reviewer instructions. -/
def startRepair (candidate : Candidate) (now : Instant) : Call Candidate Unit :=
  if candidate.status.isTerminal then .raised candidate (candidate.transitionError .coding)
  else
    .returned ({ candidate with
      repairIterations := candidate.repairIterations + 1
      status := .coding
      coderIterations := candidate.coderIterations + 1
      validation :=
        { staticAnalysisIsBlocking := candidate.validation.staticAnalysisIsBlocking } }.record
      now (.candidateStarted candidate.runId candidate.id candidate.index none)) ()

/-- `_finish`. -/
def finish (candidate : Candidate) (status : CandidateStatus) (now : Instant) : Candidate :=
  { candidate with status, completedAt := some now }.record now
    (.candidateCompleted candidate.runId candidate.id status
      (match candidate.patch with
        | some patch => patch.files.length
        | none => 0))

def select (candidate : Candidate) (now : Instant) : Call Candidate Unit :=
  if candidate.status = .selected then .returned candidate ()
  else if candidate.status.isTerminal then
    .raised candidate (candidate.transitionError .selected)
  else .returned (candidate.finish .selected now) ()

/-- Discard a candidate that lost to a better one. -/
def reject (candidate : Candidate) (now : Instant) (reason : String) : Candidate :=
  if candidate.status.isTerminal then candidate
  else { candidate with failureReason := some reason }.finish .rejected now

def fail (candidate : Candidate) (now : Instant) (kind : FailureKind) (reason : String) :
    Candidate :=
  if candidate.status.isTerminal then candidate
  else
    { candidate with failureKind := some kind, failureReason := some reason }.finish .failed now

def cancel (candidate : Candidate) (now : Instant) : Candidate :=
  if candidate.status.isTerminal then candidate
  else { candidate with failureKind := some .cancelled }.finish .cancelled now

end Candidate

end AgenticPlatform
