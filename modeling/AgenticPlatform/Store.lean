import AgenticPlatform.CandidateSelection
import AgenticPlatform.Documents
import AgenticPlatform.JobQueue
import AgenticPlatform.Run
import AgenticPlatform.Table

/-!
# The durable store

The tables behind the repositories. A repository copies an aggregate's fields onto its
row and never its event buffer, so a row that is read back starts with an empty one;
the buffered events of the collected aggregates go to the event log in the same commit.
A transaction is a function from `Db` to `Db` that happens entirely or not at all.
-/

namespace AgenticPlatform

structure StoredToolResult where
  runId : RunId
  candidateId : CandidateId
  result : ToolResult

structure Db where
  projects : List Project
  runs : List Run
  jobs : List Job
  candidates : List Candidate
  plans : List Plan
  reviews : List Review
  toolResults : List StoredToolResult
  events : List DomainEvent

/-- The fields a row keeps. -/
def Run.stored (run : Run) : Run := { run with events := [] }

def Job.stored (job : Job) : Job := { job with events := [] }

def Candidate.stored (candidate : Candidate) : Candidate := { candidate with events := [] }

namespace Db

/-! ### Reads -/

def project? (db : Db) (id : ProjectId) : Option Project := Table.find Project.id db.projects id

def run? (db : Db) (id : RunId) : Option Run := Table.find Run.id db.runs id

def job? (db : Db) (id : JobId) : Option Job := Table.find Job.id db.jobs id

def candidate? (db : Db) (id : CandidateId) : Option Candidate :=
  Table.find Candidate.id db.candidates id

/-- `jobs.list_by_run`. No caller depends on the order of the rows. -/
def jobsOf (db : Db) (runId : RunId) : List Job :=
  db.jobs.filter fun job => decide (job.runId = runId)

/-- `candidates.list_by_run`, ordered by index. -/
def candidatesOf (db : Db) (runId : RunId) : List Candidate :=
  (db.candidates.filter fun candidate => decide (candidate.runId = runId)).insertionSort
    fun left right => left.index ≤ right.index

/-- `reviews.list_by_candidate`. Only the number of reviews is used. -/
def reviewsOf (db : Db) (candidateId : CandidateId) : List Review :=
  db.reviews.filter fun review => decide (review.candidateId = candidateId)

/-- `runs.list_active`, ordered by creation. -/
def activeRuns (db : Db) : List Run :=
  (db.runs.filter fun run => !run.isTerminal).insertionSort
    fun left right => left.createdAt ≤ right.createdAt

def requireRun (db : Db) (id : RunId) : Except PyError Run :=
  match db.run? id with
  | none => .error (.entityNotFound "Run" id.str)
  | some run => .ok run

def requireProject (db : Db) (run : Run) : Except PyError Project :=
  match db.project? run.projectId with
  | none => .error (.entityNotFound "Project" run.projectId.str)
  | some project => .ok project

def requireCandidate (db : Db) (id : CandidateId) : Except PyError Candidate :=
  match db.candidate? id with
  | none => .error (.entityNotFound "Candidate" id.str)
  | some candidate => .ok candidate

/-! ### Writes

`setRun` and `setCandidate` write rows that were read in the same transaction;
`updateJob` writes a job that may have been read long before, and raises when its row
is gone. -/

def setRun (db : Db) (run : Run) : Db := { db with runs := Table.put Run.id db.runs run.stored }

def setJob (db : Db) (job : Job) : Db := { db with jobs := Table.put Job.id db.jobs job.stored }

def setCandidate (db : Db) (candidate : Candidate) : Db :=
  { db with candidates := Table.put Candidate.id db.candidates candidate.stored }

def updateJob (db : Db) (job : Job) : Except PyError Db :=
  match db.job? job.id with
  | none => .error (.entityNotFound "Job" job.id.str)
  | some _ => .ok (db.setJob job)

/-- The events drained by a commit. -/
def append (db : Db) (events : List DomainEvent) : Db := { db with events := db.events ++ events }

/-! ### Reads after writes -/

variable {db db' : Db}

theorem mem_candidatesOf {runId : RunId} {candidate : Candidate} :
    candidate ∈ db.candidatesOf runId ↔ candidate ∈ db.candidates ∧ candidate.runId = runId := by
  unfold candidatesOf
  rw [(List.perm_insertionSort _ _).mem_iff]
  simp

theorem mem_jobsOf {runId : RunId} {job : Job} :
    job ∈ db.jobsOf runId ↔ job ∈ db.jobs ∧ job.runId = runId := by
  simp [jobsOf]

@[simp] theorem run?_append (events : List DomainEvent) (id : RunId) :
    (db.append events).run? id = db.run? id := rfl

@[simp] theorem job?_append (events : List DomainEvent) (id : JobId) :
    (db.append events).job? id = db.job? id := rfl

@[simp] theorem run?_setJob (job : Job) (id : RunId) : (db.setJob job).run? id = db.run? id := rfl

@[simp] theorem job?_setRun (run : Run) (id : JobId) : (db.setRun run).job? id = db.job? id := rfl

@[simp] theorem job?_setCandidate (candidate : Candidate) (id : JobId) :
    (db.setCandidate candidate).job? id = db.job? id := rfl

@[simp] theorem run?_setCandidate (candidate : Candidate) (id : RunId) :
    (db.setCandidate candidate).run? id = db.run? id := rfl

theorem job?_setJob {job old : Job} (h : db.job? job.id = some old) (id : JobId) :
    (db.setJob job).job? id = if id = job.id then some job.stored else db.job? id := by
  have hfind : Table.find Job.id db.jobs job.stored.id = some old := h
  exact Table.find_put hfind id

theorem run?_setRun {run old : Run} (h : db.run? run.id = some old) (id : RunId) :
    (db.setRun run).run? id = if id = run.id then some run.stored else db.run? id := by
  have hfind : Table.find Run.id db.runs run.stored.id = some old := h
  exact Table.find_put hfind id

theorem updateJob_eq_ok {job : Job} (h : db.updateJob job = .ok db') :
    (∃ old, db.job? job.id = some old) ∧ db' = db.setJob job := by
  unfold updateJob at h
  split at h
  · cases h
  · rename_i old hold
    cases h
    exact ⟨⟨old, hold⟩, rfl⟩

theorem updateJob_of_some {job old : Job} (h : db.job? job.id = some old) :
    db.updateJob job = .ok (db.setJob job) := by
  simp [updateJob, h]

end Db

/-- The parts of the platform that change: the tables, the queue, and how many
    identifiers were drawn. -/
structure World where
  db : Db
  queue : JobQueue
  issued : Nat

end AgenticPlatform
