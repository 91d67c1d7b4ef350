import AgenticPlatform.AdvanceEffects
import AgenticPlatform.ExecuteOutcomes

/-!
# One run as a workflow

What the tables say about one run, without the queue and the holders: the run, its
candidates, and a ticket for each job. Next to it stands a log of the facts that stages
committed, from which one can tell what is known about a candidate's current patch. A
step is a decision of `_advance`, the commit of one stage, or the end of a job that is
given up.
-/

namespace AgenticPlatform.Workflow

/-- A job as the workflow sees it. -/
structure Ticket where
  id : JobId
  type : JobType
  candidateId : Option CandidateId
  isOpen : Bool

/-- The ticket of a stored job. -/
def Ticket.of (job : Job) : Ticket := ⟨job.id, job.type, job.candidateId, !job.status.isTerminal⟩

/-- The ticket of a job that was just created. -/
def Ticket.opened (job : Job) : Ticket := ⟨job.id, job.type, job.candidateId, true⟩

def Ticket.closed (ticket : Ticket) : Ticket := { ticket with isOpen := false }

/-! ### Facts -/

/-- What the commit of a stage adds to the evidence. -/
inductive Fact where
  | submitted (candidateId : CandidateId) (patch : Patch)
  | validated (candidateId : CandidateId) (results : List ToolResult)
  | reviewed (candidateId : CandidateId) (verdict : ReviewVerdict)

def Fact.candidateId : Fact → CandidateId
  | submitted id _ => id
  | validated id _ => id
  | reviewed id _ => id

/-- What became known about a candidate since its last patch. The log is latest first. -/
def since (id : CandidateId) : List Fact → List Fact
  | [] => []
  | .submitted other _ :: rest => if other = id then [] else since id rest
  | fact :: rest => if fact.candidateId = id then fact :: since id rest else since id rest

/-- The last patch submitted for a candidate. -/
def patchOf (id : CandidateId) : List Fact → Option Patch
  | [] => none
  | .submitted other patch :: rest => if other = id then some patch else patchOf id rest
  | _ :: rest => patchOf id rest

/-- A tool result recorded for the current patch. -/
def Recorded (facts : List Fact) (id : CandidateId) (result : ToolResult) : Prop :=
  ∃ results, .validated id results ∈ since id facts ∧ result ∈ results

/-- A reviewer passed the current patch. -/
def Passed (facts : List Fact) (id : CandidateId) : Prop := .reviewed id .pass ∈ since id facts

section Facts

variable {facts : List Fact} {fact : Fact} {id : CandidateId} {patch : Patch}
  {results : List ToolResult} {verdict : ReviewVerdict} {result : ToolResult}

/-- A fact about one candidate says nothing about another. -/
theorem since_other (h : fact.candidateId ≠ id) : since id (fact :: facts) = since id facts := by
  cases fact <;> exact if_neg h

theorem patchOf_other (h : fact.candidateId ≠ id) :
    patchOf id (fact :: facts) = patchOf id facts := by
  cases fact with
  | submitted other patch => exact if_neg h
  | validated other results => rfl
  | reviewed other verdict => rfl

@[simp] theorem since_submitted : since id (.submitted id patch :: facts) = [] := if_pos rfl

@[simp] theorem since_validated :
    since id (.validated id results :: facts) = .validated id results :: since id facts :=
  if_pos rfl

@[simp] theorem since_reviewed :
    since id (.reviewed id verdict :: facts) = .reviewed id verdict :: since id facts :=
  if_pos rfl

@[simp] theorem patchOf_submitted : patchOf id (.submitted id patch :: facts) = some patch :=
  if_pos rfl

@[simp] theorem patchOf_validated : patchOf id (.validated id results :: facts) = patchOf id facts :=
  rfl

@[simp] theorem patchOf_reviewed : patchOf id (.reviewed id verdict :: facts) = patchOf id facts :=
  rfl

theorem recorded_validated :
    Recorded (.validated id results :: facts) id result ↔
      Recorded facts id result ∨ result ∈ results := by
  unfold Recorded
  rw [since_validated]
  constructor
  · rintro ⟨found, hfound, hresult⟩
    rcases List.mem_cons.mp hfound with heq | hold
    · cases heq
      exact .inr hresult
    · exact .inl ⟨found, hold, hresult⟩
  · rintro (⟨found, hfound, hresult⟩ | hresult)
    · exact ⟨found, List.mem_cons_of_mem _ hfound, hresult⟩
    · exact ⟨results, List.mem_cons_self, hresult⟩

theorem recorded_reviewed :
    Recorded (.reviewed id verdict :: facts) id result ↔ Recorded facts id result := by
  simp [Recorded]

theorem recorded_submitted : ¬ Recorded (.submitted id patch :: facts) id result := by
  simp [Recorded]

theorem recorded_other (h : fact.candidateId ≠ id) :
    Recorded (fact :: facts) id result ↔ Recorded facts id result := by
  simp only [Recorded, since_other h]

theorem passed_other (h : fact.candidateId ≠ id) :
    Passed (fact :: facts) id ↔ Passed facts id := by
  simp only [Passed, since_other h]

end Facts

/-! ### The workflow -/

structure State where
  run : Run
  candidates : List Candidate
  tickets : List Ticket
  facts : List Fact

namespace State

variable (s : State)

/-- The tickets once a job is over. -/
def close (id : JobId) : List Ticket := s.tickets.map fun t => if t.id = id then t.closed else t

def replace (changed : Candidate) : List Candidate :=
  Table.put Candidate.id s.candidates changed.stored

/-- What a decision makes of the tables. -/
def decided (p : Progress) : State where
  run := p.run.stored
  candidates := Table.putAll Candidate.id s.candidates (p.candidates.map Candidate.stored) ++
    p.opened.map Candidate.stored
  tickets := s.tickets ++ p.followUps.map Ticket.opened
  facts := s.facts

end State

/-- The run was paid for or left alone. -/
structure SameStage (before after : Run) : Prop where
  status : after.status = before.status
  charter : after.charter = before.charter
  repairIterations : after.repairIterations = before.repairIterations
  selected : after.selectedCandidateId = before.selectedCandidateId

/-- The candidate once a patch was submitted for it. -/
structure Submits (candidate changed : Candidate) (patch : Patch) : Prop where
  id : changed.id = candidate.id
  status : changed.status = .validating
  patch : changed.patch = some patch
  validation : changed.validation = candidate.validation
  reviewVerdict : changed.reviewVerdict = candidate.reviewVerdict
  workspaceId : changed.workspaceId = candidate.workspaceId

/-- One result of the stage's kind, or none when the project has no command for it. -/
def StageRan (project : Project) (stage : ValidationStage) (results : List ToolResult) : Prop :=
  if stageIsConfigured project stage then ∃ result, results = [result] ∧ result.kind = stage.kind
  else results = []

/-- One step of the workflow. -/
inductive Step (o : Orchestrator) (project : Project) : State → State → Prop where
  | decided {s : State} {ws : Workspaces} {now : Instant} {issued : Nat}
      {candidates : List Candidate} {p : Progress} :
      s.run.isTerminal = false → (∀ t ∈ s.tickets, t.isOpen = false) →
      candidates.Perm s.candidates →
      o.nextStep ws now issued s.run project candidates = .ok p →
      ((s.decided p).tickets.map Ticket.id).Nodup →
      ((s.decided p).candidates.map Candidate.id).Nodup → Step o project s (s.decided p)
  | planned {s : State} {t : Ticket} {run : Run} :
      t ∈ s.tickets → t.isOpen = true → t.type = .plan →
      RunStateMachine.can s.run.status .planReady = true → run.status = .planReady →
      run.charter = s.run.charter → run.repairIterations = s.run.repairIterations →
      Step o project s { s with run, tickets := s.close t.id }
  | coded {s : State} {t : Ticket} {run : Run} {candidate changed : Candidate} {patch : Patch} :
      t ∈ s.tickets → t.isOpen = true → t.type = .code → t.candidateId = some candidate.id →
      candidate ∈ s.candidates → Submits candidate changed patch → SameStage s.run run →
      Step o project s {
        run
        candidates := s.replace changed
        tickets := s.close t.id
        facts := .submitted candidate.id patch :: s.facts }
  | validated {s : State} {t : Ticket} {stage : ValidationStage} {candidate : Candidate}
      {results : List ToolResult} :
      t ∈ s.tickets → t.isOpen = true → t.type = stage.jobType →
      t.candidateId = some candidate.id → candidate ∈ s.candidates →
      StageRan project stage results →
      Step o project s { s with
        candidates := s.replace
          { candidate with validation := candidate.validation.extendedWith results }
        tickets := s.close t.id
        facts := .validated candidate.id results :: s.facts }
  | reviewed {s : State} {t : Ticket} {run : Run} {candidate : Candidate}
      {verdict : ReviewVerdict} :
      t ∈ s.tickets → t.isOpen = true → t.type = .review → t.candidateId = some candidate.id →
      candidate ∈ s.candidates → SameStage s.run run →
      Step o project s {
        run
        candidates := s.replace (candidate.recordReview verdict)
        tickets := s.close t.id
        facts := .reviewed candidate.id verdict :: s.facts }
  | died {s : State} {id : JobId} {run : Run} :
      s.run.isTerminal = false → run.status = .failed → run.charter = s.run.charter →
      Step o project s { s with run, tickets := s.close id }
  | dropped {s : State} {id : JobId} :
      s.run.isTerminal = true → Step o project s { s with tickets := s.close id }

end AgenticPlatform.Workflow
