import AgenticPlatform.Enums

/-!
# Plans and reviews

What the planner and the reviewer hand over. A plan is checked when it is built: its
tasks have distinct keys, depend on known tasks and can be layered. The keys that error
texts mention are slugs, so their `repr` needs no escapes.
-/

namespace AgenticPlatform

/-! ### Plans -/

structure TaskDraft where
  key : String
  title : String
  description : String
  dependsOn : List String
  targetPaths : List String
  validation : List String

structure PlanDraft where
  objective : String
  tasks : List TaskDraft
  assumptions : List String
  constraints : List String
  riskAreas : List String
  validationRequirements : List String

/-- One unit of the plan; the constructor's checks are the proof fields. -/
structure PlanTask where
  id : TaskId
  key : String
  title : String
  description : String
  targetPaths : List String
  dependsOn : List String
  validation : List String
  key_nonblank : isBlank key = false
  title_nonblank : isBlank title = false
  not_self_dependent : key ∉ dependsOn

namespace PlanTask

def build (id : TaskId) (draft : TaskDraft) : Except PyError PlanTask :=
  if hkey : isBlank draft.key = true then .error (.valueError "task key must not be blank")
  else if htitle : isBlank draft.title = true then
    .error (.valueError "task title must not be blank")
  else if hself : draft.key ∈ draft.dependsOn then
    .error (.planValidation ("a task cannot depend on itself (task=" ++ quoted draft.key ++ ")"))
  else .ok {
    id
    key := draft.key
    title := draft.title
    description := draft.description
    targetPaths := draft.targetPaths
    dependsOn := draft.dependsOn
    validation := draft.validation
    key_nonblank := by simpa using hkey
    title_nonblank := by simpa using htitle
    not_self_dependent := hself }

end PlanTask

/-- `repr` of a list of strings without quotes or escapes in them. -/
def quotedList (items : List String) : String :=
  "[" ++ String.intercalate ", " (items.map quoted) ++ "]"

/-- `sorted(texts)`: by code points. -/
def sortedTexts (texts : List String) : List String :=
  texts.mergeSort fun left right => decide (¬ right < left)

/-- `execution_layers`: tasks whose dependencies are satisfied form the next layer. Each
    round removes at least one task, so the number of tasks bounds the rounds. -/
def executionLayers : Nat → List PlanTask → List String → Except PyError (List (List PlanTask))
  | _, [], _ => .ok []
  | 0, _ :: _, _ => .ok []
  | rounds + 1, task :: rest, satisfied =>
      let remaining := task :: rest
      let isReady := fun task : PlanTask => task.dependsOn.all fun dep => decide (dep ∈ satisfied)
      let ready := remaining.filter isReady
      if ready.isEmpty then
        .error (.planValidation ("plan dependency graph contains a cycle (tasks=" ++
          quotedList (sortedTexts (remaining.map PlanTask.key)) ++ ")"))
      else
        (executionLayers rounds (remaining.filter fun task => !isReady task)
          (satisfied ++ ready.map PlanTask.key)).map (ready :: ·)

/-- `_validate_graph`. -/
def validateGraph (tasks : List PlanTask) : Except PyError Unit :=
  let keys := tasks.map PlanTask.key
  let duplicates := keys.eraseDups.filter fun key => decide (1 < keys.count key)
  if duplicates ≠ [] then
    .error (.planValidation ("duplicate task keys (keys=" ++
      quotedList (sortedTexts duplicates) ++ ")"))
  else
    match tasks.find? fun task => task.dependsOn.any fun dep => decide (dep ∉ keys) with
    | some task =>
        .error (.planValidation ("task depends on unknown tasks (missing=" ++
          quotedList (task.dependsOn.filter fun dep => decide (dep ∉ keys)) ++
          ", task=" ++ quoted task.key ++ ")"))
    | none => (executionLayers tasks.length tasks []).map fun _ => ()

/-- One plan revision for a run. -/
structure Plan where
  id : PlanId
  runId : RunId
  revision : Nat
  objective : String
  createdAt : Instant
  tasks : List PlanTask
  assumptions : List String
  constraints : List String
  riskAreas : List String
  validationRequirements : List String
  promptVersion : String
  metadata : List (String × String) := []
  revision_pos : 1 ≤ revision
  tasks_nonempty : tasks ≠ []
  graph_valid : validateGraph tasks = .ok ()

namespace Plan

def taskCount (plan : Plan) : Nat := plan.tasks.length

def create (planId : PlanId) (runId : RunId) (revision : Nat) (objective : String)
    (tasks : List PlanTask) (now : Instant) (draft : PlanDraft) (promptVersion : String) :
    Except PyError Plan :=
  if hrev : 1 ≤ revision then
    if htasks : tasks = [] then
      .error (.planValidation "a plan must contain at least one task")
    else
      match hgraph : validateGraph tasks with
      | .error e => .error e
      | .ok () => .ok {
          id := planId
          runId
          revision
          objective
          createdAt := now
          tasks
          assumptions := draft.assumptions
          constraints := draft.constraints
          riskAreas := draft.riskAreas
          validationRequirements := draft.validationRequirements
          promptVersion
          revision_pos := hrev
          tasks_nonempty := htasks
          graph_valid := hgraph }
  else .error (.valueError "plan revisions are 1-based")

end Plan

/-! ### Reviews -/

inductive Severity where
  | blocker | major | minor | info
deriving DecidableEq, Repr

def Severity.value : Severity → String
  | blocker => "BLOCKER"
  | major => "MAJOR"
  | minor => "MINOR"
  | info => "INFO"

structure FindingDraft where
  summary : String
  severity : Severity
  file : Option String
  line : Option Int
  repairInstruction : Option String

/-- Reviewer output; a FAIL carries at least one finding. -/
structure ReviewDraft where
  verdict : ReviewVerdict
  summary : String
  findings : List FindingDraft
  fail_has_findings : verdict = .fail → findings ≠ []

structure ReviewFinding where
  summary : String
  severity : Severity
  file : Option String
  line : Option Int
  repairInstruction : Option String
  summary_nonblank : isBlank summary = false

def ReviewFinding.build (draft : FindingDraft) : Except PyError ReviewFinding :=
  if h : isBlank draft.summary = true then .error (.valueError "a finding needs a summary")
  else .ok {
    summary := draft.summary
    severity := draft.severity
    file := draft.file
    line := draft.line
    repairInstruction := draft.repairInstruction
    summary_nonblank := by simpa using h }

structure Review where
  id : ReviewId
  runId : RunId
  candidateId : CandidateId
  verdict : ReviewVerdict
  iteration : Nat
  createdAt : Instant
  summary : String
  findings : List ReviewFinding
  promptVersion : String
  metadata : List (String × String) := []
  iteration_pos : 1 ≤ iteration
  fail_has_findings : verdict = .fail → findings ≠ []

/-- `Review(...)`: the constructor's checks. -/
def Review.build (id : ReviewId) (runId : RunId) (candidateId : CandidateId)
    (verdict : ReviewVerdict) (iteration : Nat) (now : Instant) (summary : String)
    (findings : List ReviewFinding) (promptVersion : String) : Except PyError Review :=
  if hiter : 1 ≤ iteration then
    if hfail : verdict = .fail → findings ≠ [] then .ok {
      id, runId, candidateId, verdict, iteration, createdAt := now, summary, findings
      promptVersion, iteration_pos := hiter, fail_has_findings := hfail }
    else .error (.valueError "a failing review must report at least one finding")
  else .error (.valueError "review iterations are 1-based")

end AgenticPlatform
