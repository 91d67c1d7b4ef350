import AgenticPlatform.Mappers

/-!
# Rows of plans, reviews and tool results

These are written once. Their parts are rows of their own that carry a position, and
loading sorts by it: the database may return them in any order.
-/

namespace AgenticPlatform

/-! ### Positions -/

/-- `sorted(rows, key=position)`. -/
def sortedByPosition {R : Type} (position : R → Nat) (rows : List R) : List R :=
  rows.mergeSort fun left right => decide (position left ≤ position right)

/-- Rows that were numbered one after the other are found in that order again. -/
theorem sortedByPosition_of_numbered {R : Type} {position : R → Nat} {rows shuffled : List R}
    (hnumbered : rows.Pairwise fun left right => position left < position right)
    (hperm : shuffled.Perm rows) : sortedByPosition position shuffled = rows := by
  have hsorted : (sortedByPosition position shuffled).Pairwise fun left right =>
      position left ≤ position right := by
    have h : (sortedByPosition position shuffled).Pairwise fun left right =>
        decide (position left ≤ position right) = true :=
      List.pairwise_mergeSort (fun a b c hab hbc => by simp only [decide_eq_true_eq] at *; omega)
        (fun a b => by simp only [Bool.or_eq_true, decide_eq_true_eq]; omega) shuffled
    exact h.imp fun hle => by simpa using hle
  apply List.Perm.eq_of_pairwise _ hsorted (hnumbered.imp Nat.le_of_lt)
    ((List.mergeSort_perm _ _).trans hperm)
  intro left right hleft hright hle hge
  have hmem : left ∈ rows := hperm.mem_iff.mp ((List.mergeSort_perm _ _).mem_iff.mp hleft)
  have hnodup : (rows.map position).Nodup :=
    List.pairwise_map.mpr (hnumbered.imp Nat.ne_of_lt)
  exact List.inj_on_of_nodup_map hnodup hmem hright (Nat.le_antisymm hle hge)

/-- `enumerate(items)`. -/
def enumerate {α : Type} (first : Nat) : List α → List (Nat × α)
  | [] => []
  | item :: rest => (first, item) :: enumerate (first + 1) rest

theorem enumerate_numbered {α : Type} (first : Nat) (items : List α) :
    ((enumerate first items).Pairwise fun left right => left.1 < right.1) ∧
      ∀ entry ∈ enumerate first items, first ≤ entry.1 := by
  induction items generalizing first with
  | nil => simp [enumerate]
  | cons item rest ih =>
    obtain ⟨hpairwise, hbound⟩ := ih (first + 1)
    constructor
    · exact List.pairwise_cons.mpr ⟨fun entry hentry => hbound entry hentry, hpairwise⟩
    · intro entry hentry
      rcases List.mem_cons.mp hentry with rfl | hlater
      · exact Nat.le_refl _
      · exact Nat.le_of_succ_le (hbound entry hlater)

@[simp] theorem enumerate_map_snd {α : Type} (first : Nat) (items : List α) :
    (enumerate first items).map Prod.snd = items := by
  induction items generalizing first with
  | nil => rfl
  | cons item rest ih => simp [enumerate, ih]

/-- Numbered rows load what they were written from, whatever order they come back in. -/
theorem load_numbered {α R : Type} {write : Nat × α → R} {load : R → Except PyError α}
    {position : R → Nat} {first : Nat} {items : List α} {shuffled : List R}
    (hposition : ∀ entry, position (write entry) = entry.1)
    (hload : ∀ entry, load (write entry) = .ok entry.2)
    (hperm : shuffled.Perm ((enumerate first items).map write)) :
    (sortedByPosition position shuffled).mapM load = .ok items := by
  have hnumbered : ((enumerate first items).map write).Pairwise fun left right =>
      position left < position right := by
    rw [List.pairwise_map]
    exact (enumerate_numbered first items).1.imp fun h => by rwa [hposition, hposition]
  rw [sortedByPosition_of_numbered hnumbered hperm]
  have hmap : ∀ entries : List (Nat × α), (entries.map write).mapM load = .ok (entries.map Prod.snd) := by
    intro entries
    induction entries with
    | nil => rfl
    | cons entry rest ih =>
      rw [List.map_cons, List.mapM_cons, hload, ih]
      rfl
  rw [hmap, enumerate_map_snd]

/-! ### Plans -/

structure PlanTaskModel where
  id : Nat
  planId : Nat
  position : Nat
  key : String
  title : String
  description : String
  targetPaths : List String
  dependsOn : List String
  validation : List String

structure PlanModel where
  id : Nat
  runId : Nat
  revision : Nat
  objective : String
  createdAt : Instant
  assumptions : List String
  constraints : List String
  riskAreas : List String
  validationRequirements : List String
  promptVersion : String
  metadata : List (String × String)
  tasks : List PlanTaskModel

def planTaskToModel (planId : PlanId) (entry : Nat × PlanTask) : PlanTaskModel where
  id := entry.2.id.value
  planId := planId.value
  position := entry.1
  key := entry.2.key
  title := entry.2.title
  description := entry.2.description
  targetPaths := entry.2.targetPaths
  dependsOn := entry.2.dependsOn
  validation := entry.2.validation

def planTaskToDomain (task : PlanTaskModel) : Except PyError PlanTask :=
  PlanTask.build ⟨task.id⟩ {
    key := task.key
    title := task.title
    description := task.description
    dependsOn := task.dependsOn
    targetPaths := task.targetPaths
    validation := task.validation }

def planToModel (plan : Plan) : PlanModel where
  id := plan.id.value
  runId := plan.runId.value
  revision := plan.revision
  objective := plan.objective
  createdAt := plan.createdAt
  assumptions := plan.assumptions
  constraints := plan.constraints
  riskAreas := plan.riskAreas
  validationRequirements := plan.validationRequirements
  promptVersion := plan.promptVersion
  metadata := plan.metadata
  tasks := (enumerate 0 plan.tasks).map (planTaskToModel plan.id)

/-- `plan_to_domain`, with the checks of the constructor of `Plan`. -/
def planToDomain (model : PlanModel) : Except PyError Plan := do
  let tasks ← (sortedByPosition PlanTaskModel.position model.tasks).mapM planTaskToDomain
  if hrevision : 1 ≤ model.revision then
    if htasks : tasks = [] then
      .error (.planValidation "a plan must contain at least one task")
    else
      match hgraph : validateGraph tasks with
      | .error e => .error e
      | .ok () => return {
          id := ⟨model.id⟩
          runId := ⟨model.runId⟩
          revision := model.revision
          objective := model.objective
          createdAt := model.createdAt
          tasks
          assumptions := model.assumptions
          constraints := model.constraints
          riskAreas := model.riskAreas
          validationRequirements := model.validationRequirements
          promptVersion := model.promptVersion
          metadata := model.metadata
          revision_pos := hrevision
          tasks_nonempty := htasks
          graph_valid := hgraph }
  else .error (.valueError "plan revisions are 1-based")

theorem planTaskToDomain_toModel (planId : PlanId) (entry : Nat × PlanTask) :
    planTaskToDomain (planTaskToModel planId entry) = .ok entry.2 := by
  have hkey := entry.2.key_nonblank
  have htitle := entry.2.title_nonblank
  have hself := entry.2.not_self_dependent
  simp [planTaskToDomain, planTaskToModel, PlanTask.build, hkey, htitle, hself]

/-- **The rows of a plan load the plan**, in whatever order those of its tasks come back. -/
theorem planToDomain_toModel (plan : Plan) {rows : List PlanTaskModel}
    (hrows : rows.Perm (planToModel plan).tasks) :
    planToDomain { planToModel plan with tasks := rows } = .ok plan := by
  have htasks : (sortedByPosition PlanTaskModel.position rows).mapM planTaskToDomain = .ok plan.tasks :=
    load_numbered (fun _ => rfl) (planTaskToDomain_toModel plan.id) hrows
  have hgraph := plan.graph_valid
  simp only [planToDomain, htasks, ok_bind, planToModel, plan.revision_pos, dif_pos,
    dif_neg plan.tasks_nonempty]
  split
  · rename_i e herror
    rw [hgraph] at herror
    cases herror
  · rfl

/-! ### Reviews -/

structure ReviewFindingModel where
  id : Nat
  reviewId : Nat
  position : Nat
  summary : String
  severity : String
  filePath : Option String
  line : Option Int
  repairInstruction : Option String

structure ReviewModel where
  id : Nat
  runId : Nat
  candidateId : Nat
  verdict : String
  iteration : Nat
  createdAt : Instant
  summary : String
  promptVersion : String
  metadata : List (String × String)
  findings : List ReviewFindingModel

/-- A finding has no identity of its own; its row is given one by `uuid4`. -/
def findingToModel (uuid4 : Nat → Nat) (reviewId : ReviewId) (entry : Nat × ReviewFinding) :
    ReviewFindingModel where
  id := uuid4 entry.1
  reviewId := reviewId.value
  position := entry.1
  summary := entry.2.summary
  severity := entry.2.severity.value
  filePath := entry.2.file
  line := entry.2.line
  repairInstruction := entry.2.repairInstruction

def findingToDomain (finding : ReviewFindingModel) : Except PyError ReviewFinding := do
  let severity ← StrEnum.parse Severity finding.severity
  ReviewFinding.build {
    summary := finding.summary
    severity
    file := finding.filePath
    line := finding.line
    repairInstruction := finding.repairInstruction }

def reviewToModel (uuid4 : Nat → Nat) (review : Review) : ReviewModel where
  id := review.id.value
  runId := review.runId.value
  candidateId := review.candidateId.value
  verdict := review.verdict.value
  iteration := review.iteration
  createdAt := review.createdAt
  summary := review.summary
  promptVersion := review.promptVersion
  metadata := review.metadata
  findings := (enumerate 0 review.findings).map (findingToModel uuid4 review.id)

def reviewToDomain (model : ReviewModel) : Except PyError Review := do
  let verdict ← StrEnum.parse ReviewVerdict model.verdict
  let findings ← (sortedByPosition ReviewFindingModel.position model.findings).mapM findingToDomain
  let review ← Review.build ⟨model.id⟩ ⟨model.runId⟩ ⟨model.candidateId⟩ verdict model.iteration
    model.createdAt model.summary findings model.promptVersion
  return { review with metadata := model.metadata }

theorem findingToDomain_toModel (uuid4 : Nat → Nat) (reviewId : ReviewId)
    (entry : Nat × ReviewFinding) :
    findingToDomain (findingToModel uuid4 reviewId entry) = .ok entry.2 := by
  have hseverity : StrEnum.parse Severity entry.2.severity.value = .ok entry.2.severity :=
    StrEnum.parse_value entry.2.severity
  have hsummary := entry.2.summary_nonblank
  simp [findingToDomain, findingToModel, hseverity, ReviewFinding.build, hsummary]

/-- **The rows of a review load the review**, in whatever order those of its findings come
    back. -/
theorem reviewToDomain_toModel (uuid4 : Nat → Nat) (review : Review) {rows : List ReviewFindingModel}
    (hrows : rows.Perm (reviewToModel uuid4 review).findings) :
    reviewToDomain { reviewToModel uuid4 review with findings := rows } = .ok review := by
  have hverdict : StrEnum.parse ReviewVerdict review.verdict.value = .ok review.verdict :=
    StrEnum.parse_value review.verdict
  have hfindings : (sortedByPosition ReviewFindingModel.position rows).mapM findingToDomain =
      .ok review.findings :=
    load_numbered (fun _ => rfl) (findingToDomain_toModel uuid4 review.id) hrows
  simp only [reviewToDomain, reviewToModel, hverdict, hfindings, ok_bind, Review.build,
    dif_pos review.iteration_pos, dif_pos review.fail_has_findings]
  rfl

/-! ### Tool results -/

structure ToolResultModel where
  id : Nat
  runId : Nat
  candidateId : Option Nat
  position : Nat
  tool : String
  kind : String
  command : String
  exitCode : Int
  stdout : String
  stderr : String
  durationMs : Int
  truncated : Bool
  artifacts : List String
  metadata : Mapping

def toolResultToModel (uuid4 : Nat → Nat) (runId : RunId) (candidateId : Option CandidateId)
    (entry : Nat × ToolResult) : ToolResultModel where
  id := uuid4 entry.1
  runId := runId.value
  candidateId := candidateId.map EntityId.value
  position := entry.1
  tool := entry.2.tool
  kind := entry.2.kind.value
  command := entry.2.command
  exitCode := entry.2.exitCode
  stdout := entry.2.stdout
  stderr := entry.2.stderr
  durationMs := entry.2.durationMs
  truncated := entry.2.truncated
  artifacts := entry.2.artifacts
  metadata := entry.2.metadata

def toolResultToDomain (model : ToolResultModel) : Except PyError ToolResult := do
  let kind ← StrEnum.parse ToolKind model.kind
  return {
    tool := model.tool
    kind
    command := model.command
    exitCode := model.exitCode
    stdout := model.stdout
    stderr := model.stderr
    durationMs := model.durationMs
    truncated := model.truncated
    artifacts := model.artifacts
    metadata := model.metadata }

/-- Rows for a batch of results, numbered from a first position. -/
def toolResultsToModels (uuid4 : Nat → Nat) (results : List ToolResult) (runId : RunId)
    (candidateId : Option CandidateId) (firstPosition : Nat) : List ToolResultModel :=
  (enumerate firstPosition results).map (toolResultToModel uuid4 runId candidateId)

theorem toolResultToDomain_toModel (uuid4 : Nat → Nat) (runId : RunId)
    (candidateId : Option CandidateId) (entry : Nat × ToolResult) :
    toolResultToDomain (toolResultToModel uuid4 runId candidateId entry) = .ok entry.2 := by
  have hkind : StrEnum.parse ToolKind entry.2.kind.value = .ok entry.2.kind :=
    StrEnum.parse_value entry.2.kind
  simp only [toolResultToDomain, toolResultToModel, hkind, ok_bind]
  rfl

/-- **The rows of a batch load the results**, in order. -/
theorem toolResultsToDomain_toModels (uuid4 : Nat → Nat) (results : List ToolResult) (runId : RunId)
    (candidateId : Option CandidateId) (firstPosition : Nat) {rows : List ToolResultModel}
    (hrows : rows.Perm (toolResultsToModels uuid4 results runId candidateId firstPosition)) :
    (sortedByPosition ToolResultModel.position rows).mapM toolResultToDomain = .ok results :=
  load_numbered (fun _ => rfl) (toolResultToDomain_toModel uuid4 runId candidateId) hrows

/-! ### All of them -/

end AgenticPlatform
