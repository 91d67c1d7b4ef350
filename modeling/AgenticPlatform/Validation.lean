import AgenticPlatform.Enums

/-!
# Projects, patches, tool results and validation reports

The evidence about a candidate. A report is assembled from tool results only, and
distinguishes a stage that passed, one that failed and one that never ran.
-/

namespace AgenticPlatform

/-! ### Projects -/

structure ToolchainConfig where
  language : String := "python"
  buildCommand : Option String := none
  testCommand : Option String := none
  staticAnalysisCommand : Option String := none
  installCommand : Option String := none
  workingSubdirectory : Option String := none
  environment : List (String × String) := []

structure Project where
  id : ProjectId
  name : String
  repositoryUrl : Option String
  defaultBranch : String
  createdAt : Instant
  toolchain : ToolchainConfig
  localPath : Option String

/-- `bool(command)` for an optional command line. -/
def commandGiven (command : Option String) : Bool :=
  match command with
  | none => false
  | some text => text != ""

/-! ### Patches -/

structure FileChange where
  path : String
  addedLines : Nat
  removedLines : Nat
deriving DecidableEq, Repr

def FileChange.churn (change : FileChange) : Nat := change.addedLines + change.removedLines

structure Patch where
  diff : String
  baseRevision : Option String
  files : List FileChange
deriving DecidableEq, Repr

namespace Patch

def isEmpty (patch : Patch) : Bool := isBlank patch.diff

def totalChurn (patch : Patch) : Nat := (patch.files.map FileChange.churn).sum

end Patch

/-! ### Tool results -/

structure ToolResult where
  tool : String
  kind : ToolKind
  command : String
  exitCode : Int
  stdout : String
  stderr : String
  durationMs : Int
  truncated : Bool
  artifacts : List String
  metadata : Mapping := []

def ToolResult.succeeded (result : ToolResult) : Bool := result.exitCode == 0

/-! ### The report -/

structure ValidationReport where
  results : List ToolResult := []
  staticAnalysisIsBlocking : Bool := false

namespace ValidationReport

def ofKind (report : ValidationReport) (kind : ToolKind) : List ToolResult :=
  report.results.filter fun result => result.kind == kind

/-- `none` when the stage did not run: unknown is not the same as failed. -/
def allPassed (results : List ToolResult) : Option Bool :=
  if results.isEmpty then none else some (results.all ToolResult.succeeded)

def buildPassed (report : ValidationReport) : Option Bool := allPassed (report.ofKind .build)

def testsPassed (report : ValidationReport) : Option Bool := allPassed (report.ofKind .test)

def staticAnalysisPassed (report : ValidationReport) : Option Bool :=
  allPassed (report.ofKind .staticAnalysis)

/-- Nothing that ran proves the candidate broken. -/
def isViable (report : ValidationReport) : Bool :=
  if report.buildPassed = some false ∨ report.testsPassed = some false then false
  else !(report.staticAnalysisIsBlocking && decide (report.staticAnalysisPassed = some false))

def extendedWith (report : ValidationReport) (results : List ToolResult) : ValidationReport :=
  { report with results := report.results ++ results }

def render (label : String) (value : Option Bool) : String :=
  label ++ "=" ++ (match value with
    | none => "skipped"
    | some true => "pass"
    | some false => "fail")

def summary (report : ValidationReport) : String :=
  render "build" report.buildPassed ++ " " ++ render "tests" report.testsPassed ++ " " ++
    render "static_analysis" report.staticAnalysisPassed

/-! ### What a report knows about one kind of stage -/

/-- The verdict of a report on one kind of stage. -/
def passed (report : ValidationReport) (kind : ToolKind) : Option Bool :=
  allPassed (report.ofKind kind)

theorem allPassed_eq_none {results : List ToolResult} :
    allPassed results = none ↔ results = [] := by
  unfold allPassed
  cases results <;> simp

theorem passed_eq_none {report : ValidationReport} {kind : ToolKind} :
    report.passed kind = none ↔ ∀ result ∈ report.results, result.kind ≠ kind := by
  simp [passed, allPassed_eq_none, ofKind, List.filter_eq_nil_iff]

theorem passed_ne_none {report : ValidationReport} {kind : ToolKind} :
    report.passed kind ≠ none ↔ ∃ result ∈ report.results, result.kind = kind := by
  rw [ne_eq, passed_eq_none]
  simp

/-- A stage that did not fail has no failed result. -/
theorem passed_ne_false {report : ValidationReport} {kind : ToolKind}
    (h : report.passed kind ≠ some false) :
    ∀ result ∈ report.results, result.kind = kind → result.succeeded = true := by
  intro result hmem hkind
  have hof : result ∈ report.ofKind kind := List.mem_filter.mpr ⟨hmem, by simp [hkind]⟩
  have hsome : (report.ofKind kind).isEmpty = false := by
    cases hall : report.ofKind kind with
    | nil => rw [hall] at hof; cases hof
    | cons first rest => rfl
  unfold passed allPassed at h
  rw [hsome] at h
  have hall : (report.ofKind kind).all ToolResult.succeeded = true := by simpa using h
  exact List.all_eq_true.mp hall result hof

/-- Nothing in a viable report speaks against the candidate. -/
theorem succeeded_of_isViable {report : ValidationReport} (h : report.isViable = true)
    {result : ToolResult} (hmem : result ∈ report.results)
    (hkind : result.kind = .build ∨ result.kind = .test ∨
      (result.kind = .staticAnalysis ∧ report.staticAnalysisIsBlocking = true)) :
    result.succeeded = true := by
  unfold isViable at h
  split at h
  · cases h
  · rename_i hran
    rw [not_or] at hran
    rcases hkind with hkind | hkind | ⟨hkind, hblocking⟩
    · exact passed_ne_false hran.1 result hmem hkind
    · exact passed_ne_false hran.2 result hmem hkind
    · refine passed_ne_false (fun hfalse => ?_) result hmem hkind
      have hfalse : report.staticAnalysisPassed = some false := hfalse
      simp [hblocking, hfalse] at h

end ValidationReport

end AgenticPlatform
