import AgenticPlatform.Documents
import AgenticPlatform.Worker

/-!
# Enumerations as text

A `StrEnum` is stored by its value and read back by looking the value up among the
members.
-/

namespace AgenticPlatform

/-- A class of named values; `@unique` makes each value name one member. -/
class StrEnum (α : Type) where
  className : String
  members : List α
  value : α → String
  unique : ∀ m, members.find? (fun member => value member == value m) = some m
  value_nonempty : ∀ m, value m ≠ ""

namespace StrEnum

variable {α : Type} [StrEnum α]

/-- `AnEnum(text)`. -/
def parse (α : Type) [StrEnum α] (text : String) : Except PyError α :=
  match members.find? fun member : α => value member == text with
  | some member => .ok member
  | none => .error (.valueError (quoted text ++ " is not a valid " ++ className α))

@[simp] theorem parse_value (m : α) : parse α (value m) = .ok m := by
  unfold parse
  rw [unique m]

/-- `AnEnum(text) if text else None`. -/
def parseOptional (α : Type) [StrEnum α] (text : Option String) : Except PyError (Option α) :=
  match text with
  | none => .ok none
  | some text => if text = "" then .ok none else (parse α text).map some

@[simp] theorem parseOptional_value (m : Option α) : parseOptional α (m.map value) = .ok m := by
  cases m with
  | none => rfl
  | some m => simp [parseOptional, value_nonempty m, Except.map]

end StrEnum

instance : StrEnum RunStatus where
  className := "RunStatus"
  members := [.created, .planning, .planReady, .coding, .validating, .reviewing, .repairing,
    .completed, .failed, .cancelling, .cancelled]
  value := RunStatus.value
  unique := by intro m; cases m <;> rfl
  value_nonempty := by intro m; cases m <;> decide

instance : StrEnum JobStatus where
  className := "JobStatus"
  members := [.pending, .queued, .leased, .running, .succeeded, .failed, .dead, .cancelled]
  value := JobStatus.value
  unique := by intro m; cases m <;> rfl
  value_nonempty := by intro m; cases m <;> decide

instance : StrEnum JobType where
  className := "JobType"
  members := JobType.all
  value := JobType.value
  unique := by intro m; cases m <;> rfl
  value_nonempty := by intro m; cases m <;> decide

instance : StrEnum AgentRole where
  className := "AgentRole"
  members := AgentRole.all
  value := AgentRole.value
  unique := by intro m; cases m <;> rfl
  value_nonempty := by intro m; cases m <;> decide

instance : StrEnum Priority where
  className := "Priority"
  members := [.low, .normal, .high, .critical]
  value := Priority.value
  unique := by intro m; cases m <;> rfl
  value_nonempty := by intro m; cases m <;> decide

instance : StrEnum CandidateStatus where
  className := "CandidateStatus"
  members := [.created, .coding, .validating, .validated, .rejected, .selected, .failed, .cancelled]
  value := CandidateStatus.value
  unique := by intro m; cases m <;> rfl
  value_nonempty := by intro m; cases m <;> decide

instance : StrEnum ReviewVerdict where
  className := "ReviewVerdict"
  members := [.pass, .fail]
  value := ReviewVerdict.value
  unique := by intro m; cases m <;> rfl
  value_nonempty := by intro m; cases m <;> decide

instance : StrEnum FailureKind where
  className := "FailureKind"
  members := [.infrastructure, .inference, .invalidStructuredOutput, .tool, .compilation, .test,
    .review, .cancelled]
  value := FailureKind.value
  unique := by intro m; cases m <;> rfl
  value_nonempty := by intro m; cases m <;> decide

instance : StrEnum ToolKind where
  className := "ToolKind"
  members := [.search, .read, .edit, .patch, .command, .build, .test, .staticAnalysis, .vcs]
  value := ToolKind.value
  unique := by intro m; cases m <;> rfl
  value_nonempty := by intro m; cases m <;> decide

instance : StrEnum Severity where
  className := "Severity"
  members := [.blocker, .major, .minor, .info]
  value := Severity.value
  unique := by intro m; cases m <;> rfl
  value_nonempty := by intro m; cases m <;> decide

instance : StrEnum WorkerStatus where
  className := "WorkerStatus"
  members := [.starting, .registering, .ready, .busy, .draining, .offline, .unhealthy]
  value := WorkerStatus.value
  unique := by intro m; cases m <;> rfl
  value_nonempty := by intro m; cases m <;> decide

end AgenticPlatform
