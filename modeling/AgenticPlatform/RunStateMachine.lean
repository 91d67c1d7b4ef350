import AgenticPlatform.Enums

/-!
# The run state machine

The transition table is the only authority on which status may follow which. A
cancellation request is legal from every live state and is added programmatically,
as the source does, rather than repeated in every row.
-/

namespace AgenticPlatform.RunStateMachine

open RunStatus

/-- `_TRANSITIONS`. -/
def transitions : RunStatus → List RunStatus
  | created => [planning, coding, failed]
  | planning => [planReady, failed]
  | planReady => [coding, planning, failed]
  | coding => [validating, reviewing, failed]
  | validating => [reviewing, repairing, failed]
  | reviewing => [completed, repairing, failed]
  | repairing => [coding, planning, failed]
  | cancelling => [cancelled, failed]
  | completed => []
  | failed => []
  | cancelled => []

/-- `_ALLOWED`. -/
def allowedFrom (state : RunStatus) : List RunStatus :=
  if state.isTerminal = false ∧ state ≠ cancelling then transitions state ++ [cancelling]
  else transitions state

def can (current requested : RunStatus) : Bool := (allowedFrom current).contains requested

/-- Raise unless the transition is legal; a self-transition never is. -/
def ensure (current requested : RunStatus) : Except PyError Unit :=
  if can current requested then .ok ()
  else .error (.invalidStateTransition "Run" current.value requested.value)

/-- Terminal states absorb: the table has no way out of them. -/
theorem can_of_terminal {current : RunStatus} (h : current.isTerminal = true)
    (requested : RunStatus) : can current requested = false := by
  cases current <;> first | rfl | simp [isTerminal] at h

/-- Every live state may fail. -/
theorem can_failed {current : RunStatus} (h : current.isTerminal = false) :
    can current failed = true := by
  cases current <;> first | rfl | simp [isTerminal] at h

/-- `Path s t`: the table leads from `s` to `t` in any number of steps. -/
inductive Path : RunStatus → RunStatus → Prop where
  | refl (s : RunStatus) : Path s s
  | step {s t u : RunStatus} : Path s t → can t u = true → Path s u

theorem Path.trans {s t u : RunStatus} (h₁ : Path s t) (h₂ : Path t u) : Path s u := by
  induction h₂ with
  | refl => exact h₁
  | step _ hcan ih => exact .step ih hcan

theorem Path.eq_of_terminal {s t : RunStatus} (h : Path s t) (hs : s.isTerminal = true) :
    t = s := by
  induction h with
  | refl => rfl
  | step _ hcan ih =>
    rw [ih, can_of_terminal hs] at hcan
    cases hcan

/-- What one commit shows of a path: nothing, one step, or the second of two steps the
    transaction took in memory, through REPAIRING or through CANCELLING. -/
inductive Hop : RunStatus → RunStatus → Prop where
  | stay (s : RunStatus) : Hop s s
  | step {s t : RunStatus} : can s t = true → Hop s t
  | repair {s : RunStatus} : can s repairing = true → Hop s coding
  | cancel {s : RunStatus} : can s cancelling = true → Hop s cancelled

theorem Hop.path {s t : RunStatus} (h : Hop s t) : Path s t := by
  cases h with
  | stay => exact .refl s
  | step hcan => exact .step (.refl s) hcan
  | repair hcan => exact .step (.step (.refl s) hcan) rfl
  | cancel hcan => exact .step (.step (.refl s) hcan) rfl

end AgenticPlatform.RunStateMachine
