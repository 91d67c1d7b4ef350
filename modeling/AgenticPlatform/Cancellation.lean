import AgenticPlatform.Store
import AgenticPlatform.JobQueueRecovery

/-!
# Cancelling a run

`CancelRunUseCase.execute`: one transaction stops the run with all its jobs and
candidates; the queue is told afterwards. A run that is already stopping is left alone.
-/

namespace AgenticPlatform

/-- The tables once a run was cancelled. -/
def Db.cancelRun (db : Db) (run : Run) (now : Instant) : Db :=
  let candidates := (db.candidatesOf run.id).map fun candidate => candidate.cancel now
  { db with
    jobs := db.jobs.map fun job => if job.runId = run.id then (job.cancel now).stored else job
    candidates := Table.putAll Candidate.id db.candidates (candidates.map Candidate.stored)
    runs := Table.put Run.id db.runs run.stored
    events := db.events ++ candidates.flatMap Candidate.events ++ run.events }

/-- The transaction of `CancelRunUseCase.execute`; `none` when nothing is committed
    because the run is already stopping. -/
def cancelRunCommit (now : Instant) (runId : RunId) (reason : Option String) (db : Db) :
    Except PyError (Option Db) := do
  let run ← db.requireRun runId
  let (run, requested) ← (run.requestCancellation now reason).outcome
  if requested then
    let run ← (run.confirmCancelled now reason).after
    return some (db.cancelRun run now)
  else return none

/-- `CancelRunUseCase.execute`: dropping queued work after the commit keeps the durable
    state authoritative. -/
def cancelRun (now : Instant) (runId : RunId) (reason : Option String) (w : World) :
    Call World Unit :=
  match cancelRunCommit now runId reason w.db with
  | .error e => .raised w e
  | .ok none => .returned w ()
  | .ok (some db) => .returned { w with db, queue := (w.queue.cancelRunJobs runId).1 } ()

namespace Db

variable {db db' : Db} {run : Run} {runId : RunId} {now : Instant} {reason : Option String}

/-- A committed cancellation found a live run and moved it through CANCELLING. -/
theorem cancelRunCommit_ok (h : cancelRunCommit now runId reason db = .ok (some db')) :
    ∃ old run, db.run? runId = some old ∧ old.isTerminal = false ∧ old.status ≠ .cancelling ∧
      RunStateMachine.can old.status .cancelling = true ∧ run.status = .cancelled ∧
      run.charter = old.charter ∧ run.repairIterations = old.repairIterations ∧
      run.tokenUsage = old.tokenUsage ∧ db' = db.cancelRun run now := by
  unfold cancelRunCommit at h
  obtain ⟨old, hold, h⟩ := bind_eq_ok.mp h
  have hrow : db.run? runId = some old := by
    unfold requireRun at hold
    split at hold
    · cases hold
    · rename_i found hfound
      cases hold
      exact hfound
  unfold Run.requestCancellation at h
  by_cases hstop : old.status.isTerminal = true ∨ old.status = .cancelling
  · rw [if_pos hstop] at h
    simp at h
  · rw [if_neg hstop] at h
    simp only [not_or, Bool.not_eq_true] at hstop
    cases hcan : RunStateMachine.can old.status .cancelling with
    | false =>
      rw [Run.transitioning_of_cannot hcan] at h
      simp at h
    | true =>
      rw [Run.transitioning_of_can hcan] at h
      simp only [Call.outcome_returned, ok_bind, if_true] at h
      obtain ⟨run, hrun, h⟩ := bind_eq_ok.mp h
      have hmoved : (old.moved .cancelling now reason).status ≠ .cancelled := by
        intro hc
        cases hc
      unfold Run.confirmCancelled at hrun
      rw [if_neg hmoved] at hrun
      obtain ⟨-, rfl⟩ := Run.transitioning_after.mp hrun
      simp only [pure_eq_ok, Except.ok.injEq, Option.some.injEq] at h
      refine ⟨old, _, hrow, hstop.1, hstop.2, hcan, ?_, ?_, ?_, ?_, h.symm⟩ <;> rfl

/-- The rows of the run's jobs are cancelled where they are, and no others. -/
theorem job?_cancelRun (id : JobId) :
    (db.cancelRun run now).job? id =
      (db.job? id).map fun job => if job.runId = run.id then (job.cancel now).stored else job := by
  refine Table.find_map db.jobs _ (fun job => ?_) id
  split
  · exact Job.id_of_work (Job.cancel_work job now)
  · rfl

theorem run?_cancelRun {old : Run} (h : db.run? run.id = some old) (id : RunId) :
    (db.cancelRun run now).run? id = if id = run.id then some run.stored else db.run? id := by
  have hfind : Table.find Run.id db.runs run.stored.id = some old := h
  exact Table.find_put hfind id

end Db

end AgenticPlatform
