import AgenticPlatform.Cancellation
import AgenticPlatform.LeaseRenewal
import AgenticPlatform.OptimisticLocking

/-!
# Transactions on the run row

Cancellation, stage completions, `_advance`, `start`, failure reports and dead jobs all
read the run row, change the run in memory and write it back, and only some of them hold
the run's lock. The row has a version, but `update` reads the row again before it
overwrites it, so the version that a commit compares is the one found then. As long as no
other transaction committed the row in between, whatever overlaps, the committed statuses
follow the state machine and the account adds up; otherwise a stale run is stored.
-/

namespace AgenticPlatform

instance : AddCommMonoid TokenUsage where
  add_assoc a b c := by ext <;> simp [Nat.add_assoc]
  zero_add a := by ext <;> simp
  add_zero a := by ext <;> simp
  add_comm a b := by ext <;> simp [Nat.add_comm]
  nsmul := nsmulRec

/-- The transactions that read the run row. -/
inductive RunTask where
  | cancel (now : Instant) (reason : Option String)
  | complete (a : Answers) (job : Job) (lease : Lease)
  | start (ws : Workspaces) (now : Instant)
  | advance (ws : Workspaces) (now : Instant)
  | reportFailure (now : Instant) (job : Job) (e : PyError)
  | bury (now : Instant) (job : Job)

/-- The tables as a transaction sees them that read this row of the run. -/
def World.reading (w : World) (run : Run) : World := { w with db := { w.db with runs := [run] } }

/-- What the transaction wrote to the row of the run. -/
def Db.wrote (db : Db) (id : RunId) : Optimistic.Outcome Run :=
  match db.run? id with
  | none => .untouched
  | some run => .wrote run

namespace RunTask

/-- The tokens a stage completion pays for. -/
def usage : RunTask → TokenUsage
  | .complete a job _ =>
      match job.type with
      | .plan => (a.planner.map PlanOutcome.usage).toOption.getD 0
      | .code => (a.coder.map CodeOutcome.usage).toOption.getD 0
      | .review => (a.reviewer.map ReviewOutcome.usage).toOption.getD 0
      | _ => 0
  | _ => 0

/-- The completing transaction of a stage handler. A validation stage does not write
    the run. -/
def completion (o : Orchestrator) (a : Answers) (job : Job) (lease : Lease) (w : World) :
    Optimistic.Outcome Run :=
  match o.stageEffect a job w with
  | .error _ => .abandoned
  | .ok effect =>
      match (completing a job lease effect w.db).result with
      | .error _ => .abandoned
      | .ok db => if effect.run.isSome then db.wrote job.runId else .untouched

/-- The first transaction of `_handle_failure`, which writes a run it fails. -/
def failure (o : Orchestrator) (now : Instant) (job : Job) (e : PyError) (w : World) (run : Run) :
    Optimistic.Outcome Run :=
  let retryable := (o.retry.decide (classify e) job.attempt).shouldRetryJob
  match Orchestrator.recordFailure now job e retryable w.db with
  | .error _ => .abandoned
  | .ok db =>
      if retryable = false ∧ run.isTerminal = false ∧ (classify e).isCodeDefect = false then
        db.wrote job.runId
      else .untouched

/-- What a task does that read `run`, with `w` for everything else it read. A task of
    another run's job never commits here. -/
def body (o : Orchestrator) (task : RunTask) (w : World) (run : Run) : Optimistic.Outcome Run :=
  let w := w.reading run
  match task with
  | .cancel now reason =>
      match cancelRunCommit now run.id reason w.db with
      | .ok (some db) => db.wrote run.id
      | _ => .abandoned
  | .complete a job lease => if job.runId = run.id then completion o a job lease w else .abandoned
  | .start ws now =>
      if run.status = .created then
        match o.startCommit ws now run.id w with
        | .error _ => .abandoned
        | .ok (w, _) => w.db.wrote run.id
      else .abandoned
  | .advance ws now =>
      if run.isTerminal ∨ run.isCancelling ∨ hasUnfinished (w.db.jobsOf run.id) then .abandoned
      else
        match o.advanceCommit ws now run.id w with
        | .error _ => .abandoned
        | .ok (w, _) => w.db.wrote run.id
  | .reportFailure now job e =>
      if job.runId = run.id then failure o now job e w run else .abandoned
  | .bury now job =>
      if job.runId = run.id ∧ run.isTerminal = false then
        match Orchestrator.handleDeadJob now job w with
        | .raised _ _ => .abandoned
        | .returned w _ => w.db.wrote run.id
      else .abandoned

end RunTask

/-- How a transaction may change the run, when it pays `usage`. -/
structure RunUpdate (usage : TokenUsage) (before after : Run) : Prop where
  hop : RunStateMachine.Hop before.status after.status
  charter : after.charter = before.charter
  repairs : after.repairIterations = before.repairIterations ∨
    (before.canRepair = true ∧ after.repairIterations = before.repairIterations + 1)
  tokenUsage : after.tokenUsage = before.tokenUsage + usage

namespace RunUpdate

open RunStateMachine

variable {usage : TokenUsage} {before after : Run}

/-- A row keeps everything an update is about. -/
theorem stored (h : RunUpdate usage before after) : RunUpdate usage before after.stored :=
  ⟨h.hop, h.charter, h.repairs, h.tokenUsage⟩

/-- One legal change of status that pays nothing. -/
theorem edge {usage : TokenUsage} (hcan : can before.status after.status = true)
    (hcharter : after.charter = before.charter)
    (hrepairs : after.repairIterations = before.repairIterations)
    (husage : after.tokenUsage = before.tokenUsage + usage) : RunUpdate usage before after :=
  ⟨.step hcan, hcharter, .inl hrepairs, husage⟩

/-- The repair budget is never exceeded. -/
theorem within_budget (h : RunUpdate usage before after)
    (hbefore : before.repairIterations ≤ before.limits.maxRepairIterations) :
    after.repairIterations ≤ after.limits.maxRepairIterations := by
  rw [Run.limits_of_charter h.charter]
  rcases h.repairs with hsame | ⟨hcan, hmore⟩
  · rw [hsame]
    exact hbefore
  · rw [hmore]
    exact Nat.succ_le_of_lt (by simpa [Run.canRepair] using hcan)

end RunUpdate

/-! ### What each transaction does to the run -/

namespace Orchestrator

variable {o : Orchestrator} {ws : Workspaces} {now : Instant} {issued : Nat} {run : Run}
  {project : Project} {candidates settled : List Candidate} {target : Candidate} {p : Progress}

theorem Repaired.update (h : Repaired o now issued run candidates target p) :
    RunUpdate 0 run p.run := by
  refine ⟨?_, h.charter, .inr ⟨h.can_repair, h.repairIterations⟩, by simpa using h.tokenUsage⟩
  rw [h.status]
  exact .repair h.allowed

theorem Failed.update (hlive : run.isTerminal = false) (h : Failed issued run settled p) :
    RunUpdate 0 run p.run := by
  refine .edge ?_ h.charter h.repairIterations (by simpa using h.tokenUsage)
  rw [h.status]
  exact RunStateMachine.can_failed hlive

theorem openFirstStage_update (h : o.openFirstStage ws now issued run candidates = .ok p) :
    RunUpdate 0 run p.run := by
  rcases openFirstStage_ok h with ⟨planning, hplanning, rfl⟩ | ⟨coding, hcoding, hopened⟩
  · obtain ⟨hcan, rfl⟩ := Run.transitioning_after.mp hplanning
    exact .edge hcan rfl rfl (by simp [Run.record, Run.moved])
  · obtain ⟨hcan, rfl⟩ := Run.transitioning_after.mp hcoding
    rw [hopened.run_eq]
    exact .edge hcan rfl rfl (by simp [Run.record, Run.moved])

theorem advanceCandidates_update (hlive : run.isTerminal = false) (hnr : run.status ≠ .reviewing)
    (h : o.advanceCandidates now issued run project candidates = .ok p) :
    RunUpdate 0 run p.run := by
  rcases advanceCandidates_ok hlive hnr h with
    hval | ⟨-, ⟨-, rfl⟩ | hrev | ⟨-, ⟨target, -, -, hrep⟩ | ⟨-, hfail⟩⟩⟩
  · refine ⟨?_, hval.charter, .inl hval.repairIterations, by simpa using hval.tokenUsage⟩
    rw [hval.status]
    rcases hval.allowed with hsame | hcan
    · rw [hsame]
      exact .stay _
    · exact .step hcan
  · exact ⟨.stay _, rfl, .inl rfl, by simp⟩
  · refine .edge ?_ hrev.charter hrev.repairIterations (by simpa using hrev.tokenUsage)
    rw [hrev.status]
    exact hrev.allowed
  · exact hrep.update
  · exact hfail.update hlive

theorem advanceReview_update (hlive : run.isTerminal = false)
    (h : o.advanceReview ws now issued run candidates = .ok p) : RunUpdate 0 run p.run := by
  rcases advanceReview_ok hlive h with
    ⟨winner, hdone⟩ | ⟨-, ⟨target, -, hrep⟩ | ⟨-, hfail⟩⟩
  · refine .edge ?_ hdone.charter hdone.repairIterations (by simpa using hdone.tokenUsage)
    rw [hdone.status]
    exact hdone.allowed
  · exact hrep.update
  · exact hfail.update hlive

/-- **A decision follows the state machine**, at most one repair further, and pays nothing. -/
theorem nextStep_update (hlive : run.isTerminal = false)
    (h : o.nextStep ws now issued run project candidates = .ok p) : RunUpdate 0 run p.run := by
  unfold nextStep at h
  split at h
  · exact openFirstStage_update h
  · obtain ⟨coding, hcoding, h⟩ := bind_eq_ok.mp h
    obtain ⟨hcan, rfl⟩ := Run.transitioning_after.mp hcoding
    rw [(openCandidates_ok h).run_eq]
    exact .edge hcan rfl rfl (by simp [Run.record, Run.moved])
  · exact advanceCandidates_update hlive (by simp [*]) h
  · exact advanceCandidates_update hlive (by simp [*]) h
  · exact advanceCandidates_update hlive (by simp [*]) h
  · exact advanceReview_update hlive h
  · cases h
    exact ⟨.stay _, rfl, .inl rfl, by simp⟩

/-- A completing transaction that commits stored the effect next to the completed job. -/
theorem completing_ok {a : Answers} {job : Job} {lease : Lease} {effect : Effect} {db db' : Db}
    (h : (completing a job lease effect db).result = .ok db') :
    ∃ done, db' = db.complete effect done := by
  unfold completing at h
  simp only at h
  split at h
  · cases h
  · split at h
    · cases h
    · split at h
      · cases h
      · cases h
        exact ⟨_, rfl⟩

end Orchestrator

namespace RunTask

variable {o : Orchestrator} {task : RunTask} {w : World} {run after : Run} {paid : TokenUsage}
  {db : Db}

/-- What may come of a transaction that would pay `paid`. -/
def Allowed (paid : TokenUsage) (run : Run) : Optimistic.Outcome Run → Prop
  | .abandoned => True
  | .untouched => paid = 0
  | .wrote after => RunUpdate paid run after

theorem run?_reading (w : World) (run : Run) : (w.reading run).db.run? run.id = some run := by
  simp [World.reading, Db.run?, Table.find]

/-- A transaction that leaves the row of an updated run in the tables. -/
theorem allowed_wrote {id : RunId} (hrow : db.run? id = some after) (h : RunUpdate paid run after) :
    Allowed paid run (db.wrote id) := by
  simp only [Db.wrote, hrow]
  exact h

/-- The row that a transaction overwrites with an updated run. -/
theorem allowed_setRun (hrow : db.run? run.id = some run) (h : RunUpdate paid run after) :
    Allowed paid run ((db.setRun after).wrote run.id) := by
  have hid : after.id = run.id := Run.id_of_charter h.charter
  have hold : db.run? after.id = some run := by
    rw [hid]
    exact hrow
  apply allowed_wrote _ h.stored
  rw [Db.run?_setRun hold, if_pos hid.symm]

theorem cancel_allowed {now : Instant} {reason : Option String} {db' : Db}
    (hrow : db.run? run.id = some run)
    (h : cancelRunCommit now run.id reason db = .ok (some db')) :
    Allowed 0 run (db'.wrote run.id) := by
  obtain ⟨old, cancelled, hold, -, -, hcan, hstatus, hcharter, hrepairs, husage, rfl⟩ :=
    Db.cancelRunCommit_ok h
  obtain rfl : run = old := Option.some.inj (hrow.symm.trans hold)
  have hid : cancelled.id = run.id := Run.id_of_charter hcharter
  have hupdate : RunUpdate 0 run cancelled := by
    refine ⟨?_, hcharter, .inl hrepairs, by simpa using husage⟩
    rw [hstatus]
    exact .cancel hcan
  apply allowed_wrote _ hupdate.stored
  have hfind : db.run? cancelled.id = some run := by
    rw [hid]
    exact hrow
  rw [Db.run?_cancelRun hfind, if_pos hid.symm]

/-- Storing what a decision left. -/
theorem store_allowed {p : Progress} {now : Instant} (hrow : db.run? run.id = some run)
    (h : RunUpdate 0 run p.run) : Allowed 0 run ((db.store p now).wrote run.id) := by
  have hid : p.run.id = run.id := Run.id_of_charter h.charter
  have hold : db.run? p.run.id = some run := by
    rw [hid]
    exact hrow
  apply allowed_wrote _ h.stored
  rw [Db.run?_store hold, if_pos hid.symm]

/-- A completed stage pays what its agent used, and a plan moves the run on. -/
theorem completion_allowed {a : Answers} {job : Job} {lease : Lease}
    (hrow : w.db.run? run.id = some run) (hid : job.runId = run.id) :
    Allowed (usage (.complete a job lease)) run (completion o a job lease w) := by
  have hread : ∀ {found : Run}, w.db.run? job.runId = some found → run = found := by
    intro found hfound
    rw [hid] at hfound
    exact Option.some.inj (hrow.symm.trans hfound)
  unfold completion
  cases heffect : o.stageEffect a job w with
  | error e => exact trivial
  | ok effect =>
    simp only
    cases hdb : (completing a job lease effect w.db).result with
    | error e => exact trivial
    | ok db =>
      obtain ⟨done, rfl⟩ := Orchestrator.completing_ok hdb
      have hpaid : ∀ changed : Run, effect.run = some changed →
          RunUpdate (usage (.complete a job lease)) run changed →
          Allowed (usage (.complete a job lease)) run
            (if effect.run.isSome then (w.db.complete effect done).wrote job.runId
              else .untouched) := by
        intro changed hchanged hupdate
        have hset := allowed_setRun hrow hupdate
        rw [hchanged, Option.isSome_some, if_pos rfl, hid]
        unfold Db.wrote at hset ⊢
        rw [Orchestrator.run?_complete, hchanged]
        exact hset
      rcases Orchestrator.stageEffect_ok heffect with
        ⟨htype, found, run', outcome, hp⟩ | ⟨htype, found, old, changed, outcome, hp⟩ |
        ⟨stage, htype, found, project, old, changed, results, hp⟩ | ⟨htype, found, old, outcome, hp⟩
      · obtain rfl := hread hp.run_row
        apply hpaid _ hp.run_eq
        refine .edge ?_ hp.charter hp.repairIterations ?_
        · rw [hp.status]
          exact hp.allowed
        · simp [usage, htype, hp.answer, hp.tokenUsage, Except.map, Except.toOption]
      · obtain rfl := hread hp.run_row
        apply hpaid _ hp.run_eq
        refine ⟨.stay _, rfl, .inl rfl, ?_⟩
        simp [usage, htype, hp.answer, Run.addTokenUsage, Except.map, Except.toOption]
      · simp only [hp.run_eq, Option.isSome_none, Bool.false_eq_true, if_false]
        show usage (.complete a job lease) = 0
        cases stage <;> simp [usage, htype, ValidationStage.jobType]
      · obtain rfl := hread hp.run_row
        apply hpaid _ hp.run_eq
        refine ⟨.stay _, rfl, .inl rfl, ?_⟩
        simp [usage, htype, hp.answer, Run.addTokenUsage, Except.map, Except.toOption]

/-- A failed run paid nothing and keeps everything but its status. -/
theorem fail_update {now : Instant} {kind : FailureKind} {reason : String} {failed : Run}
    (hlive : run.isTerminal = false) (h : (run.fail now kind reason).after = .ok failed) :
    RunUpdate 0 run failed := by
  have hstatus : run.status.isTerminal = false := hlive
  unfold Run.fail at h
  rw [if_neg (by simp [hstatus])] at h
  obtain ⟨hcan, rfl⟩ := Run.transitioning_after.mp h
  exact .edge hcan rfl rfl (by simp [Run.record, Run.moved])

theorem failure_allowed {now : Instant} {job : Job} {e : PyError}
    (hrow : w.db.run? run.id = some run) (hid : job.runId = run.id) :
    Allowed 0 run (failure o now job e w run) := by
  have hread : w.db.run? job.runId = some run := by
    rw [hid]
    exact hrow
  unfold failure
  simp only
  cases hdb : Orchestrator.recordFailure now job e
      (o.retry.decide (classify e) job.attempt).shouldRetryJob w.db with
  | error e' => exact trivial
  | ok db =>
    simp only
    split
    · rename_i hfails
      unfold Orchestrator.recordFailure at hdb
      obtain ⟨stored, hstored, hdb⟩ := bind_eq_ok.mp hdb
      obtain ⟨-, rfl⟩ := Db.updateJob_eq_ok hstored
      simp only [hread, if_pos hfails] at hdb
      obtain ⟨failed, hfailed, hdb⟩ := bind_eq_ok.mp hdb
      simp only [pure_eq_ok, Except.ok.injEq] at hdb
      subst hdb
      have hset : Allowed 0 run ((w.db.setRun failed).wrote run.id) :=
        allowed_setRun hrow (fail_update hfails.2.1 hfailed)
      rw [hid]
      exact hset
    · rfl

theorem bury_allowed {now : Instant} {job : Job} (hrow : w.db.run? run.id = some run)
    (hid : job.runId = run.id) (hlive : run.isTerminal = false) :
    Allowed 0 run
      (match Orchestrator.handleDeadJob now job w with
        | .raised _ _ => .abandoned
        | .returned w _ => w.db.wrote run.id) := by
  have hread : w.db.run? job.runId = some run := by
    rw [hid]
    exact hrow
  unfold Orchestrator.handleDeadJob
  simp only [hread, hlive, Bool.false_eq_true, if_false]
  cases hfailed : (run.fail now (job.failureKind.getD .infrastructure)
      (Orchestrator.deadJobReason job)).after with
  | error e => exact trivial
  | ok failed =>
    exact allowed_setRun hrow (fail_update hlive hfailed)

/-- **One transaction**: it follows the state machine within the repair budget and adds
    exactly its own usage, or it leaves the run alone and has none. -/
theorem body_allowed (o : Orchestrator) (task : RunTask) (w : World) (run : Run) :
    Allowed task.usage run (body o task w run) := by
  have hrow := run?_reading w run
  cases task with
  | cancel now reason =>
    simp only [body]
    split
    · rename_i db hdb
      exact cancel_allowed hrow hdb
    · exact trivial
  | complete a job lease =>
    simp only [body]
    split
    · rename_i hid
      exact completion_allowed hrow hid
    · exact trivial
  | start ws now =>
    simp only [body]
    split
    · rename_i hcreated
      split
      · exact trivial
      · rename_i w' jobs hcommit
        unfold Orchestrator.startCommit at hcommit
        obtain ⟨found, hfound, hcommit⟩ := bind_eq_ok.mp hcommit
        obtain rfl : run = found :=
          Option.some.inj (hrow.symm.trans (Db.requireRun_ok hfound))
        rw [if_neg (by simp [hcreated])] at hcommit
        obtain ⟨-, -, hcommit⟩ := bind_eq_ok.mp hcommit
        obtain ⟨p, hp, hcommit⟩ := bind_eq_ok.mp hcommit
        simp only [pure_eq_ok, Except.ok.injEq, Prod.mk.injEq] at hcommit
        obtain ⟨rfl, -⟩ := hcommit
        exact store_allowed hrow (Orchestrator.openFirstStage_update hp)
    · exact trivial
  | advance ws now =>
    simp only [body]
    split
    · exact trivial
    · split
      · exact trivial
      · rename_i w' jobs hcommit
        rcases Orchestrator.advanceCommit_ok hcommit with
          ⟨rfl, -⟩ | ⟨found, project, p, hadv, hp, rfl, -⟩
        · exact allowed_wrote hrow ⟨.stay _, rfl, .inl rfl, by simp [usage]⟩
        · obtain rfl : run = found := Option.some.inj (hrow.symm.trans hadv.run_row)
          exact store_allowed hrow (Orchestrator.nextStep_update hadv.live hp)
  | reportFailure now job e =>
    simp only [body]
    split
    · rename_i hid
      exact failure_allowed hrow hid
    · exact trivial
  | bury now job =>
    simp only [body]
    split
    · rename_i h
      exact bury_allowed hrow h.1 h.2
    · exact trivial

theorem justified_update {entry : Optimistic.Entry RunTask Run} (h : entry.Justified (body o)) :
    RunUpdate entry.task.usage entry.before entry.after := by
  rcases h with ⟨w, hwrote⟩ | ⟨hsame, w, seen, huntouched⟩
  · have hallowed := body_allowed o entry.task w entry.before
    rw [hwrote] at hallowed
    exact hallowed
  · have hallowed := body_allowed o entry.task w seen
    rw [huntouched] at hallowed
    have hfree : entry.task.usage = 0 := hallowed
    rw [hsame, hfree]
    exact ⟨.stay _, rfl, .inl rfl, by simp⟩

/-- The committed statuses of a run, from the first one on. -/
def statuses (run : Run) (log : List (Optimistic.Entry RunTask Run)) : List RunStatus :=
  run.status :: log.map fun entry => entry.after.status

/-- **No lost update on a run.** However its transactions overlap, as long as each finds
    the row it overwrites as it read it, the committed statuses follow the state machine,
    a terminal one is never left, the repair budget holds, and the account is the sum of
    the usages of the completions that committed. -/
theorem committed_runs_serial (o : Orchestrator) (run : Run)
    (moves : List (Optimistic.Move RunTask World))
    (hbudget : run.repairIterations ≤ run.limits.maxRepairIterations)
    (htimely : (Optimistic.idle run).AllTimely (body o) moves) :
    let s := (Optimistic.idle run).run (body o) moves
    (statuses run s.log).IsChain RunStateMachine.Hop ∧
      (statuses run s.log).Pairwise
        (fun earlier later => earlier.isTerminal = true → later = earlier) ∧
      (∀ entry ∈ s.log, entry.after.repairIterations ≤ entry.after.limits.maxRepairIterations) ∧
      s.current.row.tokenUsage =
        run.tokenUsage + (s.log.map fun entry => entry.task.usage).sum := by
  intro s
  have hserial := Optimistic.State.serial_of_idle (body o) run moves htimely
  have hhops : (statuses run s.log).IsChain RunStateMachine.Hop :=
    hserial.isChain Run.status fun entry h => (justified_update h).hop
  have hpaths : (statuses run s.log).IsChain RunStateMachine.Path :=
    hhops.imp fun _ _ hhop => hhop.path
  have : Trans RunStateMachine.Path RunStateMachine.Path RunStateMachine.Path :=
    ⟨RunStateMachine.Path.trans⟩
  refine ⟨hhops, ?_, ?_, ?_⟩
  · exact (List.isChain_iff_pairwise.mp hpaths).imp fun hpath hterminal =>
      hpath.eq_of_terminal hterminal
  · exact (hserial.preserves (fun run => run.repairIterations ≤ run.limits.maxRepairIterations)
      hbudget fun entry h hbefore => (justified_update h).within_budget hbefore).1
  · exact hserial.total Run.tokenUsage usage fun entry h => (justified_update h).tokenUsage

end RunTask

namespace Sample

/-- A run that waits for its first stage. -/
def unstartedRun : Run := { run 1 count_one count_three with events := [] }

def unstartedWorld : World := World.fresh (project {}) unstartedRun

/-- `start` reads the run, `CancelRunUseCase` cancels it, and `start` goes on. -/
def overlapping : List (Optimistic.Move RunTask World) :=
  [.read (.start .calm 20), .read (.cancel 10 (some "no longer needed")),
    .update 1 unstartedWorld, .commit 0, .update 0 unstartedWorld, .commit 0]

/-- A coder's completion, and a cancellation after it. -/
def successive : List (Optimistic.Move RunTask World) :=
  [.read (.complete (coderAnswers 100000000) (heldJob 3 count_three) heldLease),
    .update 0 renewedWorld, .commit 0,
    .read (.cancel 100000000 (some "no longer needed")),
    .update 0 renewedWorld, .commit 0]

end Sample

namespace RunTask

/-- A stale run is stored over a cancelled one: the version that `start` compares is the
    one its `update` found, not the one it read. -/
theorem stale_run_overwrites :
    let s := (Optimistic.idle Sample.unstartedRun).run (body (Sample.orchestrator 3 (by decide)))
      Sample.overlapping
    statuses Sample.unstartedRun s.log = [.created, .cancelled, .coding] ∧
      ¬ (statuses Sample.unstartedRun s.log).Pairwise
        (fun earlier later => earlier.isTerminal = true → later = earlier) := by
  have hlog : statuses Sample.unstartedRun ((Optimistic.idle Sample.unstartedRun).run
      (body (Sample.orchestrator 3 (by decide))) Sample.overlapping).log =
      [.created, .cancelled, .coding] := rfl
  intro s
  refine ⟨hlog, ?_⟩
  rw [hlog]
  decide

/-- One after the other both commit, and the coder's tokens are charged. -/
theorem committed_runs_serial_sample :
    let s := (Optimistic.idle Sample.codingRun).run (body (Sample.orchestrator 3 (by decide)))
      Sample.successive
    statuses Sample.codingRun s.log = [.coding, .coding, .cancelled] ∧
      s.current.row.tokenUsage = (s.log.map fun entry => entry.task.usage).sum := by
  have htimely : (Optimistic.idle Sample.codingRun).AllTimely
      (body (Sample.orchestrator 3 (by decide))) Sample.successive := by
    refine ⟨trivial, ?_, trivial, trivial, ?_, trivial, trivial⟩
    · rintro txn row ⟨⟩ -
      rfl
    · rintro txn row ⟨⟩ -
      rfl
  obtain ⟨-, -, -, husage⟩ := committed_runs_serial (Sample.orchestrator 3 (by decide))
    Sample.codingRun Sample.successive (by decide) htimely
  exact ⟨rfl, husage⟩

end RunTask

end AgenticPlatform
