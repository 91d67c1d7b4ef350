import AgenticPlatform.CoderBudget
import AgenticPlatform.Premises
import AgenticPlatform.RunTransactions
import AgenticPlatform.Runs

/-!
# No workspace outlives its run

A decision that ends a run releases the run's workspaces before it commits, and
`handle_dead_job` after it did. `CancelRunUseCase` and `_handle_failure` end a run without
telling the workspace manager. So the workspaces of an ended run are gone, up to the
planner that still works in one, exactly as long as those two never end a run that has a
candidate's workspace.
-/

namespace AgenticPlatform

/-! ### Which transactions end a run -/

namespace Db

/-- The run is stored in a terminal status. -/
def Ended (db : Db) (runId : RunId) : Prop := ∃ run, db.run? runId = some run ∧ run.isTerminal = true

variable {db db' : Db} {runId : RunId} {run old : Run}

@[simp] theorem ended_append (events : List DomainEvent) :
    (db.append events).Ended runId ↔ db.Ended runId := Iff.rfl

theorem Ended.of_runs (h : db.Ended runId) (hruns : db'.runs = db.runs) : db'.Ended runId := by
  obtain ⟨run, hrun, hterminal⟩ := h
  refine ⟨run, ?_, hterminal⟩
  unfold run? at hrun ⊢
  rwa [hruns]

/-- Writing a row decides about the one run only. -/
theorem ended_put (runId : RunId) (hrow : db.run? run.id = some old)
    (hruns : db'.runs = Table.put Run.id db.runs run.stored) :
    db'.Ended runId ↔ if runId = run.id then run.isTerminal = true else db.Ended runId := by
  have hput : db'.run? runId = if runId = run.id then some run.stored else db.run? runId := by
    rw [← run?_setRun hrow runId]
    unfold run? setRun
    rw [hruns]
  unfold Ended
  rw [hput]
  split
  · constructor
    · rintro ⟨found, hfound, hterminal⟩
      cases hfound
      exact hterminal
    · intro hterminal
      exact ⟨run.stored, rfl, hterminal⟩
  · rfl

theorem ended_of_put_same (hrow : db.run? run.id = some old)
    (hruns : db'.runs = Table.put Run.id db.runs run.stored)
    (hsame : run.isTerminal = old.isTerminal) : db'.Ended runId ↔ db.Ended runId := by
  rw [ended_put runId hrow hruns]
  split
  · rename_i hid
    subst hid
    constructor
    · intro hterminal
      exact ⟨old, hrow, hsame ▸ hterminal⟩
    · rintro ⟨found, hfound, hterminal⟩
      rw [hrow] at hfound
      cases hfound
      exact hsame.trans hterminal
  · rfl

end Db

namespace Orchestrator

variable {o : Orchestrator} {a : Answers} {job : Job} {w : World} {db db' : Db} {effect : Effect}

/-- A stage ends no run and revives none. -/
theorem stageEffect_ends (h : o.stageEffect a job w = .ok effect) {changed : Run}
    (hchanged : effect.run = some changed) :
    ∃ old, w.db.run? changed.id = some old ∧ changed.isTerminal = old.isTerminal := by
  have hread : ∀ {old : Run}, w.db.run? job.runId = some old → changed.charter = old.charter →
      changed.isTerminal = old.isTerminal →
      ∃ old, w.db.run? changed.id = some old ∧ changed.isTerminal = old.isTerminal := by
    intro old hrow hcharter hterminal
    have hid : changed.id = job.runId := (Run.id_of_charter hcharter).trans (Table.find_key hrow)
    exact ⟨old, hid ▸ hrow, hterminal⟩
  rcases stageEffect_ok h with ⟨-, before, after, outcome, hp⟩ |
    ⟨-, run, old, coded, outcome, hp⟩ | ⟨stage, -, run, project, old, coded, results, hp⟩ |
    ⟨-, run, old, outcome, hp⟩
  · rw [hp.run_eq, Option.some.injEq] at hchanged
    subst hchanged
    apply hread hp.run_row hp.charter
    cases hlive : before.status.isTerminal with
    | false =>
      unfold Run.isTerminal
      rw [hp.status, hlive]
      rfl
    | true =>
      have hcan := hp.allowed
      rw [RunStateMachine.can_of_terminal hlive] at hcan
      cases hcan
  · rw [hp.run_eq, Option.some.injEq] at hchanged
    subst hchanged
    exact hread hp.run_row rfl rfl
  · rw [hp.run_eq] at hchanged
    cases hchanged
  · rw [hp.run_eq, Option.some.injEq] at hchanged
    subst hchanged
    exact hread hp.run_row rfl rfl

theorem complete_ended (runId : RunId) (h : o.stageEffect a job w = .ok effect) (done : Job) :
    (w.db.complete effect done).Ended runId ↔ w.db.Ended runId := by
  cases heq : effect.run with
  | none =>
    have hruns : (w.db.complete effect done).runs = w.db.runs := by
      unfold Db.complete
      cases effect.candidate <;> rw [heq] <;> rfl
    exact ⟨fun hended => hended.of_runs hruns.symm, fun hended => hended.of_runs hruns⟩
  | some run =>
    obtain ⟨old, hrow, hsame⟩ := stageEffect_ends h heq
    have hruns : (w.db.complete effect done).runs = Table.put Run.id w.db.runs run.stored := by
      unfold Db.complete
      cases effect.candidate <;> rw [heq] <;> rfl
    exact Db.ended_of_put_same hrow hruns hsame

theorem cancelling_runs (h : (cancelling a job db).result = .ok db') : db'.runs = db.runs := by
  unfold cancelling at h
  simp only at h
  split at h
  · cases h
  · split at h
    · cases h
    · rename_i stored hstored
      obtain ⟨-, rfl⟩ := Db.updateJob_eq_ok hstored
      split at h
      · cases h
      · cases h
        rfl

/-- What `_handle_failure` ends: a live run, when the job is not retried and the code is
    not to blame. -/
theorem recordFailure_ended (runId : RunId) {now : Instant} {e : PyError} {retryable : Bool}
    (h : recordFailure now job e retryable db = .ok db') :
    (db.Ended runId → db'.Ended runId) ∧
      (db'.Ended runId → db.Ended runId ∨ (job.runId = runId ∧ retryable = false ∧
        (classify e).isCodeDefect = false ∧
        ∃ run, db.run? runId = some run ∧ run.isTerminal = false)) := by
  unfold recordFailure at h
  obtain ⟨stored, hstored, h⟩ := bind_eq_ok.mp h
  obtain ⟨-, rfl⟩ := Db.updateJob_eq_ok hstored
  split at h
  · cases h
    exact ⟨fun hended => hended.of_runs rfl, fun hended => .inl (hended.of_runs rfl)⟩
  · rename_i run hrun
    split at h
    · rename_i hfails
      obtain ⟨failed, hfailed, h⟩ := bind_eq_ok.mp h
      cases h
      obtain ⟨failed', hfailed', hstatus, hcharter⟩ :=
        Run.fail_of_live hfails.2.1 now (classify e) e.str
      rw [hfailed', Except.ok.injEq] at hfailed
      subst hfailed
      have hid : failed'.id = job.runId := (Run.id_of_charter hcharter).trans (Table.find_key hrun)
      have hrow : db.run? failed'.id = some run := by
        rw [hid]
        exact hrun
      have hput : ((db.setJob (job.fail none now (classify e) e.str (some retryable)).self).setRun
          failed').Ended runId ↔ _ := Db.ended_put runId hrow rfl
      rw [Db.ended_append, hput, hid]
      constructor
      · intro hended
        split
        · simp [Run.isTerminal, hstatus, RunStatus.isTerminal]
        · exact hended
      · split
        · rename_i hrunId
          subst hrunId
          exact fun _ => .inr ⟨rfl, hfails.1, hfails.2.2, run, hrun, hfails.2.1⟩
        · exact fun hended => .inl hended
    · cases h
      exact ⟨fun hended => hended.of_runs rfl, fun hended => .inl (hended.of_runs rfl)⟩

/-- `handle_dead_job` ends the live run it is about. -/
theorem handleDeadJob_ended (runId : RunId) (now : Instant) {run : Run}
    (hrow : w.db.run? job.runId = some run) (hlive : run.isTerminal = false) :
    (handleDeadJob now job w).self.db.Ended runId ↔ runId = job.runId ∨ w.db.Ended runId := by
  obtain ⟨failed, hfailed, hstatus, hcharter⟩ :=
    Run.fail_of_live hlive now (job.failureKind.getD .infrastructure) (deadJobReason job)
  have hid : failed.id = job.runId := (Run.id_of_charter hcharter).trans (Table.find_key hrow)
  have hread : w.db.run? failed.id = some run := by
    rw [hid]
    exact hrow
  have hself : (handleDeadJob now job w).self.db = (w.db.setRun failed).append failed.events := by
    simp [handleDeadJob, hrow, hlive, hfailed]
  have hput : (w.db.setRun failed).Ended runId ↔ _ := Db.ended_put runId hread rfl
  rw [hself, Db.ended_append, hput, hid]
  split
  · rename_i hrunId
    simp [hrunId, Run.isTerminal, hstatus, RunStatus.isTerminal]
  · rename_i hrunId
    simp [hrunId]

end Orchestrator

/-- What a committed cancellation ends: a live run that is not stopping yet. -/
theorem cancelRunCommit_ended (runId : RunId) {now : Instant} {cancelled : RunId} {reason : Option String}
    {db db' : Db} (h : cancelRunCommit now cancelled reason db = .ok (some db')) :
    (db.Ended runId → db'.Ended runId) ∧
      (db'.Ended runId → db.Ended runId ∨ (cancelled = runId ∧
        ∃ run, db.run? runId = some run ∧ run.isTerminal = false ∧ run.status ≠ .cancelling)) := by
  obtain ⟨old, run, hold, hlive, hnot, -, hstatus, hcharter, -, -, rfl⟩ := Db.cancelRunCommit_ok h
  have hid : run.id = cancelled := (Run.id_of_charter hcharter).trans (Table.find_key hold)
  have hrow : db.run? run.id = some old := by
    rw [hid]
    exact hold
  have hput : (db.cancelRun run now).Ended runId ↔ _ := Db.ended_put runId hrow rfl
  rw [hput, hid]
  constructor
  · intro hended
    split
    · simp [Run.isTerminal, hstatus, RunStatus.isTerminal]
    · exact hended
  · split
    · rename_i hrunId
      subst hrunId
      exact fun _ => .inr ⟨rfl, old, hold, hlive, hnot⟩
    · exact fun hended => .inl hended

/-! ### Which moves end a run -/

namespace System

/-- The moves that end a run without a word to the workspace manager. -/
def Ends (o : Orchestrator) (s : System) (runId : RunId) : Move → Prop
  | .cancel _ cancelled _ =>
      cancelled = runId ∧ ∃ run, s.world.db.run? runId = some run ∧ run.isTerminal = false ∧
        run.status ≠ .cancelling
  | .resume token _ =>
      ∃ job lease e, s.holders token = some (.reporting job lease e) ∧ job.runId = runId ∧
        (o.retry.decide (classify e) job.attempt).shouldRetryJob = false ∧
        (classify e).isCodeDefect = false ∧
        ∃ run, s.world.db.run? runId = some run ∧ run.isTerminal = false
  | _ => False

/-- The moves of `Premises` that are moves of the platform. -/
def Plain : Move → Prop
  | .advance _ _ => False
  | .bury _ _ => False
  | _ => True

variable {o : Orchestrator} {ws : Workspaces} {s s' : System} {runId : RunId}

theorem expireRow_runs (s : System) (now : Instant) (job : Job) :
    (s.expireRow now job).world.db.runs = s.world.db.runs := by
  unfold expireRow
  simp only
  split
  · split <;> rfl
  · rfl

/-- A piece of a holder's work, as far as runs are concerned. -/
theorem resume_ended (o : Orchestrator) (runId : RunId) (a : Answers) (w : World)
    (holder : Holder) :
    (w.db.Ended runId → (holder.resume o a w).world.db.Ended runId) ∧
      ((holder.resume o a w).world.db.Ended runId → w.db.Ended runId ∨
        ∃ job lease e, holder = .reporting job lease e ∧ job.runId = runId ∧
          (o.retry.decide (classify e) job.attempt).shouldRetryJob = false ∧
          (classify e).isCodeDefect = false ∧
          ∃ run, w.db.run? runId = some run ∧ run.isTerminal = false) := by
  have hsame : ∀ {db : Db} {P : Prop}, db.runs = w.db.runs →
      (w.db.Ended runId → db.Ended runId) ∧ (db.Ended runId → w.db.Ended runId ∨ P) :=
    fun hruns => ⟨fun hended => hended.of_runs hruns, fun hended => .inl (hended.of_runs hruns.symm)⟩
  cases holder with
  | claimed job lease =>
    simp only [Holder.resume]
    split
    · exact hsame rfl
    · split
      · exact hsame rfl
      · split
        · split
          · exact hsame rfl
          · rename_i db hdb
            exact hsame (Orchestrator.cancelling_runs hdb)
        · exact hsame rfl
  | working job lease =>
    simp only [Holder.resume]
    split
    · exact hsame rfl
    · rename_i effect heffect
      split
      · exact hsame rfl
      · rename_i db hdb
        obtain ⟨done, rfl⟩ := Orchestrator.completing_ok hdb
        have hended := Orchestrator.complete_ended runId heffect done
        exact ⟨hended.mpr, fun h => .inl (hended.mp h)⟩
  | acknowledging job lease =>
    simp only [Holder.resume]
    split <;> exact hsame rfl
  | reporting job lease e =>
    simp only [Holder.resume]
    split
    · exact hsame rfl
    · rename_i db hdb
      have hended := Orchestrator.recordFailure_ended runId hdb
      refine ⟨hended.1, fun h => ?_⟩
      rcases hended.2 h with hold | hfails
      · exact .inl hold
      · exact .inr ⟨job, lease, e, rfl, hfails⟩
  | releasing job lease decision =>
    simp only [Holder.resume]
    split
    · exact hsame rfl
    · split <;> exact hsame rfl
  | requeueing jobId reason =>
    simp only [Holder.resume]
    split
    · exact hsame rfl
    · split <;> exact hsame rfl

/-- **A plain move ends at most the run it names**, and revives none. -/
theorem step_ended {move : Move} (hplain : Plain move) (hstep : s.step o ws move = some s') :
    (s.world.db.Ended runId → s'.world.db.Ended runId) ∧
      (s'.world.db.Ended runId → s.world.db.Ended runId ∨ s.Ends o runId move) := by
  have hsame : ∀ {next : System}, next.world.db.runs = s.world.db.runs →
      (s.world.db.Ended runId → next.world.db.Ended runId) ∧
        (next.world.db.Ended runId → s.world.db.Ended runId ∨ s.Ends o runId move) :=
    fun hruns => ⟨fun hended => hended.of_runs hruns, fun hended => .inl (hended.of_runs hruns.symm)⟩
  cases move with
  | claim consumer jobTypes duration now token =>
    simp only [System.step] at hstep
    split at hstep
    · cases hstep
    · split at hstep <;> cases hstep <;> exact hsame rfl
  | renew jobId token duration now =>
    cases hstep
    exact hsame rfl
  | resume token a =>
    simp only [System.step] at hstep
    split at hstep
    · cases hstep
    · rename_i holder hholder
      cases hstep
      have hended := resume_ended o runId a s.world holder
      refine ⟨hended.1, fun h => ?_⟩
      rcases hended.2 h with hold | ⟨job, lease, e, rfl, hfails⟩
      · exact .inl hold
      · exact .inr ⟨job, lease, e, hholder, hfails⟩
  | publish n =>
    simp only [System.step] at hstep
    split at hstep <;> cases hstep
    exact hsame rfl
  | advance now runId => exact hplain.elim
  | reclaim now limit =>
    simp only [System.step] at hstep
    split at hstep <;> cases hstep <;> exact hsame rfl
  | expire n now =>
    simp only [System.step] at hstep
    split at hstep
    · cases hstep
    · split at hstep
      · cases hstep
        exact hsame rfl
      · split at hstep
        · cases hstep
          exact hsame rfl
        · cases hstep
          exact hsame (expireRow_runs _ now _)
  | bury n now => exact hplain.elim
  | cancel now cancelled reason =>
    simp only [System.step] at hstep
    split at hstep
    · rename_i db hdb
      cases hstep
      have hended := cancelRunCommit_ended runId hdb
      exact ⟨hended.1, hended.2⟩
    · cases hstep
      exact hsame rfl
  | dropJobs n =>
    simp only [System.step] at hstep
    split at hstep <;> cases hstep
    exact hsame rfl

end System

/-! ### The invariant -/

namespace Premises

/-- The run is stored in a terminal status. -/
def Ended (s : Premises) (runId : RunId) : Prop := s.system.world.db.Ended runId

/-- The workspace of a planner that is still at work, and will leave it. -/
def Guest (s : Premises) (record : WorkspaceRecord) : Prop :=
  ∃ token job lease, s.planning token = some record.id ∧
    s.system.holders token = some (.working job lease) ∧ job.runId = record.runId

/-- The run has no candidate's workspace. -/
def Cleared (s : Premises) (runId : RunId) : Prop :=
  ∀ record ∈ s.manager.records, record.runId = runId → s.Guest record

/-- The run has no candidate's workspace, and no decision is about to open any. -/
def Vacant (s : Premises) (runId : RunId) : Prop :=
  s.Cleared runId ∧ ∀ d, s.deciding runId = some d → d.acted = false → d.created = []

/-- Whoever ends a run without telling the manager finds it vacant. -/
def Clears (o : Orchestrator) (s : Premises) : Turn → Prop
  | .move move => ∀ runId, s.system.Ends o runId move → s.Vacant runId
  | _ => True

/-- A decision in progress on a run. -/
structure Deliberates (s : Premises) (runId : RunId) (d : Decision) : Prop where
  seen_id : d.seen.id = runId
  seen_live : d.seen.isTerminal = false
  outcome_id : ∀ p, d.outcome = .ok p → p.run.id = runId
  released : d.ends = true → d.acted = true → s.Cleared runId

structure Housed (s : Premises) : Prop where
  vacant : ∀ runId, s.Ended runId → runId ∈ s.sweeping ∨ s.Vacant runId
  sweeping : ∀ runId ∈ s.sweeping, s.Ended runId ∧ s.deciding runId = none
  deciding : ∀ runId d, s.deciding runId = some d → s.Deliberates runId d

variable {o : Orchestrator} {s s' : Premises} {runId : RunId}

/-- Records may go, and guests may come and go with theirs. -/
theorem Cleared.kept (h : s.Cleared runId)
    (hkept : ∀ record ∈ s'.manager.records, record.runId = runId →
      s'.Guest record ∨ (record ∈ s.manager.records ∧ (s.Guest record → s'.Guest record))) :
    s'.Cleared runId := by
  intro record hmem hrun
  rcases hkept record hmem hrun with hguest | ⟨hold, hstays⟩
  · exact hguest
  · exact hstays (h record hold hrun)

/-- A planner that is not disturbed stays in its workspace. -/
theorem Guest.kept {record : WorkspaceRecord} (h : s.Guest record)
    (hplanning : ∀ token, s.planning token = some record.id → s'.planning token = some record.id)
    (hholders : ∀ token job lease, s.planning token = some record.id →
      s.system.holders token = some (.working job lease) →
      s'.system.holders token = some (.working job lease)) : s'.Guest record := by
  obtain ⟨token, job, lease, hplan, hholder, hrun⟩ := h
  exact ⟨token, job, lease, hplanning token hplan, hholders token job lease hplan hholder, hrun⟩

/-- A turn that leaves the decisions and the sweeps alone, and ends only vacant runs. -/
theorem Housed.turned (h : s.Housed) (hdeciding : s'.deciding = s.deciding)
    (hsweeping : s'.sweeping = s.sweeping)
    (hcleared : ∀ runId, s.Cleared runId → s'.Cleared runId)
    (hkeeps : ∀ runId, s.Ended runId → s'.Ended runId)
    (hends : ∀ runId, s'.Ended runId → s.Ended runId ∨ s.Vacant runId) : s'.Housed := by
  have hvacant : ∀ runId, s.Vacant runId → s'.Vacant runId := by
    intro runId hv
    refine ⟨hcleared runId hv.1, ?_⟩
    rw [hdeciding]
    exact hv.2
  constructor
  · intro runId hended
    rw [hsweeping]
    rcases hends runId hended with hold | hv
    · rcases h.vacant runId hold with hsweep | hv
      · exact .inl hsweep
      · exact .inr (hvacant runId hv)
    · exact .inr (hvacant runId hv)
  · intro runId hmem
    rw [hsweeping] at hmem
    obtain ⟨hended, hnone⟩ := h.sweeping runId hmem
    rw [hdeciding]
    exact ⟨hkeeps runId hended, hnone⟩
  · intro runId d hd
    rw [hdeciding] at hd
    have hold := h.deciding runId d hd
    refine ⟨hold.seen_id, hold.seen_live, hold.outcome_id, ?_⟩
    intro hfinal hacted
    exact hcleared runId (hold.released hfinal hacted)

/-! ### What each turn keeps -/

theorem move_housed (h : s.Housed) {move : Move} (hclears : s.Clears o (.move move)) :
    (s.step o (.move move)).Housed := by
  simp only [step]
  cases hrefuses : s.refuses move with
  | true => exact h
  | false =>
    simp only [Bool.false_eq_true, if_false]
    cases hstep : s.system.step o .calm move with
    | none => exact h
    | some next =>
      simp only [Option.getD_some]
      have hplain : System.Plain move := by
        cases move <;> first | exact trivial | simp [refuses] at hrefuses
      have hother : ∀ token id, s.planning token = some id → ∀ a, move ≠ .resume token a := by
        rintro token id hplan a rfl
        simp [refuses, hplan] at hrefuses
      refine h.turned rfl rfl ?_ ?_ ?_
      · intro runId hcleared
        refine hcleared.kept fun record hmem hrun => .inr ⟨hmem, fun hguest => ?_⟩
        refine hguest.kept (fun token hplan => hplan) ?_
        intro token job lease hplan hholder
        exact System.step_holders hstep hholder (hother token _ hplan)
      · intro runId hended
        exact (System.step_ended hplain hstep).1 hended
      · intro runId hended
        rcases (System.step_ended hplain hstep).2 hended with hold | hends
        · exact .inl hold
        · exact .inr (hclears runId hends)

theorem enterPlan_housed (h : s.Housed) {token : LeaseToken} {answer : Except String WorkspaceId} :
    (s.step o (.enterPlan token answer)).Housed := by
  simp only [step]
  split
  · rename_i job lease id hholder hplanning
    split
    · refine h.turned rfl rfl ?_ (fun _ hended => hended) (fun _ hended => .inl hended)
      intro runId hcleared
      refine hcleared.kept fun record hmem hrun => ?_
      rcases WorkspaceManager.mem_create.mp hmem with ⟨hold, -⟩ | rfl
      · refine .inr ⟨hold, fun hguest => hguest.kept ?_ fun _ _ _ _ hholder => hholder⟩
        intro other hplan
        have hne : other ≠ token := by
          rintro rfl
          rw [hplanning] at hplan
          cases hplan
        simp only [Function.update_of_ne hne]
        exact hplan
      · exact .inl ⟨token, job, lease, Function.update_self .., hholder, rfl⟩
    · exact h
  · exact h

theorem leavePlan_housed (h : s.Housed) {token : LeaseToken} :
    (s.step o (.leavePlan token)).Housed := by
  simp only [step]
  split
  · exact h
  · rename_i id hplanning
    refine h.turned rfl rfl ?_ (fun _ hended => hended) (fun _ hended => .inl hended)
    intro runId hcleared
    refine hcleared.kept fun record hmem hrun => ?_
    obtain ⟨hold, hne⟩ := WorkspaceManager.mem_release.mp hmem
    refine .inr ⟨hold, fun hguest => hguest.kept ?_ fun _ _ _ _ hholder => hholder⟩
    intro other hplan
    have hother : other ≠ token := by
      rintro rfl
      rw [hplanning, Option.some.injEq] at hplan
      exact hne hplan.symm
    simp only [Function.update_of_ne hother]
    exact hplan

/-- A decision is about the run whose row it read, and so is what it left. -/
theorem decision_run {ws : Workspaces} {now : Instant} {w : World} {kind : Deciding}
    {d : Decision} (h : o.decision ws now runId w kind = some d) :
    d.seen.id = runId ∧ ∀ p, d.outcome = .ok p → p.run.id = runId := by
  obtain ⟨hrow, hlive, -, -, -, hbranch⟩ := Orchestrator.decision_some h
  have hid : d.seen.id = runId := Table.find_key hrow
  refine ⟨hid, fun p hp => ?_⟩
  rcases hbranch with ⟨-, -, houtcome⟩ | ⟨-, project, houtcome⟩
  · rw [houtcome] at hp
    exact (Run.id_of_charter (Orchestrator.openFirstStage_sound hp).charter).trans hid
  · rw [houtcome] at hp
    exact (Run.id_of_charter (Orchestrator.nextStep_sound hlive hp).charter).trans hid

theorem read_housed (h : s.Housed) {kind : Deciding} {ws : Workspaces} {now : Instant} :
    (s.step o (.read kind ws now runId)).Housed := by
  simp only [step]
  split
  · rename_i d hnone hd
    obtain ⟨hrow, hlive, -, hacted, -⟩ := Orchestrator.decision_some hd
    obtain ⟨hid, hleft⟩ := decision_run hd
    have hopen : ¬ s.Ended runId := by
      rintro ⟨run, hrun, hterminal⟩
      rw [hrow, Option.some.injEq] at hrun
      rw [hrun, hterminal] at hlive
      cases hlive
    constructor
    · intro other hended
      have hne : other ≠ runId := by
        rintro rfl
        exact hopen hended
      rcases h.vacant other hended with hsweep | hv
      · exact .inl hsweep
      · refine .inr ⟨hv.1, ?_⟩
        simp only [Function.update_of_ne hne]
        exact hv.2
    · intro other hmem
      obtain ⟨hended, hfree⟩ := h.sweeping other hmem
      have hne : other ≠ runId := by
        rintro rfl
        exact hopen hended
      refine ⟨hended, ?_⟩
      simp only [Function.update_of_ne hne]
      exact hfree
    · intro other found hfound
      by_cases hother : other = runId
      · subst hother
        simp only [Function.update_self, Option.some.injEq] at hfound
        subst hfound
        refine ⟨hid, hlive, hleft, ?_⟩
        intro _ hcontra
        rw [hacted] at hcontra
        cases hcontra
      · simp only [Function.update_of_ne hother] at hfound
        have hold := h.deciding other found hfound
        exact ⟨hold.seen_id, hold.seen_live, hold.outcome_id, hold.released⟩
  · exact h

/-- A decision opens workspaces of its own run only, and leaves none of an ended one. -/
theorem mem_act {d : Decision} {manager : WorkspaceManager} {record : WorkspaceRecord}
    (h : record ∈ (d.act manager).records) :
    (record ∈ manager.records ∨ (record.runId = d.seen.id ∧ d.created ≠ [])) ∧
      (d.ends = true → record.runId ≠ d.seen.id) := by
  have hcreated : record ∈
      (d.created.foldl (fun manager id => manager.create d.seen.id id) manager).records →
      record ∈ manager.records ∨ (record.runId = d.seen.id ∧ d.created ≠ []) := by
    intro hmem
    cases hlist : d.created with
    | nil =>
      rw [hlist] at hmem
      exact .inl hmem
    | cons first rest =>
      rcases WorkspaceManager.mem_creates hmem with hold | hrun
      · exact .inl hold
      · exact .inr ⟨hrun, by simp⟩
  unfold Decision.act at h
  simp only at h
  split at h
  · obtain ⟨hmem, hrun⟩ := WorkspaceManager.mem_releaseRun h
    exact ⟨hcreated hmem, fun _ => hrun⟩
  · rename_i hends
    exact ⟨hcreated h, fun hcontra => absurd hcontra hends⟩

theorem act_housed (h : s.Housed) : (s.step o (.act runId)).Housed := by
  simp only [step]
  split
  · exact h
  · rename_i d hd
    split
    · exact h
    · rename_i hacted
      have hacted : d.acted = false := by simpa using hacted
      have hdelib := h.deciding runId d hd
      have hcleared : ∀ other, s.Cleared other → (other = runId → d.created = []) →
          Cleared { s with
            manager := d.act s.manager
            deciding := Function.update s.deciding runId (some { d with acted := true }) } other := by
        intro other hclear hnothing
        refine hclear.kept fun record hmem hrun => ?_
        rcases mem_act hmem with ⟨hold | ⟨hown, hsome⟩, -⟩
        · exact .inr ⟨hold, fun hguest => hguest⟩
        · exact absurd (hnothing (hrun.symm.trans (hown.trans hdelib.seen_id))) hsome
      constructor
      · intro other hended
        rcases h.vacant other hended with hsweep | hv
        · exact .inl hsweep
        · refine .inr ⟨hcleared other hv.1 ?_, ?_⟩
          · rintro rfl
            exact hv.2 d hd hacted
          · intro found hfound hnot
            by_cases hother : other = runId
            · subst hother
              simp only [Function.update_self, Option.some.injEq] at hfound
              subst hfound
              cases hnot
            · simp only [Function.update_of_ne hother] at hfound
              exact hv.2 found hfound hnot
      · intro other hmem
        obtain ⟨hended, hfree⟩ := h.sweeping other hmem
        have hother : other ≠ runId := by
          rintro rfl
          rw [hd] at hfree
          cases hfree
        refine ⟨hended, ?_⟩
        simp only [Function.update_of_ne hother]
        exact hfree
      · intro other found hfound
        by_cases hother : other = runId
        · subst hother
          simp only [Function.update_self, Option.some.injEq] at hfound
          subst hfound
          refine ⟨hdelib.seen_id, hdelib.seen_live, hdelib.outcome_id, ?_⟩
          intro hends _ record hmem hrun
          exact absurd (hrun.trans hdelib.seen_id.symm) ((mem_act hmem).2 hends)
        · simp only [Function.update_of_ne hother] at hfound
          have hold := h.deciding other found hfound
          refine ⟨hold.seen_id, hold.seen_live, hold.outcome_id, ?_⟩
          intro hends hdone
          exact hcleared other (hold.released hends hdone) fun heq => absurd heq hother

/-- A decision that is over leaves the lock and nothing else. -/
theorem unlock_housed (h : s.Housed) (runId : RunId) :
    Housed { s with deciding := Function.update s.deciding runId none } := by
  constructor
  · intro other hended
    rcases h.vacant other hended with hsweep | hv
    · exact .inl hsweep
    · refine .inr ⟨hv.1, ?_⟩
      intro found hfound hnot
      by_cases hother : other = runId
      · subst hother
        simp only [Function.update_self] at hfound
        cases hfound
      · simp only [Function.update_of_ne hother] at hfound
        exact hv.2 found hfound hnot
  · intro other hmem
    obtain ⟨hended, hfree⟩ := h.sweeping other hmem
    refine ⟨hended, ?_⟩
    by_cases hother : other = runId
    · subst hother
      exact Function.update_self ..
    · simp only [Function.update_of_ne hother]
      exact hfree
  · intro other found hfound
    by_cases hother : other = runId
    · subst hother
      simp only [Function.update_self] at hfound
      cases hfound
    · simp only [Function.update_of_ne hother] at hfound
      have hold := h.deciding other found hfound
      exact ⟨hold.seen_id, hold.seen_live, hold.outcome_id, hold.released⟩

theorem unchanged_status {seen row : Run} (h : seen.unchanged row = true) :
    seen.status = row.status := by
  simp only [Run.unchanged, Bool.and_eq_true, beq_iff_eq] at h
  exact h.1.1.1.1.1.1.1.1.1.1.1

theorem finish_housed (h : s.Housed) {accepted : Bool} :
    (s.step o (.finish runId accepted)).Housed := by
  simp only [step]
  split
  · exact h
  · rename_i d hd
    have hdelib := h.deciding runId d hd
    have hfree := unlock_housed h runId
    unfold finished
    simp only
    split
    · rename_i p row hp hrow
      split
      · rename_i hcommits
        have hid : p.run.id = runId := hdelib.outcome_id p hp
        have hlive : row.isTerminal = false := by
          unfold Run.isTerminal
          rw [← unchanged_status hcommits.2.2]
          exact hdelib.seen_live
        have hread : s.system.world.db.run? p.run.id = some row := by
          rw [hid]
          exact hrow
        have hput : ∀ other, (s.system.world.db.store p d.now).Ended other ↔
            if other = p.run.id then p.run.isTerminal = true
            else s.system.world.db.Ended other :=
          fun other => Db.ended_put other hread rfl
        have hopen : ¬ s.Ended runId := by
          rintro ⟨run, hrun, hterminal⟩
          rw [hrow, Option.some.injEq] at hrun
          rw [hrun, hterminal] at hlive
          cases hlive
        refine hfree.turned rfl rfl (fun _ hcleared => hcleared) ?_ ?_
        · intro other hended
          have hother : other ≠ p.run.id := by
            rw [hid]
            rintro rfl
            exact hopen hended
          exact (hput other).mpr (by rw [if_neg hother]; exact hended)
        · intro other hended
          have hstored := (hput other).mp hended
          split at hstored
          · rename_i hother
            have hends : d.ends = true := by
              unfold Decision.ends
              rw [hp]
              exact hstored
            rw [hother, hid]
            refine .inr ⟨hdelib.released hends hcommits.2.1, ?_⟩
            intro found hfound
            simp only [Function.update_self] at hfound
            cases hfound
          · exact .inl hstored
      · exact hfree
    · exact hfree

theorem bury_housed (h : s.Housed) {n : Nat} {now : Instant} :
    (s.step o (.bury n now)).Housed := by
  simp only [step]
  split
  · exact h
  · rename_i job hjob
    split
    · exact h
    · rename_i hlock
      have hfree : s.deciding job.runId = none := by simpa using hlock
      have hrest : Housed { s with
          system := { s.system with dead := s.system.dead.eraseIdx n } } :=
        h.turned rfl rfl (fun _ hcleared => hcleared) (fun _ hended => hended)
          (fun _ hended => .inl hended)
      unfold buried
      simp only
      split
      · exact hrest
      · rename_i run hrow
        split
        · exact hrest
        · rename_i hlive
          have hlive : run.isTerminal = false := by simpa using hlive
          have hended : ∀ other, (Orchestrator.handleDeadJob now job s.system.world).self.db.Ended
              other ↔ other = job.runId ∨ s.system.world.db.Ended other :=
            fun other => Orchestrator.handleDeadJob_ended other now hrow hlive
          constructor
          · intro other hother
            rcases (hended other).mp hother with rfl | hold
            · exact .inl (List.mem_append_right _ (List.mem_singleton_self _))
            · rcases h.vacant other hold with hsweep | hv
              · exact .inl (List.mem_append_left _ hsweep)
              · exact .inr hv
          · intro other hmem
            rcases List.mem_append.mp hmem with hmem | hmem
            · obtain ⟨hold, hnone⟩ := h.sweeping other hmem
              exact ⟨(hended other).mpr (.inr hold), hnone⟩
            · have heq := List.mem_singleton.mp hmem
              subst heq
              exact ⟨(hended _).mpr (.inl rfl), hfree⟩
          · intro other d hd
            have hold := h.deciding other d hd
            exact ⟨hold.seen_id, hold.seen_live, hold.outcome_id, hold.released⟩

theorem sweep_housed (h : s.Housed) : (s.step o (.sweep runId)).Housed := by
  simp only [step]
  split
  · rename_i hmem
    obtain ⟨hended, hnone⟩ := h.sweeping runId hmem
    have hcleared : ∀ other, s.Cleared other ∨ other = runId →
        Cleared { s with
          manager := s.manager.releaseRun runId
          sweeping := s.sweeping.erase runId } other := by
      intro other hother record hrecord hrun
      obtain ⟨hold, hne⟩ := WorkspaceManager.mem_releaseRun hrecord
      rcases hother with hclear | heq
      · exact hclear record hold hrun
      · exact absurd (hrun.trans heq) hne
    constructor
    · intro other hother
      by_cases heq : other = runId
      · subst heq
        refine .inr ⟨hcleared other (.inr rfl), ?_⟩
        intro found hfound
        have hfound : s.deciding other = some found := hfound
        rw [hnone] at hfound
        cases hfound
      · rcases h.vacant other hother with hsweep | hv
        · exact .inl ((List.mem_erase_of_ne heq).mpr hsweep)
        · exact .inr ⟨hcleared other (.inl hv.1), hv.2⟩
    · intro other hother
      exact h.sweeping other (List.mem_of_mem_erase hother)
    · intro other d hd
      have hold := h.deciding other d hd
      exact ⟨hold.seen_id, hold.seen_live, hold.outcome_id,
        fun hends hacted => hcleared other (.inl (hold.released hends hacted))⟩
  · exact h

/-- **One turn**: only a cancellation or a reported failure can leave workspaces behind. -/
theorem step_housed (h : s.Housed) (turn : Turn) (hclears : s.Clears o turn) :
    (s.step o turn).Housed := by
  cases turn with
  | move move => exact move_housed h hclears
  | enterPlan token answer => exact enterPlan_housed h
  | leavePlan token => exact leavePlan_housed h
  | read kind ws now runId => exact read_housed h
  | act runId => exact act_housed h
  | finish runId accepted => exact finish_housed h
  | bury n now => exact bury_housed h
  | sweep runId => exact sweep_housed h

theorem empty_housed (w : World) : (empty w).Housed := by
  constructor
  · intro runId _
    refine .inr ⟨?_, ?_⟩
    · intro record hmem
      cases hmem
    · intro d hd
      cases hd
  · intro runId hmem
    cases hmem
  · intro runId d hd
    cases hd

/-- The state after some turns. -/
abbrev after (o : Orchestrator) (w : World) (turns : List Turn) : Premises :=
  Runs.after (step o) (empty w) turns

/-- Every `execute` call for a job of the run has returned. -/
def Returned (s : Premises) (runId : RunId) : Prop :=
  ∀ token holder job lease, s.system.holders token = some holder →
    holder.copy = some (job, lease) → job.runId ≠ runId

/-- **No workspace outlives its run**, as long as no cancellation and no reported failure
    ends a run that has a candidate's workspace or is about to get one: once the run is
    terminal, its `execute` calls have returned and `handle_dead_job` is through, the
    manager holds no workspace of it. -/
theorem workspaces_released (o : Orchestrator) (w : World) (turns : List Turn)
    (hclears : Runs.Along (step o) (Clears o) (empty w) turns) {runId : RunId}
    (hended : (after o w turns).Ended runId) (hreturned : (after o w turns).Returned runId)
    (hswept : runId ∉ (after o w turns).sweeping) :
    ∀ record ∈ (after o w turns).manager.records, record.runId ≠ runId := by
  have hhoused : (after o w turns).Housed :=
    hclears.invariant (empty_housed w) fun s turn h hc => step_housed h turn hc
  intro record hmem hrun
  rcases hhoused.vacant runId hended with hsweep | hv
  · exact hswept hsweep
  · obtain ⟨token, job, lease, -, hholder, hjob⟩ := hv.1 record hmem hrun
    exact hreturned token _ job lease hholder rfl (hjob.trans hrun)

end Premises

namespace Sample

/-- `_advance` opens the candidates of a fresh run without interruption. -/
def openingTurns : List Turn :=
  [.read .advance .calm 5 ⟨2⟩, .act ⟨2⟩, .finish ⟨2⟩ true]

/-- The only attempt is claimed, lapses and is given up; then its holder comes back. -/
def lapsingTurns : List Turn :=
  openingTurns ++
    [.move (.publish 0), .move (.claim consumer [.code] 120000000 10 token),
      .move (.reclaim 120000010 100), .move (.expire 0 120000020), .bury 0 120000030, .sweep ⟨2⟩,
      .move (.resume token (coderAnswers 120000040)),
      .move (.resume token (coderAnswers 120000050))]

/-- The run is cancelled once its candidates are open. -/
def cancellingTurns : List Turn :=
  openingTurns ++ [.move (.cancel 6 ⟨2⟩ none), .move (.dropJobs 0)]

end Sample

namespace Premises

/-- Nobody is told to stop, and the one holder never reports a failure. -/
theorem lapsingTurns_clears :
    Runs.Along (step (Sample.orchestrator 1 (by decide))) (Clears (Sample.orchestrator 1 (by decide)))
      (empty (Sample.tightWorld 1)) Sample.lapsingTurns := by
  refine ⟨trivial, trivial, trivial, ?_, ?_, ?_, ?_, trivial, trivial, ?_, ?_, trivial⟩
  · exact fun _ hends => hends.elim
  · exact fun _ hends => hends.elim
  · exact fun _ hends => hends.elim
  · exact fun _ hends => hends.elim
  · rintro runId ⟨job, lease, e, hholder, -⟩
    cases hholder
  · rintro runId ⟨job, lease, e, hholder, -⟩
    cases hholder

/-- The workspace of the given-up run is gone. -/
theorem workspaces_released_sample :
    (after (Sample.orchestrator 1 (by decide)) (Sample.tightWorld 1) Sample.lapsingTurns).Ended ⟨2⟩ ∧
      ∀ record ∈ (after (Sample.orchestrator 1 (by decide)) (Sample.tightWorld 1)
        Sample.lapsingTurns).manager.records, record.runId ≠ ⟨2⟩ := by
  refine ⟨⟨_, rfl, rfl⟩, ?_⟩
  apply workspaces_released (Sample.orchestrator 1 (by decide)) (Sample.tightWorld 1)
    Sample.lapsingTurns lapsingTurns_clears
  · exact ⟨_, rfl, rfl⟩
  · intro token holder job lease hholder
    by_cases htoken : token = Sample.token
    · subst htoken
      cases hholder
    · have hholders : (after (Sample.orchestrator 1 (by decide)) (Sample.tightWorld 1)
          Sample.lapsingTurns).system.holders =
          Function.update (Function.update (Function.update (fun _ => none) Sample.token _)
            Sample.token _) Sample.token none := rfl
      rw [hholders] at hholder
      simp only [Function.update_of_ne htoken] at hholder
      cases hholder
  · decide +kernel

/-- A cancelled run keeps its candidate's workspace, with nothing left to execute. -/
theorem cancelled_run_keeps_workspace :
    let s := after (Sample.orchestrator 1 (by decide)) (Sample.tightWorld 1) Sample.cancellingTurns
    s.Ended ⟨2⟩ ∧ s.Returned ⟨2⟩ ∧ s.sweeping = [] ∧ s.manager.records = [⟨⟨0⟩, ⟨2⟩⟩] := by
  refine ⟨⟨_, rfl, rfl⟩, ?_, rfl, by decide +kernel⟩
  intro token holder job lease hholder
  cases hholder

end Premises

end AgenticPlatform
