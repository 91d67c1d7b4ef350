import AgenticPlatform.Interleaving
import AgenticPlatform.RunTransactions
import AgenticPlatform.Runs

/-!
# The coder budget

A candidate goes to the coder when it is opened and once more for each repair of its
run. `max_repair_iterations` is checked before a repair; `max_coder_iterations` is stored
with the run and checked nowhere. So what bounds a candidate's coder iterations, over
every interleaving of holders, maintenance and cancellation, is the repair budget. The
interleaving is one of whole transactions.
-/

namespace AgenticPlatform

/-- The run kept to its repair budget, and its repairs account for every coder iteration
    of its candidates after the first. -/
structure Run.Covers (run : Run) (candidates : List Candidate) : Prop where
  repairs : run.repairIterations ≤ run.limits.maxRepairIterations
  coding : ∀ candidate ∈ candidates, candidate.runId = run.id →
    candidate.coderIterations ≤ run.repairIterations + 1

/-- Every stored run covers the stored candidates. -/
def Db.Covered (db : Db) : Prop :=
  ∀ id run, db.run? id = some run → run.Covers db.candidates

namespace Db

/-- No run was repaired and no candidate sent to the coder in between. -/
structure Kept (db db' : Db) : Prop where
  runs : ∀ id run, db'.run? id = some run → ∃ old, db.run? id = some old ∧
    run.charter = old.charter ∧ run.repairIterations = old.repairIterations
  candidates : ∀ candidate ∈ db'.candidates, ∃ old ∈ db.candidates,
    candidate.runId = old.runId ∧ candidate.coderIterations = old.coderIterations

variable {db db' db'' : Db}

theorem Kept.covered (h : Kept db db') (hcovered : db.Covered) : db'.Covered := by
  intro id run hrun
  obtain ⟨old, hold, hcharter, hrepairs⟩ := h.runs id run hrun
  have hcovers := hcovered id old hold
  constructor
  · rw [hrepairs, Run.limits_of_charter hcharter]
    exact hcovers.repairs
  · intro candidate hmem hrunId
    obtain ⟨before, hbefore, hsame, hcoder⟩ := h.candidates candidate hmem
    rw [hcoder, hrepairs]
    apply hcovers.coding before hbefore
    rw [← hsame, hrunId]
    exact Run.id_of_charter hcharter

theorem Kept.refl (db : Db) : Kept db db := by
  constructor
  · intro id run hrun
    exact ⟨run, hrun, rfl, rfl⟩
  · intro candidate hmem
    exact ⟨candidate, hmem, rfl, rfl⟩

theorem Kept.trans (h : Kept db db') (h' : Kept db' db'') : Kept db db'' := by
  constructor
  · intro id run hrun
    obtain ⟨mid, hmid, hcharter, hrepairs⟩ := h'.runs id run hrun
    obtain ⟨old, hold, hcharter', hrepairs'⟩ := h.runs id mid hmid
    exact ⟨old, hold, hcharter.trans hcharter', hrepairs.trans hrepairs'⟩
  · intro candidate hmem
    obtain ⟨mid, hmid, hrunId, hcoder⟩ := h'.candidates candidate hmem
    obtain ⟨old, hold, hrunId', hcoder'⟩ := h.candidates mid hmid
    exact ⟨old, hold, hrunId.trans hrunId', hcoder.trans hcoder'⟩

/-- Jobs, events and documents do not matter. -/
theorem Kept.of_tables (hruns : db'.runs = db.runs) (hcandidates : db'.candidates = db.candidates) :
    Kept db db' := by
  constructor
  · intro id run hrun
    have hrow : db.run? id = some run := by
      unfold run? at hrun ⊢
      rwa [hruns] at hrun
    exact ⟨run, hrow, rfl, rfl⟩
  · intro candidate hmem
    rw [hcandidates] at hmem
    exact ⟨candidate, hmem, rfl, rfl⟩

/-- A run row is overwritten by the same run, with the repairs it had. -/
theorem Kept.of_put {run old : Run} (hrow : db.run? run.id = some old)
    (hcharter : run.charter = old.charter) (hrepairs : run.repairIterations = old.repairIterations)
    (hruns : db'.runs = Table.put Run.id db.runs run.stored)
    (hcandidates : ∀ candidate ∈ db'.candidates, ∃ old ∈ db.candidates,
      candidate.runId = old.runId ∧ candidate.coderIterations = old.coderIterations) :
    Kept db db' := by
  refine ⟨?_, hcandidates⟩
  intro id found hfound
  have hput : db'.run? id = (db.setRun run).run? id := by
    unfold run? setRun
    rw [hruns]
  rw [hput, run?_setRun hrow] at hfound
  split at hfound
  · rename_i hid
    cases hfound
    exact ⟨old, hid ▸ hrow, hcharter, hrepairs⟩
  · exact ⟨found, hfound, rfl, rfl⟩

theorem Kept.setRun {run old : Run} (hrow : db.run? run.id = some old)
    (hcharter : run.charter = old.charter)
    (hrepairs : run.repairIterations = old.repairIterations) : Kept db (db.setRun run) :=
  .of_put hrow hcharter hrepairs rfl fun candidate hmem => ⟨candidate, hmem, rfl, rfl⟩

theorem Kept.setCandidate {candidate old : Candidate} (hold : old ∈ db.candidates)
    (hrunId : candidate.runId = old.runId)
    (hcoder : candidate.coderIterations = old.coderIterations) :
    Kept db (db.setCandidate candidate) := by
  refine ⟨fun id run hrun => ⟨run, hrun, rfl, rfl⟩, ?_⟩
  intro other hmem
  rcases Table.mem_put.mp hmem with ⟨rfl, -⟩ | ⟨hmem, -⟩
  · exact ⟨old, hold, hrunId, hcoder⟩
  · exact ⟨other, hmem, rfl, rfl⟩

end Db

/-! ### What leaves the budgets alone -/

namespace Orchestrator

variable {o : Orchestrator} {a : Answers} {job : Job} {w : World} {db db' : Db} {effect : Effect}

theorem startRepair_coderIterations (target : Candidate) (now : Instant)
    (hlive : target.status.isTerminal = false) :
    (target.startRepair now).self.coderIterations = target.coderIterations + 1 := by
  simp [Candidate.startRepair, hlive, Candidate.record]

theorem settle_coderIterations (o : Orchestrator) (now : Instant) (project : Project)
    (candidate : Candidate) :
    (o.settle now project candidate).coderIterations = candidate.coderIterations := by
  unfold settle
  split
  · rename_i h
    simp [Candidate.recordValidation, h.1, Candidate.record]
  · rfl

theorem crown_coderIterations (now : Instant) (winner candidate : Candidate) :
    (crown now winner candidate).coderIterations = candidate.coderIterations := by
  unfold crown
  split
  · unfold Candidate.select
    split
    · rfl
    · split <;> rfl
  · unfold Candidate.reject
    split <;> rfl

/-- A submitted patch costs no further coder iteration. -/
theorem runCoder_candidate (h : runCoder a job w = .ok effect) {changed : Candidate}
    (hchanged : effect.candidate = some changed) :
    ∃ old, w.db.candidate? old.id = some old ∧ changed.runId = old.runId ∧
      changed.coderIterations = old.coderIterations := by
  unfold runCoder at h
  obtain ⟨candidateId, -, h⟩ := bind_eq_ok.mp h
  obtain ⟨run, -, h⟩ := bind_eq_ok.mp h
  obtain ⟨-, -, h⟩ := bind_eq_ok.mp h
  obtain ⟨candidate, hcandidate, h⟩ := bind_eq_ok.mp h
  obtain ⟨-, -, h⟩ := bind_eq_ok.mp h
  obtain ⟨outcome, -, h⟩ := bind_eq_ok.mp h
  obtain ⟨-, -, h⟩ := bind_eq_ok.mp h
  obtain ⟨submitted, hsubmitted, h⟩ := bind_eq_ok.mp h
  obtain ⟨validating, hvalidating, h⟩ := bind_eq_ok.mp h
  simp only [pure_eq_ok, Except.ok.injEq] at h
  subst h
  cases hchanged
  have hrow := Db.requireCandidate_ok hcandidate
  have hid : candidate.id = candidateId := Table.find_key hrow
  unfold Candidate.submitPatch at hsubmitted
  unfold Candidate.startValidation at hvalidating
  split at hsubmitted
  · cases hsubmitted
    split at hvalidating
    · cases hvalidating
      exact ⟨candidate, hid ▸ hrow, rfl, rfl⟩
    · cases hvalidating
  · cases hsubmitted

/-- The candidate a stage stores is one it read, with the same coder iterations. -/
theorem stageEffect_candidate (h : o.stageEffect a job w = .ok effect) {changed : Candidate}
    (hchanged : effect.candidate = some changed) :
    ∃ old ∈ w.db.candidates, changed.runId = old.runId ∧
      changed.coderIterations = old.coderIterations := by
  rcases stageEffect_ok h with ⟨-, run, run', outcome, hp⟩ |
    ⟨htype, run, old, coded, outcome, hp⟩ | ⟨stage, -, run, project, old, coded, results, hp⟩ |
    ⟨-, run, old, outcome, hp⟩
  · rw [hp.candidate_eq] at hchanged
    cases hchanged
  · simp only [stageEffect, htype] at h
    obtain ⟨before, hbefore, hrunId, hcoder⟩ := runCoder_candidate h hchanged
    exact ⟨before, Table.mem_of_find hbefore, hrunId, hcoder⟩
  · rw [hp.candidate_eq, Option.some.injEq] at hchanged
    subst hchanged
    refine ⟨old, Table.mem_of_find hp.candidate_row, ?_, ?_⟩ <;> rw [hp.changed_eq]
  · rw [hp.candidate_eq, Option.some.injEq] at hchanged
    subst hchanged
    exact ⟨old, Table.mem_of_find hp.candidate_row, rfl, rfl⟩

/-- The run a stage stores is the one it read, with the same repairs. -/
theorem stageEffect_run (h : o.stageEffect a job w = .ok effect) {changed : Run}
    (hchanged : effect.run = some changed) :
    ∃ old, w.db.run? changed.id = some old ∧ changed.charter = old.charter ∧
      changed.repairIterations = old.repairIterations := by
  have hread : ∀ {old : Run}, w.db.run? job.runId = some old → changed.charter = old.charter →
      changed.repairIterations = old.repairIterations →
      ∃ old, w.db.run? changed.id = some old ∧ changed.charter = old.charter ∧
        changed.repairIterations = old.repairIterations := by
    intro old hrow hcharter hrepairs
    have hid : changed.id = job.runId := (Run.id_of_charter hcharter).trans (Table.find_key hrow)
    exact ⟨old, hid ▸ hrow, hcharter, hrepairs⟩
  rcases stageEffect_ok h with ⟨-, run, run', outcome, hp⟩ |
    ⟨-, run, old, coded, outcome, hp⟩ | ⟨stage, -, run, project, old, coded, results, hp⟩ |
    ⟨-, run, old, outcome, hp⟩
  · rw [hp.run_eq, Option.some.injEq] at hchanged
    subst hchanged
    exact hread hp.run_row hp.charter hp.repairIterations
  · rw [hp.run_eq, Option.some.injEq] at hchanged
    subst hchanged
    exact hread hp.run_row rfl rfl
  · rw [hp.run_eq] at hchanged
    cases hchanged
  · rw [hp.run_eq, Option.some.injEq] at hchanged
    subst hchanged
    exact hread hp.run_row rfl rfl

theorem complete_candidates (h : o.stageEffect a job w = .ok effect) (done : Job) :
    ∀ candidate ∈ (w.db.complete effect done).candidates, ∃ old ∈ w.db.candidates,
      candidate.runId = old.runId ∧ candidate.coderIterations = old.coderIterations := by
  intro candidate hmem
  cases heq : effect.candidate with
  | none =>
    rw [candidates_complete, heq] at hmem
    exact ⟨candidate, hmem, rfl, rfl⟩
  | some changed =>
    obtain ⟨old, hold, hrunId, hcoder⟩ := stageEffect_candidate h heq
    rw [candidates_complete, heq] at hmem
    exact (Db.Kept.setCandidate hold hrunId hcoder).candidates candidate hmem

theorem complete_kept (h : o.stageEffect a job w = .ok effect) (done : Job) :
    Db.Kept w.db (w.db.complete effect done) := by
  have hruns : Db.Kept w.db (w.db.withRun effect.run) := by
    cases heq : effect.run with
    | none => exact .refl _
    | some run =>
      obtain ⟨old, hrow, hcharter, hrepairs⟩ := stageEffect_run h heq
      exact .setRun hrow hcharter hrepairs
  refine ⟨?_, complete_candidates h done⟩
  intro id run hrow
  rw [run?_complete] at hrow
  exact hruns.runs id run hrow

theorem updateJob_kept {changed : Job} (h : db.updateJob changed = .ok db') : Db.Kept db db' := by
  obtain ⟨-, rfl⟩ := Db.updateJob_eq_ok h
  exact .of_tables rfl rfl

theorem cancelling_kept (h : (cancelling a job db).result = .ok db') : Db.Kept db db' := by
  unfold cancelling at h
  simp only at h
  split at h
  · cases h
  · split at h
    · cases h
    · rename_i stored hstored
      split at h
      · cases h
      · cases h
        exact updateJob_kept hstored

/-- Failing a live run changes neither its limits nor its repairs. -/
theorem fail_kept {run failed : Run} {now : Instant} {kind : FailureKind} {reason : String}
    {runId : RunId} (hrow : db.run? runId = some run) (hlive : run.isTerminal = false)
    (h : (run.fail now kind reason).after = .ok failed) : Db.Kept db (db.setRun failed) := by
  have hid : run.id = runId := Table.find_key hrow
  have hstatus : run.status.isTerminal = false := hlive
  unfold Run.fail at h
  rw [if_neg (by simp [hstatus])] at h
  obtain ⟨-, rfl⟩ := Run.transitioning_after.mp h
  have hread : db.run? run.id = some run := by
    rw [hid]
    exact hrow
  exact .setRun hread rfl rfl

theorem recordFailure_kept {now : Instant} {e : PyError} {retryable : Bool}
    (h : recordFailure now job e retryable db = .ok db') : Db.Kept db db' := by
  unfold recordFailure at h
  obtain ⟨stored, hstored, h⟩ := bind_eq_ok.mp h
  have hjob := updateJob_kept hstored
  obtain ⟨-, rfl⟩ := Db.updateJob_eq_ok hstored
  split at h
  · cases h
    exact .of_tables rfl rfl
  · rename_i run hrun
    split at h
    · rename_i hlive
      obtain ⟨failed, hfailed, h⟩ := bind_eq_ok.mp h
      cases h
      have hread : (db.setJob (job.fail none now (classify e) e.str (some retryable)).self).run?
          job.runId = some run := hrun
      apply hjob.trans
      exact (fail_kept hread hlive.2.1 hfailed).trans (.of_tables rfl rfl)
    · cases h
      exact .of_tables rfl rfl

theorem handleDeadJob_kept (now : Instant) (job : Job) (w : World) :
    Db.Kept w.db (handleDeadJob now job w).self.db := by
  unfold handleDeadJob
  split
  · exact .refl _
  · rename_i run hrun
    split
    · exact .refl _
    · rename_i hlive
      split
      · exact .refl _
      · rename_i failed hfailed
        exact (fail_kept hrun (by simpa using hlive) hfailed).trans (.of_tables rfl rfl)

end Orchestrator

theorem Candidate.cancel_frame (candidate : Candidate) (now : Instant) :
    (candidate.cancel now).runId = candidate.runId ∧
      (candidate.cancel now).coderIterations = candidate.coderIterations := by
  unfold Candidate.cancel
  split <;> exact ⟨rfl, rfl⟩

theorem cancelRunCommit_kept {now : Instant} {runId : RunId} {reason : Option String} {db db' : Db}
    (h : cancelRunCommit now runId reason db = .ok (some db')) : Db.Kept db db' := by
  obtain ⟨old, run, hold, -, -, -, -, hcharter, hrepairs, -, rfl⟩ := Db.cancelRunCommit_ok h
  have hid : run.id = runId := (Run.id_of_charter hcharter).trans (Table.find_key hold)
  refine .of_put (hid ▸ hold) hcharter hrepairs rfl ?_
  intro candidate hmem
  rcases Table.mem_putAll hmem with hmem | hmem
  · exact ⟨candidate, hmem, rfl, rfl⟩
  · obtain ⟨cancelled, hcancelled, rfl⟩ := List.mem_map.mp hmem
    obtain ⟨before, hbefore, rfl⟩ := List.mem_map.mp hcancelled
    have hframe := before.cancel_frame now
    exact ⟨before, (Db.mem_candidatesOf.mp hbefore).1, hframe.1, hframe.2⟩

/-! ### Decisions -/

namespace Orchestrator

variable {o : Orchestrator} {ws : Workspaces} {now : Instant} {issued : Nat} {run : Run}
  {project : Project} {candidates : List Candidate} {p : Progress}

/-- The repairs a decision leaves pay for the candidates it leaves. -/
structure Paid (run : Run) (p : Progress) : Prop where
  repairs : run.repairIterations ≤ p.run.repairIterations
  kept : ∀ candidate ∈ p.candidates, candidate.coderIterations ≤ p.run.repairIterations + 1
  opened : ∀ candidate ∈ p.opened, candidate.coderIterations ≤ p.run.repairIterations + 1

theorem openCandidate_coderIterations {index : Nat} {candidate : Candidate} {job : Job}
    (h : o.openCandidate ws now run issued index = .ok (candidate, job)) :
    candidate.coderIterations = 1 := by
  unfold openCandidate at h
  obtain ⟨workspace, -, h⟩ := bind_eq_ok.mp h
  obtain ⟨attached, hattached, h⟩ := bind_eq_ok.mp h
  obtain ⟨coding, hcoding, h⟩ := bind_eq_ok.mp h
  cases hattached
  cases hcoding
  cases h
  rfl

theorem openEach_coderIterations {indexes : List Nat} {opened : List (Candidate × Job)}
    (h : o.openEach ws now run issued indexes = .ok opened) :
    ∀ pair ∈ opened, pair.1.coderIterations = 1 := by
  induction indexes generalizing issued opened with
  | nil =>
    cases h
    simp
  | cons index rest ih =>
    obtain ⟨⟨candidate, job⟩, hfirst, h⟩ := bind_eq_ok.mp h
    obtain ⟨others, hothers, h⟩ := bind_eq_ok.mp h
    cases h
    intro pair hpair
    rcases List.mem_cons.mp hpair with rfl | hpair
    · exact openCandidate_coderIterations hfirst
    · exact ih hothers pair hpair

theorem openCandidates_paid {coding : Run}
    (hspent : ∀ candidate ∈ candidates, candidate.coderIterations ≤ run.repairIterations + 1)
    (hcoding : (run.startCoding now).after = .ok coding)
    (h : o.openCandidates ws now issued coding candidates = .ok p) : Paid run p := by
  obtain ⟨-, rfl⟩ := Run.transitioning_after.mp hcoding
  unfold openCandidates at h
  obtain ⟨opened, hopened, h⟩ := bind_eq_ok.mp h
  cases h
  refine ⟨Nat.le_refl _, hspent, ?_⟩
  intro candidate hmem
  obtain ⟨pair, hpair, rfl⟩ := List.mem_map.mp hmem
  rw [openEach_coderIterations hopened pair hpair]
  exact Nat.succ_le_succ (Nat.zero_le _)

theorem openFirstStage_paid
    (hspent : ∀ candidate ∈ candidates, candidate.coderIterations ≤ run.repairIterations + 1)
    (h : o.openFirstStage ws now issued run candidates = .ok p) : Paid run p := by
  unfold openFirstStage at h
  split at h
  · obtain ⟨planning, hplanning, h⟩ := bind_eq_ok.mp h
    obtain ⟨-, rfl⟩ := Run.transitioning_after.mp hplanning
    cases h
    exact ⟨Nat.le_refl _, hspent, by simp⟩
  · obtain ⟨coding, hcoding, h⟩ := bind_eq_ok.mp h
    exact openCandidates_paid hspent hcoding h

/-- A decision that opens nothing and leaves the repairs alone. -/
theorem paid_of_same (hrepairs : p.run.repairIterations = run.repairIterations)
    (hopened : p.opened = [])
    (hspent : ∀ candidate ∈ p.candidates, candidate.coderIterations ≤ run.repairIterations + 1) :
    Paid run p := by
  refine ⟨hrepairs.ge, ?_, ?_⟩
  · rw [hrepairs]
    exact hspent
  · rw [hopened]
    simp

/-- **A repair pays for itself**: the one candidate it sends back costs the one repair. -/
theorem Repaired.paid {target : Candidate} (h : Repaired o now issued run candidates target p)
    (htarget : target ∈ candidates)
    (hspent : ∀ candidate ∈ candidates, candidate.coderIterations ≤ run.repairIterations + 1) :
    Paid run p := by
  refine ⟨by rw [h.repairIterations]; omega, ?_, ?_⟩
  · rw [h.candidates_eq, h.repairIterations]
    intro candidate hmem
    rcases Table.mem_put.mp hmem with ⟨rfl, -⟩ | ⟨hmem, -⟩
    · rw [startRepair_coderIterations target now h.live]
      exact Nat.succ_le_succ (hspent target htarget)
    · exact Nat.le_succ_of_le (hspent candidate hmem)
  · rw [h.opened_eq]
    simp

theorem spent_settle (o : Orchestrator) (now : Instant) (project : Project)
    (hspent : ∀ candidate ∈ candidates, candidate.coderIterations ≤ run.repairIterations + 1) :
    ∀ candidate ∈ candidates.map (o.settle now project),
      candidate.coderIterations ≤ run.repairIterations + 1 := by
  intro candidate hmem
  obtain ⟨old, hold, rfl⟩ := List.mem_map.mp hmem
  rw [settle_coderIterations]
  exact hspent old hold

theorem advanceCandidates_paid (hlive : run.isTerminal = false) (hnr : run.status ≠ .reviewing)
    (hspent : ∀ candidate ∈ candidates, candidate.coderIterations ≤ run.repairIterations + 1)
    (h : o.advanceCandidates now issued run project candidates = .ok p) : Paid run p := by
  have hsettled := spent_settle o now project hspent
  rcases advanceCandidates_ok hlive hnr h with
    hval | ⟨-, ⟨-, rfl⟩ | hrev | ⟨-, ⟨target, hmem, -, hrep⟩ | ⟨-, hfail⟩⟩⟩
  · apply paid_of_same hval.repairIterations hval.opened_eq
    rw [hval.candidates_eq]
    exact hsettled
  · exact paid_of_same rfl rfl hsettled
  · apply paid_of_same hrev.repairIterations hrev.opened_eq
    rw [hrev.candidates_eq]
    exact hsettled
  · exact hrep.paid hmem hsettled
  · apply paid_of_same hfail.repairIterations hfail.opened_eq
    rw [hfail.candidates_eq]
    exact hsettled

theorem advanceReview_paid (hlive : run.isTerminal = false)
    (hspent : ∀ candidate ∈ candidates, candidate.coderIterations ≤ run.repairIterations + 1)
    (h : o.advanceReview ws now issued run candidates = .ok p) : Paid run p := by
  rcases advanceReview_ok hlive h with
    ⟨winner, hdone⟩ | ⟨-, ⟨target, hmem, hrep⟩ | ⟨-, hfail⟩⟩
  · apply paid_of_same hdone.repairIterations hdone.opened_eq
    rw [hdone.candidates_eq]
    intro candidate hmem
    obtain ⟨old, hold, rfl⟩ := List.mem_map.mp hmem
    rw [crown_coderIterations]
    exact hspent old hold
  · exact hrep.paid hmem hspent
  · apply paid_of_same hfail.repairIterations hfail.opened_eq
    rw [hfail.candidates_eq]
    exact hspent

theorem nextStep_paid (hlive : run.isTerminal = false)
    (hspent : ∀ candidate ∈ candidates, candidate.coderIterations ≤ run.repairIterations + 1)
    (h : o.nextStep ws now issued run project candidates = .ok p) : Paid run p := by
  unfold nextStep at h
  split at h
  · exact openFirstStage_paid hspent h
  · obtain ⟨coding, hcoding, h⟩ := bind_eq_ok.mp h
    exact openCandidates_paid hspent hcoding h
  · exact advanceCandidates_paid hlive (by simp [*]) hspent h
  · exact advanceCandidates_paid hlive (by simp [*]) hspent h
  · exact advanceCandidates_paid hlive (by simp [*]) hspent h
  · exact advanceReview_paid hlive hspent h
  · cases h
    exact paid_of_same rfl rfl hspent

/-- Storing a decision that paid keeps every run covered. -/
theorem store_covered {db : Db} {runId : RunId} (hcovered : db.Covered)
    (hrow : db.run? runId = some run) (hupdate : RunUpdate 0 run p.run) (hpaid : Paid run p)
    (hkept : ∀ candidate ∈ p.candidates, candidate.runId = run.id)
    (hopened : ∀ candidate ∈ p.opened, candidate.runId = run.id) : (db.store p now).Covered := by
  have hid : p.run.id = run.id := Run.id_of_charter hupdate.charter
  have hread : db.run? p.run.id = some run := by
    rw [hid, Table.find_key hrow]
    exact hrow
  intro id found hfound
  rw [Db.run?_store hread] at hfound
  split at hfound
  · cases hfound
    have hcovers := hcovered runId run hrow
    refine ⟨hupdate.within_budget hcovers.repairs, ?_⟩
    intro candidate hmem hrunId
    rcases List.mem_append.mp hmem with hmem | hmem
    · rcases Table.mem_putAll hmem with hmem | hmem
      · have hold := hcovers.coding candidate hmem (hrunId.trans hid)
        exact Nat.le_trans hold (Nat.succ_le_succ hpaid.repairs)
      · obtain ⟨changed, hchanged, rfl⟩ := List.mem_map.mp hmem
        exact hpaid.kept changed hchanged
    · obtain ⟨new, hnew, rfl⟩ := List.mem_map.mp hmem
      exact hpaid.opened new hnew
  · rename_i hother
    have hne : found.id ≠ run.id := by
      rw [Table.find_key hfound, ← hid]
      exact hother
    have hcovers := hcovered id found hfound
    refine ⟨hcovers.repairs, ?_⟩
    intro candidate hmem hrunId
    rcases List.mem_append.mp hmem with hmem | hmem
    · rcases Table.mem_putAll hmem with hmem | hmem
      · exact hcovers.coding candidate hmem hrunId
      · obtain ⟨changed, hchanged, rfl⟩ := List.mem_map.mp hmem
        exact absurd (hrunId.symm.trans (hkept changed hchanged)) hne
    · obtain ⟨new, hnew, rfl⟩ := List.mem_map.mp hmem
      exact absurd (hrunId.symm.trans (hopened new hnew)) hne

/-- A committed decision keeps every run covered. -/
theorem advanceCommit_covered {runId : RunId} {w w' : World} {jobs : List Job}
    (hcovered : w.db.Covered) (h : o.advanceCommit ws now runId w = .ok (w', jobs)) :
    w'.db.Covered := by
  rcases advanceCommit_ok h with ⟨rfl, -⟩ | ⟨run, project, p, hadv, hp, rfl, -⟩
  · exact hcovered
  · have hid : run.id = runId := Table.find_key hadv.run_row
    have hown : ∀ candidate ∈ w.db.candidatesOf runId, candidate.runId = run.id := by
      intro candidate hmem
      rw [hid]
      exact (Db.mem_candidatesOf.mp hmem).2
    have hspent : ∀ candidate ∈ w.db.candidatesOf runId,
        candidate.coderIterations ≤ run.repairIterations + 1 := by
      intro candidate hmem
      exact (hcovered runId run hadv.run_row).coding candidate (Db.mem_candidatesOf.mp hmem).1
        (hown candidate hmem)
    have hsound := nextStep_sound hadv.live hp
    refine store_covered hcovered hadv.run_row (nextStep_update hadv.live hp)
      (nextStep_paid hadv.live hspent hp) ?_ hsound.opened_runId
    intro candidate hmem
    obtain ⟨old, hold, -, hrunId⟩ := hsound.kept candidate hmem
    rw [hrunId]
    exact hown old hold

/-- So does a committed start. -/
theorem startCommit_covered {runId : RunId} {w w' : World} {jobs : List Job}
    (hcovered : w.db.Covered) (h : o.startCommit ws now runId w = .ok (w', jobs)) :
    w'.db.Covered := by
  unfold startCommit at h
  obtain ⟨run, hrun, h⟩ := bind_eq_ok.mp h
  have hrow := Db.requireRun_ok hrun
  split at h
  · cases h
    exact hcovered
  · obtain ⟨-, -, h⟩ := bind_eq_ok.mp h
    obtain ⟨p, hp, h⟩ := bind_eq_ok.mp h
    cases h
    have hsound := openFirstStage_sound hp
    refine store_covered hcovered hrow (openFirstStage_update hp)
      (openFirstStage_paid (by simp) hp) ?_ hsound.opened_runId
    intro candidate hmem
    obtain ⟨old, hold, -⟩ := hsound.kept candidate hmem
    cases hold

end Orchestrator

/-! ### Whole runs -/

/-- One piece of a holder's work starts no coder iteration. -/
theorem Holder.resume_kept (o : Orchestrator) (a : Answers) (w : World) (holder : Holder) :
    Db.Kept w.db (holder.resume o a w).world.db := by
  cases holder with
  | claimed job lease =>
    simp only [Holder.resume]
    split
    · exact .refl _
    · split
      · exact .refl _
      · split
        · split
          · exact .refl _
          · rename_i db hdb
            exact Orchestrator.cancelling_kept hdb
        · exact .refl _
  | working job lease =>
    simp only [Holder.resume]
    split
    · exact .refl _
    · rename_i effect heffect
      split
      · exact .refl _
      · rename_i db hdb
        obtain ⟨done, rfl⟩ := Orchestrator.completing_ok hdb
        exact Orchestrator.complete_kept heffect done
  | acknowledging job lease =>
    simp only [Holder.resume]
    split <;> exact .refl _
  | reporting job lease e =>
    simp only [Holder.resume]
    split
    · exact .refl _
    · rename_i db hdb
      exact Orchestrator.recordFailure_kept hdb
  | releasing job lease decision =>
    simp only [Holder.resume]
    split
    · exact .refl _
    · split <;> exact .refl _
  | requeueing jobId reason =>
    simp only [Holder.resume]
    split
    · exact .refl _
    · split
      · exact .refl _
      · exact .of_tables rfl rfl

namespace System

/-- What happens to a platform: its runs are started, and everything else takes turns. -/
inductive Activity where
  | start (ws : Workspaces) (now : Instant) (runId : RunId)
  | move (ws : Workspaces) (move : Move)

/-- One activity; a move that is not enabled changes nothing. -/
def perform (o : Orchestrator) (s : System) : Activity → System
  | .start ws now runId =>
      match o.startCommit ws now runId s.world with
      | .error _ => s
      | .ok (w, jobs) => { s with world := w, pending := s.pending ++ jobs }
  | .move ws move => (s.step o ws move).getD s

variable {o : Orchestrator} {ws : Workspaces} {s s' : System}

theorem expireRow_kept (s : System) (now : Instant) (job : Job) :
    Db.Kept s.world.db (s.expireRow now job).world.db := by
  unfold expireRow
  simp only
  split
  · split
    · exact .refl _
    · exact .of_tables rfl rfl
  · exact .of_tables rfl rfl

/-- **One move**: a decision pays for the coder iterations it starts, and nothing else
    starts any. -/
theorem step_covered {move : Move} (hcovered : s.world.db.Covered)
    (hstep : s.step o ws move = some s') : s'.world.db.Covered := by
  have hsame : ∀ {next : System}, next.world.db = s.world.db → next.world.db.Covered := by
    intro next heq
    rw [heq]
    exact hcovered
  cases move with
  | claim consumer jobTypes duration now token =>
    simp only [System.step] at hstep
    split at hstep
    · cases hstep
    · split at hstep <;> cases hstep <;> exact hsame rfl
  | renew jobId token duration now =>
    cases hstep
    exact hsame rfl
  | resume token a =>
    simp only [System.step] at hstep
    split at hstep
    · cases hstep
    · rename_i holder hholder
      cases hstep
      exact (holder.resume_kept o a s.world).covered hcovered
  | publish n =>
    simp only [System.step] at hstep
    split at hstep <;> cases hstep
    exact hsame rfl
  | advance now runId =>
    simp only [System.step] at hstep
    split at hstep
    · cases hstep
      exact hcovered
    · rename_i w jobs hcommit
      cases hstep
      exact Orchestrator.advanceCommit_covered hcovered hcommit
  | reclaim now limit =>
    simp only [System.step] at hstep
    split at hstep <;> cases hstep <;> exact hsame rfl
  | expire n now =>
    simp only [System.step] at hstep
    split at hstep
    · cases hstep
    · split at hstep
      · cases hstep
        exact hsame rfl
      · rename_i job hjob
        split at hstep
        · cases hstep
          exact hsame rfl
        · cases hstep
          exact (expireRow_kept _ now job).covered hcovered
  | bury n now =>
    simp only [System.step] at hstep
    split at hstep
    · cases hstep
    · rename_i job hjob
      cases hstep
      exact (Orchestrator.handleDeadJob_kept now job s.world).covered hcovered
  | cancel now runId reason =>
    simp only [System.step] at hstep
    split at hstep
    · rename_i db hdb
      cases hstep
      exact (cancelRunCommit_kept hdb).covered hcovered
    · cases hstep
      exact hcovered
  | dropJobs n =>
    simp only [System.step] at hstep
    split at hstep <;> cases hstep
    exact hsame rfl

theorem perform_covered (o : Orchestrator) (s : System) (activity : Activity)
    (hcovered : s.world.db.Covered) : (s.perform o activity).world.db.Covered := by
  cases activity with
  | start ws now runId =>
    simp only [perform]
    split
    · exact hcovered
    · rename_i w jobs hcommit
      exact Orchestrator.startCommit_covered hcovered hcommit
  | move ws move =>
    simp only [perform]
    cases hstep : s.step o ws move with
    | none => exact hcovered
    | some next => exact step_covered hcovered hstep

end System

/-- A platform on which no run was started yet. -/
structure World.Unstarted (w : World) : Prop where
  candidates : w.db.candidates = []
  runs : ∀ id run, w.db.run? id = some run → run.repairIterations = 0

theorem World.Unstarted.covered {w : World} (h : w.Unstarted) : w.db.Covered := by
  intro id run hrun
  constructor
  · rw [h.runs id run hrun]
    exact Nat.zero_le _
  · rw [h.candidates]
    simp

namespace System

/-- **The coder budget is kept by runs whose repair budget is smaller.** From a platform
    on which nothing was started, whatever its runs, holders and maintenance then do. -/
theorem coder_budget_kept (o : Orchestrator) {w : World} (hw : w.Unstarted)
    (activities : List Activity) {runId : RunId} {run : Run}
    (hrun : (Runs.after (perform o) (idle w) activities).world.db.run? runId = some run)
    (hbudget : run.limits.maxRepairIterations < run.limits.maxCoderIterations) :
    ∀ candidate ∈ (Runs.after (perform o) (idle w) activities).world.db.candidates,
      candidate.runId = runId → candidate.coderIterations ≤ run.limits.maxCoderIterations := by
  have hcovered : (Runs.after (perform o) (idle w) activities).world.db.Covered :=
    Runs.after_invariant (I := fun s : System => s.world.db.Covered) hw.covered (perform_covered o)
  have hcovers := hcovered runId run hrun
  intro candidate hmem hrunId
  calc candidate.coderIterations ≤ run.repairIterations + 1 :=
        hcovers.coding candidate hmem (hrunId.trans (Table.find_key hrun).symm)
    _ ≤ run.limits.maxRepairIterations + 1 := Nat.succ_le_succ hcovers.repairs
    _ ≤ run.limits.maxCoderIterations := hbudget

end System

namespace Sample

/-- A run that may be repaired once, with room for `maxCoderIterations` coder rounds. -/
def tightRun (maxCoderIterations : Nat) : Run :=
  Run.create ⟨2⟩ ⟨1⟩ "fix the build" 0 1 { maxCoderIterations, maxRepairIterations := 1 } none
    [("requires_plan", .bool false)] objective_given count_one count_three

def tightWorld (maxCoderIterations : Nat) : World :=
  World.fresh (project { buildCommand := some "make" }) (tightRun maxCoderIterations)

/-- The coder submits its patch, and the build fails on it. -/
def failingBuild (now : Instant) : Answers :=
  { coderAnswers now with
    tool := .ok ⟨"build", .build, "make", 2, "", "error", 10, false, [], []⟩ }

def buildToken : LeaseToken := ⟨"lease-2", second_lease_named⟩

/-- One holder claims the next published job, executes it and advances the run. -/
def served (jobType : JobType) (now : Instant) (token : LeaseToken) : List System.Activity :=
  [.move .calm (.publish 0), .move .calm (.claim consumer [jobType] 120000000 now token),
    .move .calm (.resume token (failingBuild now)), .move .calm (.resume token (failingBuild now)),
    .move .calm (.resume token (failingBuild now)), .move .calm (.advance now ⟨2⟩)]

/-- The run is started, coded and built once. -/
def firstRound : List System.Activity :=
  .start .calm 5 ⟨2⟩ :: served .code 10 token ++ served .build 20 buildToken

theorem tightWorld_unstarted (maxCoderIterations : Nat) :
    (tightWorld maxCoderIterations).Unstarted := by
  constructor
  · rfl
  · intro id run hrun
    have hmem := Table.mem_of_find hrun
    rw [List.mem_singleton.mp hmem]
    rfl

end Sample

namespace System

/-- With room for the repair, the first round stays within the budget. -/
theorem coder_budget_kept_sample :
    ∃ candidate ∈ (Runs.after (perform (Sample.orchestrator 3 (by decide)))
        (idle (Sample.tightWorld 2)) Sample.firstRound).world.db.candidates,
      candidate.runId = ⟨2⟩ ∧ candidate.coderIterations ≤ 2 := by
  have hrow : ((Runs.after (perform (Sample.orchestrator 3 (by decide)))
      (idle (Sample.tightWorld 2)) Sample.firstRound).world.db.run? ⟨2⟩).map
        (fun run => (run.limits.maxRepairIterations, run.limits.maxCoderIterations)) =
      some (1, 2) := by decide +kernel
  obtain ⟨run, hrun, hlimits⟩ := Option.map_eq_some_iff.mp hrow
  obtain ⟨hrepair, hcoder⟩ := Prod.mk.inj hlimits
  have hkept := coder_budget_kept (Sample.orchestrator 3 (by decide))
    (Sample.tightWorld_unstarted 2) Sample.firstRound hrun (by rw [hrepair, hcoder]; decide)
  rw [hcoder] at hkept
  have hone : (Runs.after (perform (Sample.orchestrator 3 (by decide)))
      (idle (Sample.tightWorld 2)) Sample.firstRound).world.db.candidates.map Candidate.runId =
        [⟨2⟩] := by decide +kernel
  obtain ⟨candidate, hmem, hid⟩ := List.mem_map.mp (hone ▸ List.mem_singleton_self (⟨2⟩ : RunId))
  exact ⟨candidate, hmem, hid, hkept candidate hmem hid⟩

/-- A run that allows one coder iteration is sent back to the coder all the same. -/
theorem coder_budget_exceeded :
    let s := Runs.after (perform (Sample.orchestrator 3 (by decide)))
      (idle (Sample.tightWorld 1)) Sample.firstRound
    (s.world.db.run? ⟨2⟩).map (fun run => run.limits.maxCoderIterations) = some 1 ∧
      s.world.db.candidates.map (fun candidate => (candidate.runId, candidate.coderIterations)) =
        [(⟨2⟩, 2)] := by
  decide +kernel

end System

end AgenticPlatform
