import AgenticPlatform.WorkflowDecisions

/-!
# Decisions make progress

From a settled state a decision ends the run or opens a job. There is one exception:
from CODING the table allows no repair, and a run that has no command to validate with
asks for one when every patch of the round is empty.
-/

namespace AgenticPlatform.Workflow

open Orchestrator

variable {o : Orchestrator} {project : Project} {s : State} {ws : Workspaces} {now : Instant}
  {issued : Nat} {run : Run} {candidates targets : List Candidate} {c : Candidate}

/-- The workspace manager does what it is asked. -/
def Works (ws : Workspaces) : Prop :=
  (∀ runId candidateId, ∃ id, ws.create runId candidateId = .ok id) ∧ (∀ id, ws.get id = true) ∧
    ∀ id message, ws.integrate id message = .ok ()

/-- A decision ends the run or opens a job; only the workspace manager can prevent it. -/
structure Progresses (ws : Workspaces) (decision : Except PyError Progress) : Prop where
  raised : ∀ e, decision = .error e → ∃ text, e = .workspace text
  moves : ∀ p, decision = .ok p → p.run.isTerminal = true ∨ p.followUps ≠ []
  returns : Works ws → ∃ p, decision = .ok p

theorem Progresses.of_ok {decision : Except PyError Progress} {p : Progress}
    (h : decision = .ok p) (hp : p.run.isTerminal = true ∨ p.followUps ≠ []) :
    Progresses ws decision := by
  refine ⟨fun e he => ?_, fun p' hp' => ?_, fun _ => ⟨p, h⟩⟩
  · rw [h] at he
    cases he
  · rw [h, Except.ok.injEq] at hp'
    rw [← hp']
    exact hp

/-- A patchless round without a single validation command, with repair budget left. -/
def Stuck (project : Project) (s : State) : Prop :=
  s.run.status = .coding ∧ s.run.canRepair = true ∧
    (∀ stage, stageIsConfigured project stage = false) ∧
    ∀ c ∈ s.candidates, ∀ patch, c.patch = some patch → patch.isEmpty = true

/-! ### Opening candidates -/

theorem openEach_outcome (ws : Workspaces) (now : Instant) (run : Run) (issued : Nat)
    (indexes : List Nat) :
    (∀ e, o.openEach ws now run issued indexes = .error e → ∃ text, e = .workspace text) ∧
      (Works ws → ∃ opened, o.openEach ws now run issued indexes = .ok opened) := by
  induction indexes generalizing issued with
  | nil => exact ⟨fun _ he => (nomatch he), fun _ => ⟨[], rfl⟩⟩
  | cons index rest ih =>
    obtain ⟨hraised, hreturns⟩ := ih (issued + 2)
    have hfirst : o.openCandidate ws now run issued index =
        (workspaceCall (ws.create run.id ⟨o.ids.draw issued⟩)).bind fun workspace =>
          .ok ({ Candidate.create ⟨o.ids.draw issued⟩ run.id index now with
              workspaceId := some workspace
              status := .coding
              coderIterations := 1
              startedAt := some now
              events := [⟨now, .candidateStarted run.id ⟨o.ids.draw issued⟩ index none⟩] },
            o.codeJob (issued + 1) run ⟨o.ids.draw issued⟩ .normal now) := by
      unfold openCandidate
      cases hcreate : ws.create run.id ⟨o.ids.draw issued⟩ with
      | error text => simp only [Candidate.create, hcreate, workspaceCall]; rfl
      | ok workspace => simp only [Candidate.create, hcreate, workspaceCall]; rfl
    constructor
    · intro e he
      unfold openEach at he
      rw [hfirst] at he
      cases hcreate : ws.create run.id ⟨o.ids.draw issued⟩ with
      | error text =>
        rw [hcreate] at he
        cases he
        exact ⟨text, rfl⟩
      | ok workspace =>
        rw [hcreate] at he
        rcases bind_eq_error.mp he with hbad | ⟨first, -, he⟩
        · cases hbad
        · rcases bind_eq_error.mp he with hrest | ⟨others, -, hbad⟩
          · exact hraised e hrest
          · cases hbad
    · intro hworks
      obtain ⟨workspace, hcreate⟩ := hworks.1 run.id ⟨o.ids.draw issued⟩
      obtain ⟨others, hothers⟩ := hreturns hworks
      unfold openEach
      rw [hfirst, hcreate, hothers]
      exact ⟨_, rfl⟩

/-- Opening the candidates opens a job, for there is at least one candidate. -/
theorem openCandidates_progresses (ws : Workspaces) (now : Instant) (issued : Nat) (run : Run)
    (candidates : List Candidate) :
    Progresses ws (o.openCandidates ws now issued run candidates) := by
  obtain ⟨hraised, hreturns⟩ := openEach_outcome (o := o) ws now run issued
    (List.range run.candidateCount)
  refine ⟨fun e he => ?_, fun p hp => .inr fun hnil => ?_, fun hworks => ?_⟩
  · rcases bind_eq_error.mp he with hopen | ⟨opened, -, hbad⟩
    · exact hraised e hopen
    · cases hbad
  · obtain ⟨pairs, -, hjobs, hindexes, -, -, -⟩ := (openCandidates_ok hp).pairs
    rw [hjobs, List.map_eq_nil_iff] at hnil
    rw [hnil, List.map_nil] at hindexes
    have hcount := congrArg List.length hindexes
    rw [List.length_nil, List.length_range] at hcount
    have := run.candidate_count_pos
    omega
  · obtain ⟨opened, hopened⟩ := hreturns hworks
    unfold openCandidates
    rw [hopened]
    exact ⟨_, rfl⟩

theorem openFirstStage_progresses (ws : Workspaces) (now : Instant) (issued : Nat)
    (candidates : List Candidate) (hcreated : run.status = .created) :
    Progresses ws (o.openFirstStage ws now issued run candidates) := by
  unfold openFirstStage
  split
  · obtain ⟨planning, hplanning⟩ : ∃ planning, (run.startPlanning now).after = .ok planning :=
      ⟨_, Run.transitioning_after.mpr ⟨by rw [hcreated]; rfl, rfl⟩⟩
    rw [hplanning]
    exact .of_ok rfl (.inr (by simp))
  · obtain ⟨coding, hcoding⟩ : ∃ coding, (run.startCoding now).after = .ok coding :=
      ⟨_, Run.transitioning_after.mpr ⟨by rw [hcreated]; rfl, rfl⟩⟩
    rw [hcoding]
    exact openCandidates_progresses ws now issued coding candidates

/-! ### Repair -/

theorem startCoding_of_repairing (now : Instant) (h : run.status = .repairing) :
    ∃ coding, (run.startCoding now).after = .ok coding :=
  ⟨_, Run.transitioning_after.mpr ⟨by rw [h]; rfl, rfl⟩⟩

theorem failForReview_progresses (hlive : run.isTerminal = false) (reason : String) :
    Progresses ws (failForReview now issued run candidates reason) := by
  obtain ⟨failed, hfailed, hstatus, -⟩ :=
    Run.fail_of_live hlive now .review (reason ++ "; repair budget exhausted")
  refine .of_ok (p := ⟨failed, candidates, [], [], issued⟩) ?_ (.inl ?_)
  · unfold failForReview
    rw [hfailed]
    rfl
  · simp [Run.isTerminal, hstatus, RunStatus.isTerminal]

/-- A repair that the budget and the table allow is granted. -/
theorem requestRepair_granted (now : Instant) (candidateId : CandidateId) (reason : String)
    (hrepair : run.canRepair = true) (hcan : RunStateMachine.can run.status .repairing = true) :
    ∃ repairing, (run.requestRepair candidateId reason now).outcome = .ok (repairing, true) ∧
      repairing.status = .repairing := by
  unfold Run.requestRepair
  rw [if_pos hrepair, Run.transitioning_of_can hcan]
  exact ⟨_, rfl, rfl⟩

/-- A repair goes through wherever the table allows one. -/
theorem repairOrFail_progresses {target : Candidate} {rest : List Candidate} {reason : String}
    (hlive : run.isTerminal = false) (htarget : target.status.isTerminal = false)
    (hcan : run.canRepair = true → RunStateMachine.can run.status .repairing = true) :
    Progresses ws (o.repairOrFail now issued run candidates (target :: rest) reason) := by
  unfold repairOrFail
  cases hrepair : run.canRepair with
  | false =>
    have hspent : (run.requestRepair target.id reason now).outcome = .ok (run, false) := by
      simp [Run.requestRepair, hrepair]
    simp only [hspent, ok_bind, Bool.false_eq_true, if_false]
    exact failForReview_progresses hlive reason
  | true =>
    obtain ⟨repairing, hgranted, hstatus⟩ :=
      requestRepair_granted now target.id reason hrepair (hcan hrepair)
    have hback : (target.startRepair now).after = .ok (target.startRepair now).self := by
      simp [Candidate.startRepair, htarget]
    obtain ⟨coding, hcoding⟩ := startCoding_of_repairing now hstatus
    simp only [hgranted, ok_bind, if_true, hback, hcoding, pure_eq_ok]
    exact .of_ok rfl (.inr (by simp))

/-- From CODING the table refuses the repair. -/
theorem repairOrFail_refused {target : Candidate} {rest : List Candidate} {reason : String}
    (hrepair : run.canRepair = true)
    (hcannot : RunStateMachine.can run.status .repairing = false) :
    o.repairOrFail now issued run candidates (target :: rest) reason =
      .error (.invalidStateTransition "Run" run.status.value RunStatus.repairing.value) := by
  have hrefused : (run.requestRepair target.id reason now).outcome =
      .error (.invalidStateTransition "Run" run.status.value RunStatus.repairing.value) := by
    unfold Run.requestRepair
    rw [if_pos hrepair, Run.transitioning_of_cannot hcannot]
    rfl
  simp only [repairOrFail, hrefused, error_bind]

/-! ### Rounds -/

/-- A report with no results waits for the first configured stage. -/
theorem unconfigured_of_nextStage_none {report : ValidationReport} (hempty : report.results = [])
    (hnone : nextStage project report = none) (stage : ValidationStage) :
    stageIsConfigured project stage = false := by
  have hdone : ∀ stage : ValidationStage, stage.done report = none := by
    intro stage
    rw [done_eq_passed, ValidationReport.passed_eq_none, hempty]
    simp
  simp only [nextStage, validationStages, nextStageAmong, hdone, reduceCtorEq, if_false, true_and] at hnone
  cases hbuild : stageIsConfigured project .build with
  | true => simp [hbuild] at hnone
  | false =>
    cases htest : stageIsConfigured project .test with
    | true => simp [hbuild, htest] at hnone
    | false =>
      cases hanalysis : stageIsConfigured project .staticAnalysis with
      | true => simp [hbuild, htest, hanalysis] at hnone
      | false => cases stage <;> assumption

/-- Without commands nothing is ever waited for. -/
theorem nextStage_of_unconfigured (h : ∀ stage, stageIsConfigured project stage = false)
    (report : ValidationReport) : nextStage project report = none := by
  unfold nextStage
  generalize validationStages = stages
  induction stages with
  | nil => rfl
  | cons first rest ih => simp [nextStageAmong, h first, ih]

/-- Without commands a settled candidate has an empty report. -/
theorem Live.results_of_unconfigured (h : Live o project s) (hsettled : Settled s)
    (hnone : ∀ stage, stageIsConfigured project stage = false) (hc : c ∈ s.candidates) :
    c.validation.results = [] := by
  have hevidence := (h.standing c hc).evidence (h.not_coding hsettled hc)
  apply List.eq_nil_iff_forall_not_mem.mpr
  intro result hmem
  obtain ⟨stage, -, hconfigured⟩ := hevidence.configured result hmem
  rw [hnone stage] at hconfigured
  cases hconfigured

theorem isViable_of_empty {report : ValidationReport} (h : report.results = []) :
    report.isViable = true := by
  simp [ValidationReport.isViable, ValidationReport.buildPassed, ValidationReport.testsPassed,
    ValidationReport.staticAnalysisPassed, ValidationReport.ofKind, ValidationReport.allPassed, h]

/-- A patchless round leaves nothing viable, and nothing to wait for. -/
theorem Live.patchless (h : Live o project s) (hsettled : Settled s) (hstuck : Stuck project s)
    (now : Instant) (hc : c ∈ s.candidates) :
    pendingStage project c = none ∧ (o.settle now project c).isViable = false := by
  obtain ⟨-, -, hnone, hpatches⟩ := hstuck
  constructor
  · unfold pendingStage
    rw [nextStage_of_unconfigured hnone, ite_self]
  · obtain ⟨patch, hpatch⟩ := Option.ne_none_iff_exists'.mp
      ((h.standing c hc).evidence (h.not_coding hsettled hc)).submitted
    have hblank := hpatches c hc patch hpatch
    simp [Candidate.isViable, Candidate.hasPatch, hpatch, hblank]

/-- Coding candidates that wait for nothing and of which none is viable have no patch
    and no command to run. -/
theorem Live.stuck_of_coding (h : Live o project s) (hsettled : Settled s)
    (hcoding : s.run.status = .coding) (hrepair : s.run.canRepair = true)
    (hnone : ∀ c ∈ s.candidates, pendingStage project c = none)
    (hviable : ∀ c ∈ s.candidates, (o.settle now project c).isViable = false) :
    Stuck project s := by
  have hphase := h.phase
  simp only [Phase, hcoding] at hphase
  obtain ⟨first, hfirst, hnot⟩ := hphase
  have hempty : first.validation.results = [] := by
    cases (h.standing first hfirst).place with
    | coding _ _ hempty _ => exact hempty
    | validating _ hplace =>
      rcases hplace with hval | ⟨-, hempty⟩
      · rw [hcoding] at hval
        cases hval
      · exact hempty
    | validated hstatus _ _ => exact absurd hstatus hnot
  have hvalidating : first.status = .validating := by
    rcases h.status_settled hsettled hfirst with hstatus | ⟨hstatus, -, -⟩
    · exact hstatus
    · exact absurd hstatus hnot
  have hunconfigured : ∀ stage, stageIsConfigured project stage = false := by
    apply unconfigured_of_nextStage_none hempty
    have hpending := hnone first hfirst
    unfold pendingStage at hpending
    rwa [if_pos hvalidating] at hpending
  refine ⟨hcoding, hrepair, hunconfigured, fun c hc patch hpatch => ?_⟩
  have hreport : (o.settle now project c).validation.isViable = true := by
    apply isViable_of_empty
    rcases settle_cases o now project c with ⟨-, -, -, hreport⟩ | ⟨-, heq⟩
    · rw [hreport]
      exact h.results_of_unconfigured hsettled hunconfigured hc
    · rw [heq]
      exact h.results_of_unconfigured hsettled hunconfigured hc
  have hnotviable := hviable c hc
  simpa [Candidate.isViable, hreport, Candidate.hasPatch, hpatch] using hnotviable

/-- A round after coding or validation moves on, unless it is stuck. -/
theorem Live.advanceCandidates_progresses (h : Live o project s) (hsettled : Settled s)
    (hlive : s.run.isTerminal = false) (hperm : candidates.Perm s.candidates)
    (hsome : s.candidates ≠ []) (hrun : s.run.status = .coding ∨ s.run.status = .validating)
    (ws : Workspaces) (now : Instant) (issued : Nat) :
    (Stuck project s → ∃ e, o.advanceCandidates now issued s.run project candidates = .error e ∧
      e.isInvalidStateTransition = true) ∧
    (¬ Stuck project s →
      Progresses ws (o.advanceCandidates now issued s.run project candidates)) := by
  have hmem : ∀ c, c ∈ candidates ↔ c ∈ s.candidates := fun c => hperm.mem_iff
  unfold advanceCandidates
  simp only
  by_cases hjobs : o.stageJobs now s.run project issued candidates = []
  · rw [if_neg (by simpa using hjobs)]
    have hnone : ∀ c ∈ s.candidates, pendingStage project c = none := fun c hc =>
      stageJobs_eq_nil.mp hjobs c ((hmem c).mpr hc)
    have hall : (candidates.map (o.settle now project)).filter (fun c => c.status == .validated) =
        candidates.map (o.settle now project) := by
      apply List.filter_eq_self.mpr
      intro c hc
      obtain ⟨old, hold, rfl⟩ := List.mem_map.mp hc
      have hold' := (hmem old).mp hold
      simp [h.settle_validated hsettled hold' (hnone old hold')]
    rw [hall]
    have hne : candidates.map (o.settle now project) ≠ [] := by
      intro hnil
      apply hsome
      rw [List.map_eq_nil_iff.mp hnil] at hperm
      exact hperm.symm.eq_nil
    rw [if_neg hne]
    cases hviable : CandidateSelection.viable (candidates.map (o.settle now project)) with
    | cons first rest =>
      constructor
      · intro hstuck
        have hfirst : first ∈ CandidateSelection.viable
            (candidates.map (o.settle now project)) := by
          rw [hviable]
          exact List.mem_cons_self
        obtain ⟨hfirst, hgood⟩ := CandidateSelection.mem_viable.mp hfirst
        obtain ⟨old, hold, rfl⟩ := List.mem_map.mp hfirst
        rw [(h.patchless hsettled hstuck now ((hmem old).mp hold)).2] at hgood
        cases hgood
      · intro _
        have hnot : s.run.status ≠ .reviewing := by
          rcases hrun with hr | hr <;> rw [hr] <;> simp
        obtain ⟨reviewing, hreviewing⟩ : ∃ reviewing, (s.run.startReviewing
            ((CandidateSelection.select (first :: rest)).winner.getD first).id now).after =
              .ok reviewing := by
          refine ⟨_, Run.transitioning_after.mpr ⟨?_, rfl⟩⟩
          rcases hrun with hr | hr <;> rw [hr] <;> rfl
        simp only [if_neg hnot, hreviewing, ok_bind, pure_eq_ok]
        exact .of_ok rfl (.inr (by simp))
    | nil =>
      have hbad : ∀ c ∈ s.candidates, (o.settle now project c).isViable = false := by
        intro c hc
        have hnot : o.settle now project c ∉ CandidateSelection.viable
            (candidates.map (o.settle now project)) := by
          rw [hviable]
          exact List.not_mem_nil
        rw [CandidateSelection.mem_viable] at hnot
        simpa using fun hgood => hnot ⟨List.mem_map_of_mem ((hmem c).mpr hc), hgood⟩
      obtain ⟨target, rest, htargets⟩ := List.exists_cons_of_ne_nil hne
      have htarget : target.status.isTerminal = false := by
        have hin : target ∈ candidates.map (o.settle now project) := by
          rw [htargets]
          exact List.mem_cons_self
        obtain ⟨old, hold, rfl⟩ := List.mem_map.mp hin
        have hold' := (hmem old).mp hold
        rw [h.settle_validated hsettled hold' (hnone old hold')]
        rfl
      constructor
      · intro hstuck
        simp only [htargets]
        rw [repairOrFail_refused hstuck.2.1 (by rw [hstuck.1]; rfl)]
        exact ⟨_, rfl, rfl⟩
      · intro hfree
        simp only [htargets]
        apply repairOrFail_progresses hlive htarget
        intro hrepair
        rcases hrun with hr | hr
        · exact absurd (h.stuck_of_coding hsettled hr hrepair hnone hbad) hfree
        · rw [hr]
          rfl
  · rw [if_pos hjobs]
    constructor
    · intro hstuck
      refine absurd (stageJobs_eq_nil.mpr fun c hc => ?_) hjobs
      exact (h.patchless hsettled hstuck now ((hmem c).mp hc)).1
    · intro _
      by_cases hvalidating : s.run.status = .validating
      · rw [if_pos hvalidating]
        exact .of_ok rfl (.inr hjobs)
      · rw [if_neg hvalidating]
        obtain ⟨validating, hstart⟩ : ∃ validating,
            (s.run.startValidating now).after = .ok validating := by
          refine ⟨_, Run.transitioning_after.mpr ⟨?_, rfl⟩⟩
          rw [hrun.resolve_right hvalidating]
          rfl
        rw [hstart]
        exact .of_ok rfl (.inr hjobs)

/-! ### Review -/

/-- Integrating a candidate that has a workspace fails only with the workspace manager. -/
theorem integrateOnSuccess_outcome (o : Orchestrator) (ws : Workspaces) (run : Run)
    (hworkspace : c.workspaceId ≠ none) :
    (∀ e, o.integrateOnSuccess ws run c = .error e → ∃ text, e = .workspace text) ∧
      (Works ws → o.integrateOnSuccess ws run c = .ok ()) := by
  obtain ⟨id, hid⟩ := Option.ne_none_iff_exists'.mp hworkspace
  unfold integrateOnSuccess
  split
  · unfold integrate requireWorkspace
    simp only [hid]
    constructor
    · intro e he
      rcases bind_eq_error.mp he with hmissing | ⟨found, -, hbad⟩
      · split at hmissing
        · cases hmissing
        · cases hmissing
          exact ⟨_, rfl⟩
      · unfold workspaceCall at hbad
        split at hbad
        · cases hbad
        · cases hbad
          exact ⟨_, rfl⟩
    · rintro ⟨-, hget, hintegrate⟩
      simp only [hget, if_true, ok_bind, workspaceCall, hintegrate]
  · exact ⟨fun _ he => (nomatch he), fun _ => rfl⟩

/-- A round of review completes the run, sends a candidate back, or fails the run. -/
theorem Live.advanceReview_progresses (h : Live o project s) (hlive : s.run.isTerminal = false)
    (hperm : candidates.Perm s.candidates) (hsome : s.candidates ≠ [])
    (hrun : s.run.status = .reviewing) :
    Progresses ws (o.advanceReview ws now issued s.run candidates) := by
  have hmem : ∀ c ∈ candidates, c ∈ s.candidates := fun c hc => hperm.mem_iff.mp hc
  have hopen : ∀ c ∈ candidates, c.status.isTerminal = false := by
    intro c hc
    rw [h.reviewing_validated hrun (hmem c hc)]
    rfl
  unfold advanceReview
  simp only
  split
  · rename_i first rest hpassed
    have hwinner : (CandidateSelection.select (first :: rest)).winner.getD first ∈ candidates := by
      have hin : (CandidateSelection.select (first :: rest)).winner.getD first ∈
          (candidates.filter fun c => c.reviewVerdict.isSome).filter
            fun c => c.reviewVerdict == some .pass := by
        rw [hpassed]
        exact winner_mem
      exact (List.mem_filter.mp (List.mem_filter.mp hin).1).1
    generalize (CandidateSelection.select (first :: rest)).winner.getD first = winner at hwinner ⊢
    obtain ⟨hraised, hreturns⟩ := integrateOnSuccess_outcome o ws s.run
      (h.standing winner (hmem winner hwinner)).workspaceId
    have hselect : (winner.select now).after = .ok (winner.select now).self := by
      unfold Candidate.select
      split
      · rfl
      · rw [if_neg (by rw [hopen winner hwinner]; simp)]
        rfl
    obtain ⟨completed, hcompleted⟩ : ∃ completed, ((s.run.selectCandidate winner.id
        (CandidateSelection.select (first :: rest)).rationale now).complete now
          (some winner.id)).after = .ok completed := by
      refine ⟨_, Run.transitioning_after.mpr ⟨?_, rfl⟩⟩
      show RunStateMachine.can s.run.status .completed = true
      rw [hrun]
      rfl
    have hstatus : completed.status = .completed := by
      obtain ⟨-, rfl⟩ := Run.transitioning_after.mp hcompleted
      rfl
    simp only [hselect, hcompleted, ok_bind, pure_eq_ok]
    constructor
    · intro e he
      rcases bind_eq_error.mp he with hbad | ⟨u, -, hbad⟩
      · exact hraised e hbad
      · cases hbad
    · intro p hp
      obtain ⟨u, -, hp⟩ := bind_eq_ok.mp hp
      cases hp
      left
      rw [Run.isTerminal, hstatus]
      rfl
    · intro hworks
      rw [hreturns hworks]
      exact ⟨_, rfl⟩
  · have hcan : s.run.canRepair = true → RunStateMachine.can s.run.status .repairing = true := by
      intro _
      rw [hrun]
      rfl
    split
    · rename_i failing hfailing
      apply repairOrFail_progresses hlive (hopen failing ?_) hcan
      exact (List.mem_filter.mp (List.mem_of_find?_eq_some hfailing)).1
    · cases candidates with
      | nil => exact absurd hperm.symm.eq_nil hsome
      | cons target rest =>
        exact repairOrFail_progresses hlive (hopen target List.mem_cons_self) hcan

/-! ### Every decision -/

/-- **Every decision makes progress, unless the run is stuck**, and then it is refused. -/
theorem Live.nextStep_progresses (h : Live o project s) (hsettled : Settled s)
    (hlive : s.run.isTerminal = false) (hperm : candidates.Perm s.candidates)
    (ws : Workspaces) (now : Instant) (issued : Nat) :
    (Stuck project s → ∃ e, o.nextStep ws now issued s.run project candidates = .error e ∧
      e.isInvalidStateTransition = true) ∧
    (¬ Stuck project s → Progresses ws (o.nextStep ws now issued s.run project candidates)) := by
  have hphase := h.phase
  have hfree : s.run.status ≠ .coding →
      Progresses ws (o.nextStep ws now issued s.run project candidates) →
      (Stuck project s → ∃ e, o.nextStep ws now issued s.run project candidates = .error e ∧
        e.isInvalidStateTransition = true) ∧
      (¬ Stuck project s →
        Progresses ws (o.nextStep ws now issued s.run project candidates)) :=
    fun hrun hprogress => ⟨fun hstuck => absurd hstuck.1 hrun, fun _ => hprogress⟩
  unfold Phase at hphase
  cases hstatus : s.run.status <;> simp only [hstatus] at hphase
  case created =>
    apply hfree (by rw [hstatus]; simp)
    simp only [nextStep, hstatus]
    exact openFirstStage_progresses ws now issued candidates hstatus
  case planning =>
    obtain ⟨t, ht, hopen, -⟩ := hphase.2
    rw [hsettled t ht] at hopen
    cases hopen
  case planReady =>
    apply hfree (by rw [hstatus]; simp)
    obtain ⟨coding, hcoding⟩ : ∃ coding, (s.run.startCoding now).after = .ok coding :=
      ⟨_, Run.transitioning_after.mpr ⟨by rw [hstatus]; rfl, rfl⟩⟩
    simp only [nextStep, hstatus, hcoding, ok_bind]
    exact openCandidates_progresses ws now issued coding candidates
  case coding =>
    obtain ⟨c, hc, -⟩ := hphase
    have hround := h.advanceCandidates_progresses hsettled hlive hperm (List.ne_nil_of_mem hc)
      (.inl hstatus) ws now issued
    simpa only [nextStep, hstatus] using hround
  case validating =>
    have hround := h.advanceCandidates_progresses hsettled hlive hperm hphase (.inr hstatus)
      ws now issued
    simpa only [nextStep, hstatus] using hround
  case reviewing =>
    apply hfree (by rw [hstatus]; simp)
    simp only [nextStep, hstatus]
    exact h.advanceReview_progresses hlive hperm hphase hstatus

end AgenticPlatform.Workflow
