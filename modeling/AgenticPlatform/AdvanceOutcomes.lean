import AgenticPlatform.Advance

/-!
# What a decision can be

One inversion lemma for each function of `Advance`: which branch was taken, and what it
left in the `Progress`. Later proofs read these lemmas and never unfold the functions.
-/

namespace AgenticPlatform

namespace Orchestrator

variable {o : Orchestrator} {ws : Workspaces} {now : Instant} {issued : Nat} {run : Run}
  {project : Project} {candidates targets : List Candidate} {p : Progress}

/-! ### Identifiers drawn by a decision -/

/-- `ids` are distinct identifiers drawn between `first` and `last`. -/
def Drawn {kind : IdKind} (o : Orchestrator) (first last : Nat) (ids : List (EntityId kind)) :
    Prop :=
  ∃ ns : List Nat, ns.Nodup ∧ (∀ n ∈ ns, first ≤ n ∧ n < last) ∧ ids = ns.map fun n => ⟨o.ids.draw n⟩

theorem Drawn.nil {kind : IdKind} {first last : Nat} :
    Drawn o first last ([] : List (EntityId kind)) := ⟨[], List.nodup_nil, by simp, rfl⟩

theorem Drawn.single {kind : IdKind} {first last n : Nat} (h : first ≤ n ∧ n < last) :
    Drawn o first last [(⟨o.ids.draw n⟩ : EntityId kind)] :=
  ⟨[n], List.nodup_singleton n, by simpa using h, rfl⟩

/-- One more identifier, drawn before all the others. -/
theorem Drawn.cons {kind : IdKind} {first mid last n : Nat} {ids : List (EntityId kind)}
    (h : Drawn o mid last ids) (hfirst : first ≤ n) (hmid : n < mid) (hlast : mid ≤ last) :
    Drawn o first last (⟨o.ids.draw n⟩ :: ids) := by
  obtain ⟨ns, hnodup, hbounds, rfl⟩ := h
  refine ⟨n :: ns, List.nodup_cons.mpr ⟨fun hn => ?_, hnodup⟩, ?_, rfl⟩
  · have := (hbounds n hn).1
    omega
  · intro m hm
    rcases List.mem_cons.mp hm with rfl | hm
    · omega
    · have := hbounds m hm
      omega

theorem Drawn.nodup {kind : IdKind} {first last : Nat} {ids : List (EntityId kind)}
    (h : Drawn o first last ids) : ids.Nodup := by
  obtain ⟨ns, hnodup, -, rfl⟩ := h
  refine hnodup.map fun m n heq => o.ids.draw_injective m n ?_
  exact congrArg EntityId.value heq

/-- A drawn identifier differs from every one drawn before `first`. -/
theorem Drawn.of_mem {kind : IdKind} {first last : Nat} {ids : List (EntityId kind)}
    (h : Drawn o first last ids) {id : EntityId kind} (hid : id ∈ ids) :
    ∃ n, first ≤ n ∧ n < last ∧ id = ⟨o.ids.draw n⟩ := by
  obtain ⟨ns, -, hbounds, rfl⟩ := h
  obtain ⟨n, hn, rfl⟩ := List.mem_map.mp hid
  exact ⟨n, (hbounds n hn).1, (hbounds n hn).2, rfl⟩

/-! ### Opening candidates -/

/-- A candidate as `_open_candidates` stores it. -/
structure Opened (run : Run) (candidate : Candidate) : Prop where
  runId : candidate.runId = run.id
  status : candidate.status = .coding
  patch : candidate.patch = none
  validation : candidate.validation = {}
  reviewVerdict : candidate.reviewVerdict = none
  workspaceId : candidate.workspaceId ≠ none

theorem openCandidate_ok {index : Nat} {candidate : Candidate} {job : Job}
    (h : o.openCandidate ws now run issued index = .ok (candidate, job)) :
    Opened run candidate ∧ candidate.id = ⟨o.ids.draw issued⟩ ∧ candidate.index = index ∧
      job = o.codeJob (issued + 1) run candidate.id .normal now := by
  unfold openCandidate at h
  obtain ⟨workspace, -, h⟩ := bind_eq_ok.mp h
  obtain ⟨attached, hattached, h⟩ := bind_eq_ok.mp h
  obtain ⟨coding, hcoding, h⟩ := bind_eq_ok.mp h
  simp only [Candidate.attachWorkspace, Candidate.create, Call.after_returned,
    Except.ok.injEq] at hattached
  subst hattached
  simp only [Candidate.startCoding, CandidateStatus.isTerminal, Bool.false_eq_true, if_false,
    Call.after_returned, Except.ok.injEq] at hcoding
  subst hcoding
  simp only [pure_eq_ok, Except.ok.injEq, Prod.mk.injEq] at h
  obtain ⟨rfl, rfl⟩ := h
  exact ⟨⟨rfl, rfl, rfl, rfl, rfl, Option.some_ne_none _⟩, rfl, rfl, rfl⟩

/-- The candidates are opened in the order of their indexes, each with its own job. -/
theorem openEach_ok {indexes : List Nat} {opened : List (Candidate × Job)}
    (h : o.openEach ws now run issued indexes = .ok opened) :
    (opened.map fun pair => pair.1.index) = indexes ∧
      Drawn o issued (issued + 2 * indexes.length) (opened.map fun pair => pair.1.id) ∧
      Drawn o issued (issued + 2 * indexes.length) (opened.map fun pair => pair.2.id) ∧
      ∀ pair ∈ opened, Opened run pair.1 ∧
        ∃ n, pair.2 = o.codeJob n run pair.1.id .normal now := by
  induction indexes generalizing issued opened with
  | nil =>
    cases h
    exact ⟨rfl, .nil, .nil, by simp⟩
  | cons index rest ih =>
    obtain ⟨⟨candidate, job⟩, hfirst, h⟩ := bind_eq_ok.mp h
    obtain ⟨others, hothers, h⟩ := bind_eq_ok.mp h
    cases h
    obtain ⟨hopened, hid, hindex, hjob⟩ := openCandidate_ok hfirst
    obtain ⟨hindexes, hcands, hjobs, hall⟩ := ih hothers
    have hlen : issued + 2 * (index :: rest).length = issued + 2 + 2 * rest.length := by
      simp only [List.length_cons]
      omega
    rw [hlen]
    refine ⟨by simp [hindex, hindexes], ?_, ?_, ?_⟩
    · simp only [List.map_cons, hid]
      exact hcands.cons (Nat.le_refl _) (by omega) (by omega)
    · have hjobId : job.id = ⟨o.ids.draw (issued + 1)⟩ := by rw [hjob]; rfl
      simp only [List.map_cons, hjobId]
      exact hjobs.cons (by omega) (by omega) (by omega)
    · intro pair hpair
      rcases List.mem_cons.mp hpair with rfl | hpair
      · exact ⟨hopened, issued + 1, hjob⟩
      · exact hall pair hpair

/-- What `_open_candidates` leaves: one coding candidate and one code job per index. -/
structure CandidatesOpened (o : Orchestrator) (now : Instant) (issued : Nat) (run : Run)
    (candidates : List Candidate) (p : Progress) : Prop where
  run_eq : p.run = run
  candidates_eq : p.candidates = candidates
  issued_eq : p.issued = issued + 2 * run.candidateCount
  pairs : ∃ opened : List (Candidate × Job), p.opened = opened.map Prod.fst ∧
    p.followUps = opened.map Prod.snd ∧
    (opened.map fun pair => pair.1.index) = List.range run.candidateCount ∧
    Drawn o issued p.issued (opened.map fun pair => pair.1.id) ∧
    Drawn o issued p.issued (opened.map fun pair => pair.2.id) ∧
    ∀ pair ∈ opened, Opened run pair.1 ∧ ∃ n, pair.2 = o.codeJob n run pair.1.id .normal now

theorem openCandidates_ok (h : o.openCandidates ws now issued run candidates = .ok p) :
    CandidatesOpened o now issued run candidates p := by
  unfold openCandidates at h
  obtain ⟨opened, hopened, h⟩ := bind_eq_ok.mp h
  simp only [pure_eq_ok, Except.ok.injEq] at h
  subst h
  have hspec := openEach_ok hopened
  simp only [List.length_range] at hspec
  exact ⟨rfl, rfl, rfl, opened, rfl, rfl, hspec.1, hspec.2.1, hspec.2.2.1, hspec.2.2.2⟩

/-- The first stage is the plan job, or the candidates at once. -/
theorem openFirstStage_ok (h : o.openFirstStage ws now issued run candidates = .ok p) :
    (∃ planning, (run.startPlanning now).after = .ok planning ∧
      p = ⟨planning, candidates, [], [o.planJob issued planning now], issued + 1⟩) ∨
    ∃ coding, (run.startCoding now).after = .ok coding ∧
      CandidatesOpened o now issued coding candidates p := by
  unfold openFirstStage at h
  split at h
  · obtain ⟨planning, hplanning, h⟩ := bind_eq_ok.mp h
    simp only [pure_eq_ok, Except.ok.injEq] at h
    exact .inl ⟨planning, hplanning, h.symm⟩
  · obtain ⟨coding, hcoding, h⟩ := bind_eq_ok.mp h
    exact .inr ⟨coding, hcoding, openCandidates_ok h⟩

/-! ### Repair -/

/-- The first target goes back to the coder, at the price of one repair iteration. -/
structure Repaired (o : Orchestrator) (now : Instant) (issued : Nat) (run : Run)
    (candidates : List Candidate) (target : Candidate) (p : Progress) : Prop where
  can_repair : run.canRepair = true
  allowed : RunStateMachine.can run.status .repairing = true
  live : target.status.isTerminal = false
  status : p.run.status = .coding
  repairIterations : p.run.repairIterations = run.repairIterations + 1
  charter : p.run.charter = run.charter
  tokenUsage : p.run.tokenUsage = run.tokenUsage
  candidates_eq : p.candidates = replaceCandidate candidates (target.startRepair now).self
  opened_eq : p.opened = []
  followUps_eq : p.followUps = [o.codeJob issued p.run target.id .high now]
  issued_eq : p.issued = issued + 1

/-- The run ends without a repair. -/
structure Failed (issued : Nat) (run : Run) (candidates : List Candidate) (p : Progress) :
    Prop where
  status : p.run.status = .failed
  repairIterations : p.run.repairIterations = run.repairIterations
  charter : p.run.charter = run.charter
  tokenUsage : p.run.tokenUsage = run.tokenUsage
  candidates_eq : p.candidates = candidates
  opened_eq : p.opened = []
  followUps_eq : p.followUps = []
  issued_eq : p.issued = issued

theorem failForReview_ok {reason : String} (hlive : run.isTerminal = false)
    (h : failForReview now issued run candidates reason = .ok p) :
    Failed issued run candidates p := by
  unfold failForReview at h
  obtain ⟨failed, hfailed, h⟩ := bind_eq_ok.mp h
  simp only [pure_eq_ok, Except.ok.injEq] at h
  subst h
  unfold Run.fail at hfailed
  have hstatus : run.status.isTerminal = false := hlive
  rw [if_neg (by simp [hstatus])] at hfailed
  obtain ⟨-, rfl⟩ := Run.transitioning_after.mp hfailed
  exact ⟨rfl, rfl, rfl, rfl, rfl, rfl, rfl, rfl⟩

theorem startRepair_after {target changed : Candidate}
    (h : (target.startRepair now).after = .ok changed) :
    target.status.isTerminal = false ∧ changed = (target.startRepair now).self := by
  unfold Candidate.startRepair at h ⊢
  by_cases ht : target.status.isTerminal = true
  · rw [if_pos ht] at h
    cases h
  · rw [if_neg ht] at h ⊢
    cases h
    exact ⟨by simpa using ht, rfl⟩

theorem repairOrFail_ok {reason : String} (hlive : run.isTerminal = false)
    (h : o.repairOrFail now issued run candidates targets reason = .ok p) :
    (∃ target rest, targets = target :: rest ∧ Repaired o now issued run candidates target p) ∨
    ((targets = [] ∨ run.canRepair = false) ∧ Failed issued run candidates p) := by
  unfold repairOrFail at h
  cases targets with
  | nil => exact .inr ⟨.inl rfl, failForReview_ok hlive h⟩
  | cons target rest =>
    obtain ⟨⟨repairing, granted⟩, hrequest, hrest⟩ := bind_eq_ok.mp h
    clear h
    rcases Run.requestRepair_outcome hrequest with
      ⟨rfl, hcan, hallowed, hstatus, hiter, hcharter, husage⟩ | ⟨rfl, hcan, rfl⟩
    · simp only [if_true] at hrest
      obtain ⟨changed, hchanged, hrest⟩ := bind_eq_ok.mp hrest
      obtain ⟨coding, hcoding, hrest⟩ := bind_eq_ok.mp hrest
      simp only [pure_eq_ok, Except.ok.injEq] at hrest
      subst hrest
      obtain ⟨htarget, rfl⟩ := startRepair_after hchanged
      obtain ⟨-, rfl⟩ := Run.transitioning_after.mp hcoding
      refine .inl ⟨target, rest, rfl, hcan, hallowed, htarget, rfl, hiter, hcharter, husage,
        rfl, rfl, ?_, rfl⟩
      have hid : (target.startRepair now).self.id = target.id := by
        simp [Candidate.startRepair, htarget, Candidate.record]
      simp only [hid]
    · simp only [Bool.false_eq_true, if_false] at hrest
      exact .inr ⟨.inr hcan, failForReview_ok hlive hrest⟩

/-! ### Validation -/

section Settle

variable (o) (now : Instant) (project : Project) (candidate : Candidate)

/-- A candidate with no stage left is closed on its evidence; any other is left alone. -/
theorem settle_cases :
    (candidate.status = .validating ∧ nextStage project candidate.validation = none ∧
      (o.settle now project candidate).status = .validated ∧
      (o.settle now project candidate).validation =
        { candidate.validation with
          staticAnalysisIsBlocking := o.config.staticAnalysisIsBlocking }) ∨
    (¬ (candidate.status = .validating ∧ nextStage project candidate.validation = none) ∧
      o.settle now project candidate = candidate) := by
  by_cases h : candidate.status = .validating ∧ nextStage project candidate.validation = none
  · refine .inl ⟨h.1, h.2, ?_, ?_⟩ <;>
      simp [settle, h.1, h.2, Candidate.recordValidation, Candidate.record]
  · exact .inr ⟨h, by simp [settle, h]⟩

/-- Closing the validation changes the status and the report only. -/
theorem settle_frame :
    (o.settle now project candidate).id = candidate.id ∧
      (o.settle now project candidate).runId = candidate.runId ∧
      (o.settle now project candidate).index = candidate.index ∧
      (o.settle now project candidate).patch = candidate.patch ∧
      (o.settle now project candidate).reviewVerdict = candidate.reviewVerdict ∧
      (o.settle now project candidate).repairIterations = candidate.repairIterations ∧
      (o.settle now project candidate).workspaceId = candidate.workspaceId := by
  unfold settle
  split
  · rename_i h
    simp [Candidate.recordValidation, h.1, Candidate.record]
  · exact ⟨rfl, rfl, rfl, rfl, rfl, rfl, rfl⟩

@[simp] theorem settle_id : (o.settle now project candidate).id = candidate.id :=
  (settle_frame o now project candidate).1

@[simp] theorem settle_runId : (o.settle now project candidate).runId = candidate.runId :=
  (settle_frame o now project candidate).2.1

@[simp] theorem settle_patch : (o.settle now project candidate).patch = candidate.patch :=
  (settle_frame o now project candidate).2.2.2.1

@[simp] theorem settle_reviewVerdict :
    (o.settle now project candidate).reviewVerdict = candidate.reviewVerdict :=
  (settle_frame o now project candidate).2.2.2.2.1

@[simp] theorem settle_workspaceId :
    (o.settle now project candidate).workspaceId = candidate.workspaceId :=
  (settle_frame o now project candidate).2.2.2.2.2.2

end Settle

/-- The follow-ups of a validation round: one job for each candidate that waits for a
    stage, with consecutive identifiers. -/
theorem stageJobs_spec (now : Instant) (run : Run) (project : Project) (issued : Nat)
    (candidates : List Candidate) :
    Drawn o issued (issued + (o.stageJobs now run project issued candidates).length)
        ((o.stageJobs now run project issued candidates).map Job.id) ∧
      ∀ job ∈ o.stageJobs now run project issued candidates, ∃ candidate ∈ candidates,
        ∃ stage n, pendingStage project candidate = some stage ∧
          job = o.stageJob n run stage candidate.id now := by
  induction candidates generalizing issued with
  | nil => exact ⟨.nil, by simp [stageJobs]⟩
  | cons first rest ih =>
    cases hstage : pendingStage project first with
    | none =>
      obtain ⟨hdrawn, hall⟩ := ih issued
      simp only [stageJobs, hstage]
      refine ⟨hdrawn, fun job hjob => ?_⟩
      obtain ⟨candidate, hmem, h⟩ := hall job hjob
      exact ⟨candidate, List.mem_cons_of_mem _ hmem, h⟩
    | some stage =>
      obtain ⟨hdrawn, hall⟩ := ih (issued + 1)
      simp only [stageJobs, hstage, List.length_cons, List.map_cons]
      constructor
      · have hlen : issued + ((o.stageJobs now run project (issued + 1) rest).length + 1) =
            issued + 1 + (o.stageJobs now run project (issued + 1) rest).length := by omega
        rw [hlen]
        exact hdrawn.cons (Nat.le_refl _) (by omega) (by omega)
      · intro job hjob
        rcases List.mem_cons.mp hjob with rfl | hjob
        · exact ⟨first, List.mem_cons_self, stage, issued, hstage, rfl⟩
        · obtain ⟨candidate, hmem, h⟩ := hall job hjob
          exact ⟨candidate, List.mem_cons_of_mem _ hmem, h⟩

theorem stageJobs_eq_nil {now : Instant} {run : Run} {project : Project} {issued : Nat}
    {candidates : List Candidate} :
    o.stageJobs now run project issued candidates = [] ↔
      ∀ candidate ∈ candidates, pendingStage project candidate = none := by
  induction candidates generalizing issued with
  | nil => simp [stageJobs]
  | cons first rest ih =>
    cases hstage : pendingStage project first with
    | none => simp [stageJobs, hstage, ih]
    | some stage => simp [stageJobs, hstage]

/-- The number of follow-ups of a validation round. -/
theorem stageJobs_length (now : Instant) (run : Run) (project : Project) (issued : Nat)
    (candidates : List Candidate) :
    (o.stageJobs now run project issued candidates).length =
      candidates.countP fun candidate => (pendingStage project candidate).isSome := by
  induction candidates generalizing issued with
  | nil => rfl
  | cons first rest ih =>
    cases hstage : pendingStage project first with
    | none => simp [stageJobs, hstage, ih]
    | some stage => simp [stageJobs, hstage, ih]

/-- Some candidates wait for a stage. -/
structure Validating (o : Orchestrator) (now : Instant) (issued : Nat) (run : Run)
    (project : Project) (candidates : List Candidate) (p : Progress) : Prop where
  waiting : ∃ candidate ∈ candidates, pendingStage project candidate ≠ none
  allowed : run.status = .validating ∨ RunStateMachine.can run.status .validating = true
  status : p.run.status = .validating
  repairIterations : p.run.repairIterations = run.repairIterations
  charter : p.run.charter = run.charter
  tokenUsage : p.run.tokenUsage = run.tokenUsage
  candidates_eq : p.candidates = candidates.map (o.settle now project)
  opened_eq : p.opened = []
  followUps_eq : p.followUps = o.stageJobs now run project issued candidates
  issued_eq : p.issued = issued + p.followUps.length

/-- The best viable candidate goes to the reviewer. -/
structure Reviewing (o : Orchestrator) (now : Instant) (issued : Nat) (run : Run)
    (project : Project) (candidates : List Candidate) (p : Progress) : Prop where
  best : ∃ best ∈ candidates.map (o.settle now project), best.status = .validated ∧
    best.isViable = true ∧ p.followUps = [o.reviewJob issued p.run best.id now]
  allowed : RunStateMachine.can run.status .reviewing = true
  status : p.run.status = .reviewing
  repairIterations : p.run.repairIterations = run.repairIterations
  charter : p.run.charter = run.charter
  tokenUsage : p.run.tokenUsage = run.tokenUsage
  candidates_eq : p.candidates = candidates.map (o.settle now project)
  opened_eq : p.opened = []
  issued_eq : p.issued = issued + 1

/-- A best viable candidate is one of the viable ones. -/
theorem best_mem {first : Candidate} {rest : List Candidate}
    (hviable : ∀ candidate ∈ first :: rest, candidate.isViable = true) :
    (CandidateSelection.select (first :: rest)).winner.getD first ∈ first :: rest ∧
      ((CandidateSelection.select (first :: rest)).winner.getD first).isViable = true := by
  cases hwinner : (CandidateSelection.select (first :: rest)).winner with
  | none => exact ⟨List.mem_cons_self, hviable first List.mem_cons_self⟩
  | some winner => exact CandidateSelection.select_winner hwinner

/-- The four ways `_advance_candidates` can end. -/
theorem advanceCandidates_ok (hlive : run.isTerminal = false) (hnr : run.status ≠ .reviewing)
    (h : o.advanceCandidates now issued run project candidates = .ok p) :
    Validating o now issued run project candidates p ∨
    ((∀ candidate ∈ candidates, pendingStage project candidate = none) ∧
      ((∀ candidate ∈ candidates.map (o.settle now project), candidate.status ≠ .validated) ∧
          p = ⟨run, candidates.map (o.settle now project), [], [], issued⟩ ∨
        Reviewing o now issued run project candidates p ∨
        ((∀ candidate ∈ candidates.map (o.settle now project),
            candidate.status = .validated → candidate.isViable = false) ∧
          ((∃ target ∈ candidates.map (o.settle now project), target.status = .validated ∧
              Repaired o now issued run (candidates.map (o.settle now project)) target p) ∨
            (run.canRepair = false ∧
              Failed issued run (candidates.map (o.settle now project)) p))))) := by
  unfold advanceCandidates at h
  simp only at h
  by_cases hjobs : o.stageJobs now run project issued candidates = []
  · refine .inr ⟨stageJobs_eq_nil.mp hjobs, ?_⟩
    rw [if_neg (by simpa using hjobs)] at h
    split at h
    · rename_i hsettled
      simp only [Except.ok.injEq] at h
      refine .inl ⟨fun candidate hmem hv => ?_, h.symm⟩
      have := List.filter_eq_nil_iff.mp hsettled candidate hmem
      simp [hv] at this
    · rename_i hsettled
      split at h
      · rename_i first rest hviable
        refine .inr (.inl ?_)
        have hall : ∀ candidate ∈ first :: rest, candidate.isViable = true := by
          intro candidate hmem
          rw [← hviable] at hmem
          exact (CandidateSelection.mem_viable.mp hmem).2
        obtain ⟨hmem, hbest⟩ := best_mem hall
        obtain ⟨reviewing, hreviewing, h⟩ := bind_eq_ok.mp h
        simp only [pure_eq_ok, Except.ok.injEq] at h
        subst h
        obtain ⟨hcan, rfl⟩ := Run.transitioning_after.mp hreviewing
        have hamong : (CandidateSelection.select (first :: rest)).winner.getD first ∈
            CandidateSelection.viable ((candidates.map (o.settle now project)).filter
              fun c => c.status == .validated) := by
          rw [hviable]
          exact hmem
        obtain ⟨hmem, hvalidated⟩ := List.mem_filter.mp (CandidateSelection.mem_viable.mp hamong).1
        exact ⟨⟨_, hmem, by simpa using hvalidated, hbest, rfl⟩, hcan, rfl, rfl, rfl, rfl, rfl,
          rfl, rfl⟩
      · rename_i hviable
        refine .inr (.inr ⟨fun candidate hmem hv => ?_, ?_⟩)
        · have hnot : candidate ∉ CandidateSelection.viable
              ((candidates.map (o.settle now project)).filter fun c => c.status == .validated) := by
            rw [hviable]
            simp
          rw [CandidateSelection.mem_viable, List.mem_filter] at hnot
          simpa [hmem, hv] using hnot
        · rcases repairOrFail_ok hlive h with ⟨target, rest, htargets, hrepaired⟩ | ⟨hcond, hfailed⟩
          · have htarget : target ∈ (candidates.map (o.settle now project)).filter
                fun c => c.status == .validated := by
              rw [htargets]
              exact List.mem_cons_self
            obtain ⟨hmem, hvalidated⟩ := List.mem_filter.mp htarget
            exact .inl ⟨target, hmem, by simpa using hvalidated, hrepaired⟩
          · exact .inr ⟨hcond.resolve_left hsettled, hfailed⟩
  · refine .inl ?_
    rw [if_pos hjobs] at h
    obtain ⟨candidate, hmem, hstage⟩ : ∃ candidate ∈ candidates,
        pendingStage project candidate ≠ none := by
      by_contra hnone
      apply hjobs
      rw [stageJobs_eq_nil]
      intro candidate hmem
      by_contra hsome
      exact hnone ⟨candidate, hmem, hsome⟩
    by_cases hstatus : run.status = .validating
    · rw [if_pos hstatus, ok_bind, pure_eq_ok, Except.ok.injEq] at h
      subst h
      exact ⟨⟨candidate, hmem, hstage⟩, .inl hstatus, hstatus, rfl, rfl, rfl, rfl, rfl, rfl, rfl⟩
    · rw [if_neg hstatus] at h
      obtain ⟨validating, hvalidating, h⟩ := bind_eq_ok.mp h
      simp only [pure_eq_ok, Except.ok.injEq] at h
      subst h
      obtain ⟨hcan, rfl⟩ := Run.transitioning_after.mp hvalidating
      exact ⟨⟨candidate, hmem, hstage⟩, .inr hcan, rfl, rfl, rfl, rfl, rfl, rfl, rfl, rfl⟩

/-! ### Review -/

/-- A candidate the reviewer passed is selected and the run completes. -/
structure Completed (now : Instant) (issued : Nat) (run : Run) (candidates : List Candidate)
    (winner : Candidate) (p : Progress) : Prop where
  winner_mem : winner ∈ candidates
  winner_passed : winner.reviewVerdict = some .pass
  selectable : (winner.select now).after = .ok (winner.select now).self
  allowed : RunStateMachine.can run.status .completed = true
  status : p.run.status = .completed
  selected : p.run.selectedCandidateId = some winner.id
  repairIterations : p.run.repairIterations = run.repairIterations
  charter : p.run.charter = run.charter
  tokenUsage : p.run.tokenUsage = run.tokenUsage
  candidates_eq : p.candidates = candidates.map (crown now winner)
  opened_eq : p.opened = []
  followUps_eq : p.followUps = []
  issued_eq : p.issued = issued

theorem select_after {winner changed : Candidate} (h : (winner.select now).after = .ok changed) :
    changed = (winner.select now).self := by
  unfold Call.after at h
  split at h
  · exact (Except.ok.inj h).symm
  · cases h

/-- The winner of a round is one of the candidates that passed. -/
theorem winner_mem {first : Candidate} {rest : List Candidate} :
    (CandidateSelection.select (first :: rest)).winner.getD first ∈ first :: rest := by
  cases hwinner : (CandidateSelection.select (first :: rest)).winner with
  | none => exact List.mem_cons_self
  | some winner => exact (CandidateSelection.select_winner hwinner).1

theorem advanceReview_ok (hlive : run.isTerminal = false)
    (h : o.advanceReview ws now issued run candidates = .ok p) :
    (∃ winner, Completed now issued run candidates winner p) ∨
    ((∀ candidate ∈ candidates, candidate.reviewVerdict ≠ some .pass) ∧
      ((∃ target ∈ candidates, Repaired o now issued run candidates target p) ∨
        ((candidates = [] ∨ run.canRepair = false) ∧ Failed issued run candidates p))) := by
  unfold advanceReview at h
  simp only at h
  split at h
  · rename_i first rest hpassed
    refine .inl ?_
    have hmem : (CandidateSelection.select (first :: rest)).winner.getD first ∈
        (candidates.filter fun c => c.reviewVerdict.isSome).filter
          fun c => c.reviewVerdict == some .pass := by
      rw [hpassed]
      exact winner_mem
    obtain ⟨hreviewed, hpass⟩ := List.mem_filter.mp hmem
    have hcand := (List.mem_filter.mp hreviewed).1
    have hpass : ((CandidateSelection.select (first :: rest)).winner.getD first).reviewVerdict =
        some .pass := by simpa using hpass
    obtain ⟨-, -, h⟩ := bind_eq_ok.mp h
    obtain ⟨changed, hselect, h⟩ := bind_eq_ok.mp h
    obtain ⟨completed, hcompleted, h⟩ := bind_eq_ok.mp h
    simp only [pure_eq_ok, Except.ok.injEq] at h
    subst h
    obtain ⟨hcan, rfl⟩ := Run.transitioning_after.mp hcompleted
    have hchanged := select_after hselect
    rw [hchanged] at hselect
    exact ⟨_, hcand, hpass, hselect, hcan, rfl, rfl, rfl, rfl, rfl, rfl, rfl, rfl, rfl⟩
  · rename_i hpassed
    refine .inr ⟨fun candidate hmem hpass => ?_, ?_⟩
    · have hnot := List.filter_eq_nil_iff.mp hpassed candidate
        (List.mem_filter.mpr ⟨hmem, by simp [hpass]⟩)
      simp [hpass] at hnot
    · cases hfailing : (candidates.filter fun c => c.reviewVerdict.isSome).find?
          fun c => c.reviewVerdict == some .fail with
      | some failing =>
        rw [hfailing] at h
        rcases repairOrFail_ok hlive h with ⟨target, rest, htargets, hrepaired⟩ | ⟨hcond, hfailed⟩
        · cases htargets
          have hmem := (List.mem_filter.mp (List.mem_of_find?_eq_some hfailing)).1
          exact .inl ⟨_, hmem, hrepaired⟩
        · exact .inr ⟨.inr (hcond.resolve_left (by simp)), hfailed⟩
      | none =>
        rw [hfailing] at h
        rcases repairOrFail_ok hlive h with ⟨target, rest, htargets, hrepaired⟩ | ⟨hcond, hfailed⟩
        · have hmem : target ∈ target :: rest := List.mem_cons_self
          rw [← htargets] at hmem
          exact .inl ⟨target, hmem, hrepaired⟩
        · exact .inr ⟨hcond, hfailed⟩

/-! ### What all decisions have in common -/

/-- A job as `_new_job` builds it. -/
structure NewJob (o : Orchestrator) (run : Run) (job : Job) : Prop where
  runId : job.runId = run.id
  status : job.status = .pending
  lease : job.lease = none
  attempt : job.attempt = 0
  maxAttempts : job.maxAttempts = o.config.jobMaxAttempts

theorem newJob_new {n : Nat} {jobType : JobType} {role : Option AgentRole}
    {candidateId : Option CandidateId} {priority : Priority}
    {role_given : jobType.requiresInference = true → role ≠ none} :
    NewJob o run (o.newJob n run jobType role candidateId priority now role_given) :=
  ⟨rfl, rfl, rfl, rfl, rfl⟩

theorem NewJob.of_charter {run run' : Run} {job : Job} (h : NewJob o run job)
    (hcharter : run.charter = run'.charter) : NewJob o run' job :=
  ⟨h.runId.trans (Run.id_of_charter hcharter), h.status, h.lease, h.attempt, h.maxAttempts⟩

/-- The run keeps its charter and its account, the follow-ups are new jobs with new
    identifiers, and no candidate changes hands. -/
structure Sound (o : Orchestrator) (issued : Nat) (run : Run) (candidates : List Candidate)
    (p : Progress) : Prop where
  charter : p.run.charter = run.charter
  tokenUsage : p.run.tokenUsage = run.tokenUsage
  grows : issued ≤ p.issued
  drawn : Drawn o issued p.issued (p.followUps.map Job.id)
  new : ∀ job ∈ p.followUps, NewJob o run job
  kept : ∀ candidate ∈ p.candidates, ∃ old ∈ candidates,
    candidate.id = old.id ∧ candidate.runId = old.runId
  opened_drawn : Drawn o issued p.issued (p.opened.map Candidate.id)
  opened_runId : ∀ candidate ∈ p.opened, candidate.runId = run.id
  live : p.followUps ≠ [] → p.run.isTerminal = false

theorem crown_frame (now : Instant) (winner candidate : Candidate) :
    (crown now winner candidate).id = candidate.id ∧
      (crown now winner candidate).runId = candidate.runId ∧
      (crown now winner candidate).patch = candidate.patch ∧
      (crown now winner candidate).validation = candidate.validation ∧
      (crown now winner candidate).reviewVerdict = candidate.reviewVerdict := by
  unfold crown
  split
  · unfold Candidate.select
    split
    · exact ⟨rfl, rfl, rfl, rfl, rfl⟩
    · split <;> exact ⟨rfl, rfl, rfl, rfl, rfl⟩
  · unfold Candidate.reject
    split <;> exact ⟨rfl, rfl, rfl, rfl, rfl⟩

theorem startRepair_frame (now : Instant) (target : Candidate) :
    (target.startRepair now).self.id = target.id ∧
      (target.startRepair now).self.runId = target.runId ∧
      (target.startRepair now).self.patch = target.patch ∧
      (target.startRepair now).self.reviewVerdict = target.reviewVerdict := by
  unfold Candidate.startRepair
  split <;> exact ⟨rfl, rfl, rfl, rfl⟩

theorem kept_settle : ∀ candidate ∈ candidates.map (o.settle now project),
    ∃ old ∈ candidates, candidate.id = old.id ∧ candidate.runId = old.runId := by
  intro candidate hmem
  obtain ⟨old, hold, rfl⟩ := List.mem_map.mp hmem
  exact ⟨old, hold, settle_id .., settle_runId ..⟩

theorem CandidatesOpened.sound (h : CandidatesOpened o now issued run candidates p)
    (hlive : run.isTerminal = false) : Sound o issued run candidates p := by
  obtain ⟨opened, hopened, hjobs, -, hcands, hdrawn, hall⟩ := h.pairs
  refine ⟨by rw [h.run_eq], by rw [h.run_eq], by rw [h.issued_eq]; omega, ?_, ?_, ?_, ?_, ?_,
    fun _ => by rw [h.run_eq]; exact hlive⟩
  · rw [hjobs, List.map_map]
    exact hdrawn
  · intro job hjob
    rw [hjobs] at hjob
    obtain ⟨pair, hpair, rfl⟩ := List.mem_map.mp hjob
    obtain ⟨-, n, hjob⟩ := hall pair hpair
    rw [hjob]
    exact newJob_new
  · rw [h.candidates_eq]
    exact fun candidate hmem => ⟨candidate, hmem, rfl, rfl⟩
  · rw [hopened, List.map_map]
    exact hcands
  · intro candidate hmem
    rw [hopened] at hmem
    obtain ⟨pair, hpair, rfl⟩ := List.mem_map.mp hmem
    exact (hall pair hpair).1.runId

theorem Repaired.sound {target : Candidate} {settled : List Candidate}
    (h : Repaired o now issued run settled target p) (htarget : target ∈ settled)
    (hkept : ∀ candidate ∈ settled, ∃ old ∈ candidates,
      candidate.id = old.id ∧ candidate.runId = old.runId) :
    Sound o issued run candidates p := by
  refine ⟨h.charter, h.tokenUsage, by rw [h.issued_eq]; omega, ?_, ?_, ?_, ?_, ?_,
    fun _ => by simp [Run.isTerminal, h.status, RunStatus.isTerminal]⟩
  · rw [h.followUps_eq, h.issued_eq]
    exact .single (by omega)
  · rw [h.followUps_eq]
    intro job hjob
    rw [List.mem_singleton.mp hjob]
    exact newJob_new.of_charter h.charter
  · rw [h.candidates_eq]
    intro candidate hmem
    rcases Table.mem_put.mp hmem with ⟨rfl, -⟩ | ⟨hmem, -⟩
    · obtain ⟨old, hold, hid, hrunId⟩ := hkept target htarget
      have hframe := startRepair_frame now target
      exact ⟨old, hold, hframe.1.trans hid, hframe.2.1.trans hrunId⟩
    · exact hkept candidate hmem
  · rw [h.opened_eq]
    exact .nil
  · rw [h.opened_eq]
    simp

theorem Failed.sound {settled : List Candidate} (h : Failed issued run settled p)
    (hkept : ∀ candidate ∈ settled, ∃ old ∈ candidates,
      candidate.id = old.id ∧ candidate.runId = old.runId) :
    Sound o issued run candidates p := by
  refine ⟨h.charter, h.tokenUsage, by rw [h.issued_eq], ?_, ?_, ?_, ?_, ?_,
    fun hsome => absurd h.followUps_eq hsome⟩
  · rw [h.followUps_eq]
    exact .nil
  · rw [h.followUps_eq]
    simp
  · rw [h.candidates_eq]
    exact hkept
  · rw [h.opened_eq]
    exact .nil
  · rw [h.opened_eq]
    simp

theorem kept_refl : ∀ candidate ∈ candidates, ∃ old ∈ candidates,
    candidate.id = old.id ∧ candidate.runId = old.runId :=
  fun candidate hmem => ⟨candidate, hmem, rfl, rfl⟩

theorem openFirstStage_sound (h : o.openFirstStage ws now issued run candidates = .ok p) :
    Sound o issued run candidates p := by
  rcases openFirstStage_ok h with ⟨planning, hplanning, rfl⟩ | ⟨coding, hcoding, hopened⟩
  · obtain ⟨-, rfl⟩ := Run.transitioning_after.mp hplanning
    refine ⟨rfl, rfl, by simp, .single (by simp), ?_, kept_refl, .nil, by simp, fun _ => rfl⟩
    intro job hjob
    rw [List.mem_singleton.mp hjob]
    exact newJob_new
  · obtain ⟨-, rfl⟩ := Run.transitioning_after.mp hcoding
    have hs := hopened.sound rfl
    exact ⟨hs.charter, hs.tokenUsage, hs.grows, hs.drawn, fun job hjob => (hs.new job hjob).of_charter rfl,
      hs.kept, hs.opened_drawn, hs.opened_runId, hs.live⟩

theorem advanceCandidates_sound (hlive : run.isTerminal = false) (hnr : run.status ≠ .reviewing)
    (h : o.advanceCandidates now issued run project candidates = .ok p) :
    Sound o issued run candidates p := by
  rcases advanceCandidates_ok hlive hnr h with
    hval | ⟨-, ⟨-, rfl⟩ | hrev | ⟨-, ⟨target, hmem, -, hrep⟩ | ⟨-, hfail⟩⟩⟩
  · obtain ⟨hdrawn, hall⟩ := stageJobs_spec (o := o) now run project issued candidates
    refine ⟨hval.charter, hval.tokenUsage, by rw [hval.issued_eq]; omega, ?_, ?_, ?_, ?_, ?_,
      fun _ => by simp [Run.isTerminal, hval.status, RunStatus.isTerminal]⟩
    · rw [hval.issued_eq, hval.followUps_eq]
      exact hdrawn
    · rw [hval.followUps_eq]
      intro job hjob
      obtain ⟨candidate, -, stage, n, -, rfl⟩ := hall job hjob
      exact newJob_new
    · rw [hval.candidates_eq]
      exact kept_settle
    · rw [hval.opened_eq]
      exact .nil
    · rw [hval.opened_eq]
      simp
  · exact ⟨rfl, rfl, Nat.le_refl _, .nil, by simp, kept_settle, .nil, by simp, fun _ => hlive⟩
  · obtain ⟨best, -, -, -, hjobs⟩ := hrev.best
    refine ⟨hrev.charter, hrev.tokenUsage, by rw [hrev.issued_eq]; omega, ?_, ?_, ?_, ?_, ?_,
      fun _ => by simp [Run.isTerminal, hrev.status, RunStatus.isTerminal]⟩
    · rw [hjobs, hrev.issued_eq]
      exact .single (by omega)
    · rw [hjobs]
      intro job hjob
      rw [List.mem_singleton.mp hjob]
      exact newJob_new.of_charter hrev.charter
    · rw [hrev.candidates_eq]
      exact kept_settle
    · rw [hrev.opened_eq]
      exact .nil
    · rw [hrev.opened_eq]
      simp
  · exact hrep.sound hmem kept_settle
  · exact hfail.sound kept_settle

theorem advanceReview_sound (hlive : run.isTerminal = false)
    (h : o.advanceReview ws now issued run candidates = .ok p) :
    Sound o issued run candidates p := by
  rcases advanceReview_ok hlive h with
    ⟨winner, hdone⟩ | ⟨-, ⟨target, hmem, hrep⟩ | ⟨-, hfail⟩⟩
  · refine ⟨hdone.charter, hdone.tokenUsage, by rw [hdone.issued_eq], ?_, ?_, ?_, ?_, ?_,
      fun hsome => absurd hdone.followUps_eq hsome⟩
    · rw [hdone.followUps_eq]
      exact .nil
    · rw [hdone.followUps_eq]
      simp
    · rw [hdone.candidates_eq]
      intro candidate hmem
      obtain ⟨old, hold, rfl⟩ := List.mem_map.mp hmem
      have hframe := crown_frame now winner old
      exact ⟨old, hold, hframe.1, hframe.2.1⟩
    · rw [hdone.opened_eq]
      exact .nil
    · rw [hdone.opened_eq]
      simp
  · exact hrep.sound hmem kept_refl
  · exact hfail.sound kept_refl

/-- **Every decision is sound**, whatever the status of the run. -/
theorem nextStep_sound (hlive : run.isTerminal = false)
    (h : o.nextStep ws now issued run project candidates = .ok p) :
    Sound o issued run candidates p := by
  have hidle : ∀ {q : Progress},
      (.ok ⟨run, candidates, [], [], issued⟩ : Except PyError Progress) = .ok q →
      Sound o issued run candidates q := by
    intro q hq
    cases hq
    exact ⟨rfl, rfl, Nat.le_refl _, .nil, by simp, kept_refl, .nil, by simp, fun _ => hlive⟩
  unfold nextStep at h
  split at h
  · exact openFirstStage_sound h
  · obtain ⟨coding, hcoding, h⟩ := bind_eq_ok.mp h
    obtain ⟨-, rfl⟩ := Run.transitioning_after.mp hcoding
    have hs := (openCandidates_ok h).sound rfl
    exact ⟨hs.charter, hs.tokenUsage, hs.grows, hs.drawn, fun job hjob => (hs.new job hjob).of_charter rfl,
      hs.kept, hs.opened_drawn, hs.opened_runId, hs.live⟩
  · exact advanceCandidates_sound hlive (by simp [*]) h
  · exact advanceCandidates_sound hlive (by simp [*]) h
  · exact advanceCandidates_sound hlive (by simp [*]) h
  · exact advanceReview_sound hlive h
  · exact hidle h

end Orchestrator

end AgenticPlatform
