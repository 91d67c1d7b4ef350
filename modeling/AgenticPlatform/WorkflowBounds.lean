import AgenticPlatform.WorkflowDecisions

/-!
# How many jobs a run opens

Next to the jobs a run has opened stands what it may still open: what its status, its
repair budget and the stages without a result leave to be done. No step lets the two
together grow, so the jobs of a run are bounded by what it started with.
-/

namespace AgenticPlatform.Workflow

open Orchestrator

/-- One plan, one code job for each candidate and each repair with at most three stages
    each, and one review for each round. -/
def allowed (run : Run) : Nat :=
  1 + 4 * (run.candidateCount + run.limits.maxRepairIterations) +
    (1 + run.limits.maxRepairIterations)

/-- The stages of a candidate's current patch that have no result. -/
def undone (c : Candidate) : Nat :=
  validationStages.countP fun stage => decide (stage.done c.validation = none)

/-- One for an open job of a validation stage. -/
def Ticket.openStage (t : Ticket) : Nat :=
  if t.isOpen = true ∧ (ValidationStage.ofJobType t.type).isSome = true then 1 else 0

namespace State

variable (s : State)

def undone : Nat := (s.candidates.map Workflow.undone).sum

def openStages : Nat := (s.tickets.map Ticket.openStage).sum

/-- The repairs the budget still allows. -/
def repairsLeft : Nat := s.run.limits.maxRepairIterations - s.run.repairIterations

/-- What a run may still open. A repair pays for a code job, three stages and a review. -/
def spare : Nat :=
  match s.run.status with
  | .created => allowed s.run
  | .planning | .planReady =>
      4 * s.run.candidateCount + 5 * s.run.limits.maxRepairIterations + 1
  | .coding | .validating => 5 * s.repairsLeft + 1 + s.undone
  | _ => 5 * s.repairsLeft + s.undone

end State

/-- An open stage job is counted twice, as a job and as a stage without a result. -/
structure Within (s : State) : Prop where
  total : s.tickets.length ≤ allowed s.run
  spared : s.run.isTerminal = false →
    s.tickets.length + s.spare ≤ allowed s.run + s.openStages

variable {o : Orchestrator} {project : Project} {s s' : State} {ws : Workspaces} {now : Instant}
  {issued : Nat} {candidates : List Candidate} {p : Progress} {c : Candidate}

theorem allowed_congr {before after : Run} (h : after.charter = before.charter) :
    allowed after = allowed before := by
  unfold allowed
  rw [Run.candidateCount_of_charter h, Run.limits_of_charter h]

/-! ### Stages without a result -/

theorem undone_congr {left right : Candidate}
    (h : left.validation.results = right.validation.results) : undone left = undone right := by
  apply List.countP_congr
  intro stage _
  simp only [done_eq_passed, ValidationReport.passed, ValidationReport.ofKind, h]

theorem undone_le (c : Candidate) : undone c ≤ 3 := List.countP_le_length

theorem undone_settle (c : Candidate) : undone (o.settle now project c) = undone c := by
  apply undone_congr
  rcases settle_cases o now project c with ⟨-, -, -, hreport⟩ | ⟨-, heq⟩
  · rw [hreport]
  · rw [heq]

/-- A candidate that waits for a stage has one without a result. -/
theorem undone_pos_of_pending (h : pendingStage project c ≠ none) : 0 < undone c := by
  obtain ⟨stage, hstage⟩ := Option.ne_none_iff_exists'.mp h
  unfold pendingStage at hstage
  split at hstage
  · apply List.countP_pos_iff.mpr
    refine ⟨stage, ?_, ?_⟩
    · cases stage <;> simp [validationStages]
    · rw [(nextStage_some hstage).2]
      rfl
  · cases hstage

/-- The result of a stage is recorded. -/
theorem undone_extended {stage : ValidationStage} {result : ToolResult}
    (hnone : stage.done c.validation = none) (hkind : result.kind = stage.kind) :
    undone { c with validation := c.validation.extendedWith [result] } < undone c := by
  have hdone : ∀ other : ValidationStage,
      other.done (c.validation.extendedWith [result]) = none ↔
        other.done c.validation = none ∧ other ≠ stage := by
    intro other
    simp only [done_eq_passed, ValidationReport.passed_eq_none, ValidationReport.extendedWith,
      List.mem_append, List.mem_singleton]
    constructor
    · intro h
      refine ⟨fun old hold => h old (.inl hold), ?_⟩
      rintro rfl
      exact h result (.inr rfl) hkind
    · rintro ⟨hold, hne⟩ found (hfound | rfl)
      · exact hold found hfound
      · rw [hkind]
        cases other <;> cases stage <;> first | exact absurd rfl hne | simp [ValidationStage.kind]
  unfold undone validationStages
  simp only [List.countP_cons, List.countP_nil, hdone]
  cases stage <;> simp [hnone]

/-- The jobs of a validation round are no more than the stages without a result. -/
theorem stageJobs_length_le (now : Instant) (run : Run) (project : Project) (issued : Nat)
    (candidates : List Candidate) :
    (o.stageJobs now run project issued candidates).length ≤ (candidates.map undone).sum := by
  rw [stageJobs_length]
  induction candidates with
  | nil => rfl
  | cons first rest ih =>
    rw [List.countP_cons, List.map_cons, List.sum_cons]
    split
    · rename_i hpending
      have := undone_pos_of_pending (Option.isSome_iff_ne_none.mp hpending)
      omega
    · omega

/-! ### Open stages -/

theorem openStages_settled (h : Settled s) : s.openStages = 0 := by
  unfold State.openStages
  apply List.sum_eq_zero
  intro n hn
  obtain ⟨t, ht, rfl⟩ := List.mem_map.mp hn
  simp [Ticket.openStage, h t ht]

/-- Closing a job takes at most its own stage away. -/
theorem openStages_close (hnodup : (s.tickets.map Ticket.id).Nodup) {t : Ticket}
    (ht : t ∈ s.tickets) : s.openStages ≤ ((s.close t.id).map Ticket.openStage).sum + t.openStage := by
  unfold State.openStages State.close
  rw [List.map_map]
  apply Table.sum_le_add (k := t.id) _ _ hnodup
  · intro other hother hid
    rw [List.inj_on_of_nodup_map hnodup hother ht hid]
    omega
  · intro other _ hid
    simp [hid]

theorem openStage_le (t : Ticket) : t.openStage ≤ 1 := by
  unfold Ticket.openStage
  split <;> omega

/-! ### Decisions -/

/-- A decision opens no more jobs than the run may still open, and takes them off what
    it may open later. -/
structure Affords (s : State) (p : Progress) : Prop where
  opens : p.followUps.length ≤ s.spare
  leaves : (s.decided p).run.isTerminal = false →
    p.followUps.length + (s.decided p).spare ≤ s.spare + (s.decided p).openStages

/-- Candidates that keep their reports have as many stages without a result. -/
theorem Live.undone_decided (h : Live o project s) (hperm : candidates.Perm s.candidates)
    {f : Candidate → Candidate} (hf : ∀ c, (f c).id = c.id)
    (hcandidates : p.candidates = candidates.map f) (hopened : p.opened = [])
    (hundone : ∀ c, undone (f c) = undone c) : (s.decided p).undone = s.undone := by
  unfold State.undone
  rw [decided_candidates h hperm hf hcandidates hopened, List.map_map]
  apply congrArg List.sum
  apply List.map_congr_left
  intro c _
  exact (undone_congr rfl).trans (hundone c)

/-- The candidate that is sent back loses its results. -/
theorem Live.undone_repaired (h : Live o project s) (hperm : candidates.Perm s.candidates)
    {f : Candidate → Candidate} (hf : ∀ c, (f c).id = c.id) {target : Candidate}
    (htarget : target ∈ candidates.map f)
    (hround : Repaired o now issued s.run (candidates.map f) target p)
    (hundone : ∀ c, undone (f c) = undone c) : (s.decided p).undone ≤ s.undone + 3 := by
  unfold State.undone
  rw [h.repaired_candidates hperm hf htarget hround, List.map_map]
  apply Table.sum_le_add (k := target.id) _ _ h.ids
  · intro c _ _
    have := undone_le (sentBack now f target c).stored
    simp only [Function.comp]
    omega
  · intro c _ hne
    simp only [Function.comp, sentBack, if_neg hne]
    exact Nat.le_of_eq ((undone_congr rfl).trans (hundone c))

/-- A repair pays for the code job, the stages and the review it leads to. -/
theorem Live.affords_repair (h : Live o project s) (hperm : candidates.Perm s.candidates)
    {f : Candidate → Candidate} (hf : ∀ c, (f c).id = c.id) {target : Candidate}
    (htarget : target ∈ candidates.map f)
    (hround : Repaired o now issued s.run (candidates.map f) target p)
    (hundone : ∀ c, undone (f c) = undone c)
    (hrun : 5 * s.repairsLeft + s.undone ≤ s.spare) : Affords s p := by
  have hless := h.undone_repaired hperm hf htarget hround hundone
  have hlimits := Run.limits_of_charter hround.charter
  have hcan := hround.can_repair
  simp only [Run.canRepair, decide_eq_true_eq] at hcan
  have hleft : (s.decided p).repairsLeft + 1 = s.repairsLeft := by
    show p.run.limits.maxRepairIterations - p.run.repairIterations + 1 = _
    unfold State.repairsLeft
    rw [hlimits, hround.repairIterations]
    omega
  have hspare : (s.decided p).spare = 5 * (s.decided p).repairsLeft + 1 + (s.decided p).undone := by
    unfold State.spare
    rw [show (s.decided p).run.status = .coding from hround.status]
  rw [← hleft] at hrun
  constructor
  · rw [hround.followUps_eq, List.length_singleton]
    omega
  · intro _
    rw [hround.followUps_eq, List.length_singleton, hspare]
    omega

theorem affords_failed (hfail : Failed issued s.run candidates p) : Affords s p := by
  constructor
  · rw [hfail.followUps_eq]
    exact Nat.zero_le _
  · intro hlive
    rw [Run.isTerminal, show (s.decided p).run.status = .failed from hfail.status] at hlive
    cases hlive

/-- The code jobs of the first round, with the stages and the review after them. -/
theorem affords_opened {run : Run} (hempty : s.candidates = []) (hstatus : run.status = .coding)
    (hcharter : run.charter = s.run.charter)
    (h : CandidatesOpened o now issued run candidates p)
    (hspare : 4 * s.run.candidateCount + 5 * s.run.limits.maxRepairIterations + 1 ≤ s.spare) :
    Affords s p := by
  obtain ⟨pairs, hopened, hjobs, hindexes, -, -, -⟩ := h.pairs
  have hlength : pairs.length = s.run.candidateCount := by
    have hcount := congrArg List.length hindexes
    rw [List.length_map, List.length_range, Run.candidateCount_of_charter hcharter] at hcount
    exact hcount
  have hundone : (s.decided p).undone ≤ 3 * s.run.candidateCount := by
    have hcandidates : (s.decided p).candidates = pairs.map fun pair => pair.1.stored := by
      simp [State.decided, hempty, Table.putAll, hopened]
    unfold State.undone
    rw [hcandidates, List.map_map, ← hlength]
    have hbound : (pairs.map (undone ∘ fun pair => pair.1.stored)).sum ≤
        (pairs.map (undone ∘ fun pair => pair.1.stored)).length * 3 := by
      apply List.sum_le_card_nsmul
      intro n hn
      obtain ⟨pair, -, rfl⟩ := List.mem_map.mp hn
      exact undone_le _
    rw [List.length_map] at hbound
    omega
  have hleft : (s.decided p).repairsLeft ≤ s.run.limits.maxRepairIterations := by
    show p.run.limits.maxRepairIterations - p.run.repairIterations ≤ _
    rw [h.run_eq, Run.limits_of_charter hcharter]
    omega
  have hafter : (s.decided p).spare = 5 * (s.decided p).repairsLeft + 1 + (s.decided p).undone := by
    unfold State.spare
    rw [show (s.decided p).run.status = .coding by
      rw [State.decided, h.run_eq]
      exact hstatus]
  constructor
  · rw [hjobs, List.length_map, hlength]
    omega
  · intro _
    rw [hjobs, List.length_map, hlength, hafter]
    omega

/-- A round after coding or validation. -/
theorem Live.affords_round (h : Live o project s) (hlive : s.run.isTerminal = false)
    (hperm : candidates.Perm s.candidates)
    (hrun : s.run.status = .coding ∨ s.run.status = .validating)
    (hp : o.advanceCandidates now issued s.run project candidates = .ok p) : Affords s p := by
  have hspare : s.spare = 5 * s.repairsLeft + 1 + s.undone := by
    unfold State.spare
    rcases hrun with hrun | hrun <;> rw [hrun]
  have hnr : s.run.status ≠ .reviewing := by
    rcases hrun with hrun | hrun <;> rw [hrun] <;> simp
  have hsettle : ∀ c, undone (o.settle now project c) = undone c := undone_settle
  have hrepairs : p.run.charter = s.run.charter → p.run.repairIterations = s.run.repairIterations →
      (s.decided p).repairsLeft = s.repairsLeft := by
    intro hcharter hiterations
    show p.run.limits.maxRepairIterations - p.run.repairIterations = _
    rw [Run.limits_of_charter hcharter, hiterations]
    rfl
  rcases advanceCandidates_ok hlive hnr hp with
    hval | ⟨-, ⟨-, rfl⟩ | hrev | ⟨-, ⟨target, hmem, -, hrep⟩ | ⟨-, hfail⟩⟩⟩
  · -- the stage jobs are no more than the stages without a result, and all of them are open
    have hlen : p.followUps.length ≤ s.undone := by
      have hle := stageJobs_length_le (o := o) now s.run project issued candidates
      rw [(hperm.map undone).sum_eq] at hle
      rw [hval.followUps_eq]
      exact hle
    have hopen : p.followUps.length ≤ (s.decided p).openStages := by
      have hall : p.followUps.map (fun job => (Ticket.opened job).openStage) =
          p.followUps.map fun _ => 1 := by
        apply List.map_congr_left
        intro job hjob
        rw [hval.followUps_eq] at hjob
        obtain ⟨-, hjobs⟩ := stageJobs_spec (o := o) now s.run project issued candidates
        obtain ⟨c, -, stage, n, -, rfl⟩ := hjobs job hjob
        cases stage <;> rfl
      unfold State.openStages State.decided
      rw [List.map_append, List.sum_append, List.map_map]
      have hsum : (p.followUps.map (Ticket.openStage ∘ Ticket.opened)).sum =
          p.followUps.length := by
        rw [show Ticket.openStage ∘ Ticket.opened = fun job => (Ticket.opened job).openStage from rfl,
          hall]
        simp
      omega
    have hundone := h.undone_decided hperm (settle_id o now project) hval.candidates_eq
      hval.opened_eq hsettle
    have hafter : (s.decided p).spare = 5 * s.repairsLeft + 1 + s.undone := by
      unfold State.spare
      rw [show (s.decided p).run.status = .validating from hval.status]
      simp only [hrepairs hval.charter hval.repairIterations, hundone]
    exact ⟨by omega, fun _ => by omega⟩
  · have hundone := h.undone_decided (p := ⟨s.run, candidates.map (o.settle now project), [], [],
      issued⟩) hperm (settle_id o now project) rfl rfl hsettle
    have hafter : (s.decided ⟨s.run, candidates.map (o.settle now project), [], [],
        issued⟩).spare = s.spare := by
      rw [hspare]
      unfold State.spare
      rw [show (s.decided _).run.status = s.run.status from rfl]
      simp only [hrepairs rfl rfl, hundone]
      rcases hrun with hrun | hrun <;> rw [hrun]
    exact ⟨Nat.zero_le _, fun _ => by rw [hafter, List.length_nil]; omega⟩
  · obtain ⟨best, -, -, -, hjobs⟩ := hrev.best
    have hundone := h.undone_decided hperm (settle_id o now project) hrev.candidates_eq
      hrev.opened_eq hsettle
    have hafter : (s.decided p).spare = 5 * s.repairsLeft + s.undone := by
      unfold State.spare
      rw [show (s.decided p).run.status = .reviewing from hrev.status]
      simp only [hrepairs hrev.charter hrev.repairIterations, hundone]
    have hone : p.followUps.length = 1 := by
      rw [hjobs]
      rfl
    exact ⟨by omega, fun _ => by omega⟩
  · exact h.affords_repair hperm (settle_id o now project) hmem hrep hsettle (by omega)
  · exact affords_failed hfail

/-- **Every decision stays within what the run may still open.** -/
theorem Live.affords (h : Live o project s) (hlive : s.run.isTerminal = false)
    (hsettled : Settled s) (hperm : candidates.Perm s.candidates)
    (hp : o.nextStep ws now issued s.run project candidates = .ok p) : Affords s p := by
  have hphase := h.phase
  unfold Phase at hphase
  unfold nextStep at hp
  cases hstatus : s.run.status <;> simp only [hstatus] at hphase hp
  case created =>
    have hspare : s.spare = allowed s.run := by
      unfold State.spare
      rw [hstatus]
    rcases openFirstStage_ok hp with ⟨planning, hplanning, rfl⟩ | ⟨coding, hcoding, hopened⟩
    · obtain ⟨hplan, hcharter⟩ : planning.status = .planning ∧ planning.charter = s.run.charter := by
        obtain ⟨-, rfl⟩ := Run.transitioning_after.mp hplanning
        exact ⟨rfl, rfl⟩
      have hafter : (s.decided ⟨planning, candidates, [], [o.planJob issued planning now],
          issued + 1⟩).spare = 4 * s.run.candidateCount + 5 * s.run.limits.maxRepairIterations + 1 := by
        unfold State.spare
        rw [show (s.decided ⟨planning, candidates, [], [o.planJob issued planning now],
          issued + 1⟩).run.status = .planning from hplan]
        show 4 * planning.candidateCount + 5 * planning.limits.maxRepairIterations + 1 = _
        rw [Run.candidateCount_of_charter hcharter, Run.limits_of_charter hcharter]
      unfold allowed at hspare
      exact ⟨by rw [List.length_singleton]; omega,
        fun _ => by rw [hafter, List.length_singleton]; omega⟩
    · obtain ⟨-, rfl⟩ := Run.transitioning_after.mp hcoding
      refine affords_opened hphase.1 ?_ ?_ hopened ?_
      · rfl
      · rfl
      · rw [hspare]
        unfold allowed
        omega
  case planning =>
    obtain ⟨t, ht, hopen, -⟩ := hphase.2
    rw [hsettled t ht] at hopen
    cases hopen
  case planReady =>
    obtain ⟨coding, hcoding, hp⟩ := bind_eq_ok.mp hp
    obtain ⟨-, rfl⟩ := Run.transitioning_after.mp hcoding
    refine affords_opened hphase ?_ ?_ (openCandidates_ok hp) ?_
    · rfl
    · rfl
    · unfold State.spare
      rw [hstatus]
  case coding => exact h.affords_round hlive hperm (.inl hstatus) hp
  case validating => exact h.affords_round hlive hperm (.inr hstatus) hp
  case reviewing =>
    have hspare : s.spare = 5 * s.repairsLeft + s.undone := by
      unfold State.spare
      rw [hstatus]
    rcases advanceReview_ok hlive hp with ⟨winner, hdone⟩ | ⟨-, ⟨target, hmem, hrep⟩ | ⟨-, hfail⟩⟩
    · constructor
      · rw [hdone.followUps_eq]
        exact Nat.zero_le _
      · intro hl
        rw [Run.isTerminal, show (s.decided p).run.status = .completed from hdone.status] at hl
        cases hl
    · exact h.affords_repair hperm (f := id) (fun _ => rfl) (by simpa using hmem)
        (by simpa using hrep) (fun _ => rfl) hspare.ge
    · exact affords_failed hfail

/-! ### Every step -/

/-- The bound speaks of what no step changes. -/
theorem Step.charter (hstep : Step o project s s') : s'.run.charter = s.run.charter := by
  cases hstep with
  | decided hlive _ _ hp _ _ => exact (nextStep_sound hlive hp).charter
  | planned _ _ _ _ _ hcharter _ => exact hcharter
  | coded _ _ _ _ _ _ hsame => exact hsame.charter
  | validated => rfl
  | reviewed _ _ _ _ _ hsame => exact hsame.charter
  | died _ _ hcharter => exact hcharter
  | dropped => rfl

/-- Closing a job keeps the number of jobs. -/
theorem length_close (id : JobId) : (s.close id).length = s.tickets.length := List.length_map _

/-- The bound on the total is kept when no job is opened. -/
theorem Within.of_total (h : Within s) (hlength : s'.tickets.length = s.tickets.length)
    (hcharter : s'.run.charter = s.run.charter)
    (hspared : s'.run.isTerminal = false →
      s'.tickets.length + s'.spare ≤ allowed s'.run + s'.openStages) : Within s' := by
  refine ⟨?_, hspared⟩
  rw [hlength, allowed_congr hcharter]
  exact h.total

/-- What may still be opened depends on the status, the budget and the missing results. -/
theorem spare_congr (hcharter : s'.run.charter = s.run.charter)
    (hstatus : s'.run.status = s.run.status)
    (hrepairs : s'.run.repairIterations = s.run.repairIterations) (hundone : s'.undone = s.undone) :
    s'.spare = s.spare := by
  unfold State.spare State.repairsLeft
  rw [hstatus, hundone, hrepairs, allowed_congr hcharter, Run.limits_of_charter hcharter,
    Run.candidateCount_of_charter hcharter]

/-- A stage that is no validation stage leaves the account as it is. -/
theorem Within.stage (h : Within s) (hkept : Kept o project s) {t : Ticket} (ht : t ∈ s.tickets)
    (htype : ValidationStage.ofJobType t.type = none) (htickets : s'.tickets = s.close t.id)
    (hcharter : s'.run.charter = s.run.charter)
    (hlive : s'.run.isTerminal = false → s.run.isTerminal = false)
    (hspare : Live o project s → s'.spare = s.spare) : Within s' := by
  have hlength : s'.tickets.length = s.tickets.length := by
    rw [htickets, length_close]
  refine h.of_total hlength hcharter fun hl => ?_
  have hkept := hkept.live (hlive hl)
  have hclose := openStages_close hkept.tickets ht
  have hnone : t.openStage = 0 := by simp [Ticket.openStage, htype]
  have hopen : s'.openStages = ((s.close t.id).map Ticket.openStage).sum := by
    rw [State.openStages, htickets]
  have := h.spared (hlive hl)
  rw [hlength, hspare hkept, allowed_congr hcharter]
  omega

/-- Replacing a candidate by one with the same report. -/
theorem undone_replace {changed : Candidate} (hids : (s.candidates.map Candidate.id).Nodup)
    (hc : c ∈ s.candidates) (hid : changed.id = c.id)
    (hresults : changed.validation.results = c.validation.results) :
    ((s.replace changed).map undone).sum = s.undone := by
  unfold State.undone State.replace Table.put
  rw [List.map_map]
  apply congrArg List.sum
  apply List.map_congr_left
  intro other hother
  simp only [Function.comp]
  split
  · rename_i heq
    have hsame : other = c := List.inj_on_of_nodup_map hids hother hc (heq.trans hid)
    rw [hsame]
    exact undone_congr hresults
  · rfl

/-- A recorded result leaves one stage less without a result. -/
theorem undone_replace_lt {changed : Candidate} (hids : (s.candidates.map Candidate.id).Nodup)
    (hc : c ∈ s.candidates) (hless : undone changed < undone c) (hid : changed.id = c.id) :
    ((s.replace changed).map undone).sum < s.undone := by
  unfold State.undone State.replace Table.put
  rw [List.map_map]
  apply List.sum_lt_sum
  · intro other hother
    simp only [Function.comp]
    split
    · rename_i heq
      have hsame : other = c := List.inj_on_of_nodup_map hids hother hc (heq.trans hid)
      rw [hsame]
      exact Nat.le_of_lt hless
    · exact Nat.le_refl _
  · refine ⟨c, hc, ?_⟩
    simp only [Function.comp, if_pos (show c.id = changed.stored.id from hid.symm)]
    exact hless

/-- **One step keeps the bound.** -/
theorem Step.within (hstep : Step o project s s') (hkept : Kept o project s) (h : Within s) :
    Within s' := by
  have hcharter := hstep.charter
  cases hstep with
  | decided hlive hsettled hperm hp hkeys hids =>
    have hafford := (hkept.live hlive).affords hlive hsettled hperm hp
    have hspared := h.spared hlive
    rw [openStages_settled hsettled] at hspared
    have hlength : ∀ p, (s.decided p).tickets.length = s.tickets.length + p.followUps.length := by
      intro p
      rw [State.decided, List.length_append, List.length_map]
    constructor
    · have := hafford.opens
      rw [hlength, allowed_congr hcharter]
      omega
    · intro hl
      have := hafford.leaves hl
      rw [hlength, allowed_congr hcharter]
      omega
  | @planned t run ht hopen htype hcan hstatus _ hrepairs =>
    have hlive : s.run.isTerminal = false := by
      cases hl : s.run.isTerminal with
      | false => rfl
      | true =>
        rw [RunStateMachine.can_of_terminal hl] at hcan
        cases hcan
    have hl := hkept.live hlive
    have hplanning : s.run.status = .planning := by
      cases hl.enabled t ht hopen with
      | plan _ _ hplanning => exact hplanning
      | code _ _ htype' => rw [htype] at htype'; cases htype'
      | stage stage _ _ htype' => rw [htype] at htype'; cases stage <;> cases htype'
      | review _ _ htype' => rw [htype] at htype'; cases htype'
    refine h.stage hkept ht (by rw [htype]; rfl) rfl hcharter (fun _ => hlive) fun _ => ?_
    have hcount : run.candidateCount = s.run.candidateCount := Run.candidateCount_of_charter hcharter
    have hlimits : run.limits = s.run.limits := Run.limits_of_charter hcharter
    unfold State.spare
    simp only [hstatus, hplanning, hcount, hlimits]
  | @coded t run candidate changed patch ht hopen htype hnamed hc hsubmits hsame =>
    refine h.stage hkept ht (by rw [htype]; rfl) rfl hcharter (fun hlive => ?_) fun hl => ?_
    · rw [Run.isTerminal, ← hsame.status]
      exact hlive
    · apply spare_congr hcharter hsame.status hsame.repairIterations
      exact undone_replace hl.ids hc hsubmits.id (by rw [hsubmits.validation])
  | @validated t stage candidate results ht hopen htype hnamed hc hran =>
    refine h.of_total (length_close _) hcharter fun hlive => ?_
    have hl := hkept.live hlive
    obtain ⟨-, hstage, hvalidating⟩ := hl.stage_enabled ht hopen htype hnamed hc
    obtain ⟨hconfigured, hnone⟩ := nextStage_some hstage
    unfold StageRan at hran
    rw [if_pos hconfigured] at hran
    obtain ⟨result, rfl, hkind⟩ := hran
    -- the closed job and its recorded stage cancel out
    have hless := undone_replace_lt hl.ids hc (undone_extended hnone hkind) rfl
    have hclose := openStages_close hl.tickets ht
    have hone := openStage_le t
    have hspared := h.spared hlive
    have hbefore : s.spare = 5 * s.repairsLeft + 1 + s.undone := by
      unfold State.spare
      rw [hvalidating]
    unfold State.spare
    simp only [hvalidating, State.undone, State.openStages, State.repairsLeft, length_close] at *
    omega
  | @reviewed t run candidate verdict ht hopen htype hnamed hc hsame =>
    refine h.stage hkept ht (by rw [htype]; rfl) rfl hcharter (fun hlive => ?_) fun hl => ?_
    · rw [Run.isTerminal, ← hsame.status]
      exact hlive
    · apply spare_congr hcharter hsame.status hsame.repairIterations
      exact undone_replace hl.ids hc rfl rfl
  | died _ hfailed _ =>
    refine h.of_total (length_close _) hcharter fun hlive => ?_
    rw [Run.isTerminal, hfailed] at hlive
    cases hlive
  | dropped hterminal =>
    refine h.of_total (length_close _) hcharter fun hlive => ?_
    rw [hterminal] at hlive
    cases hlive

end AgenticPlatform.Workflow
