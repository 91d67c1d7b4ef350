import AgenticPlatform.TerminalJobs
import AgenticPlatform.WorkspaceRelease

/-!
# Verdicts and reviews

A review writes a verdict on the candidate's row and appends a review document in one
transaction, and nothing clears the verdict later: a repair leaves it where it is. So on
every platform the verdict of a candidate is the one of the latest review of it, whatever
holders, maintenance and cancellation do in between.
-/

namespace AgenticPlatform

namespace Db

/-- Rows are stored without an event buffer. -/
structure Drained (db : Db) : Prop where
  runs : ∀ run ∈ db.runs, run.events = []
  candidates : ∀ candidate ∈ db.candidates, candidate.events = []

/-- The verdict of the latest review of a candidate. -/
def latestVerdict (db : Db) (candidateId : CandidateId) : Option ReviewVerdict :=
  ((db.reviewsOf candidateId).getLast?).map Review.verdict

end Db

/-- The identifier was drawn before `last`. -/
def Orchestrator.Issued (o : Orchestrator) (last : Nat) (id : CandidateId) : Prop :=
  ∃ n < last, id = ⟨o.ids.draw n⟩

/-- Every candidate carries the verdict of the latest review of it, and a candidate is
    finished only after its run. -/
structure Db.Judged (o : Orchestrator) (issued : Nat) (db : Db) : Prop where
  drawn : ∀ candidate ∈ db.candidates, o.Issued issued candidate.id
  reviewed : ∀ review ∈ db.reviews, o.Issued issued review.candidateId
  verdict : ∀ candidate ∈ db.candidates, candidate.reviewVerdict = db.latestVerdict candidate.id
  ended : ∀ candidate ∈ db.candidates, candidate.status.isTerminal = true → db.Ended candidate.runId
  drained : db.Drained

/-! ### Steps without a review -/

/-- The row of a candidate that was there before: the verdict stays, and the candidate is
    finished only after its run. -/
structure Candidate.Carried (db' : Db) (old candidate : Candidate) : Prop where
  id : candidate.id = old.id
  runId : candidate.runId = old.runId
  reviewVerdict : candidate.reviewVerdict = old.reviewVerdict
  ended : candidate.status.isTerminal = true → old.status.isTerminal = true ∨ db'.Ended old.runId

/-- The row of a candidate opened in between. -/
structure Candidate.Begun (o : Orchestrator) (first last : Nat) (candidate : Candidate) : Prop where
  drawn : ∃ n, first ≤ n ∧ n < last ∧ candidate.id = ⟨o.ids.draw n⟩
  reviewVerdict : candidate.reviewVerdict = none
  live : candidate.status.isTerminal = false

/-- Nothing was reviewed in between. -/
structure Db.Continues (o : Orchestrator) (first last : Nat) (db db' : Db) : Prop where
  grows : first ≤ last
  reviews : db'.reviews = db.reviews
  candidates : ∀ candidate ∈ db'.candidates,
    (∃ old ∈ db.candidates, Candidate.Carried db' old candidate) ∨ candidate.Begun o first last
  ended : ∀ runId, db.Ended runId → db'.Ended runId
  drained : db.Drained → db'.Drained

theorem Orchestrator.Issued.mono {o : Orchestrator} {first last : Nat} {id : CandidateId}
    (h : o.Issued first id) (hle : first ≤ last) : o.Issued last id := by
  obtain ⟨n, hn, hid⟩ := h
  exact ⟨n, Nat.lt_of_lt_of_le hn hle, hid⟩

theorem Candidate.Carried.refl {db' : Db} (candidate : Candidate) :
    Candidate.Carried db' candidate candidate :=
  ⟨rfl, rfl, rfl, .inl⟩

namespace Db

variable {o : Orchestrator} {first last : Nat} {db db' : Db}

theorem latestVerdict_congr (h : db'.reviews = db.reviews) (id : CandidateId) :
    db'.latestVerdict id = db.latestVerdict id := by
  unfold latestVerdict reviewsOf
  rw [h]

/-- A candidate nobody knew has no review. -/
theorem Judged.latestVerdict_new (h : db.Judged o first) {n : Nat} (hn : first ≤ n) :
    db.latestVerdict ⟨o.ids.draw n⟩ = none := by
  have hnone : db.reviewsOf ⟨o.ids.draw n⟩ = [] := by
    unfold reviewsOf
    rw [List.filter_eq_nil_iff]
    intro review hmem heq
    obtain ⟨m, hm, hid⟩ := h.reviewed review hmem
    rw [of_decide_eq_true heq] at hid
    have := o.ids.draw_injective n m (congrArg EntityId.value hid)
    omega
  unfold latestVerdict
  rw [hnone]
  rfl

theorem Judged.continued (h : db.Judged o first) (hstep : Continues o first last db db') :
    db'.Judged o last := by
  constructor
  · intro candidate hmem
    rcases hstep.candidates candidate hmem with ⟨old, hold, hcarried⟩ | hbegun
    · rw [hcarried.id]
      exact (h.drawn old hold).mono hstep.grows
    · obtain ⟨n, -, hlast, hid⟩ := hbegun.drawn
      exact ⟨n, hlast, hid⟩
  · intro review hmem
    rw [hstep.reviews] at hmem
    exact (h.reviewed review hmem).mono hstep.grows
  · intro candidate hmem
    rw [latestVerdict_congr hstep.reviews]
    rcases hstep.candidates candidate hmem with ⟨old, hold, hcarried⟩ | hbegun
    · rw [hcarried.reviewVerdict, hcarried.id]
      exact h.verdict old hold
    · obtain ⟨n, hfirst, -, hid⟩ := hbegun.drawn
      rw [hbegun.reviewVerdict, hid, h.latestVerdict_new hfirst]
  · intro candidate hmem hterminal
    rcases hstep.candidates candidate hmem with ⟨old, hold, hcarried⟩ | hbegun
    · rw [hcarried.runId]
      rcases hcarried.ended hterminal with hbefore | hended
      · exact hstep.ended _ (h.ended old hold hbefore)
      · exact hended
    · rw [hbegun.live] at hterminal
      cases hterminal
  · exact hstep.drained h.drained

/-- Jobs, events and documents other than reviews do not matter. -/
theorem Continues.of_tables (hruns : db'.runs = db.runs) (hcandidates : db'.candidates = db.candidates)
    (hreviews : db'.reviews = db.reviews) : Continues o first first db db' := by
  refine ⟨Nat.le_refl _, hreviews, ?_, fun runId hended => hended.of_runs hruns, ?_⟩
  · intro candidate hmem
    rw [hcandidates] at hmem
    exact .inl ⟨candidate, hmem, .refl candidate⟩
  · intro hdrained
    constructor
    · rw [hruns]
      exact hdrained.runs
    · rw [hcandidates]
      exact hdrained.candidates

theorem Continues.refl (db : Db) : Continues o first first db db := .of_tables rfl rfl rfl

/-- What is written to the table of runs is drained. -/
theorem drained_put {run : Run} (h : ∀ row ∈ db.runs, row.events = []) :
    ∀ row ∈ Table.put Run.id db.runs run.stored, row.events = [] := by
  intro row hmem
  rcases Table.mem_put.mp hmem with ⟨rfl, -⟩ | ⟨hmem, -⟩
  · rfl
  · exact h row hmem

/-- The row of one run is overwritten, and the run is not revived. -/
theorem Continues.of_put {run old : Run} (hrow : db.run? run.id = some old)
    (hended : old.isTerminal = true → run.isTerminal = true)
    (hruns : db'.runs = Table.put Run.id db.runs run.stored)
    (hcandidates : db'.candidates = db.candidates) (hreviews : db'.reviews = db.reviews) :
    Continues o first first db db' := by
  refine ⟨Nat.le_refl _, hreviews, ?_, ?_, ?_⟩
  · intro candidate hmem
    rw [hcandidates] at hmem
    exact .inl ⟨candidate, hmem, .refl candidate⟩
  · intro runId hbefore
    rw [ended_put runId hrow hruns]
    split
    · rename_i hid
      subst hid
      obtain ⟨found, hfound, hterminal⟩ := hbefore
      rw [hrow] at hfound
      cases hfound
      exact hended hterminal
    · exact hbefore
  · intro hdrained
    constructor
    · rw [hruns]
      exact drained_put hdrained.runs
    · rw [hcandidates]
      exact hdrained.candidates

end Db

/-! ### What decides nothing -/

namespace Orchestrator

variable {o : Orchestrator} {a : Answers} {job : Job} {w : World} {db db' : Db} {effect : Effect}
  {first : Nat}

theorem cancelling_continues (h : (cancelling a job db).result = .ok db') :
    Db.Continues o first first db db' := by
  rcases cancelling_cases a job db with ⟨e, hcall⟩ | ⟨-, hcall⟩
  · rw [hcall] at h
    cases h
  · rw [hcall] at h
    cases h
    exact .of_tables rfl rfl rfl

/-- The row a failed run is written to. -/
theorem fail_row {run failed : Run} {now : Instant} {kind : FailureKind} {reason : String}
    {runId : RunId} (hrow : db.run? runId = some run) (hlive : run.isTerminal = false)
    (h : (run.fail now kind reason).after = .ok failed) :
    db.run? failed.id = some run ∧ failed.isTerminal = true := by
  obtain ⟨failed', hfailed', hstatus, hcharter⟩ := Run.fail_of_live hlive now kind reason
  rw [hfailed', Except.ok.injEq] at h
  subst h
  have hid : failed'.id = runId := (Run.id_of_charter hcharter).trans (Table.find_key hrow)
  constructor
  · rw [hid]
    exact hrow
  · simp [Run.isTerminal, hstatus, RunStatus.isTerminal]

theorem recordFailure_continues {now : Instant} {e : PyError} {retryable : Bool}
    (h : recordFailure now job e retryable db = .ok db') : Db.Continues o first first db db' := by
  unfold recordFailure at h
  obtain ⟨stored, hstored, h⟩ := bind_eq_ok.mp h
  obtain ⟨-, rfl⟩ := Db.updateJob_eq_ok hstored
  split at h
  · cases h
    exact .of_tables rfl rfl rfl
  · rename_i run hrun
    split at h
    · rename_i hfails
      obtain ⟨failed, hfailed, h⟩ := bind_eq_ok.mp h
      cases h
      obtain ⟨hrow, hterminal⟩ := fail_row hrun hfails.2.1 hfailed
      have hread : db.run? failed.id = some run := hrow
      exact .of_put hread (fun _ => hterminal) rfl rfl rfl
    · cases h
      exact .of_tables rfl rfl rfl

theorem handleDeadJob_continues (now : Instant) (job : Job) (w : World) :
    Db.Continues o first first w.db (handleDeadJob now job w).self.db := by
  unfold handleDeadJob
  split
  · exact .refl _
  · rename_i run hrun
    split
    · exact .refl _
    · rename_i hlive
      split
      · exact .refl _
      · rename_i failed hfailed
        obtain ⟨hrow, hterminal⟩ := fail_row hrun (by simpa using hlive) hfailed
        exact .of_put hrow (fun _ => hterminal) rfl rfl rfl

theorem handleDeadJob_issued (now : Instant) (job : Job) (w : World) :
    (handleDeadJob now job w).self.issued = w.issued := by
  unfold handleDeadJob
  split
  · rfl
  · split
    · rfl
    · split <;> rfl

theorem handleDeadJob_judged (now : Instant) (job : Job) (hjudged : w.db.Judged o w.issued) :
    (handleDeadJob now job w).self.db.Judged o (handleDeadJob now job w).self.issued := by
  rw [handleDeadJob_issued]
  exact hjudged.continued (handleDeadJob_continues now job w)

end Orchestrator

theorem Candidate.cancel_reviewVerdict (candidate : Candidate) (now : Instant) :
    (candidate.cancel now).id = candidate.id ∧
      (candidate.cancel now).reviewVerdict = candidate.reviewVerdict := by
  unfold Candidate.cancel
  split <;> exact ⟨rfl, rfl⟩

/-- A cancellation finishes candidates, and their run with them. -/
theorem cancelRunCommit_continues {o : Orchestrator} {first : Nat} {now : Instant} {runId : RunId}
    {reason : Option String} {db db' : Db}
    (h : cancelRunCommit now runId reason db = .ok (some db')) :
    Db.Continues o first first db db' := by
  have hended := fun id => (cancelRunCommit_ended id h).1
  obtain ⟨old, run, hold, -, -, -, hstatus, hcharter, -, -, rfl⟩ := Db.cancelRunCommit_ok h
  have hid : run.id = runId := (Run.id_of_charter hcharter).trans (Table.find_key hold)
  have hterminal : (db.cancelRun run now).Ended run.id := by
    rw [Db.ended_put run.id (hid ▸ hold) rfl, if_pos rfl]
    simp [Run.isTerminal, hstatus, RunStatus.isTerminal]
  refine ⟨Nat.le_refl _, rfl, ?_, hended, ?_⟩
  · intro candidate hmem
    rcases Table.mem_putAll hmem with hmem | hmem
    · exact .inl ⟨candidate, hmem, .refl candidate⟩
    · obtain ⟨cancelled, hcancelled, rfl⟩ := List.mem_map.mp hmem
      obtain ⟨before, hbefore, rfl⟩ := List.mem_map.mp hcancelled
      obtain ⟨hmem, hrunId⟩ := Db.mem_candidatesOf.mp hbefore
      have hframe := before.cancel_reviewVerdict now
      refine .inl ⟨before, hmem, hframe.1, (before.cancel_frame now).1, hframe.2, ?_⟩
      intro _
      rw [hrunId]
      exact .inr hterminal
  · intro hdrained
    constructor
    · exact Db.drained_put hdrained.runs
    · intro candidate hmem
      rcases Table.mem_putAll hmem with hmem | hmem
      · exact hdrained.candidates candidate hmem
      · obtain ⟨cancelled, -, rfl⟩ := List.mem_map.mp hmem
        rfl

/-! ### Stages -/

namespace Orchestrator

variable {o : Orchestrator} {a : Answers} {job : Job} {w : World} {effect : Effect}

theorem runPlanner_review (h : o.runPlanner a job w = .ok effect) : effect.review = none := by
  unfold runPlanner at h
  obtain ⟨run, -, h⟩ := bind_eq_ok.mp h
  obtain ⟨-, -, h⟩ := bind_eq_ok.mp h
  obtain ⟨outcome, -, h⟩ := bind_eq_ok.mp h
  obtain ⟨plan, -, h⟩ := bind_eq_ok.mp h
  obtain ⟨-, -, h⟩ := bind_eq_ok.mp h
  obtain ⟨-, -, h⟩ := bind_eq_ok.mp h
  obtain ⟨ready, -, h⟩ := bind_eq_ok.mp h
  cases h
  rfl

theorem reviewBuild_candidateId {id : ReviewId} {runId : RunId} {candidateId : CandidateId}
    {verdict : ReviewVerdict} {iteration : Nat} {now : Instant} {summary promptVersion : String}
    {findings : List ReviewFinding} {review : Review}
    (h : Review.build id runId candidateId verdict iteration now summary findings promptVersion =
      .ok review) : review.candidateId = candidateId := by
  unfold Review.build at h
  split at h
  · split at h
    · cases h
      rfl
    · cases h
  · cases h

/-- A review is about the candidate its job names. -/
theorem runReviewer_review (h : o.runReviewer a job w = .ok effect) :
    ∃ review, effect.review = some review ∧ job.candidateId = some review.candidateId := by
  unfold runReviewer at h
  obtain ⟨candidateId, hnamed, h⟩ := bind_eq_ok.mp h
  obtain ⟨run, -, h⟩ := bind_eq_ok.mp h
  obtain ⟨-, -, h⟩ := bind_eq_ok.mp h
  obtain ⟨candidate, -, h⟩ := bind_eq_ok.mp h
  obtain ⟨outcome, -, h⟩ := bind_eq_ok.mp h
  obtain ⟨findings, -, h⟩ := bind_eq_ok.mp h
  obtain ⟨review, hreview, h⟩ := bind_eq_ok.mp h
  obtain ⟨-, -, h⟩ := bind_eq_ok.mp h
  obtain ⟨-, -, h⟩ := bind_eq_ok.mp h
  cases h
  refine ⟨review, rfl, ?_⟩
  rw [namedCandidate_ok hnamed, reviewBuild_candidateId hreview]

theorem reviews_complete (db : Db) (effect : Effect) (done : Job) :
    (db.complete effect done).reviews = db.reviews ++ effect.review.toList := by
  unfold Db.complete
  cases effect.run <;> cases effect.candidate <;> rfl

theorem runs_complete (db : Db) (effect : Effect) (done : Job) :
    (db.complete effect done).runs = (db.withRun effect.run).runs := by
  unfold Db.complete
  cases effect.run <;> cases effect.candidate <;> rfl

theorem complete_drained (effect : Effect) (done : Job) (h : w.db.Drained) :
    (w.db.complete effect done).Drained := by
  constructor
  · rw [runs_complete]
    cases effect.run with
    | none => exact h.runs
    | some run => exact Db.drained_put h.runs
  · rw [candidates_complete]
    cases effect.candidate with
    | none => exact h.candidates
    | some changed =>
      intro candidate hmem
      rcases Table.mem_put.mp hmem with ⟨rfl, -⟩ | ⟨hmem, -⟩
      · rfl
      · exact h.candidates candidate hmem

/-- A stage that reviews nothing leaves every verdict where it is. -/
theorem complete_continues (h : o.stageEffect a job w = .ok effect) (done : Job)
    (hreview : effect.review = none)
    (hchanged : ∀ changed, effect.candidate = some changed → ∃ old ∈ w.db.candidates,
      changed.id = old.id ∧ changed.runId = old.runId ∧
        changed.reviewVerdict = old.reviewVerdict ∧ changed.status.isTerminal = false) :
    Db.Continues o w.issued effect.issued w.db (w.db.complete effect done) := by
  refine ⟨stageEffect_grows h, ?_, ?_, fun runId => (complete_ended runId h done).mpr,
    complete_drained effect done⟩
  · rw [reviews_complete, hreview]
    exact List.append_nil _
  · intro candidate hmem
    rw [candidates_complete] at hmem
    cases heq : effect.candidate with
    | none =>
      rw [heq] at hmem
      exact .inl ⟨candidate, hmem, .refl candidate⟩
    | some changed =>
      rw [heq] at hmem
      rcases Table.mem_put.mp hmem with ⟨rfl, -⟩ | ⟨hmem, -⟩
      · obtain ⟨old, hold, hid, hrunId, hverdict, hlive⟩ := hchanged changed heq
        refine .inl ⟨old, hold, hid, hrunId, hverdict, ?_⟩
        intro hterminal
        rw [show changed.stored.status = changed.status from rfl, hlive] at hterminal
        cases hterminal
      · exact .inl ⟨candidate, hmem, .refl candidate⟩

theorem latestVerdict_appended {db db' : Db} {review : Review}
    (h : db'.reviews = db.reviews ++ [review]) (id : CandidateId) :
    db'.latestVerdict id =
      if review.candidateId = id then some review.verdict else db.latestVerdict id := by
  unfold Db.latestVerdict Db.reviewsOf
  rw [h, List.filter_append]
  split
  · rename_i heq
    simp [heq]
  · rename_i hne
    simp [hne]

/-- **A review writes its verdict**: it becomes the latest one of its candidate, on the row
    as among the documents. -/
theorem complete_reviewed (hjudged : w.db.Judged o w.issued)
    (h : o.stageEffect a job w = .ok effect) (done : Job) {run : Run} {old : Candidate}
    {outcome : ReviewOutcome} (hp : Reviewed a job w effect run old outcome) {review : Review}
    (hreview : effect.review = some review) (hverdict : review.verdict = outcome.draft.verdict)
    (hnamed : job.candidateId = some review.candidateId) :
    (w.db.complete effect done).Judged o effect.issued := by
  have hid : review.candidateId = old.id := by
    rw [hp.named, Option.some.injEq] at hnamed
    exact hnamed.symm
  have hreviews : (w.db.complete effect done).reviews = w.db.reviews ++ [review] := by
    rw [reviews_complete, hreview]
    rfl
  have hold := Table.mem_of_find hp.candidate_row
  have hrows : ∀ candidate ∈ (w.db.complete effect done).candidates,
      (candidate = (old.recordReview outcome.draft.verdict).stored) ∨
        (candidate ∈ w.db.candidates ∧ candidate.id ≠ old.id) := by
    intro candidate hmem
    rw [candidates_complete, hp.candidate_eq] at hmem
    rcases Table.mem_put.mp hmem with ⟨rfl, -⟩ | hother
    · exact .inl rfl
    · exact .inr hother
  have hgrows := stageEffect_grows h
  constructor
  · intro candidate hmem
    rcases hrows candidate hmem with rfl | ⟨hother, -⟩
    · exact (hjudged.drawn old hold).mono hgrows
    · exact (hjudged.drawn candidate hother).mono hgrows
  · intro other hmem
    rw [hreviews] at hmem
    rcases List.mem_append.mp hmem with hmem | hmem
    · exact (hjudged.reviewed other hmem).mono hgrows
    · rw [List.mem_singleton.mp hmem, hid]
      exact (hjudged.drawn old hold).mono hgrows
  · intro candidate hmem
    rw [latestVerdict_appended hreviews, hid]
    rcases hrows candidate hmem with rfl | ⟨hother, hne⟩
    · have hsame : (old.recordReview outcome.draft.verdict).stored.id = old.id := rfl
      rw [hsame, if_pos rfl, hverdict]
      rfl
    · rw [if_neg (Ne.symm hne)]
      exact hjudged.verdict candidate hother
  · intro candidate hmem hterminal
    rw [complete_ended _ h done]
    rcases hrows candidate hmem with rfl | ⟨hother, -⟩
    · exact hjudged.ended old hold hterminal
    · exact hjudged.ended candidate hother hterminal
  · exact complete_drained effect done hjudged.drained

/-- A completed stage keeps verdicts and reviews in step. -/
theorem complete_judged (hjudged : w.db.Judged o w.issued)
    (h : o.stageEffect a job w = .ok effect) (done : Job) :
    (w.db.complete effect done).Judged o effect.issued := by
  rcases stageEffect_ok h with ⟨htype, run, run', outcome, hp⟩ |
    ⟨-, run, old, coded, outcome, hp⟩ | ⟨stage, -, run, project, old, coded, results, hp⟩ |
    ⟨htype, run, old, outcome, hp⟩
  · have hplan : o.runPlanner a job w = .ok effect := by
      rw [← h, stageEffect, htype]
    apply hjudged.continued
    apply complete_continues h done (runPlanner_review hplan)
    intro changed hchanged
    rw [hp.candidate_eq] at hchanged
    cases hchanged
  · apply hjudged.continued
    apply complete_continues h done hp.review_eq
    intro changed hchanged
    rw [hp.candidate_eq, Option.some.injEq] at hchanged
    subst hchanged
    refine ⟨old, Table.mem_of_find hp.candidate_row, hp.id, hp.runId, hp.reviewVerdict, ?_⟩
    rw [hp.status]
    rfl
  · apply hjudged.continued
    apply complete_continues h done hp.review_eq
    intro changed hchanged
    rw [hp.candidate_eq, Option.some.injEq] at hchanged
    subst hchanged
    refine ⟨old, Table.mem_of_find hp.candidate_row, ?_, ?_, ?_, ?_⟩ <;> rw [hp.changed_eq]
    rw [hp.validating]
    rfl
  · have hreviewer : o.runReviewer a job w = .ok effect := by
      rw [← h, stageEffect, htype]
    obtain ⟨review, hreview, hverdict⟩ := hp.review_eq
    obtain ⟨same, hsame, hnamed⟩ := runReviewer_review hreviewer
    rw [hreview, Option.some.injEq] at hsame
    subst hsame
    exact complete_reviewed hjudged h done hp hreview hverdict hnamed

end Orchestrator

/-! ### Decisions -/

namespace Orchestrator

variable {o : Orchestrator} {ws : Workspaces} {now : Instant} {issued : Nat} {run : Run}
  {project : Project} {candidates : List Candidate} {p : Progress}

/-- A candidate a decision leaves: its verdict is the one it had, and it is finished only
    together with the run. -/
structure Handed (run : Run) (old candidate : Candidate) : Prop where
  id : candidate.id = old.id
  runId : candidate.runId = old.runId
  reviewVerdict : candidate.reviewVerdict = old.reviewVerdict
  ended : candidate.status.isTerminal = true →
    old.status.isTerminal = true ∨ run.isTerminal = true

/-- A decision gives no verdict and takes none. -/
structure Impartial (candidates : List Candidate) (p : Progress) : Prop where
  kept : ∀ candidate ∈ p.candidates, ∃ old ∈ candidates, Handed p.run old candidate
  opened : ∀ candidate ∈ p.opened,
    candidate.reviewVerdict = none ∧ candidate.status.isTerminal = false

theorem Handed.refl (run : Run) (candidate : Candidate) : Handed run candidate candidate :=
  ⟨rfl, rfl, rfl, .inl⟩

theorem handed_settle (run : Run) (old : Candidate) :
    Handed run old (o.settle now project old) := by
  refine ⟨settle_id .., settle_runId .., settle_reviewVerdict .., ?_⟩
  intro hterminal
  rcases settle_cases o now project old with ⟨-, -, hstatus, -⟩ | ⟨-, heq⟩
  · rw [hstatus] at hterminal
    cases hterminal
  · rw [heq] at hterminal
    exact .inl hterminal

theorem handed_startRepair (run : Run) (now : Instant) {target : Candidate}
    (hlive : target.status.isTerminal = false) :
    Handed run target (target.startRepair now).self := by
  have hframe := startRepair_frame now target
  refine ⟨hframe.1, hframe.2.1, hframe.2.2.2, ?_⟩
  intro hterminal
  have hcoding : (target.startRepair now).self.status = .coding := by
    simp [Candidate.startRepair, hlive, Candidate.record]
  rw [hcoding] at hterminal
  cases hterminal

theorem handed_crown {winner old : Candidate} (hended : run.isTerminal = true) :
    Handed run old (crown now winner old) := by
  have hframe := crown_frame now winner old
  exact ⟨hframe.1, hframe.2.1, hframe.2.2.2.2, fun _ => .inr hended⟩

/-- Candidates that are handed on as they are after a validation round. -/
theorem impartial_of_settled (hcandidates : p.candidates = candidates.map (o.settle now project))
    (hopened : p.opened = []) : Impartial candidates p := by
  constructor
  · intro candidate hmem
    rw [hcandidates] at hmem
    obtain ⟨old, hold, rfl⟩ := List.mem_map.mp hmem
    exact ⟨old, hold, handed_settle p.run old⟩
  · rw [hopened]
    simp

theorem impartial_of_same (hcandidates : p.candidates = candidates) (hopened : p.opened = []) :
    Impartial candidates p := by
  constructor
  · intro candidate hmem
    rw [hcandidates] at hmem
    exact ⟨candidate, hmem, .refl p.run candidate⟩
  · rw [hopened]
    simp

theorem CandidatesOpened.fair (h : CandidatesOpened o now issued run candidates p) :
    Impartial candidates p := by
  obtain ⟨pairs, hopened, -, -, -, -, hall⟩ := h.pairs
  constructor
  · intro candidate hmem
    rw [h.candidates_eq] at hmem
    exact ⟨candidate, hmem, .refl p.run candidate⟩
  · intro candidate hmem
    rw [hopened] at hmem
    obtain ⟨pair, hpair, rfl⟩ := List.mem_map.mp hmem
    have hcand := (hall pair hpair).1
    refine ⟨hcand.reviewVerdict, ?_⟩
    rw [hcand.status]
    rfl

/-- A repair leaves the verdict of the candidate it sends back. -/
theorem Repaired.fair {settled : List Candidate} {target : Candidate}
    (h : Repaired o now issued run settled target p) (htarget : target ∈ settled)
    (hkept : ∀ candidate ∈ settled, ∃ old ∈ candidates, Handed p.run old candidate) :
    Impartial candidates p := by
  constructor
  · intro candidate hmem
    rw [h.candidates_eq] at hmem
    rcases Table.mem_put.mp hmem with ⟨rfl, -⟩ | ⟨hmem, -⟩
    · obtain ⟨old, hold, hhanded⟩ := hkept target htarget
      have hrepair := handed_startRepair p.run now h.live
      refine ⟨old, hold, hrepair.id.trans hhanded.id, hrepair.runId.trans hhanded.runId,
        hrepair.reviewVerdict.trans hhanded.reviewVerdict, ?_⟩
      intro hterminal
      rcases hrepair.ended hterminal with hbefore | hended
      · exact hhanded.ended hbefore
      · exact .inr hended
    · exact hkept candidate hmem
  · rw [h.opened_eq]
    simp

theorem openFirstStage_fair (h : o.openFirstStage ws now issued run candidates = .ok p) :
    Impartial candidates p := by
  rcases openFirstStage_ok h with ⟨planning, -, rfl⟩ | ⟨coding, -, hopened⟩
  · exact impartial_of_same rfl rfl
  · exact hopened.fair

theorem advanceCandidates_fair (hlive : run.isTerminal = false)
    (hnr : run.status ≠ .reviewing)
    (h : o.advanceCandidates now issued run project candidates = .ok p) :
    Impartial candidates p := by
  rcases advanceCandidates_ok hlive hnr h with
    hval | ⟨-, ⟨-, rfl⟩ | hrev | ⟨-, ⟨target, hmem, -, hrep⟩ | ⟨-, hfail⟩⟩⟩
  · exact impartial_of_settled hval.candidates_eq hval.opened_eq
  · exact impartial_of_settled rfl rfl
  · exact impartial_of_settled hrev.candidates_eq hrev.opened_eq
  · apply hrep.fair hmem
    intro candidate hsettled
    obtain ⟨old, hold, rfl⟩ := List.mem_map.mp hsettled
    exact ⟨old, hold, handed_settle p.run old⟩
  · exact impartial_of_settled hfail.candidates_eq hfail.opened_eq

theorem advanceReview_fair (hlive : run.isTerminal = false)
    (h : o.advanceReview ws now issued run candidates = .ok p) : Impartial candidates p := by
  rcases advanceReview_ok hlive h with
    ⟨winner, hdone⟩ | ⟨-, ⟨target, hmem, hrep⟩ | ⟨-, hfail⟩⟩
  · have hended : p.run.isTerminal = true := by
      unfold Run.isTerminal
      rw [hdone.status]
      rfl
    constructor
    · intro candidate hmem
      rw [hdone.candidates_eq] at hmem
      obtain ⟨old, hold, rfl⟩ := List.mem_map.mp hmem
      exact ⟨old, hold, handed_crown hended⟩
    · rw [hdone.opened_eq]
      simp
  · apply hrep.fair hmem
    intro candidate hcandidate
    exact ⟨candidate, hcandidate, .refl p.run candidate⟩
  · exact impartial_of_same hfail.candidates_eq hfail.opened_eq

theorem nextStep_fair (hlive : run.isTerminal = false)
    (h : o.nextStep ws now issued run project candidates = .ok p) : Impartial candidates p := by
  unfold nextStep at h
  split at h
  · exact openFirstStage_fair h
  · obtain ⟨coding, -, h⟩ := bind_eq_ok.mp h
    exact (openCandidates_ok h).fair
  · exact advanceCandidates_fair hlive (by simp [*]) h
  · exact advanceCandidates_fair hlive (by simp [*]) h
  · exact advanceCandidates_fair hlive (by simp [*]) h
  · exact advanceReview_fair hlive h
  · cases h
    exact impartial_of_same rfl rfl

/-- Storing a decision of a live run reviews nothing. -/
theorem store_continues {db : Db} {runId : RunId} (hrow : db.run? runId = some run)
    (hlive : run.isTerminal = false) (hcandidates : ∀ candidate ∈ candidates,
      candidate ∈ db.candidates ∧ candidate.runId = runId)
    (hsound : Sound o issued run candidates p) (hfair : Impartial candidates p) :
    Db.Continues o issued p.issued db (db.store p now) := by
  have hid : p.run.id = runId :=
    (Run.id_of_charter hsound.charter).trans (Table.find_key hrow)
  have hread : db.run? p.run.id = some run := by
    rw [hid]
    exact hrow
  have hended : ∀ id, (db.store p now).Ended id ↔
      if id = p.run.id then p.run.isTerminal = true else db.Ended id :=
    fun id => Db.ended_put id hread rfl
  refine ⟨hsound.grows, rfl, ?_, ?_, ?_⟩
  · intro candidate hmem
    rcases List.mem_append.mp hmem with hmem | hmem
    · rcases Table.mem_putAll hmem with hmem | hmem
      · exact .inl ⟨candidate, hmem, .refl candidate⟩
      · obtain ⟨changed, hchanged, rfl⟩ := List.mem_map.mp hmem
        obtain ⟨old, hold, hhanded⟩ := hfair.kept changed hchanged
        obtain ⟨hrowOld, hrunId⟩ := hcandidates old hold
        refine .inl ⟨old, hrowOld, hhanded.id, hhanded.runId, hhanded.reviewVerdict, ?_⟩
        intro hterminal
        rcases hhanded.ended hterminal with hbefore | hover
        · exact .inl hbefore
        · rw [hrunId, hended, if_pos hid.symm]
          exact .inr hover
    · obtain ⟨new, hnew, rfl⟩ := List.mem_map.mp hmem
      obtain ⟨hverdict, hopen⟩ := hfair.opened new hnew
      have hdrawn : new.id ∈ p.opened.map Candidate.id := List.mem_map_of_mem hnew
      exact .inr ⟨hsound.opened_drawn.of_mem hdrawn, hverdict, hopen⟩
  · intro id hbefore
    rw [hended]
    split
    · rename_i heq
      obtain ⟨found, hfound, hterminal⟩ := hbefore
      rw [heq, hread, Option.some.injEq] at hfound
      rw [← hfound, hlive] at hterminal
      cases hterminal
    · exact hbefore
  · intro hdrained
    constructor
    · exact Db.drained_put hdrained.runs
    · intro candidate hmem
      rcases List.mem_append.mp hmem with hmem | hmem
      · rcases Table.mem_putAll hmem with hmem | hmem
        · exact hdrained.candidates candidate hmem
        · obtain ⟨changed, -, rfl⟩ := List.mem_map.mp hmem
          rfl
      · obtain ⟨new, -, rfl⟩ := List.mem_map.mp hmem
        rfl

theorem advanceCommit_judged {runId : RunId} {w w' : World} {jobs : List Job}
    (hjudged : w.db.Judged o w.issued) (h : o.advanceCommit ws now runId w = .ok (w', jobs)) :
    w'.db.Judged o w'.issued := by
  rcases advanceCommit_ok h with ⟨rfl, -⟩ | ⟨run, project, p, hadv, hp, rfl, -⟩
  · exact hjudged
  · apply hjudged.continued
    apply store_continues hadv.run_row hadv.live _ (nextStep_sound hadv.live hp)
      (nextStep_fair hadv.live hp)
    intro candidate hmem
    exact Db.mem_candidatesOf.mp hmem

theorem startCommit_judged {runId : RunId} {w w' : World} {jobs : List Job}
    (hjudged : w.db.Judged o w.issued) (h : o.startCommit ws now runId w = .ok (w', jobs)) :
    w'.db.Judged o w'.issued := by
  unfold startCommit at h
  obtain ⟨run, hrun, h⟩ := bind_eq_ok.mp h
  have hrow := Db.requireRun_ok hrun
  split at h
  · cases h
    exact hjudged
  · rename_i hcreated
    obtain ⟨-, -, h⟩ := bind_eq_ok.mp h
    obtain ⟨p, hp, h⟩ := bind_eq_ok.mp h
    cases h
    have hlive : run.isTerminal = false := by
      unfold Run.isTerminal
      rw [not_not.mp hcreated]
      rfl
    apply hjudged.continued
    apply store_continues hrow hlive _ (openFirstStage_sound hp) (openFirstStage_fair hp)
    simp

end Orchestrator

/-! ### Whole runs -/

/-- One piece of a holder's work keeps verdicts and reviews in step. -/
theorem Holder.resume_judged (o : Orchestrator) (a : Answers) {w : World} (holder : Holder)
    (hjudged : w.db.Judged o w.issued) :
    (holder.resume o a w).world.db.Judged o (holder.resume o a w).world.issued := by
  cases holder with
  | claimed job lease =>
    simp only [Holder.resume]
    split
    · exact hjudged
    · split
      · exact hjudged
      · split
        · split
          · exact hjudged
          · rename_i db hdb
            exact hjudged.continued (Orchestrator.cancelling_continues hdb)
        · exact hjudged
  | working job lease =>
    simp only [Holder.resume]
    split
    · exact hjudged
    · rename_i effect heffect
      split
      · exact hjudged
      · rename_i db hdb
        obtain ⟨done, rfl⟩ := Orchestrator.completing_ok hdb
        exact Orchestrator.complete_judged hjudged heffect done
  | acknowledging job lease =>
    simp only [Holder.resume]
    split <;> exact hjudged
  | reporting job lease e =>
    simp only [Holder.resume]
    split
    · exact hjudged
    · rename_i db hdb
      exact hjudged.continued (Orchestrator.recordFailure_continues hdb)
  | releasing job lease decision =>
    simp only [Holder.resume]
    split
    · exact hjudged
    · split <;> exact hjudged
  | requeueing jobId reason =>
    simp only [Holder.resume]
    split
    · exact hjudged
    · split
      · exact hjudged
      · exact hjudged.continued (.of_tables rfl rfl rfl)

namespace System

variable {o : Orchestrator} {ws : Workspaces} {s s' : System}

/-- Every verdict of the platform is the one of the latest review. -/
def Judged (o : Orchestrator) (s : System) : Prop := s.world.db.Judged o s.world.issued

theorem expireRow_judged (now : Instant) (job : Job) (hjudged : s.Judged o) :
    (s.expireRow now job).Judged o := by
  unfold expireRow
  simp only
  split
  · split
    · exact hjudged
    · exact hjudged.continued (.of_tables rfl rfl rfl)
  · exact hjudged.continued (.of_tables rfl rfl rfl)

/-- **One move** keeps verdicts and reviews in step. -/
theorem step_judged {move : Move} (hjudged : s.Judged o) (hstep : s.step o ws move = some s') :
    s'.Judged o := by
  cases move with
  | claim consumer jobTypes duration now token =>
    simp only [System.step] at hstep
    split at hstep
    · cases hstep
    · split at hstep <;> cases hstep <;> exact hjudged
  | renew jobId token duration now =>
    cases hstep
    exact hjudged
  | resume token a =>
    simp only [System.step] at hstep
    split at hstep
    · cases hstep
    · rename_i holder hholder
      cases hstep
      exact holder.resume_judged o a hjudged
  | publish n =>
    simp only [System.step] at hstep
    split at hstep <;> cases hstep
    exact hjudged
  | advance now runId =>
    simp only [System.step] at hstep
    split at hstep
    · cases hstep
      exact hjudged
    · rename_i w jobs hcommit
      cases hstep
      exact Orchestrator.advanceCommit_judged hjudged hcommit
  | reclaim now limit =>
    simp only [System.step] at hstep
    split at hstep <;> cases hstep <;> exact hjudged
  | expire n now =>
    simp only [System.step] at hstep
    split at hstep
    · cases hstep
    · split at hstep
      · cases hstep
        exact hjudged
      · rename_i job hjob
        split at hstep
        · cases hstep
          exact hjudged
        · cases hstep
          exact expireRow_judged now job hjudged
  | bury n now =>
    simp only [System.step] at hstep
    split at hstep
    · cases hstep
    · rename_i job hjob
      cases hstep
      exact Orchestrator.handleDeadJob_judged now job hjudged
  | cancel now runId reason =>
    simp only [System.step] at hstep
    split at hstep
    · rename_i db hdb
      cases hstep
      exact hjudged.continued (cancelRunCommit_continues hdb)
    · cases hstep
      exact hjudged
  | dropJobs n =>
    simp only [System.step] at hstep
    split at hstep <;> cases hstep
    exact hjudged

theorem perform_judged (o : Orchestrator) (s : System) (activity : Activity)
    (hjudged : s.Judged o) : (s.perform o activity).Judged o := by
  cases activity with
  | start ws now runId =>
    simp only [perform]
    split
    · exact hjudged
    · rename_i w jobs hcommit
      exact Orchestrator.startCommit_judged hjudged hcommit
  | move ws move =>
    simp only [perform]
    cases hstep : s.step o ws move with
    | none => exact hjudged
    | some next => exact step_judged hjudged hstep

end System

/-- A platform without candidates, its rows as a repository stores them. -/
structure World.Blank (w : World) : Prop where
  candidates : w.db.candidates = []
  reviews : w.db.reviews = []
  runs : ∀ run ∈ w.db.runs, run.events = []

theorem World.Blank.judged {w : World} (h : w.Blank) (o : Orchestrator) :
    w.db.Judged o w.issued := by
  refine ⟨?_, ?_, ?_, ?_, h.runs, ?_⟩
  · rw [h.candidates]
    simp
  · rw [h.reviews]
    simp
  · rw [h.candidates]
    simp
  · rw [h.candidates]
    simp
  · rw [h.candidates]
    simp

/-- **Verdicts and reviews stay in step**, whatever happens to the platform. -/
theorem System.after_judged (o : Orchestrator) {w : World} (h : w.Blank)
    (activities : List System.Activity) :
    (Runs.after (System.perform o) (System.idle w) activities).Judged o :=
  Runs.after_invariant (I := System.Judged o) (h.judged o) (System.perform_judged o)

end AgenticPlatform
