import AgenticPlatform.Candidate
import AgenticPlatform.Runs

/-!
# How fresh the evidence about a candidate is

Beside the candidate a log is kept of what was attached to it since its latest patch.
The evidence is fresh if all of it is in that log. `startRepair` clears the results but
not the verdict and `startCoding` clears nothing, so a patch can be submitted while
evidence about the one before it is still attached: that, and nothing else, makes
evidence stale.
-/

namespace AgenticPlatform

/-- The methods that move a candidate through its life, with their arguments. -/
inductive CandidateOp where
  | startCoding (now : Instant) (jobId : Option JobId)
  | submitPatch (patch : Patch) (summary : String) (uncertainties : List String)
  | startValidation (now : Instant)
  | appendValidation (results : List ToolResult)
  | recordValidation (now : Instant) (report : Option ValidationReport)
      (staticAnalysisIsBlocking : Bool)
  | recordReview (verdict : ReviewVerdict)
  | startRepair (now : Instant)
  | select (now : Instant)
  | reject (now : Instant) (reason : String)
  | fail (now : Instant) (kind : FailureKind) (reason : String)
  | cancel (now : Instant)

/-- What was attached since the latest patch: tool results in the order in which they
    were, and the last verdict. -/
structure Evidence where
  results : List ToolResult := []
  verdict : Option ReviewVerdict := none

/-- The evidence after one more accepted call. A report given to `record_validation` is
    attached by that call. -/
def Evidence.accept (evidence : Evidence) : CandidateOp → Evidence
  | .submitPatch _ _ _ => {}
  | .appendValidation results => { evidence with results := evidence.results ++ results }
  | .recordValidation _ (some report) _ =>
      { evidence with results := evidence.results ++ report.results }
  | .recordReview verdict => { evidence with verdict := some verdict }
  | _ => evidence

namespace Candidate

def perform (candidate : Candidate) : CandidateOp → Call Candidate Unit
  | .startCoding now jobId => candidate.startCoding now jobId
  | .submitPatch patch summary uncertainties => candidate.submitPatch patch summary uncertainties
  | .startValidation now => candidate.startValidation now
  | .appendValidation results => candidate.appendValidation results
  | .recordValidation now report staticAnalysisIsBlocking =>
      candidate.recordValidation now report staticAnalysisIsBlocking
  | .recordReview verdict => .returned (candidate.recordReview verdict) ()
  | .startRepair now => candidate.startRepair now
  | .select now => candidate.select now
  | .reject now reason => .returned (candidate.reject now reason) ()
  | .fail now kind reason => .returned (candidate.fail now kind reason) ()
  | .cancel now => .returned (candidate.cancel now) ()

end Candidate

/-- A candidate next to the log of what was attached since its latest patch. -/
structure Attested where
  candidate : Candidate
  since : Evidence

namespace Attested

def create (candidateId : CandidateId) (runId : RunId) (index : Nat) (now : Instant) : Attested :=
  ⟨.create candidateId runId index now, {}⟩

/-- One call; a call that raises attaches nothing. -/
def step (attested : Attested) (op : CandidateOp) : Attested where
  candidate := (attested.candidate.perform op).self
  since :=
    match (attested.candidate.perform op).result with
    | .ok () => attested.since.accept op
    | .error _ => attested.since

/-- All evidence on the candidate was attached since its latest patch: the results are
    the last of the log, the verdict is the one of the log. -/
structure Fresh (attested : Attested) : Prop where
  results : attested.candidate.validation.results <:+ attested.since.results
  verdict : attested.candidate.reviewVerdict ≠ none →
    attested.candidate.reviewVerdict = attested.since.verdict

/-- A patch is accepted only of a candidate without evidence. -/
def Clean (attested : Attested) : CandidateOp → Prop
  | .submitPatch _ _ _ => attested.candidate.status = .coding →
      attested.candidate.validation.results = [] ∧ attested.candidate.reviewVerdict = none
  | _ => True

instance Clean.decidable (attested : Attested) : ∀ op, Decidable (attested.Clean op)
  | .submitPatch _ _ _ => inferInstanceAs (Decidable (_ → _ ∧ _))
  | .startCoding _ _ | .startValidation _ | .appendValidation _ | .recordValidation _ _ _
  | .recordReview _ | .startRepair _ | .select _ | .reject _ _ | .fail _ _ _ | .cancel _ =>
      isTrue trivial

variable {attested : Attested}

/-- A call that leaves the evidence of the candidate and the log alone. -/
theorem Fresh.of_same {op : CandidateOp} (h : attested.Fresh)
    (hvalidation : (attested.step op).candidate.validation = attested.candidate.validation)
    (hverdict : (attested.step op).candidate.reviewVerdict = attested.candidate.reviewVerdict)
    (hsince : (attested.step op).since = attested.since) : (attested.step op).Fresh := by
  constructor
  · rw [hvalidation, hsince]
    exact h.results
  · rw [hverdict, hsince]
    exact h.verdict

/-- A call that raises attaches nothing. -/
theorem step_raised {op : CandidateOp} {e : PyError}
    (h : attested.candidate.perform op = .raised attested.candidate e) :
    attested.step op = attested := by
  unfold step
  rw [h]
  rfl

theorem submitPatch_fresh {patch : Patch} {summary : String} {uncertainties : List String}
    (h : attested.Fresh) : (attested.step (.submitPatch patch summary uncertainties)).Fresh ↔
      attested.Clean (.submitPatch patch summary uncertainties) := by
  by_cases hcoding : attested.candidate.status = .coding
  · have hstep : attested.step (.submitPatch patch summary uncertainties) =
        ⟨{ attested.candidate with patch := some patch, summary, uncertainties }, {}⟩ := by
      simp [step, Candidate.perform, Candidate.submitPatch, hcoding, Evidence.accept]
    rw [hstep]
    constructor
    · rintro ⟨hresults, hverdict⟩ -
      refine ⟨List.suffix_nil.mp hresults, ?_⟩
      cases hset : attested.candidate.reviewVerdict with
      | none => rfl
      | some verdict => exact hset.symm.trans (hverdict (by simp [hset]))
    · intro hclean
      obtain ⟨hresults, hverdict⟩ := hclean hcoding
      constructor
      · simp [hresults]
      · exact fun _ => hverdict
  · have hraised : attested.candidate.perform (.submitPatch patch summary uncertainties) =
        .raised attested.candidate (attested.candidate.transitionError .validating) := if_neg hcoding
    rw [step_raised hraised]
    exact ⟨fun _ hc => absurd hc hcoding, fun _ => h⟩

theorem appendValidation_fresh {results : List ToolResult} (h : attested.Fresh) :
    (attested.step (.appendValidation results)).Fresh := by
  by_cases hvalidating : attested.candidate.status = .validating
  · obtain ⟨earlier, hearlier⟩ := h.results
    constructor
    · refine ⟨earlier, ?_⟩
      simp [step, Candidate.perform, Candidate.appendValidation, hvalidating, Evidence.accept,
        ValidationReport.extendedWith, ← hearlier]
    · simpa [step, Candidate.perform, Candidate.appendValidation, hvalidating, Evidence.accept]
        using h.verdict
  · have hraised : attested.candidate.perform (.appendValidation results) =
        .raised attested.candidate (attested.candidate.transitionError .validating) :=
      if_neg hvalidating
    rw [step_raised hraised]
    exact h

theorem recordValidation_fresh {now : Instant} {report : Option ValidationReport} {blocking : Bool}
    (h : attested.Fresh) : (attested.step (.recordValidation now report blocking)).Fresh := by
  by_cases hvalidating : attested.candidate.status = .validating
  · cases report with
    | none =>
      constructor
      · simpa [step, Candidate.perform, Candidate.recordValidation, hvalidating, Evidence.accept,
          Candidate.record] using h.results
      · simpa [step, Candidate.perform, Candidate.recordValidation, hvalidating, Evidence.accept,
          Candidate.record] using h.verdict
    | some report =>
      constructor
      · refine ⟨attested.since.results, ?_⟩
        simp [step, Candidate.perform, Candidate.recordValidation, hvalidating, Evidence.accept,
          Candidate.record]
      · simpa [step, Candidate.perform, Candidate.recordValidation, hvalidating, Evidence.accept,
          Candidate.record] using h.verdict
  · have hraised : attested.candidate.perform (.recordValidation now report blocking) =
        .raised attested.candidate (attested.candidate.transitionError .validated) :=
      if_neg hvalidating
    rw [step_raised hraised]
    exact h

theorem startRepair_fresh {now : Instant} (h : attested.Fresh) :
    (attested.step (.startRepair now)).Fresh := by
  by_cases hover : attested.candidate.status.isTerminal = true
  · have hraised : attested.candidate.perform (.startRepair now) =
        .raised attested.candidate (attested.candidate.transitionError .coding) := if_pos hover
    rw [step_raised hraised]
    exact h
  · constructor
    · simp [step, Candidate.perform, Candidate.startRepair, hover, Evidence.accept, Candidate.record]
    · simpa [step, Candidate.perform, Candidate.startRepair, hover, Evidence.accept, Candidate.record]
        using h.verdict

/-- **A call on a candidate with fresh evidence leaves it fresh exactly when it is clean.** -/
theorem step_fresh (h : attested.Fresh) (op : CandidateOp) :
    (attested.step op).Fresh ↔ attested.Clean op := by
  cases op with
  | submitPatch patch summary uncertainties => exact submitPatch_fresh h
  | appendValidation results => exact ⟨fun _ => trivial, fun _ => appendValidation_fresh h⟩
  | recordValidation now report blocking => exact ⟨fun _ => trivial, fun _ => recordValidation_fresh h⟩
  | startRepair now => exact ⟨fun _ => trivial, fun _ => startRepair_fresh h⟩
  | recordReview verdict => exact ⟨fun _ => trivial, fun _ => ⟨h.results, fun _ => rfl⟩⟩
  | startCoding now jobId =>
    refine ⟨fun _ => trivial, fun _ => ?_⟩
    by_cases hover : attested.candidate.status.isTerminal = true
    · have hraised : attested.candidate.perform (.startCoding now jobId) =
          .raised attested.candidate (attested.candidate.transitionError .coding) := if_pos hover
      rw [step_raised hraised]
      exact h
    · apply h.of_same <;>
        simp [step, Candidate.perform, Candidate.startCoding, hover, Candidate.record, Evidence.accept]
  | startValidation now =>
    refine ⟨fun _ => trivial, fun _ => ?_⟩
    by_cases hopen : attested.candidate.status = .coding ∨ attested.candidate.status = .validating
    · apply h.of_same <;>
        simp [step, Candidate.perform, Candidate.startValidation, hopen, Candidate.record,
          Evidence.accept]
    · have hraised : attested.candidate.perform (.startValidation now) =
          .raised attested.candidate (attested.candidate.transitionError .validating) := if_neg hopen
      rw [step_raised hraised]
      exact h
  | select now =>
    refine ⟨fun _ => trivial, fun _ => ?_⟩
    by_cases hselected : attested.candidate.status = .selected
    · apply h.of_same <;> simp [step, Candidate.perform, Candidate.select, hselected, Evidence.accept]
    · by_cases hover : attested.candidate.status.isTerminal = true
      · have hraised : attested.candidate.perform (.select now) =
            .raised attested.candidate (attested.candidate.transitionError .selected) :=
          (if_neg hselected).trans (if_pos hover)
        rw [step_raised hraised]
        exact h
      · apply h.of_same <;>
          simp [step, Candidate.perform, Candidate.select, hselected, hover, Candidate.finish,
            Candidate.record, Evidence.accept]
  | reject now reason =>
    refine ⟨fun _ => trivial, fun _ => ?_⟩
    by_cases hover : attested.candidate.status.isTerminal = true <;> apply h.of_same <;>
      simp [step, Candidate.perform, Candidate.reject, hover, Candidate.finish, Candidate.record,
        Evidence.accept]
  | fail now kind reason =>
    refine ⟨fun _ => trivial, fun _ => ?_⟩
    by_cases hover : attested.candidate.status.isTerminal = true <;> apply h.of_same <;>
      simp [step, Candidate.perform, Candidate.fail, hover, Candidate.finish, Candidate.record,
        Evidence.accept]
  | cancel now =>
    refine ⟨fun _ => trivial, fun _ => ?_⟩
    by_cases hover : attested.candidate.status.isTerminal = true <;> apply h.of_same <;>
      simp [step, Candidate.perform, Candidate.cancel, hover, Candidate.finish, Candidate.record,
        Evidence.accept]

/-! ### Sequences of calls -/

theorem create_fresh (candidateId : CandidateId) (runId : RunId) (index : Nat) (now : Instant) :
    (create candidateId runId index now).Fresh :=
  ⟨List.suffix_refl _, fun h => absurd rfl h⟩

/-- **Evidence about one patch stays off the next**, in every state of a sequence of calls,
    if and only if every patch is accepted without evidence in place; the evidence of a
    validated candidate is then about its patch. -/
theorem evidence_fresh (candidateId : CandidateId) (runId : RunId) (index : Nat) (now : Instant)
    (ops : List CandidateOp) :
    (Runs.Along step Clean (create candidateId runId index now) ops ↔
      Runs.Along step (fun attested op => (attested.step op).Fresh)
        (create candidateId runId index now) ops) ∧
    (Runs.Along step Clean (create candidateId runId index now) ops →
      (Runs.after step (create candidateId runId index now) ops).candidate.status = .validated →
      (Runs.after step (create candidateId runId index now) ops).Fresh) := by
  have hstart := create_fresh candidateId runId index now
  constructor
  · exact Runs.along_congr hstart (fun _ op h hclean => (step_fresh h op).mpr hclean)
      fun _ op h => (step_fresh h op).symm
  · exact fun h _ => h.invariant hstart fun _ op h hclean => (step_fresh h op).mpr hclean

/-- A candidate that is sent back before it was reviewed. -/
theorem evidence_fresh_sample :
    let ops : List CandidateOp := [.startCoding 1 none, .submitPatch ⟨"a", none, []⟩ "" [],
      .startValidation 2, .appendValidation [⟨"make", .build, "make", 2, "", "", 5, false, [], []⟩],
      .recordValidation 3 none false, .startRepair 4, .submitPatch ⟨"b", none, []⟩ "" [],
      .startValidation 5, .recordValidation 6 none false]
    (Runs.after step (create ⟨1⟩ ⟨2⟩ 0 0) ops).candidate.status = .validated ∧
      (Runs.after step (create ⟨1⟩ ⟨2⟩ 0 0) ops).Fresh :=
  ⟨rfl, (evidence_fresh ⟨1⟩ ⟨2⟩ 0 0 _).2 (by decide) rfl⟩

/-- **A verdict about the patch before**: the repair loop leaves it on the candidate, which
    is validated again before anybody reviewed the new patch. -/
theorem verdict_outlives_patch :
    let ops : List CandidateOp := [.startCoding 1 none, .submitPatch ⟨"a", none, []⟩ "" [],
      .startValidation 2, .recordValidation 3 none false, .recordReview .fail, .startRepair 4,
      .submitPatch ⟨"b", none, []⟩ "" [], .startValidation 5, .recordValidation 6 none false]
    (Runs.after step (create ⟨1⟩ ⟨2⟩ 0 0) ops).candidate.status = .validated ∧
      (Runs.after step (create ⟨1⟩ ⟨2⟩ 0 0) ops).candidate.reviewVerdict = some .fail ∧
      (Runs.after step (create ⟨1⟩ ⟨2⟩ 0 0) ops).since.verdict = none ∧
      ¬ (Runs.after step (create ⟨1⟩ ⟨2⟩ 0 0) ops).Fresh := by
  refine ⟨rfl, rfl, rfl, fun hfresh => ?_⟩
  have hverdict := hfresh.verdict (by decide)
  cases hverdict

end Attested

end AgenticPlatform
