import AgenticPlatform.CandidateVerdicts

/-!
# Who is sent back after a rejection

`_advance_review` asks the stored verdicts, not the job, which candidate was rejected,
and takes the first of the run's candidates that carries a FAIL. A verdict outlives the
repair it caused, so that is the candidate the latest review judged exactly when no
candidate listed before it was ever rejected.
-/

namespace AgenticPlatform

/-! ### What a decision sends back -/

/-- The candidate a `RepairRequested` names. -/
def EventBody.repairTarget : EventBody → Option CandidateId
  | .repairRequested _ candidateId _ _ => some candidateId
  | _ => none

namespace Db

/-- The latest review of a candidate of the run. -/
def latestReview (db : Db) (runId : RunId) : Option Review :=
  (db.reviews.filter fun review =>
    (db.candidatesOf runId).any fun candidate => candidate.id == review.candidateId).getLast?

/-- The candidates named by the repair requests logged in between. -/
def repairTargets (db db' : Db) : List CandidateId :=
  (db'.events.drop db.events.length).filterMap fun event => event.body.repairTarget

/-- The candidates the code jobs created in between are for. -/
def coderTargets (db db' : Db) : List (Option CandidateId) :=
  ((db'.jobs.drop db.jobs.length).filter fun job => job.type == .code).map Job.candidateId

/-- If the run may be repaired, this candidate is named, gets the coder job and codes again,
    and no other does; if it may not, nobody does. -/
structure SendsBack (run : Run) (id : CandidateId) (db db' : Db) : Prop where
  named : db.repairTargets db' = if run.canRepair then [id] else []
  jobs : db.coderTargets db' = if run.canRepair then [some id] else []
  coding : run.canRepair = true →
    ∃ candidate ∈ db'.candidates, candidate.id = id ∧ candidate.status = .coding
  others : ∀ candidate ∈ db'.candidates, candidate.status = .coding →
    (run.canRepair = true ∧ candidate.id = id) ∨
      ∃ old ∈ db.candidates, old.id = candidate.id ∧ old.status = .coding

end Db

/-- No candidate listed before this one carries a FAIL. -/
def FirstRejected (candidates : List Candidate) (id : CandidateId) : Prop :=
  ∀ candidate ∈ candidates.takeWhile fun candidate => candidate.id != id,
    candidate.reviewVerdict ≠ some .fail

/-! ### The candidate that was judged -/

section Lists

variable {α : Type} {p q : α → Bool} {xs : List α}

/-- The last of the elements that pass one filter is the last of those that pass another,
    if it passes that one too and all of those pass the first. -/
theorem getLast?_filter_of_imp {x : α} (h : (xs.filter p).getLast? = some x) (hx : q x = true)
    (himp : ∀ y ∈ xs, q y = true → p y = true) : (xs.filter q).getLast? = some x := by
  obtain ⟨before, hbefore⟩ := List.getLast?_eq_some_iff.mp h
  have hboth : xs.filter q = (xs.filter p).filter q := by
    rw [List.filter_filter]
    apply List.filter_congr
    intro y hy
    cases hq : q y with
    | false => rfl
    | true => rw [himp y hy hq, Bool.and_self]
  rw [hboth, hbefore, List.filter_append, List.filter_cons_of_pos hx, List.filter_nil,
    List.getLast?_concat]

/-- The first element that passes `q` also passes `p` exactly when nothing before the first
    that passes `p` passes `q`, provided all that pass `p` pass `q`. -/
theorem find?_iff_takeWhile {x : α} (h : xs.find? q = some x)
    (himp : ∀ y ∈ xs, p y = true → q y = true) (hsome : ∃ y ∈ xs, p y = true) :
    p x = true ↔ ∀ y ∈ xs.takeWhile fun y => !p y, q y = false := by
  induction xs with
  | nil => cases h
  | cons first rest ih =>
    cases hq : q first with
    | true =>
      rw [List.find?_cons_of_pos hq, Option.some.injEq] at h
      subst h
      cases hp : p first with
      | true => simp [hp]
      | false => simp [hp, hq]
    | false =>
      have hp : p first = false := by
        cases hp : p first with
        | false => rfl
        | true => rw [himp first List.mem_cons_self hp] at hq; cases hq
      rw [List.find?_cons_of_neg (by simp [hq])] at h
      have hrest : ∃ y ∈ rest, p y = true := by
        obtain ⟨y, hy, hpy⟩ := hsome
        rcases List.mem_cons.mp hy with rfl | hy
        · rw [hp] at hpy
          cases hpy
        · exact ⟨y, hy, hpy⟩
      rw [ih h (fun y hy => himp y (List.mem_cons_of_mem _ hy)) hrest]
      simp [hp, hq]

end Lists

namespace Db

variable {o : Orchestrator} {db : Db} {issued : Nat} {runId : RunId} {review : Review}

/-- The latest review of a run judged one of its candidates. -/
theorem latestReview_judges (h : db.latestReview runId = some review) :
    ∃ candidate ∈ db.candidatesOf runId, candidate.id = review.candidateId := by
  have hmem := List.mem_filter.mp (List.mem_of_getLast? h)
  obtain ⟨candidate, hcandidate, hid⟩ := List.any_eq_true.mp hmem.2
  exact ⟨candidate, hcandidate, by simpa using hid⟩

/-- Its verdict is the one the candidate carries. -/
theorem Judged.carries (hjudged : db.Judged o issued) (h : db.latestReview runId = some review)
    {candidate : Candidate} (hmem : candidate ∈ db.candidatesOf runId)
    (hid : candidate.id = review.candidateId) :
    candidate.reviewVerdict = some review.verdict := by
  have hlast : (db.reviewsOf candidate.id).getLast? = some review := by
    refine getLast?_filter_of_imp h ?_ ?_
    · simp [hid]
    · intro other _ hother
      rw [List.any_eq_true]
      refine ⟨candidate, hmem, ?_⟩
      rw [of_decide_eq_true hother]
      exact beq_self_eq_true _
  rw [hjudged.verdict candidate (mem_candidatesOf.mp hmem).1, latestVerdict, hlast]
  rfl

/-- The first candidate that carries a FAIL is the one that was judged exactly when none
    before that one carries a FAIL. -/
theorem Judged.first_rejected (hjudged : db.Judged o issued)
    (h : db.latestReview runId = some review) (hfail : review.verdict = .fail)
    {target : Candidate} (hfirst : (db.candidatesOf runId).find?
      (fun candidate => candidate.reviewVerdict == some .fail) = some target) :
    target.id = review.candidateId ↔ FirstRejected (db.candidatesOf runId) review.candidateId := by
  obtain ⟨judged, hmem, hid⟩ := latestReview_judges h
  have hiff := find?_iff_takeWhile (p := fun candidate => candidate.id == review.candidateId)
    hfirst ?_ ⟨judged, hmem, by simpa using hid⟩
  · simp only [beq_iff_eq, beq_eq_false_iff_ne] at hiff
    rw [hiff]
    rfl
  · intro candidate hcandidate hsame
    rw [hjudged.carries h hcandidate (by simpa using hsame), hfail]
    rfl

end Db

/-! ### The decision -/

namespace Run

variable {run : Run} {now : Instant}

/-- The candidates a run's buffered events name for repair. -/
def repairsNamed (run : Run) : List CandidateId :=
  run.events.filterMap fun event => event.body.repairTarget

theorem requestRepair_of_reviewing (hstatus : run.status = .reviewing) (hcan : run.canRepair = true)
    (candidateId : CandidateId) (reason : String) (now : Instant) :
    ∃ repairing, (run.requestRepair candidateId reason now).outcome = .ok (repairing, true) ∧
      repairing.status = .repairing ∧
      repairing.repairsNamed = run.repairsNamed ++ [candidateId] := by
  have hallowed : RunStateMachine.can run.status .repairing = true := by
    rw [hstatus]
    decide
  unfold requestRepair
  rw [if_pos hcan, transitioning_of_can hallowed]
  refine ⟨_, rfl, rfl, ?_⟩
  simp [repairsNamed, record, moved, EventBody.repairTarget]

theorem startCoding_of_repairing (hstatus : run.status = .repairing) (now : Instant) :
    ∃ coding, (run.startCoding now).after = .ok coding ∧
      coding.repairsNamed = run.repairsNamed := by
  have hallowed : RunStateMachine.can run.status .coding = true := by
    rw [hstatus]
    decide
  unfold startCoding
  rw [transitioning_of_can hallowed]
  refine ⟨_, rfl, ?_⟩
  simp [repairsNamed, record, moved, EventBody.repairTarget]

theorem fail_named (hlive : run.isTerminal = false) (now : Instant) (kind : FailureKind)
    (reason : String) :
    ∃ failed, (run.fail now kind reason).after = .ok failed ∧
      failed.repairsNamed = run.repairsNamed := by
  have hstatus : run.status.isTerminal = false := hlive
  unfold fail
  rw [if_neg (by simp [hstatus]), transitioning_of_can (RunStateMachine.can_failed hstatus)]
  refine ⟨_, rfl, ?_⟩
  simp [repairsNamed, record, moved, EventBody.repairTarget]

end Run

namespace Orchestrator

variable {o : Orchestrator} {ws : Workspaces} {now : Instant} {issued : Nat} {run : Run}
  {candidates : List Candidate} {target : Candidate} {p : Progress}

/-- A run under review that has a repair left spends it on the first target. -/
theorem repairOrFail_repairs (o : Orchestrator) (now : Instant) (issued : Nat)
    (candidates : List Candidate) (reason : String) (hstatus : run.status = .reviewing)
    (hcan : run.canRepair = true)
    (hlive : target.status.isTerminal = false) (rest : List Candidate) :
    ∃ p, o.repairOrFail now issued run candidates (target :: rest) reason = .ok p ∧
      p.run.repairsNamed = run.repairsNamed ++ [target.id] := by
  obtain ⟨repairing, hrequest, hrepairing, hnamed⟩ :=
    Run.requestRepair_of_reviewing hstatus hcan target.id reason now
  obtain ⟨coding, hcoding, hsame⟩ := Run.startCoding_of_repairing hrepairing now
  have hback : (target.startRepair now).after = .ok (target.startRepair now).self := by
    unfold Candidate.startRepair
    rw [if_neg (by simp [hlive])]
    rfl
  refine ⟨⟨coding, replaceCandidate candidates (target.startRepair now).self, [],
    [o.codeJob issued coding (target.startRepair now).self.id .high now], issued + 1⟩, ?_,
    hsame.trans hnamed⟩
  unfold repairOrFail
  simp only [hrequest, ok_bind, if_true, hback, hcoding, pure_eq_ok]

/-- A run that has none left fails. -/
theorem repairOrFail_fails (o : Orchestrator) (now : Instant) (issued : Nat)
    (candidates : List Candidate) (reason : String) (hlive : run.isTerminal = false)
    (hcan : run.canRepair = false) (target : Candidate) (rest : List Candidate) :
    ∃ p, o.repairOrFail now issued run candidates (target :: rest) reason = .ok p ∧
      p.run.repairsNamed = run.repairsNamed := by
  obtain ⟨failed, hfailed, hnamed⟩ :=
    Run.fail_named hlive now .review (reason ++ "; repair budget exhausted")
  refine ⟨⟨failed, candidates, [], [], issued⟩, ?_, hnamed⟩
  have hrefused : (run.requestRepair target.id reason now).outcome = .ok (run, false) := by
    unfold Run.requestRepair
    rw [if_neg (by simp [hcan])]
    rfl
  unfold repairOrFail
  simp only [hrefused, ok_bind, Bool.false_eq_true, if_false, failForReview, hfailed, pure_eq_ok]

/-- Without a PASS the first FAIL decides. -/
theorem advanceReview_of_rejected (hpass : ∀ candidate ∈ candidates,
      candidate.reviewVerdict ≠ some .pass)
    (hfirst : candidates.find? (fun candidate => candidate.reviewVerdict == some .fail) =
      some target) :
    o.advanceReview ws now issued run candidates =
      o.repairOrFail now issued run candidates [target] "the reviewer rejected every candidate" := by
  have hnone : (candidates.filter fun candidate => candidate.reviewVerdict.isSome).filter
      (fun candidate => candidate.reviewVerdict == some .pass) = [] := by
    rw [List.filter_eq_nil_iff]
    intro candidate hmem
    have := hpass candidate (List.mem_filter.mp hmem).1
    simpa using this
  have hfound : (candidates.filter fun candidate => candidate.reviewVerdict.isSome).find?
      (fun candidate => candidate.reviewVerdict == some .fail) = some target := by
    rw [List.find?_filter, ← hfirst]
    congr 1
    funext candidate
    cases candidate.reviewVerdict with
    | none => rfl
    | some verdict => cases verdict <;> rfl
  unfold advanceReview
  simp only [hnone, hfound]

/-- What a decision under review leaves once every candidate is rejected. -/
theorem nextStep_of_rejected (o : Orchestrator) (ws : Workspaces) (now : Instant) (issued : Nat)
    (project : Project) (hstatus : run.status = .reviewing)
    (hpass : ∀ candidate ∈ candidates, candidate.reviewVerdict ≠ some .pass)
    (hfirst : candidates.find? (fun candidate => candidate.reviewVerdict == some .fail) =
      some target) (hlive : target.status.isTerminal = false) :
    ∃ p, o.nextStep ws now issued run project candidates = .ok p ∧
      ((run.canRepair = true ∧ Repaired o now issued run candidates target p ∧
          p.run.repairsNamed = run.repairsNamed ++ [target.id]) ∨
        (run.canRepair = false ∧ Failed issued run candidates p ∧
          p.run.repairsNamed = run.repairsNamed)) := by
  have hopen : run.isTerminal = false := by
    unfold Run.isTerminal
    rw [hstatus]
    rfl
  have hstep : o.nextStep ws now issued run project candidates =
      o.repairOrFail now issued run candidates [target] "the reviewer rejected every candidate" := by
    unfold nextStep
    rw [hstatus]
    exact advanceReview_of_rejected hpass hfirst
  cases hcan : run.canRepair with
  | true =>
    obtain ⟨p, hp, hnamed⟩ := repairOrFail_repairs o now issued candidates
      "the reviewer rejected every candidate" hstatus hcan hlive []
    refine ⟨p, hstep.trans hp, .inl ⟨rfl, ?_, hnamed⟩⟩
    rcases repairOrFail_ok hopen hp with ⟨first, rest, htargets, hrepaired⟩ | ⟨hcond, -⟩
    · rw [(List.cons.inj htargets).1]
      exact hrepaired
    · rcases hcond with hnil | hrefused
      · cases hnil
      · rw [hcan] at hrefused
        cases hrefused
  | false =>
    obtain ⟨p, hp, hnamed⟩ := repairOrFail_fails o now issued candidates
      "the reviewer rejected every candidate" hopen hcan target []
    refine ⟨p, hstep.trans hp, .inr ⟨rfl, ?_, hnamed⟩⟩
    rcases repairOrFail_ok hopen hp with ⟨first, rest, -, hrepaired⟩ | ⟨-, hfailed⟩
    · rw [hrepaired.can_repair] at hcan
      cases hcan
    · exact hfailed

/-! ### What is stored of it -/

theorem codeJob_names_nobody (run : Run) (id : CandidateId) (priority : Priority) (n : Nat) :
    ((o.codeJob n run id priority now).persisted now).events.filterMap
      (fun event => event.body.repairTarget) = [] := rfl

/-- Candidates as they are after a repair name nobody. -/
theorem candidates_name_nobody (hdrained : ∀ candidate ∈ candidates, candidate.events = [])
    (htarget : target.events = []) :
    ((replaceCandidate candidates (target.startRepair now).self).flatMap Candidate.events).filterMap
      (fun event => event.body.repairTarget) = [] := by
  rw [List.filterMap_flatMap, List.flatMap_eq_nil_iff]
  intro candidate hmem
  rcases Table.mem_put.mp hmem with ⟨rfl, -⟩ | ⟨hmem, -⟩
  · unfold Candidate.startRepair
    split
    · simp [htarget]
    · simp [Candidate.record, htarget, EventBody.repairTarget]
  · rw [hdrained candidate hmem]
    rfl

/-- The target's row codes again. -/
theorem Repaired.target_codes {db : Db} (h : Repaired o now issued run candidates target p)
    (hcandidates : ∀ candidate ∈ candidates, candidate ∈ db.candidates)
    (htarget : target ∈ candidates) :
    ∃ candidate ∈ (db.store p now).candidates,
      candidate.id = target.id ∧ candidate.status = .coding := by
  have hcoding : (target.startRepair now).self.status = .coding := by
    simp [Candidate.startRepair, h.live, Candidate.record]
  have hid : (target.startRepair now).self.id = target.id := (startRepair_frame now target).1
  obtain ⟨row, hrow⟩ : ∃ row,
      Table.find Candidate.id (p.candidates.map Candidate.stored) target.id = some row := by
    cases hfind : Table.find Candidate.id (p.candidates.map Candidate.stored) target.id with
    | some row => exact ⟨row, rfl⟩
    | none =>
      have hsent : (target.startRepair now).self.stored ∈ p.candidates.map Candidate.stored := by
        rw [h.candidates_eq]
        exact List.mem_map_of_mem (Table.mem_put.mpr (.inl ⟨rfl, target, htarget, hid.symm⟩))
      have hother : (target.startRepair now).self.stored.id ≠ target.id :=
        Table.find_eq_none.mp hfind _ hsent
      exact absurd hid hother
  have hrowId := Table.find_key hrow
  refine ⟨row, ?_, hrowId, ?_⟩
  · have hput : row ∈ Table.putAll Candidate.id db.candidates
        (p.candidates.map Candidate.stored) := by
      refine List.mem_map.mpr ⟨target, hcandidates target htarget, ?_⟩
      rw [hrow]
      rfl
    exact List.mem_append_left _ hput
  · obtain ⟨changed, hchanged, rfl⟩ := List.mem_map.mp (Table.mem_of_find hrow)
    rw [h.candidates_eq] at hchanged
    rcases Table.mem_put.mp hchanged with ⟨rfl, -⟩ | ⟨-, hne⟩
    · exact hcoding
    · exact absurd (hrowId.trans hid.symm) hne

/-- A repair decision sends its target back, and nobody else. -/
theorem Repaired.sendsBack {db : Db} (h : Repaired o now issued run candidates target p)
    (hnamed : p.run.repairsNamed = [target.id])
    (hcandidates : ∀ candidate ∈ candidates, candidate ∈ db.candidates)
    (hdrained : ∀ candidate ∈ candidates, candidate.events = []) (htarget : target ∈ candidates) :
    Db.SendsBack run target.id db (db.store p now) := by
  constructor
  · rw [if_pos h.can_repair]
    unfold Db.repairTargets Db.store
    simp only [h.opened_eq, h.followUps_eq, h.candidates_eq, List.flatMap_nil, List.map_cons,
      List.map_nil, List.flatMap_cons, List.append_nil, List.append_assoc, List.drop_left,
      List.filterMap_append, codeJob_names_nobody, List.nil_append]
    rw [candidates_name_nobody hdrained (hdrained target htarget), List.append_nil]
    exact hnamed
  · rw [if_pos h.can_repair]
    unfold Db.coderTargets Db.store
    simp only [h.followUps_eq, List.map_cons, List.map_nil, List.drop_left]
    rfl
  · intro _
    exact h.target_codes hcandidates htarget
  · intro candidate hmem hstatus
    rcases List.mem_append.mp hmem with hmem | hmem
    · rcases Table.mem_putAll hmem with hmem | hmem
      · exact .inr ⟨candidate, hmem, rfl, hstatus⟩
      · obtain ⟨changed, hchanged, rfl⟩ := List.mem_map.mp hmem
        rw [h.candidates_eq] at hchanged
        rcases Table.mem_put.mp hchanged with ⟨rfl, -⟩ | ⟨hold, -⟩
        · exact .inl ⟨h.can_repair, (startRepair_frame now target).1⟩
        · exact .inr ⟨changed, hcandidates changed hold, rfl, hstatus⟩
    · rw [h.opened_eq] at hmem
      cases hmem

/-- A run that fails sends nobody back. -/
theorem Failed.sendsBack {db : Db} (h : Failed issued run candidates p)
    (hcan : run.canRepair = false) (hnamed : p.run.repairsNamed = [])
    (hcandidates : ∀ candidate ∈ candidates, candidate ∈ db.candidates)
    (hdrained : ∀ candidate ∈ candidates, candidate.events = []) (id : CandidateId) :
    Db.SendsBack run id db (db.store p now) := by
  have hquiet : candidates.flatMap Candidate.events = [] := by
    rw [List.flatMap_eq_nil_iff]
    exact hdrained
  constructor
  · rw [if_neg (by simp [hcan])]
    unfold Db.repairTargets Db.store
    simp only [h.opened_eq, h.followUps_eq, h.candidates_eq, List.flatMap_nil, List.map_nil,
      List.append_nil, List.drop_left, hquiet]
    exact hnamed
  · rw [if_neg (by simp [hcan])]
    unfold Db.coderTargets Db.store
    simp [h.followUps_eq]
  · intro hrepairs
    rw [hcan] at hrepairs
    cases hrepairs
  · intro candidate hmem hstatus
    rcases List.mem_append.mp hmem with hmem | hmem
    · rcases Table.mem_putAll hmem with hmem | hmem
      · exact .inr ⟨candidate, hmem, rfl, hstatus⟩
      · obtain ⟨changed, hchanged, rfl⟩ := List.mem_map.mp hmem
        rw [h.candidates_eq] at hchanged
        exact .inr ⟨changed, hcandidates changed hchanged, rfl, hstatus⟩
    · rw [h.opened_eq] at hmem
      cases hmem

end Orchestrator

namespace Db.SendsBack

variable {run : Run} {id id' : CandidateId} {db db' : Db}

/-- At most one candidate is sent back. -/
theorem unique (h : SendsBack run id db db') (h' : SendsBack run id' db db')
    (hcan : run.canRepair = true) : id = id' := by
  have hnamed := h.named.symm.trans h'.named
  rw [if_pos hcan, if_pos hcan] at hnamed
  exact (List.cons.inj hnamed).1

/-- Nobody is sent back by a run without a repair left, so any candidate will do. -/
theorem of_spent (h : SendsBack run id db db') (hcan : run.canRepair = false) :
    SendsBack run id' db db' := by
  have hnot : ¬ run.canRepair = true := by simp [hcan]
  refine ⟨?_, ?_, fun hrepairs => absurd hrepairs hnot, ?_⟩
  · rw [h.named, if_neg hnot, if_neg hnot]
  · rw [h.jobs, if_neg hnot, if_neg hnot]
  · intro candidate hmem hstatus
    rcases h.others candidate hmem hstatus with ⟨hrepairs, -⟩ | hold
    · exact absurd hrepairs hnot
    · exact .inr hold

end Db.SendsBack

namespace Orchestrator

variable {o : Orchestrator} {ws : Workspaces} {now : Instant} {runId : RunId} {w : World}
  {run : Run} {project : Project} {review : Review}

/-- A run under review whose candidates are all rejected sends back the first of them that
    carries a FAIL. -/
theorem advance_sendsBack (ws : Workspaces) (now : Instant) (hjudged : w.db.Judged o w.issued)
    (hadv : Advancing w runId run project) (hstatus : run.status = .reviewing)
    (hpass : ∀ candidate ∈ w.db.candidatesOf runId, candidate.reviewVerdict ≠ some .pass)
    {target : Candidate} (hfirst : (w.db.candidatesOf runId).find?
      (fun candidate => candidate.reviewVerdict == some .fail) = some target) :
    Db.SendsBack run target.id w.db (o.advance ws now runId w).self.db := by
  have hmem := List.mem_of_find?_eq_some hfirst
  have hrows : ∀ candidate ∈ w.db.candidatesOf runId, candidate ∈ w.db.candidates :=
    fun candidate hcandidate => (Db.mem_candidatesOf.mp hcandidate).1
  have hdrained : ∀ candidate ∈ w.db.candidatesOf runId, candidate.events = [] :=
    fun candidate hcandidate => hjudged.drained.candidates candidate (hrows candidate hcandidate)
  have hfresh : run.repairsNamed = [] := by
    unfold Run.repairsNamed
    rw [hjudged.drained.runs run (Table.mem_of_find hadv.run_row)]
    rfl
  -- a finished candidate would mean a finished run
  have hlive : target.status.isTerminal = false := by
    cases hterminal : target.status.isTerminal with
    | false => rfl
    | true =>
      obtain ⟨ended, hended, hover⟩ := hjudged.ended target (hrows target hmem) hterminal
      rw [(Db.mem_candidatesOf.mp hmem).2, hadv.run_row, Option.some.injEq] at hended
      rw [← hended, hadv.live] at hover
      cases hover
  obtain ⟨p, hp, hcases⟩ :=
    nextStep_of_rejected o ws now w.issued project hstatus hpass hfirst hlive
  have hself : (o.advance ws now runId w).self.db = w.db.store p now := by
    have hcommit : o.advanceCommit ws now runId w =
        .ok (committed w p now, publication p now) := by
      unfold advanceCommit
      have hproject : w.db.requireProject run = .ok project := by
        unfold Db.requireProject
        rw [hadv.project_row]
      simp only [hadv.run_row, hadv.live, hadv.not_cancelling, hproject, hadv.finished, hp, ok_bind,
        Bool.false_eq_true, or_self, if_false, pure_eq_ok]
      rfl
    unfold advance
    rw [hcommit]
    rfl
  rw [hself]
  rcases hcases with ⟨-, hrepaired, hnamed⟩ | ⟨hcan, hfailed, hnamed⟩
  · rw [hfresh, List.nil_append] at hnamed
    exact hrepaired.sendsBack hnamed hrows hdrained hmem
  · rw [hfresh] at hnamed
    exact hfailed.sendsBack hcan hnamed hrows hdrained target.id

end Orchestrator

namespace System

open Orchestrator

/-- **The rejected candidate is the one sent back exactly when no candidate listed before it
    carries a FAIL**, or there is no repair left. From a platform without candidates,
    whatever its runs, holders, maintenance and cancellations did before. -/
theorem rejected_sent_back_iff (o : Orchestrator) {w : World} (hw : w.Blank)
    (activities : List Activity) (ws : Workspaces) (now : Instant) {runId : RunId} {run : Run}
    {project : Project} {review : Review}
    (hadv : Advancing (Runs.after (perform o) (idle w) activities).world runId run project)
    (hstatus : run.status = .reviewing)
    (hreview : (Runs.after (perform o) (idle w) activities).world.db.latestReview runId =
      some review)
    (hfail : review.verdict = .fail)
    (hpass : ∀ candidate ∈
      (Runs.after (perform o) (idle w) activities).world.db.candidatesOf runId,
        candidate.reviewVerdict ≠ some .pass) :
    Db.SendsBack run review.candidateId (Runs.after (perform o) (idle w) activities).world.db
        (o.advance ws now runId (Runs.after (perform o) (idle w) activities).world).self.db ↔
      (run.canRepair = true → FirstRejected
        ((Runs.after (perform o) (idle w) activities).world.db.candidatesOf runId)
        review.candidateId) := by
  have hjudged : (Runs.after (perform o) (idle w) activities).world.db.Judged o
      (Runs.after (perform o) (idle w) activities).world.issued := after_judged o hw activities
  obtain ⟨judged, hmem, hid⟩ := Db.latestReview_judges hreview
  obtain ⟨target, hfirst⟩ : ∃ target,
      ((Runs.after (perform o) (idle w) activities).world.db.candidatesOf runId).find?
        (fun candidate => candidate.reviewVerdict == some .fail) = some target := by
    rw [← Option.isSome_iff_exists, List.find?_isSome]
    refine ⟨judged, hmem, ?_⟩
    rw [hjudged.carries hreview hmem hid, hfail]
    rfl
  have hsent := advance_sendsBack ws now hjudged hadv hstatus hpass hfirst
  rw [← hjudged.first_rejected hreview hfail hfirst]
  constructor
  · intro h hcan
    exact hsent.unique h hcan
  · intro h
    cases hcan : run.canRepair with
    | true =>
      rw [← h hcan]
      exact hsent
    | false => exact hsent.of_spent hcan

end System

namespace Sample

/-- A run with two candidates that may be repaired twice. -/
def contestedRun : Run :=
  (Run.create ⟨2⟩ ⟨1⟩ "fix the build" 0 2 { maxRepairIterations := 2 } none
    [("requires_plan", .bool false)] objective_given (by decide) (by decide)).stored

def contestedWorld : World := World.fresh (project {}) contestedRun

/-- The coder changes this many lines. -/
def patching (churn : Nat) (now : Instant) : Answers :=
  { coderAnswers now with
    coder := .ok ⟨"done", [], ⟨"diff", none, [⟨"main.py", churn, 0⟩]⟩, ⟨10, 5⟩, "v1", consumer⟩ }

/-- The reviewer rejects what it is shown. -/
def rejecting (now : Instant) : Answers :=
  { coderAnswers now with
    reviewer := .ok ⟨⟨.fail, "wrong", [⟨"wrong", .major, none, none, none⟩], by simp⟩,
      ⟨10, 5⟩, "v1", consumer⟩ }

/-- One holder claims the next published job and executes it. -/
def attempted (jobType : JobType) (token : LeaseToken) (a : Answers) : List System.Activity :=
  [.move .calm (.publish 0), .move .calm (.claim consumer [jobType] 120000000 a.now token),
    .move .calm (.resume token a), .move .calm (.resume token a), .move .calm (.resume token a)]

/-- Both candidates are coded, and the smaller change is reviewed and rejected. -/
def firstRejection : List System.Activity :=
  .start .calm 5 ⟨2⟩ :: attempted .code token (patching 1 10) ++
    attempted .code buildToken (patching 2 20) ++ [.move .calm (.advance 30 ⟨2⟩)] ++
    attempted .review token (rejecting 40)

/-- The first candidate is repaired, with a larger change, so the other one is reviewed and
    rejected next. -/
def secondRejection : List System.Activity :=
  firstRejection ++ [.move .calm (.advance 50 ⟨2⟩)] ++
    attempted .code buildToken (patching 5 60) ++ [.move .calm (.advance 70 ⟨2⟩)] ++
    attempted .review token (rejecting 80)

theorem contestedWorld_blank : contestedWorld.Blank := by
  refine ⟨rfl, rfl, ?_⟩
  intro run hrun
  rw [List.mem_singleton.mp hrun]
  rfl

/-- The platform once the given activities are over. -/
abbrev contested (activities : List System.Activity) : System :=
  Runs.after (System.perform (orchestrator 3 (by decide))) (System.idle contestedWorld) activities

/-- The tables the next decision about the run leaves. -/
abbrev decided (s : System) (now : Instant) : Db :=
  ((orchestrator 3 (by decide)).advance .calm now ⟨2⟩ s.world).self.db

end Sample

namespace System

open Orchestrator

/-- What the row of the run says about a decision. -/
theorem advancing_of_row (w : World) (runId : RunId)
    (hrow : (w.db.run? runId).map (fun run => (run.isTerminal, run.isCancelling,
      (w.db.project? run.projectId).isSome, run.status, run.canRepair)) =
        some (false, false, true, .reviewing, true))
    (hfinished : hasUnfinished (w.db.jobsOf runId) = false) :
    ∃ run project, Advancing w runId run project ∧ run.status = .reviewing ∧
      run.canRepair = true := by
  obtain ⟨run, hrun, hfacts⟩ := Option.map_eq_some_iff.mp hrow
  simp only [Prod.mk.injEq] at hfacts
  obtain ⟨hlive, hnot, hproject, hstatus, hcan⟩ := hfacts
  obtain ⟨project, hproject⟩ := Option.isSome_iff_exists.mp hproject
  exact ⟨run, project, ⟨hrun, hlive, hnot, hproject, hfinished⟩, hstatus, hcan⟩

/-- The first rejection reaches the candidate it judged. -/
theorem rejected_sent_back_iff_sample :
    ∃ run, Db.SendsBack run ⟨0⟩ (Sample.contested Sample.firstRejection).world.db
      (Sample.decided (Sample.contested Sample.firstRejection) 50) := by
  have hreview : ((Sample.contested Sample.firstRejection).world.db.latestReview ⟨2⟩).map
        (fun review => (review.candidateId, review.verdict)) = some (⟨0⟩, .fail) := by
    decide +kernel
  obtain ⟨review, hreview, hjudged⟩ := Option.map_eq_some_iff.mp hreview
  obtain ⟨hid, hfail⟩ := Prod.mk.inj hjudged
  obtain ⟨run, project, hadv, hstatus, -⟩ := advancing_of_row
    (Sample.contested Sample.firstRejection).world ⟨2⟩ (by decide +kernel) (by decide +kernel)
  refine ⟨run, ?_⟩
  rw [← hid]
  refine (rejected_sent_back_iff (Sample.orchestrator 3 (by decide)) Sample.contestedWorld_blank
    Sample.firstRejection .calm 50 hadv hstatus hreview hfail (by decide +kernel)).mpr ?_
  intro _
  rw [hid]
  unfold FirstRejected
  decide +kernel

/-- After the second rejection the candidate of the first one is sent back again. -/
theorem other_candidate_sent_back :
    ∃ run project review,
      Advancing (Sample.contested Sample.secondRejection).world ⟨2⟩ run project ∧
      run.status = .reviewing ∧
      (Sample.contested Sample.secondRejection).world.db.latestReview ⟨2⟩ = some review ∧
      review.candidateId = ⟨2⟩ ∧ review.verdict = .fail ∧
      (∀ candidate ∈ (Sample.contested Sample.secondRejection).world.db.candidatesOf ⟨2⟩,
          candidate.reviewVerdict ≠ some .pass) ∧
      (Sample.contested Sample.secondRejection).world.db.repairTargets
          (Sample.decided (Sample.contested Sample.secondRejection) 90) = [⟨0⟩] ∧
      ¬ Db.SendsBack run review.candidateId (Sample.contested Sample.secondRejection).world.db
        (Sample.decided (Sample.contested Sample.secondRejection) 90) := by
  have hreview : ((Sample.contested Sample.secondRejection).world.db.latestReview ⟨2⟩).map
        (fun review => (review.candidateId, review.verdict)) = some (⟨2⟩, .fail) := by
    decide +kernel
  obtain ⟨review, hreview, hjudged⟩ := Option.map_eq_some_iff.mp hreview
  obtain ⟨hid, hfail⟩ := Prod.mk.inj hjudged
  obtain ⟨run, project, hadv, hstatus, hcan⟩ := advancing_of_row
    (Sample.contested Sample.secondRejection).world ⟨2⟩ (by decide +kernel) (by decide +kernel)
  have hnamed : (Sample.contested Sample.secondRejection).world.db.repairTargets
        (Sample.decided (Sample.contested Sample.secondRejection) 90) = [⟨0⟩] := by
    decide +kernel
  refine ⟨run, project, review, hadv, hstatus, hreview, hid, hfail, by decide +kernel, hnamed, ?_⟩
  intro hsent
  have hexpected := hsent.named
  rw [hnamed, if_pos hcan, hid] at hexpected
  exact absurd hexpected (by decide)

end System

end AgenticPlatform
