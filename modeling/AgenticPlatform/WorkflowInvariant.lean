import AgenticPlatform.Workflow

/-!
# The workflow invariant

While a run is live, every open job has something to work on, every candidate stands
where the run's status says, and what a candidate claims about its patch is on record
for that very patch. Each step keeps this, and a step that completes the run leaves a
candidate that deserves it.
-/

namespace AgenticPlatform.Workflow

/-! ### The invariant -/

/-- What an open job has to work on. -/
inductive Enabled (project : Project) (s : State) (t : Ticket) : Prop where
  | plan : t.type = .plan → t.candidateId = none → s.run.status = .planning → Enabled project s t
  | code (c : Candidate) : c ∈ s.candidates → t.type = .code → t.candidateId = some c.id →
      c.status = .coding → Enabled project s t
  | stage (stage : ValidationStage) (c : Candidate) : c ∈ s.candidates →
      t.type = stage.jobType → t.candidateId = some c.id → c.status = .validating →
      nextStage project c.validation = some stage → s.run.status = .validating →
      Enabled project s t
  | review (c : Candidate) : c ∈ s.candidates → t.type = .review → t.candidateId = some c.id →
      c.status = .validated → c.isViable = true → s.run.status = .reviewing → Enabled project s t

/-- Where a candidate of a live run stands. -/
inductive Place (o : Orchestrator) (project : Project) (s : State) (c : Candidate) : Prop where
  | coding : c.status = .coding → s.run.status = .coding → c.validation.results = [] →
      (∃ t ∈ s.tickets, t.isOpen = true ∧ t.type = .code ∧ t.candidateId = some c.id) →
      Place o project s c
  | validating : c.status = .validating →
      (s.run.status = .validating ∨ s.run.status = .coding ∧ c.validation.results = []) →
      Place o project s c
  | validated : c.status = .validated → nextStage project c.validation = none →
      c.validation.staticAnalysisIsBlocking = o.config.staticAnalysisIsBlocking →
      Place o project s c

/-- What a candidate says about its patch is on record for this patch. -/
structure Evidence (project : Project) (facts : List Fact) (c : Candidate) : Prop where
  patch : patchOf c.id facts = c.patch
  submitted : c.patch ≠ none
  recorded : ∀ result, result ∈ c.validation.results ↔ Recorded facts c.id result
  configured : ∀ result ∈ c.validation.results, ∃ stage : ValidationStage,
    result.kind = stage.kind ∧ stageIsConfigured project stage = true

structure Standing (o : Orchestrator) (project : Project) (s : State) (c : Candidate) : Prop where
  workspaceId : c.workspaceId ≠ none
  place : Place o project s c
  evidence : c.status ≠ .coding → Evidence project s.facts c
  passed : c.reviewVerdict = some .pass → c.status = .validated ∧ c.isViable = true ∧
    s.run.status = .reviewing ∧ Passed s.facts c.id

/-- What the status of a live run says about its candidates and jobs. -/
def Phase (s : State) : Prop :=
  match s.run.status with
  | .created => s.candidates = [] ∧ s.tickets = []
  | .planning => s.candidates = [] ∧ ∃ t ∈ s.tickets, t.isOpen = true ∧ t.type = .plan
  | .planReady => s.candidates = []
  | .coding => ∃ c ∈ s.candidates, c.status ≠ .validated
  | .validating | .reviewing => s.candidates ≠ []
  | _ => False

/-- The invariant of a live run. -/
structure Live (o : Orchestrator) (project : Project) (s : State) : Prop where
  ids : (s.candidates.map Candidate.id).Nodup
  tickets : (s.tickets.map Ticket.id).Nodup
  distinct : ∀ t ∈ s.tickets, ∀ t' ∈ s.tickets, t.isOpen = true → t'.isOpen = true →
    t.candidateId = t'.candidateId → t.id = t'.id
  enabled : ∀ t ∈ s.tickets, t.isOpen = true → Enabled project s t
  standing : ∀ c ∈ s.candidates, Standing o project s c
  phase : Phase s

/-- No cancellation reaches a live run. -/
theorem Live.not_cancelling {o : Orchestrator} {project : Project} {s : State}
    (h : Live o project s) : s.run.isCancelling = false := by
  have hphase := h.phase
  unfold Phase at hphase
  unfold Run.isCancelling
  cases hstatus : s.run.status <;> simp only [hstatus] at hphase <;> rfl

/-- What a completed run has to show: a candidate with a non-empty patch and a report of
    just what was recorded for it, a passing result of every configured build and test
    recorded for this very patch, nothing recorded against it, and a reviewer who passed
    it. -/
def Completion (o : Orchestrator) (project : Project) (s : State) : Prop :=
  ∃ c ∈ s.candidates, ∃ patch, s.run.selectedCandidateId = some c.id ∧ c.patch = some patch ∧
    patch.isEmpty = false ∧ patchOf c.id s.facts = some patch ∧
    (∀ result, result ∈ c.validation.results ↔ Recorded s.facts c.id result) ∧
    (∀ result, Recorded s.facts c.id result →
      (result.kind = .build ∨ result.kind = .test ∨
        (result.kind = .staticAnalysis ∧ o.config.staticAnalysisIsBlocking = true)) →
      result.succeeded = true) ∧
    (∀ stage, stage = .build ∨ stage = .test → stageIsConfigured project stage = true →
      ∃ result, Recorded s.facts c.id result ∧ result.kind = stage.kind) ∧
    Passed s.facts c.id

variable {o : Orchestrator} {project : Project} {s s' : State}

/-! ### Tickets -/

theorem mem_close {id : JobId} {t : Ticket} :
    t ∈ s.close id ↔
      (t ∈ s.tickets ∧ t.id ≠ id) ∨ ∃ old ∈ s.tickets, old.id = id ∧ t = old.closed := by
  unfold State.close
  rw [List.mem_map]
  constructor
  · rintro ⟨old, hold, rfl⟩
    split
    · rename_i hid
      exact .inr ⟨old, hold, hid, rfl⟩
    · rename_i hid
      exact .inl ⟨hold, hid⟩
  · rintro (⟨hmem, hid⟩ | ⟨old, hold, hid, rfl⟩)
    · exact ⟨t, hmem, if_neg hid⟩
    · exact ⟨old, hold, if_pos hid⟩

/-- An open ticket of the rest was open before. -/
theorem open_of_close {id : JobId} {t : Ticket} (hmem : t ∈ s.close id) (hopen : t.isOpen = true) :
    t ∈ s.tickets ∧ t.id ≠ id := by
  rcases mem_close.mp hmem with h | ⟨old, -, -, rfl⟩
  · exact h
  · cases hopen

theorem ids_close (id : JobId) : (s.close id).map Ticket.id = s.tickets.map Ticket.id := by
  unfold State.close
  rw [List.map_map]
  apply List.map_congr_left
  intro t _
  simp only [Function.comp]
  split <;> rfl

/-! ### Stages -/

theorem nextStage_congr {left right : ValidationReport} (h : left.results = right.results) :
    nextStage project left = nextStage project right := by
  have hdone : ∀ stage : ValidationStage, stage.done left = stage.done right := by
    intro stage
    cases stage <;>
      simp only [ValidationStage.done, ValidationReport.buildPassed, ValidationReport.testsPassed,
        ValidationReport.staticAnalysisPassed, ValidationReport.ofKind, h]
  simp only [nextStage, validationStages, nextStageAmong, hdone]

/-- The stage a candidate waits for is configured and did not run yet. -/
theorem nextStage_some {report : ValidationReport} {stage : ValidationStage}
    (h : nextStage project report = some stage) :
    stageIsConfigured project stage = true ∧ stage.done report = none := by
  unfold nextStage at h
  generalize validationStages = stages at h
  induction stages with
  | nil => cases h
  | cons first rest ih =>
    unfold nextStageAmong at h
    split at h
    · cases h
    · split at h
      · rename_i hfirst
        cases h
        exact ⟨hfirst.2, hfirst.1⟩
      · exact ih h

/-- A viable candidate that waits for nothing passed every configured build and test. -/
theorem done_of_nextStage_none {report : ValidationReport}
    (h : nextStage project report = none) (hviable : report.isViable = true)
    {stage : ValidationStage} (hstage : stage = .build ∨ stage = .test)
    (hconfigured : stageIsConfigured project stage = true) : stage.done report ≠ none := by
  have hbuild : ValidationStage.done report .build ≠ some false := by
    intro hfalse
    have hfalse : report.buildPassed = some false := hfalse
    simp [ValidationReport.isViable, hfalse] at hviable
  have htest : ValidationStage.done report .test ≠ some false := by
    intro hfalse
    have hfalse : report.testsPassed = some false := hfalse
    simp [ValidationReport.isViable, hfalse] at hviable
  intro hnone
  simp only [nextStage, validationStages, nextStageAmong, hbuild, htest, if_false] at h
  rcases hstage with rfl | rfl
  · rw [if_pos ⟨hnone, hconfigured⟩] at h
    cases h
  · split at h
    · cases h
    · rw [if_pos ⟨hnone, hconfigured⟩] at h
      cases h

/-! ### Rows -/

/-- A row stands where the candidate it stores does. -/
theorem Standing.stored {c : Candidate} (h : Standing o project s c) :
    Standing o project s c.stored := by
  refine ⟨h.workspaceId, ?_, fun hne => ?_, h.passed⟩
  · cases h.place with
    | coding hstatus hrun hempty hticket => exact .coding hstatus hrun hempty hticket
    | validating hstatus hrun => exact .validating hstatus hrun
    | validated hstatus hnone hblocking => exact .validated hstatus hnone hblocking
  · have he := h.evidence hne
    exact ⟨he.patch, he.submitted, he.recorded, he.configured⟩

theorem mem_replace {c changed : Candidate} :
    c ∈ s.replace changed ↔
      (c = changed.stored ∧ ∃ old ∈ s.candidates, old.id = changed.id) ∨
        (c ∈ s.candidates ∧ c.id ≠ changed.id) := Table.mem_put

/-- Evidence about one candidate is not touched by a fact about another. -/
theorem Evidence.other {facts : List Fact} {fact : Fact} {c : Candidate}
    (h : Evidence project facts c) (hfact : fact.candidateId ≠ c.id) :
    Evidence project (fact :: facts) c := by
  refine ⟨by rw [patchOf_other hfact]; exact h.patch, h.submitted, fun result => ?_, h.configured⟩
  rw [recorded_other hfact]
  exact h.recorded result

/-! ### The commit of a stage -/

/-- The tables once a stage committed. -/
def State.committed (s : State) (run : Run) (changed : Candidate) (t : Ticket) (fact : Fact) :
    State := ⟨run, s.replace changed, s.close t.id, fact :: s.facts⟩

section Commit

variable {t : Ticket} {c changed : Candidate} {run : Run} {fact : Fact}

/-- Two open tickets for one candidate are the same. -/
theorem Live.other_ticket (h : Live o project s) (ht : t ∈ s.tickets) {t' : Ticket}
    (ht' : t' ∈ s.tickets) (hne : t'.candidateId ≠ t.candidateId) : t'.id ≠ t.id := by
  intro heq
  apply hne
  rw [List.inj_on_of_nodup_map h.tickets ht' ht heq]

/-- A candidate that the commit is not about stands where it stood. -/
theorem Live.standing_other (h : Live o project s) (ht : t ∈ s.tickets)
    (hnamed : t.candidateId = some c.id) (hrun : run.status = s.run.status)
    (hfact : fact.candidateId = c.id) {other : Candidate}
    (hother : other ∈ s.candidates) (hne : other.id ≠ c.id) :
    Standing o project (s.committed run changed t fact) other := by
  have hold := h.standing other hother
  have hfact' : fact.candidateId ≠ other.id := by
    rw [hfact]
    exact hne.symm
  refine ⟨hold.workspaceId, ?_, fun hcoding => (hold.evidence hcoding).other hfact', fun hpass => ?_⟩
  · cases hold.place with
    | coding hstatus hcoding hempty hticket =>
      obtain ⟨t', ht', hopen', htype', hnamed'⟩ := hticket
      have hids : t'.id ≠ t.id := by
        apply h.other_ticket ht ht'
        rw [hnamed, hnamed']
        exact fun heq => hne (Option.some.inj heq)
      exact .coding hstatus (hrun.trans hcoding) hempty
        ⟨t', mem_close.mpr (.inl ⟨ht', hids⟩), hopen', htype', hnamed'⟩
    | validating hstatus hplace =>
      refine .validating hstatus ?_
      rcases hplace with hval | ⟨hcod, hempty⟩
      · exact .inl (hrun.trans hval)
      · exact .inr ⟨hrun.trans hcod, hempty⟩
    | validated hstatus hnone hblocking => exact .validated hstatus hnone hblocking
  · obtain ⟨hstatus, hviable, hreviewing, hpassed⟩ := hold.passed hpass
    exact ⟨hstatus, hviable, hrun.trans hreviewing, (passed_other hfact').mpr hpassed⟩

/-- An open job of another candidate keeps what it works on. -/
theorem Live.enabled_other (h : Live o project s) (ht : t ∈ s.tickets) (hopen : t.isOpen = true)
    (hnamed : t.candidateId = some c.id) (hid : changed.id = c.id)
    (hrun : run.status = s.run.status) {t' : Ticket} (ht' : t' ∈ s.tickets)
    (hopen' : t'.isOpen = true) (hne : t'.id ≠ t.id) :
    Enabled project (s.committed run changed t fact) t' := by
  have hkeep : ∀ other ∈ s.candidates, t'.candidateId = some other.id →
      other ∈ s.replace changed := by
    intro other hother hnamed'
    apply mem_replace.mpr
    refine .inr ⟨hother, fun heq => hne (h.distinct t' ht' t ht hopen' hopen ?_)⟩
    rw [hnamed', hnamed, heq, hid]
  cases h.enabled t' ht' hopen' with
  | plan htype hnone hplanning => exact .plan htype hnone (hrun.trans hplanning)
  | code other hother htype hnamed' hcoding =>
    exact .code other (hkeep other hother hnamed') htype hnamed' hcoding
  | stage stage other hother htype hnamed' hstatus hstage hvalidating =>
    exact .stage stage other (hkeep other hother hnamed') htype hnamed' hstatus hstage
      (hrun.trans hvalidating)
  | review other hother htype hnamed' hstatus hviable hreviewing =>
    exact .review other (hkeep other hother hnamed') htype hnamed' hstatus hviable
      (hrun.trans hreviewing)

/-- The status of the run keeps its meaning when no candidate is newly validated. -/
theorem Live.phase_committed (h : Live o project s) (hc : c ∈ s.candidates)
    (hid : changed.id = c.id) (hrun : run.status = s.run.status)
    (hvalidated : changed.status = .validated → c.status = .validated) :
    Phase (s.committed run changed t fact) := by
  have hphase := h.phase
  have hnonempty : s.replace changed ≠ [] := by
    intro hnil
    have hlen := congrArg List.length hnil
    simp only [State.replace, Table.put, List.length_map, List.length_nil] at hlen
    rw [List.length_eq_zero_iff.mp hlen] at hc
    cases hc
  have hsome : s.candidates ≠ [] := List.ne_nil_of_mem hc
  unfold Phase at hphase ⊢
  simp only [State.committed, hrun]
  split at hphase <;> rename_i hstatus
  · exact absurd hphase.1 hsome
  · exact absurd hphase.1 hsome
  · exact absurd hphase hsome
  · obtain ⟨other, hother, hopen⟩ := hphase
    by_cases heq : other.id = c.id
    · have : other = c := List.inj_on_of_nodup_map h.ids hother hc heq
      subst this
      exact ⟨changed.stored, mem_replace.mpr (.inl ⟨rfl, other, hother, hid.symm⟩),
        fun hv => hopen (hvalidated hv)⟩
    · exact ⟨other, mem_replace.mpr (.inr ⟨hother, by rw [hid]; exact heq⟩), hopen⟩
  · exact hnonempty
  · exact hnonempty
  · exact hphase.elim

/-- **The commit of a stage** keeps the invariant when the candidate it changed stands
    where it should. -/
theorem Live.commit (h : Live o project s) (ht : t ∈ s.tickets) (hopen : t.isOpen = true)
    (hnamed : t.candidateId = some c.id) (hc : c ∈ s.candidates) (hid : changed.id = c.id)
    (hrun : run.status = s.run.status) (hfact : fact.candidateId = c.id)
    (hvalidated : changed.status = .validated → c.status = .validated)
    (hchanged : Standing o project (s.committed run changed t fact) changed) :
    Live o project (s.committed run changed t fact) where
  ids := by
    show ((Table.put Candidate.id s.candidates changed.stored).map Candidate.id).Nodup
    rw [Table.keys_put]
    exact h.ids
  tickets := by
    show ((s.close t.id).map Ticket.id).Nodup
    rw [ids_close]
    exact h.tickets
  distinct := by
    intro left hleft right hright hopenl hopenr hsame
    exact h.distinct left (open_of_close hleft hopenl).1 right (open_of_close hright hopenr).1
      hopenl hopenr hsame
  enabled := by
    intro other hother hopen'
    obtain ⟨hmem, hne⟩ := open_of_close hother hopen'
    exact h.enabled_other ht hopen hnamed hid hrun hmem hopen' hne
  standing := by
    intro other hother
    rcases mem_replace.mp hother with ⟨rfl, -⟩ | ⟨hmem, hne⟩
    · exact hchanged.stored
    · exact h.standing_other ht hnamed hrun hfact hmem (by rwa [hid] at hne)
  phase := h.phase_committed hc hid hrun hvalidated

end Commit

/-! ### Each stage -/

section Stages

variable {t : Ticket} {c changed : Candidate} {run : Run} {patch : Patch}
  {results : List ToolResult} {stage : ValidationStage} {verdict : ReviewVerdict}

theorem Live.same_candidate (h : Live o project s) (hc : c ∈ s.candidates) {other : Candidate}
    (hother : other ∈ s.candidates) (hnamed : t.candidateId = some c.id)
    (hnamed' : t.candidateId = some other.id) : other = c := by
  apply List.inj_on_of_nodup_map h.ids hother hc
  exact Option.some.inj (hnamed'.symm.trans hnamed)

/-- An open code job has a coding candidate. -/
theorem Live.code_enabled (h : Live o project s) (ht : t ∈ s.tickets) (hopen : t.isOpen = true)
    (htype : t.type = .code) (hnamed : t.candidateId = some c.id) (hc : c ∈ s.candidates) :
    c.status = .coding := by
  cases h.enabled t ht hopen with
  | plan htype' => rw [htype] at htype'; cases htype'
  | code other hother _ hnamed' hcoding =>
    rw [← h.same_candidate hc hother hnamed hnamed']
    exact hcoding
  | stage stage _ _ htype' => rw [htype] at htype'; cases stage <;> cases htype'
  | review _ _ htype' => rw [htype] at htype'; cases htype'

theorem jobType_injective {left right : ValidationStage} (h : left.jobType = right.jobType) :
    left = right := by
  cases left <;> cases right <;> first | rfl | cases h

/-- An open stage job has a candidate that waits for this very stage. -/
theorem Live.stage_enabled (h : Live o project s) (ht : t ∈ s.tickets) (hopen : t.isOpen = true)
    (htype : t.type = stage.jobType) (hnamed : t.candidateId = some c.id)
    (hc : c ∈ s.candidates) :
    c.status = .validating ∧ nextStage project c.validation = some stage ∧
      s.run.status = .validating := by
  cases h.enabled t ht hopen with
  | plan htype' => rw [htype] at htype'; cases stage <;> cases htype'
  | code _ _ htype' => rw [htype] at htype'; cases stage <;> cases htype'
  | stage other_stage other hother htype' hnamed' hstatus hstage hrun =>
    rw [← h.same_candidate hc hother hnamed hnamed', jobType_injective (htype.symm.trans htype')]
    exact ⟨hstatus, hstage, hrun⟩
  | review _ _ htype' => rw [htype] at htype'; cases stage <;> cases htype'

/-- An open review has a viable candidate that finished its validation. -/
theorem Live.review_enabled (h : Live o project s) (ht : t ∈ s.tickets) (hopen : t.isOpen = true)
    (htype : t.type = .review) (hnamed : t.candidateId = some c.id) (hc : c ∈ s.candidates) :
    c.status = .validated ∧ c.isViable = true ∧ s.run.status = .reviewing := by
  cases h.enabled t ht hopen with
  | plan htype' => rw [htype] at htype'; cases htype'
  | code _ _ htype' => rw [htype] at htype'; cases htype'
  | stage stage _ _ htype' => rw [htype] at htype'; cases stage <;> cases htype'
  | review other hother _ hnamed' hstatus hviable hrun =>
    rw [← h.same_candidate hc hother hnamed hnamed']
    exact ⟨hstatus, hviable, hrun⟩

/-- A submitted patch starts with no evidence. -/
theorem Live.coded (h : Live o project s) (ht : t ∈ s.tickets) (hopen : t.isOpen = true)
    (htype : t.type = .code) (hnamed : t.candidateId = some c.id) (hc : c ∈ s.candidates)
    (hsubmits : Submits c changed patch) (hrun : run.status = s.run.status) :
    Live o project (s.committed run changed t (.submitted c.id patch)) := by
  have hcoding := h.code_enabled ht hopen htype hnamed hc
  have hold := h.standing c hc
  obtain ⟨hruncoding, hempty⟩ : s.run.status = .coding ∧ c.validation.results = [] := by
    cases hold.place with
    | coding _ hrun hempty _ => exact ⟨hrun, hempty⟩
    | validating hstatus _ => rw [hcoding] at hstatus; cases hstatus
    | validated hstatus _ _ => rw [hcoding] at hstatus; cases hstatus
  have hresults : changed.validation.results = [] := by
    rw [hsubmits.validation]
    exact hempty
  refine h.commit ht hopen hnamed hc hsubmits.id hrun rfl
    (fun hv => by rw [hsubmits.status] at hv; cases hv) ⟨?_, ?_, fun _ => ?_, fun hpass => ?_⟩
  · rw [hsubmits.workspaceId]
    exact hold.workspaceId
  · exact .validating hsubmits.status (.inr ⟨hrun.trans hruncoding, hresults⟩)
  · refine ⟨?_, ?_, fun result => ?_, fun result hmem => ?_⟩
    · rw [hsubmits.id, hsubmits.patch]
      exact patchOf_submitted
    · rw [hsubmits.patch]
      exact Option.some_ne_none patch
    · rw [hresults, hsubmits.id]
      exact ⟨fun hmem => absurd hmem List.not_mem_nil, fun hrec => absurd hrec recorded_submitted⟩
    · rw [hresults] at hmem
      cases hmem
  · rw [hsubmits.reviewVerdict] at hpass
    have hvalidated := (hold.passed hpass).1
    rw [hcoding] at hvalidated
    cases hvalidated

/-- The results of a stage go to the report and to the record alike. -/
theorem Live.validated (h : Live o project s) (ht : t ∈ s.tickets) (hopen : t.isOpen = true)
    (htype : t.type = stage.jobType) (hnamed : t.candidateId = some c.id)
    (hc : c ∈ s.candidates) (hran : StageRan project stage results) :
    Live o project (s.committed s.run
      { c with validation := c.validation.extendedWith results } t
      (.validated c.id results)) := by
  obtain ⟨hstatus, hstage, hvalidating⟩ := h.stage_enabled ht hopen htype hnamed hc
  have hold := h.standing c hc
  have hnotcoding : c.status ≠ .coding := by
    rw [hstatus]
    simp
  have hevidence := hold.evidence hnotcoding
  unfold StageRan at hran
  rw [if_pos (nextStage_some hstage).1] at hran
  obtain ⟨result, rfl, hkind⟩ := hran
  refine h.commit ht hopen hnamed hc rfl rfl rfl (fun hv => hv)
    ⟨hold.workspaceId, .validating hstatus (.inl hvalidating), fun _ => ?_, fun hpass => ?_⟩
  · refine ⟨hevidence.patch, hevidence.submitted, fun other => ?_, fun other hmem => ?_⟩
    · show other ∈ c.validation.results ++ [result] ↔ _
      rw [List.mem_append, hevidence.recorded other]
      exact recorded_validated.symm
    · rcases List.mem_append.mp hmem with hmem | hmem
      · exact hevidence.configured other hmem
      · rw [List.mem_singleton.mp hmem]
        exact ⟨stage, hkind, (nextStage_some hstage).1⟩
  · have hvalidated := (hold.passed hpass).1
    rw [hstatus] at hvalidated
    cases hvalidated

/-- A verdict is about the patch the candidate has. -/
theorem Live.reviewed (h : Live o project s) (ht : t ∈ s.tickets) (hopen : t.isOpen = true)
    (htype : t.type = .review) (hnamed : t.candidateId = some c.id) (hc : c ∈ s.candidates)
    (hrun : run.status = s.run.status) :
    Live o project (s.committed run (c.recordReview verdict) t (.reviewed c.id verdict)) := by
  obtain ⟨hstatus, hviable, hreviewing⟩ := h.review_enabled ht hopen htype hnamed hc
  have hold := h.standing c hc
  have hnotcoding : c.status ≠ .coding := by
    rw [hstatus]
    simp
  have hevidence := hold.evidence hnotcoding
  refine h.commit ht hopen hnamed hc rfl hrun rfl (fun hv => hv)
    ⟨hold.workspaceId, ?_, fun _ => ?_, fun hpass => ?_⟩
  · cases hold.place with
    | coding hcoding _ _ _ => exact absurd hcoding hnotcoding
    | validating hvalidating _ => rw [hstatus] at hvalidating; cases hvalidating
    | validated hvalidated hnone hblocking => exact .validated hvalidated hnone hblocking
  · exact ⟨hevidence.patch, hevidence.submitted,
      fun result => (hevidence.recorded result).trans recorded_reviewed.symm,
      hevidence.configured⟩
  · cases hpass
    refine ⟨hstatus, hviable, hrun.trans hreviewing, ?_⟩
    show Fact.reviewed c.id .pass ∈ since c.id (Fact.reviewed c.id .pass :: s.facts)
    rw [since_reviewed]
    exact List.mem_cons_self

/-- A plan ends the planning: nothing is open any more. -/
theorem Live.planned (h : Live o project s) (ht : t ∈ s.tickets) (hopen : t.isOpen = true)
    (htype : t.type = .plan) (hrun : run.status = .planReady) :
    Live o project { s with run, tickets := s.close t.id } := by
  obtain ⟨hnone, hplanning⟩ : t.candidateId = none ∧ s.run.status = .planning := by
    cases h.enabled t ht hopen with
    | plan _ hnone hplanning => exact ⟨hnone, hplanning⟩
    | code _ _ htype' => rw [htype] at htype'; cases htype'
    | stage stage _ _ htype' => rw [htype] at htype'; cases stage <;> cases htype'
    | review _ _ htype' => rw [htype] at htype'; cases htype'
  have hempty : s.candidates = [] := by
    have hphase := h.phase
    simp only [Phase, hplanning] at hphase
    exact hphase.1
  refine ⟨h.ids, ?_, ?_, ?_, ?_, ?_⟩
  · show ((s.close t.id).map Ticket.id).Nodup
    rw [ids_close]
    exact h.tickets
  · intro left hleft right hright hopenl hopenr hsame
    exact h.distinct left (open_of_close hleft hopenl).1 right (open_of_close hright hopenr).1
      hopenl hopenr hsame
  · intro other hother hopen'
    obtain ⟨hmem, hne⟩ := open_of_close hother hopen'
    cases h.enabled other hmem hopen' with
    | plan _ hnone' _ =>
      exact absurd (h.distinct other hmem t ht hopen' hopen (hnone'.trans hnone.symm)) hne
    | code c hc _ _ _ => rw [hempty] at hc; cases hc
    | stage _ c hc _ _ _ _ _ => rw [hempty] at hc; cases hc
    | review c hc _ _ _ _ _ => rw [hempty] at hc; cases hc
  · intro c hc
    rw [show s.candidates = [] from hempty] at hc
    cases hc
  · simp only [Phase, hrun]
    exact hempty

end Stages

end AgenticPlatform.Workflow
