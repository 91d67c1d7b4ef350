import AgenticPlatform.WorkflowInvariant

/-!
# Decisions keep the workflow invariant

A decision is taken when no job of the run is open. This module goes through the ends a
decision can have: candidates opened, a plan requested, a validation round, a review, a
repair, a failure, or the completion of the run.
-/

namespace AgenticPlatform.Workflow

open Orchestrator

variable {o : Orchestrator} {project : Project} {s s' : State} {ws : Workspaces} {now : Instant}
  {issued : Nat} {candidates : List Candidate} {p : Progress} {c : Candidate}

/-! ### A settled state -/

/-- Nothing of the run is under way. -/
def Settled (s : State) : Prop := ∀ t ∈ s.tickets, t.isOpen = false

/-- With no open job every candidate is being validated or finished with it. -/
theorem Live.status_settled (h : Live o project s) (hsettled : Settled s) (hc : c ∈ s.candidates) :
    c.status = .validating ∨
      (c.status = .validated ∧ nextStage project c.validation = none ∧
        c.validation.staticAnalysisIsBlocking = o.config.staticAnalysisIsBlocking) := by
  cases (h.standing c hc).place with
  | coding _ _ _ hticket =>
    obtain ⟨t, ht, hopen, -, -⟩ := hticket
    rw [hsettled t ht] at hopen
    cases hopen
  | validating hstatus _ => exact .inl hstatus
  | validated hstatus hnone hblocking => exact .inr ⟨hstatus, hnone, hblocking⟩

theorem Live.not_coding (h : Live o project s) (hsettled : Settled s) (hc : c ∈ s.candidates) :
    c.status ≠ .coding := by
  intro hcoding
  rcases h.status_settled hsettled hc with hstatus | ⟨hstatus, -, -⟩ <;>
    rw [hcoding] at hstatus <;> cases hstatus

/-- A PASS is only ever seen under review. -/
theorem Live.no_pass (h : Live o project s) (hrun : s.run.status ≠ .reviewing)
    (hc : c ∈ s.candidates) : c.reviewVerdict ≠ some .pass :=
  fun hpass => hrun ((h.standing c hc).passed hpass).2.2.1

/-- The tables after a decision that only changes candidates one by one. -/
theorem decided_candidates (h : Live o project s) (hperm : candidates.Perm s.candidates)
    {f : Candidate → Candidate} (hf : ∀ c, (f c).id = c.id)
    (hcandidates : p.candidates = candidates.map f) (hopened : p.opened = []) :
    (s.decided p).candidates = s.candidates.map fun c => (f c).stored := by
  simp only [State.decided, hcandidates, hopened, List.map_nil, List.append_nil, List.map_map]
  exact Table.putAll_map (fun c => (f c).stored) hf h.ids hperm

/-- Every open ticket after a decision is one of its follow-ups. -/
theorem open_of_decided (hsettled : Settled s) {t : Ticket} (ht : t ∈ (s.decided p).tickets)
    (hopen : t.isOpen = true) : ∃ job ∈ p.followUps, t = .opened job := by
  rcases List.mem_append.mp ht with hold | hnew
  · rw [hsettled t hold] at hopen
    cases hopen
  · obtain ⟨job, hjob, rfl⟩ := List.mem_map.mp hnew
    exact ⟨job, hjob, rfl⟩

theorem followUp_mem {job : Job} (hjob : job ∈ p.followUps) :
    Ticket.opened job ∈ (s.decided p).tickets :=
  List.mem_append_right _ (List.mem_map_of_mem hjob)

/-- Follow-ups for different candidates are different tickets. -/
theorem distinct_of_decided (hsettled : Settled s)
    (hinj : ∀ job ∈ p.followUps, ∀ job' ∈ p.followUps, job.candidateId = job'.candidateId →
      job.id = job'.id) :
    ∀ t ∈ (s.decided p).tickets, ∀ t' ∈ (s.decided p).tickets, t.isOpen = true →
      t'.isOpen = true → t.candidateId = t'.candidateId → t.id = t'.id := by
  intro t ht t' ht' hopen hopen' hsame
  obtain ⟨job, hjob, rfl⟩ := open_of_decided hsettled ht hopen
  obtain ⟨job', hjob', rfl⟩ := open_of_decided hsettled ht' hopen'
  exact hinj job hjob job' hjob' hsame

/-! ### The first jobs -/

/-- A plan job is all there is. -/
theorem Live.planRequested (hcandidates : s.candidates = []) (htickets : s.tickets = [])
    {planning : Run} (hstatus : planning.status = .planning)
    (hkeys : ((s.decided ⟨planning, candidates, [], [o.planJob issued planning now],
      issued + 1⟩).tickets.map Ticket.id).Nodup) :
    Live o project (s.decided ⟨planning, candidates, [], [o.planJob issued planning now],
      issued + 1⟩) := by
  have hempty : (s.decided ⟨planning, candidates, [], [o.planJob issued planning now],
      issued + 1⟩).candidates = [] := by
    simp [State.decided, hcandidates, Table.putAll]
  have hsettled : Settled s := by
    intro t ht
    rw [htickets] at ht
    cases ht
  refine ⟨by rw [hempty]; exact List.nodup_nil, hkeys, ?_, ?_, ?_, ?_⟩
  · apply distinct_of_decided hsettled
    intro job hjob job' hjob' _
    rw [List.mem_singleton.mp hjob, List.mem_singleton.mp hjob']
  · intro t ht hopen
    obtain ⟨job, hjob, rfl⟩ := open_of_decided hsettled ht hopen
    rw [List.mem_singleton.mp hjob]
    exact .plan rfl rfl hstatus
  · intro c hc
    rw [hempty] at hc
    cases hc
  · simp only [Phase, State.decided, Run.stored, hstatus]
    exact ⟨hempty, _, followUp_mem (s := s) (p := ⟨planning, candidates, [],
      [o.planJob issued planning now], issued + 1⟩) List.mem_cons_self, rfl, rfl⟩

/-- Every opened candidate has its code job. -/
theorem Live.opened (hempty : s.candidates = []) (hsettled : Settled s) {run : Run}
    (hstatus : run.status = .coding) (h : CandidatesOpened o now issued run candidates p)
    (hkeys : ((s.decided p).tickets.map Ticket.id).Nodup)
    (hids : ((s.decided p).candidates.map Candidate.id).Nodup) :
    Live o project (s.decided p) := by
  obtain ⟨pairs, hopened, hjobs, hindexes, hdrawn, -, hall⟩ := h.pairs
  have hcandidates : (s.decided p).candidates = pairs.map fun pair => pair.1.stored := by
    simp [State.decided, hempty, Table.putAll, hopened]
  have hcoding : (s.decided p).run.status = .coding := by
    simp [State.decided, Run.stored, h.run_eq, hstatus]
  refine ⟨hids, hkeys, ?_, ?_, ?_, ?_⟩
  · apply distinct_of_decided hsettled
    rw [hjobs]
    intro job hjob job' hjob' hsame
    obtain ⟨pair, hpair, rfl⟩ := List.mem_map.mp hjob
    obtain ⟨pair', hpair', rfl⟩ := List.mem_map.mp hjob'
    obtain ⟨-, n, hn⟩ := hall pair hpair
    obtain ⟨-, n', hn'⟩ := hall pair' hpair'
    rw [hn, hn'] at hsame
    have hid : pair.1.id = pair'.1.id := Option.some.inj hsame
    rw [List.inj_on_of_nodup_map hdrawn.nodup hpair hpair' hid]
  · intro t ht hopen
    obtain ⟨job, hjob, rfl⟩ := open_of_decided hsettled ht hopen
    rw [hjobs] at hjob
    obtain ⟨pair, hpair, rfl⟩ := List.mem_map.mp hjob
    obtain ⟨hcand, n, hn⟩ := hall pair hpair
    refine .code pair.1.stored ?_ ?_ ?_ hcand.status
    · rw [hcandidates]
      exact List.mem_map_of_mem hpair
    · rw [hn]
      rfl
    · rw [hn]
      rfl
  · intro c hc
    rw [hcandidates] at hc
    obtain ⟨pair, hpair, rfl⟩ := List.mem_map.mp hc
    obtain ⟨hcand, n, hn⟩ := hall pair hpair
    refine Standing.stored ⟨hcand.workspaceId, ?_, fun hne => absurd hcand.status hne, fun hpass => ?_⟩
    · refine .coding hcand.status hcoding (by rw [hcand.validation]) ⟨.opened pair.2, ?_, rfl, ?_, ?_⟩
      · apply followUp_mem
        rw [hjobs]
        exact List.mem_map_of_mem hpair
      · rw [hn]
        rfl
      · rw [hn]
        rfl
    · rw [hcand.reviewVerdict] at hpass
      cases hpass
  · simp only [Phase, hcoding, hcandidates]
    cases pairs with
    | nil =>
      have hcount := congrArg List.length hindexes
      simp only [List.map_nil, List.length_nil, List.length_range] at hcount
      have := run.candidate_count_pos
      omega
    | cons pair rest =>
      refine ⟨pair.1.stored, List.mem_map_of_mem List.mem_cons_self, fun hv => ?_⟩
      rw [show pair.1.stored.status = .coding from (hall pair List.mem_cons_self).1.status] at hv
      cases hv

/-! ### Validation rounds -/

/-- A candidate after a validation round: still waiting for a stage, or validated. -/
theorem Live.settle_standing (h : Live o project s) (hsettled : Settled s) (hc : c ∈ s.candidates)
    (hpass : c.reviewVerdict ≠ some .pass) (hfacts : s'.facts = s.facts)
    (hwaiting : pendingStage project c ≠ none → s'.run.status = .validating) :
    Standing o project s' (o.settle now project c) := by
  have hold := h.standing c hc
  have hevidence := hold.evidence (h.not_coding hsettled hc)
  refine ⟨by rw [settle_workspaceId]; exact hold.workspaceId, ?_, fun _ => ?_, fun hv => ?_⟩
  · rcases settle_cases o now project c with ⟨-, hnone, hstatus, hreport⟩ | ⟨hnot, heq⟩
    · refine .validated hstatus ?_ (by rw [hreport])
      rw [← hnone]
      exact nextStage_congr (by rw [hreport])
    · rw [heq]
      rcases h.status_settled hsettled hc with hstatus | ⟨hstatus, hnone, hblocking⟩
      · refine .validating hstatus (.inl (hwaiting ?_))
        unfold pendingStage
        rw [if_pos hstatus]
        exact fun hnone => hnot ⟨hstatus, hnone⟩
      · exact .validated hstatus hnone hblocking
  · have hresults : (o.settle now project c).validation.results = c.validation.results := by
      rcases settle_cases o now project c with ⟨-, -, -, hreport⟩ | ⟨-, heq⟩
      · rw [hreport]
      · rw [heq]
    refine ⟨?_, ?_, fun result => ?_, fun result hmem => ?_⟩
    · rw [settle_id, settle_patch, hfacts]
      exact hevidence.patch
    · rw [settle_patch]
      exact hevidence.submitted
    · rw [hresults, settle_id, hfacts]
      exact hevidence.recorded result
    · rw [hresults] at hmem
      exact hevidence.configured result hmem
  · rw [settle_reviewVerdict] at hv
    exact absurd hv hpass

/-- With nothing to wait for, a validation round validates every candidate. -/
theorem Live.settle_validated (h : Live o project s) (hsettled : Settled s) (hc : c ∈ s.candidates)
    (hnone : pendingStage project c = none) : (o.settle now project c).status = .validated := by
  rcases settle_cases o now project c with ⟨-, -, hstatus, -⟩ | ⟨hnot, heq⟩
  · exact hstatus
  · rw [heq]
    rcases h.status_settled hsettled hc with hstatus | ⟨hstatus, -, -⟩
    · refine absurd ⟨hstatus, ?_⟩ hnot
      unfold pendingStage at hnone
      rwa [if_pos hstatus] at hnone
    · exact hstatus

/-- The stage jobs name the waiting candidates, one each. -/
theorem stageJobs_candidates (now : Instant) (run : Run) (project : Project) (issued : Nat)
    (candidates : List Candidate) :
    (o.stageJobs now run project issued candidates).map Job.candidateId =
      (candidates.filter fun c => (pendingStage project c).isSome).map fun c => some c.id := by
  induction candidates generalizing issued with
  | nil => rfl
  | cons first rest ih =>
    cases hstage : pendingStage project first with
    | none => simp [stageJobs, hstage, ih]
    | some stage =>
      simp only [stageJobs, hstage, List.map_cons, ih, Option.isSome_some, List.filter_cons_of_pos]
      rfl

/-- A round that opens stage jobs. -/
theorem Live.validatingRound (h : Live o project s) (hsettled : Settled s)
    (hperm : candidates.Perm s.candidates) (hrun : s.run.status ≠ .reviewing)
    (hround : Orchestrator.Validating o now issued s.run project candidates p)
    (hkeys : ((s.decided p).tickets.map Ticket.id).Nodup)
    (hids : ((s.decided p).candidates.map Candidate.id).Nodup) :
    Live o project (s.decided p) := by
  have hcandidates := decided_candidates h hperm (settle_id o now project) hround.candidates_eq
    hround.opened_eq
  have hmem : ∀ {c}, c ∈ candidates → c ∈ s.candidates := fun hc => hperm.mem_iff.mp hc
  obtain ⟨-, hjobs⟩ := stageJobs_spec (o := o) now s.run project issued candidates
  refine ⟨hids, hkeys, ?_, ?_, ?_, ?_⟩
  · apply distinct_of_decided hsettled
    rw [hround.followUps_eq]
    intro job hjob job' hjob' hsame
    have hnodup : ((o.stageJobs now s.run project issued candidates).map Job.candidateId).Nodup := by
      rw [stageJobs_candidates]
      have hcands : (candidates.map Candidate.id).Nodup :=
        (hperm.map Candidate.id).nodup_iff.mpr h.ids
      have hsome := (hcands.map (Option.some_injective CandidateId))
      rw [List.map_map] at hsome
      exact hsome.sublist (List.filter_sublist.map _)
    rw [List.inj_on_of_nodup_map hnodup hjob hjob' hsame]
  · intro t ht hopen
    obtain ⟨job, hjob, rfl⟩ := open_of_decided hsettled ht hopen
    rw [hround.followUps_eq] at hjob
    obtain ⟨c, hc, stage, n, hstage, rfl⟩ := hjobs job hjob
    have hpending := hstage
    unfold pendingStage at hstage
    split at hstage
    · rename_i hstatus
      have hsame : o.settle now project c = c := by
        rcases settle_cases o now project c with ⟨-, hnone, -⟩ | ⟨-, heq⟩
        · rw [hnone] at hstage
          cases hstage
        · exact heq
      refine .stage stage c.stored ?_ rfl rfl hstatus hstage hround.status
      rw [hcandidates]
      exact List.mem_map.mpr ⟨c, hmem hc, by rw [hsame]⟩
    · cases hstage
  · intro c hc
    rw [hcandidates] at hc
    obtain ⟨old, hold, rfl⟩ := List.mem_map.mp hc
    have hfacts : (s.decided p).facts = s.facts := rfl
    exact (h.settle_standing hsettled hold (h.no_pass hrun hold) hfacts fun _ =>
      hround.status).stored
  · have hvalidating : (s.decided p).run.status = .validating := hround.status
    simp only [Phase, hvalidating, hcandidates]
    obtain ⟨c, hc, -⟩ := hround.waiting
    exact List.ne_nil_of_mem (List.mem_map_of_mem (hmem hc))

/-- The best viable candidate goes to the reviewer. -/
theorem Live.reviewRound (h : Live o project s) (hsettled : Settled s)
    (hperm : candidates.Perm s.candidates) (hrun : s.run.status ≠ .reviewing)
    (hnone : ∀ c ∈ candidates, pendingStage project c = none)
    (hround : Orchestrator.Reviewing o now issued s.run project candidates p)
    (hkeys : ((s.decided p).tickets.map Ticket.id).Nodup)
    (hids : ((s.decided p).candidates.map Candidate.id).Nodup) :
    Live o project (s.decided p) := by
  have hcandidates := decided_candidates h hperm (settle_id o now project) hround.candidates_eq
    hround.opened_eq
  obtain ⟨best, hbest, hvalidated, hviable, hjobs⟩ := hround.best
  obtain ⟨old, hold, rfl⟩ := List.mem_map.mp hbest
  refine ⟨hids, hkeys, ?_, ?_, ?_, ?_⟩
  · apply distinct_of_decided hsettled
    rw [hjobs]
    intro job hjob job' hjob' _
    rw [List.mem_singleton.mp hjob, List.mem_singleton.mp hjob']
  · intro t ht hopen
    obtain ⟨job, hjob, rfl⟩ := open_of_decided hsettled ht hopen
    rw [hjobs] at hjob
    rw [List.mem_singleton.mp hjob]
    refine .review (o.settle now project old).stored ?_ rfl rfl hvalidated hviable hround.status
    rw [hcandidates]
    exact List.mem_map_of_mem (hperm.mem_iff.mp hold)
  · intro c hc
    rw [hcandidates] at hc
    obtain ⟨other, hother, rfl⟩ := List.mem_map.mp hc
    have hfacts : (s.decided p).facts = s.facts := rfl
    exact (h.settle_standing hsettled hother (h.no_pass hrun hother) hfacts fun hsome =>
      absurd (hnone other (hperm.mem_iff.mpr hother)) hsome).stored
  · have hreviewing : (s.decided p).run.status = .reviewing := hround.status
    simp only [Phase, hreviewing, hcandidates]
    exact List.ne_nil_of_mem (List.mem_map_of_mem (hperm.mem_iff.mp hold))

/-! ### Repair -/

/-- A candidate that goes back to the coder keeps its identity and loses its report. -/
theorem startRepair_of_live (now : Instant) {target : Candidate}
    (h : target.status.isTerminal = false) :
    (target.startRepair now).self.id = target.id ∧
      (target.startRepair now).self.status = .coding ∧
      (target.startRepair now).self.validation.results = [] ∧
      (target.startRepair now).self.workspaceId = target.workspaceId ∧
      (target.startRepair now).self.reviewVerdict = target.reviewVerdict := by
  simp [Candidate.startRepair, h, Candidate.record]

/-- The candidates once one of them was sent back. -/
def sentBack (now : Instant) (f : Candidate → Candidate) (target c : Candidate) : Candidate :=
  if c.id = target.id then ((f c).startRepair now).self else f c

theorem sentBack_id {f : Candidate → Candidate} (hf : ∀ c, (f c).id = c.id) (target : Candidate) :
    ∀ c, (sentBack now f target c).id = c.id := by
  intro c
  unfold sentBack
  split
  · rw [(startRepair_frame now (f c)).1, hf]
  · exact hf c

/-- A repair changes the candidates one by one. -/
theorem Live.repaired_candidates (h : Live o project s) (hperm : candidates.Perm s.candidates)
    {f : Candidate → Candidate} (hf : ∀ c, (f c).id = c.id) {target : Candidate}
    (htarget : target ∈ candidates.map f)
    (hround : Repaired o now issued s.run (candidates.map f) target p) :
    (s.decided p).candidates = s.candidates.map fun c => (sentBack now f target c).stored := by
  have hids : ((candidates.map f).map Candidate.id).Nodup := by
    rw [List.map_map, show (Candidate.id ∘ f) = Candidate.id from funext hf]
    exact (hperm.map Candidate.id).nodup_iff.mpr h.ids
  have hsent : p.candidates = candidates.map (sentBack now f target) := by
    rw [hround.candidates_eq]
    unfold replaceCandidate
    rw [Table.put_eq_map (fun c => (c.startRepair now).self) hids htarget
      (startRepair_frame now target).1 rfl, List.map_map]
    apply List.map_congr_left
    intro c _
    simp only [Function.comp, sentBack, hf]
  exact decided_candidates h hperm (sentBack_id hf target) hsent hround.opened_eq

/-- A repair round: the target codes again, all others stay validated. -/
theorem Live.repairRound (h : Live o project s) (hsettled : Settled s)
    (hperm : candidates.Perm s.candidates) {f : Candidate → Candidate} (hf : ∀ c, (f c).id = c.id)
    {target : Candidate} (htarget : target ∈ candidates.map f)
    (hround : Repaired o now issued s.run (candidates.map f) target p)
    (hvalidated : ∀ c ∈ s.candidates, (f c).status = .validated)
    (hpass : ∀ c ∈ s.candidates, (f c).reviewVerdict ≠ some .pass)
    (hstanding : ∀ c ∈ s.candidates, Standing o project (s.decided p) (f c))
    (hkeys : ((s.decided p).tickets.map Ticket.id).Nodup)
    (hids : ((s.decided p).candidates.map Candidate.id).Nodup) :
    Live o project (s.decided p) := by
  obtain ⟨chosen, hchosen, hchosenf⟩ := List.mem_map.mp htarget
  have hchosenid : chosen.id = target.id := by rw [← hchosenf, hf]
  have hlive : ∀ c ∈ s.candidates, (f c).status.isTerminal = false := by
    intro c hc
    rw [hvalidated c hc]
    rfl
  have hcandidates := h.repaired_candidates hperm hf htarget hround
  have hcoding : (s.decided p).run.status = .coding := hround.status
  have hticket : Ticket.opened (o.codeJob issued p.run target.id .high now) ∈
      (s.decided p).tickets := by
    apply followUp_mem
    rw [hround.followUps_eq]
    exact List.mem_cons_self
  have hchosen' : chosen ∈ s.candidates := hperm.mem_iff.mp hchosen
  have hback : sentBack now f target chosen = ((f chosen).startRepair now).self := by
    unfold sentBack
    rw [if_pos hchosenid]
  have hrepaired := startRepair_of_live now (hlive chosen hchosen')
  refine ⟨hids, hkeys, ?_, ?_, ?_, ?_⟩
  · apply distinct_of_decided hsettled
    rw [hround.followUps_eq]
    intro job hjob job' hjob' _
    rw [List.mem_singleton.mp hjob, List.mem_singleton.mp hjob']
  · intro t ht hopen
    obtain ⟨job, hjob, rfl⟩ := open_of_decided hsettled ht hopen
    rw [hround.followUps_eq] at hjob
    rw [List.mem_singleton.mp hjob]
    refine .code (sentBack now f target chosen).stored ?_ rfl ?_ ?_
    · rw [hcandidates]
      exact List.mem_map_of_mem hchosen'
    · show some target.id = some (sentBack now f target chosen).id
      rw [sentBack_id hf, hchosenid]
    · show (sentBack now f target chosen).status = .coding
      rw [hback]
      exact hrepaired.2.1
  · intro c hc
    rw [hcandidates] at hc
    obtain ⟨old, hold, rfl⟩ := List.mem_map.mp hc
    apply Standing.stored
    by_cases hid : old.id = target.id
    · have hfields := startRepair_of_live now (hlive old hold)
      have heq : sentBack now f target old = ((f old).startRepair now).self := if_pos hid
      rw [heq]
      refine ⟨?_, ?_, fun hne => absurd hfields.2.1 hne, fun hv => ?_⟩
      · rw [hfields.2.2.2.1]
        exact (hstanding old hold).workspaceId
      · refine .coding hfields.2.1 hcoding hfields.2.2.1 ⟨_, hticket, rfl, rfl, ?_⟩
        show some target.id = some ((f old).startRepair now).self.id
        rw [hfields.1, hf, hid]
      · rw [hfields.2.2.2.2] at hv
        exact absurd hv (hpass old hold)
    · rw [show sentBack now f target old = f old from if_neg hid]
      exact hstanding old hold
  · simp only [Phase, hcoding, hcandidates]
    refine ⟨_, List.mem_map_of_mem hchosen', fun hv => ?_⟩
    have hstatus : (sentBack now f target chosen).status = .coding := by
      rw [hback]
      exact hrepaired.2.1
    rw [show (sentBack now f target chosen).stored.status = .coding from hstatus] at hv
    cases hv

/-- After a round in which no candidate is viable. -/
theorem Live.repair_settled (h : Live o project s) (hsettled : Settled s)
    (hperm : candidates.Perm s.candidates) (hrun : s.run.status ≠ .reviewing)
    (hnone : ∀ c ∈ candidates, pendingStage project c = none) {target : Candidate}
    (htarget : target ∈ candidates.map (o.settle now project))
    (hround : Repaired o now issued s.run (candidates.map (o.settle now project)) target p)
    (hkeys : ((s.decided p).tickets.map Ticket.id).Nodup)
    (hids : ((s.decided p).candidates.map Candidate.id).Nodup) :
    Live o project (s.decided p) := by
  refine h.repairRound hsettled hperm (settle_id o now project) htarget hround
    (fun c hc => h.settle_validated hsettled hc (hnone c (hperm.mem_iff.mpr hc)))
    (fun c hc => ?_) (fun c hc => ?_) hkeys hids
  · rw [settle_reviewVerdict]
    exact h.no_pass hrun hc
  · have hfacts : (s.decided p).facts = s.facts := rfl
    exact h.settle_standing hsettled hc (h.no_pass hrun hc) hfacts fun hsome =>
      absurd (hnone c (hperm.mem_iff.mpr hc)) hsome

/-- Under review every candidate is validated. -/
theorem Live.reviewing_validated (h : Live o project s) (hrun : s.run.status = .reviewing)
    (hc : c ∈ s.candidates) : c.status = .validated := by
  cases (h.standing c hc).place with
  | coding _ hcoding _ _ => rw [hrun] at hcoding; cases hcoding
  | validating _ hplace =>
    rcases hplace with hval | ⟨hcod, -⟩
    · rw [hrun] at hval
      cases hval
    · rw [hrun] at hcod
      cases hcod
  | validated hstatus _ _ => exact hstatus

/-- After a review that passed nobody. -/
theorem Live.repair_reviewed (h : Live o project s) (hsettled : Settled s)
    (hperm : candidates.Perm s.candidates) (hrun : s.run.status = .reviewing)
    (hnopass : ∀ c ∈ candidates, c.reviewVerdict ≠ some .pass) {target : Candidate}
    (htarget : target ∈ candidates) (hround : Repaired o now issued s.run candidates target p)
    (hkeys : ((s.decided p).tickets.map Ticket.id).Nodup)
    (hids : ((s.decided p).candidates.map Candidate.id).Nodup) :
    Live o project (s.decided p) := by
  have hpass : ∀ c ∈ s.candidates, c.reviewVerdict ≠ some .pass := fun c hc =>
    hnopass c (hperm.mem_iff.mpr hc)
  refine h.repairRound hsettled hperm (f := id) (fun _ => rfl) (by simpa using htarget)
    (by simpa using hround) (fun c hc => h.reviewing_validated hrun hc) hpass (fun c hc => ?_)
    hkeys hids
  have hold := h.standing c hc
  refine ⟨hold.workspaceId, ?_, hold.evidence, fun hv => absurd hv (hpass c hc)⟩
  cases hold.place with
  | coding hstatus _ _ _ => rw [h.reviewing_validated hrun hc] at hstatus; cases hstatus
  | validating hstatus _ => rw [h.reviewing_validated hrun hc] at hstatus; cases hstatus
  | validated hstatus hnone hblocking => exact .validated hstatus hnone hblocking

/-! ### Completion -/

theorem done_eq_passed (stage : ValidationStage) (report : ValidationReport) :
    stage.done report = report.passed stage.kind := by
  cases stage <;> rfl

/-- The winner of a review is what a completed run has to show. -/
theorem Live.completion (h : Live o project s) (hsettled : Settled s)
    (hperm : candidates.Perm s.candidates) {winner : Candidate}
    (hdone : Completed now issued s.run candidates winner p) :
    Completion o project (s.decided p) ∧ Settled (s.decided p) := by
  have hwinner : winner ∈ s.candidates := hperm.mem_iff.mp hdone.winner_mem
  have hstanding := h.standing winner hwinner
  obtain ⟨hstatus, hviable, -, hpassed⟩ := hstanding.passed hdone.winner_passed
  have hevidence := hstanding.evidence (h.not_coding hsettled hwinner)
  obtain ⟨hnone, hblocking⟩ : nextStage project winner.validation = none ∧
      winner.validation.staticAnalysisIsBlocking = o.config.staticAnalysisIsBlocking := by
    rcases h.status_settled hsettled hwinner with hval | ⟨-, hrest⟩
    · rw [hstatus] at hval
      cases hval
    · exact hrest
  have hcandidates := decided_candidates h hperm
    (fun c => (crown_frame now winner c).1) hdone.candidates_eq hdone.opened_eq
  have hframe := crown_frame now winner winner
  unfold Candidate.isViable at hviable
  rw [Bool.and_eq_true] at hviable
  obtain ⟨patch, hpatch⟩ := Option.ne_none_iff_exists'.mp hevidence.submitted
  constructor
  · refine ⟨(crown now winner winner).stored, ?_, patch, ?_, ?_, ?_, ?_, ?_, ?_, ?_, ?_⟩
    · rw [hcandidates]
      exact List.mem_map_of_mem hwinner
    · show p.run.selectedCandidateId = some (crown now winner winner).id
      rw [hdone.selected, hframe.1]
    · exact hframe.2.2.1.trans hpatch
    · have hsome := hviable.1
      simpa [Candidate.hasPatch, hpatch] using hsome
    · show patchOf (crown now winner winner).id s.facts = some patch
      rw [hframe.1, hevidence.patch, hpatch]
    · intro result
      show result ∈ (crown now winner winner).validation.results ↔
        Recorded s.facts (crown now winner winner).id result
      rw [hframe.1, hframe.2.2.2.1]
      exact hevidence.recorded result
    · intro result hrecorded hkind
      have hrecorded : Recorded s.facts (crown now winner winner).id result := hrecorded
      rw [hframe.1, ← hevidence.recorded result] at hrecorded
      apply ValidationReport.succeeded_of_isViable hviable.2 hrecorded
      rwa [hblocking]
    · intro stage hstage hconfigured
      have hran := done_of_nextStage_none hnone hviable.2 hstage hconfigured
      rw [done_eq_passed, ValidationReport.passed_ne_none] at hran
      obtain ⟨result, hmem, hkind⟩ := hran
      refine ⟨result, ?_, hkind⟩
      show Recorded s.facts (crown now winner winner).id result
      rw [hframe.1]
      exact (hevidence.recorded result).mp hmem
    · show Passed s.facts (crown now winner winner).id
      rw [hframe.1]
      exact hpassed
  · intro t ht
    rw [State.decided, hdone.followUps_eq, List.map_nil, List.append_nil] at ht
    exact hsettled t ht

/-! ### Every decision -/

/-- What a step has to leave: a live run with the invariant, or one that is over, and
    then a completed run can show for it. -/
structure Kept (o : Orchestrator) (project : Project) (s : State) : Prop where
  live : s.run.isTerminal = false → Live o project s
  completed : s.run.status = .completed → Completion o project s ∧ Settled s

theorem Kept.of_live (h : Live o project s) (hrun : s.run.status ≠ .completed) : Kept o project s :=
  ⟨fun _ => h, fun hc => absurd hc hrun⟩

theorem Kept.of_failed (h : s.run.status = .failed) : Kept o project s := by
  constructor
  · intro hlive
    rw [Run.isTerminal, h] at hlive
    cases hlive
  · intro hcompleted
    rw [h] at hcompleted
    cases hcompleted

/-- **A decision keeps the invariant, or ends the run with something to show.** -/
theorem Live.decided (h : Live o project s) (hlive : s.run.isTerminal = false)
    (hsettled : Settled s) (hperm : candidates.Perm s.candidates)
    (hp : o.nextStep ws now issued s.run project candidates = .ok p)
    (hkeys : ((s.decided p).tickets.map Ticket.id).Nodup)
    (hids : ((s.decided p).candidates.map Candidate.id).Nodup) : Kept o project (s.decided p) := by
  have hphase := h.phase
  have hround : s.run.status ≠ .reviewing →
      o.advanceCandidates now issued s.run project candidates = .ok p → s.candidates ≠ [] →
      Kept o project (s.decided p) := by
    intro hrun hp hsome
    rcases advanceCandidates_ok hlive hrun hp with
      hval | ⟨hnone, ⟨hidle, rfl⟩ | hrev | ⟨-, ⟨target, hmem, -, hrep⟩ | ⟨-, hfail⟩⟩⟩
    · refine .of_live (h.validatingRound hsettled hperm hrun hval hkeys hids) ?_
      rw [show (s.decided p).run.status = .validating from hval.status]
      simp
    · obtain ⟨c, hc⟩ := List.exists_mem_of_ne_nil _ hsome
      have hc' := hperm.mem_iff.mpr hc
      exact absurd (h.settle_validated hsettled hc (hnone c hc'))
        (hidle _ (List.mem_map_of_mem hc'))
    · refine .of_live (h.reviewRound hsettled hperm hrun hnone hrev hkeys hids) ?_
      rw [show (s.decided p).run.status = .reviewing from hrev.status]
      simp
    · refine .of_live (h.repair_settled hsettled hperm hrun hnone hmem hrep hkeys hids) ?_
      rw [show (s.decided p).run.status = .coding from hrep.status]
      simp
    · exact .of_failed hfail.status
  unfold Phase at hphase
  unfold nextStep at hp
  cases hstatus : s.run.status <;> simp only [hstatus] at hphase hp
  · rcases openFirstStage_ok hp with ⟨planning, hplanning, rfl⟩ | ⟨coding, hcoding, hopened⟩
    · obtain ⟨-, rfl⟩ := Run.transitioning_after.mp hplanning
      exact .of_live (.planRequested hphase.1 hphase.2 rfl hkeys) (by intro hc; cases hc)
    · obtain ⟨-, rfl⟩ := Run.transitioning_after.mp hcoding
      refine .of_live (.opened hphase.1 hsettled rfl hopened hkeys hids) ?_
      rw [State.decided, hopened.run_eq]
      intro hc
      cases hc
  · obtain ⟨t, ht, hopen, -⟩ := hphase.2
    rw [hsettled t ht] at hopen
    cases hopen
  · obtain ⟨coding, hcoding, hp⟩ := bind_eq_ok.mp hp
    obtain ⟨-, rfl⟩ := Run.transitioning_after.mp hcoding
    have hopened := openCandidates_ok hp
    refine .of_live (.opened hphase hsettled rfl hopened hkeys hids) ?_
    rw [State.decided, hopened.run_eq]
    intro hc
    cases hc
  · obtain ⟨c, hc, -⟩ := hphase
    exact hround (by rw [hstatus]; simp) hp (List.ne_nil_of_mem hc)
  · exact hround (by rw [hstatus]; simp) hp hphase
  · rcases advanceReview_ok hlive hp with
      ⟨winner, hdone⟩ | ⟨hnopass, ⟨target, hmem, hrep⟩ | ⟨-, hfail⟩⟩
    · obtain ⟨hcompletion, hover⟩ := h.completion hsettled hperm hdone
      constructor
      · intro hc
        rw [Run.isTerminal, show (s.decided p).run.status = .completed from hdone.status] at hc
        cases hc
      · exact fun _ => ⟨hcompletion, hover⟩
    · refine .of_live (h.repair_reviewed hsettled hperm hstatus hnopass hmem hrep hkeys hids) ?_
      rw [show (s.decided p).run.status = .coding from hrep.status]
      simp
    · exact .of_failed hfail.status

/-! ### Every step -/

theorem settled_close {id : JobId} (h : Settled s) :
    ∀ t ∈ s.close id, t.isOpen = false := by
  intro t ht
  rcases mem_close.mp ht with ⟨hmem, -⟩ | ⟨old, -, -, rfl⟩
  · exact h t hmem
  · rfl

/-- A completed run has nothing open, so no stage can commit. -/
theorem Kept.not_open (h : Kept o project s) {t : Ticket} (ht : t ∈ s.tickets)
    (hopen : t.isOpen = true) : s.run.status ≠ .completed := by
  intro hcompleted
  rw [(h.completed hcompleted).2 t ht] at hopen
  cases hopen

/-- **One step keeps the workflow invariant.** -/
theorem Step.kept (hstep : Step o project s s') (h : Kept o project s) : Kept o project s' := by
  have hstage : ∀ {run : Run} {next : State}, next.run = run → run.status = s.run.status →
      s.run.status ≠ .completed → (s.run.isTerminal = false → Live o project next) →
      Kept o project next := by
    intro run next hnext hrun hnot hlive
    constructor
    · intro hl
      apply hlive
      rwa [Run.isTerminal, hnext, hrun] at hl
    · intro hc
      rw [hnext, hrun] at hc
      exact absurd hc hnot
  cases hstep with
  | decided hlive hsettled hperm hp hkeys hids =>
    exact (h.live hlive).decided hlive hsettled hperm hp hkeys hids
  | planned ht hopen htype hcan hrun _ _ =>
    have hlive : s.run.isTerminal = false := by
      cases hl : s.run.isTerminal with
      | false => rfl
      | true =>
        rw [RunStateMachine.can_of_terminal hl] at hcan
        cases hcan
    refine .of_live ((h.live hlive).planned ht hopen htype hrun) ?_
    show _ ≠ _
    rw [hrun]
    simp
  | coded ht hopen htype hnamed hc hsubmits hsame =>
    exact hstage rfl hsame.status (h.not_open ht hopen) fun hl =>
      (h.live hl).coded ht hopen htype hnamed hc hsubmits hsame.status
  | validated ht hopen htype hnamed hc hran =>
    exact hstage rfl rfl (h.not_open ht hopen) fun hl =>
      (h.live hl).validated ht hopen htype hnamed hc hran
  | reviewed ht hopen htype hnamed hc hsame =>
    exact hstage rfl hsame.status (h.not_open ht hopen) fun hl =>
      (h.live hl).reviewed ht hopen htype hnamed hc hsame.status
  | died _ hfailed _ => exact .of_failed hfailed
  | dropped hterminal =>
    constructor
    · intro hl
      rw [hterminal] at hl
      cases hl
    · intro hc
      obtain ⟨hcompletion, hsettled⟩ := h.completed hc
      exact ⟨hcompletion, settled_close hsettled⟩

end AgenticPlatform.Workflow
