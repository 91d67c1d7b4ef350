import AgenticPlatform.FlowRefinement
import AgenticPlatform.WorkflowBounds
import AgenticPlatform.WorkflowProgress

/-!
# What a run guarantees

Three properties of every run the platform carries out: a completed run can show for it,
no decision is refused by the transition table, and the number of jobs is bounded. All
three rest on the two retry budgets agreeing; where they do not, a job can be dead while
its record is still on offer, and each of the three fails.
-/

namespace AgenticPlatform

/-- The run is over, or it has a job to do. -/
def Db.Moving (db : Db) (runId : RunId) : Prop :=
  (∃ run, db.run? runId = some run ∧ run.isTerminal = true) ∨
    hasUnfinished (db.jobsOf runId) = true

namespace Sample

/-- Claim the next job of a type for two minutes, with a token of its own. -/
def claim (jobType : JobType) (now : Instant) : RunFlow.Move :=
  .claim consumer [jobType] 120000000 now ⟨"lease-" ++ toString now, by simp⟩ (by decide)

/-- The coder answers with a diff. -/
def codes (diff : String) (now : Instant) : RunFlow.Move :=
  .execute 0 { coderAnswers now with
    coder := .ok ⟨"done", [], ⟨diff, none, []⟩, ⟨10, 5⟩, "v1", consumer⟩ } fun _ => rfl

/-- The reviewer answers, or raises. -/
def reviews (answer : Except PyError ReviewDraft) (now : Instant) : RunFlow.Move :=
  .execute 0 { coderAnswers now with
    reviewer := answer.map fun draft => ⟨draft, ⟨10, 5⟩, "v1", consumer⟩ } fun _ => rfl

def pass : ReviewDraft := ⟨.pass, "sound", [], by simp⟩

def fail : ReviewDraft := ⟨.fail, "broken", [⟨"regression", .major, none, none, none⟩], by simp⟩

/-- The only candidate of a run was coded. -/
def codedMoves (diff : String) : List RunFlow.Move :=
  [.start .calm 0, claim .code 1, codes diff 2]

def passedMoves : List RunFlow.Move :=
  codedMoves "+fixed" ++
    [.advance .calm 3, claim .review 4, reviews (.ok pass) 5, .advance .calm 6]

/-- The review of the first patch dies, and is executed once the candidate was sent back. -/
def overtakenMoves : List RunFlow.Move :=
  codedMoves "+first" ++
    [claim .code 3, codes "+second" 4, .advance .calm 5,
      claim .review 6, reviews (.error (.structuredOutput "no JSON")) 7, .advance .calm 8,
      claim .review 9, reviews (.ok pass) 10, .advance .calm 11,
      claim .code 12, codes "" 13, .advance .calm 14,
      claim .review 15, reviews (.ok fail) 16, .advance .calm 17]

/-- A build that cannot be run, while slow holders sit on the `n` builds before it. -/
def rebuiltMoves (n : Nat) : List RunFlow.Move :=
  [claim .build (4 * n + 4), .execute n (coderAnswers (4 * n + 5)) fun _ => rfl,
    .advance .calm (4 * n + 6), claim .build (4 * n + 7)]

end Sample

namespace RunFlow

/-- Where the moves lead after the run was submitted. -/
def reached (o : Orchestrator) (project : Project) (run : Run) (moves : List Move) : RunFlow :=
  Runs.after (step o run.id) (submitted project run) moves

/-- The retry budgets agreed at every move. -/
def Agreed (o : Orchestrator) (project : Project) (run : Run) (moves : List Move) : Prop :=
  Runs.Along (step o run.id) (Agrees o) (submitted project run) moves

variable {o : Orchestrator} {project : Project} {run current : Run} {runId : RunId}
  {flow : RunFlow} {s : Workflow.State} {moves : List Move} {ws : Workspaces} {now : Instant}

/-- The state of the workflow a run has reached. -/
theorem reached_tracks (hnew : New project run) (hagreed : Agreed o project run moves) :
    ∃ s, Tracks o project run.id (reached o project run moves) s ∧ Workflow.Kept o project s := by
  obtain ⟨s, htracks, hkept, -⟩ := tracked hnew (I := fun _ => True) trivial
    (fun _ _ _ _ _ => trivial) hagreed
  exact ⟨s, htracks, hkept⟩

/-- The row of the run is the one the workflow speaks of. -/
theorem Tracks.run_eq (h : Tracks o project runId flow s)
    (hrow : flow.world.db.run? runId = some current) : s.run = current :=
  Option.some.inj (h.row.symm.trans hrow)

/-! ### A completed run -/

/-- **A completed run can show for it**: its selected candidate has a patch, every result
    recorded for that patch that must be a success is one, no configured build or test
    command is left out, and a reviewer passed the very same patch. -/
theorem completion_sound (hnew : New project run) (hagreed : Agreed o project run moves)
    (hrow : (reached o project run moves).world.db.run? run.id = some current)
    (hcompleted : current.status = .completed) :
    Workflow.Completion o project ((reached o project run moves).shown current) := by
  obtain ⟨s, htracks, hkept⟩ := reached_tracks hnew hagreed
  obtain rfl := htracks.run_eq hrow
  rw [htracks.shows]
  exact (hkept.completed hcompleted).1

theorem completion_sound_sample :
    ∃ run, (reached (Sample.orchestrator 3 (by decide)) (Sample.project {})
        (Sample.run 1 (by decide) (by decide)) Sample.passedMoves).world.db.run? ⟨2⟩ = some run ∧
      run.status = .completed ∧
      Workflow.Completion (Sample.orchestrator 3 (by decide)) (Sample.project {})
        ((reached (Sample.orchestrator 3 (by decide)) (Sample.project {})
          (Sample.run 1 (by decide) (by decide)) Sample.passedMoves).shown run) := by
  have hagreed : Agreed (Sample.orchestrator 3 (by decide)) (Sample.project {})
      (Sample.run 1 (by decide) (by decide)) Sample.passedMoves := by
    unfold Agreed
    decide +kernel
  have hstatus : ((reached (Sample.orchestrator 3 (by decide)) (Sample.project {})
      (Sample.run 1 (by decide) (by decide)) Sample.passedMoves).world.db.run? ⟨2⟩).map Run.status =
        some .completed := by
    decide +kernel
  obtain ⟨run, hrow, hcompleted⟩ := Option.map_eq_some_iff.mp hstatus
  exact ⟨run, hrow, hcompleted, completion_sound ⟨rfl, rfl, rfl⟩ hagreed hrow hcompleted⟩

/-- A completion cannot be shown for an empty patch. -/
theorem not_completion_of_blank {id : CandidateId} (hselected : run.selectedCandidateId = some id)
    (hblank : ∀ c ∈ flow.world.db.candidates, c.id = id →
      ∀ patch ∈ c.patch, patch.isEmpty = true) :
    ¬ Workflow.Completion o project (flow.shown run) := by
  rintro ⟨c, hc, patch, hchosen, hpatch, hsolid, -⟩
  have hid : c.id = id := Option.some.inj (hchosen.symm.trans hselected)
  rw [hblank c hc hid patch hpatch] at hsolid
  cases hsolid

/-- One attempt for each job, and a review that is retried all the same: the verdict on
    the first patch is recorded for a candidate whose last patch is empty and rejected. -/
theorem completion_unsound :
    New (Sample.project {}) (Sample.run 2 (by decide) (by decide)) ∧
      ∃ run, (reached (Sample.orchestrator 1 (by decide)) (Sample.project {})
          (Sample.run 2 (by decide) (by decide)) Sample.overtakenMoves).world.db.run? ⟨2⟩ =
            some run ∧
        run.status = .completed ∧
        ¬ Workflow.Completion (Sample.orchestrator 1 (by decide)) (Sample.project {})
          ((reached (Sample.orchestrator 1 (by decide)) (Sample.project {})
            (Sample.run 2 (by decide) (by decide)) Sample.overtakenMoves).shown run) := by
  have hstatus : ((reached (Sample.orchestrator 1 (by decide)) (Sample.project {})
      (Sample.run 2 (by decide) (by decide)) Sample.overtakenMoves).world.db.run? ⟨2⟩).map
        (fun run => (run.status, run.selectedCandidateId)) = some (.completed, some ⟨0⟩) := by
    decide +kernel
  have hblank : ∀ c ∈ (reached (Sample.orchestrator 1 (by decide)) (Sample.project {})
      (Sample.run 2 (by decide) (by decide)) Sample.overtakenMoves).world.db.candidates,
        c.id = ⟨0⟩ → ∀ patch ∈ c.patch, patch.isEmpty = true := by
    decide +kernel
  obtain ⟨run, hrow, hrun⟩ := Option.map_eq_some_iff.mp hstatus
  obtain ⟨hcompleted, hselected⟩ := Prod.mk.inj hrun
  exact ⟨⟨rfl, rfl, rfl⟩, run, hrow, hcompleted, not_completion_of_blank hselected hblank⟩

/-! ### The transition table -/

/-- After a decision that ends the run or opens a job, the run moves. -/
theorem Wired.moving_advanced {p : Progress} (h : Wired o project runId flow)
    (hrun : flow.world.db.run? runId = some run) (hlive : run.isTerminal = false)
    (hp : o.nextStep ws now flow.world.issued run project (flow.world.db.candidatesOf runId) =
      .ok p)
    (hmoves : p.run.isTerminal = true ∨ p.followUps ≠ []) :
    (flow.advanced p now).world.db.Moving runId := by
  have hown : ∀ candidate ∈ flow.world.db.candidatesOf runId, candidate.runId = runId :=
    fun candidate hmem => h.candidates candidate (h.candidatesOf_perm.mem_iff.mp hmem)
  obtain ⟨hwired, hrow⟩ := h.advanced now hrun hlive hown hp
  rcases hmoves with hterminal | hfollow
  · exact .inl ⟨_, hrow, hterminal⟩
  · right
    by_contra hfinished
    rw [Bool.not_eq_true, hwired.hasUnfinished_iff p.run.stored,
      shown_advanced flow now (Orchestrator.nextStep_sound hlive hp).new] at hfinished
    obtain ⟨job, hjob⟩ := List.exists_mem_of_ne_nil _ hfollow
    have hopen := hfinished (Workflow.Ticket.opened job)
      (List.mem_append_right _ (List.mem_map_of_mem hjob))
    cases hopen

/-- A run that is over is left as it is. -/
theorem advance_of_terminal (hrun : flow.world.db.run? runId = some run)
    (hterminal : run.isTerminal = true) :
    o.advance ws now runId flow.world = .returned flow.world () := by
  have hcommit : o.advanceCommit ws now runId flow.world = .ok (flow.world, []) := by
    unfold Orchestrator.advanceCommit
    simp only [hrun, hterminal, true_or, if_true]
  simp [Orchestrator.advance, hcommit, JobQueue.publish]

/-- `_advance` of a live run with no unfinished job is the next step and its commit. -/
theorem Tracks.advance_eq (h : Tracks o project runId flow s) (hkept : Workflow.Kept o project s)
    (hlive : s.run.isTerminal = false) (hfinished : hasUnfinished (flow.world.db.jobsOf runId) = false)
    (ws : Workspaces) (now : Instant) :
    o.advance ws now runId flow.world =
      match o.nextStep ws now flow.world.issued s.run project (flow.world.db.candidatesOf runId) with
      | .error e => .raised flow.world e
      | .ok p => .returned (flow.advanced p now).world () := by
  have hproject : flow.world.db.requireProject s.run = .ok project := by
    obtain ⟨found, hfound, hid⟩ := h.wired.run_row
    rw [h.row, Option.some.injEq] at hfound
    unfold Db.requireProject
    rw [hfound, hid, h.wired.project_row]
  have hstop : ¬ (s.run.isTerminal = true ∨ s.run.isCancelling = true) := by
    rw [hlive, (hkept.live hlive).not_cancelling]
    simp
  unfold Orchestrator.advance Orchestrator.advanceCommit
  simp only [h.row, if_neg hstop, hproject, hfinished, ok_bind, Bool.false_eq_true, if_false]
  cases o.nextStep ws now flow.world.issued s.run project (flow.world.db.candidatesOf runId) with
  | error e => rfl
  | ok p => rfl

/-- **The table refuses a decision, or leaves the run idle, exactly when the run is
    stuck**: in CODING with repair budget left, no command to validate with, and no
    candidate with a patch that is not empty. -/
theorem advance_moves_iff (hnew : New project run) (hagreed : Agreed o project run moves)
    (hrow : (reached o project run moves).world.db.run? run.id = some current)
    (hfinished : hasUnfinished ((reached o project run moves).world.db.jobsOf run.id) = false)
    (ws : Workspaces) (now : Instant) :
    ((∀ e, (o.advance ws now run.id (reached o project run moves).world).result = .error e →
        e.isInvalidStateTransition = false) ∧
      (Workflow.Works ws →
        (o.advance ws now run.id (reached o project run moves).world).self.db.Moving run.id)) ↔
      ¬ Workflow.Stuck project ((reached o project run moves).shown current) := by
  obtain ⟨s, htracks, hkept⟩ := reached_tracks hnew hagreed
  obtain rfl := htracks.run_eq hrow
  rw [htracks.shows]
  cases hlive : s.run.isTerminal with
  | true =>
    rw [advance_of_terminal hrow hlive]
    constructor
    · rintro - ⟨hcoding, -⟩
      rw [Run.isTerminal, hcoding] at hlive
      cases hlive
    · intro _
      refine ⟨fun e he => ?_, fun _ => .inl ⟨_, hrow, hlive⟩⟩
      cases he
  | false =>
    have hsettled : Workflow.Settled s := by
      rw [← htracks.shows]
      exact (htracks.wired.hasUnfinished_iff s.run).mp hfinished
    have hperm : ((reached o project run moves).world.db.candidatesOf run.id).Perm s.candidates := by
      rw [htracks.shows_candidates]
      exact htracks.wired.candidatesOf_perm
    obtain ⟨hrefused, hprogress⟩ := (hkept.live hlive).nextStep_progresses hsettled hlive hperm ws
      now (reached o project run moves).world.issued
    rw [htracks.advance_eq hkept hlive hfinished ws now]
    constructor
    · rintro ⟨hallowed, -⟩ hstuck
      obtain ⟨e, he, hinvalid⟩ := hrefused hstuck
      rw [he] at hallowed
      rw [hallowed e rfl] at hinvalid
      cases hinvalid
    · intro hfree
      have hnext := hprogress hfree
      constructor
      · intro e he
        cases hstep : o.nextStep ws now (reached o project run moves).world.issued s.run project
            ((reached o project run moves).world.db.candidatesOf run.id) with
        | error e' =>
          rw [hstep] at he
          obtain ⟨text, rfl⟩ := hnext.raised e' hstep
          cases he
          rfl
        | ok p =>
          rw [hstep] at he
          cases he
      · intro hworks
        obtain ⟨p, hp⟩ := hnext.returns hworks
        rw [hp]
        exact htracks.wired.moving_advanced htracks.row hlive hp (hnext.moves p hp)

theorem not_stuck_of_patch
    (hpatch : ∃ c ∈ flow.world.db.candidates, ∃ patch ∈ c.patch, patch.isEmpty = false) :
    ¬ Workflow.Stuck project (flow.shown run) := by
  rintro ⟨-, -, -, hblank⟩
  obtain ⟨c, hc, patch, hpatch, hsolid⟩ := hpatch
  rw [hblank c hc patch hpatch] at hsolid
  cases hsolid

theorem advance_moves_iff_sample :
    (∀ e, ((Sample.orchestrator 3 (by decide)).advance .calm 3 ⟨2⟩
        (reached (Sample.orchestrator 3 (by decide)) (Sample.project {})
          (Sample.run 1 (by decide) (by decide)) (Sample.codedMoves "+fixed")).world).result =
            .error e → e.isInvalidStateTransition = false) ∧
      (Workflow.Works .calm → ((Sample.orchestrator 3 (by decide)).advance .calm 3 ⟨2⟩
        (reached (Sample.orchestrator 3 (by decide)) (Sample.project {})
          (Sample.run 1 (by decide) (by decide)) (Sample.codedMoves "+fixed")).world).self.db.Moving
            ⟨2⟩) := by
  have hagreed : Agreed (Sample.orchestrator 3 (by decide)) (Sample.project {})
      (Sample.run 1 (by decide) (by decide)) (Sample.codedMoves "+fixed") := by
    unfold Agreed
    decide +kernel
  have hrow : ((reached (Sample.orchestrator 3 (by decide)) (Sample.project {})
      (Sample.run 1 (by decide) (by decide)) (Sample.codedMoves "+fixed")).world.db.run?
        ⟨2⟩).isSome = true := by
    decide +kernel
  have hpatch : ∃ c ∈ (reached (Sample.orchestrator 3 (by decide)) (Sample.project {})
      (Sample.run 1 (by decide) (by decide)) (Sample.codedMoves "+fixed")).world.db.candidates,
        ∃ patch ∈ c.patch, patch.isEmpty = false := by
    decide +kernel
  obtain ⟨current, hrow⟩ := Option.isSome_iff_exists.mp hrow
  apply (advance_moves_iff ⟨rfl, rfl, rfl⟩ hagreed hrow (by decide +kernel) .calm 3).mpr
  exact not_stuck_of_patch hpatch

/-- A project without commands and a patch without a line: CODING asks for REPAIRING. -/
theorem advance_refused :
    New (Sample.project {}) (Sample.run 1 (by decide) (by decide)) ∧
      hasUnfinished ((reached (Sample.orchestrator 3 (by decide)) (Sample.project {})
        (Sample.run 1 (by decide) (by decide)) (Sample.codedMoves "")).world.db.jobsOf ⟨2⟩) =
          false ∧
      ∃ e, ((Sample.orchestrator 3 (by decide)).advance .calm 3 ⟨2⟩
          (reached (Sample.orchestrator 3 (by decide)) (Sample.project {})
            (Sample.run 1 (by decide) (by decide)) (Sample.codedMoves "")).world).result =
              .error e ∧
        e.isInvalidStateTransition = true :=
  ⟨⟨rfl, rfl, rfl⟩, by decide +kernel,
    .invalidStateTransition "Run" RunStatus.coding.value RunStatus.repairing.value, by rfl, rfl⟩

/-! ### The number of jobs -/

/-- Nothing was opened yet, and everything may still be. -/
theorem submitted_within (hnew : New project run) : Workflow.Within ⟨run, [], [], []⟩ := by
  refine ⟨Nat.zero_le _, fun _ => ?_⟩
  simp [Workflow.State.spare, hnew.status]

/-- **No run opens more jobs than it was allowed when it was submitted.** -/
theorem jobs_bounded (hnew : New project run) (hagreed : Agreed o project run moves) :
    ((reached o project run moves).world.db.jobsOf run.id).length ≤ Workflow.allowed run := by
  obtain ⟨s, htracks, -, hwithin, hcharter⟩ := tracked hnew
    (I := fun s => Workflow.Within s ∧ s.run.charter = run.charter)
    ⟨submitted_within hnew, rfl⟩
    (fun s s' hkept hs hstep => ⟨hstep.within hkept hs.1, hstep.charter.trans hs.2⟩) hagreed
  have htotal := hwithin.total
  rw [htracks.shows_tickets, List.length_map, Workflow.allowed_congr hcharter] at htotal
  exact Nat.le_trans (List.length_filter_le _ _) htotal

theorem jobs_bounded_sample :
    ((reached (Sample.orchestrator 3 (by decide)) (Sample.project {})
      (Sample.run 1 (by decide) (by decide)) Sample.passedMoves).world.db.jobsOf ⟨2⟩).length ≤
        Workflow.allowed (Sample.run 1 (by decide) (by decide)) := by
  have hnew : New (Sample.project {}) (Sample.run 1 (by decide) (by decide)) := ⟨rfl, rfl, rfl⟩
  apply jobs_bounded hnew
  unfold Agreed
  decide +kernel

/-- One attempt for each job, and a build that is retried all the same: every build that
    dies is followed by another one. -/
theorem jobs_exceed_bound :
    New (Sample.project { buildCommand := some "make" }) (Sample.run 1 (by decide) (by decide)) ∧
      Workflow.allowed (Sample.run 1 (by decide) (by decide)) <
        ((reached (Sample.orchestrator 1 (by decide))
          (Sample.project { buildCommand := some "make" }) (Sample.run 1 (by decide) (by decide))
          (Sample.codedMoves "+fixed" ++ .advance .calm 3 ::
            (List.range 10).flatMap Sample.rebuiltMoves)).world.db.jobsOf ⟨2⟩).length :=
  ⟨⟨rfl, rfl, rfl⟩, by decide +kernel⟩

end RunFlow

end AgenticPlatform
