import AgenticPlatform.AdvanceEffects

/-!
# Crashes between commit and publication

Follow-up jobs are persisted by one transaction and published to the queue one by one
after it. A crash in between leaves rows the queue has never heard of; recovery is
`resume_active_runs`, which goes through `_advance`. This module says for every crash
point whether recovery puts every queued row of a live run into the queue.
-/

namespace AgenticPlatform

/-- The queue has the job, ready to be claimed or leased to somebody. -/
def JobQueue.Knows (q : JobQueue) (id : JobId) : Prop :=
  (∃ jobType score, (q.slot id).ready jobType = some score) ∨
    ∃ expiry, (q.slot id).lease = some expiry

/-- The run is not terminal. -/
def Db.Live (db : Db) (runId : RunId) : Prop :=
  ∃ run, db.run? runId = some run ∧ run.isTerminal = false

/-- Every durable QUEUED job of a live run is in the queue. -/
def World.Scheduled (w : World) : Prop :=
  ∀ row ∈ w.db.jobs, row.status = .queued → w.db.Live row.runId → w.queue.Knows row.id

/-- The process died after `published` of the committed jobs were published. -/
def World.crashed (w : World) (jobs : List Job) (published : Nat) : World :=
  { w with queue := w.queue.publish (jobs.take published) }

/-- The transactions that persist follow-up jobs. -/
inductive Commits (o : Orchestrator) (ws : Workspaces) (now : Instant) (runId : RunId) (w : World) :
    World → List Job → Prop where
  | start {w' : World} {jobs : List Job} :
      o.startCommit ws now runId w = .ok (w', jobs) → Commits o ws now runId w w' jobs
  | advance {w' : World} {jobs : List Job} :
      o.advanceCommit ws now runId w = .ok (w', jobs) → Commits o ws now runId w w' jobs

namespace JobQueue

variable {q q' : JobQueue} {jobs : List Job} {id : JobId}

theorem Knows.of_slot (h : q'.slot id = q.slot id) : q'.Knows id ↔ q.Knows id := by
  simp only [Knows, h]

theorem not_knows_of_absent (hinv : q.Inv) (h : (q.slot id).job = none) : ¬ q.Knows id := by
  obtain ⟨hready, hlease, -⟩ := (hinv id).absent h
  rintro (⟨jobType, score, hscore⟩ | ⟨expiry, hexpiry⟩)
  · rw [hready] at hscore
    cases hscore
  · rw [hlease] at hexpiry
    cases hexpiry

/-- A published job can be claimed. -/
theorem knows_of_published (hinv : q.Inv) (h : q.Unpublished jobs) {job : Job} (hjob : job ∈ jobs) :
    (q.publish jobs).Knows job.id := by
  have hslot := publish_slot_mem h hjob
  have hconsistent := publish_inv hinv h job.id
  obtain ⟨score, hscore⟩ := hconsistent.scored _ hslot
  refine .inl ⟨job.type, score, ?_⟩
  rw [hconsistent.ready _ hslot, if_pos ⟨rfl, rfl⟩, hscore]

theorem Unpublished.take (h : q.Unpublished jobs) (n : Nat) : q.Unpublished (jobs.take n) :=
  ⟨h.nodup.sublist ((List.take_sublist n jobs).map Job.id),
    fun job hjob => h.lease job (List.mem_of_mem_take hjob),
    fun job hjob => h.absent job (List.mem_of_mem_take hjob)⟩

end JobQueue

namespace Orchestrator

variable {o : Orchestrator} {ws : Workspaces} {now : Instant} {runId : RunId} {w w' : World}
  {jobs : List Job}

/-- What a committing transaction decided, apart from leaving everything as it is. -/
structure Decided (o : Orchestrator) (now : Instant) (runId : RunId) (w w' : World)
    (jobs : List Job) (run : Run) (candidates : List Candidate) (p : Progress) : Prop where
  run_row : w.db.run? runId = some run
  live : run.isTerminal = false
  sound : Sound o w.issued run candidates p
  world_eq : w' = committed w p now
  jobs_eq : jobs = publication p now
  open_rows : (∀ row ∈ w.db.jobs, row.runId = runId → row.status ≠ .queued) ∨
    p.run.isTerminal = false

theorem commits_cases (h : Commits o ws now runId w w' jobs) :
    (w' = w ∧ jobs = []) ∨ ∃ run candidates p, Decided o now runId w w' jobs run candidates p := by
  cases h with
  | start h =>
    unfold startCommit at h
    obtain ⟨run, hrun, h⟩ := bind_eq_ok.mp h
    have hrow : w.db.run? runId = some run := by
      unfold Db.requireRun at hrun
      split at hrun
      · cases hrun
      · rename_i found hfound
        cases hrun
        exact hfound
    split at h
    · cases h
      exact .inl ⟨rfl, rfl⟩
    · rename_i hcreated
      have hcreated : run.status = .created := by simpa using hcreated
      obtain ⟨-, -, h⟩ := bind_eq_ok.mp h
      obtain ⟨p, hp, h⟩ := bind_eq_ok.mp h
      simp only [pure_eq_ok, Except.ok.injEq, Prod.mk.injEq] at h
      obtain ⟨rfl, rfl⟩ := h
      refine .inr ⟨run, [], p, hrow, by simp [Run.isTerminal, hcreated, RunStatus.isTerminal],
        openFirstStage_sound hp, rfl, rfl, .inr ?_⟩
      rcases openFirstStage_ok hp with ⟨planning, hplanning, rfl⟩ | ⟨coding, hcoding, hopened⟩
      · obtain ⟨-, rfl⟩ := Run.transitioning_after.mp hplanning
        rfl
      · obtain ⟨-, rfl⟩ := Run.transitioning_after.mp hcoding
        rw [hopened.run_eq]
        rfl
  | advance h =>
    rcases advanceCommit_ok h with hsame | ⟨run, project, p, hadv, hp, hw, hjobs⟩
    · exact .inl hsame
    · refine .inr ⟨run, _, p, hadv.run_row, hadv.live, nextStep_sound hadv.live hp, hw, hjobs,
        .inl fun row hrow hid hqueued => ?_⟩
      have hfinished := List.any_eq_false.mp hadv.finished row (Db.mem_jobsOf.mpr ⟨hrow, hid⟩)
      rw [hqueued] at hfinished
      exact hfinished rfl

namespace Decided

variable {run : Run} {candidates : List Candidate} {p : Progress}

theorem run_id (h : Decided o now runId w w' jobs run candidates p) : p.run.id = runId :=
  (Run.id_of_charter h.sound.charter).trans (Table.find_key h.run_row)

theorem run?_committed (h : Decided o now runId w w' jobs run candidates p) (id : RunId) :
    (w.db.store p now).run? id = if id = runId then some p.run.stored else w.db.run? id := by
  have hrow : w.db.run? p.run.id = some run := by
    rw [h.run_id]
    exact h.run_row
  rw [Db.run?_store hrow, h.run_id]

/-- A row that was there is in the queue after any part of the publication exactly if it
    was before. -/
theorem knows_old (h : Decided o now runId w w' jobs run candidates p) (hfresh : w.Fresh o)
    (published : Nat) {row : Job} (hrow : row ∈ w.db.jobs) :
    (w.queue.publish (jobs.take published)).Knows row.id ↔ w.queue.Knows row.id := by
  obtain ⟨found, hfound⟩ : ∃ found, w.db.job? row.id = some found := by
    cases hfind : w.db.job? row.id with
    | some found => exact ⟨found, rfl⟩
    | none => exact absurd rfl (Table.find_eq_none.mp hfind row hrow)
  refine JobQueue.Knows.of_slot (JobQueue.publish_slot_other fun job hjob => ?_)
  rw [h.jobs_eq] at hjob
  exact publication_other hfresh h.sound hfound job (List.mem_of_mem_take hjob)

/-- Storing the decision does not end or revive the run of a queued row. -/
theorem live_old (h : Decided o now runId w w' jobs run candidates p) {row : Job}
    (hrow : row ∈ w.db.jobs) (hqueued : row.status = .queued) :
    (w.db.store p now).Live row.runId ↔ w.db.Live row.runId := by
  unfold Db.Live
  rw [h.run?_committed]
  by_cases heq : row.runId = runId
  · rw [if_pos heq, heq]
    have hopen : p.run.isTerminal = false :=
      h.open_rows.resolve_left fun hnone => hnone row hrow heq hqueued
    exact ⟨fun _ => ⟨run, h.run_row, h.live⟩, fun _ => ⟨p.run.stored, rfl, hopen⟩⟩
  · rw [if_neg heq]

/-- **A crash leaves the queue complete exactly if it was complete before and everything
    was already published.** -/
theorem scheduled_iff (h : Decided o now runId w w' jobs run candidates p) (hinv : w.queue.Inv)
    (hfresh : w.Fresh o) (published : Nat) :
    (w'.crashed jobs published).Scheduled ↔ w.Scheduled ∧ jobs.length ≤ published := by
  have hjobs := h.jobs_eq
  have hunpublished : w.queue.Unpublished jobs := by
    rw [hjobs]
    exact publication_unpublished hfresh h.sound
  have hmem : ∀ row, row ∈ (w.db.store p now).jobs ↔ row ∈ w.db.jobs ∨ row ∈ jobs := by
    intro row
    rw [Db.mem_store_jobs, hjobs, publication, List.mem_map]
    simp only [eq_comm]
  -- a new row is queued, and its run live
  have hnew : ∀ row ∈ jobs, row.status = .queued ∧ (w.db.store p now).Live row.runId := by
    intro row hrow
    rw [hjobs] at hrow
    obtain ⟨job, hjob, rfl⟩ := List.mem_map.mp hrow
    have hrunId : (job.persisted now).stored.runId = runId :=
      ((Job.runId_of_work (job.persisted_work now)).trans (h.sound.new job hjob).runId).trans
        (Table.find_key h.run_row)
    refine ⟨(Job.persisted_new (h.sound.new job hjob) now).1, p.run.stored, ?_,
      h.sound.live (List.ne_nil_of_mem hjob)⟩
    rw [h.run?_committed, if_pos hrunId]
  have hw := h.world_eq
  subst hw
  constructor
  · intro hsched
    constructor
    · intro row hrow hqueued hlive
      exact (h.knows_old hfresh published hrow).mp
        (hsched row ((hmem row).mpr (.inl hrow)) hqueued ((h.live_old hrow hqueued).mpr hlive))
    · by_contra hshort
      have hlt : published < jobs.length := Nat.lt_of_not_le hshort
      -- the first job that was not published
      have hin : jobs[published] ∈ jobs := List.getElem_mem hlt
      have hknows := hsched jobs[published] ((hmem _).mpr (.inr hin)) (hnew _ hin).1 (hnew _ hin).2
      have hother : ∀ job ∈ jobs.take published, job.id ≠ jobs[published].id := by
        have hnodup := hunpublished.nodup
        rw [← List.take_append_drop published jobs, List.map_append, List.nodup_append] at hnodup
        intro job hjob
        refine hnodup.2.2 _ (List.mem_map_of_mem hjob) _ ?_
        rw [List.drop_eq_getElem_cons hlt]
        exact List.mem_map_of_mem List.mem_cons_self
      rw [show ((committed w p now).crashed jobs published).queue =
        w.queue.publish (jobs.take published) from rfl,
        JobQueue.Knows.of_slot (JobQueue.publish_slot_other hother)] at hknows
      exact JobQueue.not_knows_of_absent hinv (hunpublished.absent _ hin) hknows
  · rintro ⟨hsched, hall⟩ row hrow hqueued hlive
    have htake : jobs.take published = jobs := List.take_of_length_le hall
    rcases (hmem row).mp hrow with hold | hin
    · exact (h.knows_old hfresh published hold).mpr
        (hsched row hold hqueued ((h.live_old hold hqueued).mp hlive))
    · show (w.queue.publish (jobs.take published)).Knows row.id
      rw [htake]
      exact JobQueue.knows_of_published hinv hunpublished hin

end Decided

/-! ### Recovery -/

/-- The same for any transaction that persists jobs. -/
theorem crashed_scheduled_iff (h : Commits o ws now runId w w' jobs) (hinv : w.queue.Inv)
    (hfresh : w.Fresh o) (published : Nat) :
    (w'.crashed jobs published).Scheduled ↔ w.Scheduled ∧ jobs.length ≤ published := by
  rcases commits_cases h with ⟨rfl, rfl⟩ | ⟨run, candidates, p, hd⟩
  · have hsame : w'.crashed [] published = w' := by simp [World.crashed, JobQueue.publish]
    rw [hsame]
    simp
  · exact hd.scheduled_iff hinv hfresh published

/-- A crashed world is as consistent as any other. -/
theorem crashed_keeps (h : Commits o ws now runId w w' jobs) (hinv : w.queue.Inv)
    (hfresh : w.Fresh o) (published : Nat) :
    (w'.crashed jobs published).queue.Inv ∧ (w'.crashed jobs published).Fresh o := by
  rcases commits_cases h with ⟨rfl, rfl⟩ | ⟨run, candidates, p, hd⟩
  · have hsame : w'.crashed [] published = w' := by simp [World.crashed, JobQueue.publish]
    rw [hsame]
    exact ⟨hinv, hfresh⟩
  · have hjobs := hd.jobs_eq
    have hw := hd.world_eq
    subst hjobs hw
    exact ⟨JobQueue.publish_inv hinv ((publication_unpublished hfresh hd.sound).take published),
      committed_fresh hfresh hd.sound fun _ hjob => List.mem_of_mem_take hjob⟩

/-- One `_advance` schedules its own jobs and repairs nothing. -/
theorem advance_scheduled_iff (ws : Workspaces) (now : Instant) (runId : RunId) (hinv : w.queue.Inv)
    (hfresh : w.Fresh o) : (o.advance ws now runId w).self.Scheduled ↔ w.Scheduled := by
  unfold advance
  cases hcommit : o.advanceCommit ws now runId w with
  | error e => rfl
  | ok found =>
    obtain ⟨w', jobs⟩ := found
    have hiff := crashed_scheduled_iff (.advance hcommit) hinv hfresh jobs.length
    rw [World.crashed, List.take_length] at hiff
    exact hiff.trans (and_iff_left (Nat.le_refl _))

/-- So does a whole sweep, wherever it stops. -/
theorem advanceEach_scheduled_iff (ws : Workspaces) (now : Instant) (runIds : List RunId)
    (hinv : w.queue.Inv) (hfresh : w.Fresh o) :
    (o.advanceEach ws now runIds w).self.Scheduled ↔ w.Scheduled := by
  induction runIds generalizing w with
  | nil => rfl
  | cons runId rest ih =>
    obtain ⟨hinv', hfresh'⟩ := advance_keeps ws now runId hinv hfresh
    have hfirst := advance_scheduled_iff ws now runId hinv hfresh
    unfold advanceEach
    simp only
    split
    · exact hfirst
    · exact (ih hinv' hfresh').trans hfirst

/-- **Recovery completes the queue exactly if the crash had left it complete**: if every
    queued row of a live run was in the queue before the commit, and the crash came after
    the last publication. -/
theorem resume_scheduled_iff (wsResume : Workspaces) (nowResume : Instant)
    (h : Commits o ws now runId w w' jobs) (hreach : w.queue.Reachable) (hfresh : w.Fresh o)
    (published : Nat) :
    (o.resumeActiveRuns wsResume nowResume (w'.crashed jobs published)).self.Scheduled ↔
      w.Scheduled ∧ jobs.length ≤ published := by
  obtain ⟨hinv, hfresh'⟩ := crashed_keeps h hreach.inv hfresh published
  exact (advanceEach_scheduled_iff wsResume nowResume _ hinv hfresh').trans
    (crashed_scheduled_iff h hreach.inv hfresh published)

end Orchestrator

namespace Sample

/-- A deployment whose run was just created, with its two candidates still to be opened. -/
def createdWorld : World := World.fresh (project {}) (run 2 count_two (by decide))

theorem createdWorld_fresh : createdWorld.Fresh (orchestrator 3 (by decide)) :=
  ⟨fun n _ => by simp [createdWorld, World.fresh, JobQueue.slot_empty],
    fun _ _ => rfl, fun _ _ => rfl⟩

/-- The two code jobs of the first stage, committed. -/
def openedWorld : World × List Job :=
  match (orchestrator 3 count_three).startCommit .calm 5 ⟨2⟩ createdWorld with
  | .ok found => found
  | .error _ => (createdWorld, [])

theorem openedWorld_commits : Commits (orchestrator 3 (by decide)) .calm 5 ⟨2⟩ createdWorld
    openedWorld.1 openedWorld.2 := .start rfl

end Sample

namespace Orchestrator

/-- A crash after both publications loses nothing. -/
theorem resume_scheduled_iff_sample :
    ((Sample.orchestrator 3 (by decide)).resumeActiveRuns .calm 9
      (Sample.openedWorld.1.crashed Sample.openedWorld.2 2)).self.Scheduled :=
  (resume_scheduled_iff .calm 9 Sample.openedWorld_commits .empty Sample.createdWorld_fresh 2).mpr
    ⟨by rintro _ ⟨⟩, by decide⟩

/-- A crash between the two publications: the second job is in no queue after recovery,
    and its run is live. -/
theorem resume_loses_job : ∃ row ∈ ((Sample.orchestrator 3 (by decide)).resumeActiveRuns .calm 9
      (Sample.openedWorld.1.crashed Sample.openedWorld.2 1)).self.db.jobs,
    row.status = .queued ∧
      ((Sample.orchestrator 3 (by decide)).resumeActiveRuns .calm 9
        (Sample.openedWorld.1.crashed Sample.openedWorld.2 1)).self.db.Live row.runId ∧
      ¬ ((Sample.orchestrator 3 (by decide)).resumeActiveRuns .calm 9
        (Sample.openedWorld.1.crashed Sample.openedWorld.2 1)).self.queue.Knows row.id := by
  refine ⟨((Sample.orchestrator 3 (by decide)).codeJob 3 (Sample.run 2 (by decide) (by decide)) ⟨2⟩
    .normal 5 |>.persisted 5).stored, .tail _ (.head _), rfl, ⟨_, rfl, rfl⟩, ?_⟩
  rintro (⟨jobType, score, hscore⟩ | ⟨expiry, hexpiry⟩)
  · cases jobType <;> cases hscore
  · cases hexpiry

end Orchestrator

end AgenticPlatform
