import AgenticPlatform.AdvanceOutcomes
import AgenticPlatform.JobQueueRecovery

/-!
# What `_advance` does to the tables and the queue

A committed decision overwrites one run, its candidates, and appends jobs with fresh
identifiers; its publication fills the slots of exactly those jobs. Everything else,
and every job that was there before, stays.
-/

namespace AgenticPlatform

/-! ### Publishing -/

namespace JobQueue

variable {q : JobQueue} {jobs : List Job}

theorem publish_cons (q : JobQueue) (job : Job) (rest : List Job) :
    q.publish (job :: rest) = (q.enqueue job).publish rest := rfl

/-- Publication touches the slots of the published jobs only. -/
theorem publish_slot_other {id : JobId} (h : ∀ job ∈ jobs, job.id ≠ id) :
    (q.publish jobs).slot id = q.slot id := by
  induction jobs generalizing q with
  | nil => rfl
  | cons job rest ih =>
    rw [publish_cons, ih fun other hother => h other (List.mem_cons_of_mem _ hother),
      slot_enqueue, if_neg (h job List.mem_cons_self).symm]

/-- Jobs the queue does not know yet. -/
structure Unpublished (q : JobQueue) (jobs : List Job) : Prop where
  nodup : (jobs.map Job.id).Nodup
  lease : ∀ job ∈ jobs, job.lease = none
  absent : ∀ job ∈ jobs, (q.slot job.id).job = none

theorem Unpublished.tail {job : Job} (h : q.Unpublished (job :: jobs)) :
    (q.enqueue job).Unpublished jobs := by
  obtain ⟨hfirst, hrest⟩ := List.nodup_cons.mp h.nodup
  refine ⟨hrest, fun other hother => h.lease other (List.mem_cons_of_mem _ hother), ?_⟩
  intro other hother
  have hne : other.id ≠ job.id := fun heq => hfirst (heq ▸ List.mem_map_of_mem hother)
  rw [slot_enqueue, if_neg hne]
  exact h.absent other (List.mem_cons_of_mem _ hother)

theorem Unpublished.publishable {job : Job} (h : q.Unpublished (job :: jobs)) :
    (q.slot job.id).Publishable job := by
  refine ⟨h.lease job List.mem_cons_self, fun stored hstored => ?_⟩
  rw [h.absent job List.mem_cons_self] at hstored
  cases hstored

theorem publish_inv (hinv : q.Inv) (h : q.Unpublished jobs) : (q.publish jobs).Inv := by
  induction jobs generalizing q with
  | nil => exact hinv
  | cons job rest ih => exact ih (enqueue_inv hinv h.publishable) h.tail

/-- A published job sits in its slot, queued. -/
theorem publish_slot_mem (h : q.Unpublished jobs) {job : Job} (hjob : job ∈ jobs) :
    ((q.publish jobs).slot job.id).job = some { job.rebuild with status := .queued } := by
  induction jobs generalizing q with
  | nil => cases hjob
  | cons first rest ih =>
    rcases List.mem_cons.mp hjob with rfl | hmem
    · have hothers : ∀ other ∈ rest, other.id ≠ job.id := fun other hother heq =>
        (List.nodup_cons.mp h.nodup).1 (heq ▸ List.mem_map_of_mem hother)
      have habsent := h.absent job List.mem_cons_self
      rw [publish_cons, publish_slot_other hothers, slot_enqueue, if_pos rfl]
      simp [Slot.enqueue, Slot.refuses, habsent]
    · exact ih h.tail hmem

end JobQueue

/-! ### Storing -/

theorem Job.persisted_new {o : Orchestrator} {run : Run} {job : Job}
    (h : Orchestrator.NewJob o run job) (now : Instant) :
    (job.persisted now).status = .queued ∧ (job.persisted now).lease = none ∧
      (job.persisted now).attempt = 0 := by
  simp [Job.persisted, Job.enqueue, h.status, Job.record, h.attempt]

theorem Job.persisted_work (job : Job) (now : Instant) :
    (job.persisted now).work = job.work := Job.enqueue_work job now

theorem Job.persisted_id (job : Job) (now : Instant) : (job.persisted now).id = job.id :=
  Job.id_of_work (job.persisted_work now)

namespace Db

variable {db : Db} {p : Progress} {now : Instant}

/-- A stored job is still there after a decision was stored. -/
theorem job?_store {id : JobId} {row : Job} (h : db.job? id = some row) :
    (db.store p now).job? id = some row := by
  show Table.find Job.id (db.jobs ++ _) id = some row
  rw [Table.find_append]
  have hfind : Table.find Job.id db.jobs id = some row := h
  rw [hfind]
  rfl

theorem run?_store {run : Run} (h : db.run? p.run.id = some run) (id : RunId) :
    (db.store p now).run? id = if id = p.run.id then some p.run.stored else db.run? id := by
  have hfind : Table.find Run.id db.runs p.run.stored.id = some run := h
  exact Table.find_put hfind id

theorem mem_store_jobs {job : Job} :
    job ∈ (db.store p now).jobs ↔
      job ∈ db.jobs ∨ ∃ new ∈ p.followUps, job = (new.persisted now).stored := by
  simp only [store, List.mem_append, List.map_map, List.mem_map, Function.comp]
  constructor
  · rintro (h | ⟨new, hnew, rfl⟩)
    · exact .inl h
    · exact .inr ⟨new, hnew, rfl⟩
  · rintro (h | ⟨new, hnew, rfl⟩)
    · exact .inl h
    · exact .inr ⟨new, hnew, rfl⟩

end Db

namespace Orchestrator

variable {o : Orchestrator} {ws : Workspaces} {now : Instant} {runId : RunId} {w w' : World}
  {jobs : List Job}

/-- A run that `_advance` looks at. -/
structure Advancing (w : World) (runId : RunId) (run : Run) (project : Project) : Prop where
  run_row : w.db.run? runId = some run
  live : run.isTerminal = false
  not_cancelling : run.isCancelling = false
  project_row : w.db.project? run.projectId = some project
  finished : hasUnfinished (w.db.jobsOf runId) = false

/-- The jobs of a decision as they are stored and published. -/
def publication (p : Progress) (now : Instant) : List Job :=
  p.followUps.map fun job => (job.persisted now).stored

/-- The world once a decision committed, before its jobs are published. -/
def committed (w : World) (p : Progress) (now : Instant) : World :=
  { w with db := w.db.store p now, issued := p.issued }

/-- `_advance` returns without a decision, or stores one. -/
theorem advanceCommit_ok (h : o.advanceCommit ws now runId w = .ok (w', jobs)) :
    (w' = w ∧ jobs = []) ∨
    ∃ run project p, Advancing w runId run project ∧
      o.nextStep ws now w.issued run project (w.db.candidatesOf runId) = .ok p ∧
      w' = committed w p now ∧ jobs = publication p now := by
  unfold advanceCommit at h
  split at h
  · cases h
    exact .inl ⟨rfl, rfl⟩
  · rename_i run hrun
    split at h
    · cases h
      exact .inl ⟨rfl, rfl⟩
    · rename_i hstop
      obtain ⟨project, hproject, h⟩ := bind_eq_ok.mp h
      split at h
      · cases h
        exact .inl ⟨rfl, rfl⟩
      · rename_i hunfinished
        obtain ⟨p, hp, h⟩ := bind_eq_ok.mp h
        simp only [pure_eq_ok, Except.ok.injEq, Prod.mk.injEq] at h
        obtain ⟨rfl, rfl⟩ := h
        have hproj : w.db.project? run.projectId = some project := by
          unfold Db.requireProject at hproject
          split at hproject
          · cases hproject
          · rename_i found hfound
            cases hproject
            exact hfound
        refine .inr ⟨run, project, p, ⟨hrun, ?_, ?_, hproj, by simpa using hunfinished⟩, hp,
          rfl, rfl⟩
        · cases ht : run.isTerminal
          · rfl
          · exact absurd (.inl ht) hstop
        · cases hc : run.isCancelling
          · rfl
          · exact absurd (.inr hc) hstop

/-- What `_advance` did to the world. -/
theorem advance_cases (o : Orchestrator) (ws : Workspaces) (now : Instant) (runId : RunId)
    (w : World) :
    (o.advance ws now runId w).self = w ∨
    ∃ run project p, Advancing w runId run project ∧
      o.nextStep ws now w.issued run project (w.db.candidatesOf runId) = .ok p ∧
      (o.advance ws now runId w).result = .ok () ∧
      (o.advance ws now runId w).self =
        { committed w p now with queue := w.queue.publish (publication p now) } := by
  unfold advance
  cases h : o.advanceCommit ws now runId w with
  | error e => exact .inl rfl
  | ok found =>
    obtain ⟨w', jobs⟩ := found
    rcases advanceCommit_ok h with ⟨rfl, rfl⟩ | ⟨run, project, p, hadv, hp, rfl, rfl⟩
    · exact .inl rfl
    · exact .inr ⟨run, project, p, hadv, hp, rfl, rfl⟩

/-- `_advance` adds jobs and changes none. -/
theorem advance_job? (ws : Workspaces) (now : Instant) (runId : RunId) {id : JobId} {row : Job}
    (h : w.db.job? id = some row) : (o.advance ws now runId w).self.db.job? id = some row := by
  rcases advance_cases o ws now runId w with hself | ⟨run, project, p, -, -, -, hself⟩
  · rw [hself]
    exact h
  · rw [hself]
    exact Db.job?_store h

end Orchestrator

/-! ### Fresh identifiers -/

/-- No identifier that is still to be drawn is in use. -/
structure World.Fresh (o : Orchestrator) (w : World) : Prop where
  queue : ∀ n, w.issued ≤ n → (w.queue.slot ⟨o.ids.draw n⟩).job = none
  jobs : ∀ n, w.issued ≤ n → w.db.job? ⟨o.ids.draw n⟩ = none
  candidates : ∀ n, w.issued ≤ n → w.db.candidate? ⟨o.ids.draw n⟩ = none

namespace Orchestrator

variable {o : Orchestrator} {ws : Workspaces} {now : Instant} {runId : RunId} {w : World}
  {run : Run} {project : Project} {p : Progress}

theorem publication_ids (p : Progress) (now : Instant) :
    (publication p now).map Job.id = p.followUps.map Job.id := by
  unfold publication
  rw [List.map_map]
  exact List.map_congr_left fun job _ => job.persisted_id now

/-- The follow-ups of a decision are unknown to the queue. -/
theorem publication_unpublished (hfresh : w.Fresh o) {candidates : List Candidate}
    (hs : Sound o w.issued run candidates p) :
    w.queue.Unpublished (publication p now) := by
  refine ⟨?_, ?_, ?_⟩
  · rw [publication_ids]
    exact hs.drawn.nodup
  · intro job hjob
    obtain ⟨new, hnew, rfl⟩ := List.mem_map.mp hjob
    exact (Job.persisted_new (hs.new new hnew) now).2.1
  · intro job hjob
    have hid : job.id ∈ p.followUps.map Job.id := by
      rw [← publication_ids p now]
      exact List.mem_map_of_mem hjob
    obtain ⟨n, hle, -, hid⟩ := hs.drawn.of_mem hid
    rw [hid]
    exact hfresh.queue n hle

/-- A job that was there before a decision is none of its follow-ups. -/
theorem publication_other (hfresh : w.Fresh o) {candidates : List Candidate}
    (hs : Sound o w.issued run candidates p) {id : JobId} {row : Job}
    (hrow : w.db.job? id = some row) : ∀ job ∈ publication p now, job.id ≠ id := by
  intro job hjob heq
  have hid : job.id ∈ p.followUps.map Job.id := by
    rw [← publication_ids p now]
    exact List.mem_map_of_mem hjob
  obtain ⟨n, hle, -, hid⟩ := hs.drawn.of_mem hid
  rw [← heq, hid, hfresh.jobs n hle] at hrow
  cases hrow

theorem find_none_of_drawn {kind : IdKind} {R : Type} {key : R → EntityId kind} {rows : List R}
    {first last n : Nat} (h : Drawn o first last (rows.map key)) (hn : last ≤ n) :
    Table.find key rows ⟨o.ids.draw n⟩ = none := by
  rw [Table.find_eq_none]
  intro row hrow heq
  obtain ⟨m, -, hm, hid⟩ := h.of_mem (List.mem_map_of_mem (f := key) hrow)
  rw [heq] at hid
  have := o.ids.draw_injective n m (congrArg EntityId.value hid)
  omega

/-- Freshness survives a decision, however many of its jobs were published. -/
theorem committed_fresh (hfresh : w.Fresh o) {candidates : List Candidate}
    (hs : Sound o w.issued run candidates p) {jobs : List Job}
    (hjobs : ∀ job ∈ jobs, job ∈ publication p now) :
    World.Fresh o { committed w p now with queue := w.queue.publish jobs } := by
  refine ⟨fun n hn => ?_, fun n hn => ?_, fun n hn => ?_⟩
  · have hold : w.issued ≤ n := Nat.le_trans hs.grows hn
    show ((w.queue.publish jobs).slot _).job = none
    rw [JobQueue.publish_slot_other]
    · exact hfresh.queue n hold
    · intro job hjob heq
      have hid : job.id ∈ p.followUps.map Job.id := by
        rw [← publication_ids p now]
        exact List.mem_map_of_mem (hjobs job hjob)
      obtain ⟨m, -, hm, hid⟩ := hs.drawn.of_mem hid
      rw [heq] at hid
      have := o.ids.draw_injective n m (congrArg EntityId.value hid)
      have hn' : p.issued ≤ n := hn
      omega
  · have hnone : Table.find Job.id w.db.jobs ⟨o.ids.draw n⟩ = none :=
      hfresh.jobs n (Nat.le_trans hs.grows hn)
    show Table.find Job.id (w.db.jobs ++ _) _ = none
    rw [Table.find_append, hnone, Option.none_or]
    have hids : ((p.followUps.map fun job => job.persisted now).map Job.stored).map Job.id =
        p.followUps.map Job.id := by
      rw [List.map_map, List.map_map]
      exact List.map_congr_left fun job _ => job.persisted_id now
    have hdrawn : Drawn o w.issued p.issued
        (((p.followUps.map fun job => job.persisted now).map Job.stored).map Job.id) := by
      rw [hids]
      exact hs.drawn
    exact find_none_of_drawn hdrawn hn
  · have hnone : Table.find Candidate.id w.db.candidates ⟨o.ids.draw n⟩ = none :=
      hfresh.candidates n (Nat.le_trans hs.grows hn)
    show Table.find Candidate.id (Table.putAll _ _ _ ++ _) _ = none
    rw [Table.find_append, Table.find_putAll, hnone, Option.map_none, Option.none_or]
    have hdrawn : Drawn o w.issued p.issued ((p.opened.map Candidate.stored).map Candidate.id) := by
      rw [List.map_map]
      exact hs.opened_drawn
    exact find_none_of_drawn hdrawn hn

/-- **`_advance` keeps the queue consistent and identifiers fresh.** -/
theorem advance_keeps (ws : Workspaces) (now : Instant) (runId : RunId) (hinv : w.queue.Inv)
    (hfresh : w.Fresh o) :
    (o.advance ws now runId w).self.queue.Inv ∧ (o.advance ws now runId w).self.Fresh o := by
  rcases advance_cases o ws now runId w with hself | ⟨run, project, p, hadv, hp, -, hself⟩
  · rw [hself]
    exact ⟨hinv, hfresh⟩
  · have hs := nextStep_sound hadv.live hp
    rw [hself]
    exact ⟨JobQueue.publish_inv hinv (publication_unpublished hfresh hs),
      committed_fresh hfresh hs fun _ hjob => hjob⟩

end Orchestrator

end AgenticPlatform
