import AgenticPlatform.RunFlow
import AgenticPlatform.WorkflowDecisions

/-!
# The life of a run refines the workflow

What the tables show of a run moves along the steps of the workflow, as long as no
execution fails on the last attempt of its job while the retry policy asks for another.
The invariant on the way says that queue, holders and tables speak of the same jobs:
whatever the queue offers or a holder executes is a row that is still open.
-/

namespace AgenticPlatform

/-- The job stands for a row that is still queued. -/
def Db.Queued (db : Db) (job : Job) : Prop :=
  ∃ row, db.job? job.id = some row ∧ row.status = .queued ∧ row.work = job.work

/-- A claimed job: the queue knows the lease, and the row waits for the result. -/
structure World.Executes (w : World) (job : Job) (lease : Lease) : Prop where
  record : ∃ record granted, (w.queue.slot job.id).job = some record ∧
    record.lease = some granted ∧ granted.token = lease.token ∧ record.work = job.work
  in_flight : job.status.isInFlight = true
  row : w.db.Queued job

namespace RunFlow

/-- Tables, queue and holders agree about the one run there is. -/
structure Wired (o : Orchestrator) (project : Project) (runId : RunId) (flow : RunFlow) : Prop where
  queue_inv : flow.world.queue.Inv
  fresh : flow.world.Fresh o
  project_row : flow.world.db.project? project.id = some project
  run_row : ∃ run, flow.world.db.run? runId = some run ∧ run.projectId = project.id
  job_ids : (flow.world.db.jobs.map Job.id).Nodup
  candidate_ids : (flow.world.db.candidates.map Candidate.id).Nodup
  jobs : ∀ row ∈ flow.world.db.jobs,
    row.runId = runId ∧ (row.status = .queued ∨ row.status.isTerminal = true)
  candidates : ∀ candidate ∈ flow.world.db.candidates, candidate.runId = runId
  queued : ∀ id record, (flow.world.queue.slot id).job = some record → record.status = .queued →
    flow.world.db.Queued record
  held : ∀ entry ∈ flow.held, flow.world.Executes entry.1 entry.2
  held_ids : (flow.held.map fun entry => entry.1.id).Nodup

variable {o : Orchestrator} {project : Project} {runId : RunId} {flow : RunFlow} {run : Run}
  {ws : Workspaces} {now : Instant} {candidates : List Candidate} {p : Progress}

theorem submitted_wired (o : Orchestrator) (hnew : New project run) :
    Wired o project run.id (submitted project run) where
  queue_inv := JobQueue.inv_empty
  fresh := ⟨fun _ _ => by rw [submitted, World.fresh, JobQueue.slot_empty], fun _ _ => rfl, fun _ _ => rfl⟩
  project_row := by simp [submitted, World.fresh, Db.project?, Table.find]
  run_row := ⟨run, by simp [submitted, World.fresh, Db.run?, Table.find], hnew.projectId⟩
  job_ids := List.nodup_nil
  candidate_ids := List.nodup_nil
  jobs row hrow := by cases hrow
  candidates candidate hmem := by cases hmem
  queued id record hrecord := by
    rw [submitted, World.fresh, JobQueue.slot_empty] at hrecord
    cases hrecord
  held entry hentry := by cases hentry
  held_ids := List.nodup_nil

/-- The candidates of the run are all there are. -/
theorem Wired.candidatesOf_perm (h : Wired o project runId flow) :
    (flow.world.db.candidatesOf runId).Perm flow.world.db.candidates := by
  unfold Db.candidatesOf
  rw [List.filter_eq_self.mpr fun candidate hmem => by simpa using h.candidates candidate hmem]
  exact List.perm_insertionSort _ _

/-- The jobs of the run are all there are. -/
theorem Wired.hasUnfinished_iff (h : Wired o project runId flow) (run : Run) :
    hasUnfinished (flow.world.db.jobsOf runId) = false ↔ Workflow.Settled (flow.shown run) := by
  have hjobs : flow.world.db.jobsOf runId = flow.world.db.jobs := by
    unfold Db.jobsOf
    rw [List.filter_eq_self.mpr fun row hrow => by simpa using (h.jobs row hrow).1]
  simp only [hasUnfinished, hjobs, Workflow.Settled, shown, List.any_eq_false, List.mem_map,
    Workflow.Ticket.of, forall_exists_index, and_imp, forall_apply_eq_imp_iff₂,
    Bool.not_eq_true]

/-! ### A decision -/

/-- The flow after a decision was committed and its jobs published. -/
def advanced (flow : RunFlow) (p : Progress) (now : Instant) : RunFlow :=
  { flow with
    world := { Orchestrator.committed flow.world p now with
      queue := flow.world.queue.publish (Orchestrator.publication p now) } }

theorem shown_advanced (flow : RunFlow) (now : Instant)
    (hnew : ∀ job ∈ p.followUps, Orchestrator.NewJob o run job) :
    (flow.advanced p now).shown p.run.stored = (flow.shown run).decided p := by
  have hjobs : ((p.followUps.map fun job => job.persisted now).map Job.stored).map Workflow.Ticket.of =
      p.followUps.map Workflow.Ticket.opened := by
    rw [List.map_map, List.map_map]
    apply List.map_congr_left
    intro job hjob
    have hwork := job.persisted_work now
    have hstatus := (Job.persisted_new (hnew job hjob) now).1
    simp only [Function.comp, Workflow.Ticket.of, Workflow.Ticket.opened, Job.stored, hstatus,
      Job.id_of_work hwork, Job.type_of_work hwork, Job.candidateId_of_work hwork]
    rfl
  simp only [shown, advanced, Orchestrator.committed, Db.store, Workflow.State.decided,
    List.map_append, hjobs]

/-- New identifiers go well with the old ones. -/
theorem nodup_append_drawn {kind : IdKind} {ids new : List (EntityId kind)} {first last : Nat}
    (hids : ids.Nodup) (hnew : Orchestrator.Drawn o first last new)
    (hfresh : ∀ n, first ≤ n → ⟨o.ids.draw n⟩ ∉ ids) : (ids ++ new).Nodup := by
  refine List.nodup_append.mpr ⟨hids, hnew.nodup, fun id hid id' hid' heq => ?_⟩
  obtain ⟨n, hle, -, rfl⟩ := hnew.of_mem hid'
  exact hfresh n hle (heq ▸ hid)

theorem not_mem_of_find_none {kind : IdKind} {R : Type} {key : R → EntityId kind} {rows : List R}
    {id : EntityId kind} (h : Table.find key rows id = none) : id ∉ rows.map key := by
  intro hmem
  obtain ⟨row, hrow, hid⟩ := List.mem_map.mp hmem
  exact Table.find_eq_none.mp h row hrow hid

/-- **A committed decision** keeps tables, queue and holders together. -/
theorem Wired.advanced (h : Wired o project runId flow) (now : Instant)
    (hrun : flow.world.db.run? runId = some run) (hlive : run.isTerminal = false)
    (hown : ∀ candidate ∈ candidates, candidate.runId = runId)
    (hp : o.nextStep ws now flow.world.issued run project candidates = .ok p) :
    Wired o project runId (flow.advanced p now) ∧
      (flow.advanced p now).world.db.run? runId = some p.run.stored := by
  have hs := Orchestrator.nextStep_sound hlive hp
  have hid : run.id = runId := Table.find_key hrun
  have hpid : p.run.id = run.id := Run.id_of_charter hs.charter
  have hunpublished : flow.world.queue.Unpublished (Orchestrator.publication p now) :=
    Orchestrator.publication_unpublished h.fresh hs
  have hids := Orchestrator.publication_ids p now
  have hread : flow.world.db.run? p.run.id = some run := by
    rw [hpid, hid]
    exact hrun
  have hrow : (flow.advanced p now).world.db.run? runId = some p.run.stored := by
    show (flow.world.db.store p now).run? runId = _
    rw [Db.run?_store hread, if_pos (by rw [hpid, hid])]
  have hold : ∀ {id row}, flow.world.db.job? id = some row →
      (flow.advanced p now).world.db.job? id = some row ∧
        (flow.advanced p now).world.queue.slot id = flow.world.queue.slot id := by
    intro id row hfind
    exact ⟨Db.job?_store hfind,
      JobQueue.publish_slot_other (Orchestrator.publication_other h.fresh hs hfind)⟩
  have hjob_ids : ((flow.advanced p now).world.db.jobs.map Job.id).Nodup := by
    have hmap : (flow.advanced p now).world.db.jobs.map Job.id =
        flow.world.db.jobs.map Job.id ++ p.followUps.map Job.id := by
      simp only [RunFlow.advanced, Orchestrator.committed, Db.store, List.map_append, List.map_map]
      congr 1
      exact List.map_congr_left fun job _ => job.persisted_id now
    rw [hmap]
    exact nodup_append_drawn h.job_ids hs.drawn fun n hn => not_mem_of_find_none (h.fresh.jobs n hn)
  refine ⟨⟨JobQueue.publish_inv h.queue_inv hunpublished,
    Orchestrator.committed_fresh h.fresh hs fun _ hjob => hjob, h.project_row,
    ⟨_, hrow, ?_⟩, hjob_ids, ?_, ?_, ?_, ?_, ?_, h.held_ids⟩, hrow⟩
  · obtain ⟨found, hfound, hproject⟩ := h.run_row
    rw [hrun, Option.some.injEq] at hfound
    rw [← hproject, ← hfound]
    exact congrArg Run.Charter.projectId hs.charter
  · have hmap : (flow.advanced p now).world.db.candidates.map Candidate.id =
        flow.world.db.candidates.map Candidate.id ++ p.opened.map Candidate.id := by
      simp only [RunFlow.advanced, Orchestrator.committed, Db.store, List.map_append,
        Table.keys_putAll, List.map_map]
      rfl
    rw [hmap]
    exact nodup_append_drawn h.candidate_ids hs.opened_drawn
      fun n hn => not_mem_of_find_none (h.fresh.candidates n hn)
  · intro row hmem
    rcases Db.mem_store_jobs.mp hmem with hmem | ⟨job, hjob, rfl⟩
    · exact h.jobs row hmem
    · refine ⟨?_, .inl (Job.persisted_new (hs.new job hjob) now).1⟩
      exact (Job.runId_of_work (job.persisted_work now)).trans
        ((hs.new job hjob).runId.trans hid)
  · intro candidate hmem
    rcases List.mem_append.mp hmem with hmem | hmem
    · rcases Table.mem_putAll hmem with hmem | hmem
      · exact h.candidates candidate hmem
      · obtain ⟨changed, hchanged, rfl⟩ := List.mem_map.mp hmem
        obtain ⟨old, hold, -, hrunId⟩ := hs.kept changed hchanged
        exact hrunId.trans (hown old hold)
    · obtain ⟨new, hnew, rfl⟩ := List.mem_map.mp hmem
      exact (hs.opened_runId new hnew).trans hid
  · -- a queue record is one of the published jobs, or was there before
    intro id record hrecord hqueued
    by_cases hpub : ∃ job ∈ Orchestrator.publication p now, job.id = id
    · obtain ⟨job, hjob, rfl⟩ := hpub
      have hslot := JobQueue.publish_slot_mem hunpublished hjob
      have hrecord' : ((flow.world.queue.publish (Orchestrator.publication p now)).slot job.id).job =
          some record := hrecord
      rw [hslot, Option.some.injEq] at hrecord'
      subst hrecord'
      obtain ⟨new, hnew, rfl⟩ := List.mem_map.mp hjob
      have hstored : (new.persisted now).stored ∈ (flow.advanced p now).world.db.jobs :=
        Db.mem_store_jobs.mpr (.inr ⟨new, hnew, rfl⟩)
      have hstatus : (new.persisted now).stored.status = .queued :=
        (Job.persisted_new (hs.new new hnew) now).1
      generalize (new.persisted now).stored = row at hstored hstatus ⊢
      exact ⟨row, Table.find_of_mem hjob_ids hstored, hstatus, rfl⟩
    · have hslot : (flow.advanced p now).world.queue.slot id = flow.world.queue.slot id :=
        JobQueue.publish_slot_other fun job hjob heq => hpub ⟨job, hjob, heq⟩
      rw [hslot] at hrecord
      obtain ⟨row, hfind, hrest⟩ := h.queued id record hrecord hqueued
      exact ⟨row, (hold hfind).1, hrest⟩
  · intro entry hentry
    obtain ⟨hrecord, hflight, row, hfind, hrest⟩ := h.held entry hentry
    refine ⟨?_, hflight, row, (hold hfind).1, hrest⟩
    rw [(hold hfind).2]
    exact hrecord

/-- The flow shows the state of the workflow. -/
structure Tracks (o : Orchestrator) (project : Project) (runId : RunId) (flow : RunFlow)
    (s : Workflow.State) : Prop where
  wired : Wired o project runId flow
  row : flow.world.db.run? runId = some s.run
  shows : flow.shown s.run = s

/-- The workflow stands where it stood, or made a step. -/
def Follows (o : Orchestrator) (project : Project) (runId : RunId) (flow : RunFlow)
    (s : Workflow.State) : Prop :=
  ∃ s', Tracks o project runId flow s' ∧ (s' = s ∨ Workflow.Step o project s s')

variable {s : Workflow.State}

theorem Tracks.stays (h : Tracks o project runId flow s) : Follows o project runId flow s :=
  ⟨s, h, .inl rfl⟩

/-- A decision that was committed is a step of the workflow. -/
theorem Tracks.decided (h : Tracks o project runId flow s) (hlive : s.run.isTerminal = false)
    (hsettled : Workflow.Settled s) (hperm : candidates.Perm s.candidates)
    (hp : o.nextStep ws now flow.world.issued s.run project candidates = .ok p) :
    Follows o project runId (flow.advanced p now) s := by
  have hcandidates : s.candidates = flow.world.db.candidates :=
    (congrArg Workflow.State.candidates h.shows).symm
  obtain ⟨hwired, hrow⟩ := h.wired.advanced now h.row hlive
    (fun candidate hmem => h.wired.candidates candidate (hcandidates ▸ hperm.mem_iff.mp hmem)) hp
  have hshown := shown_advanced flow now
    (Orchestrator.nextStep_sound hlive hp).new
  rw [h.shows] at hshown
  refine ⟨s.decided p, ⟨hwired, hrow, hshown⟩, .inr (.decided hlive hsettled hperm hp ?_ ?_)⟩
  · rw [← hshown]
    simp only [shown, List.map_map]
    exact hwired.job_ids
  · rw [← hshown]
    exact hwired.candidate_ids

/-- `_advance` decides, or leaves everything alone. -/
theorem Tracks.advance (h : Tracks o project runId flow s) (ws : Workspaces) (now : Instant) :
    Follows o project runId (flow.step o runId (.advance ws now)) s := by
  rcases Orchestrator.advance_cases o ws now runId flow.world with
    hself | ⟨run, project', p, hadv, hp, -, hself⟩
  · have hstep : flow.step o runId (.advance ws now) = flow := by
      simp only [RunFlow.step, hself]
    rw [hstep]
    exact h.stays
  · have hstep : flow.step o runId (.advance ws now) = flow.advanced p now := by
      simp only [RunFlow.step, hself, advanced]
    obtain rfl : run = s.run := Option.some.inj (hadv.run_row.symm.trans h.row)
    obtain rfl : project' = project := by
      obtain ⟨found, hfound, hproject⟩ := h.wired.run_row
      rw [h.row, Option.some.injEq] at hfound
      have hrow := hadv.project_row
      rw [hfound, hproject, h.wired.project_row, Option.some.injEq] at hrow
      exact hrow.symm
    have hsettled : Workflow.Settled s := by
      rw [← h.shows]
      exact (h.wired.hasUnfinished_iff s.run).mp hadv.finished
    have hcandidates : s.candidates = flow.world.db.candidates :=
      (congrArg Workflow.State.candidates h.shows).symm
    rw [hstep]
    refine h.decided hadv.live hsettled ?_ hp
    rw [hcandidates]
    exact h.wired.candidatesOf_perm

/-- `start` schedules the first jobs of a created run, and does nothing otherwise. -/
theorem start_cases (o : Orchestrator) (ws : Workspaces) (now : Instant) (runId : RunId)
    (w : World) :
    (o.start ws now runId w).self = w ∨
    ∃ run p, w.db.run? runId = some run ∧ run.status = .created ∧
      o.openFirstStage ws now w.issued run [] = .ok p ∧
      (o.start ws now runId w).self =
        { Orchestrator.committed w p now with
          queue := w.queue.publish (Orchestrator.publication p now) } := by
  unfold Orchestrator.start
  cases h : o.startCommit ws now runId w with
  | error e => exact .inl rfl
  | ok found =>
    unfold Orchestrator.startCommit at h
    obtain ⟨run, hrun, h⟩ := bind_eq_ok.mp h
    split at h
    · cases h
      exact .inl rfl
    · rename_i hcreated
      obtain ⟨-, -, h⟩ := bind_eq_ok.mp h
      obtain ⟨p, hp, h⟩ := bind_eq_ok.mp h
      cases h
      exact .inr ⟨run, p, Db.requireRun_ok hrun, not_not.mp hcreated, hp, rfl⟩

/-- `start` is the first decision of the run. -/
theorem Tracks.start (h : Tracks o project runId flow s) (hkept : Workflow.Kept o project s)
    (ws : Workspaces) (now : Instant) :
    Follows o project runId (flow.step o runId (.start ws now)) s := by
  rcases start_cases o ws now runId flow.world with hself | ⟨run, p, hrow, hcreated, hp, hself⟩
  · have hstep : flow.step o runId (.start ws now) = flow := by
      simp only [RunFlow.step, hself]
    rw [hstep]
    exact h.stays
  · have hstep : flow.step o runId (.start ws now) = flow.advanced p now := by
      simp only [RunFlow.step, hself, advanced]
    obtain rfl : run = s.run := Option.some.inj (hrow.symm.trans h.row)
    have hlive : s.run.isTerminal = false := by
      rw [Run.isTerminal, hcreated]
      rfl
    obtain ⟨hcandidates, htickets⟩ : s.candidates = [] ∧ s.tickets = [] := by
      have hphase := (hkept.live hlive).phase
      simpa only [Workflow.Phase, hcreated] using hphase
    rw [hstep]
    refine h.decided hlive ?_ (List.Perm.of_eq hcandidates.symm) (?_ : o.nextStep ws now _ _ _ [] = _)
    · intro t ht
      rw [htickets] at ht
      cases ht
    · unfold Orchestrator.nextStep
      simp only [hcreated]
      exact hp

/-! ### A claim -/

/-- A held job has another record than a queued one. -/
theorem Wired.held_not_queued (h : Wired o project runId flow) {entry : Job × Lease}
    (hentry : entry ∈ flow.held) {id : JobId} {record : Job}
    (hrecord : (flow.world.queue.slot id).job = some record) (hqueued : record.status = .queued) :
    entry.1.id ≠ id := by
  rintro rfl
  obtain ⟨other, granted, hother, hlease, -, -⟩ := (h.held entry hentry).record
  rw [hrecord, Option.some.injEq] at hother
  subst hother
  have hflight := (h.queue_inv.of_lease hrecord hlease).1
  rw [hqueued] at hflight
  cases hflight

/-- A claim moves one record from the queue to the held jobs. -/
theorem Wired.claim (h : Wired o project runId flow) (consumer : WorkerId)
    (jobTypes : List JobType) (duration : Duration) (now : Instant) (token : LeaseToken)
    (hd : 0 < duration) :
    Wired o project runId (flow.step o runId (.claim consumer jobTypes duration now token hd)) := by
  have hinv := JobQueue.claim_inv h.queue_inv consumer jobTypes hd now token
  rcases JobQueue.claim_cases h.queue_inv.coherent consumer jobTypes hd now token with
    ⟨hresult, hself⟩ | ⟨stored, job, lease, hstored, hqueued, -, hresult, -, hwork, hstatus, hlease,
      -, -, -, hslots⟩
  · have hstep : flow.step o runId (.claim consumer jobTypes duration now token hd) = flow := by
      simp only [RunFlow.step, hresult, hself]
    rw [hstep]
    exact h
  · have hstep : flow.step o runId (.claim consumer jobTypes duration now token hd) =
        { flow with
          world := { flow.world with
            queue := (flow.world.queue.claim consumer jobTypes duration now token).self }
          held := flow.held ++ [(job, lease)] } := by
      simp only [RunFlow.step, hresult]
    have hid : job.id = stored.id := Job.id_of_work hwork
    rw [hstep]
    refine ⟨hinv, ⟨fun n hn => ?_, h.fresh.jobs, h.fresh.candidates⟩, h.project_row, h.run_row,
      h.job_ids, h.candidate_ids, h.jobs, h.candidates, ?_, ?_, ?_⟩
    · have hnone := h.fresh.queue n hn
      show ((flow.world.queue.claim consumer jobTypes duration now token).self.slot _).job = none
      rw [hslots]
      split
      · rename_i heq
        rw [heq, hstored] at hnone
        cases hnone
      · exact hnone
    · intro id record hrecord hwaiting
      have hrecord : ((flow.world.queue.claim consumer jobTypes duration now token).self.slot id).job
          = some record := hrecord
      rw [hslots] at hrecord
      split at hrecord
      · cases hrecord
        have hwaiting : job.status = .queued := hwaiting
        rw [hstatus] at hwaiting
        cases hwaiting
      · exact h.queued id record hrecord hwaiting
    · intro entry hentry
      rcases List.mem_append.mp hentry with hold | hnew
      · obtain ⟨hrecord, hflight, hrow⟩ := h.held entry hold
        refine ⟨?_, hflight, hrow⟩
        show ∃ record granted,
          ((flow.world.queue.claim consumer jobTypes duration now token).self.slot entry.1.id).job =
            some record ∧ _
        rw [hslots, if_neg (h.held_not_queued hold hstored hqueued)]
        exact hrecord
      · rw [List.mem_singleton.mp hnew]
        obtain ⟨row, hfind, hrow, hsame⟩ := h.queued stored.id stored hstored hqueued
        refine ⟨⟨job.rebuild, lease, ?_, hlease, rfl, rfl⟩, by rw [hstatus]; rfl, row, ?_, hrow,
          hsame.trans hwork.symm⟩
        · show ((flow.world.queue.claim consumer jobTypes duration now token).self.slot job.id).job = _
          rw [hslots, if_pos hid]
          rfl
        · rw [hid]
          exact hfind
    · rw [List.map_append]
      refine List.nodup_append.mpr ⟨h.held_ids, List.nodup_singleton _, ?_⟩
      intro id hid' other hother heq
      obtain ⟨entry, hentry, rfl⟩ := List.mem_map.mp hid'
      apply h.held_not_queued hentry hstored hqueued
      rw [heq, List.mem_singleton.mp hother]
      exact hid

/-! ### An execution -/

/-- What an execution may change: the row of its job, its slot in the queue, the run and
    one candidate. -/
structure Executed (project : Project) (runId : RunId) (job : Job) (w w' : World) (row : Job) :
    Prop where
  queue_inv : w'.queue.Inv
  slots : ∀ id, id ≠ job.id → w'.queue.slot id = w.queue.slot id
  record : ∀ record, (w'.queue.slot job.id).job = some record → record.status = .queued →
    row.status = .queued ∧ record.work = row.work
  jobs : w'.db.jobs = Table.put Job.id w.db.jobs row
  work : row.work = job.work
  status : row.status = .queued ∨ row.status.isTerminal = true
  candidate_ids : w'.db.candidates.map Candidate.id = w.db.candidates.map Candidate.id
  candidates : ∀ candidate ∈ w'.db.candidates, candidate.runId = runId
  projects : w'.db.projects = w.db.projects
  run_row : ∃ run, w'.db.run? runId = some run ∧ run.projectId = project.id
  grows : w.issued ≤ w'.issued

/-- The held jobs that are left when one of them is executed. -/
theorem Wired.others (h : Wired o project runId flow) {n : Nat} {job : Job} {lease : Lease}
    (hheld : flow.held[n]? = some (job, lease)) {entry : Job × Lease}
    (hentry : entry ∈ flow.held.eraseIdx n) : entry ∈ flow.held ∧ entry.1.id ≠ job.id := by
  obtain ⟨m, hm, hne⟩ := List.mem_eraseIdx_iff_getElem?.mp hentry
  refine ⟨List.mem_of_getElem? hne, fun hid => hm ?_⟩
  have hlt : m < (flow.held.map fun entry => entry.1.id).length := by
    rw [List.length_map]
    exact (List.getElem?_eq_some_iff.mp hne).1
  apply (List.getElem?_inj hlt h.held_ids).mp
  rw [List.getElem?_map, List.getElem?_map, hne, hheld, Option.map_some, Option.map_some, hid]

/-- **An execution** keeps tables, queue and holders together. -/
theorem Wired.executed (h : Wired o project runId flow) {n : Nat} {job row : Job} {lease : Lease}
    (hheld : flow.held[n]? = some (job, lease)) {w : World}
    (he : Executed project runId job flow.world w row) (facts : List Workflow.Fact) :
    Wired o project runId ⟨w, flow.held.eraseIdx n, facts⟩ := by
  obtain ⟨-, -, old, hold, -, hsame⟩ := h.held _ (List.mem_of_getElem? hheld)
  have hid : row.id = job.id := Job.id_of_work he.work
  have hread : ∀ id, w.db.job? id = if id = job.id then some row else flow.world.db.job? id := by
    intro id
    have hold' : Table.find Job.id flow.world.db.jobs row.id = some old := by
      rw [hid]
      exact hold
    rw [← hid]
    unfold Db.job?
    rw [he.jobs]
    exact Table.find_put hold' id
  have hother : ∀ {other : Job}, other.id ≠ job.id → flow.world.db.Queued other →
      w.db.Queued other := by
    rintro other hne ⟨found, hfound, hrest⟩
    refine ⟨found, ?_, hrest⟩
    rw [hread, if_neg hne]
    exact hfound
  have hjob_ids : w.db.jobs.map Job.id = flow.world.db.jobs.map Job.id := by
    rw [he.jobs, Table.keys_put]
  refine ⟨he.queue_inv, ⟨fun n hn => ?_, fun n hn => ?_, fun n hn => ?_⟩, ?_, he.run_row, ?_, ?_, ?_,
    he.candidates, ?_, ?_, ?_⟩
  · have hnone := h.fresh.jobs n (Nat.le_trans he.grows hn)
    have hne : (⟨o.ids.draw n⟩ : JobId) ≠ job.id := by
      intro heq
      rw [heq, hold] at hnone
      cases hnone
    show (w.queue.slot _).job = none
    rw [he.slots _ hne]
    exact h.fresh.queue n (Nat.le_trans he.grows hn)
  · have hnone := h.fresh.jobs n (Nat.le_trans he.grows hn)
    show w.db.job? _ = none
    rw [hread, if_neg]
    · exact hnone
    · intro heq
      rw [heq, hold] at hnone
      cases hnone
  · have hnone := not_mem_of_find_none (h.fresh.candidates n (Nat.le_trans he.grows hn))
    apply Table.find_eq_none.mpr
    intro candidate hmem heq
    apply hnone
    rw [← he.candidate_ids, ← heq]
    exact List.mem_map_of_mem hmem
  · show Table.find Project.id w.db.projects project.id = some project
    rw [he.projects]
    exact h.project_row
  · rw [hjob_ids]
    exact h.job_ids
  · rw [he.candidate_ids]
    exact h.candidate_ids
  · intro found hfound
    rw [he.jobs] at hfound
    rcases Table.mem_put.mp hfound with ⟨rfl, -⟩ | ⟨hmem, -⟩
    · refine ⟨?_, he.status⟩
      rw [Job.runId_of_work (he.work.trans hsame.symm)]
      exact (h.jobs old (Table.mem_of_find hold)).1
    · exact h.jobs found hmem
  · intro id record hrecord hqueued
    have hkeyed : record.id = id := (he.queue_inv id).keyed record hrecord
    by_cases heq : id = job.id
    · subst heq
      obtain ⟨hstatus, hwork⟩ := he.record record hrecord hqueued
      refine ⟨row, ?_, hstatus, hwork.symm⟩
      rw [hkeyed, hread, if_pos rfl]
    · have hslot : (w.queue.slot id).job = some record := hrecord
      rw [he.slots id heq] at hslot
      exact hother (by rw [hkeyed]; exact heq) (h.queued id record hslot hqueued)
  · intro entry hentry
    obtain ⟨hmem, hne⟩ := h.others hheld hentry
    obtain ⟨hrecord, hflight, hrow⟩ := h.held entry hmem
    refine ⟨?_, hflight, hother hne hrow⟩
    show ∃ record granted, (w.queue.slot entry.1.id).job = some record ∧ _
    rw [he.slots _ hne]
    exact hrecord
  · exact h.held_ids.sublist ((List.eraseIdx_sublist _ _).map _)

/-! ### A failed execution -/

section Failures

variable {n : Nat} {job : Job} {lease : Lease} {e : PyError}

/-- Candidates that were not written still belong to the run. -/
theorem Wired.candidates_kept (h : Wired o project runId flow) {db : Db}
    (hsame : db.candidates = flow.world.db.candidates) :
    ∀ candidate ∈ db.candidates, candidate.runId = runId := by
  rw [hsame]
  exact h.candidates

/-- The report of a failure that is retried queues the row and the record again. -/
theorem Wired.retried (h : Wired o project runId flow) (now : Instant)
    (hheld : flow.held[n]? = some (job, lease))
    (hrun : flow.world.db.run? runId = some run)
    (hretry : (o.retry.decide (classify e) job.attempt).shouldRetryJob = true)
    (hleft : job.attempt < job.maxAttempts) :
    ∃ row, Executed project runId job flow.world (o.reportFailure now job lease e flow.world) row ∧
      row.status = .queued ∧
      (o.reportFailure now job lease e flow.world).db.run? runId = some run ∧
      (o.reportFailure now job lease e flow.world).db.candidates = flow.world.db.candidates := by
  obtain ⟨⟨record, granted, hrecord, hgranted, htoken, hsame⟩, hflight, old, hold, -, holdwork⟩ :=
    h.held _ (List.mem_of_getElem? hheld)
  have hrunId : job.runId = runId :=
    (Job.runId_of_work holdwork).symm.trans (h.jobs old (Table.mem_of_find hold)).1
  have hjobrun : flow.world.db.run? job.runId = some run := by rw [hrunId]; exact hrun
  obtain ⟨db, run', hdb, hrecorded⟩ := Orchestrator.recordFailure_spec hold hjobrun now e true
  obtain rfl : run' = run := hrecorded.retried rfl
  obtain ⟨hreleased, hslot, hothers⟩ := JobQueue.release_held h.queue_inv hrecord hgranted htoken true
  have hinv := JobQueue.release_inv h.queue_inv job.id lease.token true
  have hlive := Orchestrator.not_terminal_of_inFlight hflight
  have hfailwork := Job.fail_work job none now (classify e) e.str (some true)
  have hremaining : 0 < job.attemptsRemaining := Nat.sub_pos_of_lt hleft
  have hfailed := Job.fail_status hlive now (classify e) e.str true
  rw [if_pos ⟨rfl, hremaining⟩] at hfailed
  -- the failed row has an attempt left, so it goes back to the queue
  have hattempts :
      0 < (job.fail none now (classify e) e.str (some true)).self.stored.attemptsRemaining := by
    have hattempt := Job.fail_attempt job none now (classify e) e.str (some true)
    have hmax := Job.maxAttempts_of_work hfailwork
    simp only [Job.attemptsRemaining, Job.stored]
    omega
  have hrequeue := (Job.requeue_result
    (job.fail none now (classify e) e.str (some true)).self.stored now
    (o.retry.decide (classify e) job.attempt).reason).mpr ⟨hfailed, hattempts⟩
  obtain ⟨hqueued, hnolease⟩ := Job.requeue_self now _ hrequeue
  have hwork := (Job.requeue_work (job.fail none now (classify e) e.str (some true)).self.stored now
    (o.retry.decide (classify e) job.attempt).reason).trans hfailwork
  generalize hback : ((job.fail none now (classify e) e.str (some true)).self.stored.requeue now
    (o.retry.decide (classify e) job.attempt).reason).self = back at hqueued hnolease hwork
  have hid : back.id = job.id := Job.id_of_work hwork
  have hreport : o.reportFailure now job lease e flow.world =
      { flow.world with
        db := (db.setJob back).append back.events
        queue := (flow.world.queue.release job.id lease.token true).self.enqueue back.stored } := by
    simp only [Orchestrator.reportFailure, hretry, hdb, hreleased, if_true,
      Orchestrator.requeueFailed, hrecorded.row hold, hrequeue, hback, Call.self_returned]
  rw [hreport]
  have hpub : ((flow.world.queue.release job.id lease.token true).self.slot
      back.stored.id).Publishable back.stored := by
    refine ⟨hnolease, fun other hother => ?_⟩
    rw [show back.stored.id = job.id from hid, hslot, Option.some.injEq] at hother
    subst hother
    exact ⟨(Job.type_of_work (hwork.trans hsame.symm)).symm,
      (Job.runId_of_work (hwork.trans hsame.symm)).symm⟩
  refine ⟨back.stored, ⟨JobQueue.enqueue_inv hinv hpub, fun id hne => ?_, fun found hfound _ => ?_,
    ?_, hwork, .inl hqueued, ?_, ?_, hrecorded.projects, ?_, Nat.le_refl _⟩, hqueued, ?_,
    hrecorded.candidates⟩
  · show ((flow.world.queue.release job.id lease.token true).self.enqueue back.stored).slot id = _
    rw [JobQueue.slot_enqueue, if_neg (by rw [show back.stored.id = job.id from hid]; exact hne),
      hothers id hne]
  · refine ⟨hqueued, ?_⟩
    have hrefuses : ((flow.world.queue.release job.id lease.token true).self.slot job.id).refuses =
        false := by
      have hfree := (hinv job.id).not_acknowledged hslot rfl
      simp [Slot.refuses, hslot, hfree, Slot.released, JobStatus.isInFlight]
    have hfound : (((flow.world.queue.release job.id lease.token true).self.enqueue
        back.stored).slot job.id).job = some found := hfound
    rw [JobQueue.slot_enqueue, if_pos (show job.id = back.stored.id from hid.symm)] at hfound
    simp only [Slot.enqueue, hrefuses] at hfound
    cases hfound
    rfl
  · show Table.put Job.id db.jobs back.stored = _
    rw [hrecorded.jobs]
    exact Table.put_put _ ((Job.id_of_work hfailwork).trans hid.symm)
  · exact congrArg (List.map Candidate.id) hrecorded.candidates
  · exact h.candidates_kept hrecorded.candidates
  · obtain ⟨found, hfound, hproject⟩ := h.run_row
    rw [hrun, Option.some.injEq] at hfound
    refine ⟨run', ?_, hfound ▸ hproject⟩
    rw [Db.run?_append, Db.run?_setJob, ← show run'.id = runId from Table.find_key hrun]
    exact hrecorded.run_row
  · rw [Db.run?_append, Db.run?_setJob, ← show run'.id = runId from Table.find_key hrun]
    exact hrecorded.run_row

/-- The report of a failure that is not retried leaves a dead row and a failed run. -/
theorem Wired.gaveUp (h : Wired o project runId flow) (now : Instant)
    (hheld : flow.held[n]? = some (job, lease))
    (hrun : flow.world.db.run? runId = some run) (hlive : run.isTerminal = false)
    (hfinal : (o.retry.decide (classify e) job.attempt).shouldRetryJob = false) :
    ∃ row run', Executed project runId job flow.world (o.reportFailure now job lease e flow.world)
        row ∧ row.status.isTerminal = true ∧
      (o.reportFailure now job lease e flow.world).db.run? runId = some run' ∧
      run'.status = .failed ∧ run'.charter = run.charter ∧
      (o.reportFailure now job lease e flow.world).db.candidates = flow.world.db.candidates := by
  obtain ⟨⟨record, granted, hrecord, hgranted, htoken, hsame⟩, hflight, old, hold, -, holdwork⟩ :=
    h.held _ (List.mem_of_getElem? hheld)
  have hrunId : job.runId = runId :=
    (Job.runId_of_work holdwork).symm.trans (h.jobs old (Table.mem_of_find hold)).1
  have hjobrun : flow.world.db.run? job.runId = some run := by rw [hrunId]; exact hrun
  obtain ⟨db, run', hdb, hrecorded⟩ := Orchestrator.recordFailure_spec hold hjobrun now e false
  obtain ⟨hreleased, hslot, hothers⟩ := JobQueue.release_held h.queue_inv hrecord hgranted htoken false
  have hfailwork := Job.fail_work job none now (classify e) e.str (some false)
  have hdead := Job.fail_status (Orchestrator.not_terminal_of_inFlight hflight) now (classify e) e.str
    false
  simp only [Bool.false_eq_true, false_and, if_false] at hdead
  have hterminal : (job.fail none now (classify e) e.str (some false)).self.stored.status.isTerminal =
      true := by
    simp only [Job.stored, hdead]
    rfl
  have hreport : o.reportFailure now job lease e flow.world =
      { flow.world with
        db := db, queue := (flow.world.queue.release job.id lease.token false).self } := by
    simp only [Orchestrator.reportFailure, hfinal, hdb, hreleased, Bool.false_eq_true, if_false]
  have hrow : db.run? runId = some run' := by
    rw [← show run.id = runId from Table.find_key hrun]
    exact hrecorded.run_row
  rw [hreport]
  refine ⟨(job.fail none now (classify e) e.str (some false)).self.stored, run',
    ⟨JobQueue.release_inv h.queue_inv job.id lease.token false, hothers, fun found hfound hqueued => ?_,
      hrecorded.jobs, hfailwork, .inr hterminal, ?_, ?_, hrecorded.projects, ?_, Nat.le_refl _⟩,
    hterminal, hrow, ?_, hrecorded.charter, hrecorded.candidates⟩
  · have hfound : ((flow.world.queue.release job.id lease.token false).self.slot job.id).job =
        some found := hfound
    rw [hslot] at hfound
    cases hfound
    cases hqueued
  · exact congrArg (List.map Candidate.id) hrecorded.candidates
  · exact h.candidates_kept hrecorded.candidates
  · obtain ⟨found, hfound, hproject⟩ := h.run_row
    rw [hrun, Option.some.injEq] at hfound
    refine ⟨run', hrow, ?_⟩
    rw [← hproject, ← hfound]
    exact congrArg Run.Charter.projectId hrecorded.charter
  · rw [hrecorded.status, if_pos ⟨rfl, hlive⟩]

end Failures

/-! ### The outcomes of a dispatch -/

/-- Where nothing but agents and tools raises, a dispatch drops the job of a stopping run,
    completes a stage, or raises with the job as it was claimed. -/
theorem dispatch_cases {a : Answers} {job old : Job} {w : World} (hcalm : a.Calm)
    (hold : w.db.job? job.id = some old) (hrun : w.db.run? job.runId = some run) (lease : Lease) :
    ((run.isCancelling = true ∨ run.isTerminal = true) ∧
      o.dispatch a job lease w = .returned ({ w with
        db := w.db.setJob (job.cancel a.now)
        queue := w.queue.acknowledge job.id lease.token }, job.cancel a.now) ()) ∨
    (run.isTerminal = false ∧ ∃ effect done, o.stageEffect a job w = .ok effect ∧
      done.work = job.work ∧ done.status = .succeeded ∧
      o.dispatch a job lease w = .returned ({
        db := w.db.complete effect done
        queue := w.queue.acknowledge job.id lease.token
        issued := effect.issued }, done.stored) ()) ∨
    (run.isTerminal = false ∧ ∃ e, o.dispatch a job lease w = .raised (w, job) e) := by
  by_cases hstop : run.isCancelling = true ∨ run.isTerminal = true
  · refine .inl ⟨hstop, ?_⟩
    have hid : (job.cancel a.now).id = job.id := Job.id_of_work (job.cancel_work a.now)
    have hfind : w.db.job? (job.cancel a.now).id = some old := by rw [hid]; exact hold
    simp only [Orchestrator.dispatch, hcalm.check, Db.requireRun, hrun, if_pos hstop,
      Orchestrator.cancelJob, Orchestrator.cancelling, Db.updateJob_of_some hfind,
      Call.result_returned, Call.self_returned, acknowledging, hid]
  · have hlive : run.isTerminal = false := by
      cases ht : run.isTerminal with
      | false => rfl
      | true => exact absurd (.inr ht) hstop
    have hnc : run.isCancelling = false := by
      cases hc : run.isCancelling with
      | false => rfl
      | true => exact absurd (.inl hc) hstop
    refine .inr ?_
    rw [Orchestrator.dispatch_eq_runStage (hcalm.check .opening) hrun hlive hnc]
    unfold Orchestrator.runStage
    cases heffect : o.stageEffect a job w with
    | error e => exact .inr ⟨hlive, e, rfl⟩
    | ok effect =>
      have hwork := Job.complete_work job (some lease.token) a.now (some effect.result)
      cases hcomplete : (job.complete (some lease.token) a.now (some effect.result)).result with
      | error e =>
        refine .inr ⟨hlive, e, ?_⟩
        simp only [completing, hcomplete, Job.complete_raised hcomplete, Call.result_raised,
          Call.self_raised]
      | ok u =>
        have hstatus := Job.complete_status hcomplete
        generalize hdone : (job.complete (some lease.token) a.now (some effect.result)).self = done
          at hwork hstatus
        have hid : done.id = job.id := Job.id_of_work hwork
        have hfind : w.db.job? done.id = some old := by rw [hid]; exact hold
        refine .inl ⟨hlive, effect, done, rfl, hwork, hstatus, ?_⟩
        simp only [completing, hcomplete, hdone, Orchestrator.flush_ok hcalm hfind, hcalm.check,
          Call.result_returned, Call.self_returned, acknowledging, Job.stored, hid]

/-- The row of an executed job was closed and its record acknowledged. -/
theorem Wired.acknowledged (h : Wired o project runId flow) {n : Nat} {job row : Job} {lease : Lease}
    (hheld : flow.held[n]? = some (job, lease)) {db : Db} {issued : Nat}
    (hjobs : db.jobs = Table.put Job.id flow.world.db.jobs row) (hwork : row.work = job.work)
    (hterminal : row.status.isTerminal = true)
    (hids : db.candidates.map Candidate.id = flow.world.db.candidates.map Candidate.id)
    (hcandidates : ∀ candidate ∈ db.candidates, candidate.runId = runId)
    (hprojects : db.projects = flow.world.db.projects)
    (hrun : ∃ run, db.run? runId = some run ∧ run.projectId = project.id)
    (hgrows : flow.world.issued ≤ issued) :
    Executed project runId job flow.world
      { db, queue := flow.world.queue.acknowledge job.id lease.token, issued } row := by
  obtain ⟨record, granted, hrecord, hgranted, htoken, -⟩ :=
    (h.held _ (List.mem_of_getElem? hheld)).record
  obtain ⟨hnot, hothers⟩ := JobQueue.acknowledge_held h.queue_inv hrecord hgranted htoken
  exact ⟨JobQueue.acknowledge_inv h.queue_inv job.id lease.token, hothers,
    fun left hleft hqueued => absurd hqueued (hnot left hleft), hjobs, hwork, .inr hterminal, hids,
    hcandidates, hprojects, hrun, hgrows⟩

/-! ### What an execution shows -/

theorem Tracks.shows_tickets (h : Tracks o project runId flow s) :
    s.tickets = flow.world.db.jobs.map Workflow.Ticket.of :=
  (congrArg Workflow.State.tickets h.shows).symm

theorem Tracks.shows_candidates (h : Tracks o project runId flow s) :
    s.candidates = flow.world.db.candidates :=
  (congrArg Workflow.State.candidates h.shows).symm

theorem Tracks.shows_facts (h : Tracks o project runId flow s) : s.facts = flow.facts :=
  (congrArg Workflow.State.facts h.shows).symm

section Executions

variable {n : Nat} {job row : Job} {lease : Lease} {w : World}

/-- The row of a held job, as the workflow sees it. -/
theorem Tracks.ticket (h : Tracks o project runId flow s)
    (hheld : flow.held[n]? = some (job, lease)) :
    ∃ t ∈ s.tickets, t.isOpen = true ∧ t.id = job.id ∧ t.type = job.type ∧
      t.candidateId = job.candidateId := by
  obtain ⟨old, hold, hstatus, hwork⟩ := (h.wired.held _ (List.mem_of_getElem? hheld)).row
  refine ⟨Workflow.Ticket.of old, ?_, ?_, Job.id_of_work hwork, Job.type_of_work hwork,
    Job.candidateId_of_work hwork⟩
  · rw [h.shows_tickets]
    exact List.mem_map_of_mem (Table.mem_of_find hold)
  · simp only [Workflow.Ticket.of, hstatus]
    rfl

/-- The tickets once the row of a held job was written. -/
theorem Tracks.tickets_executed (h : Tracks o project runId flow s)
    (hheld : flow.held[n]? = some (job, lease)) (he : Executed project runId job flow.world w row) :
    w.db.jobs.map Workflow.Ticket.of =
      if row.status.isTerminal = true then s.close job.id else s.tickets := by
  obtain ⟨old, hold, hstatus, hwork⟩ := (h.wired.held _ (List.mem_of_getElem? hheld)).row
  have hsame : row.work = old.work := he.work.trans hwork.symm
  have hunique : ∀ other ∈ flow.world.db.jobs, other.id = row.id → other = old := by
    intro other hother hid
    apply List.inj_on_of_nodup_map h.wired.job_ids hother (Table.mem_of_find hold)
    exact hid.trans (Job.id_of_work hsame)
  have hticket : Workflow.Ticket.of row =
      { Workflow.Ticket.of old with isOpen := !row.status.isTerminal } := by
    simp only [Workflow.Ticket.of, Job.id_of_work hsame, Job.type_of_work hsame,
      Job.candidateId_of_work hsame]
  rw [he.jobs]
  unfold Table.put Workflow.State.close
  rw [h.shows_tickets, List.map_map, List.map_map]
  have hid : row.id = job.id := Job.id_of_work he.work
  split
  · rename_i hterminal
    apply List.map_congr_left
    intro other hother
    simp only [Function.comp, ← hid]
    by_cases heq : other.id = row.id
    · rw [if_pos heq, hunique other hother heq, if_pos, hticket, hterminal]
      · rfl
      · exact (Job.id_of_work hsame).symm
    · rw [if_neg heq, if_neg]
      exact heq
  · rename_i hopen
    apply List.map_congr_left
    intro other hother
    simp only [Function.comp]
    by_cases heq : other.id = row.id
    · rw [if_pos heq, hunique other hother heq, hticket]
      simp only [Workflow.Ticket.of, hstatus, hopen]
      rfl
    · rw [if_neg heq]

/-- An execution shows its new run and candidates, and its job closed unless it is queued
    again. -/
theorem Tracks.executed (h : Tracks o project runId flow s)
    (hheld : flow.held[n]? = some (job, lease)) (he : Executed project runId job flow.world w row)
    (hrun : w.db.run? runId = some run) (facts : List Workflow.Fact) :
    Tracks o project runId ⟨w, flow.held.eraseIdx n, facts⟩
      ⟨run, w.db.candidates,
        if row.status.isTerminal = true then s.close job.id else s.tickets, facts⟩ := by
  refine ⟨h.wired.executed hheld he facts, hrun, ?_⟩
  simp only [shown, h.tickets_executed hheld he]

/-! ### The commit of a stage -/

variable {a : Answers} {effect : Effect} {done : Job} {new : Run}

/-- The flow once a stage committed and its job was acknowledged. -/
def committed (flow : RunFlow) (n : Nat) (job : Job) (lease : Lease) (effect : Effect) (done : Job) :
    RunFlow where
  world := {
    db := flow.world.db.complete effect done
    queue := flow.world.queue.acknowledge job.id lease.token
    issued := effect.issued }
  held := flow.held.eraseIdx n
  facts := effect.facts job.type ++ flow.facts

theorem Tracks.run_committed (h : Tracks o project runId flow s) (heffect : effect.run = some new)
    (hcharter : new.charter = s.run.charter) (done : Job) :
    (flow.world.db.complete effect done).run? runId = some new.stored := by
  have hid : new.id = runId := (Run.id_of_charter hcharter).trans (Table.find_key h.row)
  have hread : flow.world.db.run? new.id = some s.run := by
    rw [hid]
    exact h.row
  rw [Orchestrator.run?_complete, heffect]
  show (flow.world.db.setRun new).run? runId = _
  rw [Db.run?_setRun hread, if_pos hid.symm]

/-- The commit of a stage shows the run and the candidate it stored, and closes its job. -/
theorem Tracks.committed (h : Tracks o project runId flow s) (done : Job)
    (hheld : flow.held[n]? = some (job, lease)) (hwork : done.work = job.work)
    (hstatus : done.status = .succeeded)
    (hrun : (flow.world.db.complete effect done).run? runId = some run)
    (hcharter : run.charter = s.run.charter)
    (hchanged : ∀ changed, effect.candidate = some changed → changed.runId = runId)
    (hgrows : flow.world.issued ≤ effect.issued) :
    Tracks o project runId (flow.committed n job lease effect done)
      ⟨run, (flow.world.db.complete effect done).candidates, s.close job.id,
        effect.facts job.type ++ s.facts⟩ := by
  have hterminal : done.stored.status.isTerminal = true := by
    simp only [Job.stored, hstatus]
    rfl
  have hids : (flow.world.db.complete effect done).candidates.map Candidate.id =
      flow.world.db.candidates.map Candidate.id := by
    rw [Orchestrator.candidates_complete]
    cases effect.candidate with
    | none => rfl
    | some changed => exact Table.keys_put _ _
  have hown : ∀ candidate ∈ (flow.world.db.complete effect done).candidates,
      candidate.runId = runId := by
    intro candidate hmem
    rw [Orchestrator.candidates_complete] at hmem
    cases heq : effect.candidate with
    | none =>
      rw [heq] at hmem
      exact h.wired.candidates candidate hmem
    | some changed =>
      rw [heq] at hmem
      rcases Table.mem_put.mp hmem with ⟨rfl, -⟩ | ⟨hold, -⟩
      · exact hchanged changed heq
      · exact h.wired.candidates candidate hold
  have hproject : ∃ run, (flow.world.db.complete effect done).run? runId = some run ∧
      run.projectId = project.id := by
    obtain ⟨found, hfound, hproject⟩ := h.wired.run_row
    rw [h.row, Option.some.injEq] at hfound
    refine ⟨run, hrun, ?_⟩
    rw [← hproject, ← hfound]
    exact congrArg Run.Charter.projectId hcharter
  have htracks := h.executed hheld (h.wired.acknowledged hheld
    (Orchestrator.jobs_complete _ effect done) hwork hterminal hids hown
    (Orchestrator.projects_complete _ effect done) hproject hgrows) hrun
    (effect.facts job.type ++ flow.facts)
  rw [if_pos hterminal] at htracks
  rw [h.shows_facts]
  exact htracks

/-- **The commit of a stage is a step of the workflow.** -/
theorem Tracks.completed (h : Tracks o project runId flow s)
    (hheld : flow.held[n]? = some (job, lease))
    (heffect : o.stageEffect a job flow.world = .ok effect) (hwork : done.work = job.work)
    (hstatus : done.status = .succeeded) :
    Follows o project runId (flow.committed n job lease effect done) s := by
  obtain ⟨t, ht, hopen, hid, htype, hcandidate⟩ := h.ticket hheld
  obtain ⟨-, -, old, hold, -, hsame⟩ := h.wired.held _ (List.mem_of_getElem? hheld)
  have hrunId : job.runId = runId :=
    (Job.runId_of_work hsame).symm.trans (h.wired.jobs old (Table.mem_of_find hold)).1
  have hjobrun : flow.world.db.run? job.runId = some s.run := by
    rw [hrunId]
    exact h.row
  have hstored : ∀ {candidate : Candidate}, flow.world.db.candidate? candidate.id = some candidate →
      candidate ∈ s.candidates ∧ candidate.runId = runId := by
    intro candidate hfind
    rw [h.shows_candidates]
    exact ⟨Table.mem_of_find hfind, h.wired.candidates candidate (Table.mem_of_find hfind)⟩
  have hreplace : ∀ {changed : Candidate}, effect.candidate = some changed →
      (flow.world.db.complete effect done).candidates = s.replace changed := by
    intro changed heq
    rw [Orchestrator.candidates_complete, heq, Workflow.State.replace, h.shows_candidates]
  rcases Orchestrator.stageEffect_ok heffect with ⟨hplan, run, run', outcome, hp⟩ |
    ⟨hcode, run, candidate, changed, outcome, hp⟩ |
    ⟨stage, hstage, run, project', candidate, changed, results, hp⟩ |
    ⟨hreview, run, candidate, outcome, hp⟩
  · obtain rfl : run = s.run := Option.some.inj (hp.run_row.symm.trans hjobrun)
    have hcandidates : (flow.world.db.complete effect done).candidates = s.candidates := by
      rw [Orchestrator.candidates_complete, hp.candidate_eq, h.shows_candidates]
    have hfacts : effect.facts job.type = [] := by
      simp only [Effect.facts, hp.candidate_eq]
    have htracks := h.committed done hheld hwork hstatus (h.run_committed hp.run_eq hp.charter done)
      hp.charter (fun _ hc => by rw [hp.candidate_eq] at hc; cases hc) hp.grows
    rw [hcandidates, hfacts, ← hid] at htracks
    exact ⟨_, htracks, .inr (.planned ht hopen (htype.trans hplan) hp.allowed hp.status hp.charter
      hp.repairIterations)⟩
  · obtain rfl : run = s.run := Option.some.inj (hp.run_row.symm.trans hjobrun)
    obtain ⟨hmem, hown⟩ := hstored hp.candidate_row
    have hfacts : effect.facts job.type = [.submitted candidate.id outcome.patch] := by
      simp only [Effect.facts, hp.candidate_eq, hcode, hp.patch, hp.id, Option.toList_some,
        List.map_cons, List.map_nil]
    have htracks := h.committed done hheld hwork hstatus (h.run_committed hp.run_eq rfl done) rfl
      (fun _ hc => by
        rw [hp.candidate_eq, Option.some.injEq] at hc
        rw [← hc, hp.runId]
        exact hown) hp.issued_eq.ge
    rw [hreplace hp.candidate_eq, hfacts, ← hid] at htracks
    exact ⟨_, htracks, .inr (.coded ht hopen (htype.trans hcode) (hcandidate.trans hp.named) hmem
      ⟨hp.id, hp.status, hp.patch, hp.validation, hp.reviewVerdict, hp.workspaceId⟩
      ⟨rfl, rfl, rfl, rfl⟩)⟩
  · obtain rfl : run = s.run := Option.some.inj (hp.run_row.symm.trans hjobrun)
    obtain ⟨hmem, hown⟩ := hstored hp.candidate_row
    obtain rfl : project' = project := by
      obtain ⟨found, hfound, hproject⟩ := h.wired.run_row
      rw [h.row, Option.some.injEq] at hfound
      have hrow := hp.project_row
      rw [hfound, hproject, h.wired.project_row, Option.some.injEq] at hrow
      exact hrow.symm
    obtain rfl := hp.changed_eq
    have hfacts : effect.facts job.type = [.validated candidate.id results] := by
      have hresults : effect.toolResults.map StoredToolResult.result = results := by
        rw [hp.toolResults_eq, List.map_map]
        exact List.map_id _
      rw [hstage]
      cases stage <;> simp only [Effect.facts, hp.candidate_eq, ValidationStage.jobType, hresults]
    have hrun : (flow.world.db.complete effect done).run? runId = some s.run := by
      rw [Orchestrator.run?_complete, hp.run_eq]
      exact h.row
    have htracks := h.committed done hheld hwork hstatus hrun rfl
      (fun _ hc => by
        rw [hp.candidate_eq, Option.some.injEq] at hc
        rw [← hc]
        exact hown) hp.issued_eq.ge
    rw [hreplace hp.candidate_eq, hfacts, ← hid] at htracks
    have hran : Workflow.StageRan project' stage results := by
      have hresults := hp.results_eq
      unfold Orchestrator.stageResults at hresults
      unfold Workflow.StageRan
      split at hresults
      · rename_i hconfigured
        rw [if_pos hconfigured]
        cases htool : a.tool with
        | error e =>
          rw [htool] at hresults
          cases hresults
        | ok result =>
          rw [htool] at hresults
          cases hresults
          exact ⟨_, rfl, rfl⟩
      · rename_i hnone
        rw [if_neg hnone]
        cases hresults
        rfl
    exact ⟨_, htracks, .inr (.validated ht hopen (htype.trans hstage) (hcandidate.trans hp.named)
      hmem hran)⟩
  · obtain rfl : run = s.run := Option.some.inj (hp.run_row.symm.trans hjobrun)
    obtain ⟨hmem, hown⟩ := hstored hp.candidate_row
    obtain ⟨review, hreviewed, hverdict⟩ := hp.review_eq
    have hfacts : effect.facts job.type = [.reviewed candidate.id outcome.draft.verdict] := by
      simp only [Effect.facts, hp.candidate_eq, hreview, hreviewed, hverdict, Option.toList_some,
        List.map_cons, List.map_nil]
      rfl
    have htracks := h.committed done hheld hwork hstatus (h.run_committed hp.run_eq rfl done) rfl
      (fun _ hc => by
        rw [hp.candidate_eq, Option.some.injEq] at hc
        rw [← hc]
        exact hown) hp.grows
    rw [hreplace hp.candidate_eq, hfacts, ← hid] at htracks
    exact ⟨_, htracks, .inr (.reviewed ht hopen (htype.trans hreview) (hcandidate.trans hp.named)
      hmem ⟨rfl, rfl, rfl, rfl⟩)⟩

/-- An execution is a step of the workflow, or leaves the workflow where it was. -/
theorem Tracks.execute (h : Tracks o project runId flow s) (hkept : Workflow.Kept o project s)
    {calm : a.Calm} (hagrees : Agrees o flow (.execute n a calm)) :
    Follows o project runId (flow.step o runId (.execute n a calm)) s := by
  cases hheld : flow.held[n]? with
  | none =>
    simp only [RunFlow.step, hheld]
    exact h.stays
  | some entry =>
    obtain ⟨job, lease⟩ := entry
    obtain ⟨-, hflight, old, hold, -, hsame⟩ := h.wired.held _ (List.mem_of_getElem? hheld)
    have hopen := Orchestrator.not_terminal_of_inFlight hflight
    have hrunId : job.runId = runId :=
      (Job.runId_of_work hsame).symm.trans (h.wired.jobs old (Table.mem_of_find hold)).1
    have hjobrun : flow.world.db.run? job.runId = some s.run := by
      rw [hrunId]
      exact h.row
    rcases dispatch_cases (o := o) calm hold hjobrun lease with ⟨hstop, hdispatch⟩ |
      ⟨-, effect, done, heffect, hwork, hstatus, hdispatch⟩ | ⟨hlive, e, hdispatch⟩
    · -- the workflow has no cancelled run, so the run is over
      have hterminal : s.run.isTerminal = true := by
        rcases hstop with hcancelling | hterminal
        · cases hl : s.run.isTerminal with
          | true => rfl
          | false =>
            rw [(hkept.live hl).not_cancelling] at hcancelling
            cases hcancelling
        · exact hterminal
      have hcancelled : (job.cancel a.now).status = .cancelled := by
        simp [Job.cancel, hopen]
      have hstep : flow.step o runId (.execute n a calm) = ⟨{ flow.world with
          db := flow.world.db.setJob (job.cancel a.now)
          queue := flow.world.queue.acknowledge job.id lease.token }, flow.held.eraseIdx n,
          flow.facts⟩ := by
        simp only [RunFlow.step, hheld, Orchestrator.attempt, Orchestrator.committedFacts, hdispatch,
          Call.result_returned, Call.self_returned, hcancelled]
        cases o.stageEffect a job flow.world <;> rfl
      have hclosed : (job.cancel a.now).stored.status.isTerminal = true := by
        simp only [Job.stored, hcancelled]
        rfl
      obtain ⟨found, hfound, hproject⟩ := h.wired.run_row
      have hacknowledged := h.wired.acknowledged hheld
        (show (flow.world.db.setJob (job.cancel a.now)).jobs =
          Table.put Job.id flow.world.db.jobs (job.cancel a.now).stored from rfl)
        (job.cancel_work a.now) hclosed rfl h.wired.candidates rfl ⟨found, hfound, hproject⟩
        (Nat.le_refl _)
      have htracks := h.executed hheld hacknowledged h.row flow.facts
      rw [if_pos hclosed] at htracks
      rw [hstep]
      refine ⟨{ s with tickets := s.close job.id }, ?_, .inr (.dropped hterminal)⟩
      have hcandidates := h.shows_candidates
      have hfacts := h.shows_facts
      obtain ⟨run, candidates, tickets, facts⟩ := s
      dsimp only at hcandidates hfacts
      subst hcandidates hfacts
      exact htracks
    · have hstep : flow.step o runId (.execute n a calm) =
          flow.committed n job lease effect done := by
        simp only [RunFlow.step, hheld, Orchestrator.attempt, Orchestrator.committedFacts, hdispatch,
          heffect, Call.result_returned, Call.self_returned, Job.stored, hstatus, if_true,
          RunFlow.committed]
      rw [hstep]
      exact h.completed hheld heffect hwork hstatus
    · have hstep : flow.step o runId (.execute n a calm) =
          ⟨o.reportFailure a.now job lease e flow.world, flow.held.eraseIdx n, flow.facts⟩ := by
        simp only [RunFlow.step, hheld, Orchestrator.attempt, Orchestrator.committedFacts, hdispatch,
          Call.result_raised, Call.self_raised, List.nil_append]
      rw [hstep]
      cases hdecision : (o.retry.decide (classify e) job.attempt).shouldRetryJob with
      | true =>
        have hleft := hagrees job lease e hheld (by rw [hdispatch]; rfl) hdecision
        obtain ⟨row, he, hqueued, hrow, hcandidates⟩ := h.wired.retried a.now hheld h.row
          hdecision hleft
        have htracks := h.executed hheld he hrow flow.facts
        rw [if_neg (by rw [hqueued]; simp [JobStatus.isTerminal]), hcandidates,
          ← h.shows_candidates, ← h.shows_facts] at htracks
        rw [← h.shows_facts]
        exact htracks.stays
      | false =>
        obtain ⟨row, run', he, hterminal, hrow, hfailed, hcharter, hcandidates⟩ :=
          h.wired.gaveUp a.now hheld h.row hlive hdecision
        have htracks := h.executed hheld he hrow flow.facts
        rw [if_pos hterminal, hcandidates, ← h.shows_candidates, ← h.shows_facts] at htracks
        rw [← h.shows_facts]
        exact ⟨_, htracks, .inr (.died hlive hfailed hcharter)⟩

end Executions

/-! ### Whole runs -/

/-- **Every move of the run is a step of the workflow**, or leaves it where it was. -/
theorem Tracks.step (h : Tracks o project runId flow s) (hkept : Workflow.Kept o project s)
    {move : Move} (hagrees : Agrees o flow move) :
    Follows o project runId (flow.step o runId move) s := by
  cases move with
  | start ws now => exact h.start hkept ws now
  | advance ws now => exact h.advance ws now
  | claim consumer jobTypes duration now token hd =>
    exact ⟨s, ⟨h.wired.claim consumer jobTypes duration now token hd, h.row, h.shows⟩, .inl rfl⟩
  | execute n a calm => exact h.execute hkept hagrees

/-- The workflow starts with a run and nothing else. -/
theorem submitted_tracks (o : Orchestrator) (hnew : New project run) :
    Tracks o project run.id (submitted project run) ⟨run, [], [], []⟩ where
  wired := submitted_wired o hnew
  row := by simp [submitted, World.fresh, Db.run?, Table.find]
  shows := rfl

theorem submitted_kept (o : Orchestrator) (hnew : New project run) :
    Workflow.Kept o project ⟨run, [], [], []⟩ := by
  refine .of_live ⟨List.nodup_nil, List.nodup_nil, ?_, ?_, ?_, ?_⟩ ?_
  · intro t ht
    cases ht
  · intro t ht
    cases ht
  · intro c hc
    cases hc
  · simp [Workflow.Phase, hnew.status]
  · show run.status ≠ .completed
    rw [hnew.status]
    simp

/-- **What every step of the workflow keeps holds all through the life of a run.** -/
theorem tracked (hnew : New project run) {I : Workflow.State → Prop}
    (hstart : I ⟨run, [], [], []⟩)
    (hstep : ∀ s s', Workflow.Kept o project s → I s → Workflow.Step o project s s' → I s')
    {moves : List Move}
    (hagrees : Runs.Along (step o run.id) (Agrees o) (submitted project run) moves) :
    ∃ s, Tracks o project run.id (Runs.after (step o run.id) (submitted project run) moves) s ∧
      Workflow.Kept o project s ∧ I s := by
  apply hagrees.invariant
    (I := fun flow => ∃ s, Tracks o project run.id flow s ∧ Workflow.Kept o project s ∧ I s)
  · exact ⟨_, submitted_tracks o hnew, submitted_kept o hnew, hstart⟩
  · rintro flow move ⟨s, htracks, hkept, hs⟩ hmove
    rcases htracks.step hkept hmove with ⟨s', htracks', rfl | hnext⟩
    · exact ⟨s', htracks', hkept, hs⟩
    · exact ⟨s', htracks', hnext.kept hkept, hstep s s' hkept hs hnext⟩

end RunFlow

end AgenticPlatform
