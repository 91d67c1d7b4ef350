import AgenticPlatform.AdvanceEffects
import AgenticPlatform.Failure

/-!
# The maintenance loop

`MaintenanceLoop.tick`: start pending runs, reap silent workers, reclaim lapsed leases,
and requeue the durable row of each reclaimed job. The queue hands out copies and a
claim never reaches the table, so the row of a claimed job carries no lease; whether
`_requeue` takes such a job for retryable is what decides the fate of its run.
-/

namespace AgenticPlatform

structure MaintenanceLoop where
  orchestrator : Option Orchestrator
  reclaimBatch : Nat := 100

namespace MaintenanceLoop

/-- The transaction of `_requeue` on the stored row, and what follows it. -/
def requeueRow (m : MaintenanceLoop) (now : Instant) (job : Job) (w : World) : Call World Bool :=
  let (job, retryable) := job.expireLease now
  if retryable then
    let call := job.requeue now "lease expired: the worker stopped reporting"
    match call.result with
    | .error e => .raised w e
    | .ok () =>
        .returned { w with
          db := (w.db.setJob call.self).append call.self.events
          queue := w.queue.enqueue call.self.stored } true
  else
    let w := { w with db := (w.db.setJob job).append job.events }
    match m.orchestrator with
    | none => .returned w false
    | some _ =>
        -- out of attempts: the run must learn about it rather than wait forever
        let call := Orchestrator.handleDeadJob now job.stored w
        match call.result with
        | .error e => .raised call.self e
        | .ok () => .returned call.self false

/-- `_requeue`: give an abandoned job another attempt, or let it die. -/
def requeue (m : MaintenanceLoop) (now : Instant) (jobId : JobId) (w : World) : Call World Bool :=
  match w.db.job? jobId with
  | none => .returned w false
  | some job => if job.status.isTerminal then .returned w false else m.requeueRow now job w

/-- The loop over the reclaimed jobs; the ids that were requeued. -/
def requeueEach (m : MaintenanceLoop) (now : Instant) : List JobId → World → Call World (List JobId)
  | [], w => .returned w []
  | jobId :: rest, w =>
      let first := m.requeue now jobId w
      match first.result with
      | .error e => .raised first.self e
      | .ok requeued =>
          let others := requeueEach m now rest first.self
          match others.result with
          | .error e => .raised others.self e
          | .ok ids => .returned others.self (if requeued then jobId :: ids else ids)

/-- The sweep at the start of a tick. -/
def sweep (m : MaintenanceLoop) (ws : Workspaces) (now : Instant) (w : World) : Call World Unit :=
  match m.orchestrator with
  | none => .returned w ()
  | some o => o.startPendingRuns ws now w

/-- One maintenance pass. `reaper` is how `ReapStaleWorkersUseCase.execute` ended; it
    works on the worker registry only. -/
def tick (m : MaintenanceLoop) (ws : Workspaces) (now : Instant) (reaper : Except PyError Unit)
    (w : World) : Call World (List JobId) :=
  let swept := m.sweep ws now w
  match swept.result with
  | .error e => .raised swept.self e
  | .ok () =>
      match reaper with
      | .error e => .raised swept.self e
      | .ok () =>
          let reclaimed := swept.self.queue.reclaimExpired now m.reclaimBatch
          let w := { swept.self with queue := reclaimed.self }
          match reclaimed.result with
          | .error e => .raised w e
          | .ok expired => m.requeueEach now expired w

/-! ### A lost lease -/

/-- A published job whose claim lapsed with attempts left. Its row is as the
    orchestrator persisted it: queued, and without a lease. -/
structure LeaseLost (w : World) (now : Instant) (id : JobId) (row : Job) (run : Run) : Prop where
  row_stored : w.db.job? id = some row
  row_queued : row.status = .queued
  row_lease : row.lease = none
  record : ∃ record lease, (w.queue.slot id).job = some record ∧ record.lease = some lease ∧
    lease.expiresAt ≤ now ∧ record.attempt < record.maxAttempts
  run_stored : w.db.run? row.runId = some run

/-- Publishing a stored row, claiming it and letting the lease lapse gets there. -/
theorem leaseLost_of_claim {w : World} {row : Job} {run : Run} {consumer : WorkerId}
    {jobTypes : List JobType} {duration : Duration} {claimedAt now : Instant} {token : LeaseToken}
    {job : Job} {lease : Lease} (hinv : w.queue.Inv) (hd : 0 < duration)
    (hrow : w.db.job? row.id = some row) (hqueued : row.status = .queued) (hlease : row.lease = none)
    (hrun : w.db.run? row.runId = some run)
    (hclaim : (w.queue.claim consumer jobTypes duration claimedAt token).result =
      .ok (some (job, lease)))
    (hjob : job.id = row.id) (hattempt : job.attempt < job.maxAttempts)
    (hlapsed : lease.expiresAt ≤ now) :
    LeaseLost { w with queue := (w.queue.claim consumer jobTypes duration claimedAt token).self }
      now row.id row run := by
  refine ⟨hrow, hqueued, hlease, ?_, hrun⟩
  rcases JobQueue.claim_cases hinv.coherent consumer jobTypes hd claimedAt token with
    ⟨hnone, -⟩ | ⟨stored, job', lease', -, -, -, hresult, -, hwork, -, hheld, -, -, -, hslots⟩
  · rw [hclaim] at hnone
    cases hnone
  · rw [hclaim, Except.ok.injEq, Option.some.injEq, Prod.mk.injEq] at hresult
    obtain ⟨rfl, rfl⟩ := hresult
    have hid : row.id = stored.id := hjob.symm.trans (Job.id_of_work hwork)
    refine ⟨job.rebuild, lease, ?_, hheld, hlapsed, hattempt⟩
    show ((w.queue.claim consumer jobTypes duration claimedAt token).self.slot row.id).job = _
    rw [hslots, if_pos hid]
    rfl

/-- The job is queued in the table, claimable, and its run was not moved to FAILED. -/
structure Recovered (id : JobId) (run : Run) (w : World) : Prop where
  durable : ∃ row, w.db.job? id = some row ∧ row.status = .queued
  claimable : w.queue.Claimable id
  run_kept : ∀ run', w.db.run? run.id = some run' → run'.status = .failed → run.status = .failed

/-! ### One turn of the requeue loop -/

/-- The part of the world that concerns a published row without a lease: the row, the
    slot of its job in the queue, and its run. -/
structure Tracks (id : JobId) (runId : RunId) (slot : Slot) (run : Run) (w : World) : Prop where
  row : ∃ row, w.db.job? id = some row ∧ row.status = .queued ∧ row.lease = none ∧
    row.runId = runId
  slot_eq : w.queue.slot id = slot
  run_row : w.db.run? runId = some run

variable {m : MaintenanceLoop} {now : Instant} {w : World} {id : JobId} {run : Run}
  {runId : RunId} {slot : Slot}

/-- `handle_dead_job` fails a live run and leaves every other row alone. -/
theorem handleDeadJob_spec (now : Instant) (job : Job) (w : World) :
    (Orchestrator.handleDeadJob now job w).result = .ok () ∧
      (Orchestrator.handleDeadJob now job w).self.queue = w.queue ∧
      (∀ id, (Orchestrator.handleDeadJob now job w).self.db.job? id = w.db.job? id) ∧
      ∀ runId run, w.db.run? runId = some run →
        ∃ run', (Orchestrator.handleDeadJob now job w).self.db.run? runId = some run' ∧
          if job.runId = runId ∧ run.isTerminal = false then run'.status = .failed
          else run' = run := by
  unfold Orchestrator.handleDeadJob
  cases hrun : w.db.run? job.runId with
  | none =>
    refine ⟨rfl, rfl, fun _ => rfl, fun runId run hrow => ⟨run, hrow, ?_⟩⟩
    rw [if_neg]
    rintro ⟨rfl, -⟩
    rw [hrun] at hrow
    cases hrow
  | some found =>
    simp only
    by_cases ht : found.isTerminal = true
    · rw [if_pos ht]
      refine ⟨rfl, rfl, fun _ => rfl, fun runId run hrow => ⟨run, hrow, ?_⟩⟩
      rw [if_neg]
      rintro ⟨rfl, hlive⟩
      rw [hrun, Option.some.injEq] at hrow
      rw [hrow, hlive] at ht
      cases ht
    · rw [if_neg ht]
      obtain ⟨failed, hfailed, hstatus, hcharter⟩ := Run.fail_of_live (by simpa using ht) now
        (job.failureKind.getD .infrastructure) (Orchestrator.deadJobReason job)
      rw [hfailed]
      have hid : failed.id = job.runId :=
        (Run.id_of_charter hcharter).trans (Table.find_key hrun)
      have hfind : w.db.run? failed.id = some found := by rw [hid]; exact hrun
      refine ⟨rfl, rfl, fun _ => rfl, fun runId run hrow => ?_⟩
      simp only [Call.self_returned, Db.run?_append, Db.run?_setRun hfind, hid]
      by_cases heq : runId = job.runId
      · subst heq
        rw [hrun, Option.some.injEq] at hrow
        subst hrow
        exact ⟨failed.stored, if_pos rfl, by rw [if_pos ⟨rfl, by simpa using ht⟩]; exact hstatus⟩
      · exact ⟨run, by rw [if_neg heq, hrow], by rw [if_neg (fun hc => heq hc.1.symm)]⟩

/-- One `_requeue` never raises and keeps the row and the slot it does not work on; on
    the tracked row itself it finds no lease, and reports the job as dead. -/
theorem requeue_tracks (m : MaintenanceLoop) (now : Instant) (jobId : JobId)
    (h : Tracks id runId slot run w) :
    ∃ b run', (m.requeue now jobId w).result = .ok b ∧
      Tracks id runId slot run' (m.requeue now jobId w).self ∧
      (run' = run ∨ (m.orchestrator ≠ none ∧ run.isTerminal = false ∧ run'.status = .failed)) ∧
      (jobId = id → m.orchestrator ≠ none → run.isTerminal = false → run'.status = .failed) := by
  obtain ⟨row, hrow, hqueued, hlease, hrunId⟩ := h.row
  unfold requeue
  cases hjob : w.db.job? jobId with
  | none =>
    refine ⟨false, run, rfl, h, .inl rfl, fun heq => ?_⟩
    rw [heq, hrow] at hjob
    cases hjob
  | some job =>
    have hjobId : job.id = jobId := Table.find_key hjob
    simp only
    by_cases ht : job.status.isTerminal = true
    · rw [if_pos ht]
      refine ⟨false, run, rfl, h, .inl rfl, fun heq => ?_⟩
      rw [heq, hrow, Option.some.injEq] at hjob
      rw [← hjob, hqueued] at ht
      cases ht
    · rw [if_neg ht]
      have hwork : (job.expireLease now).1.work = job.work := Job.expireLease_work job now
      by_cases hretry : (job.expireLease now).2 = true
      · -- the row itself carried a lapsed lease: another job than the tracked one
        have hne : id ≠ jobId := by
          rintro rfl
          rw [hrow, Option.some.injEq] at hjob
          rw [← hjob, Job.expireLease_of_no_lease hlease] at hretry
          cases hretry
        have hok := Job.requeue_of_retryable hretry "lease expired: the worker stopped reporting"
        let back := (job.expireLease now).1.requeue now "lease expired: the worker stopped reporting"
        have hback : back.self.id = jobId :=
          (Job.id_of_work ((Job.requeue_work _ _ _).trans hwork)).trans hjobId
        have hfind : w.db.job? back.self.id = some job := by rw [hback]; exact hjob
        have hstep : m.requeueRow now job w = .returned { w with
            db := (w.db.setJob back.self).append back.self.events
            queue := w.queue.enqueue back.self.stored } true := by
          simp only [requeueRow, hretry, if_true, hok, back]
        rw [hstep]
        refine ⟨true, run, rfl, ⟨⟨row, ?_, hqueued, hlease, hrunId⟩, ?_, h.run_row⟩, .inl rfl,
          fun heq => absurd heq.symm hne⟩
        · simp only [Call.self_returned, Db.job?_append, Db.job?_setJob hfind, hback, if_neg hne]
          exact hrow
        · simp only [Call.self_returned]
          rw [JobQueue.slot_enqueue, if_neg (fun hc => hne (hc.trans hback))]
          exact h.slot_eq
      · have hid : (job.expireLease now).1.id = jobId := (Job.id_of_work hwork).trans hjobId
        have hfind : w.db.job? (job.expireLease now).1.id = some job := by rw [hid]; exact hjob
        let written : World := { w with
          db := (w.db.setJob (job.expireLease now).1).append (job.expireLease now).1.events }
        have hwritten : Tracks id runId slot run written := by
          refine ⟨?_, h.slot_eq, h.run_row⟩
          simp only [written, Db.job?_append, Db.job?_setJob hfind, hid]
          by_cases hne : id = jobId
          · rw [hne] at hrow
            rw [hjob, Option.some.injEq] at hrow
            rw [← hrow] at hqueued hlease hrunId
            rw [Job.expireLease_of_no_lease hlease]
            exact ⟨job.stored, if_pos hne, hqueued, hlease, hrunId⟩
          · exact ⟨row, by rw [if_neg hne]; exact hrow, hqueued, hlease, hrunId⟩
        cases ho : m.orchestrator with
        | none =>
          have hstep : m.requeueRow now job w = .returned written false := by
            simp only [requeueRow, hretry, Bool.false_eq_true, if_false, ho, written]
          rw [hstep]
          exact ⟨false, run, rfl, hwritten, .inl rfl, fun _ hc => absurd rfl hc⟩
        | some o =>
          obtain ⟨hresult, hqueue, hjobs, hruns⟩ :=
            handleDeadJob_spec now (job.expireLease now).1.stored written
          obtain ⟨run', hrun', hstatus⟩ := hruns runId run hwritten.run_row
          have hstep : m.requeueRow now job w = .returned
              (Orchestrator.handleDeadJob now (job.expireLease now).1.stored written).self false := by
            simp only [requeueRow, hretry, Bool.false_eq_true, if_false, ho]
            simp only [written] at hresult
            rw [hresult]
          rw [hstep]
          obtain ⟨row', hrow', hrest⟩ := hwritten.row
          refine ⟨false, run', rfl, ⟨⟨row', by rw [Call.self_returned, hjobs]; exact hrow', hrest⟩,
            by rw [Call.self_returned, hqueue]; exact h.slot_eq, hrun'⟩, ?_, ?_⟩
          · by_cases hc : (job.expireLease now).1.stored.runId = runId ∧ run.isTerminal = false
            · rw [if_pos hc] at hstatus
              exact .inr ⟨by simp, hc.2, hstatus⟩
            · rw [if_neg hc] at hstatus
              exact .inl hstatus
          · intro heq _ hlive
            rw [heq, hrow, Option.some.injEq] at hjob
            have hjr : (job.expireLease now).1.stored.runId = runId :=
              (Job.runId_of_work hwork).trans (hjob ▸ hrunId)
            rw [if_pos ⟨hjr, hlive⟩] at hstatus
            exact hstatus

/-- The whole loop: it never raises, keeps row and slot, and fails a live run once it
    meets the tracked job. -/
theorem requeueEach_tracks (m : MaintenanceLoop) (now : Instant) (ids : List JobId)
    (h : Tracks id runId slot run w) :
    ∃ done run', (m.requeueEach now ids w).result = .ok done ∧
      Tracks id runId slot run' (m.requeueEach now ids w).self ∧
      (run' = run ∨ (m.orchestrator ≠ none ∧ run.isTerminal = false ∧ run'.status = .failed)) ∧
      (id ∈ ids → m.orchestrator ≠ none → run.isTerminal = false → run'.status = .failed) := by
  induction ids generalizing w run with
  | nil => exact ⟨[], run, rfl, h, .inl rfl, by simp⟩
  | cons first rest ih =>
    obtain ⟨b, mid, hresult, htracks, hmid, hself⟩ := requeue_tracks m now first h
    obtain ⟨done, last, hdone, htracks', hlast, hmem⟩ := ih htracks
    have hstep : m.requeueEach now (first :: rest) w =
        .returned (m.requeueEach now rest (m.requeue now first w).self).self
          (if b then first :: done else done) := by
      simp only [requeueEach, hresult, hdone]
    -- a failed run is terminal, so what follows leaves it as it is
    have hstays : mid.status = .failed → last.status = .failed := by
      intro hfailed
      rcases hlast with rfl | ⟨-, -, hfailed'⟩
      · exact hfailed
      · exact hfailed'
    rw [hstep]
    refine ⟨_, last, rfl, htracks', ?_, ?_⟩
    · rcases hmid with rfl | ⟨hwired, hlive, hfailed⟩
      · exact hlast
      · exact .inr ⟨hwired, hlive, hstays hfailed⟩
    · intro hin hwired hlive
      rcases List.mem_cons.mp hin with rfl | hin
      · exact hstays (hself rfl hwired hlive)
      · rcases hmid with rfl | ⟨-, -, hfailed⟩
        · exact hmem hin hwired hlive
        · exact hstays hfailed

/-! ### The sweep -/

/-- `_advance` publishes new jobs and leaves the leases alone. -/
theorem publish_leases (q : JobQueue) (jobs : List Job) : (q.publish jobs).leases = q.leases := by
  induction jobs generalizing q with
  | nil => rfl
  | cons job rest ih =>
    rw [JobQueue.publish_cons, ih]
    unfold JobQueue.enqueue
    split <;> rfl

/-- What a sweep keeps: a consistent queue with the same leases, fresh identifiers, and
    everything about the tracked job. -/
structure Swept (o : Orchestrator) (id : JobId) (runId : RunId) (slot : Slot) (run : Run)
    (leases : Dict JobId Instant) (w : World) : Prop where
  tracks : Tracks id runId slot run w
  inv : w.queue.Inv
  fresh : w.Fresh o
  leases_eq : w.queue.leases = leases

theorem advance_swept {o : Orchestrator} {leases : Dict JobId Instant} (ws : Workspaces)
    (now : Instant) (other : RunId) (h : Swept o id runId slot run leases w) :
    Swept o id runId slot run leases (o.advance ws now other w).self := by
  obtain ⟨hinv, hfresh⟩ :=
    Orchestrator.advance_keeps ws now other h.inv h.fresh
  obtain ⟨row, hrow, hqueued, hlease, hrunId⟩ := h.tracks.row
  rcases Orchestrator.advance_cases o ws now other w with
    hself | ⟨found, project, p, hadv, hp, -, hself⟩
  · rw [hself]
    exact h
  · have hs := Orchestrator.nextStep_sound hadv.live hp
    -- the tracked job is unfinished, so the run that was advanced is another one
    have hne : runId ≠ other := by
      rintro rfl
      have hfinished := hadv.finished
      have hmem : row ∈ w.db.jobsOf runId :=
        Db.mem_jobsOf.mpr ⟨Table.mem_of_find hrow, hrunId⟩
      have hany : hasUnfinished (w.db.jobsOf runId) = true :=
        List.any_eq_true.mpr ⟨row, hmem, by simp [hqueued, JobStatus.isTerminal]⟩
      rw [hany] at hfinished
      cases hfinished
    have hpid : p.run.id = other :=
      (Run.id_of_charter hs.charter).trans (Table.find_key hadv.run_row)
    rw [hself] at hinv hfresh ⊢
    refine ⟨⟨⟨row, Db.job?_store hrow, hqueued, hlease, hrunId⟩, ?_, ?_⟩, hinv, hfresh, ?_⟩
    · show (w.queue.publish _).slot id = slot
      rw [JobQueue.publish_slot_other (Orchestrator.publication_other h.fresh hs hrow)]
      exact h.tracks.slot_eq
    · have hfind : w.db.run? p.run.id = some found := by rw [hpid]; exact hadv.run_row
      show (w.db.store p now).run? runId = some run
      rw [Db.run?_store hfind, hpid, if_neg hne]
      exact h.tracks.run_row
    · show (w.queue.publish _).leases = leases
      rw [publish_leases]
      exact h.leases_eq

theorem advanceEach_swept {o : Orchestrator} {leases : Dict JobId Instant} (ws : Workspaces)
    (now : Instant) (runIds : List RunId) (h : Swept o id runId slot run leases w) :
    Swept o id runId slot run leases (o.advanceEach ws now runIds w).self := by
  induction runIds generalizing w with
  | nil => exact h
  | cons first rest ih =>
    have hfirst := advance_swept ws now first h
    simp only [Orchestrator.advanceEach]
    split
    · exact hfirst
    · exact ih hfirst

/-- The sweep of a tick does not concern a job that is still unfinished. -/
theorem sweep_tracks (ws : Workspaces) (now : Instant) (h : Tracks id runId slot run w)
    (hinv : w.queue.Inv) (hfresh : ∀ o, m.orchestrator = some o → w.Fresh o) :
    Tracks id runId slot run (m.sweep ws now w).self ∧ (m.sweep ws now w).self.queue.Inv ∧
      (m.sweep ws now w).self.queue.leases = w.queue.leases := by
  unfold sweep
  cases ho : m.orchestrator with
  | none => exact ⟨h, hinv, rfl⟩
  | some o =>
    have hswept : Swept o id runId slot run w.queue.leases w := ⟨h, hinv, hfresh o ho, rfl⟩
    have hdone := advanceEach_swept ws now
      ((w.db.activeRuns.filter fun run => run.status == .created).map Run.id) hswept
    exact ⟨hdone.tracks, hdone.inv, hdone.leases_eq⟩

/-! ### The tick -/

/-- What a tick does about one lost lease: the record is reclaimed if it is in the batch,
    the row stays queued, and a live run is failed if an orchestrator is wired. -/
theorem tick_outcome {row : Job} (ws : Workspaces) (h : LeaseLost w now id row run)
    (hinv : w.queue.Inv) (hfresh : ∀ o, m.orchestrator = some o → w.Fresh o)
    (hsweep : (m.sweep ws now w).result = .ok ()) :
    ∃ done run', (m.tick ws now (.ok ()) w).result = .ok done ∧
      Tracks id row.runId
        (if id ∈ w.queue.reclaimBatch now m.reclaimBatch then (w.queue.slot id).reclaim now
          else w.queue.slot id) run' (m.tick ws now (.ok ()) w).self ∧
      (run' = run ∨ (m.orchestrator ≠ none ∧ run.isTerminal = false ∧ run'.status = .failed)) ∧
      (id ∈ w.queue.reclaimBatch now m.reclaimBatch → m.orchestrator ≠ none →
        run.isTerminal = false → run'.status = .failed) := by
  have htracks : Tracks id row.runId (w.queue.slot id) run w :=
    ⟨⟨row, h.row_stored, h.row_queued, h.row_lease, rfl⟩, rfl, h.run_stored⟩
  obtain ⟨hswept, hinv', hleases⟩ := sweep_tracks ws now htracks hinv hfresh
  have hbatch : (m.sweep ws now w).self.queue.reclaimBatch now m.reclaimBatch =
      w.queue.reclaimBatch now m.reclaimBatch := by
    simp only [JobQueue.reclaimBatch, JobQueue.lapsed, hleases]
  obtain ⟨hresult, -, hslots⟩ := JobQueue.reclaimExpired_spec hinv' now m.reclaimBatch
  rw [hbatch] at hresult hslots
  have hreclaimed : Tracks id row.runId
      (if id ∈ w.queue.reclaimBatch now m.reclaimBatch then (w.queue.slot id).reclaim now
        else w.queue.slot id) run
      { (m.sweep ws now w).self with
        queue := ((m.sweep ws now w).self.queue.reclaimExpired now m.reclaimBatch).self } := by
    refine ⟨hswept.row, ?_, hswept.run_row⟩
    show (JobQueue.reclaimExpired _ now m.reclaimBatch).self.slot id = _
    rw [hslots, hswept.slot_eq]
  obtain ⟨done, run', hdone, hlast, hrun, hmem⟩ :=
    requeueEach_tracks m now (w.queue.reclaimBatch now m.reclaimBatch) hreclaimed
  have htick : m.tick ws now (.ok ()) w =
      m.requeueEach now (w.queue.reclaimBatch now m.reclaimBatch)
        { (m.sweep ws now w).self with
          queue := ((m.sweep ws now w).self.queue.reclaimExpired now m.reclaimBatch).self } := by
    simp only [tick, hsweep, hresult]
  rw [htick]
  exact ⟨done, run', hdone, hlast, hrun, hmem⟩

/-- A reclaimed record with attempts left is claimable again. -/
theorem reclaim_claimable {q : JobQueue} {record : Job} {lease : Lease}
    (hinv : w.queue.Inv) (hrecord : (w.queue.slot id).job = some record)
    (hlease : record.lease = some lease) (hlapsed : lease.expiresAt ≤ now)
    (hleft : record.attempt < record.maxAttempts)
    (hslot : q.slot id = (w.queue.slot id).reclaim now) : q.Claimable id := by
  have hremaining : 0 < record.attemptsRemaining := Nat.sub_pos_of_lt hleft
  obtain ⟨score, hscore⟩ := (hinv id).scored record hrecord
  obtain ⟨-, hstatus⟩ := Slot.reclaimed_spec hlease hlapsed
  rw [if_pos hremaining] at hstatus
  have htype : (Slot.reclaimed record now).type = record.type :=
    Job.type_of_work (Slot.reclaimed_work record now)
  have hjob : (q.slot id).job = some (Slot.reclaimed record now) := by
    rw [hslot]
    simp [Slot.reclaim, hrecord, hscore, hremaining, Slot.unlease, Slot.setReady]
  have hready : (q.slot id).ready record.type = some score := by
    rw [hslot]
    simp [Slot.reclaim, hrecord, hscore, hremaining, Slot.setReady]
  exact ⟨Slot.reclaimed record now, score, hjob, hstatus, by rw [htype]; exact hready⟩

/-- A record that is still held is not claimable. -/
theorem held_not_claimable {q : JobQueue} {record : Job} {lease : Lease} (hinv : w.queue.Inv)
    (hrecord : (w.queue.slot id).job = some record) (hlease : record.lease = some lease)
    (hslot : q.slot id = w.queue.slot id) : ¬ q.Claimable id := by
  rintro ⟨other, score, hother, hqueued, -⟩
  rw [hslot, hrecord, Option.some.injEq] at hother
  obtain ⟨hflight, -⟩ := hinv.of_lease hrecord hlease
  rw [hother, hqueued] at hflight
  cases hflight

/-- A tick whose sweep or reaper raises leaves before the reclaim, and the record stays
    held. -/
theorem raised_not_recovered {row : Job} {reaper : Except PyError Unit} (ws : Workspaces)
    (h : LeaseLost w now id row run) (hinv : w.queue.Inv)
    (hfresh : ∀ o, m.orchestrator = some o → w.Fresh o)
    (hraised : ¬ ((m.sweep ws now w).result = .ok () ∧ reaper = .ok ())) :
    ¬ Recovered id run (m.tick ws now reaper w).self := by
  obtain ⟨record, lease, hrecord, hlease, -, -⟩ := h.record
  have htracks : Tracks id row.runId (w.queue.slot id) run w :=
    ⟨⟨row, h.row_stored, h.row_queued, h.row_lease, rfl⟩, rfl, h.run_stored⟩
  obtain ⟨hswept, -, -⟩ := sweep_tracks ws now htracks hinv hfresh
  have hself : (m.tick ws now reaper w).self = (m.sweep ws now w).self := by
    unfold tick
    cases hsweep : (m.sweep ws now w).result with
    | error e => simp only [hsweep, Call.self_raised]
    | ok done =>
      cases reaper with
      | error e => simp only [hsweep, Call.self_raised]
      | ok done => exact absurd ⟨hsweep, rfl⟩ hraised
  intro hrec
  rw [hself] at hrec
  exact held_not_claimable hinv hrecord hlease hswept.slot_eq hrec.claimable

/-- **A tick recovers a lost lease exactly when neither its sweep nor the reaper raises,
    the record is within the reclaim batch, and there is no live run for
    `handle_dead_job` to fail.** -/
theorem tick_recovers_iff {row : Job} (ws : Workspaces) (reaper : Except PyError Unit)
    (h : LeaseLost w now id row run) (hreach : w.queue.Reachable)
    (hfresh : ∀ o, m.orchestrator = some o → w.Fresh o) :
    Recovered id run (m.tick ws now reaper w).self ↔
      (m.sweep ws now w).result = .ok () ∧ reaper = .ok () ∧
        id ∈ w.queue.reclaimBatch now m.reclaimBatch ∧
          (m.orchestrator = none ∨ run.isTerminal = true) := by
  by_cases hends : (m.sweep ws now w).result = .ok () ∧ reaper = .ok ()
  case neg =>
    refine ⟨fun hrec => absurd hrec (raised_not_recovered ws h hreach.inv hfresh hends), ?_⟩
    rintro ⟨hsweep, hreaper, -⟩
    exact absurd ⟨hsweep, hreaper⟩ hends
  obtain ⟨hsweep, rfl⟩ := hends
  obtain ⟨record, lease, hrecord, hlease, hlapsed, hleft⟩ := h.record
  obtain ⟨done, run', -, htracks, hrun, hmem⟩ := tick_outcome ws h hreach.inv hfresh hsweep
  have hid : run.id = row.runId := Table.find_key h.run_stored
  constructor
  · intro hrec
    have hin : id ∈ w.queue.reclaimBatch now m.reclaimBatch := by
      by_contra hout
      have hslot := htracks.slot_eq
      rw [if_neg hout] at hslot
      exact held_not_claimable hreach.inv hrecord hlease hslot hrec.claimable
    refine ⟨hsweep, rfl, hin, ?_⟩
    by_contra hnot
    rw [not_or] at hnot
    have hlive : run.isTerminal = false := by simpa using hnot.2
    have hfailed := hmem hin hnot.1 hlive
    have hkept := hrec.run_kept run' (by rw [hid]; exact htracks.run_row) hfailed
    simp [Run.isTerminal, hkept, RunStatus.isTerminal] at hlive
  · rintro ⟨-, -, hin, hcond⟩
    have hslot := htracks.slot_eq
    rw [if_pos hin] at hslot
    obtain ⟨row', hrow', hqueued, -, -⟩ := htracks.row
    refine ⟨⟨row', hrow', hqueued⟩,
      reclaim_claimable hreach.inv hrecord hlease hlapsed hleft hslot, fun after hafter hfailed => ?_⟩
    rw [hid, htracks.run_row, Option.some.injEq] at hafter
    subst hafter
    rcases hrun with rfl | ⟨hwired, hlive, -⟩
    · exact hfailed
    · rcases hcond with hnone | hterminal
      · exact absurd hnone hwired
      · rw [hlive] at hterminal
        cases hterminal

/-- The lease of the sample job lapses at its expiry, on the first of three attempts. -/
theorem leaseLost_sample :
    LeaseLost (Sample.claimedWorld 3 (by decide)) 120000010 ⟨7⟩
      (Sample.publishedJob 3 (by decide)) Sample.codingRun where
  row_stored := rfl
  row_queued := rfl
  row_lease := rfl
  record := ⟨(Sample.heldJob 3 (by decide)).rebuild, Sample.heldLease, rfl, rfl, by decide, by decide⟩
  run_stored := rfl

/-- Without an orchestrator the lease is recovered. -/
theorem tick_recovers_iff_sample :
    Recovered ⟨7⟩ Sample.codingRun
      ((⟨none, 100⟩ : MaintenanceLoop).tick .calm 120000010 (.ok ())
        (Sample.claimedWorld 3 (by decide))).self :=
  (tick_recovers_iff .calm (.ok ()) leaseLost_sample (Sample.claimed_reachable 3 (by decide))
    (fun _ h => by cases h)).mpr ⟨rfl, rfl, by decide, .inl rfl⟩

theorem claimedWorld_fresh :
    (Sample.claimedWorld 3 (by decide)).Fresh (Sample.orchestrator 3 (by decide)) := by
  have hne : ∀ n, 8 ≤ n → (⟨n⟩ : JobId) ≠ ⟨7⟩ := by
    intro n hn heq
    have := congrArg EntityId.value heq
    simp only at this
    omega
  refine ⟨fun n hn => ?_, fun n hn => ?_, fun n hn => rfl⟩
  · show List.dlookup (⟨n⟩ : JobId) ([⟨⟨7⟩, (Sample.heldJob 3 (by decide)).rebuild⟩] :
      List (Sigma fun _ : JobId => Job)) = none
    rw [List.dlookup_cons_ne _ _ (hne n hn), List.dlookup_nil]
  · show Table.find Job.id [Sample.publishedJob 3 (by decide)] ⟨n⟩ = none
    rw [Table.find_eq_none]
    intro row hrow
    rw [List.mem_singleton.mp hrow]
    exact (hne n hn).symm

/-- With the container's wiring a lease lost on the first of three attempts fails the run. -/
theorem tick_does_not_recover :
    LeaseLost (Sample.claimedWorld 3 (by decide)) 120000010 ⟨7⟩
        (Sample.publishedJob 3 (by decide)) Sample.codingRun ∧
      (Sample.claimedWorld 3 (by decide)).queue.Reachable ∧
      ¬ Recovered ⟨7⟩ Sample.codingRun
        ((⟨some (Sample.orchestrator 3 (by decide)), 100⟩ : MaintenanceLoop).tick .calm 120000010
          (.ok ()) (Sample.claimedWorld 3 (by decide))).self := by
  have hreach := Sample.claimed_reachable 3 (by decide)
  refine ⟨leaseLost_sample, hreach, fun hrec => ?_⟩
  have hfresh : ∀ o, some (Sample.orchestrator 3 (by decide)) = some o →
      (Sample.claimedWorld 3 (by decide)).Fresh o := by
    rintro o ho
    cases ho
    exact claimedWorld_fresh
  obtain ⟨done, run', -, htracks, -, hmem⟩ :=
    tick_outcome (m := ⟨some (Sample.orchestrator 3 (by decide)), 100⟩) .calm leaseLost_sample
      hreach.inv hfresh rfl
  have hfailed := hmem (by decide) (by simp) rfl
  cases hrec.run_kept run' htracks.run_row hfailed

end MaintenanceLoop

end AgenticPlatform
