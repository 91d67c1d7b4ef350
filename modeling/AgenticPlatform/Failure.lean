import AgenticPlatform.AdvanceEffects
import AgenticPlatform.Execute

/-!
# Failure handling

`_handle_failure` asks two budgets about the same attempt: the retry policy's when it
decides what to do, and the job's own when `Job.fail` records the failure. This module
says what a failure report leaves behind in the tables, in the queue and in the run,
and when the two budgets give one answer.
-/

namespace AgenticPlatform

/-- The queue would hand the job out: its record is queued and ready under its type. -/
def JobQueue.Claimable (q : JobQueue) (id : JobId) : Prop :=
  ∃ record score, (q.slot id).job = some record ∧ record.status = .queued ∧
    (q.slot id).ready record.type = some score

namespace JobQueue

variable {q : JobQueue}

theorem claimable_iff (h : q.Inv) {id : JobId} :
    q.Claimable id ↔ ∃ record, (q.slot id).job = some record ∧ record.status = .queued := by
  constructor
  · rintro ⟨record, score, hj, hs, -⟩
    exact ⟨record, hj, hs⟩
  · rintro ⟨record, hj, hs⟩
    obtain ⟨score, hscore⟩ := (h id).scored record hj
    refine ⟨record, score, hj, hs, ?_⟩
    rw [(h id).ready record hj, if_pos ⟨rfl, hs⟩, hscore]

end JobQueue

/-- No exception is classified as a defect of the produced code. -/
theorem classify_not_codeDefect (e : PyError) : (classify e).isCodeDefect = false := by
  cases e <;> rfl

/-- What it means that `job`, with its lease, is held: the queue still knows the token,
    the holder's copy is in flight within its budget, and the job and its run are stored. -/
structure World.Holds (w : World) (job : Job) (lease : Lease) (run : Run) : Prop where
  queue_inv : w.queue.Inv
  record : ∃ record held, (w.queue.slot job.id).job = some record ∧ record.lease = some held ∧
    held.token = lease.token ∧ record.type = job.type ∧ record.runId = job.runId
  in_flight : job.status.isInFlight = true
  within_budget : job.attempt ≤ job.maxAttempts
  row : ∃ row, w.db.job? job.id = some row
  run_row : w.db.run? job.runId = some run

namespace Orchestrator

variable {o : Orchestrator} {w : World} {job : Job} {lease : Lease} {run : Run}

/-- What the first transaction of a failure report stores: the failed job, and a live
    run as failed exactly when the job is not to be retried. -/
structure FailureRecorded (db db' : Db) (failed : Job) (run run' : Run) (retryable : Bool) :
    Prop where
  jobs : db'.jobs = (db.setJob failed).jobs
  candidates : db'.candidates = db.candidates
  projects : db'.projects = db.projects
  run_row : db'.run? run.id = some run'
  charter : run'.charter = run.charter
  status : run'.status = if retryable = false ∧ run.isTerminal = false then .failed else run.status
  retried : retryable = true → run' = run

theorem recordFailure_spec {db : Db} {row : Job} (hrow : db.job? job.id = some row)
    (hrun : db.run? job.runId = some run) (now : Instant) (e : PyError) (retryable : Bool) :
    ∃ db' run', recordFailure now job e retryable db = .ok db' ∧
      FailureRecorded db db' (job.fail none now (classify e) e.str (some retryable)).self run run'
        retryable := by
  have hid : (job.fail none now (classify e) e.str (some retryable)).self.id = job.id :=
    Job.id_of_work (Job.fail_work _ _ _ _ _ _)
  have hrow' : db.job? (job.fail none now (classify e) e.str (some retryable)).self.id =
      some row := by rw [hid]; exact hrow
  have hrid : run.id = job.runId := Table.find_key hrun
  unfold recordFailure
  simp only [hrun, Db.updateJob_of_some hrow', classify_not_codeDefect, and_true, ok_bind]
  by_cases hfail : retryable = false ∧ run.isTerminal = false
  · obtain ⟨failed, hfailed, hstatus, hcharter⟩ :=
      Run.fail_of_live hfail.2 now (classify e) e.str
    have hfid := Run.id_of_charter hcharter
    have hset : (db.setJob (job.fail none now (classify e) e.str (some retryable)).self).run?
        failed.id = some run := by
      rw [Db.run?_setJob, hfid, hrid]
      exact hrun
    rw [if_pos hfail, hfailed]
    refine ⟨_, failed.stored, rfl, rfl, rfl, rfl, ?_, hcharter, ?_, fun hretry => ?_⟩
    · rw [Db.run?_append, Db.run?_setRun hset, if_pos hfid.symm]
    · rw [if_pos hfail]
      exact hstatus
    · rw [hfail.1] at hretry
      cases hretry
  · rw [if_neg hfail]
    refine ⟨_, run, rfl, rfl, rfl, rfl, ?_, rfl, (if_neg hfail).symm, fun _ => rfl⟩
    rw [Db.run?_append, Db.run?_setJob, hrid]
    exact hrun

/-- The row a failure report stores first. -/
theorem FailureRecorded.row {db db' : Db} {run' : Run} {old : Job} {now : Instant} {e : PyError}
    {retryable : Bool}
    (h : FailureRecorded db db' (job.fail none now (classify e) e.str (some retryable)).self run run'
      retryable) (hrow : db.job? job.id = some old) :
    db'.job? job.id = some (job.fail none now (classify e) e.str (some retryable)).self.stored := by
  have hid : (job.fail none now (classify e) e.str (some retryable)).self.id = job.id :=
    Job.id_of_work (Job.fail_work _ _ _ _ _ _)
  have hold : db.job? (job.fail none now (classify e) e.str (some retryable)).self.id = some old := by
    rw [hid]
    exact hrow
  have hset := Db.job?_setJob hold job.id
  rw [hid, if_pos rfl] at hset
  unfold Db.job?
  rw [h.jobs]
  exact hset

/-- What `release` leaves in the slot of a held job. -/
theorem release_held (h : w.Holds job lease run) (requeue : Bool) :
    (w.queue.release job.id lease.token requeue).result = .ok () ∧
      (w.queue.release job.id lease.token requeue).self.Inv ∧
      ∃ record, ((w.queue.release job.id lease.token requeue).self.slot job.id).job = some record ∧
        record.status = (if requeue then .queued else .pending) ∧
        record.type = job.type ∧ record.runId = job.runId := by
  obtain ⟨record, held, hrecord, hheld, htoken, htype, hrunId⟩ := h.record
  obtain ⟨hresult, hreleased, -⟩ := JobQueue.release_held h.queue_inv hrecord hheld htoken requeue
  exact ⟨hresult, JobQueue.release_inv h.queue_inv job.id lease.token requeue,
    Slot.released record requeue, hreleased, rfl, htype, hrunId⟩

/-- Enqueuing a job whose record waits in the queue keeps it claimable. -/
theorem enqueue_waiting {q : JobQueue} {id : JobId} {record stored : Job} (hinv : q.Inv)
    (hid : stored.id = id) (hrecord : (q.slot id).job = some record)
    (hwaiting : record.status = .queued) (hlease : stored.lease = none)
    (htype : record.type = stored.type) (hrunId : record.runId = stored.runId) :
    (q.enqueue stored).Claimable id := by
  subst hid
  have hpub : (q.slot stored.id).Publishable stored := by
    refine ⟨hlease, fun other hother => ?_⟩
    obtain rfl : record = other := Option.some.inj (hrecord.symm.trans hother)
    exact ⟨htype, hrunId⟩
  rw [JobQueue.claimable_iff (JobQueue.enqueue_inv hinv hpub)]
  have hfree := (hinv stored.id).not_acknowledged hrecord (by rw [hwaiting]; rfl)
  have hrefuses : (q.slot stored.id).refuses = false := by
    simp [Slot.refuses, hrecord, hwaiting, hfree, JobStatus.isInFlight]
  refine ⟨{ stored.rebuild with status := .queued }, ?_, rfl⟩
  rw [JobQueue.slot_enqueue, if_pos rfl]
  simp [Slot.enqueue, hrefuses]

/-- The second transaction queues a failed row and leaves any other alone. -/
theorem requeueFailed_row {id : JobId} {stored : Job} (hid : stored.id = id)
    (hrow : w.db.job? id = some stored) (now : Instant) (reason : String) :
    ∃ row, (requeueFailed now id reason w).self.db.job? id = some row ∧
      (row = stored ∨ (stored.status = .failed ∧ row.status = .queued)) := by
  simp only [requeueFailed, hrow]
  cases hresult : (stored.requeue now reason).result with
  | error error => exact ⟨stored, hrow, .inl rfl⟩
  | ok u =>
    obtain ⟨hqueued, -⟩ := Job.requeue_self now reason hresult
    have hid' : (stored.requeue now reason).self.id = id :=
      (Job.id_of_work (Job.requeue_work stored now reason)).trans hid
    have hset : w.db.job? (stored.requeue now reason).self.id = some stored := by
      rw [hid']
      exact hrow
    refine ⟨(stored.requeue now reason).self.stored, ?_,
      .inr ⟨((Job.requeue_result _ _ _).mp hresult).1, hqueued⟩⟩
    simp only [Call.self_returned, Db.job?_append]
    rw [Db.job?_setJob hset, if_pos hid'.symm]

/-- The second transaction puts a retryable row back, in the table and in the queue. -/
theorem requeueFailed_spec {id : JobId} {stored record : Job} (hinv : w.queue.Inv)
    (hid : stored.id = id) (hrow : w.db.job? id = some stored) (hstatus : stored.status = .failed)
    (hleft : 0 < stored.attemptsRemaining) (hrecord : (w.queue.slot id).job = some record)
    (hwaiting : record.status = .queued) (htype : record.type = stored.type)
    (hrunId : record.runId = stored.runId) (now : Instant) (reason : String) :
    (requeueFailed now id reason w).result = .ok () ∧
      (requeueFailed now id reason w).self.queue.Claimable id ∧
      ∃ row, (requeueFailed now id reason w).self.db.job? id = some row ∧
        row.status = .queued := by
  have hrequeue := (Job.requeue_result stored now reason).mpr ⟨hstatus, hleft⟩
  obtain ⟨hqueued, hnolease⟩ := Job.requeue_self now reason hrequeue
  have hwork : (stored.requeue now reason).self.work = stored.work := Job.requeue_work _ _ _
  have hid' : (stored.requeue now reason).self.id = id := (Job.id_of_work hwork).trans hid
  simp only [requeueFailed, hrow, hrequeue, Call.result_returned, Call.self_returned, true_and]
  refine ⟨?_, (stored.requeue now reason).self.stored, ?_, hqueued⟩
  · exact enqueue_waiting hinv hid' hrecord hwaiting hnolease
      (htype.trans (Job.type_of_work hwork).symm) (hrunId.trans (Job.runId_of_work hwork).symm)
  · have hset : w.db.job? (stored.requeue now reason).self.id = some stored := by
      rw [hid']
      exact hrow
    rw [Db.job?_append, Db.job?_setJob hset, if_pos hid'.symm]

end Orchestrator

/-! ### The outcome of a failure report -/

/-- What a failure report has to leave behind. -/
structure FailureClosed (job : Job) (kind : FailureKind) (call : Call World Unit) : Prop where
  returns : call.result = .ok ()
  settled : ∃ row, call.self.db.job? job.id = some row ∧
    (row.status = .queued ∨ row.status = .dead)
  agrees : call.self.queue.Claimable job.id ↔
    ∃ row, call.self.db.job? job.id = some row ∧ row.status = .queued
  run_failed : kind.isCodeDefect = false →
    (∃ row, call.self.db.job? job.id = some row ∧ row.status = .dead) →
    ∃ run, call.self.db.run? job.runId = some run ∧ run.status = .failed

namespace Orchestrator

variable {o : Orchestrator} {w : World} {job : Job} {lease : Lease} {run : Run}
  (ws : Workspaces) (now : Instant) {e : PyError}

theorem not_terminal_of_inFlight {status : JobStatus} (h : status.isInFlight = true) :
    status.isTerminal = false := by
  cases status <;> first | rfl | cases h

/-- Both budgets allow another attempt: the job is queued in the table and in the queue. -/
theorem handleFailure_retried (h : w.Holds job lease run)
    (hretry : (o.retry.decide (classify e) job.attempt).shouldRetryJob = true)
    (hleft : job.attempt < job.maxAttempts) :
    FailureClosed job (classify e) (o.handleFailure ws now job lease e w) := by
  obtain ⟨row, hrow⟩ := h.row
  obtain ⟨db, run', hdb, hrecorded⟩ := recordFailure_spec hrow h.run_row now e true
  have hjob := hrecorded.row hrow
  obtain ⟨hreleased, hinv, record, hrecord, hwaiting, htype, hrunId⟩ := release_held h true
  have hlive := not_terminal_of_inFlight h.in_flight
  have hremaining : 0 < job.attemptsRemaining := Nat.sub_pos_of_lt hleft
  have hwork : (job.fail none now (classify e) e.str (some true)).self.stored.work = job.work :=
    Job.fail_work job none now (classify e) e.str (some true)
  have hstatus := Job.fail_status hlive now (classify e) e.str true
  rw [if_pos ⟨rfl, hremaining⟩] at hstatus
  have hattempts :
      0 < (job.fail none now (classify e) e.str (some true)).self.stored.attemptsRemaining := by
    have hattempt := Job.fail_attempt job none now (classify e) e.str (some true)
    have hmax := Job.maxAttempts_of_work (Job.fail_work job none now (classify e) e.str (some true))
    simp only [Job.attemptsRemaining, Job.stored]
    omega
  have hcall : o.handleFailure ws now job lease e w = requeueFailed now job.id
      (o.retry.decide (classify e) job.attempt).reason
      { w with db := db, queue := (w.queue.release job.id lease.token true).self } := by
    simp only [handleFailure, hretry, hdb, hreleased, if_true]
  obtain ⟨hresult, hclaim, row', hrow', hqueued⟩ :=
    requeueFailed_spec (w := { w with
        db := db, queue := (w.queue.release job.id lease.token true).self })
      hinv (Job.id_of_work hwork) hjob hstatus hattempts hrecord hwaiting
      (htype.trans (Job.type_of_work hwork).symm) (hrunId.trans (Job.runId_of_work hwork).symm)
      now (o.retry.decide (classify e) job.attempt).reason
  rw [hcall]
  refine ⟨hresult, ⟨row', hrow', .inl hqueued⟩, ⟨fun _ => ⟨row', hrow', hqueued⟩, fun _ => hclaim⟩,
    fun _ hdead => ?_⟩
  obtain ⟨dead, hdead, hstatus⟩ := hdead
  rw [hrow', Option.some.injEq] at hdead
  rw [← hdead, hqueued] at hstatus
  cases hstatus

/-- The policy asks for another attempt the job does not have: the row is dead, the
    record is claimable again, and the report raises. -/
theorem handleFailure_overrun (h : w.Holds job lease run)
    (hretry : (o.retry.decide (classify e) job.attempt).shouldRetryJob = true)
    (hnone : ¬ job.attempt < job.maxAttempts) :
    ∃ error, (o.handleFailure ws now job lease e w).result = .error error := by
  obtain ⟨row, hrow⟩ := h.row
  obtain ⟨db, run', hdb, hrecorded⟩ := recordFailure_spec hrow h.run_row now e true
  have hjob := hrecorded.row hrow
  obtain ⟨hreleased, -, -⟩ := release_held h true
  have hlive := not_terminal_of_inFlight h.in_flight
  have hremaining : ¬ 0 < job.attemptsRemaining := by
    unfold Job.attemptsRemaining
    omega
  have hstatus := Job.fail_status hlive now (classify e) e.str true
  rw [if_neg (fun hc => hremaining hc.2)] at hstatus
  simp only [handleFailure, hretry, hdb, hreleased, if_true, requeueFailed, hjob]
  cases hresult : ((job.fail none now (classify e) e.str (some true)).self.stored.requeue now
      (o.retry.decide (classify e) job.attempt).reason).result with
  | error error => exact ⟨error, by simp only [Call.result_raised]⟩
  | ok u =>
    have hfailed : (job.fail none now (classify e) e.str (some true)).self.status = .failed :=
      ((Job.requeue_result _ _ _).mp hresult).1
    rw [hstatus] at hfailed
    cases hfailed

/-- A terminal run is not advanced. -/
theorem advance_of_terminal {runId : RunId} (hrun : w.db.run? runId = some run)
    (ht : run.isTerminal = true) : o.advance ws now runId w = .returned w () := by
  simp [advance, advanceCommit, hrun, ht, JobQueue.publish]

/-- No further attempt: the job is dead, its record is parked and a live run is failed. -/
theorem handleFailure_final (h : w.Holds job lease run)
    (hfinal : (o.retry.decide (classify e) job.attempt).shouldRetryJob = false) :
    (o.handleFailure ws now job lease e w).result = .ok () ∧
      ¬ (o.handleFailure ws now job lease e w).self.queue.Claimable job.id ∧
      (∃ row, (o.handleFailure ws now job lease e w).self.db.job? job.id = some row ∧
        row.status = .dead) ∧
      ∃ run', (o.handleFailure ws now job lease e w).self.db.run? job.runId = some run' ∧
        run'.status = if run.isTerminal = false then .failed else run.status := by
  obtain ⟨row, hrow⟩ := h.row
  obtain ⟨db, run', hdb, hrecorded⟩ := recordFailure_spec hrow h.run_row now e false
  have hjob := hrecorded.row hrow
  have hrun' : db.run? job.runId = some run' := by
    rw [← show run.id = job.runId from Table.find_key h.run_row]
    exact hrecorded.run_row
  have hstatus' := hrecorded.status
  obtain ⟨hreleased, hinv, record, hrecord, hparked, -, -⟩ := release_held h false
  have hlive := not_terminal_of_inFlight h.in_flight
  have hdead := Job.fail_status hlive now (classify e) e.str false
  simp only [true_and] at hstatus'
  have hterminal : run'.isTerminal = true := by
    by_cases ht : run.isTerminal = false
    · rw [if_pos ht] at hstatus'
      simp [Run.isTerminal, hstatus', RunStatus.isTerminal]
    · rw [if_neg ht] at hstatus'
      simpa [Run.isTerminal, hstatus'] using ht
  have hcall : o.handleFailure ws now job lease e w =
      .returned { w with db := db, queue := (w.queue.release job.id lease.token false).self } () := by
    have hadvance : o.advance ws now job.runId { w with
        db := db, queue := (w.queue.release job.id lease.token false).self } = .returned _ () :=
      advance_of_terminal ws now hrun' hterminal
    simp only [handleFailure, hfinal, hdb, hreleased, Bool.false_eq_true, if_false, hadvance]
  rw [hcall]
  refine ⟨rfl, ?_, ⟨_, hjob, by simpa [Job.stored] using hdead⟩, run', hrun', hstatus'⟩
  intro hclaim
  obtain ⟨other, hother, hqueued⟩ := (JobQueue.claimable_iff hinv).mp hclaim
  rw [hrecord, Option.some.injEq] at hother
  rw [← hother, hparked] at hqueued
  cases hqueued

/-- The holder's copy once `_handle_failure` recorded the failure on it. -/
def failedCopy (o : Orchestrator) (now : Instant) (job : Job) (e : PyError) : Job :=
  (job.fail none now (classify e) e.str
    (some (o.retry.decide (classify e) job.attempt).shouldRetryJob)).self

/-- The row a failure report leaves: the holder's copy, queued again if it was retryable. -/
theorem handleFailure_row (lease : Lease) {row : Job} (hinv : w.queue.Inv)
    (hrow : w.db.job? job.id = some row) (hrun : w.db.run? job.runId = some run) (e : PyError) :
    ∃ row', (o.handleFailure ws now job lease e w).self.db.job? job.id = some row' ∧
      (row' = (o.failedCopy now job e).stored ∨
        ((o.failedCopy now job e).status = .failed ∧ row'.status = .queued)) := by
  obtain ⟨db, run', hdb, hrecorded⟩ := recordFailure_spec hrow hrun now e
    (o.retry.decide (classify e) job.attempt).shouldRetryJob
  have hjob := hrecorded.row hrow
  obtain ⟨hreleased, -⟩ := JobQueue.release_cases hinv.coherent job.id lease.token
    (o.retry.decide (classify e) job.attempt).shouldRetryJob
  have hid : (o.failedCopy now job e).stored.id = job.id :=
    Job.id_of_work (Job.fail_work _ _ _ _ _ _)
  simp only [handleFailure, hdb, hreleased]
  split
  · exact requeueFailed_row (w := { w with
        db := db
        queue := (w.queue.release job.id lease.token
          (o.retry.decide (classify e) job.attempt).shouldRetryJob).self }) hid hjob now
      (o.retry.decide (classify e) job.attempt).reason
  · exact ⟨_, advance_job? ws now job.runId hjob, .inl rfl⟩

/-- A failure report on a job that was still open never makes it a success. -/
theorem handleFailure_open (lease : Lease) {row : Job} (hinv : w.queue.Inv)
    (hopen : job.status.isTerminal = false) (hrow : w.db.job? job.id = some row)
    (hrun : w.db.run? job.runId = some run) (e : PyError) :
    ∃ row', (o.handleFailure ws now job lease e w).self.db.job? job.id = some row' ∧
      row'.status ≠ .succeeded := by
  obtain ⟨row', hrow', hcases⟩ := handleFailure_row ws now lease hinv hrow hrun e
  refine ⟨row', hrow', ?_⟩
  rcases hcases with rfl | ⟨-, hqueued⟩
  · simp only [Job.stored, failedCopy, Job.fail_status hopen]
    split <;> simp
  · simp [hqueued]

/-- A failure report on a holder's copy that is already terminal stores that copy. -/
theorem handleFailure_terminal (lease : Lease) {row : Job} (hinv : w.queue.Inv)
    (hdone : job.status.isTerminal = true) (hrow : w.db.job? job.id = some row)
    (hrun : w.db.run? job.runId = some run) (e : PyError) :
    (o.handleFailure ws now job lease e w).self.db.job? job.id = some job.stored := by
  have hcopy : o.failedCopy now job e = job := Job.fail_self_of_terminal hdone _ _ _ _ _
  obtain ⟨row', hrow', hcases⟩ := handleFailure_row ws now lease hinv hrow hrun e
  rw [hcopy] at hcases
  rcases hcases with rfl | ⟨hfailed, -⟩
  · exact hrow'
  · rw [hfailed] at hdone
    cases hdone

/-- **A failure report closes every case exactly when the two budgets agree and the run
    was not already finished otherwise.** -/
theorem handleFailure_closed_iff (h : w.Holds job lease run) :
    FailureClosed job (classify e) (o.handleFailure ws now job lease e w) ↔
      ((o.retry.decide (classify e) job.attempt).shouldRetryJob = true →
        job.attempt < job.maxAttempts) ∧
      ((o.retry.decide (classify e) job.attempt).shouldRetryJob = false →
        run.isTerminal = false ∨ run.status = .failed) := by
  cases hd : (o.retry.decide (classify e) job.attempt).shouldRetryJob with
  | true =>
    by_cases hleft : job.attempt < job.maxAttempts
    · exact ⟨fun _ => ⟨fun _ => hleft, fun hc => by cases hc⟩,
        fun _ => handleFailure_retried ws now h hd hleft⟩
    · constructor
      · intro hclosed
        obtain ⟨error, herror⟩ := handleFailure_overrun ws now h hd hleft
        rw [hclosed.returns] at herror
        cases herror
      · intro hcond
        exact absurd (hcond.1 rfl) hleft
  | false =>
    obtain ⟨hresult, hparked, ⟨row, hrow, hdead⟩, run', hrun', hstatus⟩ :=
      handleFailure_final ws now h hd
    constructor
    · intro hclosed
      refine ⟨fun hc => (by cases hc), fun _ => ?_⟩
      obtain ⟨failed, hfailed, hfstatus⟩ :=
        hclosed.run_failed (classify_not_codeDefect e) ⟨row, hrow, hdead⟩
      rw [hrun', Option.some.injEq] at hfailed
      rw [← hfailed, hstatus] at hfstatus
      by_cases ht : run.isTerminal = false
      · exact .inl ht
      · exact .inr (by simpa [ht] using hfstatus)
    · intro hcond
      refine ⟨hresult, ⟨row, hrow, .inr hdead⟩, ⟨fun hc => absurd hc hparked, ?_⟩,
        fun _ _ => ⟨run', hrun', ?_⟩⟩
      · rintro ⟨other, hother, hqueued⟩
        rw [hrow, Option.some.injEq] at hother
        rw [← hother, hdead] at hqueued
        cases hqueued
      · rw [hstatus]
        split
        · rfl
        · rename_i ht
          exact (hcond.2 rfl).resolve_left ht

end Orchestrator

namespace Sample

def consumer : WorkerId := ⟨9⟩

def token : LeaseToken := ⟨"lease-1", first_lease_named⟩

/-- A stored coding run with one published code job of the given budget. -/
def publishedJob (maxAttempts : Nat) (h : 1 ≤ maxAttempts) : Job :=
  (((orchestrator maxAttempts h).codeJob 7 (run 1 count_one count_three) ⟨5⟩ .normal 0).persisted
    0).stored

def codingRun : Run := { run 1 count_one count_three with status := .coding, events := [] }

/-- The queue after the job was claimed for two minutes. -/
def claimed (maxAttempts : Nat) (h : 1 ≤ maxAttempts) : Call JobQueue (Option (Job × Lease)) :=
  (JobQueue.empty.enqueue (publishedJob maxAttempts h)).claim consumer [.code] 120000000 10 token

/-- The holder's copy of the claimed job. -/
def heldJob (maxAttempts : Nat) (h : 1 ≤ maxAttempts) : Job :=
  ((publishedJob maxAttempts h).rebuild.leaseTo consumer 10 120000000 token).self

def heldLease : Lease := ⟨⟨7⟩, consumer, token, 10, 120000010, by decide⟩

def claimedWorld (maxAttempts : Nat) (h : 1 ≤ maxAttempts) : World :=
  let w := World.fresh (project {}) codingRun
  { w with
    db := { w.db with jobs := [publishedJob maxAttempts h] }
    queue := (claimed maxAttempts h).self
    issued := 8 }

theorem claimed_reachable (maxAttempts : Nat) (h : 1 ≤ maxAttempts) :
    (claimed maxAttempts h).self.Reachable := by
  have hpub : (JobQueue.empty.slot (publishedJob maxAttempts h).id).Publishable
      (publishedJob maxAttempts h) := by
    rw [JobQueue.slot_empty]
    exact ⟨rfl, by simp⟩
  exact .claim consumer [.code] 10 token (.enqueue _ .empty hpub) (by decide)

/-- A claimed job is held in the sense of `World.Holds`. -/
theorem claimedWorld_holds (maxAttempts : Nat) (h : 1 ≤ maxAttempts) :
    (claimedWorld maxAttempts h).Holds (heldJob maxAttempts h) heldLease codingRun where
  queue_inv := (claimed_reachable maxAttempts h).inv
  record := ⟨(heldJob maxAttempts h).rebuild, heldLease, rfl, rfl, rfl, rfl, rfl⟩
  in_flight := rfl
  within_budget := h
  row := ⟨publishedJob maxAttempts h, rfl⟩
  run_row := rfl

end Sample

namespace Orchestrator

/-- With the default budgets a first inference failure is closed. -/
theorem handleFailure_closed_iff_sample :
    FailureClosed (Sample.heldJob 3 (by decide)) (classify (.inference "connection reset"))
      ((Sample.orchestrator 3 (by decide)).handleFailure .calm 20 (Sample.heldJob 3 (by decide))
        Sample.heldLease (.inference "connection reset") (Sample.claimedWorld 3 (by decide))) :=
  (handleFailure_closed_iff .calm 20 (Sample.claimedWorld_holds 3 (by decide))).mpr
    ⟨fun _ => by decide, fun h => absurd h (by decide)⟩

/-- With one attempt per job the policy still asks for a retry, and the report raises. -/
theorem handleFailure_not_closed :
    (Sample.claimedWorld 1 (by decide)).Holds (Sample.heldJob 1 (by decide)) Sample.heldLease
        Sample.codingRun ∧
      ¬ FailureClosed (Sample.heldJob 1 (by decide)) (classify (.inference "connection reset"))
        ((Sample.orchestrator 1 (by decide)).handleFailure .calm 20 (Sample.heldJob 1 (by decide))
          Sample.heldLease (.inference "connection reset") (Sample.claimedWorld 1 (by decide))) := by
  have hholds := Sample.claimedWorld_holds 1 (by decide)
  refine ⟨hholds, fun hclosed => ?_⟩
  have hretry : ((Sample.orchestrator 1 (by decide)).retry.decide
      (classify (.inference "connection reset"))
      (Sample.heldJob 1 (by decide)).attempt).shouldRetryJob = true := by decide
  obtain ⟨error, herror⟩ := handleFailure_overrun .calm 20 hholds hretry (by decide)
  rw [hclosed.returns] at herror
  cases herror

end Orchestrator

end AgenticPlatform
