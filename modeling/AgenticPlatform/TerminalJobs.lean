import AgenticPlatform.Interleaving
import AgenticPlatform.StageEffects

/-!
# Terminal job rows

Once a job's row is SUCCEEDED, DEAD or CANCELLED, nothing should change it. A holder
overwrites the row with its own copy, whatever happened to the job in the meantime, so
this is not so for every interleaving. It is so when nobody writes who has lost the job:
the invariant is that while the queue stores a holder's token, the row is still open,
or the run was cancelled, or the row says what the holder's copy says.
-/

namespace AgenticPlatform

/-- The run was cancelled. -/
def Db.RunCancelled (db : Db) (runId : RunId) : Prop :=
  ∃ run, db.run? runId = some run ∧ run.status = .cancelled

/-! ### A cancelled run stays cancelled -/

namespace Db

variable {db db' : Db} {runId : RunId}

theorem RunCancelled.of_run? (h : db.RunCancelled runId) (heq : db'.run? runId = db.run? runId) :
    db'.RunCancelled runId := by
  obtain ⟨run, hrun, hstatus⟩ := h
  exact ⟨run, heq.trans hrun, hstatus⟩

/-- Overwriting a run row with one of the same status. -/
theorem RunCancelled.setRun (h : db.RunCancelled runId) {old new : Run}
    (hrow : db.run? new.id = some old)
    (hstatus : old.status = .cancelled → new.status = .cancelled) :
    (db.setRun new).RunCancelled runId := by
  obtain ⟨run, hrun, hcancelled⟩ := h
  unfold RunCancelled
  rw [Db.run?_setRun hrow]
  split
  · rename_i hid
    subst hid
    rw [hrow, Option.some.injEq] at hrun
    subst hrun
    exact ⟨new.stored, rfl, hstatus hcancelled⟩
  · exact ⟨run, hrun, hcancelled⟩

/-- Overwriting the row of another run. -/
theorem RunCancelled.setRun_other (h : db.RunCancelled runId) {new : Run} (hne : new.id ≠ runId) :
    (db.setRun new).RunCancelled runId :=
  h.of_run? (Table.find_put_ne db.runs new.stored hne.symm)

end Db

theorem isTerminal_of_cancelled {run : Run} (h : run.status = .cancelled) : run.isTerminal = true := by
  simp [Run.isTerminal, h, RunStatus.isTerminal]

namespace Orchestrator

variable {o : Orchestrator} {a : Answers} {job : Job} {w : World} {effect : Effect}
  {runId : RunId}

/-- A stage pays into the run of its job, or moves it on. -/
theorem stageEffect_runId (heffect : o.stageEffect a job w = .ok effect) {run : Run}
    (hrun : effect.run = some run) : run.id = job.runId := by
  have hrow : ∀ run, w.db.run? job.runId = some run → run.id = job.runId := fun run hrun =>
    Table.find_key hrun
  rcases stageEffect_ok heffect with ⟨-, old, run', outcome, hp⟩ |
    ⟨-, old, row, changed, outcome, hp⟩ | ⟨stage, -, old, project, row, changed, results, hp⟩ |
    ⟨-, old, row, outcome, hp⟩
  · rw [hp.run_eq, Option.some.injEq] at hrun
    subst hrun
    exact (Run.id_of_charter hp.charter).trans (hrow old hp.run_row)
  · rw [hp.run_eq, Option.some.injEq] at hrun
    subst hrun
    exact hrow old hp.run_row
  · rw [hp.run_eq] at hrun
    cases hrun
  · rw [hp.run_eq, Option.some.injEq] at hrun
    subst hrun
    exact hrow old hp.run_row

theorem stageEffect_grows (heffect : o.stageEffect a job w = .ok effect) :
    w.issued ≤ effect.issued := by
  rcases stageEffect_ok heffect with ⟨-, run, run', outcome, hp⟩ |
    ⟨-, run, old, changed, outcome, hp⟩ | ⟨stage, -, run, project, old, changed, results, hp⟩ |
    ⟨-, run, old, outcome, hp⟩
  · exact hp.grows
  · exact hp.issued_eq.ge
  · exact hp.issued_eq.ge
  · exact hp.grows

/-- The transaction of a failure report, with the run as it was read. -/
def recordFailureOf (run : Option Run) (now : Instant) (job : Job) (e : PyError) (retryable : Bool)
    (db : Db) : Except PyError Db := do
  let kind := classify e
  let failed := (job.fail none now kind e.str (some retryable)).self
  let db ← db.updateJob failed
  match run with
  | none => return db.append failed.events
  | some run =>
      if retryable = false ∧ run.isTerminal = false ∧ kind.isCodeDefect = false then
        let run ← (run.fail now kind e.str).after
        return (db.setRun run).append (run.events ++ failed.events)
      else return db.append failed.events

theorem recordFailure_eq (now : Instant) (e : PyError) (retryable : Bool) (db : Db) :
    recordFailure now job e retryable db =
      recordFailureOf (db.run? job.runId) now job e retryable db := rfl

/-- A failure report stores the holder's copy, and at most fails a run that was read live. -/
theorem recordFailureOf_ok {read : Option Run} {now : Instant} {e : PyError} {retryable : Bool}
    {db db' : Db} (h : recordFailureOf read now job e retryable db = .ok db') :
    (∀ id, db'.job? id =
      (db.setJob (job.fail none now (classify e) e.str (some retryable)).self).job? id) ∧
      (∃ old, db.job? job.id = some old) ∧
      ∀ runId, (∀ run, read = some run → run.isTerminal = false → run.id ≠ runId) →
        db.RunCancelled runId → db'.RunCancelled runId := by
  unfold recordFailureOf at h
  obtain ⟨stored, hstored, h⟩ := bind_eq_ok.mp h
  obtain ⟨⟨old, hold⟩, rfl⟩ := Db.updateJob_eq_ok hstored
  have hexists : ∃ old, db.job? job.id = some old := by
    rw [Job.id_of_work (Job.fail_work job none now (classify e) e.str (some retryable))] at hold
    exact ⟨old, hold⟩
  cases read with
  | none =>
    cases h
    exact ⟨fun id => rfl, hexists, fun runId _ hc => hc.of_run? rfl⟩
  | some run =>
    simp only at h
    split at h
    · rename_i hlive
      obtain ⟨failed, hfailed, h⟩ := bind_eq_ok.mp h
      cases h
      refine ⟨fun id => rfl, hexists, fun runId hread hc => ?_⟩
      obtain ⟨failed', hfailed', -, hcharter⟩ := Run.fail_of_live hlive.2.1 now (classify e) e.str
      rw [hfailed', Except.ok.injEq] at hfailed
      subst hfailed
      have hid : failed'.id = run.id := Run.id_of_charter hcharter
      have hstored : (db.setJob (job.fail none now (classify e) e.str
          (some retryable)).self).RunCancelled runId := hc.of_run? rfl
      exact (hstored.setRun_other (hid ▸ hread run rfl hlive.2.1)).of_run? rfl
    · cases h
      exact ⟨fun id => rfl, hexists, fun runId _ hc => hc.of_run? rfl⟩

end Orchestrator

/-! ### Pieces that store a row -/

namespace Piece

/-- The end of the transaction in which a holder cancels its job. -/
def cancelled (a : Answers) (job : Job) (lease : Lease) (w : World) : Piece :=
  let call := Orchestrator.cancelling a job w.db
  match call.result with
  | .error e => ⟨w, some (.reporting call.self lease e), none⟩
  | .ok db => ⟨{ w with db }, some (.acknowledging call.self lease), none⟩

/-- The end of the transaction in which a stage stores its effect. -/
def completed (a : Answers) (job : Job) (lease : Lease) (effect : Effect) (issued : Nat)
    (w : World) : Piece :=
  let call := completing a job lease effect w.db
  match call.result with
  | .error e => ⟨w, some (.reporting call.self lease e), none⟩
  | .ok db => ⟨{ w with db, issued }, some (.acknowledging call.self lease), none⟩

/-- The end of the transaction of a failure report. -/
def reported (o : Orchestrator) (a : Answers) (job : Job) (lease : Lease) (e : PyError)
    (run : Option Run) (w : World) : Piece :=
  let decision := o.retry.decide (classify e) job.attempt
  match Orchestrator.recordFailureOf run a.now job e decision.shouldRetryJob w.db with
  | .error _ => ⟨w, none, none⟩
  | .ok db => ⟨{ w with db }, some (.releasing job lease decision), none⟩

/-- The end of the transaction that requeues a failed job. -/
def requeued (a : Answers) (stored : Job) (reason : String) (w : World) : Piece :=
  let call := stored.requeue a.now reason
  match call.result with
  | .error _ => ⟨w, none, none⟩
  | .ok () =>
      ⟨{ w with db := (w.db.setJob call.self).append call.self.events }, none,
        some call.self.stored⟩

end Piece

namespace System

/-- A holder ran a piece. -/
def ran (s : System) (token : LeaseToken) (piece : Piece) : System :=
  { s with world := piece.world, pending := s.pending ++ piece.publish.toList }.setHolder token
    piece.holder

theorem resumed_eq (o : Orchestrator) (s : System) (token : LeaseToken) (a : Answers)
    (holder : Holder) : s.resumed o token a holder = s.ran token (holder.resume o a s.world) := rfl

def RunCancelled (s : System) (runId : RunId) : Prop := s.world.db.RunCancelled runId

/-- The run is stopping, as `_dispatch` sees it. -/
def Stopping (s : System) (runId : RunId) : Prop :=
  ∃ run, s.world.db.run? runId = some run ∧ (run.isCancelling = true ∨ run.isTerminal = true)

def RowIs (s : System) (id : JobId) (status : JobStatus) : Prop :=
  ∃ row, s.world.db.job? id = some row ∧ row.status = status

/-- The row is not terminal. -/
def Open (s : System) (id : JobId) : Prop :=
  ∃ row, s.world.db.job? id = some row ∧ row.status.isTerminal = false

/-- The queue still has the job given away under this lease, and its run was not
    cancelled. -/
def Owns (s : System) (job : Job) (lease : Lease) : Prop :=
  s.world.queue.token? job.id = some lease.token ∧ ¬ s.RunCancelled job.runId

/-- A holder about to write the row owns the job, or only repeats what the row says. -/
def FencedHolder (s : System) (a : Answers) : Holder → Prop
  | .claimed job lease => s.Stopping job.runId → s.Owns job lease ∨ s.RowIs job.id .cancelled
  | .working job lease => a.now < lease.expiresAt → s.Owns job lease
  | .reporting job lease _ =>
      s.Owns job lease ∨ (job.status.isTerminal = true ∧ s.RowIs job.id job.status)
  | _ => True

/-- Holders are fenced, and a job is not claimed once its row is terminal, except to be
    refused because its run was cancelled. -/
def Fenced (s : System) : Move → Prop
  | .claim consumer jobTypes duration now token =>
      ∀ job lease, (s.world.queue.claim consumer jobTypes duration now token).result =
        .ok (some (job, lease)) → s.Open job.id ∨ s.RunCancelled job.runId
  | .resume token a => ∀ holder, s.holders token = some holder → s.FencedHolder a holder
  | _ => True

/-- The row of `id` does not contradict what a holder's copy would write. -/
def Settled (s : System) (id : JobId) (runId : RunId) (job : Job) : Prop :=
  s.Open id ∨ s.RunCancelled runId ∨ (job.status.isTerminal = true ∧ s.RowIs id job.status)

/-- What is known of a holder under `token`. -/
structure HolderSound (s : System) (id : JobId) (runId : RunId) (token : LeaseToken) (job : Job)
    (lease : Lease) : Prop where
  token_eq : lease.token = token
  closed : job.status.isTerminal = true → job.lease = none
  runId_eq : job.id = id → job.runId = runId
  settled : job.id = id → s.world.queue.token? id = some token → s.Settled id runId job

/-- **The invariant**, for the job with identifier `id` of the run `runId`. -/
structure Watched (o : Orchestrator) (id : JobId) (runId : RunId) (s : System) : Prop where
  drawn : ∃ n, n < s.world.issued ∧ id = ⟨o.ids.draw n⟩
  row : ∃ row, s.world.db.job? id = some row ∧ row.lease = none ∧ row.runId = runId
  keyed : s.world.queue.Keyed
  record : ∀ record, s.world.queue.jobs.lookup id = some record → record.runId = runId
  pending : ∀ job ∈ s.pending, job.lease = none ∧ (job.id = id → job.runId = runId)
  holders : ∀ token holder job lease, s.holders token = some holder →
    holder.copy = some (job, lease) → s.HolderSound id runId token job lease
  fresh : ∀ token job lease, s.holders token = some (.claimed job lease) ∨
    s.holders token = some (.working job lease) → job.status = .leased ∧ job.lease = some lease

/-! ### What a move may do to a watched job -/

/-- The row keeps a terminal status, and leaves an open one only for a cancelled run. -/
structure RowKept (id : JobId) (runId : RunId) (s s' : System) : Prop where
  row : ∀ row, s.world.db.job? id = some row → row.lease = none → row.runId = runId →
    ∃ row', s'.world.db.job? id = some row' ∧ row'.lease = none ∧ row'.runId = runId ∧
      (row'.status = row.status ∨
        (row.status.isTerminal = false ∧
          (row'.status.isTerminal = false ∨ s'.RunCancelled runId)))
  cancelled : s.RunCancelled runId → s'.RunCancelled runId
  issued : s.world.issued ≤ s'.world.issued

/-- The queue's side of the same: tokens only go away. -/
structure QueueKept (id : JobId) (runId : RunId) (s s' : System) : Prop where
  token : ∀ token, s'.world.queue.token? id = some token → s.world.queue.token? id = some token
  keyed : s'.world.queue.Keyed
  record : ∀ record, s'.world.queue.jobs.lookup id = some record → record.runId = runId

variable {o : Orchestrator} {ws : Workspaces} {id : JobId} {runId : RunId} {s s' : System}

theorem RowKept.of_db (hdb : s'.world.db = s.world.db) (hissued : s.world.issued ≤ s'.world.issued) :
    RowKept id runId s s' := by
  refine ⟨fun row hrow hlease hrun => ⟨row, hdb ▸ hrow, hlease, hrun, .inl rfl⟩, ?_, hissued⟩
  rintro ⟨run, hrun, hstatus⟩
  exact ⟨run, hdb ▸ hrun, hstatus⟩

theorem QueueKept.of_fades (h : Watched o id runId s)
    (hfades : s.world.queue.Fades s'.world.queue) : QueueKept id runId s s' := by
  refine ⟨fun token ht => hfades.token ht, hfades.keyed h.keyed, fun record hr => ?_⟩
  obtain ⟨old, hold, hwork, -⟩ := hfades id record hr
  exact (Job.runId_of_work hwork).trans (h.record old hold)

theorem QueueKept.of_queue (h : Watched o id runId s) (hq : s'.world.queue = s.world.queue) :
    QueueKept id runId s s' := by
  refine .of_fades h ?_
  rw [hq]
  exact .refl _

theorem RowKept.settled (h : RowKept id runId s s') (hw : Watched o id runId s) {job : Job}
    (hs : s.Settled id runId job) : s'.Settled id runId job := by
  obtain ⟨row, hrow, hlease, hrun⟩ := hw.row
  obtain ⟨row', hrow', -, -, hstatus⟩ := h.row row hrow hlease hrun
  rcases hs with ⟨open_, hopen, hst⟩ | hcancelled | ⟨hterminal, same, hsame, hst⟩
  · rw [hrow, Option.some.injEq] at hopen
    subst hopen
    rcases hstatus with heq | ⟨-, hopen' | hcancelled⟩
    · exact .inl ⟨row', hrow', heq ▸ hst⟩
    · exact .inl ⟨row', hrow', hopen'⟩
    · exact .inr (.inl hcancelled)
  · exact .inr (.inl (h.cancelled hcancelled))
  · rw [hrow, Option.some.injEq] at hsame
    subst hsame
    rcases hstatus with heq | ⟨hopen, -⟩
    · exact .inr (.inr ⟨hterminal, row', hrow', heq.trans hst⟩)
    · rw [hst, hterminal] at hopen
      cases hopen

/-- A holder that was there before, seen after a move that kept row and queue. -/
theorem HolderSound.kept {token : LeaseToken} {job : Job} {lease : Lease}
    (h : s.HolderSound id runId token job lease) (hw : Watched o id runId s)
    (hrow : RowKept id runId s s') (hqueue : QueueKept id runId s s') :
    s'.HolderSound id runId token job lease :=
  ⟨h.token_eq, h.closed, h.runId_eq,
    fun hid ht => hrow.settled hw (h.settled hid (hqueue.token token ht))⟩

/-- A terminal row keeps its status. -/
def Absorbs (id : JobId) (s s' : System) : Prop :=
  ∀ status, status.isTerminal = true → s.RowIs id status → s'.RowIs id status

theorem RowKept.absorbs (h : RowKept id runId s s') (hw : Watched o id runId s) :
    Absorbs id s s' := by
  rintro status hterminal ⟨old, hold, rfl⟩
  obtain ⟨row, hrow, hlease, hrun⟩ := hw.row
  rw [hrow, Option.some.injEq] at hold
  subst hold
  rcases h.row row hrow hlease hrun with ⟨row', hrow', -, -, heq | ⟨hopen, -⟩⟩
  · exact ⟨row', hrow', heq⟩
  · rw [hterminal] at hopen
    cases hopen

/-- A move that keeps row, queue and holders keeps the invariant. -/
theorem Watched.kept (h : Watched o id runId s) (hrow : RowKept id runId s s')
    (hqueue : QueueKept id runId s s') (hholders : s'.holders = s.holders)
    (hpending : ∀ job ∈ s'.pending, job ∈ s.pending ∨
      (job.lease = none ∧ (job.id = id → job.runId = runId))) :
    Watched o id runId s' := by
  obtain ⟨n, hn, hid⟩ := h.drawn
  obtain ⟨row, hfind, hlease, hrun⟩ := h.row
  obtain ⟨row', hfind', hlease', hrun', -⟩ := hrow.row row hfind hlease hrun
  refine ⟨⟨n, Nat.lt_of_lt_of_le hn hrow.issued, hid⟩, ⟨row', hfind', hlease', hrun'⟩, hqueue.keyed,
    hqueue.record, ?_, ?_, ?_⟩
  · intro job hjob
    rcases hpending job hjob with hold | hnew
    · exact h.pending job hold
    · exact hnew
  · intro token holder job lease hholder hcopy
    rw [hholders] at hholder
    exact (h.holders token holder job lease hholder hcopy).kept h hrow hqueue
  · intro token job lease hholder
    rw [hholders] at hholder
    exact h.fresh token job lease hholder

/-- One holder moved on, and the others still see a row they can live with. -/
theorem Watched.moved (h : Watched o id runId s) {token : LeaseToken} {new : Option Holder}
    (hrow : ∃ row, s'.world.db.job? id = some row ∧ row.lease = none ∧ row.runId = runId)
    (hissued : s.world.issued ≤ s'.world.issued) (hkeyed : s'.world.queue.Keyed)
    (hrecord : ∀ record, s'.world.queue.jobs.lookup id = some record → record.runId = runId)
    (htoken : ∀ other, other ≠ token → s'.world.queue.token? id = some other →
      s.world.queue.token? id = some other)
    (hholders : s'.holders = Function.update s.holders token new)
    (hothers : ∀ other job, other ≠ token → s'.world.queue.token? id = some other →
      s.Settled id runId job → s'.Settled id runId job)
    (hnew : ∀ holder job lease, new = some holder → holder.copy = some (job, lease) →
      s'.HolderSound id runId token job lease)
    (hfresh : ∀ job lease, new = some (.claimed job lease) ∨ new = some (.working job lease) →
      job.status = .leased ∧ job.lease = some lease)
    (hpending : ∀ job ∈ s'.pending, job ∈ s.pending ∨
      (job.lease = none ∧ (job.id = id → job.runId = runId))) :
    Watched o id runId s' := by
  obtain ⟨n, hn, hid⟩ := h.drawn
  refine ⟨⟨n, Nat.lt_of_lt_of_le hn hissued, hid⟩, hrow, hkeyed, hrecord, ?_, ?_, ?_⟩
  · intro job hjob
    rcases hpending job hjob with hold | hnew
    · exact h.pending job hold
    · exact hnew
  · intro other holder job lease hholder hcopy
    rw [hholders] at hholder
    by_cases hsame : other = token
    · subst hsame
      rw [Function.update_self] at hholder
      exact hnew holder job lease hholder hcopy
    · rw [Function.update_of_ne hsame] at hholder
      have hs := h.holders other holder job lease hholder hcopy
      exact ⟨hs.token_eq, hs.closed, hs.runId_eq, fun hjob ht =>
        hothers other job hsame ht (hs.settled hjob (htoken other hsame ht))⟩
  · intro other job lease hholder
    rw [hholders] at hholder
    by_cases hsame : other = token
    · subst hsame
      rw [Function.update_self] at hholder
      exact hfresh job lease hholder
    · rw [Function.update_of_ne hsame] at hholder
      exact h.fresh other job lease hholder

/-- A holder that stored nothing: its copy is the one it had, or was still leased. -/
theorem Watched.passed (h : Watched o id runId s) {token : LeaseToken} {job job' : Job}
    {lease : Lease} {new : Holder} (hs : s.HolderSound id runId token job lease)
    (hcopy : new.copy = some (job', lease)) (hwork : job'.work = job.work)
    (hsame : job' = job ∨ (job.status = .leased ∧ (job'.status.isTerminal = true → job'.lease = none)))
    (hfresh : ∀ job lease, new = .claimed job lease ∨ new = .working job lease →
      job.status = .leased ∧ job.lease = some lease) :
    Watched o id runId (s.setHolder token (some new)) ∧
      Absorbs id s (s.setHolder token (some new)) := by
  have hrow : RowKept id runId s (s.setHolder token (some new)) := .of_db rfl (Nat.le_refl _)
  refine ⟨h.moved h.row (Nat.le_refl _) h.keyed h.record (fun _ _ ht => ht) rfl (fun _ _ _ _ hsettled => hsettled) ?_ ?_ fun _ hjob => .inl hjob, hrow.absorbs h⟩
  · intro holder found lease' hnew hfound
    rw [Option.some.injEq] at hnew
    subst hnew
    rw [hcopy, Option.some.injEq, Prod.mk.injEq] at hfound
    obtain ⟨rfl, rfl⟩ := hfound
    rcases hsame with rfl | ⟨hleased, hclosed⟩
    · exact ⟨hs.token_eq, hs.closed, hs.runId_eq, hs.settled⟩
    · refine ⟨hs.token_eq, hclosed, fun hid => ?_, fun hid ht => ?_⟩
      · rw [Job.runId_of_work hwork]
        exact hs.runId_eq ((Job.id_of_work hwork).symm.trans hid)
      · rcases hs.settled ((Job.id_of_work hwork).symm.trans hid) ht with hopen | hcancelled |
          ⟨hterminal, -⟩
        · exact .inl hopen
        · exact .inr (.inl hcancelled)
        · rw [hleased] at hterminal
          cases hterminal
  · intro found lease' hnew
    simp only [Option.some.injEq] at hnew
    exact hfresh found lease' hnew

/-- A holder that stored its copy while it owned the job, or to repeat what the row says. -/
theorem Watched.wrote (h : Watched o id runId s) {token : LeaseToken} {job copy : Job}
    {lease : Lease} {new : Option Holder} (hs : s.HolderSound id runId token job lease)
    (hwork : copy.work = job.work) (hlease : copy.lease = none)
    (hfence : (s.Owns job lease ∧ (job.status.isTerminal = true → copy.status = job.status)) ∨
      (copy.status.isTerminal = true ∧ s.RowIs job.id copy.status))
    (hold : ∃ old, s.world.db.job? copy.id = some old)
    (hjobs : ∀ id, s'.world.db.job? id = (s.world.db.setJob copy).job? id)
    (hcancelled : s.RunCancelled runId → s'.RunCancelled runId)
    (hissued : s.world.issued ≤ s'.world.issued) (hqueue : s'.world.queue = s.world.queue)
    (hholders : s'.holders = Function.update s.holders token new)
    (hnew : ∀ holder, new = some holder → (∃ found, holder = .acknowledging found lease ∧
      found.work = copy.work ∧ found.status = copy.status ∧ found.lease = none ∧
      copy.status.isTerminal = true) ∨ holder.copy = none)
    (hpending : s'.pending = s.pending) :
    Watched o id runId s' ∧ Absorbs id s s' := by
  obtain ⟨row, hrow, hrowlease, hrowrun⟩ := h.row
  obtain ⟨old, hold⟩ := hold
  have hid : copy.id = job.id := Job.id_of_work hwork
  have hset : ∀ id, s'.world.db.job? id =
      if id = copy.id then some copy.stored else s.world.db.job? id := fun id =>
    (hjobs id).trans (Db.job?_setJob hold id)
  obtain ⟨htoken', hkeyed, hrecord⟩ : QueueKept id runId s s' := .of_queue h hqueue
  have htokens : ∀ other, other ≠ token → s'.world.queue.token? id = some other →
      s.world.queue.token? id = some other := fun other _ ht => htoken' other ht
  have hpend : ∀ job ∈ s'.pending, job ∈ s.pending ∨
      (job.lease = none ∧ (job.id = id → job.runId = runId)) := fun other hmem =>
    .inl (hpending ▸ hmem)
  -- what the next phase of this holder knows
  have hsound : (copy.id = id → s'.RowIs id copy.status) → ∀ holder job' lease',
      new = some holder → holder.copy = some (job', lease') →
        s'.HolderSound id runId token job' lease' := by
    intro hrepeats holder job' lease' hsome hcopy
    rcases hnew holder hsome with ⟨found, rfl, hfwork, hfstatus, hflease, hterminal⟩ | hnone
    · simp only [Holder.copy, Option.some.injEq, Prod.mk.injEq] at hcopy
      obtain ⟨rfl, rfl⟩ := hcopy
      refine ⟨hs.token_eq, fun _ => hflease, fun hfid => ?_, fun hfid _ => ?_⟩
      · rw [Job.runId_of_work (hfwork.trans hwork)]
        exact hs.runId_eq ((Job.id_of_work (hfwork.trans hwork)).symm.trans hfid)
      · rw [hfstatus.symm] at hterminal
        refine .inr (.inr ⟨hterminal, ?_⟩)
        rw [hfstatus]
        exact hrepeats ((Job.id_of_work hfwork).symm.trans hfid)
    · rw [hnone] at hcopy
      cases hcopy
  have hclaims : ∀ job lease, new = some (.claimed job lease) ∨ new = some (.working job lease) →
      job.status = .leased ∧ job.lease = some lease := by
    rintro found lease' (hsome | hsome)
    · rcases hnew _ hsome with ⟨_, hbad, -⟩ | hbad <;> cases hbad
    · rcases hnew _ hsome with ⟨_, hbad, -⟩ | hbad <;> cases hbad
  by_cases hcopy : copy.id = id
  · subst hcopy
    have hrow' : s'.world.db.job? copy.id = some copy.stored := (hset copy.id).trans (if_pos rfl)
    have hrunId : copy.runId = runId := (Job.runId_of_work hwork).trans (hs.runId_eq hid.symm)
    have hrepeats : s'.RowIs copy.id copy.status := ⟨copy.stored, hrow', rfl⟩
    have hexists : ∃ row, s'.world.db.job? copy.id = some row ∧ row.lease = none ∧
        row.runId = runId := ⟨copy.stored, hrow', hlease, hrunId⟩
    rcases hfence with ⟨⟨htoken, hnot⟩, hkeeps⟩ | ⟨hterminal, same, hsame, hst⟩
    · rw [hs.token_eq, ← hid] at htoken
      constructor
      · refine h.moved hexists hissued hkeyed hrecord htokens hholders (fun other _ hne ht _ => ?_)
          (hsound fun _ => hrepeats) hclaims hpend
        rw [hqueue, htoken, Option.some.injEq] at ht
        exact absurd ht.symm hne
      · rintro status hterminal ⟨other, hother, rfl⟩
        rw [hrow, Option.some.injEq] at hother
        subst hother
        rcases hs.settled hid.symm htoken with ⟨open_, hopen, hst⟩ | hcancelled' |
          ⟨hjob, same, hsame, hst⟩
        · rw [hrow, Option.some.injEq] at hopen
          subst hopen
          rw [hterminal] at hst
          cases hst
        · rw [← hs.runId_eq hid.symm] at hcancelled'
          exact absurd hcancelled' hnot
        · rw [hrow, Option.some.injEq] at hsame
          subst hsame
          rw [hst, ← hkeeps hjob]
          exact hrepeats
    · rw [← hid, hrow, Option.some.injEq] at hsame
      subst hsame
      have hkept : RowKept copy.id runId s s' := by
        refine ⟨fun row' hfind _ _ => ⟨copy.stored, hrow', hlease, hrunId, .inl ?_⟩, hcancelled,
          hissued⟩
        rw [hrow, Option.some.injEq] at hfind
        subst hfind
        exact hst.symm
      exact ⟨h.moved hexists hissued hkeyed hrecord htokens hholders
        (fun _ _ _ _ hsettled => hkept.settled h hsettled) (hsound fun _ => hrepeats) hclaims hpend,
        hkept.absorbs h⟩
  · have hsame : s'.world.db.job? id = s.world.db.job? id :=
      (hset id).trans (if_neg fun heq => hcopy heq.symm)
    have hkept : RowKept id runId s s' :=
      ⟨fun row hrow hlease hrun => ⟨row, hsame.trans hrow, hlease, hrun, .inl rfl⟩, hcancelled,
        hissued⟩
    exact ⟨h.moved ⟨row, hsame.trans hrow, hrowlease, hrowrun⟩ hissued hkeyed hrecord htokens hholders
      (fun _ _ _ _ hsettled => hkept.settled h hsettled) (hsound fun heq => absurd heq hcopy)
      hclaims hpend, hkept.absorbs h⟩

/-- A holder that has no copy to write any more. -/
theorem Watched.left (h : Watched o id runId s) {token : LeaseToken} {new : Option Holder}
    (hrow : RowKept id runId s s') (hqueue : QueueKept id runId s s')
    (hholders : s'.holders = Function.update s.holders token new)
    (hnew : ∀ holder, new = some holder → holder.copy = none)
    (hpending : ∀ job ∈ s'.pending, job ∈ s.pending ∨
      (job.lease = none ∧ (job.id = id → job.runId = runId))) :
    Watched o id runId s' ∧ Absorbs id s s' := by
  obtain ⟨row, hfind, hlease, hrun⟩ := h.row
  obtain ⟨row', hfind', hlease', hrun', -⟩ := hrow.row row hfind hlease hrun
  refine ⟨h.moved ⟨row', hfind', hlease', hrun'⟩ hrow.issued hqueue.keyed hqueue.record
    (fun other _ ht => hqueue.token other ht) hholders
    (fun _ _ _ _ hsettled => hrow.settled h hsettled) ?_ ?_ hpending, hrow.absorbs h⟩
  · intro holder job lease hsome hcopy
    rw [hnew holder hsome] at hcopy
    cases hcopy
  · rintro job lease (hsome | hsome)
    · cases hnew _ hsome
    · cases hnew _ hsome

/-- Overwriting an open row by a copy of it that was read at any time before. -/
theorem RowKept.setJob {new : Job}
    (hjobs : ∀ id, s'.world.db.job? id = (s.world.db.setJob new).job? id)
    (hnew : new.id = id → new.lease = none ∧ new.runId = runId ∧ new.status.isTerminal = false ∧
      s.Open id)
    (hcancelled : s.RunCancelled runId → s'.RunCancelled runId)
    (hissued : s.world.issued ≤ s'.world.issued) : RowKept id runId s s' := by
  refine ⟨fun row hrow hrowlease hrowrun => ?_, hcancelled, hissued⟩
  rw [hjobs]
  by_cases heq : new.id = id
  · subst heq
    obtain ⟨hlease, hrunId, hopen, found, hfind, hnot⟩ := hnew rfl
    rw [hrow, Option.some.injEq] at hfind
    subst hfind
    rw [Db.job?_setJob hrow, if_pos rfl]
    exact ⟨new.stored, rfl, hlease, hrunId, .inr ⟨hnot, .inl hopen⟩⟩
  · refine ⟨row, ?_, hrowlease, hrowrun, .inl rfl⟩
    rw [← hrow]
    exact Table.find_put_ne s.world.db.jobs new.stored (Ne.symm heq)

/-! ### One piece of a holder -/

theorem ran_pass {token : LeaseToken} {piece : Piece} {new : Holder}
    (h : piece = ⟨s.world, some new, none⟩) : s.ran token piece = s.setHolder token (some new) := by
  simp only [ran, h, Option.toList_none, List.append_nil]

/-- A holder that cancels its job owns it, or repeats what the row says. -/
theorem cancelled_keeps (h : Watched o id runId s) {token : LeaseToken} {a : Answers} {job : Job}
    {lease : Lease} (hs : s.HolderSound id runId token job lease) (hleased : job.status = .leased)
    (hfence : s.Owns job lease ∨ s.RowIs job.id .cancelled) :
    Watched o id runId (s.ran token (.cancelled a job lease s.world)) ∧
      Absorbs id s (s.ran token (.cancelled a job lease s.world)) := by
  have hcancel : (job.cancel a.now).status = .cancelled :=
    Orchestrator.cancel_status hleased a.now
  have hclosed : (job.cancel a.now).lease = none := by
    simp [Job.cancel, hleased, JobStatus.isTerminal]
  rcases Orchestrator.cancelling_cases a job s.world.db with ⟨e, hcall⟩ | ⟨hold, hcall⟩
  · have hpiece : Piece.cancelled a job lease s.world =
        ⟨s.world, some (.reporting (job.cancel a.now) lease e), none⟩ := by
      simp only [Piece.cancelled, hcall, Call.result_raised, Call.self_raised]
    rw [ran_pass hpiece]
    exact h.passed hs rfl (Job.cancel_work job a.now) (.inr ⟨hleased, fun _ => hclosed⟩)
      (by rintro _ _ (hbad | hbad) <;> cases hbad)
  · have hpiece : Piece.cancelled a job lease s.world =
        ⟨{ s.world with db := s.world.db.setJob (job.cancel a.now) },
          some (.acknowledging (job.cancel a.now) lease), none⟩ := by
      simp only [Piece.cancelled, hcall, Call.result_returned, Call.self_returned]
    simp only [ran, hpiece, Option.toList_none, List.append_nil]
    refine h.wrote hs (Job.cancel_work job a.now) hclosed ?_ hold (fun _ => rfl) (fun hc => hc)
      (Nat.le_refl _) rfl rfl ?_ rfl
    · rcases hfence with hown | hrepeats
      · refine .inl ⟨hown, fun hterminal => ?_⟩
        rw [hleased] at hterminal
        cases hterminal
      · exact .inr (hcancel ▸ ⟨rfl, hrepeats⟩)
    · intro holder hsome
      rw [Option.some.injEq] at hsome
      exact .inl ⟨_, hsome.symm, rfl, rfl, hclosed, by rw [hcancel]; rfl⟩

/-- A stage stores an effect on its own run while its holder owns the job. -/
theorem completed_keeps (h : Watched o id runId s) {token : LeaseToken} {a : Answers} {job : Job}
    {lease : Lease} {effect : Effect} {issued : Nat}
    (hs : s.HolderSound id runId token job lease) (hleased : job.status = .leased)
    (hlease : job.lease = some lease) (hissued : s.world.issued ≤ issued)
    (hrun : ∀ run, effect.run = some run → run.id = job.runId)
    (hfence : a.now < lease.expiresAt → s.Owns job lease) :
    Watched o id runId (s.ran token (.completed a job lease effect issued s.world)) ∧
      Absorbs id s (s.ran token (.completed a job lease effect issued s.world)) := by
  have hraised : ∀ {copy : Job} {e : PyError},
      completing a job lease effect s.world.db = .raised copy e →
      Piece.completed a job lease effect issued s.world =
        ⟨s.world, some (.reporting copy lease e), none⟩ := fun hcall => by
    simp only [Piece.completed, hcall, Call.result_raised, Call.self_raised]
  rcases Orchestrator.completing_cases (a := a) hleased hlease effect s.world.db with
    ⟨-, e, hcall⟩ | ⟨done, e, hdone, hcall, -⟩ | ⟨done, hdone, hrow, -, hcall⟩
  · rw [ran_pass (hraised hcall)]
    exact h.passed hs rfl rfl (.inl rfl) (by rintro _ _ (hbad | hbad) <;> cases hbad)
  · rw [ran_pass (hraised hcall)]
    exact h.passed hs rfl hdone.work (.inr ⟨hleased, fun _ => hdone.lease⟩)
      (by rintro _ _ (hbad | hbad) <;> cases hbad)
  · have hpiece : Piece.completed a job lease effect issued s.world =
        ⟨{ s.world with db := s.world.db.complete effect done, issued },
          some (.acknowledging done.stored lease), none⟩ := by
      simp only [Piece.completed, hcall, Call.result_returned, Call.self_returned]
    obtain ⟨row, hrow⟩ := hrow
    have hown := hfence hdone.in_time
    simp only [ran, hpiece, Option.toList_none, List.append_nil]
    refine h.wrote hs hdone.work hdone.lease ?_ ⟨row, hrow⟩ (fun other => ?_) (fun hc => ?_) hissued
      rfl rfl ?_ rfl
    · refine .inl ⟨hown, fun hterminal => ?_⟩
      rw [hleased] at hterminal
      cases hterminal
    · show (s.world.db.complete effect done).job? other = _
      rw [Db.job?_setJob hrow]
      split
      · rename_i heq
        subst heq
        exact Orchestrator.job?_complete effect hrow
      · rename_i hne
        exact Orchestrator.job?_complete_other effect hne
    · -- the run of an owned job is not cancelled, so the effect is on another one
      have hother : (s.world.db.withRun effect.run).RunCancelled runId := by
        cases heffect : effect.run with
        | none => exact hc
        | some run =>
          refine hc.setRun_other fun heq => ?_
          subst heq
          exact hown.2 (hrun run heffect ▸ hc)
      exact hother.of_run? (Orchestrator.run?_complete _ _ _ _)
    · intro holder hsome
      rw [Option.some.injEq] at hsome
      exact .inl ⟨_, hsome.symm, rfl, rfl, hdone.lease, by rw [hdone.status]; rfl⟩

theorem resume_claimed (h : Watched o id runId s) {token : LeaseToken} {a : Answers} {job : Job}
    {lease : Lease} (hholder : s.holders token = some (.claimed job lease))
    (hfence : s.FencedHolder a (.claimed job lease)) :
    Watched o id runId (s.resumed o token a (.claimed job lease)) ∧
      Absorbs id s (s.resumed o token a (.claimed job lease)) := by
  have hs := h.holders token _ job lease hholder rfl
  obtain ⟨hleased, hlease⟩ := h.fresh token job lease (.inl hholder)
  rw [resumed_eq]
  have hreport : ∀ e, Holder.resume o a s.world (.claimed job lease) =
      ⟨s.world, some (.reporting job lease e), none⟩ →
      Watched o id runId (s.ran token (Holder.resume o a s.world (.claimed job lease))) ∧
        Absorbs id s (s.ran token (Holder.resume o a s.world (.claimed job lease))) :=
    fun e hpiece => by
      rw [ran_pass hpiece]
      exact h.passed hs rfl rfl (.inl rfl) (by rintro _ _ (hbad | hbad) <;> cases hbad)
  cases hopened : a.check .opening with
  | error e => exact hreport e (by simp only [Holder.resume, hopened])
  | ok u =>
    cases hrun : s.world.db.requireRun job.runId with
    | error e => exact hreport e (by simp only [Holder.resume, hopened, hrun])
    | ok run =>
      by_cases hstop : run.isCancelling = true ∨ run.isTerminal = true
      · have hpiece : Holder.resume o a s.world (.claimed job lease) =
            .cancelled a job lease s.world := by
          simp only [Holder.resume, hopened, hrun, if_pos hstop]
          rfl
        rw [hpiece]
        exact cancelled_keeps h hs hleased (hfence ⟨run, Db.requireRun_ok hrun, hstop⟩)
      · have hpiece : Holder.resume o a s.world (.claimed job lease) =
            ⟨s.world, some (.working job lease), none⟩ := by
          simp only [Holder.resume, hopened, hrun, if_neg hstop]
        rw [ran_pass hpiece]
        refine h.passed hs rfl rfl (.inl rfl) ?_
        rintro _ _ (hbad | hsame)
        · cases hbad
        · cases hsame
          exact ⟨hleased, hlease⟩

theorem resume_working (h : Watched o id runId s) {token : LeaseToken} {a : Answers} {job : Job}
    {lease : Lease} (hholder : s.holders token = some (.working job lease))
    (hfence : s.FencedHolder a (.working job lease)) :
    Watched o id runId (s.resumed o token a (.working job lease)) ∧
      Absorbs id s (s.resumed o token a (.working job lease)) := by
  have hs := h.holders token _ job lease hholder rfl
  obtain ⟨hleased, hlease⟩ := h.fresh token job lease (.inr hholder)
  rw [resumed_eq]
  cases heffect : o.stageEffect a job s.world with
  | error e =>
    have hpiece : Holder.resume o a s.world (.working job lease) =
        ⟨s.world, some (.reporting job lease e), none⟩ := by
      simp only [Holder.resume, heffect]
    rw [ran_pass hpiece]
    exact h.passed hs rfl rfl (.inl rfl) (by rintro _ _ (hbad | hbad) <;> cases hbad)
  | ok effect =>
    have hpiece : Holder.resume o a s.world (.working job lease) =
        .completed a job lease effect effect.issued s.world := by
      simp only [Holder.resume, heffect]
      rfl
    rw [hpiece]
    exact completed_keeps h hs hleased hlease (Orchestrator.stageEffect_grows heffect)
      (fun _ hrun => Orchestrator.stageEffect_runId heffect hrun) hfence

theorem resume_acknowledging (h : Watched o id runId s) {token : LeaseToken} {a : Answers}
    {job : Job} {lease : Lease} (hholder : s.holders token = some (.acknowledging job lease)) :
    Watched o id runId (s.resumed o token a (.acknowledging job lease)) ∧
      Absorbs id s (s.resumed o token a (.acknowledging job lease)) := by
  have hs := h.holders token _ job lease hholder rfl
  cases hack : a.check .acknowledge with
  | error e =>
    have hpiece : Holder.resume o a s.world (.acknowledging job lease) =
        ⟨s.world, some (.reporting job lease e), none⟩ := by
      simp only [Holder.resume, hack]
    rw [resumed_eq, ran_pass hpiece]
    exact h.passed hs rfl rfl (.inl rfl) (by rintro _ _ (hbad | hbad) <;> cases hbad)
  | ok u =>
    have hpiece : Holder.resume o a s.world (.acknowledging job lease) =
        ⟨{ s.world with queue := s.world.queue.acknowledge job.id lease.token }, none, none⟩ := by
      simp only [Holder.resume, hack]
    simp only [resumed, hpiece, Option.toList_none, List.append_nil]
    exact h.left (.of_db rfl (Nat.le_refl _)) (.of_fades h (JobQueue.acknowledge_fades _ _ _)) rfl
      (fun _ hbad => by cases hbad) fun _ hjob => .inl hjob

/-- The copy a failure report writes carries no lease. -/
theorem fail_lease {job : Job} (hclosed : job.status.isTerminal = true → job.lease = none)
    (now : Instant) (kind : FailureKind) (reason : String) (retryable : Option Bool) :
    (job.fail none now kind reason retryable).self.lease = none := by
  by_cases hterminal : job.status.isTerminal = true
  · rw [Job.fail_self_of_terminal hterminal]
    exact hclosed hterminal
  · simp [Job.fail, hterminal, Job.checkToken, Job.record]

/-- A failure report of a holder that owns the job, or repeats what the row says. It
    fails a run that was read live and is not cancelled by now. -/
theorem reported_keeps (h : Watched o id runId s) {token : LeaseToken} {a : Answers} {job : Job}
    {lease : Lease} {e : PyError} {read : Option Run}
    (hs : s.HolderSound id runId token job lease)
    (hread : ∀ run, read = some run → run.id = job.runId)
    (hfence : s.Owns job lease ∨ (job.status.isTerminal = true ∧ s.RowIs job.id job.status))
    (hlive : ∀ run, read = some run → run.isTerminal = false → ¬ s.RunCancelled job.runId) :
    Watched o id runId (s.ran token (.reported o a job lease e read s.world)) ∧
      Absorbs id s (s.ran token (.reported o a job lease e read s.world)) := by
  cases hrecord : Orchestrator.recordFailureOf read a.now job e
      (o.retry.decide (classify e) job.attempt).shouldRetryJob s.world.db with
  | error e' =>
    have hpiece : Piece.reported o a job lease e read s.world = ⟨s.world, none, none⟩ := by
      simp only [Piece.reported, hrecord]
    simp only [ran, hpiece, Option.toList_none, List.append_nil]
    exact h.left (.of_db rfl (Nat.le_refl _)) (.of_queue h rfl) rfl (fun _ hbad => by cases hbad)
      fun _ hjob => .inl hjob
  | ok db =>
    have hpiece : Piece.reported o a job lease e read s.world =
        ⟨{ s.world with db := db },
          some (.releasing job lease (o.retry.decide (classify e) job.attempt)), none⟩ := by
      simp only [Piece.reported, hrecord]
    obtain ⟨hjobs, ⟨old, hold⟩, hcancelled⟩ := Orchestrator.recordFailureOf_ok hrecord
    simp only [ran, hpiece, Option.toList_none, List.append_nil]
    have hwork := Job.fail_work job none a.now (classify e) e.str
      (some (o.retry.decide (classify e) job.attempt).shouldRetryJob)
    -- a report on a finished copy leaves that copy alone
    have hkeeps : job.status.isTerminal = true → (job.fail none a.now (classify e) e.str
        (some (o.retry.decide (classify e) job.attempt).shouldRetryJob)).self = job := fun ht =>
      Job.fail_self_of_terminal ht _ _ _ _ _
    refine h.wrote hs hwork (fail_lease hs.closed _ _ _ _) ?_ ⟨old, ?_⟩ hjobs (fun hc => ?_)
      (Nat.le_refl _) rfl rfl ?_ rfl
    · rcases hfence with hown | ⟨hterminal, hrow⟩
      · exact .inl ⟨hown, fun ht => by rw [hkeeps ht]⟩
      · exact .inr (by rw [hkeeps hterminal]; exact ⟨hterminal, hrow⟩)
    · rw [Job.id_of_work hwork]
      exact hold
    · refine hcancelled runId (fun run hrun hopen heq => ?_) hc
      subst heq
      exact hlive run hrun hopen (hread run hrun ▸ hc)
    · intro holder hsome
      rw [Option.some.injEq] at hsome
      exact .inr (hsome ▸ rfl)

theorem resume_reporting (h : Watched o id runId s) {token : LeaseToken} {a : Answers} {job : Job}
    {lease : Lease} {e : PyError} (hholder : s.holders token = some (.reporting job lease e))
    (hfence : s.FencedHolder a (.reporting job lease e)) :
    Watched o id runId (s.resumed o token a (.reporting job lease e)) ∧
      Absorbs id s (s.resumed o token a (.reporting job lease e)) := by
  refine reported_keeps h (h.holders token _ job lease hholder rfl)
    (fun run hrun => Table.find_key hrun) hfence ?_
  rintro run hrun hlive ⟨found, hfound, hstatus⟩
  rw [hrun, Option.some.injEq] at hfound
  rw [hfound, isTerminal_of_cancelled hstatus] at hlive
  cases hlive

theorem resume_releasing (h : Watched o id runId s) {token : LeaseToken} {a : Answers} {job : Job}
    {lease : Lease} {decision : RetryDecision} :
    Watched o id runId (s.resumed o token a (.releasing job lease decision)) ∧
      Absorbs id s (s.resumed o token a (.releasing job lease decision)) := by
  obtain ⟨new, hpiece, hnew⟩ : ∃ new, Holder.resume o a s.world (.releasing job lease decision) =
      ⟨{ s.world with
          queue := (s.world.queue.release job.id lease.token decision.shouldRetryJob).self },
        new, none⟩ ∧ ∀ holder, new = some holder → holder.copy = none := by
    simp only [Holder.resume]
    cases (s.world.queue.release job.id lease.token decision.shouldRetryJob).result with
    | error e => exact ⟨none, rfl, fun _ hbad => by cases hbad⟩
    | ok u =>
      cases decision.shouldRetryJob with
      | true => exact ⟨_, rfl, fun _ hsome => by cases hsome; rfl⟩
      | false => exact ⟨none, rfl, fun _ hbad => by cases hbad⟩
  simp only [resumed, hpiece, Option.toList_none, List.append_nil]
  exact h.left (.of_db rfl (Nat.le_refl _)) (.of_fades h (JobQueue.release_fades _ _ _ _)) rfl hnew
    fun _ hjob => .inl hjob

/-- A failed job is requeued on a copy of its row, which is still open. -/
theorem requeued_keeps (h : Watched o id runId s) {token : LeaseToken} {a : Answers} {stored : Job}
    {reason : String} (hrunId : stored.id = id → stored.runId = runId)
    (hopen : stored.status = .failed → stored.id = id → s.Open id) :
    Watched o id runId (s.ran token (.requeued a stored reason s.world)) ∧
      Absorbs id s (s.ran token (.requeued a stored reason s.world)) := by
  cases hresult : (stored.requeue a.now reason).result with
  | error e =>
    have hpiece : Piece.requeued a stored reason s.world = ⟨s.world, none, none⟩ := by
      simp only [Piece.requeued, hresult]
    simp only [ran, hpiece, Option.toList_none, List.append_nil]
    exact h.left (.of_db rfl (Nat.le_refl _)) (.of_queue h rfl) rfl (fun _ hbad => by cases hbad)
      fun _ hjob => .inl hjob
  | ok u =>
    have hpiece : Piece.requeued a stored reason s.world = ⟨{ s.world with
          db := (s.world.db.setJob (stored.requeue a.now reason).self).append
            (stored.requeue a.now reason).self.events
          }, none, some (stored.requeue a.now reason).self.stored⟩ := by
      simp only [Piece.requeued, hresult]
    obtain ⟨hqueued, hfree⟩ := Job.requeue_self a.now reason hresult
    have hwork : (stored.requeue a.now reason).self.work = stored.work :=
      Job.requeue_work stored a.now reason
    have hid : (stored.requeue a.now reason).self.id = stored.id := Job.id_of_work hwork
    have hfailed := ((Job.requeue_result stored a.now reason).mp hresult).1
    simp only [ran, hpiece]
    refine h.left (RowKept.setJob (fun _ => rfl) (fun hnew => ?_) (fun hc => hc.of_run? rfl)
      (Nat.le_refl _)) (.of_queue h rfl) rfl (fun _ hbad => by cases hbad) ?_
    · have hsame : stored.id = id := hid.symm.trans hnew
      exact ⟨hfree, (Job.runId_of_work hwork).trans (hrunId hsame), by rw [hqueued]; rfl,
        hopen hfailed hsame⟩
    · intro job hjob
      simp only [setHolder, Option.toList_some, List.mem_append, List.mem_singleton] at hjob
      rcases hjob with hold | rfl
      · exact .inl hold
      · exact .inr ⟨hfree, fun hsame =>
          (Job.runId_of_work hwork).trans (hrunId (hid.symm.trans hsame))⟩

/-- The row of the watched job, read now. -/
theorem Watched.read (h : Watched o id runId s) {job : Job} (hrow : s.world.db.job? job.id = some job)
    (hid : job.id = id) : job.lease = none ∧ job.runId = runId := by
  obtain ⟨row, hfind, hlease, hrun⟩ := h.row
  rw [← hid, hrow, Option.some.injEq] at hfind
  subst hfind
  exact ⟨hlease, hrun⟩

theorem resume_requeueing (h : Watched o id runId s) {token : LeaseToken} {a : Answers}
    {jobId : JobId} {reason : String} :
    Watched o id runId (s.resumed o token a (.requeueing jobId reason)) ∧
      Absorbs id s (s.resumed o token a (.requeueing jobId reason)) := by
  rw [resumed_eq]
  cases hrow : s.world.db.job? jobId with
  | none =>
    have hpiece : Holder.resume o a s.world (.requeueing jobId reason) = ⟨s.world, none, none⟩ := by
      simp only [Holder.resume, hrow]
    simp only [ran, hpiece, Option.toList_none, List.append_nil]
    exact h.left (.of_db rfl (Nat.le_refl _)) (.of_queue h rfl) rfl (fun _ hbad => by cases hbad)
      fun _ hjob => .inl hjob
  | some stored =>
    have hkey : stored.id = jobId := Table.find_key hrow
    have hfind : s.world.db.job? stored.id = some stored := by
      rw [hkey]
      exact hrow
    have hpiece : Holder.resume o a s.world (.requeueing jobId reason) =
        .requeued a stored reason s.world := by
      simp only [Holder.resume, hrow]
      rfl
    rw [hpiece]
    exact requeued_keeps h (fun hid => (h.read hfind hid).2) fun hfailed hid =>
      ⟨stored, hid ▸ hfind, by rw [hfailed]; rfl⟩

/-- **One piece of a fenced holder.** -/
theorem resume_keeps (h : Watched o id runId s) {token : LeaseToken} {a : Answers}
    {holder : Holder} (hholder : s.holders token = some holder) (hfence : s.FencedHolder a holder) :
    Watched o id runId (s.resumed o token a holder) ∧ Absorbs id s (s.resumed o token a holder) := by
  cases holder with
  | claimed job lease => exact resume_claimed h hholder hfence
  | working job lease => exact resume_working h hholder hfence
  | acknowledging job lease => exact resume_acknowledging h hholder
  | reporting job lease e => exact resume_reporting h hholder hfence
  | releasing job lease decision => exact resume_releasing h
  | requeueing jobId reason => exact resume_requeueing h

/-! ### The other moves -/

/-- A job is handed out while its row is open, or its run cancelled. -/
theorem claim_keeps (h : Watched o id runId s) {consumer : WorkerId} {jobTypes : List JobType}
    {duration : Duration} {now : Instant} {token : LeaseToken}
    (hstep : s.step o ws (.claim consumer jobTypes duration now token) = some s')
    (hfence : s.Fenced (.claim consumer jobTypes duration now token)) :
    Watched o id runId s' ∧ Absorbs id s s' := by
  simp only [step] at hstep
  split at hstep
  · cases hstep
  · rename_i hfree
    rcases JobQueue.claim_record s.world.queue consumer jobTypes duration now token with
      ⟨hnone, hjobs⟩ | ⟨key, stored, job, lease, hresult, hstored, hwork, hstatus, hlease, htoken,
        hjobs⟩
    · have hs' : s' = { s with world := { s.world with
          queue := (s.world.queue.claim consumer jobTypes duration now token).self } } := by
        split at hstep
        · rename_i job lease hbad
          exact absurd hbad (hnone job lease)
        · cases hstep
          rfl
      subst hs'
      have hrow : RowKept id runId s { s with world := { s.world with
          queue := (s.world.queue.claim consumer jobTypes duration now token).self } } :=
        .of_db rfl (Nat.le_refl _)
      exact ⟨h.kept hrow (.of_fades h (.of_jobs hjobs)) rfl fun _ hjob => .inl hjob, hrow.absorbs h⟩
    · simp only [hresult, Option.some.injEq] at hstep
      subst hstep
      have hid : job.id = key := (Job.id_of_work hwork).trans (h.keyed key stored hstored)
      have hlookup : ∀ other, (s.world.queue.claim consumer jobTypes duration now
          token).self.jobs.lookup other =
            if other = key then some job.rebuild else s.world.queue.jobs.lookup other := fun other =>
        (congrArg (AList.lookup other) hjobs).trans (Dict.lookup_insert_ite _ _ _ _)
      have hrow : RowKept id runId s (System.setHolder { s with world := { s.world with
          queue := (s.world.queue.claim consumer jobTypes duration now token).self } } token
            (some (.claimed job lease))) := .of_db rfl (Nat.le_refl _)
      refine ⟨h.moved h.row (Nat.le_refl _) ?_ ?_ ?_ rfl (fun _ _ _ _ hsettled => hsettled) ?_ ?_
        fun _ hmem => .inl hmem, hrow.absorbs h⟩
      · intro other record hr
        have hr := (hlookup other).symm.trans hr
        split at hr
        · rename_i heq
          cases hr
          exact hid.trans heq.symm
        · exact h.keyed other record hr
      · intro record hr
        have hr := (hlookup id).symm.trans hr
        split at hr
        · rename_i heq
          cases hr
          subst heq
          exact (Job.runId_of_work hwork).trans (h.record stored hstored)
        · exact h.record record hr
      · intro other hne ht
        have ht : ((s.world.queue.claim consumer jobTypes duration now token).self.jobs.lookup
            id).bind (fun record => record.lease.map Lease.token) = some other := ht
        rw [hlookup] at ht
        split at ht
        · simp only [Option.bind_some, Job.rebuild, hlease, Option.map_some, Option.some.injEq] at ht
          exact absurd (ht.symm.trans htoken) hne
        · exact ht
      · intro holder found lease' hsome hcopy
        rw [Option.some.injEq] at hsome
        subst hsome
        simp only [Holder.copy, Option.some.injEq, Prod.mk.injEq] at hcopy
        obtain ⟨rfl, rfl⟩ := hcopy
        have hrunId : job.id = id → job.runId = runId := by
          rintro rfl
          subst hid
          exact (Job.runId_of_work hwork).trans (h.record stored hstored)
        refine ⟨htoken, fun hterminal => ?_, hrunId, fun hsame _ => ?_⟩
        · rw [hstatus] at hterminal
          cases hterminal
        · rcases hfence job lease hresult with hopen | hcancelled
          · exact .inl (hsame ▸ hopen)
          · exact .inr (.inl (hrunId hsame ▸ hcancelled))
      · rintro found lease' (hsome | hsome)
        · cases hsome
          exact ⟨hstatus, hlease⟩
        · cases hsome

/-- A decision of `_advance` overwrites a run that is not cancelled, and appends jobs. -/
theorem RowKept.store {p : Progress} {now : Instant} {old : Run}
    (hdb : s'.world.db = s.world.db.store p now) (hrow : s.world.db.run? p.run.id = some old)
    (hlive : ¬ s.RunCancelled p.run.id) (hissued : s.world.issued ≤ s'.world.issued) :
    RowKept id runId s s' := by
  refine ⟨fun row hfind hlease hrun => ⟨row, hdb ▸ Db.job?_store hfind, hlease, hrun, .inl rfl⟩, ?_,
    hissued⟩
  rintro ⟨found, hfound, hstatus⟩
  have hne : runId ≠ p.run.id := fun heq => hlive (heq ▸ ⟨found, hfound, hstatus⟩)
  refine ⟨found, ?_, hstatus⟩
  rw [hdb, Db.run?_store hrow, if_neg hne]
  exact hfound

/-- The jobs of a decision have identifiers of their own. -/
theorem Watched.publication (h : Watched o id runId s) {run : Run} {candidates : List Candidate}
    {p : Progress} (hsound : Orchestrator.Sound o s.world.issued run candidates p) (now : Instant)
    {job : Job} (hjob : job ∈ Orchestrator.publication p now) : job.lease = none ∧ job.id ≠ id := by
  obtain ⟨new, hmem, rfl⟩ := List.mem_map.mp hjob
  refine ⟨(Job.persisted_new (hsound.new new hmem) now).2.1, fun hsame => ?_⟩
  obtain ⟨n, hn, hdrawn⟩ := h.drawn
  obtain ⟨m, hm, -, hm'⟩ := hsound.drawn.of_mem (List.mem_map_of_mem hmem)
  have heq : o.ids.draw n = o.ids.draw m := by
    have hid : (new.persisted now).id = id := hsame
    rw [new.persisted_id now, hm', hdrawn] at hid
    exact congrArg EntityId.value hid.symm
  have := o.ids.draw_injective n m heq
  omega

/-- A decision of `_advance`, nothing coming in between. -/
theorem advance_keeps (h : Watched o id runId s) {now : Instant} {other : RunId}
    (hstep : s.step o ws (.advance now other) = some s') :
    Watched o id runId s' ∧ Absorbs id s s' := by
  simp only [step] at hstep
  split at hstep
  · cases hstep
    exact ⟨h, fun _ _ hrow => hrow⟩
  · rename_i w jobs hcommit
    cases hstep
    rcases Orchestrator.advanceCommit_ok hcommit with ⟨rfl, rfl⟩ | ⟨run, project, p, hadv, hp, rfl, rfl⟩
    · refine ⟨?_, fun _ _ hrow => hrow⟩
      rw [List.append_nil]
      exact h
    · have hsound := Orchestrator.nextStep_sound hadv.live hp
      have hstored : s.world.db.run? p.run.id = some run := by
        rw [Run.id_of_charter hsound.charter, Table.find_key hadv.run_row]
        exact hadv.run_row
      have hrow : RowKept id runId s { s with
          world := Orchestrator.committed s.world p now
          pending := s.pending ++ Orchestrator.publication p now } := by
        refine .store rfl hstored ?_ hsound.grows
        rintro ⟨found, hfound, hstatus⟩
        rw [hstored, Option.some.injEq] at hfound
        have hlive := hadv.live
        rw [hfound, isTerminal_of_cancelled hstatus] at hlive
        cases hlive
      refine ⟨h.kept hrow (.of_queue h rfl) rfl fun job hjob => ?_, hrow.absorbs h⟩
      rcases List.mem_append.mp hjob with hold | hnew
      · exact .inl hold
      · obtain ⟨hlease, hne⟩ := h.publication hsound now hnew
        exact .inr ⟨hlease, fun hsame => absurd hsame hne⟩

/-- `_requeue` stores a copy that carries no lease over an open row, and leaves it open. -/
theorem expireRow_keeps (h : Watched o id runId s) (now : Instant) {job : Job}
    (hterminal : job.status.isTerminal = false)
    (hrow : job.id = id → job.lease = none ∧ job.runId = runId ∧ s.Open id) :
    Watched o id runId (s.expireRow now job) ∧ Absorbs id s (s.expireRow now job) := by
  have hwork : (job.expireLease now).1.work = job.work := Job.expireLease_work job now
  have hid : (job.expireLease now).1.id = job.id := Job.id_of_work hwork
  simp only [expireRow]
  by_cases hretry : (job.expireLease now).2 = true
  · have hresult := Job.requeue_of_retryable hretry
      "lease expired: the worker stopped reporting"
    simp only [hretry, if_true, hresult]
    obtain ⟨hqueued, hfree⟩ := Job.requeue_self now _ hresult
    have hwork' := (Job.requeue_work (job.expireLease now).1 now
      "lease expired: the worker stopped reporting").trans hwork
    have hid' := Job.id_of_work hwork'
    have hkept : RowKept id runId s { s with
        world := { s.world with
          db := (s.world.db.setJob ((job.expireLease now).1.requeue now
            "lease expired: the worker stopped reporting").self).append
              ((job.expireLease now).1.requeue now
                "lease expired: the worker stopped reporting").self.events }
        pending := s.pending ++ [((job.expireLease now).1.requeue now
            "lease expired: the worker stopped reporting").self.stored] } := by
      refine .setJob (fun _ => rfl) (fun hnew => ?_) (fun hc => hc.of_run? rfl) (Nat.le_refl _)
      obtain ⟨-, hrun, hopen⟩ := hrow (hid'.symm.trans hnew)
      exact ⟨hfree, (Job.runId_of_work hwork').trans hrun, by rw [hqueued]; rfl, hopen⟩
    refine ⟨h.kept hkept (.of_queue h rfl) rfl fun other hmem => ?_, hkept.absorbs h⟩
    rcases List.mem_append.mp hmem with hold | hnew
    · exact .inl hold
    · rw [List.mem_singleton] at hnew
      subst hnew
      exact .inr ⟨hfree, fun hsame =>
        (Job.runId_of_work hwork').trans (hrow (hid'.symm.trans hsame)).2.1⟩
  · simp only [hretry, Bool.false_eq_true, if_false]
    have hkept : RowKept id runId s { s with
        world := { s.world with
          db := (s.world.db.setJob (job.expireLease now).1).append
            (job.expireLease now).1.events }
        dead := s.dead ++ [(job.expireLease now).1.stored] } := by
      refine .setJob (fun _ => rfl) (fun hnew => ?_) (fun hc => hc.of_run? rfl) (Nat.le_refl _)
      obtain ⟨hlease, hrun, hopen⟩ := hrow (hid.symm.trans hnew)
      have hsame : (job.expireLease now).1 = job := by
        rw [Job.expireLease_of_no_lease hlease]
      rw [hsame]
      exact ⟨hlease, hrun, hterminal, hopen⟩
    exact ⟨h.kept hkept (.of_queue h rfl) rfl fun _ hmem => .inl hmem, hkept.absorbs h⟩

theorem lapsed_keeps (h : Watched o id runId s) (lapsed : List JobId) :
    Watched o id runId { s with lapsed } ∧ Absorbs id s { s with lapsed } := by
  have hrow : RowKept id runId s { s with lapsed } := .of_db rfl (Nat.le_refl _)
  exact ⟨h.kept hrow (.of_queue h rfl) rfl fun _ hjob => .inl hjob, hrow.absorbs h⟩

/-- The transaction of `_requeue`, nothing coming in between. -/
theorem expire_keeps (h : Watched o id runId s) {n : Nat} {now : Instant}
    (hstep : s.step o ws (.expire n now) = some s') :
    Watched o id runId s' ∧ Absorbs id s s' := by
  simp only [step] at hstep
  split at hstep
  · cases hstep
  · rename_i jobId hjobId
    obtain ⟨hrest, habsorbs⟩ := lapsed_keeps h (s.lapsed.eraseIdx n)
    split at hstep
    · cases hstep
      exact ⟨hrest, habsorbs⟩
    · rename_i job hjob
      split at hstep
      · cases hstep
        exact ⟨hrest, habsorbs⟩
      · rename_i hopen
        cases hstep
        have hterminal : job.status.isTerminal = false := by simpa using hopen
        have hkey : job.id = jobId := Table.find_key hjob
        subst hkey
        obtain ⟨hwatched, hlast⟩ := expireRow_keeps hrest now hterminal fun hid => by
          obtain ⟨hlease, hrun⟩ := h.read hjob hid
          exact ⟨hlease, hrun, job, hid ▸ hjob, hterminal⟩
        exact ⟨hwatched, fun status ht hrow => hlast status ht (habsorbs status ht hrow)⟩

/-- A cancellation closes the open rows of its run, and those only. -/
theorem cancel_keeps (h : Watched o id runId s) {now : Instant} {other : RunId}
    {reason : Option String} (hstep : s.step o ws (.cancel now other reason) = some s') :
    Watched o id runId s' ∧ Absorbs id s s' := by
  simp only [step] at hstep
  split at hstep
  · rename_i db hcommit
    cases hstep
    obtain ⟨old, run, hold, hlive, -, -, hstatus, hcharter, -, -, rfl⟩ :=
      Db.cancelRunCommit_ok hcommit
    have hrunId : run.id = other := (Run.id_of_charter hcharter).trans (Table.find_key hold)
    have hstored : s.world.db.run? run.id = some old := by
      rw [hrunId]
      exact hold
    have hrow : RowKept id runId s { s with
        world := { s.world with db := s.world.db.cancelRun run now }
        cancelled := s.cancelled ++ [other] } := by
      refine ⟨fun row hfind hlease hrun => ?_, ?_, Nat.le_refl _⟩
      · by_cases heq : row.runId = run.id
        · refine ⟨(row.cancel now).stored, ?_, ?_, ?_, ?_⟩
          · show (s.world.db.cancelRun run now).job? id = _
            rw [Db.job?_cancelRun, hfind, Option.map_some, if_pos heq]
          · show (row.cancel now).lease = none
            unfold Job.cancel
            split
            · exact hlease
            · rfl
          · exact (Job.runId_of_work (Job.cancel_work row now)).trans hrun
          · cases hterminal : row.status.isTerminal with
            | true => exact .inl (by simp [Job.stored, Job.cancel, hterminal])
            | false =>
              refine .inr ⟨rfl, .inr ⟨run.stored, ?_, hstatus⟩⟩
              show (s.world.db.cancelRun run now).run? runId = _
              rw [Db.run?_cancelRun hstored, if_pos (hrun.symm.trans heq)]
        · refine ⟨row, ?_, hlease, hrun, .inl rfl⟩
          show (s.world.db.cancelRun run now).job? id = _
          rw [Db.job?_cancelRun, hfind, Option.map_some, if_neg heq]
      · rintro ⟨found, hfound, hcancelled⟩
        refine ⟨found, ?_, hcancelled⟩
        show (s.world.db.cancelRun run now).run? runId = _
        rw [Db.run?_cancelRun hstored, if_neg, hfound]
        intro heq
        rw [heq, hstored, Option.some.injEq] at hfound
        rw [hfound, isTerminal_of_cancelled hcancelled] at hlive
        cases hlive
    exact ⟨h.kept hrow (.of_queue h rfl) rfl fun _ hmem => .inl hmem, hrow.absorbs h⟩
  · cases hstep
    exact ⟨h, fun _ _ hrow => hrow⟩

/-- `handle_dead_job` touches live runs only. -/
theorem bury_keeps (h : Watched o id runId s) {n : Nat} {now : Instant}
    (hstep : s.step o ws (.bury n now) = some s') : Watched o id runId s' ∧ Absorbs id s s' := by
  simp only [step] at hstep
  split at hstep
  · cases hstep
  · rename_i job hjob
    cases hstep
    obtain ⟨-, hqueue, hjobs, hruns⟩ := MaintenanceLoop.handleDeadJob_spec now job s.world
    have hissued : (Orchestrator.handleDeadJob now job s.world).self.issued = s.world.issued := by
      unfold Orchestrator.handleDeadJob
      split
      · rfl
      · split
        · rfl
        · split <;> rfl
    have hrow : RowKept id runId s { s with
        world := (Orchestrator.handleDeadJob now job s.world).self
        dead := s.dead.eraseIdx n } := by
      refine ⟨fun row hfind hlease hrun => ⟨row, (hjobs id).trans hfind, hlease, hrun, .inl rfl⟩, ?_,
        hissued.ge⟩
      rintro ⟨found, hfound, hstatus⟩
      obtain ⟨run', hrun', hspec⟩ := hruns runId found hfound
      rw [if_neg (by rintro ⟨-, hlive⟩; rw [isTerminal_of_cancelled hstatus] at hlive; cases hlive)]
        at hspec
      exact ⟨run', hrun', hspec ▸ hstatus⟩
    exact ⟨h.kept hrow (.of_queue h hqueue) rfl fun _ hmem => .inl hmem, hrow.absorbs h⟩

/-- A move of the queue that only takes tokens away. -/
theorem fades_keeps (h : Watched o id runId s) (hdb : s'.world.db = s.world.db)
    (hissued : s'.world.issued = s.world.issued) (hfades : s.world.queue.Fades s'.world.queue)
    (hholders : s'.holders = s.holders) (hpending : s'.pending = s.pending) :
    Watched o id runId s' ∧ Absorbs id s s' := by
  have hrow : RowKept id runId s s' := .of_db hdb hissued.ge
  exact ⟨h.kept hrow (.of_fades h hfades) hholders fun _ hmem => .inl (hpending ▸ hmem),
    hrow.absorbs h⟩

theorem publish_keeps (h : Watched o id runId s) {n : Nat}
    (hstep : s.step o ws (.publish n) = some s') : Watched o id runId s' ∧ Absorbs id s s' := by
  simp only [step] at hstep
  split at hstep
  · cases hstep
  · rename_i job hjob
    cases hstep
    obtain ⟨hlease, hrunId⟩ := h.pending job (List.mem_of_getElem? hjob)
    have hrow : RowKept id runId s { s with
        world := { s.world with queue := s.world.queue.enqueue job }
        pending := s.pending.eraseIdx n } := .of_db rfl (Nat.le_refl _)
    refine ⟨h.kept hrow ⟨fun token ht => JobQueue.enqueue_token hlease ht,
      JobQueue.enqueue_keyed h.keyed job, fun record hr => ?_⟩ rfl
      fun _ hmem => .inl (List.mem_of_mem_eraseIdx hmem), hrow.absorbs h⟩
    rcases JobQueue.enqueue_record s.world.queue job with heq | heq
    · exact h.record record (heq ▸ hr)
    · have hlookup := (congrArg (AList.lookup id) heq).symm.trans hr
      rw [Dict.lookup_insert_ite] at hlookup
      split at hlookup
      · rename_i hid
        cases hlookup
        exact hrunId hid.symm
      · exact h.record record hlookup

/-- **One fenced move**: the invariant is kept, and a terminal row keeps its status. -/
theorem step_keeps (h : Watched o id runId s) {move : Move} (hstep : s.step o ws move = some s')
    (hfence : s.Fenced move) : Watched o id runId s' ∧ Absorbs id s s' := by
  cases move with
  | claim consumer jobTypes duration now token => exact claim_keeps h hstep hfence
  | renew jobId token duration now =>
    cases hstep
    exact fades_keeps h rfl rfl (JobQueue.renew_fades _ _ _ _ _) rfl rfl
  | resume token a =>
    simp only [step] at hstep
    split at hstep
    · cases hstep
    · rename_i holder hholder
      cases hstep
      exact resume_keeps h hholder (hfence holder hholder)
  | publish n => exact publish_keeps h hstep
  | advance now other => exact advance_keeps h hstep
  | reclaim now limit =>
    simp only [step] at hstep
    have hfades := JobQueue.reclaimExpired_fades s.world.queue now limit
    split at hstep <;> cases hstep <;> exact fades_keeps h rfl rfl hfades rfl rfl
  | expire n now => exact expire_keeps h hstep
  | bury n now => exact bury_keeps h hstep
  | cancel now other reason => exact cancel_keeps h hstep
  | dropJobs n =>
    simp only [step] at hstep
    split at hstep
    · cases hstep
    · cases hstep
      exact fades_keeps h rfl rfl (JobQueue.cancelRunJobs_fades _ _) rfl rfl

/-! ### The start -/

/-- A job as the orchestrator persisted it, in the queue or not, before anybody works on it. -/
structure Published (o : Orchestrator) (w : World) (id : JobId) (row : Job) : Prop where
  drawn : ∃ n, n < w.issued ∧ id = ⟨o.ids.draw n⟩
  stored : w.db.job? id = some row
  lease : row.lease = none
  queue_inv : w.queue.Inv
  record : ∀ record, (w.queue.slot id).job = some record → record.runId = row.runId

theorem idle_watched {w : World} {row : Job} (h : Published o w id row) :
    Watched o id row.runId (idle w) where
  drawn := h.drawn
  row := ⟨row, h.stored, h.lease, rfl⟩
  keyed id record hr := (h.queue_inv id).keyed record hr
  record := h.record
  pending := by rintro _ ⟨⟩
  holders := by rintro _ _ _ _ ⟨⟩
  fresh := by rintro _ _ _ (hbad | hbad) <;> cases hbad

end System

end AgenticPlatform
