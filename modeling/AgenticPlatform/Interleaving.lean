import AgenticPlatform.Cancellation
import AgenticPlatform.JobQueueTokens
import AgenticPlatform.Maintenance

/-!
# Interleaving holders, maintenance and cancellation

Several tasks work on the same tables and the same queue: holders that run
`RunOrchestrator.execute` on their own copy of a claimed job, the maintenance loop, and
the cancellation use case. Each of them is a sequence of atomic pieces, a committed
transaction or one queue operation; between two pieces any other task may run. That a
transaction is one piece is presumed: `update` reads a row again before it overwrites it,
so no version check keeps another transaction from committing in between;
`OpenTransactions` lets them. The job row a holder overwrites is the copy it was handed,
not one that its transaction read.
-/

namespace AgenticPlatform

/-- Where a holder stands between two pieces of `execute`. -/
inductive Holder where
  | claimed (job : Job) (lease : Lease)
  | working (job : Job) (lease : Lease)
  | acknowledging (job : Job) (lease : Lease)
  | reporting (job : Job) (lease : Lease) (e : PyError)
  | releasing (job : Job) (lease : Lease) (decision : RetryDecision)
  | requeueing (jobId : JobId) (reason : String)

/-- The copy a holder may still write to the table, with its lease. -/
def Holder.copy : Holder → Option (Job × Lease)
  | .claimed job lease => some (job, lease)
  | .working job lease => some (job, lease)
  | .acknowledging job lease => some (job, lease)
  | .reporting job lease _ => some (job, lease)
  | .releasing _ _ _ => none
  | .requeueing _ _ => none

/-- What one piece leaves: the world, the holder if it goes on, and a committed job it
    has still to publish. -/
structure Piece where
  world : World
  holder : Option Holder
  publish : Option Job

/-- The next piece of `execute` for a holder. -/
def Holder.resume (o : Orchestrator) (a : Answers) (w : World) : Holder → Piece
  | .claimed job lease =>
      match a.check .opening with
      | .error e => ⟨w, some (.reporting job lease e), none⟩
      | .ok () =>
          match w.db.requireRun job.runId with
          | .error e => ⟨w, some (.reporting job lease e), none⟩
          | .ok run =>
              if run.isCancelling ∨ run.isTerminal then
                let call := Orchestrator.cancelling a job w.db
                match call.result with
                | .error e => ⟨w, some (.reporting call.self lease e), none⟩
                | .ok db => ⟨{ w with db }, some (.acknowledging call.self lease), none⟩
              else ⟨w, some (.working job lease), none⟩
  | .working job lease =>
      match o.stageEffect a job w with
      | .error e => ⟨w, some (.reporting job lease e), none⟩
      | .ok effect =>
          let call := completing a job lease effect w.db
          match call.result with
          | .error e => ⟨w, some (.reporting call.self lease e), none⟩
          | .ok db =>
              ⟨{ w with db, issued := effect.issued }, some (.acknowledging call.self lease), none⟩
  | .acknowledging job lease =>
      match a.check .acknowledge with
      | .error e => ⟨w, some (.reporting job lease e), none⟩
      | .ok () => ⟨{ w with queue := w.queue.acknowledge job.id lease.token }, none, none⟩
  | .reporting job lease e =>
      let decision := o.retry.decide (classify e) job.attempt
      match Orchestrator.recordFailure a.now job e decision.shouldRetryJob w.db with
      | .error _ => ⟨w, none, none⟩
      | .ok db => ⟨{ w with db }, some (.releasing job lease decision), none⟩
  | .releasing job lease decision =>
      let release := w.queue.release job.id lease.token decision.shouldRetryJob
      let w := { w with queue := release.self }
      match release.result with
      | .error _ => ⟨w, none, none⟩
      | .ok () =>
          if decision.shouldRetryJob then ⟨w, some (.requeueing job.id decision.reason), none⟩
          else ⟨w, none, none⟩
  | .requeueing jobId reason =>
      match w.db.job? jobId with
      | none => ⟨w, none, none⟩
      | some stored =>
          let call := stored.requeue a.now reason
          match call.result with
          | .error _ => ⟨w, none, none⟩
          | .ok () =>
              ⟨{ w with db := (w.db.setJob call.self).append call.self.events }, none,
                some call.self.stored⟩

/-- The tables and the queue, with everything that is under way: a holder for each
    token, jobs committed and not yet published, reclaimed jobs whose row was not yet
    looked at, jobs given up, and cancelled runs the queue was not yet told of. -/
structure System where
  world : World
  holders : LeaseToken → Option Holder
  pending : List Job
  lapsed : List JobId
  dead : List Job
  cancelled : List RunId

inductive Move where
  | claim (consumer : WorkerId) (jobTypes : List JobType) (duration : Duration) (now : Instant)
      (token : LeaseToken)
  | renew (jobId : JobId) (token : LeaseToken) (duration : Duration) (now : Instant)
  | resume (token : LeaseToken) (a : Answers)
  | publish (n : Nat)
  | advance (now : Instant) (runId : RunId)
  | reclaim (now : Instant) (limit : Nat)
  | expire (n : Nat) (now : Instant)
  | bury (n : Nat) (now : Instant)
  | cancel (now : Instant) (runId : RunId) (reason : Option String)
  | dropJobs (n : Nat)

namespace System

def setHolder (s : System) (token : LeaseToken) (holder : Option Holder) : System :=
  { s with holders := Function.update s.holders token holder }

/-- A holder ran its next piece. -/
def resumed (o : Orchestrator) (s : System) (token : LeaseToken) (a : Answers) (holder : Holder) :
    System :=
  let piece := holder.resume o a s.world
  { s with world := piece.world, pending := s.pending ++ piece.publish.toList }.setHolder token
    piece.holder

/-- The transaction of `MaintenanceLoop._requeue` on a row, and what it leaves to do. -/
def expireRow (s : System) (now : Instant) (job : Job) : System :=
  let (job, retryable) := job.expireLease now
  if retryable then
    let call := job.requeue now "lease expired: the worker stopped reporting"
    match call.result with
    | .error _ => s
    | .ok () =>
        { s with
          world := { s.world with db := (s.world.db.setJob call.self).append call.self.events }
          pending := s.pending ++ [call.self.stored] }
  else
    { s with
      world := { s.world with db := (s.world.db.setJob job).append job.events }
      dead := s.dead ++ [job.stored] }

/-- One move, if it is enabled. A token is claimed under only once. -/
def step (o : Orchestrator) (ws : Workspaces) (s : System) : Move → Option System
  | .claim consumer jobTypes duration now token =>
      match s.holders token with
      | some _ => none
      | none =>
          let call := s.world.queue.claim consumer jobTypes duration now token
          let claimed := { s with world := { s.world with queue := call.self } }
          match call.result with
          | .ok (some (job, lease)) => some (claimed.setHolder token (some (.claimed job lease)))
          | _ => some claimed
  | .renew jobId token duration now =>
      some { s with
        world := { s.world with queue := (s.world.queue.renew jobId token duration now).self } }
  | .resume token a =>
      match s.holders token with
      | none => none
      | some holder => some (s.resumed o token a holder)
  | .publish n =>
      match s.pending[n]? with
      | none => none
      | some job =>
          some { s with
            world := { s.world with queue := s.world.queue.enqueue job }
            pending := s.pending.eraseIdx n }
  | .advance now runId =>
      match o.advanceCommit ws now runId s.world with
      | .error _ => some s
      | .ok (w, jobs) => some { s with world := w, pending := s.pending ++ jobs }
  | .reclaim now limit =>
      let call := s.world.queue.reclaimExpired now limit
      let reclaimed := { s with world := { s.world with queue := call.self } }
      match call.result with
      | .error _ => some reclaimed
      | .ok ids => some { reclaimed with lapsed := s.lapsed ++ ids }
  | .expire n now =>
      match s.lapsed[n]? with
      | none => none
      | some jobId =>
          let rest := { s with lapsed := s.lapsed.eraseIdx n }
          match s.world.db.job? jobId with
          | none => some rest
          | some job => if job.status.isTerminal then some rest else some (rest.expireRow now job)
  | .bury n now =>
      match s.dead[n]? with
      | none => none
      | some job =>
          some { s with
            world := (Orchestrator.handleDeadJob now job s.world).self
            dead := s.dead.eraseIdx n }
  | .cancel now runId reason =>
      match cancelRunCommit now runId reason s.world.db with
      | .ok (some db) =>
          some { s with world := { s.world with db }, cancelled := s.cancelled ++ [runId] }
      | _ => some s
  | .dropJobs n =>
      match s.cancelled[n]? with
      | none => none
      | some runId =>
          some { s with
            world := { s.world with queue := (s.world.queue.cancelRunJobs runId).1 }
            cancelled := s.cancelled.eraseIdx n }

/-- A finite interleaving. -/
def run (o : Orchestrator) (ws : Workspaces) (s : System) : List Move → Option System
  | [] => some s
  | move :: rest => (s.step o ws move).bind fun s => run o ws s rest

/-- Nothing is under way. -/
def idle (w : World) : System := ⟨w, fun _ => none, [], [], [], []⟩

variable {o : Orchestrator} {ws : Workspaces} {s s' : System}

theorem expireRow_holders (s : System) (now : Instant) (job : Job) :
    (s.expireRow now job).holders = s.holders := by
  unfold expireRow
  simp only
  split
  · split <;> rfl
  · rfl

/-- A holder stays where it is until its own next piece. -/
theorem step_holders {move : Move} (hstep : s.step o ws move = some s') {token : LeaseToken}
    {holder : Holder} (hholder : s.holders token = some holder)
    (hother : ∀ a, move ≠ .resume token a) : s'.holders token = some holder := by
  cases move with
  | claim consumer jobTypes duration now claimed =>
    simp only [System.step] at hstep
    split at hstep
    · cases hstep
    · rename_i hnone
      have hne : token ≠ claimed := by
        rintro rfl
        rw [hnone] at hholder
        cases hholder
      split at hstep
      · cases hstep
        simp only [setHolder, Function.update_of_ne hne]
        exact hholder
      · cases hstep
        exact hholder
  | renew jobId renewed duration now =>
    cases hstep
    exact hholder
  | resume resumed a =>
    have hne : token ≠ resumed := by
      rintro rfl
      exact hother a rfl
    simp only [System.step] at hstep
    split at hstep
    · cases hstep
    · cases hstep
      simp only [System.resumed, setHolder, Function.update_of_ne hne]
      exact hholder
  | publish n =>
    simp only [System.step] at hstep
    split at hstep <;> cases hstep
    exact hholder
  | advance now runId =>
    simp only [System.step] at hstep
    split at hstep <;> cases hstep <;> exact hholder
  | reclaim now limit =>
    simp only [System.step] at hstep
    split at hstep <;> cases hstep <;> exact hholder
  | expire n now =>
    simp only [System.step] at hstep
    split at hstep
    · cases hstep
    · split at hstep
      · cases hstep
        exact hholder
      · split at hstep
        · cases hstep
          exact hholder
        · cases hstep
          rw [expireRow_holders]
          exact hholder
  | bury n now =>
    simp only [System.step] at hstep
    split at hstep <;> cases hstep
    exact hholder
  | cancel now cancelled reason =>
    simp only [System.step] at hstep
    split at hstep <;> cases hstep <;> exact hholder
  | dropJobs n =>
    simp only [System.step] at hstep
    split at hstep <;> cases hstep
    exact hholder

/-! ### A holder nobody interrupts -/

theorem completing_work (a : Answers) (job : Job) (lease : Lease) (effect : Effect) (db : Db) :
    (completing a job lease effect db).self.work = job.work := by
  have hwork := Job.complete_work job (some lease.token) a.now (some effect.result)
  unfold completing
  simp only
  split
  · exact hwork
  · split
    · exact hwork
    · split <;> exact hwork

theorem cancelling_work (a : Answers) (job : Job) (db : Db) :
    (Orchestrator.cancelling a job db).self.work = job.work := by
  have hwork := Job.cancel_work job a.now
  unfold Orchestrator.cancelling
  simp only
  split
  · exact hwork
  · split
    · exact hwork
    · split <;> exact hwork

/-- The interleaving gets from `s` to the given world. -/
def Leads (o : Orchestrator) (ws : Workspaces) (s : System) (w : World) : Prop :=
  ∃ moves s', s.run o ws moves = some s' ∧ s'.world = w

theorem Leads.here (s : System) : Leads o ws s s.world := ⟨[], s, rfl, rfl⟩

theorem Leads.step (move : Move) {w : World} (hstep : s.step o ws move = some s')
    (h : Leads o ws s' w) : Leads o ws s w := by
  obtain ⟨moves, last, hrun, hw⟩ := h
  exact ⟨move :: moves, last, by simp only [run, hstep, Option.bind_some, hrun], hw⟩

theorem leads_publish (jobs : List Job) (hpending : s.pending = jobs) :
    Leads o ws s { s.world with queue := s.world.queue.publish jobs } := by
  induction jobs generalizing s with
  | nil => exact .here s
  | cons job rest ih =>
    have hstep : s.step o ws (.publish 0) = some { s with
        world := { s.world with queue := s.world.queue.enqueue job }, pending := rest } := by
      simp [System.step, hpending]
    exact .step _ hstep (ih rfl)

theorem leads_advance (now : Instant) (runId : RunId) (hpending : s.pending = []) :
    Leads o ws s (o.advance ws now runId s.world).self := by
  unfold Orchestrator.advance
  cases hcommit : o.advanceCommit ws now runId s.world with
  | error e => exact .here s
  | ok found =>
    obtain ⟨w, jobs⟩ := found
    have hstep : s.step o ws (.advance now runId) = some { s with world := w, pending := jobs } := by
      simp [System.step, hcommit, hpending]
    exact .step _ hstep (leads_publish jobs rfl)

variable {token : LeaseToken} {a : Answers} {job : Job} {lease : Lease}

theorem step_resume {holder : Holder} (hholder : s.holders token = some holder) :
    s.step o ws (.resume token a) = some (s.resumed o token a holder) := by
  simp only [System.step, hholder]

/-- A holder at work: it runs its next piece and nothing else is pending. -/
theorem leads_resume {holder : Holder} {piece : Piece} {w : World}
    (hholder : s.holders token = some holder) (hpiece : holder.resume o a s.world = piece)
    (hrest : ∀ s' : System, s'.world = piece.world → s'.holders token = piece.holder →
      s'.pending = s.pending ++ piece.publish.toList → Leads o ws s' w) : Leads o ws s w := by
  refine .step _ (step_resume (a := a) hholder) (hrest _ ?_ ?_ ?_)
  · simp only [resumed, hpiece, setHolder]
  · simp only [resumed, hpiece, setHolder, Function.update_self]
  · simp only [resumed, hpiece, setHolder]

theorem leads_handleFailure {e : PyError} (hholder : s.holders token = some (.reporting job lease e))
    (hpending : s.pending = []) :
    Leads o ws s (o.handleFailure ws a.now job lease e s.world).self := by
  refine leads_resume (a := a) hholder rfl fun s₁ hworld hnext hpend => ?_
  simp only [Holder.resume] at hworld hnext hpend
  simp only [Orchestrator.handleFailure]
  cases hrecord : Orchestrator.recordFailure a.now job e
      (o.retry.decide (classify e) job.attempt).shouldRetryJob s.world.db with
  | error e' =>
    simp only [hrecord] at hworld ⊢
    exact ⟨[], s₁, rfl, hworld⟩
  | ok db =>
    simp only [hrecord, Option.toList_none, List.append_nil] at hworld hnext hpend ⊢
    refine leads_resume (a := a) hnext rfl fun s₂ hworld₂ hnext₂ hpend₂ => ?_
    simp only [Holder.resume, hworld] at hworld₂ hnext₂ hpend₂
    cases hrelease : (s.world.queue.release job.id lease.token
        (o.retry.decide (classify e) job.attempt).shouldRetryJob).result with
    | error e' =>
      simp only [hrelease] at hworld₂ ⊢
      exact ⟨[], s₂, rfl, hworld₂⟩
    | ok u =>
      simp only [hrelease] at hworld₂ hnext₂ hpend₂ ⊢
      cases hretry : (o.retry.decide (classify e) job.attempt).shouldRetryJob with
      | false =>
        simp only [hretry, Bool.false_eq_true, if_false, Option.toList_none, List.append_nil]
          at hworld₂ hpend₂ ⊢
        rw [← hworld₂]
        exact leads_advance a.now job.runId (hpend₂.trans (hpend.trans hpending))
      | true =>
        simp only [hretry, if_true, Option.toList_none, List.append_nil] at hworld₂ hnext₂ hpend₂ ⊢
        refine leads_resume (a := a) hnext₂ rfl fun s₃ hworld₃ _ hpend₃ => ?_
        simp only [Holder.resume, hworld₂] at hworld₃ hpend₃
        simp only [Orchestrator.requeueFailed]
        cases hrow : db.job? job.id with
        | none =>
          simp only [hrow] at hworld₃ ⊢
          exact ⟨[], s₃, rfl, hworld₃⟩
        | some stored =>
          simp only [hrow] at hworld₃ hpend₃ ⊢
          cases hrequeue : (stored.requeue a.now
              (o.retry.decide (classify e) job.attempt).reason).result with
          | error e' =>
            simp only [hrequeue] at hworld₃ ⊢
            exact ⟨[], s₃, rfl, hworld₃⟩
          | ok u =>
            simp only [hrequeue, Option.toList_some] at hworld₃ hpend₃ ⊢
            have hone : s₃.pending = [(stored.requeue a.now
                (o.retry.decide (classify e) job.attempt).reason).self.stored] := by
              rw [hpend₃, hpend₂, hpend, hpending, List.nil_append]
            have hlead : Leads o ws s₃ { s₃.world with queue := s₃.world.queue.publish _ } :=
              leads_publish _ hone
            rw [hworld₃] at hlead
            exact hlead

/-- A dispatch that raised ends in the failure path. -/
theorem leads_of_raised {copy : Job} {e : PyError} {w : World}
    (h : o.dispatch a job lease w = .raised (s.world, copy) e)
    (hholder : s.holders token = some (.reporting copy lease e)) (hpending : s.pending = []) :
    Leads o ws s (o.execute ws a job lease w).self := by
  simp only [Orchestrator.execute, h, Call.result_raised, Call.self_raised]
  exact leads_handleFailure hholder hpending

/-- A dispatch that stored its job acknowledges it and advances the run. -/
theorem leads_of_stored {copy : Job} {w : World} (hrunId : copy.runId = job.runId)
    (h : o.dispatch a job lease w = acknowledging a copy lease s.world)
    (hholder : s.holders token = some (.acknowledging copy lease)) (hpending : s.pending = []) :
    Leads o ws s (o.execute ws a job lease w).self := by
  refine leads_resume (a := a) hholder rfl fun s₁ hworld hnext hpend => ?_
  simp only [Holder.resume] at hworld hnext hpend
  simp only [acknowledging] at h
  cases hack : a.check .acknowledge with
  | error e =>
    simp only [hack, Option.toList_none, List.append_nil] at h hworld hnext hpend
    exact leads_of_raised (h.trans (by rw [hworld])) hnext (hpend.trans hpending)
  | ok u =>
    simp only [hack, Option.toList_none, List.append_nil] at h hworld hpend
    simp only [Orchestrator.execute, h, Call.result_returned, Call.self_returned]
    rw [← hworld, ← hrunId]
    exact leads_advance a.now copy.runId (hpend.trans hpending)

theorem leads_runStage (h : o.dispatch a job lease s.world = o.runStage a job lease s.world)
    (hholder : s.holders token = some (.working job lease)) (hpending : s.pending = []) :
    Leads o ws s (o.execute ws a job lease s.world).self := by
  refine leads_resume (a := a) hholder rfl fun s₁ hworld hnext hpend => ?_
  simp only [Holder.resume] at hworld hnext hpend
  simp only [Orchestrator.runStage] at h
  cases heffect : o.stageEffect a job s.world with
  | error e =>
    simp only [heffect, Option.toList_none, List.append_nil] at h hworld hnext hpend
    exact leads_of_raised (h.trans (by rw [hworld])) hnext (hpend.trans hpending)
  | ok effect =>
    simp only [heffect] at h hworld hnext hpend
    cases hcall : (completing a job lease effect s.world.db).result with
    | error e =>
      simp only [hcall, Option.toList_none, List.append_nil] at h hworld hnext hpend
      exact leads_of_raised (h.trans (by rw [hworld])) hnext (hpend.trans hpending)
    | ok db =>
      simp only [hcall, Option.toList_none, List.append_nil] at h hworld hnext hpend
      refine leads_of_stored ?_ (h.trans (by rw [hworld])) hnext (hpend.trans hpending)
      exact Job.runId_of_work (completing_work a job lease effect s.world.db)

/-- **`execute` is one interleaving**: the one in which nobody interrupts the holder. -/
theorem leads_execute (hholder : s.holders token = some (.claimed job lease))
    (hpending : s.pending = []) : Leads o ws s (o.execute ws a job lease s.world).self := by
  refine leads_resume (a := a) hholder rfl fun s₁ hworld hnext hpend => ?_
  simp only [Holder.resume] at hworld hnext hpend
  have hdispatch : o.dispatch a job lease s.world = o.dispatch a job lease s.world := rfl
  conv_rhs at hdispatch => unfold Orchestrator.dispatch
  cases hopened : a.check .opening with
  | error e =>
    simp only [hopened, Option.toList_none, List.append_nil] at hdispatch hworld hnext hpend
    exact leads_of_raised (hdispatch.trans (by rw [hworld])) hnext (hpend.trans hpending)
  | ok u =>
    cases hrun : s.world.db.requireRun job.runId with
    | error e =>
      simp only [hopened, hrun, Option.toList_none, List.append_nil] at hdispatch hworld hnext hpend
      exact leads_of_raised (hdispatch.trans (by rw [hworld])) hnext (hpend.trans hpending)
    | ok run =>
      by_cases hstop : run.isCancelling = true ∨ run.isTerminal = true
      · simp only [hopened, hrun, if_pos hstop, Orchestrator.cancelJob] at hdispatch hworld hnext hpend
        cases hcall : (Orchestrator.cancelling a job s.world.db).result with
        | error e =>
          simp only [hcall, Option.toList_none, List.append_nil] at hdispatch hworld hnext hpend
          exact leads_of_raised (hdispatch.trans (by rw [hworld])) hnext (hpend.trans hpending)
        | ok db =>
          simp only [hcall, Option.toList_none, List.append_nil] at hdispatch hworld hnext hpend
          refine leads_of_stored ?_ (hdispatch.trans (by rw [hworld])) hnext (hpend.trans hpending)
          exact Job.runId_of_work (cancelling_work a job s.world.db)
      · simp only [hopened, hrun, if_neg hstop, Option.toList_none, List.append_nil]
          at hdispatch hworld hnext hpend
        rw [← hworld] at hdispatch ⊢
        exact leads_runStage hdispatch hnext (hpend.trans hpending)

/-- So is `_requeue` of a reclaimed job. -/
theorem leads_requeue (m : MaintenanceLoop) (now : Instant) {jobId : JobId}
    (hlapsed : s.lapsed[0]? = some jobId) (hpending : s.pending = []) (hdead : s.dead = []) :
    Leads o ws s (m.requeue now jobId s.world).self := by
  unfold MaintenanceLoop.requeue
  cases hrow : s.world.db.job? jobId with
  | none => exact .here s
  | some job =>
    simp only
    split
    · exact .here s
    · rename_i hopen
      have hstep : s.step o ws (.expire 0 now) =
          some (System.expireRow { s with lapsed := s.lapsed.eraseIdx 0 } now job) := by
        simp only [System.step, hlapsed, hrow, hopen, Bool.false_eq_true, if_false]
      refine .step _ hstep ?_
      unfold MaintenanceLoop.requeueRow expireRow
      by_cases hretry : (job.expireLease now).2 = true
      · have hresult := Job.requeue_of_retryable hretry
          "lease expired: the worker stopped reporting"
        simp only [hretry, if_true, hresult]
        exact leads_publish [_] (by rw [hpending, List.nil_append])
      · simp only [hretry, Bool.false_eq_true, if_false]
        cases m.orchestrator with
        | none => exact .here _
        | some _ =>
          simp only [hdead, List.nil_append]
          obtain ⟨hburied, -⟩ := MaintenanceLoop.handleDeadJob_spec now
            (job.expireLease now).1.stored { s.world with
              db := (s.world.db.setJob (job.expireLease now).1).append
                (job.expireLease now).1.events }
          simp only [hburied, Call.self_returned]
          exact .step (.bury 0 now) rfl (.here _)

end System

end AgenticPlatform
