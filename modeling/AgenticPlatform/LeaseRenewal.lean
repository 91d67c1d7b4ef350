import AgenticPlatform.ExecuteOutcomes
import AgenticPlatform.Failure

/-!
# Cashing in a kept lease

`JobExecutor` runs a claimed job next to a task that renews its lease. The renewals
reach the queue's record; the `Job` object the handler completes is the copy `claim`
returned, and keeps the expiry of the first grant. This module follows the three copies
of a lease through any number of renewals and says when the handler's completion is
accepted.
-/

namespace AgenticPlatform

/-- A lease that was claimed and then renewed, while other calls left its job alone: the queue
    now, and the expiry that is current in it. -/
inductive Kept (job : Job) (lease : Lease) : JobQueue → Instant → Prop where
  | claimed {q : JobQueue} {duration : Duration} (consumer : WorkerId) (jobTypes : List JobType)
      (now : Instant) (token : LeaseToken) : q.Reachable → 0 < duration →
      (q.claim consumer jobTypes duration now token).result = .ok (some (job, lease)) →
      Kept job lease (q.claim consumer jobTypes duration now token).self lease.expiresAt
  | renewed {q : JobQueue} {expiry : Instant} {duration : Duration} {renewal : Lease}
      (now : Instant) : Kept job lease q expiry → 0 < duration →
      (q.renew job.id lease.token duration now).result = .ok renewal →
      Kept job lease (q.renew job.id lease.token duration now).self renewal.expiresAt
  | elsewhere {q q' : JobQueue} {expiry : Instant} : Kept job lease q expiry → q'.Reachable →
      q'.slot job.id = q.slot job.id → Kept job lease q' expiry

namespace Kept

variable {job : Job} {lease : Lease} {q : JobQueue} {expiry : Instant}

theorem reachable (h : Kept job lease q expiry) : q.Reachable := by
  induction h with
  | claimed consumer jobTypes now token hq hd _ => exact .claim consumer jobTypes now token hq hd
  | renewed now _ _ _ ih => exact .renew _ _ _ now ih
  | elsewhere _ hreachable _ _ => exact hreachable

/-- What the claim handed to the executor: a leased copy with the first expiry. -/
theorem holder (h : Kept job lease q expiry) : job.status = .leased ∧ job.lease = some lease := by
  induction h with
  | claimed consumer jobTypes now token hq hd hclaim =>
    rcases JobQueue.claim_cases hq.inv.coherent consumer jobTypes hd now token with
      ⟨hnone, -⟩ | ⟨stored, job', lease', -, -, -, hresult, -, -, hstatus, hlease, -⟩
    · rw [hclaim] at hnone
      cases hnone
    · rw [hclaim, Except.ok.injEq, Option.some.injEq, Prod.mk.injEq] at hresult
      obtain ⟨rfl, rfl⟩ := hresult
      exact ⟨hstatus, hlease⟩
  | renewed _ _ _ _ ih => exact ih
  | elsewhere _ _ _ ih => exact ih

/-- What the queue stores: the same token, with the current expiry. -/
theorem record (h : Kept job lease q expiry) :
    ∃ stored held, (q.slot job.id).job = some stored ∧ stored.lease = some held ∧
      held.token = lease.token ∧ held.expiresAt = expiry := by
  induction h with
  | claimed consumer jobTypes now token hq hd hclaim =>
    rcases JobQueue.claim_cases hq.inv.coherent consumer jobTypes hd now token with
      ⟨hnone, -⟩ | ⟨stored, job', lease', -, -, -, hresult, -, hwork, -, hlease, -, -, -, hslots⟩
    · rw [hclaim] at hnone
      cases hnone
    · rw [hclaim, Except.ok.injEq, Option.some.injEq, Prod.mk.injEq] at hresult
      obtain ⟨rfl, rfl⟩ := hresult
      refine ⟨job.rebuild, lease, ?_, hlease, rfl, rfl⟩
      rw [hslots, if_pos (Job.id_of_work hwork)]
      rfl
  | renewed now _ _ hrenew _ =>
    obtain ⟨stored, held, -, -, -, -, htoken, -, hslots⟩ := JobQueue.renew_cases hrenew
    rename_i renewal _ _ _
    refine ⟨{ stored with lease := some renewal }.rebuild, renewal, ?_, rfl, htoken, rfl⟩
    rw [hslots, if_pos rfl]
    rfl
  | elsewhere _ _ hslot ih =>
    rw [hslot]
    exact ih

end Kept

/-- The lease is kept, and at `now` it has not run out in the queue. -/
def KeptUntil (job : Job) (lease : Lease) (q : JobQueue) (now : Instant) : Prop :=
  ∃ expiry, Kept job lease q expiry ∧ now < expiry

/-- Nothing but the agents and tools raises during the dispatch. -/
def Answers.Calm (a : Answers) : Prop := ∀ site, a.fault site = none

theorem Answers.Calm.check {a : Answers} (h : a.Calm) (site : Site) : a.check site = .ok () := by
  simp [Answers.check, h site]

/-- The handler's completion is accepted, and the stored job succeeded. -/
def CashedIn (o : Orchestrator) (ws : Workspaces) (a : Answers) (job : Job) (lease : Lease)
    (effect : Effect) (w : World) : Prop :=
  (job.complete (some lease.token) a.now (some effect.result)).result = .ok () ∧
    ∃ row, (o.execute ws a job lease w).self.db.job? job.id = some row ∧ row.status = .succeeded

namespace Orchestrator

variable {o : Orchestrator} {a : Answers} {job : Job} {lease : Lease} {w : World} {run : Run}
  {effect : Effect}

theorem flush_ok (hcalm : a.Calm) {db : Db} {old : Job} (h : db.job? job.id = some old)
    (effect : Effect) : a.flush db effect job = .ok () := by
  simp [Answers.flush, Answers.checkIf, hcalm.check, Db.updateJob_of_some h]

/-- A live run's job goes to its stage handler. -/
theorem dispatch_eq_runStage (hopened : a.check .opening = .ok ())
    (hrun : w.db.run? job.runId = some run) (hlive : run.isTerminal = false)
    (hnc : run.isCancelling = false) : o.dispatch a job lease w = o.runStage a job lease w := by
  simp [dispatch, hopened, Db.requireRun, hrun, hlive, hnc]

/-- An accepted completion is stored, and stays stored while the workflow advances. -/
theorem execute_accepted (ws : Workspaces) {old : Job} (hcalm : a.Calm)
    (hrun : w.db.run? job.runId = some run) (hlive : run.isTerminal = false)
    (hnc : run.isCancelling = false) (hrow : w.db.job? job.id = some old)
    (heffect : o.stageEffect a job w = .ok effect)
    (hok : (job.complete (some lease.token) a.now (some effect.result)).result = .ok ()) :
    ∃ row, (o.execute ws a job lease w).self.db.job? job.id = some row ∧
      row.status = .succeeded := by
  let done := (job.complete (some lease.token) a.now (some effect.result)).self
  have hid : done.id = job.id := Job.id_of_work (Job.complete_work _ _ _ _)
  have hfind : w.db.job? done.id = some old := by rw [hid]; exact hrow
  have hcompleting : completing a job lease effect w.db =
      .returned done.stored (w.db.complete effect done) := by
    simp only [completing, hok]
    rw [flush_ok hcalm hfind, hcalm.check]
  have hstage : o.runStage a job lease w = .returned ({ w with
      db := w.db.complete effect done
      issued := effect.issued
      queue := w.queue.acknowledge done.stored.id lease.token }, done.stored) () := by
    simp only [runStage, heffect, hcompleting, acknowledging, hcalm.check, Call.result_returned,
      Call.self_returned]
  have hstored := job?_complete effect hfind
  rw [hid] at hstored
  refine ⟨done.stored, ?_, Job.complete_status hok⟩
  simp only [execute, dispatch_eq_runStage (hcalm.check .opening) hrun hlive hnc, hstage, Call.result_returned,
    Call.self_returned]
  exact advance_job? ws a.now job.runId hstored

/-- A refused completion ends in the failure path, and the job is not a success. -/
theorem execute_refused (ws : Workspaces) {old : Job} {e : PyError} (hcalm : a.Calm)
    (hinv : w.queue.Inv) (hopen : job.status.isTerminal = false)
    (hrun : w.db.run? job.runId = some run) (hlive : run.isTerminal = false)
    (hnc : run.isCancelling = false) (hrow : w.db.job? job.id = some old)
    (heffect : o.stageEffect a job w = .ok effect)
    (herror : (job.complete (some lease.token) a.now (some effect.result)).result = .error e) :
    ∃ row, (o.execute ws a job lease w).self.db.job? job.id = some row ∧
      row.status ≠ .succeeded := by
  have hself := Job.complete_raised herror
  have hstage : o.runStage a job lease w = .raised (w, job) e := by
    simp only [runStage, heffect, completing, herror, hself, Call.result_raised, Call.self_raised]
  simp only [execute, dispatch_eq_runStage (hcalm.check .opening) hrun hlive hnc, hstage, Call.result_raised,
    Call.self_raised]
  exact handleFailure_open ws a.now lease hinv hopen hrow hrun e

/-- **A kept lease can be cashed in exactly until its first expiry**, however often and
    however successfully it was renewed. -/
theorem cashedIn_iff (ws : Workspaces) {old : Job} (hkept : KeptUntil job lease w.queue a.now)
    (hcalm : a.Calm) (hrun : w.db.run? job.runId = some run) (hlive : run.isTerminal = false)
    (hnc : run.isCancelling = false) (hrow : w.db.job? job.id = some old)
    (heffect : o.stageEffect a job w = .ok effect) :
    CashedIn o ws a job lease effect w ↔ a.now < lease.expiresAt := by
  obtain ⟨expiry, hkept, -⟩ := hkept
  obtain ⟨hstatus, hlease⟩ := hkept.holder
  have hresult := Job.complete_result job lease.token a.now (some effect.result)
  constructor
  · rintro ⟨hok, -⟩
    rcases hresult.mp hok with hsucceeded | ⟨held, hheld, -, hin⟩
    · rw [hstatus] at hsucceeded
      cases hsucceeded
    · rw [hlease, Option.some.injEq] at hheld
      rw [hheld]
      exact hin
  · intro hin
    have hok := hresult.mpr (.inr ⟨lease, hlease, rfl, hin⟩)
    exact ⟨hok, execute_accepted ws hcalm hrun hlive hnc hrow heffect hok⟩

end Orchestrator

namespace Sample

/-- The candidate the sample job codes for. -/
def candidate : Candidate :=
  { Candidate.create ⟨5⟩ ⟨2⟩ 0 0 with status := .coding, workspaceId := some ⟨5⟩ }

def patch : Patch := ⟨"+fixed", none, [⟨"main.py", 1, 0⟩]⟩

/-- A coder that answers, with nothing else going wrong. -/
def coderAnswers (now : Instant) : Answers where
  now := now
  workspaceKnown _ := true
  planner := .error (.other "not asked")
  coder := .ok ⟨"done", [], patch, ⟨10, 5⟩, "v1", consumer⟩
  tool := .error (.other "not asked")
  reviewer := .error (.other "not asked")
  fault _ := none

/-- The claimed job after one renewal forty seconds into the lease. -/
def renewedWorld : World :=
  let w := claimedWorld 3 count_three
  { w with
    db := { w.db with candidates := [candidate] }
    queue := (w.queue.renew ⟨7⟩ token 120000000 40000010).self }

theorem renewedWorld_kept : Kept (heldJob 3 (by decide)) heldLease renewedWorld.queue 160000010 := by
  have hpub : (JobQueue.empty.slot (publishedJob 3 (by decide)).id).Publishable
      (publishedJob 3 (by decide)) := by
    rw [JobQueue.slot_empty]
    exact ⟨rfl, by simp⟩
  have hclaimed : Kept (heldJob 3 (by decide)) heldLease (claimed 3 (by decide)).self 120000010 :=
    .claimed consumer [.code] 10 token (.enqueue _ .empty hpub) (by decide) rfl
  have hresult : ((claimed 3 (by decide)).self.renew ⟨7⟩ token 120000000 40000010).result =
      .ok ⟨⟨7⟩, consumer, token, 10, 160000010, by decide⟩ := rfl
  exact .renewed 40000010 hclaimed (by decide) hresult

end Sample

namespace Orchestrator

/-- Before the first expiry the sample lease is cashed in. -/
theorem cashedIn_iff_sample :
    ∃ effect, CashedIn (Sample.orchestrator 3 (by decide)) .calm (Sample.coderAnswers 100000000)
      (Sample.heldJob 3 (by decide)) Sample.heldLease effect Sample.renewedWorld := by
  obtain ⟨effect, heffect⟩ : ∃ effect, (Sample.orchestrator 3 (by decide)).stageEffect
      (Sample.coderAnswers 100000000) (Sample.heldJob 3 (by decide)) Sample.renewedWorld =
      .ok effect := ⟨_, rfl⟩
  have hrow : Sample.renewedWorld.db.job? (Sample.heldJob 3 (by decide)).id =
      some (Sample.publishedJob 3 (by decide)) := rfl
  have hrun : Sample.renewedWorld.db.run? (Sample.heldJob 3 (by decide)).runId =
      some Sample.codingRun := rfl
  exact ⟨effect, (cashedIn_iff .calm ⟨_, Sample.renewedWorld_kept, by decide⟩ (fun _ => rfl) hrun
    rfl rfl hrow heffect).mpr (by decide)⟩

/-- Thirty seconds before the renewed expiry, and ten after the first one, the completion
    is refused and the job is not a success. -/
theorem kept_lease_refused :
    KeptUntil (Sample.heldJob 3 (by decide)) Sample.heldLease Sample.renewedWorld.queue 130000010 ∧
      (Sample.coderAnswers 130000010).Calm ∧
      ∃ effect, (Sample.orchestrator 3 (by decide)).stageEffect (Sample.coderAnswers 130000010)
          (Sample.heldJob 3 (by decide)) Sample.renewedWorld = .ok effect ∧
        ¬ CashedIn (Sample.orchestrator 3 (by decide)) .calm (Sample.coderAnswers 130000010)
          (Sample.heldJob 3 (by decide)) Sample.heldLease effect Sample.renewedWorld := by
  obtain ⟨effect, heffect⟩ : ∃ effect, (Sample.orchestrator 3 (by decide)).stageEffect
      (Sample.coderAnswers 130000010) (Sample.heldJob 3 (by decide)) Sample.renewedWorld =
      .ok effect := ⟨_, rfl⟩
  have hrow : Sample.renewedWorld.db.job? (Sample.heldJob 3 (by decide)).id =
      some (Sample.publishedJob 3 (by decide)) := rfl
  have hrun : Sample.renewedWorld.db.run? (Sample.heldJob 3 (by decide)).runId =
      some Sample.codingRun := rfl
  have hrefused : ((Sample.heldJob 3 (by decide)).complete (some Sample.heldLease.token) 130000010
      (some effect.result)).result = .error (.jobLeaseExpired ⟨7⟩ (some Sample.consumer)) := rfl
  refine ⟨⟨_, Sample.renewedWorld_kept, by decide⟩, fun _ => rfl, effect, heffect, ?_⟩
  rintro ⟨-, row, hrow', hsucceeded⟩
  obtain ⟨row', hnot, hstatus⟩ := execute_refused .calm (fun _ => rfl)
    Sample.renewedWorld_kept.reachable.inv rfl hrun rfl rfl hrow heffect hrefused
  rw [hrow', Option.some.injEq] at hnot
  exact hstatus (hnot ▸ hsucceeded)

end Orchestrator

end AgenticPlatform
