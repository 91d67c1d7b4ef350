import AgenticPlatform.JobQueueHistory
import AgenticPlatform.Timestamps

/-!
# The queue's calls with the times they are given

`claim`, `renew` and `reclaim_expired` are handed a `datetime`. One without a zone cannot be
compared with a stored expiry, and makes no lease; nor does a duration that is not positive
or leads beyond the calendar. A claim finds that out only after it has deleted the ready
entry of the job, so the job is queued and nobody will be handed it. A history without such
a claim is one of calls with plain instants.
-/

namespace AgenticPlatform

open Dict

/-- What comparing a time without a zone with one that has a zone raises. -/
def mixedTimes : PyError := .other "can't compare offset-naive and offset-aware datetimes"

namespace JobQueue

/-- The lease step of `claim`. -/
def grantAt (q : JobQueue) (jobId : JobId) (stored : Job) (consumer : WorkerId)
    (leaseDuration : Duration) (now : CallTime) (token : LeaseToken) :
    Call JobQueue (Option (Job × Lease)) :=
  match now.leaseError leaseDuration with
  | some e => .raised q e
  | none => q.grant jobId stored consumer leaseDuration now.instant token

/-- The `while True` of `claim`; an entry is deleted before its job is looked at. -/
def claimLoopAt (wanted : List JobType) (consumer : WorkerId) (leaseDuration : Duration)
    (now : CallTime) (token : LeaseToken) :
    Nat → JobQueue → Call JobQueue (Option (Job × Lease))
  | 0, q => .returned q none
  | rounds + 1, q =>
      match q.nextReady wanted with
      | none => .returned q none
      | some (jobType, jobId) =>
          let q := { q with ready := popInner q.ready jobType jobId }
          match q.jobs.lookup jobId with
          | none => claimLoopAt wanted consumer leaseDuration now token rounds q
          | some stored =>
              if stored.status = .queued then
                q.grantAt jobId stored consumer leaseDuration now token
              else claimLoopAt wanted consumer leaseDuration now token rounds q

def claimAt (q : JobQueue) (consumer : WorkerId) (jobTypes : List JobType)
    (leaseDuration : Duration) (now : CallTime) (token : LeaseToken) :
    Call JobQueue (Option (Job × Lease)) :=
  claimLoopAt jobTypes.eraseDups consumer leaseDuration now token (q.depth + 1) q

/-- `renew`: the token is checked, then the expiry is compared, then the new one computed. -/
def renewAt (q : JobQueue) (jobId : JobId) (token : LeaseToken) (duration : Duration)
    (now : CallTime) : Call JobQueue Lease :=
  match q.jobs.lookup jobId with
  | none => .raised q (.jobLeaseExpired jobId none)
  | some job =>
      if holds job token ∧ now.aware = false then .raised q mixedTimes
      else
        match job.assertLease token now.instant with
        | .error e => .raised q e
        | .ok _ =>
            if now.Reaches duration then q.renew jobId token duration now.instant
            else .raised q (.other "date value out of range")

/-- `reclaim_expired`: the expiry of every lease is compared first. -/
def reclaimExpiredAt (q : JobQueue) (now : CallTime) (limit : Int) : Call JobQueue (List JobId) :=
  if now.aware then q.reclaimExpired now.instant (sliceEnd (q.lapsed now.instant).length limit)
  else if q.leases.entries = [] then .returned q []
  else .raised q mixedTimes

end JobQueue

/-- One call of the queue, with its time as the caller has it. -/
inductive TimedCall where
  | enqueue (job : Job)
  | claim (consumer : WorkerId) (jobTypes : List JobType) (duration : Duration) (now : CallTime)
      (token : LeaseToken)
  | renew (id : JobId) (token : LeaseToken) (duration : Duration) (now : CallTime)
  | acknowledge (id : JobId) (token : LeaseToken)
  | release (id : JobId) (token : LeaseToken) (requeue : Bool)
  | reclaimExpired (now : CallTime) (limit : Int)
  | cancelRunJobs (runId : RunId)

namespace TimedCall

/-- The queue after the call, and the answer. -/
def apply (q : JobQueue) : TimedCall → JobQueue × QueueReply
  | .enqueue job => (q.enqueue job, .done)
  | .claim consumer jobTypes duration now token =>
      let call := q.claimAt consumer jobTypes duration now token
      (call.self, .of .claimed call.result)
  | .renew id token duration now =>
      let call := q.renewAt id token duration now
      (call.self, .of .renewed call.result)
  | .acknowledge id token => (q.acknowledge id token, .done)
  | .release id token requeue =>
      let call := q.release id token requeue
      (call.self, .of (fun _ => .done) call.result)
  | .reclaimExpired now limit =>
      let call := q.reclaimExpiredAt now limit
      (call.self, .of .ids call.result)
  | .cancelRunJobs runId => ((q.cancelRunJobs runId).1, .ids (q.cancelRunJobs runId).2)

/-- The call at the instant its time stands for. -/
def plain : TimedCall → QueueCall
  | .enqueue job => .enqueue job
  | .claim consumer jobTypes duration now token => .claim consumer jobTypes duration now.instant token
  | .renew id token duration now => .renew id token duration now.instant
  | .acknowledge id token => .acknowledge id token
  | .release id token requeue => .release id token requeue
  | .reclaimExpired now limit => .reclaimExpired now.instant limit
  | .cancelRunJobs runId => .cancelRunJobs runId

/-- The claim does not strand a job: it finds none, or can be granted a lease. -/
def NoStranding (q : JobQueue) : TimedCall → Prop
  | .claim _ jobTypes duration now _ =>
      (∃ id job, q.jobs.lookup id = some job ∧ job.type ∈ jobTypes ∧ job.status = .queued) →
        now.Grants duration
  | _ => True

/-- What callers promise: published jobs carry no lease and keep their type and run,
    and leases last a positive time. -/
def Allowed (q : JobQueue) : TimedCall → Prop
  | .enqueue job => (q.slot job.id).Publishable job
  | .claim _ _ duration _ _ => 0 < duration
  | .renew _ _ duration _ => 0 < duration
  | _ => True

end TimedCall

namespace JobQueue

variable {q : JobQueue} {consumer : WorkerId} {jobTypes : List JobType} {duration : Duration}
  {now : CallTime} {token : LeaseToken} {id : JobId}

/-- One call after the other. -/
def timedStep (q : JobQueue) (call : TimedCall) : JobQueue := (call.apply q).1

/-- The queue a history leads to. -/
abbrev afterTimed (q : JobQueue) (calls : List TimedCall) : JobQueue := Runs.after timedStep q calls

/-- Callers keep their promises throughout the history, and no claim strands a job. -/
def Regular (q : JobQueue) (calls : List TimedCall) : Prop :=
  Runs.Along timedStep (fun q call => call.Allowed q ∧ call.NoStranding q) q calls

/-! ### Calls that go through -/

/-- A claim that can be granted a lease is one at an instant. -/
theorem claimLoopAt_eq (h : now.Grants duration) (wanted : List JobType) (consumer : WorkerId)
    (token : LeaseToken) (rounds : Nat) (q : JobQueue) :
    claimLoopAt wanted consumer duration now token rounds q =
      claimLoop wanted consumer duration now.instant token rounds q := by
  induction rounds generalizing q with
  | zero => rfl
  | succ rounds ih =>
    have hgrant : ∀ (q : JobQueue) (id : JobId) (stored : Job),
        q.grantAt id stored consumer duration now token =
          q.grant id stored consumer duration now.instant token := by
      intro q id stored
      simp only [grantAt, CallTime.leaseError_eq_none.mpr h]
    unfold claimLoopAt claimLoop
    simp only [ih, hgrant] <;> rfl

theorem claimAt_eq (h : now.Grants duration) :
    q.claimAt consumer jobTypes duration now token =
      q.claim consumer jobTypes duration now.instant token :=
  claimLoopAt_eq h _ _ _ _ _

theorem claimAt_none (h : q.nextReady jobTypes.eraseDups = none) :
    q.claimAt consumer jobTypes duration now token = .returned q none := by
  unfold claimAt claimLoopAt
  rw [h]

/-- Where no job of a requested type is queued, nothing is ready. -/
theorem nextReady_idle (hinv : q.Inv)
    (h : ¬ ∃ id job, q.jobs.lookup id = some job ∧ job.type ∈ jobTypes ∧ job.status = .queued) :
    q.nextReady jobTypes.eraseDups = none := by
  cases hnext : q.nextReady jobTypes.eraseDups with
  | none => rfl
  | some found =>
    obtain ⟨jobType, id⟩ := found
    obtain ⟨hmem, hready⟩ := nextReady_spec hnext
    obtain ⟨score, hscore⟩ := hready
    obtain ⟨job, hjob, htype, hqueued⟩ := (hinv id).coherent.of_ready (k := jobType) hscore
    refine absurd ⟨id, job, hjob, ?_, hqueued⟩ h
    rw [htype]
    exact List.mem_eraseDups.mp hmem

/-- A renewal raises and changes nothing, or is one at an instant. -/
theorem renewAt_cases (q : JobQueue) (id : JobId) (token : LeaseToken) (duration : Duration)
    (now : CallTime) :
    (q.renewAt id token duration now).self = q ∨
      q.renewAt id token duration now = q.renew id token duration now.instant := by
  unfold renewAt
  split
  · exact .inl rfl
  · split
    · exact .inl rfl
    · split
      · exact .inl rfl
      · split
        · exact .inr rfl
        · exact .inl rfl

theorem reclaimExpiredAt_cases (q : JobQueue) (now : CallTime) (limit : Int) :
    (q.reclaimExpiredAt now limit).self = q ∨
      q.reclaimExpiredAt now limit =
        q.reclaimExpired now.instant (sliceEnd (q.lapsed now.instant).length limit) := by
  unfold reclaimExpiredAt
  split
  · exact .inr rfl
  · split
    · exact .inl rfl
    · exact .inl rfl

/-- A renewal answers with a lease or raises. -/
theorem renewAt_hands_nothing (q : JobQueue) (id : JobId) (token : LeaseToken)
    (duration : Duration) (now : CallTime) (found : Option (Job × Lease)) :
    ((TimedCall.renew id token duration now).apply q).2 ≠ .claimed found := by
  simp only [TimedCall.apply]
  cases (q.renewAt id token duration now).result with
  | error e => simp [QueueReply.of]
  | ok renewed => simp [QueueReply.of]

theorem reclaimExpiredAt_hands_nothing (q : JobQueue) (now : CallTime) (limit : Int)
    (found : Option (Job × Lease)) :
    ((TimedCall.reclaimExpired now limit).apply q).2 ≠ .claimed found := by
  simp only [TimedCall.apply]
  cases (q.reclaimExpiredAt now limit).result with
  | error e => simp [QueueReply.of]
  | ok ids => simp [QueueReply.of]

/-- A call that strands nothing changes nothing and hands out nothing, or it is the call at
    the instant. -/
theorem apply_timed (hinv : q.Inv) {call : TimedCall} (hallowed : call.Allowed q)
    (hkept : call.NoStranding q) :
    ((call.apply q).1 = q ∧ ∀ job lease, (call.apply q).2 ≠ .claimed (some (job, lease))) ∨
      (call.plain.Allowed q ∧ call.apply q = call.plain.apply q) := by
  cases call with
  | enqueue job => exact .inr ⟨hallowed, rfl⟩
  | claim consumer jobTypes duration now token =>
    by_cases hwaits : ∃ id job, q.jobs.lookup id = some job ∧ job.type ∈ jobTypes ∧ job.status = .queued
    · refine .inr ⟨hallowed, ?_⟩
      simp only [TimedCall.apply, TimedCall.plain, QueueCall.apply, claimAt_eq (hkept hwaits)]
    · refine .inl ?_
      simp only [TimedCall.apply, claimAt_none (nextReady_idle hinv hwaits), Call.self_returned,
        true_and]
      intro job lease h
      cases h
  | renew id token duration now =>
    rcases renewAt_cases q id token duration now with hsame | hplain
    · exact .inl ⟨hsame, fun job lease => renewAt_hands_nothing q id token duration now _⟩
    · refine .inr ⟨hallowed, ?_⟩
      simp only [TimedCall.apply, TimedCall.plain, QueueCall.apply, hplain]
  | acknowledge id token => exact .inr ⟨trivial, rfl⟩
  | release id token requeue => exact .inr ⟨trivial, rfl⟩
  | reclaimExpired now limit =>
    rcases reclaimExpiredAt_cases q now limit with hsame | hplain
    · exact .inl ⟨hsame, fun job lease => reclaimExpiredAt_hands_nothing q now limit _⟩
    · refine .inr ⟨trivial, ?_⟩
      simp only [TimedCall.apply, TimedCall.plain, QueueCall.apply, hplain]
  | cancelRunJobs runId => exact .inr ⟨trivial, rfl⟩

/-- A call that strands nothing keeps the invariant. -/
theorem Inv.apply_timed (hinv : q.Inv) {call : TimedCall} (hallowed : call.Allowed q)
    (hkept : call.NoStranding q) : (call.apply q).1.Inv := by
  rcases JobQueue.apply_timed hinv hallowed hkept with ⟨hsame, -⟩ | ⟨hplain, hcall⟩
  · rw [hsame]
    exact hinv
  · rw [hcall]
    exact hinv.apply hplain

theorem Regular.inv {calls : List TimedCall} (hinv : q.Inv) (h : q.Regular calls) :
    (q.afterTimed calls).Inv :=
  Runs.Along.invariant h hinv fun _ _ hinv hcall => hinv.apply_timed hcall.1 hcall.2

/-- **A history without a stranding claim** leads where one of calls at instants leads. -/
theorem Regular.permitted {calls : List TimedCall} (hinv : q.Inv) (h : q.Regular calls) :
    ∃ plain : List QueueCall, q.Permitted plain ∧ q.afterTimed calls = q.after plain := by
  induction calls generalizing q with
  | nil => exact ⟨[], trivial, rfl⟩
  | cons call rest ih =>
    obtain ⟨⟨hallowed, hkept⟩, hrest⟩ := h
    rcases apply_timed hinv hallowed hkept with ⟨hsame, -⟩ | ⟨hfirst, hcall⟩
    · have hnext : q.timedStep call = q := hsame
      rw [hnext] at hrest
      obtain ⟨plain, hplain, hafter⟩ := ih hinv hrest
      refine ⟨plain, hplain, ?_⟩
      rw [afterTimed, Runs.after_cons, hnext]
      exact hafter
    · have hnext : q.timedStep call = (call.plain.apply q).1 := congrArg Prod.fst hcall
      rw [hnext] at hrest
      obtain ⟨plain, hplain, hafter⟩ := ih (hinv.apply hfirst) hrest
      refine ⟨call.plain :: plain, ⟨hfirst, hplain⟩, ?_⟩
      rw [afterTimed, Runs.after_cons, hnext]
      exact hafter

/-! ### The representation invariant -/

/-- **The representation invariant** holds after every history in which no claim strands a
    job. -/
theorem history_represents (calls : List TimedCall) (h : JobQueue.empty.Regular calls) :
    (JobQueue.empty.afterTimed calls).Represents := by
  obtain ⟨plain, hplain, hafter⟩ := h.permitted inv_empty
  rw [hafter]
  exact hplain.represents

end JobQueue

namespace Sample

/-- The given number of microseconds after the epoch, in UTC. -/
def utc (instant : Int) (in_range : 0 ≤ instant + epochWall ∧ instant + epochWall ≤ maxWall) :
    CallTime := ⟨instant + epochWall, some 0, in_range⟩

theorem epoch_in_range : 0 ≤ (10 : Int) + epochWall ∧ (10 : Int) + epochWall ≤ maxWall := by decide

/-- A job is published and claimed. -/
def claimedFor (duration : Duration) : List TimedCall :=
  [.enqueue (stageJob 7 .build 2 build_needs_no_role count_two),
   .claim ⟨9⟩ [.build] duration (utc 10 epoch_in_range) firstToken]

end Sample

namespace JobQueue

/-- A lease of a minute. -/
theorem history_represents_sample :
    (JobQueue.empty.afterTimed (Sample.claimedFor 60000000)).Represents := by
  have hpositive : (0 : Duration) < 60000000 := by decide
  exact history_represents _
    ⟨⟨⟨rfl, fun _ hstored => nomatch hstored⟩, trivial⟩,
      ⟨hpositive, fun _ => ⟨rfl, hpositive, by decide⟩⟩, trivial⟩

/-- A lease that would end beyond the calendar: the claim raises, and the job is queued and in
    no ready dictionary. -/
theorem stranding_claim :
    Runs.Along timedStep (fun q call => call.Allowed q) JobQueue.empty (Sample.claimedFor maxWall) ∧
      ¬ (JobQueue.empty.afterTimed (Sample.claimedFor maxWall)).Represents := by
  have hpositive : (0 : Duration) < maxWall := by decide
  refine ⟨⟨⟨rfl, fun _ hstored => nomatch hstored⟩, hpositive, trivial⟩, fun h => ?_⟩
  have hstored : ((JobQueue.empty.afterTimed (Sample.claimedFor maxWall)).jobs.lookup ⟨7⟩).map
      (fun job => (job.type, job.status)) = some (.build, .queued) := by decide
  obtain ⟨job, hjob, hfields⟩ := Option.map_eq_some_iff.mp hstored
  rw [Prod.mk.injEq] at hfields
  obtain ⟨score, hscore⟩ := h.scored ⟨7⟩ job hjob
  have hready := (h.ready .build ⟨7⟩ score).mpr ⟨hscore, by decide, job, hjob, hfields.1, hfields.2⟩
  have hnone : (inner (JobQueue.empty.afterTimed (Sample.claimedFor maxWall)).ready .build).lookup
      ⟨7⟩ = none := by decide
  rw [hnone] at hready
  cases hready

end JobQueue

end AgenticPlatform
