import AgenticPlatform.JobQueueTokens
import AgenticPlatform.Runs

/-!
# Histories of the queue

The calls callers make, one after the other, on a queue that starts empty. The
representation invariant, the attempt budget and the fencing of holders are statements
about every such history; `calls.after` is the queue a history leads to.
-/

namespace AgenticPlatform

open Dict

/-- One call of the queue. -/
inductive QueueCall where
  | enqueue (job : Job)
  | claim (consumer : WorkerId) (jobTypes : List JobType) (duration : Duration) (now : Instant)
      (token : LeaseToken)
  | renew (id : JobId) (token : LeaseToken) (duration : Duration) (now : Instant)
  | acknowledge (id : JobId) (token : LeaseToken)
  | release (id : JobId) (token : LeaseToken) (requeue : Bool)
  | reclaimExpired (now : Instant) (limit : Int)
  | cancelRunJobs (runId : RunId)

/-- What a call answers. -/
inductive QueueReply where
  | done
  | claimed (found : Option (Job × Lease))
  | renewed (lease : Lease)
  | ids (ids : List JobId)
  | raised (error : PyError)

/-- How many of `length` elements the slice `[:limit]` keeps. -/
def sliceEnd (length : Nat) (limit : Int) : Nat :=
  if limit < 0 then length - limit.natAbs else limit.toNat

/-- The answer of a call that returns or raises. -/
def QueueReply.of {α : Type} (reply : α → QueueReply) : Except PyError α → QueueReply
  | .ok value => reply value
  | .error e => .raised e

namespace QueueCall

/-- The queue after the call, and the answer. -/
def apply (q : JobQueue) : QueueCall → JobQueue × QueueReply
  | .enqueue job => (q.enqueue job, .done)
  | .claim consumer jobTypes duration now token =>
      let call := q.claim consumer jobTypes duration now token
      (call.self, .of .claimed call.result)
  | .renew id token duration now =>
      let call := q.renew id token duration now
      (call.self, .of .renewed call.result)
  | .acknowledge id token => (q.acknowledge id token, .done)
  | .release id token requeue =>
      let call := q.release id token requeue
      (call.self, .of (fun _ => .done) call.result)
  | .reclaimExpired now limit =>
      let call := q.reclaimExpired now (sliceEnd (q.lapsed now).length limit)
      (call.self, .of .ids call.result)
  | .cancelRunJobs runId => ((q.cancelRunJobs runId).1, .ids (q.cancelRunJobs runId).2)

/-- What callers promise: published jobs carry no lease and keep their type and run,
    and leases last a positive time. -/
def Allowed (q : JobQueue) : QueueCall → Prop
  | .enqueue job => (q.slot job.id).Publishable job
  | .claim _ _ duration _ _ => 0 < duration
  | .renew _ _ duration _ => 0 < duration
  | _ => True

/-- The job a call handed out, and the token it was handed out under. -/
def handsOut (q : JobQueue) (call : QueueCall) : Option (JobId × LeaseToken) :=
  match (call.apply q).2 with
  | .claimed (some (job, lease)) => some (job.id, lease.token)
  | _ => none

/-- Only a claim answers with a job. -/
theorem claimed_reply {q : JobQueue} {call : QueueCall} {found : Option (Job × Lease)}
    (h : (call.apply q).2 = .claimed found) :
    ∃ consumer jobTypes duration now token, call = .claim consumer jobTypes duration now token ∧
      (q.claim consumer jobTypes duration now token).result = .ok found := by
  cases call with
  | claim consumer jobTypes duration now token =>
    refine ⟨consumer, jobTypes, duration, now, token, rfl, ?_⟩
    simp only [apply, QueueReply.of] at h
    split at h
    · rename_i hfound
      cases h
      exact hfound
    · cases h
  | renew id token duration now =>
    simp only [apply, QueueReply.of] at h
    split at h <;> cases h
  | release id token requeue =>
    simp only [apply, QueueReply.of] at h
    split at h <;> cases h
  | reclaimExpired now limit =>
    simp only [apply, QueueReply.of] at h
    split at h <;> cases h
  | enqueue job => cases h
  | acknowledge id token => cases h
  | cancelRunJobs runId => cases h

theorem handsOut_claim {q : JobQueue} {call : QueueCall} {id : JobId} {token : LeaseToken}
    (h : call.handsOut q = some (id, token)) :
    ∃ consumer jobTypes duration now fresh job lease,
      call = .claim consumer jobTypes duration now fresh ∧
      (q.claim consumer jobTypes duration now fresh).result = .ok (some (job, lease)) ∧
      job.id = id ∧ lease.token = token := by
  unfold handsOut at h
  split at h
  · rename_i job lease hreply
    cases h
    obtain ⟨consumer, jobTypes, duration, now, fresh, hcall, hresult⟩ := claimed_reply hreply
    exact ⟨consumer, jobTypes, duration, now, fresh, job, lease, hcall, hresult, rfl, rfl⟩
  · cases h

end QueueCall

namespace JobQueue

/-- One call after the other. -/
def step (q : JobQueue) (call : QueueCall) : JobQueue := (call.apply q).1

/-- The queue a history leads to. -/
abbrev after (q : JobQueue) (calls : List QueueCall) : JobQueue := Runs.after step q calls

/-- Every call of the history satisfies `P` where it is made. -/
abbrev Along (P : JobQueue → QueueCall → Prop) (q : JobQueue) (calls : List QueueCall) : Prop :=
  Runs.Along step P q calls

/-- Callers keep their promises throughout the history. -/
def Permitted (q : JobQueue) (calls : List QueueCall) : Prop :=
  q.Along (fun q call => call.Allowed q) calls

variable {q : JobQueue} {calls before later : List QueueCall} {call : QueueCall}

/-! ### The dictionaries agree -/

theorem Inv.apply (h : q.Inv) (hcall : call.Allowed q) : (call.apply q).1.Inv := by
  cases call with
  | enqueue job => exact enqueue_inv h hcall
  | claim consumer jobTypes duration now token => exact claim_inv h consumer jobTypes hcall now token
  | renew id token duration now => exact renew_inv h id token duration now
  | acknowledge id token => exact acknowledge_inv h id token
  | release id token requeue => exact release_inv h id token requeue
  | reclaimExpired now limit => exact (reclaimExpired_spec h now _).2.1
  | cancelRunJobs runId => exact cancelRunJobs_inv h runId

theorem Permitted.inv (hq : q.Inv) (h : q.Permitted calls) : (q.after calls).Inv :=
  Runs.Along.invariant h hq fun _ _ hinv hcall => hinv.apply hcall

/-- What the six dictionaries say about each other. -/
structure Represents (q : JobQueue) : Prop where
  ready : ∀ jobType id score, (inner q.ready jobType).lookup id = some score ↔
    q.scores.lookup id = some score ∧ id ∉ q.acknowledged ∧
      ∃ job, q.jobs.lookup id = some job ∧ job.type = jobType ∧ job.status = .queued
  scored : ∀ id job, q.jobs.lookup id = some job → ∃ score, q.scores.lookup id = some score
  leased : ∀ id expiry, q.leases.lookup id = some expiry ↔
    id ∉ q.acknowledged ∧ ∃ job lease, q.jobs.lookup id = some job ∧
      (job.status = .leased ∨ job.status = .running) ∧ job.lease = some lease ∧
      lease.expiresAt = expiry
  expires : ∀ id job, q.jobs.lookup id = some job → id ∉ q.acknowledged →
    job.status = .leased ∨ job.status = .running → ∃ lease, job.lease = some lease
  disjoint : ∀ jobType id, (inner q.ready jobType).lookup id ≠ none → q.leases.lookup id = none
  acknowledged : ∀ id ∈ q.acknowledged,
    (∀ jobType, (inner q.ready jobType).lookup id = none) ∧ q.leases.lookup id = none

theorem isInFlight_iff {status : JobStatus} :
    status.isInFlight = true ↔ status = .leased ∨ status = .running := by
  cases status <;> simp [JobStatus.isInFlight]

theorem Inv.ready_iff (h : q.Inv) {jobType : JobType} {id : JobId} {score : Int} :
    (inner q.ready jobType).lookup id = some score ↔
      q.scores.lookup id = some score ∧ id ∉ q.acknowledged ∧
        ∃ job, q.jobs.lookup id = some job ∧ job.type = jobType ∧ job.status = .queued := by
  constructor
  · intro hready
    obtain ⟨job, hjob, htype, hqueued⟩ := (h id).coherent.of_ready (k := jobType) hready
    have hscore := (h id).ready job hjob jobType
    rw [if_pos ⟨htype.symm, hqueued⟩] at hscore
    have hfree := (h id).not_acknowledged hjob (by rw [hqueued]; rfl)
    exact ⟨hscore.symm.trans hready, by simpa [slot] using hfree, job, hjob, htype, hqueued⟩
  · rintro ⟨hscore, -, job, hjob, rfl, hqueued⟩
    have hready := (h id).ready job hjob job.type
    rw [if_pos ⟨rfl, hqueued⟩] at hready
    exact hready.trans hscore

theorem Inv.leased_iff (h : q.Inv) {id : JobId} {expiry : Instant} :
    q.leases.lookup id = some expiry ↔
      id ∉ q.acknowledged ∧ ∃ job lease, q.jobs.lookup id = some job ∧
        (job.status = .leased ∨ job.status = .running) ∧ job.lease = some lease ∧
        lease.expiresAt = expiry := by
  constructor
  · intro hlease
    cases hjob : q.jobs.lookup id with
    | none =>
      rw [show q.leases.lookup id = none from ((h id).absent hjob).2.1] at hlease
      cases hlease
    | some job =>
      obtain ⟨lease, hl, hexpiry⟩ :=
        Option.map_eq_some_iff.mp (((h id).lease job hjob).symm.trans hlease)
      obtain ⟨hflight, hfree⟩ := h.of_lease hjob hl
      exact ⟨by simpa [slot] using hfree, job, lease, rfl, isInFlight_iff.mp hflight, hl, hexpiry⟩
  · rintro ⟨-, job, lease, hjob, -, hl, rfl⟩
    have hlease := (h id).lease job hjob
    rw [hl] at hlease
    exact hlease

theorem Inv.represents (h : q.Inv) : q.Represents := by
  have hleased : ∀ id, id ∈ q.acknowledged → q.leases.lookup id = none := by
    intro id hack
    cases hl : q.leases.lookup id with
    | none => rfl
    | some expiry => exact absurd hack (h.leased_iff.mp hl).1
  constructor
  · intro jobType id score
    exact h.ready_iff
  · intro id job hjob
    exact (h id).scored job hjob
  · intro id expiry
    exact h.leased_iff
  · intro id job hjob hfree hflight
    apply Option.isSome_iff_exists.mp
    apply ((h id).held job hjob).mpr
    exact ⟨isInFlight_iff.mpr hflight, by simpa [slot] using hfree⟩
  · intro jobType id hready
    obtain ⟨score, hscore⟩ := Option.ne_none_iff_exists'.mp hready
    obtain ⟨-, -, job, hjob, -, hqueued⟩ := h.ready_iff.mp hscore
    cases hl : q.leases.lookup id with
    | none => rfl
    | some expiry =>
      obtain ⟨-, job', -, hjob', hflight, -⟩ := h.leased_iff.mp hl
      rw [hjob, Option.some.injEq] at hjob'
      rw [← hjob', hqueued] at hflight
      rcases hflight with hf | hf <;> cases hf
  · intro id hack
    refine ⟨fun jobType => ?_, hleased id hack⟩
    cases hready : (inner q.ready jobType).lookup id with
    | none => rfl
    | some score => exact absurd hack (h.ready_iff.mp hready).2.1

/-- The dictionaries agree after a history of calls at instants. -/
theorem Permitted.represents (h : JobQueue.empty.Permitted calls) :
    (JobQueue.empty.after calls).Represents := (Permitted.inv inv_empty h).represents

/-! ### The attempt budget -/

/-- No record has used more attempts than it has, and a queued one has one left. -/
def Budgeted (q : JobQueue) : Prop :=
  ∀ id record, q.jobs.lookup id = some record → record.attempt ≤ record.maxAttempts ∧
    (record.status = .queued → record.attempt < record.maxAttempts)

/-- A published job has an attempt left. -/
def PublishesWithin (_ : JobQueue) : QueueCall → Prop
  | .enqueue job => job.attempt < job.maxAttempts
  | _ => True

/-- A holder gives a job back for another claim only while the job has an attempt left. -/
def ReleasesWithin (q : JobQueue) : QueueCall → Prop
  | .release id token true => ∀ record, q.jobs.lookup id = some record →
      holds record token = true → record.attempt < record.maxAttempts
  | _ => True

/-- A record that counts the same attempts, and is queued only if it was or has one left. -/
structure SameBudget (old new : Job) : Prop where
  attempt : new.attempt = old.attempt
  maxAttempts : new.maxAttempts = old.maxAttempts
  queued : new.status = .queued → old.status = .queued ∨ old.attempt < old.maxAttempts

theorem Budgeted.of_jobs {q' : JobQueue} (h : q.Budgeted) (hjobs : q'.jobs = q.jobs) :
    q'.Budgeted := by
  unfold Budgeted
  rw [hjobs]
  exact h

theorem Budgeted.insert {q' : JobQueue} (h : q.Budgeted) {id : JobId} {old new : Job}
    (hold : q.jobs.lookup id = some old) (hjobs : q'.jobs = q.jobs.insert id new)
    (hsame : SameBudget old new) : q'.Budgeted := by
  intro id' record hrecord
  rw [hjobs, lookup_insert_ite] at hrecord
  split at hrecord
  · cases hrecord
    obtain ⟨hle, hqueued⟩ := h id old hold
    rw [hsame.attempt, hsame.maxAttempts]
    refine ⟨hle, fun hq => ?_⟩
    rcases hsame.queued hq with hwas | hleft
    · exact hqueued hwas
    · exact hleft
  · exact h id' record hrecord

theorem Budgeted.enqueue (h : q.Budgeted) {job : Job} (hjob : job.attempt < job.maxAttempts) :
    (q.enqueue job).Budgeted := by
  rcases enqueue_record q job with hsame | hinsert
  · exact h.of_jobs hsame
  · intro id record hrecord
    rw [hinsert, lookup_insert_ite] at hrecord
    split at hrecord
    · cases hrecord
      exact ⟨Nat.le_of_lt hjob, fun _ => hjob⟩
    · exact h id record hrecord

/-- A claim uses an attempt that was left. -/
theorem Budgeted.claim (h : q.Budgeted) (consumer : WorkerId) (jobTypes : List JobType)
    (duration : Duration) (now : Instant) (token : LeaseToken) :
    (q.claim consumer jobTypes duration now token).self.Budgeted ∧
      ∀ job lease, (q.claim consumer jobTypes duration now token).result = .ok (some (job, lease)) →
        job.attempt ≤ job.maxAttempts := by
  rcases claim_grants q consumer jobTypes duration now token with
    ⟨hnone, hjobs⟩ | ⟨id, stored, lease, hresult, hstored, hgrant, hjobs⟩
  · exact ⟨h.of_jobs hjobs, fun job lease hresult => absurd hresult (hnone job lease)⟩
  · obtain ⟨hqueued, hattempt⟩ := Job.leaseTo_attempt hgrant
    have hleased := (Job.leaseTo_eq_ok hgrant).1
    have hmax : (stored.rebuild.leaseTo consumer now duration token).self.maxAttempts =
        stored.maxAttempts := Job.maxAttempts_of_work (Job.leaseTo_work _ _ _ _ _)
    have hleft : stored.attempt < stored.maxAttempts := (h id stored hstored).2 hqueued
    have hwithin : (stored.rebuild.leaseTo consumer now duration token).self.attempt ≤
        (stored.rebuild.leaseTo consumer now duration token).self.maxAttempts := by
      rw [hattempt, hmax]
      exact hleft
    constructor
    · intro id' record hrecord
      rw [hjobs, lookup_insert_ite] at hrecord
      split at hrecord
      · cases hrecord
        refine ⟨hwithin, fun hq => ?_⟩
        have hq : (stored.rebuild.leaseTo consumer now duration token).self.status = .queued := hq
        rw [hleased] at hq
        cases hq
      · exact h id' record hrecord
    · intro job lease' hfound
      rw [hresult] at hfound
      cases hfound
      exact hwithin

theorem Budgeted.renew (h : q.Budgeted) (id : JobId) (token : LeaseToken) (duration : Duration)
    (now : Instant) : (q.renew id token duration now).self.Budgeted := by
  unfold JobQueue.renew
  split
  · exact h
  · rename_i job hjob
    dsimp only
    split
    · exact h
    · rename_i renewed hrenewed
      obtain ⟨-, -, -, -, -, -, hself⟩ := Job.renewLease_eq_ok hrenewed
      refine h.insert hjob rfl ?_
      rw [hself]
      exact ⟨rfl, rfl, fun hq => .inl hq⟩

theorem Budgeted.acknowledge (h : q.Budgeted) (id : JobId) (token : LeaseToken) :
    (q.acknowledge id token).Budgeted := by
  unfold JobQueue.acknowledge
  split
  · exact h
  · rename_i job hjob
    split
    · exact h.insert hjob rfl ⟨rfl, rfl, fun hq => .inl hq⟩
    · exact h

theorem Budgeted.release (h : q.Budgeted) {id : JobId} {token : LeaseToken} {requeue : Bool}
    (hleft : q.ReleasesWithin (.release id token requeue)) :
    (q.release id token requeue).self.Budgeted := by
  unfold JobQueue.release
  split
  · exact h
  · rename_i job hjob
    split
    · rename_i hholds
      have hsame : SameBudget job { job.rebuild with
          status := if requeue then .queued else .pending
          lease := none
          assignedWorkerId := none } := by
        refine ⟨rfl, rfl, fun hq => .inr ?_⟩
        cases requeue with
        | false => cases hq
        | true => exact hleft job hjob hholds
      cases requeue with
      | false => exact h.insert hjob rfl hsame
      | true =>
        simp only [if_true]
        split
        · exact h.insert hjob rfl hsame
        · rename_i q' hready
          exact h.insert hjob (makeReady_jobs hready) hsame
    · exact h

/-- An expired record is failed, dead or as it was; a requeued one has an attempt left. -/
theorem sameBudget_expired (job : Job) (now : Instant) : SameBudget job (job.expireLease now).1 := by
  unfold Job.expireLease
  split
  · exact ⟨rfl, rfl, fun hq => .inl hq⟩
  · split
    · dsimp only
      split
      · exact ⟨rfl, rfl, fun hq => by cases hq⟩
      · exact ⟨rfl, rfl, fun hq => by cases hq⟩
    · exact ⟨rfl, rfl, fun hq => .inl hq⟩

theorem sameBudget_requeued (job : Job) (now : Instant) (reason : String) :
    SameBudget job ((job.expireLease now).1.requeue now reason).self := by
  have hexpired := sameBudget_expired job now
  unfold Job.requeue
  split
  · rename_i hcond
    refine ⟨hexpired.attempt, hexpired.maxAttempts, fun _ => .inr ?_⟩
    have hleft := hcond.2
    rw [Job.attemptsRemaining_of_expired] at hleft
    exact Nat.lt_of_sub_pos hleft
  · exact hexpired

theorem Budgeted.reclaimOne (h : q.Budgeted) (now : Instant) (id : JobId) :
    (q.reclaimOne now id).self.Budgeted := by
  unfold JobQueue.reclaimOne
  dsimp only
  split
  · exact h
  · rename_i job hjob
    split
    · have hsame := sameBudget_requeued job now "lease expired"
      split
      · exact h.insert hjob rfl hsame
      · split
        · exact h.insert hjob rfl hsame
        · rename_i q' hready
          have hjobs := makeReady_jobs hready
          exact h.insert hjob (congrArg (AList.insert id _) hjobs)
            ⟨hsame.attempt, hsame.maxAttempts, hsame.queued⟩
    · have hsame := sameBudget_expired job now
      exact h.insert hjob rfl ⟨hsame.attempt, hsame.maxAttempts, hsame.queued⟩

theorem Budgeted.reclaimAll (now : Instant) (ids : List JobId) (h : q.Budgeted) :
    (JobQueue.reclaimAll now ids q).self.Budgeted := by
  induction ids generalizing q with
  | nil => exact h
  | cons id rest ih =>
    unfold JobQueue.reclaimAll
    simp only
    split
    · exact h.reclaimOne now id
    · split <;> exact ih (h.reclaimOne now id)

theorem Budgeted.cancelAll (ids : List JobId) (h : q.Budgeted) :
    (JobQueue.cancelAll ids q).1.Budgeted := by
  induction ids generalizing q with
  | nil => exact h
  | cons id rest ih =>
    apply ih
    unfold cancelOne
    split
    · exact h
    · rename_i job hjob
      split
      · exact h
      · exact h.insert hjob rfl ⟨rfl, rfl, fun hq => by cases hq⟩

theorem Budgeted.apply (h : q.Budgeted) (hpublish : q.PublishesWithin call)
    (hrelease : q.ReleasesWithin call) : (call.apply q).1.Budgeted := by
  cases call with
  | enqueue job => exact h.enqueue hpublish
  | claim consumer jobTypes duration now token => exact (h.claim _ _ _ _ _).1
  | renew id token duration now => exact h.renew id token duration now
  | acknowledge id token => exact h.acknowledge id token
  | release id token requeue => exact h.release hrelease
  | reclaimExpired now limit => exact h.reclaimAll now _
  | cancelRunJobs runId => exact h.cancelAll _

theorem budgeted_empty : JobQueue.empty.Budgeted := by
  intro id record hrecord
  cases hrecord

/-- **The attempt budget** holds along every history in which no holder gives back for
    another claim a job whose attempts are used up: no stored and no claimed job has more
    attempts than it may have. -/
theorem attempts_within_budget (before later : List QueueCall)
    (hpublish : JobQueue.empty.Along PublishesWithin (before ++ later))
    (hrelease : JobQueue.empty.Along ReleasesWithin (before ++ later)) :
    (∀ id record, (JobQueue.empty.after before).jobs.lookup id = some record →
      record.attempt ≤ record.maxAttempts) ∧
    ∀ call rest job lease, later = call :: rest →
      (call.apply (JobQueue.empty.after before)).2 = .claimed (some (job, lease)) →
      job.attempt ≤ job.maxAttempts := by
  have hboth : JobQueue.empty.Along
      (fun q call => q.PublishesWithin call ∧ q.ReleasesWithin call) before :=
    (Runs.along_append.mp hpublish).1.and (Runs.along_append.mp hrelease).1
  have hbudget : (JobQueue.empty.after before).Budgeted :=
    Runs.Along.invariant hboth budgeted_empty fun _ _ hq hcall => hq.apply hcall.1 hcall.2
  refine ⟨fun id record hrecord => (hbudget id record hrecord).1, ?_⟩
  rintro call rest job lease - hclaimed
  obtain ⟨consumer, jobTypes, duration, now, token, -, hresult⟩ := QueueCall.claimed_reply hclaimed
  exact (hbudget.claim consumer jobTypes duration now token).2 job lease hresult

end JobQueue

/-! ### A job that is handed out twice -/

namespace Sample

/-- A job of a validation stage with the given budget. -/
def stageJob (id : Nat) (jobType : JobType) (maxAttempts : Nat)
    (role_given : jobType.requiresInference = true → (none : Option AgentRole) ≠ none)
    (max_attempts_pos : 1 ≤ maxAttempts) : Job :=
  Job.create ⟨id⟩ ⟨2⟩ ⟨1⟩ jobType 0 none (some ⟨5⟩) .high maxAttempts role_given max_attempts_pos

theorem build_needs_no_role :
    JobType.build.requiresInference = true → (none : Option AgentRole) ≠ none := by decide

def firstToken : LeaseToken := ⟨"claim-1", by decide⟩

def secondToken : LeaseToken := ⟨"claim-2", by decide⟩

/-- Published, claimed, given back, and claimed again. -/
def handedOutTwice (maxAttempts : Nat) (max_attempts_pos : 1 ≤ maxAttempts) : List QueueCall :=
  [.enqueue (stageJob 7 .build maxAttempts build_needs_no_role max_attempts_pos),
   .claim ⟨9⟩ [.build] 1000 10 firstToken, .release ⟨7⟩ firstToken true,
   .claim ⟨9⟩ [.build] 1000 20 secondToken]

theorem handedOutTwice_permitted (maxAttempts : Nat) (max_attempts_pos : 1 ≤ maxAttempts) :
    JobQueue.empty.Permitted (handedOutTwice maxAttempts max_attempts_pos) :=
  have hpositive : (0 : Duration) < 1000 := by decide
  ⟨⟨rfl, fun _ hstored => nomatch hstored⟩, hpositive, trivial, hpositive, trivial⟩

theorem handedOutTwice_within (maxAttempts : Nat) (max_attempts_pos : 1 ≤ maxAttempts) :
    JobQueue.empty.Along JobQueue.PublishesWithin (handedOutTwice maxAttempts max_attempts_pos) :=
  ⟨max_attempts_pos, trivial, trivial, trivial, trivial⟩

end Sample

namespace JobQueue

/-- Two attempts are enough for two claims. -/
theorem attempts_within_budget_sample :
    (JobQueue.empty.after (Sample.handedOutTwice 2 (by decide))).jobs.lookup ⟨7⟩ ≠ none ∧
    ∀ id record, (JobQueue.empty.after (Sample.handedOutTwice 2 (by decide))).jobs.lookup id =
      some record → record.attempt ≤ record.maxAttempts := by
  refine ⟨by decide, (attempts_within_budget (Sample.handedOutTwice 2 (by decide)) []
    (Sample.handedOutTwice_within 2 (by decide))
    ⟨trivial, trivial, fun record hrecord _ => ?_, trivial, trivial⟩).1⟩
  cases hrecord
  decide

/-- One attempt is not, but the queue hands the job out twice all the same. -/
theorem release_overruns_budget :
    JobQueue.empty.Permitted (Sample.handedOutTwice 1 (by decide)) ∧
    JobQueue.empty.Along PublishesWithin (Sample.handedOutTwice 1 (by decide)) ∧
    ∃ record, (JobQueue.empty.after (Sample.handedOutTwice 1 (by decide))).jobs.lookup ⟨7⟩ =
      some record ∧ record.maxAttempts < record.attempt := by
  refine ⟨Sample.handedOutTwice_permitted 1 (by decide),
    Sample.handedOutTwice_within 1 (by decide), ?_⟩
  cases hrecord : (JobQueue.empty.after (Sample.handedOutTwice 1 (by decide))).jobs.lookup ⟨7⟩ with
  | none => cases hrecord
  | some record =>
    refine ⟨record, rfl, ?_⟩
    cases hrecord
    decide

end JobQueue

end AgenticPlatform
