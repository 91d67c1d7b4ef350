import AgenticPlatform.JobQueueRecovery

/-!
# Which token the queue stores

A lease is lost the moment the queue stops storing its token. `claim` is the only
operation that puts a token into a record; every other operation leaves the stored
token alone or takes it away, and this holds of any queue, consistent or not.
-/

namespace AgenticPlatform

open Dict

namespace JobQueue

/-- The token under which the queue has given the job away. -/
def token? (q : JobQueue) (id : JobId) : Option LeaseToken :=
  (q.jobs.lookup id).bind fun record => record.lease.map Lease.token

/-- Every record is stored under its own id. -/
def Keyed (q : JobQueue) : Prop := ∀ id record, q.jobs.lookup id = some record → record.id = id

/-- Records keep what they are about, and tokens only go away. -/
def Fades (q q' : JobQueue) : Prop :=
  ∀ id record, q'.jobs.lookup id = some record → ∃ old, q.jobs.lookup id = some old ∧
    record.work = old.work ∧
      (record.lease = none ∨ record.lease.map Lease.token = old.lease.map Lease.token)

variable {q q' q'' : JobQueue}

theorem Fades.refl (q : JobQueue) : q.Fades q := fun _ record h => ⟨record, h, rfl, .inr rfl⟩

theorem Fades.of_jobs (h : q'.jobs = q.jobs) : q.Fades q' := fun _ record hr =>
  ⟨record, h ▸ hr, rfl, .inr rfl⟩

theorem Fades.trans (h₁ : q.Fades q') (h₂ : q'.Fades q'') : q.Fades q'' := by
  intro id record hr
  obtain ⟨old, hold, hwork, hlease⟩ := h₂ id record hr
  obtain ⟨older, holder, hwork', hlease'⟩ := h₁ id old hold
  refine ⟨older, holder, hwork.trans hwork', ?_⟩
  rcases hlease with hnone | hsame
  · exact .inl hnone
  · rcases hlease' with hnone | hsame'
    · rw [hnone] at hsame
      exact .inl (by simpa using hsame)
    · exact .inr (hsame.trans hsame')

/-- Overwriting one record. -/
theorem Fades.insert {id : JobId} {record old : Job} (hjobs : q'.jobs = q.jobs.insert id record)
    (hold : q.jobs.lookup id = some old) (hwork : record.work = old.work)
    (hlease : record.lease = none ∨ record.lease.map Lease.token = old.lease.map Lease.token) :
    q.Fades q' := by
  intro id' record' hr
  rw [hjobs, lookup_insert_ite] at hr
  split at hr
  · rename_i hid
    subst hid
    cases hr
    exact ⟨old, hold, hwork, hlease⟩
  · exact ⟨record', hr, rfl, .inr rfl⟩

theorem Fades.keyed (h : q.Fades q') (hkeyed : q.Keyed) : q'.Keyed := by
  intro id record hr
  obtain ⟨old, hold, hwork, -⟩ := h id record hr
  exact (Job.id_of_work hwork).trans (hkeyed id old hold)

theorem Fades.token (h : q.Fades q') {id : JobId} {token : LeaseToken}
    (ht : q'.token? id = some token) : q.token? id = some token := by
  unfold token? at ht ⊢
  cases hr : q'.jobs.lookup id with
  | none =>
    rw [hr] at ht
    cases ht
  | some record =>
    obtain ⟨old, hold, -, hlease⟩ := h id record hr
    rw [hr, Option.bind_some] at ht
    rw [hold, Option.bind_some]
    rcases hlease with hnone | hsame
    · rw [hnone] at ht
      cases ht
    · rw [← hsame]
      exact ht

/-! ### The operations that take tokens away -/

theorem renew_fades (q : JobQueue) (id : JobId) (token : LeaseToken) (duration : Duration)
    (now : Instant) : q.Fades (q.renew id token duration now).self := by
  cases hr : (q.renew id token duration now).result with
  | error e =>
    rw [renew_raised hr]
    exact .refl q
  | ok renewed =>
    obtain ⟨job, lease, hj, hlease, htoken, -, htoken', -, hslots⟩ := renew_cases hr
    intro id' record hr'
    have hslot : ((q.renew id token duration now).self.slot id').job = some record := hr'
    rw [hslots] at hslot
    split at hslot
    · rename_i hid
      subst hid
      cases hslot
      exact ⟨job, hj, rfl, .inr (by simp [Job.rebuild, hlease, htoken, htoken'])⟩
    · exact ⟨record, hslot, rfl, .inr rfl⟩

theorem acknowledge_fades (q : JobQueue) (id : JobId) (token : LeaseToken) :
    q.Fades (q.acknowledge id token) := by
  unfold acknowledge
  split
  · exact .refl q
  · rename_i job hj
    split
    · exact .insert rfl hj rfl (.inl rfl)
    · exact .refl q

theorem makeReady_jobs {jobType : JobType} {id : JobId} (h : q.makeReady jobType id = .ok q') :
    q'.jobs = q.jobs := by
  unfold makeReady at h
  split at h
  · cases h
  · cases h
    rfl

theorem release_fades (q : JobQueue) (id : JobId) (token : LeaseToken) (requeue : Bool) :
    q.Fades (q.release id token requeue).self := by
  unfold release
  split
  · exact .refl q
  · rename_i job hj
    split
    · have hfree : q.Fades { q with
          leases := q.leases.erase id
          jobs := q.jobs.insert id { job.rebuild with
            status := if requeue then .queued else .pending
            lease := none
            assignedWorkerId := none } } := .insert rfl hj rfl (.inl rfl)
      cases requeue with
      | false => exact hfree
      | true =>
        simp only [if_true]
        split
        · exact hfree
        · rename_i q' hready
          exact hfree.trans (.of_jobs (makeReady_jobs hready))
    · exact .refl q

/-- Expiry takes the lease away or leaves the record as it is. -/
theorem expireLease_fades (job : Job) (now : Instant) :
    (job.expireLease now).1.lease = none ∨
      (job.expireLease now).1.lease.map Lease.token = job.lease.map Lease.token := by
  unfold Job.expireLease
  split
  · exact .inr rfl
  · split
    · dsimp only
      split <;> exact .inl rfl
    · exact .inr rfl

theorem requeue_lease (job : Job) (now : Instant) (reason : String) :
    (job.requeue now reason).self.lease = none ∨ (job.requeue now reason).self = job := by
  unfold Job.requeue
  split
  · exact .inl rfl
  · exact .inr rfl

theorem reclaimOne_fades (q : JobQueue) (now : Instant) (id : JobId) :
    q.Fades (q.reclaimOne now id).self := by
  unfold reclaimOne
  simp only
  split
  · exact .of_jobs rfl
  · rename_i job hj
    have hrequeue : ((job.expireLease now).1.requeue now "lease expired").self.lease = none ∨
        ((job.expireLease now).1.requeue now "lease expired").self.lease.map Lease.token =
          job.lease.map Lease.token := by
      rcases requeue_lease (job.expireLease now).1 now "lease expired" with hnone | hsame
      · exact .inl hnone
      · rw [hsame]
        exact expireLease_fades job now
    have hwork : ((job.expireLease now).1.requeue now "lease expired").self.work = job.work :=
      (Job.requeue_work _ _ _).trans (Job.expireLease_work _ _)
    split
    · split
      · exact .insert rfl hj hwork hrequeue
      · split
        · exact .insert rfl hj hwork hrequeue
        · rename_i q' hready
          have hjobs := makeReady_jobs hready
          exact .insert (congrArg (AList.insert id _) hjobs) hj hwork hrequeue
    · exact .insert rfl hj (Job.expireLease_work job now) (expireLease_fades job now)

theorem reclaimAll_fades (now : Instant) (ids : List JobId) (q : JobQueue) :
    q.Fades (reclaimAll now ids q).self := by
  induction ids generalizing q with
  | nil => exact .refl q
  | cons id rest ih =>
    unfold reclaimAll
    simp only
    split
    · exact reclaimOne_fades q now id
    · split <;> exact (reclaimOne_fades q now id).trans (ih _)

theorem reclaimExpired_fades (q : JobQueue) (now : Instant) (limit : Nat) :
    q.Fades (q.reclaimExpired now limit).self := reclaimAll_fades now _ q

theorem cancelOne_fades (q : JobQueue) (id : JobId) : q.Fades (q.cancelOne id).1 := by
  unfold cancelOne
  split
  · exact .refl q
  · rename_i job hj
    split
    · exact .refl q
    · exact .insert rfl hj rfl (.inl rfl)

theorem cancelAll_fades (ids : List JobId) (q : JobQueue) : q.Fades (cancelAll ids q).1 := by
  induction ids generalizing q with
  | nil => exact .refl q
  | cons id rest ih => exact (cancelOne_fades q id).trans (ih _)

theorem cancelRunJobs_fades (q : JobQueue) (runId : RunId) : q.Fades (q.cancelRunJobs runId).1 :=
  cancelAll_fades _ q

/-! ### Publication and claims -/

/-- A publication stores the job or is refused. -/
theorem enqueue_record (q : JobQueue) (job : Job) :
    (q.enqueue job).jobs = q.jobs ∨
      (q.enqueue job).jobs = q.jobs.insert job.id { job.rebuild with status := .queued } := by
  unfold enqueue
  split
  · exact .inl rfl
  · exact .inr rfl

theorem enqueue_keyed (h : q.Keyed) (job : Job) : (q.enqueue job).Keyed := by
  rcases enqueue_record q job with heq | heq
  · intro id record hr
    exact h id record (heq ▸ hr)
  · intro id record hr
    rw [heq, lookup_insert_ite] at hr
    split at hr
    · rename_i hid
      cases hr
      exact hid.symm
    · exact h id record hr

/-- A job without a lease brings no token with it. -/
theorem enqueue_token {job : Job} (hlease : job.lease = none) {id : JobId} {token : LeaseToken}
    (ht : (q.enqueue job).token? id = some token) : q.token? id = some token := by
  unfold token? at ht ⊢
  rcases enqueue_record q job with heq | heq
  · rw [← heq]
    exact ht
  · rw [heq, lookup_insert_ite] at ht
    split at ht
    · simp [Job.rebuild, hlease] at ht
    · exact ht

/-- A claim hands out one queued record, counting the attempt, or touches none. -/
theorem claim_grants (q : JobQueue) (consumer : WorkerId) (jobTypes : List JobType)
    (duration : Duration) (now : Instant) (token : LeaseToken) :
    ((∀ job lease, (q.claim consumer jobTypes duration now token).result ≠ .ok (some (job, lease))) ∧
      (q.claim consumer jobTypes duration now token).self.jobs = q.jobs) ∨
    ∃ id stored lease,
      (q.claim consumer jobTypes duration now token).result =
        .ok (some ((stored.rebuild.leaseTo consumer now duration token).self, lease)) ∧
      q.jobs.lookup id = some stored ∧
      (stored.rebuild.leaseTo consumer now duration token).result = .ok lease ∧
      (q.claim consumer jobTypes duration now token).self.jobs =
        q.jobs.insert id (stored.rebuild.leaseTo consumer now duration token).self.rebuild := by
  unfold claim
  generalize q.depth + 1 = rounds
  induction rounds generalizing q with
  | zero => exact .inl ⟨by simp [claimLoop], rfl⟩
  | succ rounds ih =>
    unfold claimLoop
    cases q.nextReady jobTypes.eraseDups with
    | none => exact .inl ⟨by simp, rfl⟩
    | some found =>
      obtain ⟨jobType, id⟩ := found
      simp only
      cases hj : q.jobs.lookup id with
      | none => exact ih { q with ready := popInner q.ready jobType id }
      | some stored =>
        simp only
        by_cases hqueued : stored.status = .queued
        · rw [if_pos hqueued]
          unfold grant
          simp only
          cases hgrant : (stored.rebuild.leaseTo consumer now duration token).result with
          | error e => exact .inl ⟨by simp, rfl⟩
          | ok lease => exact .inr ⟨id, stored, lease, rfl, hj, hgrant, rfl⟩
        · rw [if_neg hqueued]
          exact ih { q with ready := popInner q.ready jobType id }

/-- A claim hands out one queued record under the given token, or touches none. -/
theorem claim_record (q : JobQueue) (consumer : WorkerId) (jobTypes : List JobType)
    (duration : Duration) (now : Instant) (token : LeaseToken) :
    ((∀ job lease, (q.claim consumer jobTypes duration now token).result ≠ .ok (some (job, lease))) ∧
      (q.claim consumer jobTypes duration now token).self.jobs = q.jobs) ∨
    ∃ id stored job lease,
      (q.claim consumer jobTypes duration now token).result = .ok (some (job, lease)) ∧
      q.jobs.lookup id = some stored ∧ job.work = stored.work ∧ job.status = .leased ∧
      job.lease = some lease ∧ lease.token = token ∧
      (q.claim consumer jobTypes duration now token).self.jobs = q.jobs.insert id job.rebuild := by
  rcases claim_grants q consumer jobTypes duration now token with
    hnone | ⟨id, stored, lease, hresult, hj, hgrant, hjobs⟩
  · exact .inl hnone
  · obtain ⟨hstatus, hlease, htoken⟩ := Job.leaseTo_eq_ok hgrant
    exact .inr ⟨id, stored, _, lease, hresult, hj, Job.leaseTo_work _ _ _ _ _, hstatus, hlease,
      htoken, hjobs⟩

end JobQueue

end AgenticPlatform
