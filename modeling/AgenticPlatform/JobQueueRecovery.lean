import AgenticPlatform.JobQueueInvariant

/-!
# Recovery and cancellation in the queue

The two loops of the queue: `reclaim_expired` over the lapsed leases and
`cancel_run_jobs` over the jobs of a run. Each turn works on the slot of one job, so a
whole loop is a pointwise update of the slots it visits; neither loop can raise on a
consistent queue.
-/

namespace AgenticPlatform

open Dict

namespace Slot

/-- What `reclaim_expired` makes of a record whose lease lapsed. -/
def reclaimed (job : Job) (now : Instant) : Job :=
  if 0 < job.attemptsRemaining then
    ((job.expireLease now).1.requeue now "lease expired").self.rebuild
  else (job.expireLease now).1.rebuild

/-- One turn of `reclaim_expired`, on the slot of a lapsed lease. -/
def reclaim (s : Slot) (now : Instant) : Slot :=
  match s.job, s.score with
  | some job, some score =>
      if 0 < job.attemptsRemaining then
        (s.unlease (reclaimed job now)).setReady job.type score
      else s.unlease (reclaimed job now)
  | _, _ => { s with lease := none }

/-- One turn of `cancel_run_jobs`. -/
def cancel (s : Slot) : Slot :=
  match s.job with
  | none => s
  | some job =>
      if job.status.isTerminal then s else (s.clearReady job.type).unlease (cancelled job)

end Slot

namespace Job

variable {job : Job} {lease : Lease} {now : Instant}

theorem expireLease_of_lapsed (hl : job.lease = some lease) (he : lease.expiresAt ≤ now) :
    (job.expireLease now).2 = decide (0 < job.attemptsRemaining) ∧
      (job.expireLease now).1.lease = none ∧
      (job.expireLease now).1.attempt = job.attempt ∧
      (job.expireLease now).1.status =
        if 0 < job.attemptsRemaining then .failed else .dead := by
  simp only [expireLease, hl, Lease.isExpired_iff.mpr he, if_true, record, attemptsRemaining]
  by_cases h : 0 < job.maxAttempts - job.attempt <;> simp [h]

/-- A row without a lapsed lease is not touched, and is reported as not retryable. -/
theorem expireLease_of_no_lease (h : job.lease = none) : job.expireLease now = (job, false) := by
  simp [expireLease, h]

theorem attemptsRemaining_of_expired (job : Job) (now : Instant) :
    (job.expireLease now).1.attemptsRemaining = job.attemptsRemaining := by
  unfold expireLease
  split
  · rfl
  · split
    · dsimp only
      split <;> rfl
    · rfl

/-- A row reported as retryable can be requeued. -/
theorem requeue_of_retryable (h : (job.expireLease now).2 = true) (reason : String) :
    ((job.expireLease now).1.requeue now reason).result = .ok () := by
  cases hl : job.lease with
  | none =>
    rw [expireLease_of_no_lease hl] at h
    cases h
  | some lease =>
    by_cases he : lease.expiresAt ≤ now
    · obtain ⟨hretry, -, -, hstatus⟩ := expireLease_of_lapsed hl he
      have ha : 0 < job.attemptsRemaining := by simpa [hretry] using h
      rw [if_pos ha] at hstatus
      rw [requeue_result]
      exact ⟨hstatus, by rwa [attemptsRemaining_of_expired]⟩
    · have hlive := Lease.not_isExpired_iff.mpr (Int.not_le.mp he)
      simp [expireLease, hl, hlive] at h

/-- A lapsed record with attempts left goes back to the queue. -/
theorem requeue_expired (hl : job.lease = some lease) (he : lease.expiresAt ≤ now)
    (ha : 0 < job.attemptsRemaining) (reason : String) :
    ((job.expireLease now).1.requeue now reason).result = .ok () := by
  obtain ⟨hretry, -, -, -⟩ := expireLease_of_lapsed hl he
  exact requeue_of_retryable (by simpa [hretry] using ha) reason

end Job

namespace Slot

variable {job : Job} {lease : Lease} {now : Instant}

theorem reclaimed_work (job : Job) (now : Instant) : (reclaimed job now).work = job.work := by
  unfold reclaimed
  split
  · exact (Job.requeue_work _ _ _).trans (Job.expireLease_work _ _)
  · exact Job.expireLease_work _ _

/-- A reclaimed record is queued again, or dead once its attempts are used up. -/
theorem reclaimed_spec (hl : job.lease = some lease) (he : lease.expiresAt ≤ now) :
    (reclaimed job now).lease = none ∧
      (reclaimed job now).status = if 0 < job.attemptsRemaining then .queued else .dead := by
  obtain ⟨-, hlease, -, hstatus⟩ := Job.expireLease_of_lapsed hl he
  unfold reclaimed
  by_cases ha : 0 < job.attemptsRemaining
  · have hq := Job.requeue_self now "lease expired"
      (Job.requeue_expired hl he ha "lease expired")
    simp only [ha, if_true]
    exact ⟨hq.2, hq.1⟩
  · simp only [ha, if_false] at hstatus ⊢
    exact ⟨hlease, hstatus⟩

/-- What the slot of a lapsed lease holds. -/
theorem Coherent.of_lapsed {id : JobId} {s : Slot} (h : s.Coherent id) {expiry : Instant}
    (hl : s.lease = some expiry) (he : expiry ≤ now) :
    ∃ job score lease, s.job = some job ∧ s.score = some score ∧ job.lease = some lease ∧
      lease.expiresAt ≤ now ∧ job.status.isInFlight = true ∧ ∀ k, s.ready k = none := by
  cases hj : s.job with
  | none => rw [(h.absent hj).2] at hl; cases hl
  | some job =>
    obtain ⟨score, hscore⟩ := h.scored job hj
    have hlease := (h.lease job hj).symm.trans hl
    obtain ⟨lease, hjl, hexp⟩ := Option.map_eq_some_iff.mp hlease
    have hflight := h.held job hj (by simp [hjl])
    refine ⟨job, score, lease, rfl, hscore, hjl, hexp ▸ he, hflight, fun k => ?_⟩
    rw [h.ready job hj k, if_neg (fun hc => ne_queued_of_isInFlight hflight hc.2)]

theorem reclaim_coherent {id : JobId} {s : Slot} (h : s.Coherent id) {expiry : Instant}
    (hl : s.lease = some expiry) (he : expiry ≤ now) : (s.reclaim now).Coherent id := by
  obtain ⟨job, score, lease, hj, hscore, hjl, hlapsed, -, hready⟩ := h.of_lapsed hl he
  have hspec := reclaimed_spec hjl hlapsed
  have hwork := reclaimed_work job now
  have hkeyed : (reclaimed job now).id = id := (Job.id_of_work hwork).trans (h.keyed job hj)
  simp only [reclaim, hj, hscore]
  split
  · rename_i ha
    rw [← Job.type_of_work hwork]
    exact requeued_coherent hkeyed hready hscore hspec.1 (by rw [hspec.2, if_pos ha])
  · rename_i ha
    rw [if_neg ha] at hspec
    exact unlease_coherent hkeyed ⟨score, hscore⟩ hready hspec.1 (by rw [hspec.2]; simp)

theorem reclaim_consistent {id : JobId} {s : Slot} (h : s.Consistent id) {expiry : Instant}
    (hl : s.lease = some expiry) (he : expiry ≤ now) : (s.reclaim now).Consistent id := by
  obtain ⟨job, score, lease, hj, hscore, hjl, hlapsed, -, hready⟩ := h.coherent.of_lapsed hl he
  obtain ⟨-, hfree⟩ := (h.held job hj).mp (by simp [hjl])
  have hspec := reclaimed_spec hjl hlapsed
  have hanchor := h.anchored hj hfree
  have htype : (reclaimed job now).type = job.type := Job.type_of_work (reclaimed_work job now)
  simp only [reclaim, hj, hscore]
  split
  · rename_i ha
    rw [← htype]
    exact requeued_consistent hanchor (reclaimed_work job now) hready hscore hspec.1
      (by rw [hspec.2, if_pos ha])
  · rename_i ha
    rw [if_neg ha] at hspec
    exact unlease_consistent hanchor (reclaimed_work job now) hready hspec.1
      (by rw [hspec.2]; rfl) (by rw [hspec.2]; simp)

theorem clearReady_ready {id : JobId} {s : Slot} (h : s.Coherent id) {job : Job}
    (hj : s.job = some job) (k : JobType) : (s.clearReady job.type).ready k = none := by
  simp only [clearReady]
  split
  · rfl
  · rename_i hk
    rw [h.ready job hj k, if_neg (fun hc => hk hc.1)]

theorem cancel_coherent {id : JobId} {s : Slot} (h : s.Coherent id) : s.cancel.Coherent id := by
  unfold cancel
  cases hj : s.job with
  | none => exact h
  | some job =>
    simp only
    split
    · exact h
    · have hkeyed : (cancelled job).id = id := h.keyed job hj
      exact unlease_coherent (s := s.clearReady job.type) hkeyed (h.scored job hj)
        (clearReady_ready h hj) rfl (by simp [cancelled])

theorem cancel_consistent {id : JobId} {s : Slot} (h : s.Consistent id)
    (hfree : s.acknowledged = false) : s.cancel.Consistent id := by
  unfold cancel
  cases hj : s.job with
  | none => exact h
  | some job =>
    simp only
    split
    · exact h
    · have hanchor := h.anchored hj hfree
      exact unlease_consistent (s := s.clearReady job.type)
        ⟨hanchor.keyed, hanchor.scored, hanchor.member, hanchor.free⟩ rfl
        (clearReady_ready h.coherent hj) rfl rfl (by simp [cancelled])

end Slot

namespace JobQueue

variable {q : JobQueue} {now : Instant}

/-! ### Reclaiming lapsed leases -/

theorem mem_lapsed {expiry : Instant} {id : JobId} :
    (expiry, id) ∈ q.lapsed now ↔ (q.slot id).lease = some expiry ∧ expiry ≤ now := by
  unfold lapsed
  rw [(List.perm_insertionSort _ _).mem_iff]
  simp only [List.mem_map, List.mem_filter, decide_eq_true_eq, slot]
  constructor
  · rintro ⟨entry, ⟨hmem, hle⟩, heq⟩
    cases heq
    exact ⟨AList.mem_lookup_iff.mpr hmem, hle⟩
  · rintro ⟨hlookup, hle⟩
    exact ⟨⟨id, expiry⟩, ⟨AList.mem_lookup_iff.mp hlookup, hle⟩, rfl⟩

theorem lapsed_nodup (q : JobQueue) (now : Instant) : ((q.lapsed now).map Prod.snd).Nodup := by
  unfold lapsed
  rw [((List.perm_insertionSort _ _).map Prod.snd).nodup_iff, List.map_map]
  have hkeys : (q.leases.entries.map Sigma.fst).Nodup := q.leases.nodupKeys
  exact hkeys.sublist (List.filter_sublist.map _)

/-- The ids `reclaim_expired` visits. -/
def reclaimBatch (q : JobQueue) (now : Instant) (limit : Nat) : List JobId :=
  ((q.lapsed now).take limit).map Prod.snd

theorem reclaimBatch_nodup (q : JobQueue) (now : Instant) (limit : Nat) :
    (q.reclaimBatch now limit).Nodup := by
  unfold reclaimBatch
  exact (q.lapsed_nodup now).sublist ((List.take_sublist limit _).map _)

theorem lapsed_of_mem_reclaimBatch {limit : Nat} {id : JobId}
    (h : id ∈ q.reclaimBatch now limit) :
    ∃ expiry, (q.slot id).lease = some expiry ∧ expiry ≤ now := by
  obtain ⟨entry, hentry, rfl⟩ := List.mem_map.mp h
  exact ⟨entry.1, mem_lapsed.mp (List.mem_of_mem_take hentry)⟩

/-- One turn of the loop is one turn on the slot. -/
theorem reclaimOne_spec (h : q.Coherent) {id : JobId} {expiry : Instant}
    (hl : (q.slot id).lease = some expiry) (he : expiry ≤ now) :
    (q.reclaimOne now id).result = .ok (some id) ∧
      ∀ id', (q.reclaimOne now id).self.slot id' =
        if id' = id then (q.slot id').reclaim now else q.slot id' := by
  obtain ⟨job, score, lease, hj, hscore, hjl, hlapsed, -, -⟩ := (h id).of_lapsed hl he
  have hlookup : q.jobs.lookup id = some job := hj
  have hscored : q.scores.lookup id = some score := hscore
  obtain ⟨hretry, -, -, -⟩ := Job.expireLease_of_lapsed hjl hlapsed
  unfold reclaimOne
  by_cases ha : 0 < job.attemptsRemaining
  · have hq := Job.requeue_expired hjl hlapsed ha "lease expired"
    have htype : ((job.expireLease now).1.requeue now "lease expired").self.type = job.type :=
      Job.type_of_work ((Job.requeue_work _ _ _).trans (Job.expireLease_work _ _))
    simp only [hlookup, hretry, ha, decide_true, if_true, hq, makeReady, hscored, htype,
      Call.result_returned, Call.self_returned, true_and]
    intro id'
    by_cases hid : id' = id
    · subst hid
      rw [if_pos rfl]
      simp only [Slot.reclaim, hj, hscore, ha, if_true]
      ext1 <;> simp [slot, inner_setInner, Slot.unlease, Slot.setReady, Slot.reclaimed, ha]
    · rw [if_neg hid]
      ext1 <;> simp [slot, inner_setInner, hid]
  · simp only [hlookup, hretry, ha, decide_false, Bool.false_eq_true, if_false,
      Call.result_returned, Call.self_returned, true_and]
    intro id'
    by_cases hid : id' = id
    · subst hid
      rw [if_pos rfl]
      simp only [Slot.reclaim, hj, hscore, ha, if_false]
      ext1 <;> simp [slot, Slot.unlease, Slot.reclaimed, ha]
    · rw [if_neg hid]
      ext1 <;> simp [slot, hid]

theorem reclaimOne_coherent (h : q.Coherent) {id : JobId} {expiry : Instant}
    (hl : (q.slot id).lease = some expiry) (he : expiry ≤ now) :
    (q.reclaimOne now id).self.Coherent := by
  intro id'
  rw [(reclaimOne_spec h hl he).2]
  split
  · rename_i hid
    subst hid
    exact Slot.reclaim_coherent (h id') hl he
  · exact h id'

/-- The loop over distinct lapsed leases reclaims each of them once and touches no
    other slot. -/
theorem reclaimAll_spec (ids : List JobId) (q : JobQueue) (h : q.Coherent) (hnodup : ids.Nodup)
    (hlapsed : ∀ id ∈ ids, ∃ expiry, (q.slot id).lease = some expiry ∧ expiry ≤ now) :
    (reclaimAll now ids q).result = .ok ids ∧ (reclaimAll now ids q).self.Coherent ∧
      ∀ id, (reclaimAll now ids q).self.slot id =
        if id ∈ ids then (q.slot id).reclaim now else q.slot id := by
  induction ids generalizing q with
  | nil => exact ⟨rfl, h, fun id => by simp [reclaimAll]⟩
  | cons first rest ih =>
    obtain ⟨hfirst, hrest⟩ := List.nodup_cons.mp hnodup
    obtain ⟨expiry, hl, he⟩ := hlapsed first List.mem_cons_self
    obtain ⟨hresult, hslots⟩ := reclaimOne_spec h hl he
    have hothers : ∀ id ∈ rest, ∃ expiry,
        ((q.reclaimOne now first).self.slot id).lease = some expiry ∧ expiry ≤ now := by
      intro id hid
      have hne : id ≠ first := fun heq => hfirst (heq ▸ hid)
      rw [hslots, if_neg hne]
      exact hlapsed id (List.mem_cons_of_mem _ hid)
    obtain ⟨hids, hinv, hall⟩ := ih _ (reclaimOne_coherent h hl he) hrest hothers
    refine ⟨?_, ?_, fun id => ?_⟩
    · simp [reclaimAll, hresult, hids]
    · simpa only [reclaimAll, hresult, hids, Call.self_returned] using hinv
    · simp only [reclaimAll, hresult, hids, Call.self_returned]
      rw [hall, hslots]
      by_cases hid : id = first
      · subst hid
        simp [hfirst]
      · simp [hid]

theorem reclaimExpired_slots (h : q.Coherent) (now : Instant) (limit : Nat) :
    (q.reclaimExpired now limit).result = .ok (q.reclaimBatch now limit) ∧
      (q.reclaimExpired now limit).self.Coherent ∧
      ∀ id, (q.reclaimExpired now limit).self.slot id =
        if id ∈ q.reclaimBatch now limit then (q.slot id).reclaim now else q.slot id :=
  reclaimAll_spec _ q h (q.reclaimBatch_nodup now limit) fun _ hid => lapsed_of_mem_reclaimBatch hid

/-- `reclaim_expired` on a consistent queue. -/
theorem reclaimExpired_spec (h : q.Inv) (now : Instant) (limit : Nat) :
    (q.reclaimExpired now limit).result = .ok (q.reclaimBatch now limit) ∧
      (q.reclaimExpired now limit).self.Inv ∧
      ∀ id, (q.reclaimExpired now limit).self.slot id =
        if id ∈ q.reclaimBatch now limit then (q.slot id).reclaim now else q.slot id := by
  obtain ⟨hresult, -, hslots⟩ := reclaimExpired_slots h.coherent now limit
  refine ⟨hresult, fun id => ?_, hslots⟩
  rw [hslots]
  split
  · rename_i hmem
    obtain ⟨expiry, hl, he⟩ := lapsed_of_mem_reclaimBatch hmem
    exact Slot.reclaim_consistent (h id) hl he
  · exact h id

/-! ### Cancelling the jobs of a run -/

theorem cancelOne_slot (q : JobQueue) (id id' : JobId) :
    (q.cancelOne id).1.slot id' = if id' = id then (q.slot id').cancel else q.slot id' := by
  unfold cancelOne
  cases hj : q.jobs.lookup id with
  | none =>
    by_cases hid : id' = id
    · subst hid
      have hslot : (q.slot id').job = none := hj
      simp [Slot.cancel, hslot]
    · simp [hid]
  | some job =>
    by_cases ht : job.status.isTerminal = true
    · by_cases hid : id' = id
      · subst hid
        have hslot : (q.slot id').job = some job := hj
        simp [Slot.cancel, hslot, ht]
      · simp [ht, hid]
    · simp only [ht, Bool.false_eq_true, if_false]
      by_cases hid : id' = id
      · subst hid
        have hslot : (q.slot id').job = some job := hj
        rw [if_pos rfl]
        simp only [Slot.cancel, hslot, ht, Bool.false_eq_true, if_false]
        ext1 <;> simp [slot, inner_popInner, Slot.unlease, Slot.clearReady, Slot.cancelled]
      · rw [if_neg hid]
        ext1 <;> simp [slot, inner_popInner, hid]

theorem cancelOne_inv (h : q.Inv) {id : JobId} (hfree : (q.slot id).acknowledged = false) :
    (q.cancelOne id).1.Inv := by
  intro id'
  rw [cancelOne_slot]
  split
  · rename_i hid
    subst hid
    exact Slot.cancel_consistent (h id') hfree
  · exact h id'

theorem cancelAll_inv (ids : List JobId) (q : JobQueue) (h : q.Inv)
    (hfree : ∀ id ∈ ids, (q.slot id).acknowledged = false) : (cancelAll ids q).1.Inv := by
  induction ids generalizing q with
  | nil => exact h
  | cons first rest ih =>
    refine ih _ (cancelOne_inv h (hfree first List.mem_cons_self)) fun id hid => ?_
    have hid' := hfree id (List.mem_cons_of_mem _ hid)
    rw [cancelOne_slot]
    split
    · unfold Slot.cancel
      split
      · exact hid'
      · split <;> exact hid'
    · exact hid'

/-- Only members of the run's set are visited, and those are never acknowledged. -/
theorem cancelRunJobs_inv (h : q.Inv) (runId : RunId) : (q.cancelRunJobs runId).1.Inv := by
  refine cancelAll_inv _ q h fun id hid => ?_
  have hmem : (q.slot id).member runId = true := by
    simpa [slot] using (List.perm_insertionSort _ _).mem_iff.mp hid
  cases hj : (q.slot id).job with
  | none => exact ((h id).absent hj).2.2.1
  | some job => exact ((h id).member job hj runId hmem).2

/-! ### Reachable queues -/

/-- The operations callers may apply, with what the orchestrator promises: published
    jobs carry no lease and keep their type and run, and leases last a positive time. -/
inductive Reachable : JobQueue → Prop where
  | empty : Reachable JobQueue.empty
  | enqueue {q : JobQueue} (job : Job) : Reachable q → (q.slot job.id).Publishable job →
      Reachable (q.enqueue job)
  | claim {q : JobQueue} (consumer : WorkerId) (jobTypes : List JobType) {duration : Duration}
      (now : Instant) (token : LeaseToken) : Reachable q → 0 < duration →
      Reachable (q.claim consumer jobTypes duration now token).self
  | renew {q : JobQueue} (id : JobId) (token : LeaseToken) (duration : Duration)
      (now : Instant) : Reachable q → Reachable (q.renew id token duration now).self
  | acknowledge {q : JobQueue} (id : JobId) (token : LeaseToken) : Reachable q →
      Reachable (q.acknowledge id token)
  | release {q : JobQueue} (id : JobId) (token : LeaseToken) (requeue : Bool) : Reachable q →
      Reachable (q.release id token requeue).self
  | reclaimExpired {q : JobQueue} (now : Instant) (limit : Nat) : Reachable q →
      Reachable (q.reclaimExpired now limit).self
  | cancelRunJobs {q : JobQueue} (runId : RunId) : Reachable q →
      Reachable (q.cancelRunJobs runId).1

/-- **The dictionaries agree in every reachable queue.** -/
theorem Reachable.inv {q : JobQueue} (h : q.Reachable) : q.Inv := by
  induction h with
  | empty => exact inv_empty
  | enqueue job _ hpub ih => exact enqueue_inv ih hpub
  | claim consumer jobTypes now token _ hd ih => exact claim_inv ih consumer jobTypes hd now token
  | renew id token duration now _ ih => exact renew_inv ih id token duration now
  | acknowledge id token _ ih => exact acknowledge_inv ih id token
  | release id token requeue _ ih => exact release_inv ih id token requeue
  | reclaimExpired now limit _ ih => exact (reclaimExpired_spec ih now limit).2.1
  | cancelRunJobs runId _ ih => exact cancelRunJobs_inv ih runId

end JobQueue

end AgenticPlatform
