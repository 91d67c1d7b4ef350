import AgenticPlatform.JobQueueOrder

/-!
# The queue's representation invariant

`Slot.Consistent` says how the dictionaries agree about one job: the ready entry exists
exactly for a queued record and carries its stored score, the lease entry is the expiry
of the stored lease, and a lease is stored exactly while the record is in flight and
not acknowledged. Each operation keeps it, so it holds in every reachable state, and
under it no operation can meet a missing score.
-/

namespace AgenticPlatform

namespace Slot

/-- The dictionaries agree about the job `id`. -/
structure Consistent (id : JobId) (s : Slot) : Prop where
  absent : s.job = none → (∀ k, s.ready k = none) ∧ s.lease = none ∧
    s.acknowledged = false ∧ ∀ r, s.member r = false
  keyed : ∀ job, s.job = some job → job.id = id
  scored : ∀ job, s.job = some job → ∃ score, s.score = some score
  ready : ∀ job, s.job = some job → ∀ k, s.ready k =
    if k = job.type ∧ job.status = .queued then s.score else none
  lease : ∀ job, s.job = some job → s.lease = job.lease.map Lease.expiresAt
  held : ∀ job, s.job = some job →
    (job.lease.isSome = true ↔ job.status.isInFlight = true ∧ s.acknowledged = false)
  acked : ∀ job, s.job = some job → s.acknowledged = true → job.status.isInFlight = true
  member : ∀ job, s.job = some job → ∀ r, s.member r = true →
    r = job.runId ∧ s.acknowledged = false

/-- What the ready, score and lease entries say about the record. This half holds also of
    a record that is published again for another run, or cancelled after it was
    acknowledged. -/
structure Coherent (id : JobId) (s : Slot) : Prop where
  absent : s.job = none → (∀ k, s.ready k = none) ∧ s.lease = none
  keyed : ∀ job, s.job = some job → job.id = id
  scored : ∀ job, s.job = some job → ∃ score, s.score = some score
  ready : ∀ job, s.job = some job → ∀ k, s.ready k =
    if k = job.type ∧ job.status = .queued then s.score else none
  lease : ∀ job, s.job = some job → s.lease = job.lease.map Lease.expiresAt
  held : ∀ job, s.job = some job → job.lease.isSome = true → job.status.isInFlight = true

variable {id : JobId} {s : Slot}

theorem Consistent.coherent (h : s.Consistent id) : s.Coherent id where
  absent hj := ⟨(h.absent hj).1, (h.absent hj).2.1⟩
  keyed := h.keyed
  scored := h.scored
  ready := h.ready
  lease := h.lease
  held job hj hl := ((h.held job hj).mp hl).1

theorem Consistent.not_acknowledged (h : s.Consistent id) {job : Job} (hj : s.job = some job)
    (hs : job.status.isInFlight = false) : s.acknowledged = false := by
  cases ha : s.acknowledged with
  | false => rfl
  | true => rw [h.acked job hj ha] at hs; cases hs

theorem Coherent.no_lease (h : s.Coherent id) {job : Job} (hj : s.job = some job)
    (hs : job.status.isInFlight = false) : job.lease = none := by
  cases hl : job.lease with
  | none => rfl
  | some lease =>
    have hheld := h.held job hj (by simp [hl])
    rw [hheld] at hs
    cases hs

/-- A record that is ready is queued, and under its own type. -/
theorem Coherent.of_ready (h : s.Coherent id) {k : JobType} {score : Int}
    (hr : s.ready k = some score) :
    ∃ job, s.job = some job ∧ job.type = k ∧ job.status = .queued := by
  cases hj : s.job with
  | none => rw [(h.absent hj).1 k] at hr; cases hr
  | some job =>
    rw [h.ready job hj k] at hr
    split at hr
    · rename_i hcond
      exact ⟨job, rfl, hcond.1.symm, hcond.2⟩
    · cases hr

/-- What a publication may carry: no lease, and the type and run it was first
    published with. -/
def Publishable (s : Slot) (job : Job) : Prop :=
  job.lease = none ∧ ∀ stored, s.job = some stored →
    stored.type = job.type ∧ stored.runId = job.runId

/-- A record that is neither held nor acknowledged has no lease entry. -/
theorem Coherent.lease_of_not_refused (h : s.Coherent id) (href : s.refuses = false) :
    s.lease = none := by
  cases hj : s.job with
  | none => exact (h.absent hj).2
  | some stored =>
    simp only [refuses, hj, Bool.or_eq_false_iff] at href
    rw [h.lease stored hj, h.no_lease hj href.1]
    rfl

theorem enqueue_coherent (h : s.Coherent id) {job : Job} (hid : job.id = id)
    (hlease : job.lease = none) (htype : ∀ stored, s.job = some stored → stored.type = job.type) :
    (s.enqueue job).Coherent id := by
  unfold enqueue
  split
  · exact h
  · rename_i href
    have hnone := h.lease_of_not_refused (by simpa using href)
    have hready : ∀ k, k ≠ job.type → s.ready k = none := by
      intro k hk
      cases hj : s.job with
      | none => exact (h.absent hj).1 k
      | some stored =>
        rw [h.ready stored hj k, if_neg]
        rintro ⟨hktype, -⟩
        exact hk (hktype.trans (htype stored hj))
    constructor
    · intro hj
      cases hj
    · intro stored hstored
      cases hstored
      exact hid
    · intro stored hstored
      exact ⟨_, rfl⟩
    · intro stored hstored k
      cases hstored
      by_cases hk : k = job.type
      · simp [setReady, hk, Job.rebuild]
      · simp [setReady, hk, hready k hk, Job.rebuild]
    · intro stored hstored
      cases hstored
      simp [setReady, hnone, hlease, Job.rebuild]
    · intro stored hstored hl
      cases hstored
      simp [hlease, Job.rebuild] at hl

theorem enqueue_consistent (h : s.Consistent id) {job : Job} (hid : job.id = id)
    (hpub : s.Publishable job) : (s.enqueue job).Consistent id := by
  have hcoherent := enqueue_coherent h.coherent hid hpub.1 fun stored hj => (hpub.2 stored hj).1
  by_cases href : s.refuses = true
  · have hsame : s.enqueue job = s := by simp [enqueue, href]
    rw [hsame]
    exact h
  · -- the record, if there is one, is neither held nor acknowledged
    have hfree : s.acknowledged = false := by
      cases hj : s.job with
      | none => exact (h.absent hj).2.2.1
      | some stored =>
        simp only [refuses, hj, Bool.or_eq_true, not_or, Bool.not_eq_true] at href
        exact href.2
    have hmember : ∀ r, s.member r = true → r = job.runId := by
      intro r hr
      cases hj : s.job with
      | none => rw [(h.absent hj).2.2.2 r] at hr; cases hr
      | some stored =>
        exact ((h.member stored hj r hr).1).trans (hpub.2 stored hj).2
    unfold enqueue at hcoherent ⊢
    rw [if_neg href] at hcoherent ⊢
    refine ⟨by simp, hcoherent.keyed, hcoherent.scored, hcoherent.ready, hcoherent.lease,
      ?_, ?_, ?_⟩ <;> intro stored hstored <;>
      simp only [Option.some.injEq] at hstored <;> subst hstored
    · simp [hpub.1, Job.rebuild, JobStatus.isInFlight]
    · simp [setReady, hfree]
    · intro r hr
      simp only [Bool.or_eq_true, decide_eq_true_eq] at hr
      refine ⟨?_, hfree⟩
      rcases hr with hr | hr
      · exact hr
      · exact hmember r hr

/-- What an update of the record relies on, whatever the ready and lease entries say. -/
structure Anchored (id : JobId) (s : Slot) (stored : Job) : Prop where
  keyed : stored.id = id
  scored : ∃ score, s.score = some score
  member : ∀ r, s.member r = true → r = stored.runId
  free : s.acknowledged = false

theorem Consistent.anchored (h : s.Consistent id) {job : Job} (hj : s.job = some job)
    (hfree : s.acknowledged = false) : s.Anchored id job :=
  ⟨h.keyed job hj, h.scored job hj, fun r hr => (h.member job hj r hr).1, hfree⟩

theorem ne_queued_of_isInFlight {status : JobStatus} (h : status.isInFlight = true) :
    status ≠ .queued := by
  intro hq
  rw [hq] at h
  cases h

section Updates

variable {stored job : Job} {lease : Lease} {score : Int}

theorem leased_coherent (hkeyed : job.id = id) (hscored : ∃ score, s.score = some score)
    (hready : ∀ k, s.ready k = none) (hstatus : job.status.isInFlight = true)
    (hlease : job.lease = some lease) : (s.leased job lease.expiresAt).Coherent id := by
  have hnq := ne_queued_of_isInFlight hstatus
  refine ⟨by simp [leased], ?_, ?_, ?_, ?_, ?_⟩ <;> intro record hrecord <;>
    simp only [leased, Option.some.injEq] at hrecord <;> subst hrecord
  · exact hkeyed
  · exact hscored
  · intro k
    simp [leased, hready, Job.rebuild, hnq]
  · simp [leased, Job.rebuild, hlease]
  · intro _
    exact hstatus

theorem unlease_coherent (hkeyed : job.id = id) (hscored : ∃ score, s.score = some score)
    (hready : ∀ k, s.ready k = none) (hlease : job.lease = none) (hnq : job.status ≠ .queued) :
    (s.unlease job).Coherent id := by
  refine ⟨by simp [unlease], ?_, ?_, ?_, ?_, ?_⟩ <;> intro record hrecord <;>
    simp only [unlease, Option.some.injEq] at hrecord <;> subst hrecord
  · exact hkeyed
  · exact hscored
  · intro k
    simp [unlease, hready, hnq]
  · simp [unlease, hlease]
  · simp [hlease]

theorem requeued_coherent (hkeyed : job.id = id) (hready : ∀ k, s.ready k = none)
    (hscore : s.score = some score) (hlease : job.lease = none) (hstatus : job.status = .queued) :
    ((s.unlease job).setReady job.type score).Coherent id := by
  refine ⟨by simp [unlease, setReady], ?_, ?_, ?_, ?_, ?_⟩ <;>
    intro record hrecord <;>
    simp only [unlease, setReady, Option.some.injEq] at hrecord <;> subst hrecord
  · exact hkeyed
  · exact ⟨score, hscore⟩
  · intro k
    by_cases hk : k = job.type <;> simp [unlease, setReady, hready, hk, hstatus, hscore]
  · simp [unlease, setReady, hlease]
  · simp [hlease]

theorem acknowledge_coherent (h : s.Coherent id) (hj : s.job = some job)
    (hstatus : job.status.isInFlight = true) : (s.acknowledge job).Coherent id := by
  have hnq := ne_queued_of_isInFlight hstatus
  refine ⟨by simp [acknowledge], ?_, ?_, ?_, ?_, ?_⟩ <;> intro record hrecord <;>
    simp only [acknowledge, Option.some.injEq] at hrecord <;> subst hrecord
  · exact h.keyed job hj
  · exact h.scored job hj
  · intro k
    simp [acknowledge, Job.rebuild, h.ready job hj k, hnq]
  · simp [acknowledge]
  · intro hl
    simp at hl

/-- A lease is granted to a queued record, or extended on one that is held. -/
theorem leased_consistent (h : s.Anchored id stored) (hwork : job.work = stored.work)
    (hready : ∀ k, s.ready k = none)
    (hstatus : job.status.isInFlight = true) (hlease : job.lease = some lease) :
    (s.leased job lease.expiresAt).Consistent id := by
  have hcoherent := leased_coherent ((Job.id_of_work hwork).trans h.keyed) h.scored hready
    hstatus hlease
  refine ⟨by simp [leased], hcoherent.keyed, hcoherent.scored, hcoherent.ready, hcoherent.lease,
    ?_, ?_, ?_⟩ <;> intro record hrecord <;>
    simp only [leased, Option.some.injEq] at hrecord <;> subst hrecord
  · simp [leased, Job.rebuild, hlease, hstatus, h.free]
  · simp [Job.rebuild, hstatus]
  · intro r hr
    exact ⟨(h.member r hr).trans (Job.runId_of_work hwork).symm, h.free⟩

/-- A record whose lease is dropped and which is not made ready. -/
theorem unlease_consistent (h : s.Anchored id stored) (hwork : job.work = stored.work)
    (hready : ∀ k, s.ready k = none) (hlease : job.lease = none)
    (hstatus : job.status.isInFlight = false) (hnq : job.status ≠ .queued) :
    (s.unlease job).Consistent id := by
  have hcoherent := unlease_coherent ((Job.id_of_work hwork).trans h.keyed) h.scored hready
    hlease hnq
  refine ⟨by simp [unlease], hcoherent.keyed, hcoherent.scored, hcoherent.ready,
    hcoherent.lease, ?_, ?_, ?_⟩ <;> intro record hrecord <;>
    simp only [unlease, Option.some.injEq] at hrecord <;> subst hrecord
  · simp [hlease, hstatus]
  · simp [unlease, h.free]
  · intro r hr
    exact ⟨(h.member r hr).trans (Job.runId_of_work hwork).symm, h.free⟩

/-- A record whose lease is dropped and which becomes ready again. -/
theorem requeued_consistent (h : s.Anchored id stored) (hwork : job.work = stored.work)
    (hready : ∀ k, s.ready k = none) (hscore : s.score = some score) (hlease : job.lease = none)
    (hstatus : job.status = .queued) :
    ((s.unlease job).setReady job.type score).Consistent id := by
  have hcoherent := requeued_coherent ((Job.id_of_work hwork).trans h.keyed) hready hscore
    hlease hstatus
  refine ⟨by simp [unlease, setReady], hcoherent.keyed, hcoherent.scored, hcoherent.ready,
    hcoherent.lease, ?_, ?_, ?_⟩ <;>
    intro record hrecord <;>
    simp only [unlease, setReady, Option.some.injEq] at hrecord <;> subst hrecord
  · simp [hlease, hstatus, JobStatus.isInFlight]
  · simp [unlease, setReady, h.free]
  · intro r hr
    exact ⟨(h.member r hr).trans (Job.runId_of_work hwork).symm, h.free⟩

theorem acknowledge_consistent (h : s.Consistent id) (hj : s.job = some job)
    (hstatus : job.status.isInFlight = true) : (s.acknowledge job).Consistent id := by
  have hcoherent := acknowledge_coherent h.coherent hj hstatus
  refine ⟨by simp [acknowledge], hcoherent.keyed, hcoherent.scored, hcoherent.ready,
    hcoherent.lease, ?_, ?_, ?_⟩ <;> intro record hrecord <;>
    simp only [acknowledge, Option.some.injEq] at hrecord <;> subst hrecord
  · simp [acknowledge]
  · simp [Job.rebuild, hstatus]
  · intro r hr
    simp only [acknowledge, Bool.and_eq_true, Bool.not_eq_true', decide_eq_false_iff_not] at hr
    exact absurd (h.member job hj r hr.2).1 hr.1

end Updates

end Slot

namespace JobQueue

open Dict

/-- The dictionaries agree about every job. -/
def Inv (q : JobQueue) : Prop := ∀ id, (q.slot id).Consistent id

/-- The half of the invariant that survives any republication. -/
def Coherent (q : JobQueue) : Prop := ∀ id, (q.slot id).Coherent id

theorem Inv.coherent {q : JobQueue} (h : q.Inv) : q.Coherent := fun id => (h id).coherent

theorem inv_empty : JobQueue.empty.Inv := by
  intro id
  rw [slot_empty]
  exact ⟨by simp, by simp, by simp, by simp, by simp, by simp, by simp, by simp⟩

variable {q : JobQueue}

theorem enqueue_inv (h : q.Inv) {job : Job} (hpub : (q.slot job.id).Publishable job) :
    (q.enqueue job).Inv := by
  intro id
  rw [slot_enqueue]
  split
  · rename_i hid
    subst hid
    exact Slot.enqueue_consistent (h job.id) rfl hpub
  · exact h id

/-! ### Claims -/

theorem claim_none {consumer : WorkerId} {jobTypes : List JobType} {duration : Duration}
    {now : Instant} {token : LeaseToken} (h : q.nextReady jobTypes.eraseDups = none) :
    q.claim consumer jobTypes duration now token = .returned q none := by
  unfold claim claimLoop
  rw [h]

/-- A claim of a lease with a positive duration takes the record that `_next_ready` finds:
    its entry is not stale, so one round is enough. -/
theorem claim_found (h : q.Coherent) (consumer : WorkerId) {jobTypes : List JobType}
    {duration : Duration} (hd : 0 < duration) (now : Instant) (token : LeaseToken)
    {jobType : JobType} {id : JobId}
    (hnext : q.nextReady jobTypes.eraseDups = some (jobType, id)) :
    ∃ stored lease, (q.slot id).job = some stored ∧ stored.type = jobType ∧
      stored.status = .queued ∧
      (stored.rebuild.leaseTo consumer now duration token).result = .ok lease ∧
      (q.claim consumer jobTypes duration now token).result =
        .ok (some ((stored.rebuild.leaseTo consumer now duration token).self, lease)) ∧
      ∀ id', (q.claim consumer jobTypes duration now token).self.slot id' =
        if id' = id then (q.slot id').claim jobType
          (stored.rebuild.leaseTo consumer now duration token).self lease.expiresAt
        else q.slot id' := by
  obtain ⟨-, score, hready⟩ := nextReady_spec hnext
  obtain ⟨stored, hstored, htype, hqueued⟩ := (h id).of_ready hready
  have hlookup : q.jobs.lookup id = some stored := hstored
  have hrebuilt : stored.rebuild.status = .queued := hqueued
  obtain ⟨lease, hresult, -⟩ := Job.leaseTo_of_queued hrebuilt consumer now hd token
  refine ⟨stored, lease, hstored, htype, hqueued, hresult, ?_, fun id' => ?_⟩
  · unfold claim claimLoop
    simp only [hnext, hlookup, hqueued, if_true, grant, hresult, Call.result_returned]
  · unfold claim claimLoop
    simp only [hnext, hlookup, hqueued, if_true, grant, hresult, Call.self_returned]
    rw [slot_leased (q := { q with ready := popInner q.ready jobType id }), slot_popReady]
    by_cases hid' : id' = id
    · simp [hid', Slot.claim]
    · simp [hid']

/-- A claim of a lease with a positive duration finds nothing and changes nothing, or
    hands out one queued record. -/
theorem claim_cases (h : q.Coherent) (consumer : WorkerId) (jobTypes : List JobType)
    {duration : Duration} (hd : 0 < duration) (now : Instant) (token : LeaseToken) :
    ((q.claim consumer jobTypes duration now token).result = .ok none ∧
      (q.claim consumer jobTypes duration now token).self = q) ∨
    ∃ stored job lease,
      (q.slot stored.id).job = some stored ∧ stored.status = .queued ∧
      stored.type ∈ jobTypes ∧
      (q.claim consumer jobTypes duration now token).result = .ok (some (job, lease)) ∧
      job = (stored.rebuild.leaseTo consumer now duration token).self ∧
      job.work = stored.work ∧ job.status = .leased ∧ job.lease = some lease ∧
      job.attempt = stored.attempt + 1 ∧
      lease.token = token ∧ lease.expiresAt = now + duration ∧
      ∀ id, (q.claim consumer jobTypes duration now token).self.slot id =
        if id = stored.id then (q.slot id).claim stored.type job lease.expiresAt
        else q.slot id := by
  cases hnext : q.nextReady jobTypes.eraseDups with
  | none =>
    rw [claim_none hnext]
    exact .inl ⟨rfl, rfl⟩
  | some found =>
    obtain ⟨jobType, id⟩ := found
    obtain ⟨hmem, -⟩ := nextReady_spec hnext
    obtain ⟨stored, lease, hstored, htype, hqueued, hgrant, hresult, hslots⟩ :=
      claim_found h consumer hd now token hnext
    have hid : stored.id = id := (h id).keyed stored hstored
    have hrebuilt : stored.rebuild.status = .queued := hqueued
    obtain ⟨lease', hgrant', htoken, hexpires, hstatus, hlease, hattempt⟩ :=
      Job.leaseTo_of_queued hrebuilt consumer now hd token
    rw [hgrant, Except.ok.injEq] at hgrant'
    subst hgrant'
    refine .inr ⟨stored, (stored.rebuild.leaseTo consumer now duration token).self, lease,
      hid ▸ hstored, hqueued, ?_, hresult, rfl, ?_, hstatus, hlease, hattempt, htoken, hexpires, ?_⟩
    · rw [htype]
      exact List.mem_eraseDups.mp hmem
    · exact Job.leaseTo_work _ _ _ _ _
    · intro id'
      rw [hslots, hid, htype]

theorem claim_inv (h : q.Inv) (consumer : WorkerId) (jobTypes : List JobType)
    {duration : Duration} (hd : 0 < duration) (now : Instant) (token : LeaseToken) :
    (q.claim consumer jobTypes duration now token).self.Inv := by
  rcases claim_cases h.coherent consumer jobTypes hd now token with
    ⟨-, hself⟩ | ⟨stored, job, lease, hstored, hqueued, -, -, -, hwork, hstatus, hlease, -, -, -,
      hslots⟩
  · rw [hself]
    exact h
  · intro id
    rw [hslots]
    split
    · rename_i hid
      subst hid
      have hfree := (h stored.id).not_acknowledged hstored (by rw [hqueued]; rfl)
      have hready : ∀ k, ((q.slot stored.id).clearReady stored.type).ready k = none := by
        intro k
        simp only [Slot.clearReady]
        split
        · rfl
        · rename_i hk
          rw [(h stored.id).ready stored hstored, if_neg (fun hc => hk hc.1)]
      have hanchor := (h stored.id).anchored hstored hfree
      exact Slot.leased_consistent (s := (q.slot stored.id).clearReady stored.type)
        ⟨hanchor.keyed, hanchor.scored, hanchor.member, hanchor.free⟩ hwork hready
        (by rw [hstatus]; rfl) hlease
    · exact h id

/-! ### Reports of a holder -/

/-- A held record has no ready entry. -/
theorem Inv.not_ready (h : q.Inv) {id : JobId} {job : Job} (hj : (q.slot id).job = some job)
    (hnq : job.status ≠ .queued) (k : JobType) : (q.slot id).ready k = none := by
  rw [(h id).ready job hj k, if_neg (fun hc => hnq hc.2)]

/-- A record with a lease is in flight and not acknowledged. -/
theorem Inv.of_lease (h : q.Inv) {id : JobId} {job : Job} {lease : Lease}
    (hj : (q.slot id).job = some job) (hl : job.lease = some lease) :
    job.status.isInFlight = true ∧ (q.slot id).acknowledged = false :=
  ((h id).held job hj).mp (by simp [hl])

theorem holds_iff {job : Job} {token : LeaseToken} :
    holds job token = true ↔ ∃ lease, job.lease = some lease ∧ lease.token = token := by
  unfold holds
  cases job.lease with
  | none => simp
  | some lease => simp

/-- A renewal that returns found the caller's live lease and pushed its expiry. -/
theorem renew_cases {id : JobId} {token : LeaseToken} {duration : Duration} {now : Instant}
    {renewed : Lease} (hr : (q.renew id token duration now).result = .ok renewed) :
    ∃ job lease, (q.slot id).job = some job ∧ job.lease = some lease ∧ lease.token = token ∧
      now < lease.expiresAt ∧ renewed.token = token ∧ renewed.expiresAt = now + duration ∧
      ∀ id', (q.renew id token duration now).self.slot id' =
        if id' = id then (q.slot id').leased { job with lease := some renewed } renewed.expiresAt
        else q.slot id' := by
  unfold renew at hr ⊢
  cases hj : q.jobs.lookup id with
  | none => simp [hj] at hr
  | some job =>
    simp only [hj] at hr ⊢
    cases hc : (job.renewLease token now duration).result with
    | error e => simp [hc] at hr
    | ok lease' =>
      simp only [hc, Call.result_returned, Except.ok.injEq] at hr
      subst hr
      obtain ⟨lease, hlease, htoken, hlive, htoken', hexpires, hself⟩ := Job.renewLease_eq_ok hc
      refine ⟨job, lease, hj, hlease, htoken, hlive, htoken', hexpires, fun id' => ?_⟩
      simp only [Call.self_returned]
      rw [slot_leased, hself]

theorem renew_raised {id : JobId} {token : LeaseToken} {duration : Duration} {now : Instant}
    {e : PyError} (hr : (q.renew id token duration now).result = .error e) :
    (q.renew id token duration now).self = q := by
  unfold renew at hr ⊢
  split
  · rfl
  · rename_i job hj
    simp only [hj] at hr
    cases hc : (job.renewLease token now duration).result with
    | error e => simp [hc]
    | ok lease' => simp [hc] at hr

theorem renew_inv (h : q.Inv) (id : JobId) (token : LeaseToken) (duration : Duration)
    (now : Instant) : (q.renew id token duration now).self.Inv := by
  cases hr : (q.renew id token duration now).result with
  | error e =>
    rw [renew_raised hr]
    exact h
  | ok renewed =>
    obtain ⟨job, lease, hj, hlease, -, -, -, -, hslots⟩ := renew_cases hr
    obtain ⟨hstatus, hfree⟩ := h.of_lease hj hlease
    intro id'
    rw [hslots]
    split
    · rename_i hid
      subst hid
      exact Slot.leased_consistent ((h id').anchored hj hfree) rfl
        (h.not_ready hj (Slot.ne_queued_of_isInFlight hstatus)) hstatus rfl
    · exact h id'

theorem acknowledge_inv (h : q.Inv) (id : JobId) (token : LeaseToken) :
    (q.acknowledge id token).Inv := by
  intro id'
  rw [slot_acknowledge]
  cases hj : (q.slot id).job with
  | none => exact h id'
  | some job =>
    simp only
    split
    · rename_i hcond
      obtain ⟨lease, hlease, -⟩ := holds_iff.mp hcond.1
      rw [hcond.2]
      exact Slot.acknowledge_consistent (h id) hj (h.of_lease hj hlease).1
    · exact h id'

/-- A release by anyone but the holder changes nothing; the holder's release drops the
    lease and, on request, makes the record ready. It never raises. -/
theorem release_cases (h : q.Coherent) (id : JobId) (token : LeaseToken) (requeue : Bool) :
    (q.release id token requeue).result = .ok () ∧
    ((¬ (∃ job, (q.slot id).job = some job ∧ holds job token = true) ∧
      (q.release id token requeue).self = q) ∨
    ∃ job score, (q.slot id).job = some job ∧ holds job token = true ∧
      (q.slot id).score = some score ∧
      ∀ id', (q.release id token requeue).self.slot id' =
        if id' = id then
          if requeue then
            ((q.slot id').unlease (Slot.released job requeue)).setReady job.type score
          else (q.slot id').unlease (Slot.released job requeue)
        else q.slot id') := by
  unfold release
  cases hj : q.jobs.lookup id with
  | none =>
    refine ⟨rfl, .inl ⟨?_, rfl⟩⟩
    rintro ⟨job, hjob, -⟩
    exact absurd (hj.symm.trans hjob) (by simp)
  | some job =>
    by_cases hh : holds job token = true
    · obtain ⟨score, hscore⟩ := (h id).scored job hj
      have hscore' : q.scores.lookup id = some score := hscore
      cases requeue with
      | false =>
        simp only [hh, if_true, Bool.false_eq_true, if_false, Call.result_returned,
          Call.self_returned, true_and]
        refine .inr ⟨job, score, hj, hh, hscore, fun id' => ?_⟩
        by_cases hid : id' = id <;>
          simp [slot, lookup_insert_ite, lookup_erase_ite, hid, Slot.unlease, Slot.released]
      | true =>
        simp only [hh, if_true, makeReady, hscore', Call.result_returned, Call.self_returned,
          true_and]
        refine .inr ⟨job, score, hj, hh, hscore, fun id' => ?_⟩
        by_cases hid : id' = id
        · ext1 <;> simp [slot, lookup_insert_ite, lookup_erase_ite, inner_setInner, hid,
            Slot.unlease, Slot.released, Slot.setReady]
        · ext1 <;> simp [slot, inner_setInner, hid]
    · simp only [hh, Bool.false_eq_true, if_false, Call.result_returned, Call.self_returned,
        true_and, and_true]
      refine .inl ?_
      rintro ⟨job', hjob, hh'⟩
      have hjob' : q.jobs.lookup id = some job' := hjob
      rw [hj] at hjob'
      cases hjob'
      exact hh hh'

theorem release_inv (h : q.Inv) (id : JobId) (token : LeaseToken) (requeue : Bool) :
    (q.release id token requeue).self.Inv := by
  obtain ⟨-, ⟨-, hself⟩ | ⟨job, score, hj, hh, hscore, hslots⟩⟩ :=
    release_cases h.coherent id token requeue
  · rw [hself]
    exact h
  · obtain ⟨lease, hlease, -⟩ := holds_iff.mp hh
    obtain ⟨hstatus, hfree⟩ := h.of_lease hj hlease
    have hready := h.not_ready hj (Slot.ne_queued_of_isInFlight hstatus)
    have hanchor := (h id).anchored hj hfree
    intro id'
    rw [hslots]
    split
    · rename_i hid
      subst hid
      cases requeue with
      | true =>
        rw [if_pos rfl]
        have hwork : (Slot.released job true).work = job.work := rfl
        exact Slot.requeued_consistent hanchor hwork hready hscore rfl rfl
      | false =>
        rw [if_neg (by simp)]
        have hwork : (Slot.released job false).work = job.work := rfl
        exact Slot.unlease_consistent hanchor hwork hready rfl rfl (by simp [Slot.released])
    · exact h id'

/-- The holder's release takes the lease off the record and makes it ready on request. -/
theorem release_held (h : q.Inv) {id : JobId} {record : Job} {held : Lease} {token : LeaseToken}
    (hrecord : (q.slot id).job = some record) (hheld : record.lease = some held)
    (htoken : held.token = token) (requeue : Bool) :
    (q.release id token requeue).result = .ok () ∧
      ((q.release id token requeue).self.slot id).job = some (Slot.released record requeue) ∧
      ∀ other, other ≠ id → (q.release id token requeue).self.slot other = q.slot other := by
  obtain ⟨hresult, ⟨hnone, -⟩ | ⟨stored, score, hstored, -, -, hslots⟩⟩ :=
    release_cases h.coherent id token requeue
  · exact absurd ⟨record, hrecord, holds_iff.mpr ⟨held, hheld, htoken⟩⟩ hnone
  · obtain rfl : record = stored := Option.some.inj (hrecord.symm.trans hstored)
    refine ⟨hresult, ?_, fun other hne => ?_⟩
    · rw [hslots, if_pos rfl]
      cases requeue <;> rfl
    · rw [hslots, if_neg hne]

/-- The holder's acknowledgement leaves no queued record. -/
theorem acknowledge_held (h : q.Inv) {id : JobId} {record : Job} {held : Lease} {token : LeaseToken}
    (hrecord : (q.slot id).job = some record) (hheld : record.lease = some held)
    (htoken : held.token = token) :
    (∀ left, ((q.acknowledge id token).slot id).job = some left → left.status ≠ .queued) ∧
      ∀ other, other ≠ id → (q.acknowledge id token).slot other = q.slot other := by
  have hholds : holds record token = true := holds_iff.mpr ⟨held, hheld, htoken⟩
  constructor
  · intro left hleft
    rw [slot_acknowledge, hrecord] at hleft
    simp only [hholds, true_and, if_true] at hleft
    cases hleft
    exact Slot.ne_queued_of_isInFlight (h.of_lease hrecord hheld).1
  · intro other hne
    rw [slot_acknowledge, hrecord]
    exact if_neg fun hc => hne hc.2

end JobQueue

end AgenticPlatform
