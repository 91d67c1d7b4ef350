import AgenticPlatform.JobQueueHistory
import AgenticPlatform.RedisQueueSlots

/-!
# The keyspace as an encoding of the dictionaries

`Slot.encoded` says what the keyspace holds under a job whose slot in the in-memory
queue is known, and `Mirrors` that it holds so for every job. Under `Stamped`, the
invariant of the in-memory queue that survives any republication, each script keeps the
keyspace a mirror, on the calls on which the two adapters take the same decision.
-/

namespace AgenticPlatform

open Dict

/-- The hash of a job whose JSON fields the encoder takes. -/
def JsonTrip.hash (json : JsonTrip) (job : Job) : JobHash :=
  jobHash job (json.kept job.payload) (job.result.map json.kept)

/-- The job that its hash decodes to. -/
def JsonTrip.carried (json : JsonTrip) (job : Job) : Job :=
  { job with payload := json.kept job.payload, result := job.result.map json.kept }

/-- The encoder takes the payload and the result of the job. -/
structure JsonTrip.Takes (json : JsonTrip) (job : Job) : Prop where
  payload : ∃ kept, json.carry job.payload = .ok kept
  result : ∀ result, job.result = some result → ∃ kept, json.carry result = .ok kept

variable {json : JsonTrip}

namespace Slot

/-- The keyspace's entries of a job. -/
def encoded (json : JsonTrip) (s : Slot) : RedisSlot where
  hash := s.job.map fun job => { json.hash job with acked := s.acknowledged }
  ready := s.ready
  lease := s.lease.map wholeMillis
  member := s.member

/-- What the encoding relies on: the identifier is a UUID, the score is that of the
    record, and a stored lease names its job. -/
structure Stamped (id : JobId) (s : Slot) : Prop where
  coherent : s.Coherent id
  fresh : s.job = none → s.acknowledged = false ∧ ∀ r, s.member r = false
  uuid : s.job ≠ none → id.value < 2 ^ 128
  scored : ∀ job, s.job = some job → s.score = some (queueScore job.priority job.createdAt)
  named : ∀ job, s.job = some job → ∀ lease, job.lease = some lease → lease.jobId = id
  key : ∀ job, s.job = some job → job.idempotencyKey ≠ some ""

variable {id : JobId} {s s' : Slot}

/-- An update of the record that keeps what was fixed at its creation. -/
theorem Stamped.update (h : s.Stamped id) {job job' : Job} (hj : s.job = some job)
    (hcoherent : s'.Coherent id) (hj' : s'.job = some job') (hwork : job'.work = job.work)
    (hkey : job'.idempotencyKey = job.idempotencyKey) (hscore : s'.score = s.score)
    (hnamed : ∀ lease, job'.lease = some lease → lease.jobId = id) : s'.Stamped id where
  coherent := hcoherent
  fresh hnone := by rw [hj'] at hnone; cases hnone
  uuid _ := h.uuid (by rw [hj]; simp)
  scored record hrecord := by
    rw [hj', Option.some.injEq] at hrecord
    subst hrecord
    have hpriority : job'.priority = job.priority := congrArg Job.Work.priority hwork
    have hcreated : job'.createdAt = job.createdAt := congrArg Job.Work.createdAt hwork
    rw [hscore, h.scored job hj, hpriority, hcreated]
  named record hrecord := by
    rw [hj', Option.some.injEq] at hrecord
    subst hrecord
    exact hnamed
  key record hrecord := by
    rw [hj', Option.some.injEq] at hrecord
    subst hrecord
    rw [hkey]
    exact h.key job hj

theorem enqueue_stamped (h : s.Stamped id) {job : Job} (hid : job.id = id)
    (hlease : job.lease = none) (htype : ∀ stored, s.job = some stored → stored.type = job.type)
    (huuid : id.value < 2 ^ 128) (hkey : job.idempotencyKey ≠ some "") :
    (s.enqueue job).Stamped id := by
  have hcoherent := enqueue_coherent h.coherent hid hlease htype
  by_cases href : s.refuses = true
  · have hsame : s.enqueue job = s := by simp [enqueue, href]
    rw [hsame]
    exact h
  · unfold enqueue at hcoherent ⊢
    rw [if_neg href] at hcoherent ⊢
    refine ⟨hcoherent, by simp, fun _ => huuid, ?_, ?_, ?_⟩ <;> intro record hrecord <;>
      simp only [Option.some.injEq] at hrecord <;> subst hrecord
    · rfl
    · intro lease hl
      simp [Job.rebuild, hlease] at hl
    · exact hkey

end Slot

/-! ### Records and hashes -/

/-- The empty string is the only text a hash does not keep. -/
theorem hashText_eq {text : Option String} (h : text ≠ some "") : hashText text = text := by
  cases text with
  | none => rfl
  | some text =>
    have hne : text ≠ "" := fun heq => h (heq ▸ rfl)
    simp [hashText, Option.filter, hne]

/-- What the encoder takes is written as the hash of the job. -/
theorem jobToMapping_eq {job : Job} (h : json.Takes job) :
    jobToMapping json job = .ok (json.hash job) := by
  have hkept : ∀ {mapping kept : Mapping}, json.carry mapping = .ok kept →
      json.kept mapping = kept := by
    intro mapping kept hcarry
    simp [JsonTrip.kept, hcarry, Except.toOption]
  obtain ⟨payload, hpayload⟩ := h.payload
  unfold jobToMapping JsonTrip.hash
  rw [hpayload, ok_bind, hkept hpayload]
  cases hresult : job.result with
  | none => rfl
  | some result =>
    obtain ⟨kept, hcarry⟩ := h.result result hresult
    simp only [hcarry, ok_bind, Option.map_some, hkept hcarry]
    rfl

/-- Without a lease and without empty texts a record survives the codec, but for its
    dictionaries. -/
theorem jobFromMapping_encoded {job : Job} (acked : Bool) (hlease : job.lease = none)
    (hkey : job.idempotencyKey ≠ some "") (hreason : job.failureReason ≠ some "") :
    jobFromMapping { json.hash job with acked := acked } = .ok (json.carried job.rebuild) := by
  have hraw : leaseFromMapping { json.hash job with acked := acked } = .ok none := by
    simp [leaseFromMapping, JsonTrip.hash, jobHash, hlease]
  unfold jobFromMapping
  rw [hraw, ok_bind]
  show (if hrole : job.type.requiresInference = true → job.role ≠ none then _ else _) = _
  rw [dif_pos job.role_given]
  show (if hmax : 1 ≤ job.maxAttempts then _ else _) = _
  rw [dif_pos job.max_attempts_pos]
  simp [JsonTrip.hash, jobHash, JsonTrip.carried, hashText_eq hkey, hashText_eq hreason,
    Job.rebuild, hlease]

/-- The record a claim leaves behind. -/
theorem leaseTo_rebuilt {job : Job} (h : job.status = .queued) (consumer : WorkerId)
    (now : Instant) {duration : Duration} (hd : 0 < duration) (token : LeaseToken) :
    ∃ lease : Lease, (job.rebuild.leaseTo consumer now duration token).result = .ok lease ∧
      lease.jobId = job.id ∧ lease.holder = consumer ∧ lease.token = token ∧
      lease.acquiredAt = now ∧ lease.expiresAt = now + duration ∧
      (job.rebuild.leaseTo consumer now duration token).self.rebuild = { job with
        attempt := job.attempt + 1
        status := .leased
        assignedWorkerId := some consumer
        startedAt := some (job.startedAt.getD now)
        lease := some lease
        events := [] } := by
  have hlt : now < now + duration := Int.lt_add_of_pos_right now hd
  have hrebuilt : job.rebuild.status = .queued := h
  simp only [Job.leaseTo, hrebuilt, if_true, Lease.granted, Lease.build, dif_pos hlt]
  exact ⟨_, rfl, rfl, rfl, rfl, rfl, rfl, rfl⟩

/-! ### Mirrors -/

/-- Every slot of the in-memory queue can be encoded. -/
def JobQueue.Stamped (q : JobQueue) : Prop := ∀ id, (q.slot id).Stamped id

theorem JobQueue.Stamped.coherent {q : JobQueue} (h : q.Stamped) : q.Coherent :=
  fun id => (h id).coherent

/-- The run index is a set on both sides, and each slot is the encoding of its record. -/
structure Mirrors (json : JsonTrip) (db : RedisQueue) (q : JobQueue) : Prop where
  stamped : q.Stamped
  slots : ∀ id, db.slot id = (q.slot id).encoded json
  members : ∀ r, ((db.runs.lookup r).getD []).Nodup
  runs : ∀ r, ((q.runs.lookup r).getD []).Nodup

theorem mirrors_empty : Mirrors json RedisQueue.empty JobQueue.empty where
  stamped id := by
    rw [JobQueue.slot_empty]
    have hcoherent : Slot.Coherent id ⟨none, fun _ => none, none, none, fun _ => false, false⟩ :=
      ⟨by simp, by simp, by simp, by simp, by simp, by simp⟩
    exact ⟨hcoherent, by simp, by simp, by simp, by simp, by simp⟩
  slots id := by
    rw [JobQueue.slot_empty]
    simp [RedisQueue.slot, RedisQueue.empty, Dict.inner, Slot.encoded]
  members r := by simp [RedisQueue.empty]
  runs r := by simp [JobQueue.empty]

namespace Mirrors

variable {db : RedisQueue} {q : JobQueue}

theorem hash_eq (h : Mirrors json db q) (id : JobId) : db.jobs.lookup id =
    (q.jobs.lookup id).map fun job =>
      { json.hash job with acked := decide (id ∈ q.acknowledged) } :=
  congrArg RedisSlot.hash (h.slots id)

theorem ready_eq (h : Mirrors json db q) (k : JobType) (id : JobId) :
    (inner db.ready k).lookup id = (inner q.ready k).lookup id :=
  congrFun (congrArg RedisSlot.ready (h.slots id)) k

theorem lease_eq (h : Mirrors json db q) (id : JobId) :
    db.leases.lookup id = (q.leases.lookup id).map wholeMillis :=
  congrArg RedisSlot.lease (h.slots id)

theorem member_iff (h : Mirrors json db q) (r : RunId) (id : JobId) :
    id ∈ (db.runs.lookup r).getD [] ↔ id ∈ (q.runs.lookup r).getD [] := by
  have hmember := congrFun (congrArg RedisSlot.member (h.slots id)) r
  simpa [RedisQueue.slot, JobQueue.slot, Slot.encoded] using hmember

theorem slot_hash (h : Mirrors json db q) {id : JobId} {job : Job} (hj : (q.slot id).job = some job) :
    (db.slot id).hash =
      some { json.hash job with acked := (q.slot id).acknowledged } := by
  rw [h.slots]
  simp [Slot.encoded, hj]

/-- A keyspace that changed as the in-memory queue did. -/
theorem of_slots (h : Mirrors json db q) {db' : RedisQueue} {q' : JobQueue} (hstamped : q'.Stamped)
    (hslots : ∀ id, db'.slot id = (q'.slot id).encoded json) (hmembers : db'.runs = db.runs)
    (hruns : q'.runs = q.runs) : Mirrors json db' q' where
  stamped := hstamped
  slots := hslots
  members r := by rw [hmembers]; exact h.members r
  runs r := by rw [hruns]; exact h.runs r

end Mirrors

/-! ### Publication -/

section Publication

variable {db : RedisQueue} {q : JobQueue} {s : Slot} {id : JobId}

theorem Slot.encoded_refuses (s : Slot) : (s.encoded json).refuses = s.refuses := by
  unfold RedisSlot.refuses Slot.refuses Slot.encoded
  cases s.job <;> rfl

theorem Slot.encoded_enqueue (h : s.Stamped id) (job : Job) : (s.enqueue job).encoded json =
    if s.refuses = false then
      (s.encoded json).enqueue job.type job.runId (queueScore job.priority job.createdAt)
        { json.hash job with status := .queued }
    else s.encoded json := by
  unfold Slot.enqueue
  cases href : s.refuses with
  | true => rfl
  | false =>
    have hfree : s.acknowledged = false := by
      cases hj : s.job with
      | none => exact (h.fresh hj).1
      | some stored =>
        simp only [Slot.refuses, hj, Bool.or_eq_false_iff] at href
        exact href.2
    simp [Slot.encoded, RedisSlot.enqueue, RedisSlot.setReady, Slot.setReady, hfree, JsonTrip.hash,
      jobHash, Job.rebuild]

theorem nodup_insert (runs : Dict RunId (List JobId)) (runId : RunId) (jobId : JobId)
    (h : ∀ r, ((runs.lookup r).getD []).Nodup) (r : RunId) :
    (((runs.insert runId (((runs.lookup runId).getD []).insert jobId)).lookup r).getD []).Nodup := by
  rw [lookup_insert_ite]
  split
  · exact (h runId).insert
  · exact h r

theorem Mirrors.enqueueScript (h : Mirrors json db q) {job : Job} (hlease : job.lease = none)
    (htype : ∀ stored, (q.slot job.id).job = some stored → stored.type = job.type)
    (huuid : job.id.value < 2 ^ 128) (hkey : job.idempotencyKey ≠ some "") :
    Mirrors json (db.enqueueScript job.id job.type job.runId (queueScore job.priority job.createdAt)
      { json.hash job with status := .queued }) (q.enqueue job) where
  stamped id := by
    rw [JobQueue.slot_enqueue]
    split
    · rename_i hid
      subst hid
      exact Slot.enqueue_stamped (h.stamped job.id) rfl hlease htype huuid hkey
    · exact h.stamped id
  slots id := by
    rw [RedisQueue.slot_enqueueScript, h.slots, h.slots, Slot.encoded_refuses,
      JobQueue.slot_enqueue]
    by_cases hid : id = job.id
    · subst hid
      simp only [true_and, if_true]
      rw [Slot.encoded_enqueue (h.stamped job.id)]
    · simp [hid]
  members r := by
    unfold RedisQueue.enqueueScript
    dsimp only
    split
    · exact h.members r
    · split
      · exact h.members r
      · exact nodup_insert db.runs job.runId job.id h.members r
  runs r := by
    unfold JobQueue.enqueue
    split
    · exact h.runs r
    · exact nodup_insert q.runs job.runId job.id h.runs r

theorem RedisQueue.enqueue_taken {job : Job} (htaken : json.Takes job) :
    db.enqueue json job = .returned (db.enqueueScript job.id job.type job.runId
      (queueScore job.priority job.createdAt) { json.hash job with status := .queued }) () := by
  unfold RedisQueue.enqueue
  simp only [jobToMapping_eq htaken]

end Publication

/-! ### Reports of a holder -/

section Reports

variable {db : RedisQueue} {q : JobQueue} {s : Slot} {id : JobId}

/-- The token on the hash is that of the stored lease. -/
theorem holds_iff_leaseToken {job : Job} {acked : Bool} {token : LeaseToken} :
    ({ json.hash job with acked := acked } : JobHash).leaseToken = some token ↔
      JobQueue.holds job token = true := by
  unfold JobQueue.holds JsonTrip.hash jobHash
  cases job.lease with
  | none => simp
  | some lease => simp

theorem Slot.encoded_acknowledge (s : Slot) (job : Job) : (s.acknowledge job).encoded json =
    (s.encoded json).acknowledge { json.hash job with acked := s.acknowledged } := rfl

theorem Slot.acknowledge_stamped (h : s.Stamped id) {job : Job} (hj : s.job = some job)
    (hstatus : job.status.isInFlight = true) : (s.acknowledge job).Stamped id :=
  h.update hj (Slot.acknowledge_coherent h.coherent hj hstatus) rfl rfl rfl rfl
    fun lease hl => by simp at hl

/-- The holder of a record, as a script and as the in-memory queue recognise it. -/
theorem Mirrors.not_held (h : Mirrors json db q) {token : LeaseToken}
    (hnone : ¬ ∃ job, (q.slot id).job = some job ∧ JobQueue.holds job token = true)
    {hash : JobHash} (hhash : db.jobs.lookup id = some hash) : hash.leaseToken ≠ some token := by
  rw [h.hash_eq, Option.map_eq_some_iff] at hhash
  obtain ⟨job, hj, rfl⟩ := hhash
  rw [Ne, holds_iff_leaseToken]
  exact fun hholds => hnone ⟨job, hj, hholds⟩

theorem Mirrors.acknowledge_of_not_held (h : Mirrors json db q) {token : LeaseToken}
    (hnone : ¬ ∃ job, (q.slot id).job = some job ∧ JobQueue.holds job token = true) :
    db.acknowledge id token = db := by
  unfold RedisQueue.acknowledge RedisQueue.acknowledgeScript
  split
  · rfl
  · rename_i hash hhash
    rw [if_neg (h.not_held hnone hhash)]

theorem JobQueue.acknowledge_of_not_held (q : JobQueue) {token : LeaseToken}
    (hnone : ¬ ∃ job, (q.slot id).job = some job ∧ JobQueue.holds job token = true) :
    q.acknowledge id token = q := by
  unfold JobQueue.acknowledge
  split
  · rfl
  · rename_i job hjob
    rw [if_neg fun hholds => hnone ⟨job, hjob, hholds⟩]

theorem RedisQueue.acknowledge_runs_nodup (db : RedisQueue) (id : JobId) (token : LeaseToken)
    (h : ∀ r, ((db.runs.lookup r).getD []).Nodup) (r : RunId) :
    (((db.acknowledge id token).runs.lookup r).getD []).Nodup := by
  unfold RedisQueue.acknowledge RedisQueue.acknowledgeScript
  split
  · exact h r
  · split
    · dsimp only
      rw [RedisQueue.srem, lookup_insert_ite]
      split
      · exact (h _).filter _
      · exact h r
    · exact h r

theorem JobQueue.acknowledge_runs_nodup (q : JobQueue) (id : JobId) (token : LeaseToken)
    (h : ∀ r, ((q.runs.lookup r).getD []).Nodup) (r : RunId) :
    (((q.acknowledge id token).runs.lookup r).getD []).Nodup := by
  unfold JobQueue.acknowledge
  split
  · exact h r
  · split
    · rename_i job _ _
      dsimp only
      unfold JobQueue.discard
      split
      · exact h r
      · rename_i ids hids
        rw [lookup_insert_ite]
        split
        · have hnodup := h job.runId
          rw [hids] at hnodup
          exact List.Nodup.filter _ hnodup
        · exact h r
    · exact h r

theorem Mirrors.acknowledge (h : Mirrors json db q) (id : JobId) (token : LeaseToken) :
    Mirrors json (db.acknowledge id token) (q.acknowledge id token) := by
  by_cases hheld : ∃ job, (q.slot id).job = some job ∧ JobQueue.holds job token = true
  · obtain ⟨job, hj, hh⟩ := hheld
    obtain ⟨lease, hlease, -⟩ := JobQueue.holds_iff.mp hh
    have hflight := (h.stamped id).coherent.held job hj (by simp [hlease])
    have hhash := h.slot_hash hj
    have hslots := fun id' => JobQueue.slot_acknowledge (q := q) id id' token
    simp only [hj, hh, true_and] at hslots
    constructor
    · intro id'
      rw [hslots]
      split
      · rename_i hid
        subst hid
        exact Slot.acknowledge_stamped (h.stamped id') hj hflight
      · exact h.stamped id'
    · intro id'
      rw [hslots, RedisQueue.acknowledge,
        RedisQueue.slot_acknowledgeScript id id' token hhash (holds_iff_leaseToken.mpr hh), h.slots]
      split
      · rename_i hid
        subst hid
        exact (Slot.encoded_acknowledge _ job).symm
      · rfl
    · exact fun r => db.acknowledge_runs_nodup id token h.members r
    · exact fun r => q.acknowledge_runs_nodup id token h.runs r
  · rw [h.acknowledge_of_not_held hheld, q.acknowledge_of_not_held hheld]
    exact h

theorem RedisQueue.release_runs (db : RedisQueue) (id : JobId) (token : LeaseToken)
    (requeue : Bool) : (db.release id token requeue).runs = db.runs := by
  unfold RedisQueue.release RedisQueue.releaseScript
  split
  · rfl
  · split
    · dsimp only
      split <;> rfl
    · rfl

theorem JobQueue.release_runs (q : JobQueue) (id : JobId) (token : LeaseToken) (requeue : Bool) :
    (q.release id token requeue).self.runs = q.runs := by
  unfold JobQueue.release
  split
  · rfl
  · split
    · dsimp only
      split
      · unfold JobQueue.makeReady
        dsimp only
        split
        · rename_i e he
          rfl
        · rename_i q' hq'
          split at hq'
          · cases hq'
          · cases hq'
            rfl
      · rfl
    · rfl

theorem Mirrors.release_of_not_held (h : Mirrors json db q) {token : LeaseToken} (requeue : Bool)
    (hnone : ¬ ∃ job, (q.slot id).job = some job ∧ JobQueue.holds job token = true) :
    db.release id token requeue = db := by
  unfold RedisQueue.release RedisQueue.releaseScript
  split
  · rfl
  · rename_i hash hhash
    rw [if_neg (h.not_held hnone hhash)]

theorem Slot.released_stamped (h : s.Stamped id) {job : Job} (hj : s.job = some job)
    (hstatus : job.status.isInFlight = true) (requeue : Bool) {score : Int}
    (hscore : s.score = some score) :
    (if requeue then (s.unlease (Slot.released job requeue)).setReady job.type score
      else s.unlease (Slot.released job requeue)).Stamped id := by
  have hready : ∀ k, s.ready k = none := fun k => by
    rw [h.coherent.ready job hj k, if_neg (fun hc => Slot.ne_queued_of_isInFlight hstatus hc.2)]
  have hkeyed : (Slot.released job requeue).id = id := h.coherent.keyed job hj
  have hnamed : ∀ lease, (Slot.released job requeue).lease = some lease → lease.jobId = id := by
    intro lease hl
    cases hl
  cases requeue with
  | true =>
    have hcoherent := Slot.requeued_coherent hkeyed hready hscore rfl rfl
    exact h.update hj hcoherent rfl rfl rfl rfl hnamed
  | false =>
    have hcoherent := Slot.unlease_coherent hkeyed (h.coherent.scored job hj)
      hready rfl (by simp [Slot.released])
    exact h.update hj hcoherent rfl rfl rfl rfl hnamed

/-- A release is a release on both sides, whoever asks for it. -/
theorem Mirrors.release (h : Mirrors json db q) (id : JobId) (token : LeaseToken) (requeue : Bool) :
    Mirrors json (db.release id token requeue) (q.release id token requeue).self := by
  obtain ⟨-, ⟨hheld, hself⟩ | ⟨job, score, hj, hh, hscore, hslots⟩⟩ :=
    JobQueue.release_cases h.stamped.coherent id token requeue
  · rw [hself, h.release_of_not_held requeue hheld]
    exact h
  · obtain ⟨lease, hlease, -⟩ := JobQueue.holds_iff.mp hh
    have hflight := (h.stamped id).coherent.held job hj (by simp [hlease])
    have hstored : queueScore job.priority job.createdAt = score := by
      have hscored := (h.stamped id).scored job hj
      rw [hscore, Option.some.injEq] at hscored
      exact hscored.symm
    apply h.of_slots
    · intro id'
      rw [hslots]
      split
      · rename_i hid
        subst hid
        exact Slot.released_stamped (h.stamped id') hj hflight requeue hscore
      · exact h.stamped id'
    · intro id'
      rw [hslots]
      rw [RedisQueue.release, RedisQueue.slot_releaseScript id id' token requeue (h.slot_hash hj)
        (holds_iff_leaseToken.mpr hh), h.slots]
      split
      · rename_i hid
        subst hid
        rw [← hstored]
        cases requeue <;> rfl
      · rfl
    · exact db.release_runs id token requeue
    · exact q.release_runs id token requeue

/-! ### Renewals -/

/-- The errors of one kind about one job; the scripts do not know who holds a job. -/
def PyError.Alike : PyError → PyError → Prop
  | .jobLeaseExpired id _, .jobLeaseExpired id' _ => id = id'
  | e, e' => e = e'

/-- Two calls that return the same, or raise alike. -/
def SameResult {α : Type} : Except PyError α → Except PyError α → Prop
  | .ok a, .ok b => a = b
  | .error e, .error e' => e.Alike e'
  | _, _ => False

/-- The milliseconds that the scripts compare are ordered as the times they stand for. -/
def SameOrder (left right : Instant) : Prop :=
  wholeMillis left ≤ wholeMillis right ↔ left ≤ right

/-- When both adapters extend or refuse a lease alike: its expiry and the present are told
    apart in milliseconds, and the new expiry lies after the acquisition. -/
def JobQueue.RenewsAlike (q : JobQueue) (id : JobId) (token : LeaseToken) (duration : Duration)
    (now : Instant) : Prop :=
  ∀ job lease, q.jobs.lookup id = some job → job.lease = some lease → lease.token = token →
    SameOrder lease.expiresAt now ∧
      (now < lease.expiresAt → lease.acquiredAt < now + duration)

theorem Job.renewLease_refused {job : Job} {token : LeaseToken} {now : Instant}
    (h : ∀ lease, job.lease = some lease → lease.token = token → lease.expiresAt ≤ now)
    (duration : Duration) : ∃ holder,
      (job.renewLease token now duration).result = .error (.jobLeaseExpired job.id holder) := by
  unfold Job.renewLease Job.assertLease
  cases hl : job.lease with
  | none => exact ⟨_, rfl⟩
  | some lease =>
    by_cases ht : lease.token = token
    · have hexpired := Lease.isExpired_iff.mpr (h lease hl ht)
      simp only [ht, hexpired, if_true]
      exact ⟨_, rfl⟩
    · simp only [ht, if_false]
      exact ⟨_, rfl⟩

theorem Job.renewLease_accepted {job : Job} {lease : Lease} {now : Instant} {duration : Duration}
    (hlease : job.lease = some lease) (hlive : now < lease.expiresAt)
    (hlt : lease.acquiredAt < now + duration) :
    job.renewLease lease.token now duration =
      .returned { job with lease := some { lease with
        expiresAt := now + duration, ends_after_acquired := hlt } }
        { lease with expiresAt := now + duration, ends_after_acquired := hlt } := by
  have hassert := Job.assertLease_eq_ok.mpr ⟨hlease, rfl, hlive⟩
  have hfresh := Lease.not_isExpired_iff.mpr hlive
  unfold Job.renewLease
  rw [hassert]
  simp [Lease.renewed, hfresh, Lease.build, hlt]

theorem JobQueue.renew_refused {q : JobQueue} (hkeyed : q.Coherent) {id : JobId}
    {token : LeaseToken} {now : Instant}
    (h : ∀ job lease, q.jobs.lookup id = some job → job.lease = some lease →
      lease.token = token → lease.expiresAt ≤ now) (duration : Duration) :
    ∃ holder, q.renew id token duration now = .raised q (.jobLeaseExpired id holder) := by
  unfold JobQueue.renew
  cases hj : q.jobs.lookup id with
  | none => exact ⟨none, rfl⟩
  | some job =>
    obtain ⟨holder, hresult⟩ :=
      Job.renewLease_refused (fun lease hl ht => h job lease hj hl ht) duration
    refine ⟨holder, ?_⟩
    simp only [hresult]
    rw [(hkeyed id).keyed job hj]

/-- The milliseconds stored for a held record are those of its expiry. -/
theorem Mirrors.lease_of_held (h : Mirrors json db q) {job : Job} {lease : Lease}
    (hj : (q.slot id).job = some job) (hl : job.lease = some lease) :
    db.leases.lookup id = some (wholeMillis lease.expiresAt) := by
  have hexpiry : q.leases.lookup id = job.lease.map Lease.expiresAt :=
    (h.stamped id).coherent.lease job hj
  rw [h.lease_eq, hexpiry, hl]
  rfl

theorem Mirrors.renew_refused (h : Mirrors json db q) {token : LeaseToken} {duration : Duration}
    {now : Instant} (halike : q.RenewsAlike id token duration now)
    (hlapsed : ∀ job lease, q.jobs.lookup id = some job → job.lease = some lease →
      lease.token = token → lease.expiresAt ≤ now) :
    db.renew id token duration now = .raised db (.jobLeaseExpired id none) := by
  have hlost : db.renewScript id token (wholeMillis now) (wholeMillis (now + duration))
      (now + duration) = (db, none) := by
    apply RedisQueue.renewScript_lost
    intro hash expiry hhash htoken hexpiry
    rw [h.hash_eq, Option.map_eq_some_iff] at hhash
    obtain ⟨job, hj, rfl⟩ := hhash
    obtain ⟨lease, hl, ht⟩ := JobQueue.holds_iff.mp (holds_iff_leaseToken.mp htoken)
    rw [h.lease_of_held hj hl, Option.some.injEq] at hexpiry
    rw [← hexpiry]
    exact (halike job lease hj hl ht).1.mpr (hlapsed job lease hj hl ht)
  simp only [RedisQueue.renew, hlost]

theorem Slot.renewed_stamped (h : s.Stamped id) {job : Job} {lease renewed : Lease}
    (hj : s.job = some job) (hl : job.lease = some lease) (hnamed : renewed.jobId = lease.jobId) :
    (s.leased { job with lease := some renewed } renewed.expiresAt).Stamped id := by
  have hflight := h.coherent.held job hj (by simp [hl])
  have hready : ∀ k, s.ready k = none := fun k => by
    rw [h.coherent.ready job hj k, if_neg (fun hc => Slot.ne_queued_of_isInFlight hflight hc.2)]
  have hkeyed : ({ job with lease := some renewed } : Job).id = id := h.coherent.keyed job hj
  have hleased : ({ job with lease := some renewed } : Job).lease = some renewed := rfl
  have hcoherent := Slot.leased_coherent hkeyed (h.coherent.scored job hj) hready hflight hleased
  refine h.update hj hcoherent rfl rfl rfl rfl ?_
  intro lease' hl'
  cases hl'
  exact hnamed.trans (h.named job hj lease hl)

theorem Mirrors.renew_accepted (h : Mirrors json db q) {duration : Duration} {now : Instant}
    {job : Job} {lease : Lease} (hj : q.jobs.lookup id = some job) (hl : job.lease = some lease)
    (horder : SameOrder lease.expiresAt now) (hlive : now < lease.expiresAt)
    (hlt : lease.acquiredAt < now + duration) :
    Mirrors json (db.renew id lease.token duration now).self (q.renew id lease.token duration now).self ∧
      SameResult (db.renew id lease.token duration now).result
        (q.renew id lease.token duration now).result := by
  have hnamed : lease.jobId = id := (h.stamped id).named job hj lease hl
  have hlookup : db.jobs.lookup id = some _ := h.slot_hash hj
  have hheld : JobQueue.holds job lease.token = true := JobQueue.holds_iff.mpr ⟨lease, hl, rfl⟩
  have hlater : wholeMillis now < wholeMillis lease.expiresAt :=
    Int.not_le.mp fun hle => absurd (horder.mp hle) (Int.not_le.mpr hlive)
  have hscript : db.renewScript id lease.token (wholeMillis now) (wholeMillis (now + duration))
      (now + duration) = _ :=
    RedisQueue.renewScript_held hlookup (holds_iff_leaseToken.mpr hheld) (h.lease_of_held hj hl)
      hlater
  have hbuilt : Lease.build id lease.holder lease.token lease.acquiredAt (now + duration) =
      .ok { lease with expiresAt := now + duration, ends_after_acquired := hlt } := by
    simp [Lease.build, hlt, hnamed]
  have hredis : db.renew id lease.token duration now =
      ⟨(db.renewScript id lease.token (wholeMillis now) (wholeMillis (now + duration))
          (now + duration)).1,
        .ok { lease with expiresAt := now + duration, ends_after_acquired := hlt }⟩ := by
    unfold RedisQueue.renew
    simp only [hscript, JsonTrip.hash, jobHash, hl, Option.map_some, hbuilt]
  have hmemory : q.renew id lease.token duration now = .returned
      { q with
        jobs := q.jobs.insert id ({ job with lease := some { lease with
          expiresAt := now + duration, ends_after_acquired := hlt } } : Job).rebuild
        leases := q.leases.insert id (now + duration) }
      { lease with expiresAt := now + duration, ends_after_acquired := hlt } := by
    unfold JobQueue.renew
    simp only [hj, Job.renewLease_accepted hl hlive hlt, Call.result_returned, Call.self_returned]
  rw [hredis, hmemory, hscript]
  refine ⟨h.of_slots (fun id' => ?_) (fun id' => ?_) rfl rfl, rfl⟩
  · simp only [Call.self_returned]
    rw [JobQueue.slot_leased]
    split
    · rename_i hid
      subst hid
      exact Slot.renewed_stamped (h.stamped id') hj hl rfl
    · exact h.stamped id'
  · simp only [Call.self_returned]
    rw [JobQueue.slot_leased, RedisQueue.slot_leased, h.slots]
    split
    · rename_i hid
      subst hid
      simp [Slot.encoded, Slot.leased, RedisSlot.leased, JsonTrip.hash, jobHash, Job.rebuild, hl]
    · rfl

theorem Mirrors.renew (h : Mirrors json db q) {id : JobId} {token : LeaseToken} {duration : Duration}
    {now : Instant} (halike : q.RenewsAlike id token duration now) :
    Mirrors json (db.renew id token duration now).self (q.renew id token duration now).self ∧
      SameResult (db.renew id token duration now).result
        (q.renew id token duration now).result := by
  by_cases hlive : ∃ job lease, q.jobs.lookup id = some job ∧ job.lease = some lease ∧
      lease.token = token ∧ now < lease.expiresAt
  · obtain ⟨job, lease, hj, hl, rfl, hlater⟩ := hlive
    obtain ⟨horder, hends⟩ := halike job lease hj hl rfl
    exact h.renew_accepted hj hl horder hlater (hends hlater)
  · have hlapsed : ∀ job lease, q.jobs.lookup id = some job → job.lease = some lease →
        lease.token = token → lease.expiresAt ≤ now := fun job lease hj hl ht =>
      Int.not_lt.mp fun hlater => hlive ⟨job, lease, hj, hl, ht, hlater⟩
    obtain ⟨holder, hrefused⟩ := JobQueue.renew_refused h.stamped.coherent hlapsed duration
    rw [h.renew_refused halike hlapsed, hrefused]
    exact ⟨h, rfl⟩

end Reports

end AgenticPlatform
