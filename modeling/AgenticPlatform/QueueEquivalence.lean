import AgenticPlatform.JobQueueOrder
import AgenticPlatform.QueueMirror
import AgenticPlatform.RedisCodecs

/-!
# The two queues answer alike

Both adapters take the ready job with the lowest score. Among equal scores the in-memory
queue compares the texts of the ids over all requested types; the script compares them
within one type and then keeps the type that was requested first. `Untied` says when that
makes no difference, and the other conditions of `Agreeing` what else the two treat
differently: dictionaries that JSON refuses or changes, an empty failure reason, a
completion time on a lapsed record, times without a zone, leases that would end beyond the
calendar, times whose milliseconds are truncated, a renewal that ends before its lease
began, and a negative limit. A history all of whose calls meet them gets the same answers
from both.
-/

namespace AgenticPlatform

open Dict

variable {json : JsonTrip}

/-! ### Dictionaries on their way through JSON -/

/-- The payload and the result of the job come back from JSON as they compare. -/
structure JsonTrip.Keeps (json : JsonTrip) (job : Job) : Prop where
  payload : (json.kept job.payload).canonical = job.payload.canonical
  result : (job.result.map json.kept).map Mapping.canonical = job.result.map Mapping.canonical

theorem JsonTrip.Keeps.canonical_carried {job : Job} (h : json.Keeps job) :
    (json.carried job).canonical = job.canonical := by
  unfold JsonTrip.carried Job.canonical
  rw [h.payload, h.result]

/-- A lease is granted to a job whatever its dictionaries are. -/
theorem leaseTo_carried (job : Job) (consumer : WorkerId) (now : Instant) (duration : Duration)
    (token : LeaseToken) : (json.carried job).leaseTo consumer now duration token =
      ⟨json.carried (job.leaseTo consumer now duration token).self,
        (job.leaseTo consumer now duration token).result⟩ := by
  by_cases hqueued : job.status = .queued
  · have hcarried : (json.carried job).status = .queued := hqueued
    simp only [Job.leaseTo, hqueued, hcarried, if_true]
    have hid : (json.carried job).id = job.id := rfl
    rw [hid]
    cases Lease.granted job.id consumer now duration token with
    | error e => rfl
    | ok lease => rfl
  · have hcarried : (json.carried job).status ≠ .queued := hqueued
    simp only [Job.leaseTo, hqueued, hcarried, if_false]
    rfl

theorem leaseTo_dictionaries (job : Job) (consumer : WorkerId) (now : Instant)
    (duration : Duration) (token : LeaseToken) :
    (job.leaseTo consumer now duration token).self.payload = job.payload ∧
      (job.leaseTo consumer now duration token).self.result = job.result := by
  unfold Job.leaseTo
  split
  · dsimp only
    split <;> exact ⟨rfl, rfl⟩
  · exact ⟨rfl, rfl⟩

/-- What a claim hands out, with the dictionaries of the job as they compare. -/
def canonicalFound (found : Option (Job × Lease)) : Option (Job × Lease) :=
  found.map fun handed => (handed.1.canonical, handed.2)

/-! ### Claims -/

namespace RedisQueue

variable {db : RedisQueue} {wanted : List JobType} {jobType : JobType} {id : JobId} {score : Int}

/-- The heads of the requested ready sets, in the order of the scan. -/
def heads (db : RedisQueue) (wanted : List JobType) : List (JobType × JobId × Int) :=
  wanted.filterMap fun jobType =>
    (SortedSet.head EntityId.chars (inner db.ready jobType)).map fun head => (jobType, head)

theorem bestHead_eq (db : RedisQueue) (wanted : List JobType) :
    db.bestHead wanted = (db.heads wanted).argmin fun found => found.2.2 := by
  unfold bestHead List.argmin heads
  rw [List.foldl_filterMap]
  congr 1
  funext best jobType
  cases SortedSet.head EntityId.chars (inner db.ready jobType) with
  | none => rfl
  | some head =>
    cases best with
    | none => rfl
    | some old => rfl

/-- The best head is a head of its set, and no set requested before has one as good. -/
theorem bestHead_spec (h : db.bestHead wanted = some (jobType, id, score)) :
    ∃ earlier later, wanted = earlier ++ jobType :: later ∧
      SortedSet.head EntityId.chars (inner db.ready jobType) = some (id, score) ∧
      (∀ other ∈ earlier, ∀ id' score',
        SortedSet.head EntityId.chars (inner db.ready other) = some (id', score') → score < score') ∧
      ∀ other ∈ wanted, ∀ id' score',
        SortedSet.head EntityId.chars (inner db.ready other) = some (id', score') →
          score ≤ score' := by
  rw [bestHead_eq] at h
  have hmem : ∀ other ∈ wanted, ∀ id' score',
      SortedSet.head EntityId.chars (inner db.ready other) = some (id', score') →
      (other, id', score') ∈ db.heads wanted := by
    intro other hother id' score' hhead
    exact List.mem_filterMap.mpr ⟨other, hother, by rw [hhead]; rfl⟩
  obtain ⟨before, after, hsplit, hbefore⟩ := List.exists_split_of_mem_argmin h
  obtain ⟨first, rest, hwanted, hfirst, hrest⟩ := List.filterMap_eq_append_iff.mp hsplit
  obtain ⟨skipped, found, later, hfound, hskipped, hhead, -⟩ := List.filterMap_eq_cons_iff.mp hrest
  obtain ⟨head, hhead, heq⟩ := Option.map_eq_some_iff.mp hhead
  cases heq
  refine ⟨first ++ skipped, later, ?_, hhead, ?_, ?_⟩
  · rw [hwanted, hfound, List.append_assoc]
  · intro other hother id' score' hhead'
    rcases List.mem_append.mp hother with hin | hin
    · apply hbefore (other, id', score')
      rw [← hfirst]
      exact List.mem_filterMap.mpr ⟨other, hin, by rw [hhead']; rfl⟩
    · have hnone := hskipped other hin
      rw [hhead'] at hnone
      cases hnone
  · intro other hother id' score' hhead'
    exact List.le_of_mem_argmin (hmem other hother id' score' hhead') h

theorem bestHead_eq_none (h : db.bestHead wanted = none) :
    ∀ jobType ∈ wanted, ∀ id, (inner db.ready jobType).lookup id = none := by
  intro jobType hwanted
  apply SortedSet.head_eq_none.mp
  rw [bestHead_eq, List.argmin_eq_none] at h
  cases hhead : SortedSet.head EntityId.chars (inner db.ready jobType) with
  | none => rfl
  | some head =>
    have hmem : (jobType, head) ∈ db.heads wanted :=
      List.mem_filterMap.mpr ⟨jobType, hwanted, by rw [hhead]; rfl⟩
    rw [h] at hmem
    cases hmem

/-- The record after `CLAIM`. -/
def claimed (before : JobHash) (consumer : WorkerId) (token : LeaseToken)
    (now expiresAt : Instant) : JobHash :=
  { before with
    status := .leased
    attempt := before.attempt + 1
    assignedWorkerId := some consumer
    startedAt := some (before.startedAt.getD now)
    leaseToken := some token
    leaseHolder := some consumer
    leaseAcquiredAt := some now
    leaseExpiresAt := some expiresAt }

/-- A round of `CLAIM` takes the best head when that is a queued job. -/
theorem claimRounds_found (consumer : WorkerId) (token : LeaseToken) (now expiresAt : Instant)
    (expiryMs : Int) (rounds : Nat) {before : JobHash}
    (hbest : db.bestHead wanted = some (jobType, id, score))
    (hhash : (db.slot id).hash = some before) (hqueued : before.status = .queued) :
    ∃ db', claimRounds wanted consumer token now expiresAt expiryMs (rounds + 1) db =
        (db', some before) ∧ db'.runs = db.runs ∧
      ∀ id', db'.slot id' =
        if id' = id then ((db.slot id').clearReady jobType).leased
          (claimed before consumer token now expiresAt) expiryMs
        else db.slot id' := by
  have hlookup : db.jobs.lookup id = some before := hhash
  refine ⟨{ db with
    ready := popInner db.ready jobType id
    jobs := db.jobs.insert id (claimed before consumer token now expiresAt)
    leases := db.leases.insert id expiryMs }, ?_, rfl, fun id' => ?_⟩
  · simp only [claimRounds, hbest, hlookup, hqueued, if_true]
    rfl
  · by_cases hid : id' = id <;>
      simp [slot, lookup_insert_ite, inner_popInner, hid, RedisSlot.leased, RedisSlot.clearReady]

theorem claimRounds_none (consumer : WorkerId) (token : LeaseToken) (now expiresAt : Instant)
    (expiryMs : Int) (rounds : Nat) (hbest : db.bestHead wanted = none) :
    claimRounds wanted consumer token now expiresAt expiryMs (rounds + 1) db = (db, none) := by
  simp only [claimRounds, hbest]

end RedisQueue

namespace JobQueue

/-- The foremost ready job carries no empty failure reason, and JSON keeps its dictionaries. -/
def Worded (json : JsonTrip) (q : JobQueue) (wanted : List JobType) : Prop :=
  ∀ jobType id score, q.Foremost wanted jobType id score →
    ∀ job, q.jobs.lookup id = some job → job.failureReason ≠ some "" ∧ json.Keeps job

/-- No type requested before that of the foremost job has a ready job of the same score. -/
def Untied (q : JobQueue) (wanted : List JobType) : Prop :=
  ∀ earlier jobType later, wanted = earlier ++ jobType :: later →
    ∀ id score, q.Foremost wanted jobType id score →
      ∀ other ∈ earlier, ∀ id', (inner q.ready other).lookup id' ≠ some score

end JobQueue

/-- The slot of a job that was claimed. -/
theorem Slot.claim_stamped {s : Slot} {id : JobId} (h : s.Stamped id) {jobType : JobType} {stored : Job} {lease : Lease}
    {consumer : WorkerId} {duration : Duration} {now : Instant} {token : LeaseToken}
    (hj : s.job = some stored) (htype : stored.type = jobType) (hqueued : stored.status = .queued)
    (hd : 0 < duration)
    (hgrant : (stored.rebuild.leaseTo consumer now duration token).result = .ok lease) :
    (s.claim jobType (stored.rebuild.leaseTo consumer now duration token).self
      lease.expiresAt).Stamped id := by
  obtain ⟨lease', hgrant', hjobId, -, -, -, -, hrecord⟩ :=
    leaseTo_rebuilt hqueued consumer now hd token
  rw [hgrant, Except.ok.injEq] at hgrant'
  subst hgrant'
  have hkeyed : stored.id = id := h.coherent.keyed stored hj
  obtain ⟨hstatus, hlease, -⟩ := Job.leaseTo_eq_ok hgrant
  have hready : ∀ k, (s.clearReady jobType).ready k = none := by
    intro k
    rw [← htype]
    exact Slot.clearReady_ready h.coherent hj k
  have hwork : (stored.rebuild.leaseTo consumer now duration token).self.work = stored.work :=
    Job.leaseTo_work _ _ _ _ _
  have hcoherent : (s.claim jobType (stored.rebuild.leaseTo consumer now duration token).self
      lease.expiresAt).Coherent id :=
    Slot.leased_coherent ((Job.id_of_work hwork).trans hkeyed) (h.coherent.scored stored hj)
      hready (by rw [hstatus]; rfl) hlease
  have hrecorded : (s.claim jobType (stored.rebuild.leaseTo consumer now duration token).self
      lease.expiresAt).job = some _ := congrArg some hrecord
  refine h.update hj hcoherent hrecorded rfl rfl rfl ?_
  intro held hheld
  cases hheld
  exact hjobId.trans hkeyed

theorem JobQueue.claimLoop_runs (wanted : List JobType) (consumer : WorkerId)
    (leaseDuration : Duration) (now : Instant) (token : LeaseToken) (rounds : Nat)
    (q : JobQueue) :
    (JobQueue.claimLoop wanted consumer leaseDuration now token rounds q).self.runs = q.runs := by
  induction rounds generalizing q with
  | zero => rfl
  | succ rounds ih =>
    unfold JobQueue.claimLoop
    split
    · rfl
    · dsimp only
      split
      · exact ih _
      · split
        · unfold JobQueue.grant
          dsimp only
          split <;> rfl
        · exact ih _

theorem JobQueue.claim_runs (q : JobQueue) (consumer : WorkerId) (jobTypes : List JobType)
    (leaseDuration : Duration) (now : Instant) (token : LeaseToken) :
    (q.claim consumer jobTypes leaseDuration now token).self.runs = q.runs :=
  JobQueue.claimLoop_runs _ consumer leaseDuration now token _ q

namespace Mirrors

variable {db : RedisQueue} {q : JobQueue} {wanted : List JobType} {jobType : JobType} {id : JobId}

/-- A ready job has a UUID. -/
theorem uuid_of_ready (h : Mirrors json db q) {score : Int}
    (hready : (inner q.ready jobType).lookup id = some score) : id.value < 2 ^ 128 := by
  obtain ⟨job, hj, -⟩ := (h.stamped id).coherent.of_ready (k := jobType) hready
  exact (h.stamped id).uuid (by rw [hj]; simp)

/-- The script and the in-memory queue find the same job. -/
theorem bestHead_found (h : Mirrors json db q) (huntied : q.Untied wanted)
    (hnext : q.nextReady wanted = some (jobType, id)) :
    ∃ score, db.bestHead wanted = some (jobType, id, score) := by
  obtain ⟨score, hforemost⟩ := JobQueue.nextReady_foremost hnext
  have hready : (inner db.ready jobType).lookup id = some score := by
    rw [h.ready_eq]
    exact hforemost.ready
  cases hbest : db.bestHead wanted with
  | none =>
    rw [RedisQueue.bestHead_eq_none hbest jobType hforemost.requested id] at hready
    cases hready
  | some best =>
    obtain ⟨bestType, bestId, bestScore⟩ := best
    obtain ⟨earlier, later, hsplit, hhead, hearlier, hall⟩ := RedisQueue.bestHead_spec hbest
    obtain ⟨hbestReady, hbestFirst⟩ := SortedSet.head_spec hhead
    have hbestReady' : (inner q.ready bestType).lookup bestId = some bestScore := by
      rw [← h.ready_eq]
      exact hbestReady
    have hbestWanted : bestType ∈ wanted := by
      rw [hsplit]
      exact List.mem_append_right _ List.mem_cons_self
    -- the set of the foremost job has a head that is no worse
    have hsome : SortedSet.head EntityId.chars (inner db.ready jobType) ≠ none := by
      rw [Ne, SortedSet.head_eq_none]
      intro hnone
      rw [hnone id] at hready
      cases hready
    obtain ⟨⟨headId, headScore⟩, hhead'⟩ := Option.ne_none_iff_exists'.mp hsome
    have hheadScore : headScore ≤ score := by
      have hle := (SortedSet.head_spec hhead').2 id score hready
      rw [SortedSet.place_le_iff] at hle
      rcases hle with hlt | ⟨heq, -⟩
      · exact hlt.le
      · exact heq.le
    have hle := JobQueue.keyLt_eq_false.mp
      (hforemost.first bestType hbestWanted bestId bestScore hbestReady')
    have hscore : score = bestScore := by
      have hother := hall jobType hforemost.requested headId headScore hhead'
      rw [SortedSet.place_le_iff] at hle
      rcases hle with hlt | ⟨heq, -⟩
      · exact absurd hlt (not_lt.mpr (hother.trans hheadScore))
      · exact heq
    subst hscore
    have htype : bestType = jobType := by
      have hmem := hforemost.requested
      rw [hsplit] at hmem
      rcases List.mem_append.mp hmem with hin | hin
      · have hlt := hearlier jobType hin headId headScore hhead'
        exact absurd hlt (not_lt.mpr hheadScore)
      · rcases List.mem_cons.mp hin with heq | hin
        · exact heq.symm
        · -- the foremost job's type comes later, so the scores must not be tied
          obtain ⟨between, after, hafter⟩ := List.append_of_mem hin
          have hsplit' : wanted = (earlier ++ bestType :: between) ++ jobType :: after := by
            rw [hsplit, hafter]
            simp
          exact absurd hbestReady'
            (huntied _ _ _ hsplit' id score hforemost bestType (by simp) bestId)
    subst htype
    have hge := hbestFirst id score hready
    have hsame := SortedSet.eq_of_place EntityId.chars (le_antisymm hle hge)
      (EntityId.chars_inj (h.uuid_of_ready hforemost.ready) (h.uuid_of_ready hbestReady'))
    cases hsame
    exact ⟨score, rfl⟩

theorem bestHead_not_found (h : Mirrors json db q) (hnext : q.nextReady wanted = none) :
    db.bestHead wanted = none := by
  cases hbest : db.bestHead wanted with
  | none => rfl
  | some best =>
    obtain ⟨bestType, bestId, bestScore⟩ := best
    obtain ⟨earlier, later, hsplit, hhead, -, -⟩ := RedisQueue.bestHead_spec hbest
    have hwanted : bestType ∈ wanted := by
      rw [hsplit]
      exact List.mem_append_right _ List.mem_cons_self
    have hready := (SortedSet.head_spec hhead).1
    rw [h.ready_eq, JobQueue.nextReady_eq_none hnext bestType hwanted bestId] at hready
    cases hready

theorem claim_nothing (h : Mirrors json db q) (consumer : WorkerId) {jobTypes : List JobType}
    (duration : Duration) (now : Instant) (token : LeaseToken)
    (hnext : q.nextReady jobTypes.eraseDups = none) :
    db.claim consumer jobTypes duration now token = .returned db none := by
  unfold RedisQueue.claim
  dsimp only
  split
  · rfl
  · have hscript := RedisQueue.claimRounds_none consumer token now (now + duration)
      (wholeMillis (now + duration)) 63 (h.bestHead_not_found hnext)
    rw [RedisQueue.claimScript, hscript]

/-- A claim hands out the same job on both sides. -/
theorem claim (h : Mirrors json db q) (consumer : WorkerId) {jobTypes : List JobType}
    {duration : Duration} (hd : 0 < duration) (now : Instant) (token : LeaseToken)
    (huntied : q.Untied jobTypes.eraseDups) (hworded : q.Worded json jobTypes.eraseDups) :
    Mirrors json (db.claim consumer jobTypes duration now token).self
        (q.claim consumer jobTypes duration now token).self ∧
      ∃ left right, (db.claim consumer jobTypes duration now token).result = .ok left ∧
        (q.claim consumer jobTypes duration now token).result = .ok right ∧
        canonicalFound left = canonicalFound right := by
  cases hnext : q.nextReady jobTypes.eraseDups with
  | none =>
    rw [h.claim_nothing consumer duration now token hnext, JobQueue.claim_none hnext]
    exact ⟨h, none, none, rfl, rfl, rfl⟩
  | some found =>
    obtain ⟨jobType, id⟩ := found
    obtain ⟨score, hbest⟩ := h.bestHead_found huntied hnext
    obtain ⟨stored, lease, hstored, htype, hqueued, hgrant, hresult, hslots⟩ :=
      JobQueue.claim_found h.stamped.coherent consumer hd now token hnext
    obtain ⟨db', hscript, hruns, hslots'⟩ := RedisQueue.claimRounds_found consumer token now
      (now + duration) (wholeMillis (now + duration)) 63 hbest (h.slot_hash hstored) hqueued
    have hwanted : jobTypes.eraseDups ≠ [] := by
      intro hnil
      rw [hnil] at hnext
      cases hnext
    obtain ⟨score', hforemost⟩ := JobQueue.nextReady_foremost hnext
    obtain ⟨hreason, hkeeps⟩ := hworded jobType id score' hforemost stored hstored
    have hdecoded := @jobFromMapping_encoded json stored (q.slot id).acknowledged
      ((h.stamped id).coherent.no_lease hstored (by rw [hqueued]; rfl))
      ((h.stamped id).key stored hstored) hreason
    have hredis : db.claim consumer jobTypes duration now token = .returned db'
        (some (json.carried (stored.rebuild.leaseTo consumer now duration token).self, lease)) := by
      unfold RedisQueue.claim
      dsimp only
      rw [if_neg hwanted, RedisQueue.claimScript, hscript]
      simp only [hdecoded, leaseTo_carried, hgrant]
    have hhanded : json.Keeps (stored.rebuild.leaseTo consumer now duration token).self := by
      obtain ⟨hpayload, hjobResult⟩ := leaseTo_dictionaries stored.rebuild consumer now duration token
      constructor
      · rw [hpayload]
        exact hkeeps.payload
      · rw [hjobResult]
        exact hkeeps.result
    obtain ⟨lease', hgrant', hjobId, hholder, htoken, hacquired, hexpires, hrecord⟩ :=
      leaseTo_rebuilt hqueued consumer now hd token
    rw [hgrant, Except.ok.injEq] at hgrant'
    subst hgrant'
    rw [hredis]
    refine ⟨h.of_slots (fun id' => ?_) (fun id' => ?_) hruns ?_, _, _, rfl, hresult, ?_⟩
    · rw [hslots]
      split
      · rename_i hid
        subst hid
        exact Slot.claim_stamped (h.stamped id') hstored htype hqueued hd hgrant
      · exact h.stamped id'
    · rw [Call.self_returned, hslots', hslots, h.slots]
      split
      · rename_i hid
        subst hid
        rw [Slot.claim, Slot.leased, hrecord]
        simp [Slot.encoded, Slot.clearReady, RedisSlot.leased, RedisSlot.clearReady,
          RedisQueue.claimed, JsonTrip.hash, jobHash, hholder, htoken, hacquired, hexpires]
      · rfl
    · exact q.claim_runs consumer jobTypes duration now token
    · simp only [canonicalFound, Option.map_some, hhanded.canonical_carried]

end Mirrors

/-! ### Reclaims -/

/-- When both adapters reclaim alike: a limit that is not negative, milliseconds that order
    the leases as their expiries do, and no completion time on a record that is requeued. -/
structure JobQueue.ReclaimsAlike (q : JobQueue) (now : Instant) (limit : Int) : Prop where
  bounded : limit < 0 → q.lapsed now = []
  present : ∀ id expiry, q.leases.lookup id = some expiry → SameOrder expiry now
  ordered : ∀ left ∈ q.lapsed now, ∀ right ∈ q.lapsed now, SameOrder left.1 right.1
  uncompleted : ∀ id ∈ q.reclaimBatch now limit.toNat, ∀ job, q.jobs.lookup id = some job →
    job.attempt < job.maxAttempts → job.completedAt = none

/-- A lapsed record with attempts left. -/
theorem Slot.reclaimed_retry {job : Job} {lease : Lease} {now : Instant}
    (hl : job.lease = some lease) (he : lease.expiresAt ≤ now) (ha : job.attempt < job.maxAttempts) :
    Slot.reclaimed job now = { job with
      status := .queued
      completedAt := none
      lease := none
      assignedWorkerId := none
      events := [] } := by
  have hexpired := Lease.isExpired_iff.mpr he
  have hleft : 0 < job.maxAttempts - job.attempt := Nat.sub_pos_of_lt ha
  simp [Slot.reclaimed, Job.attemptsRemaining, hleft, Job.expireLease, hl, hexpired, Job.record,
    Job.requeue, Job.rebuild]

/-- A lapsed record without attempts left. -/
theorem Slot.reclaimed_dead {job : Job} {lease : Lease} {now : Instant}
    (hl : job.lease = some lease) (he : lease.expiresAt ≤ now)
    (ha : ¬ job.attempt < job.maxAttempts) :
    Slot.reclaimed job now = { job with
      status := .dead
      failureKind := some .infrastructure
      failureReason := some "lease expired and retry budget exhausted"
      completedAt := some now
      lease := none
      assignedWorkerId := none
      events := [] } := by
  have hexpired := Lease.isExpired_iff.mpr he
  have hnone : ¬ 0 < job.maxAttempts - job.attempt := by omega
  simp [Slot.reclaimed, Job.attemptsRemaining, hnone, Job.expireLease, hl, hexpired, Job.record,
    Job.rebuild]

section Reclaims

variable {s : Slot} {id : JobId} {now expiry : Instant}

theorem Slot.reclaim_stamped (h : s.Stamped id) (hl : s.lease = some expiry) (he : expiry ≤ now) :
    (s.reclaim now).Stamped id := by
  have hcoherent := Slot.reclaim_coherent h.coherent hl he
  obtain ⟨job, score, lease, hj, hscore, hjl, hlapsed, -, -⟩ := h.coherent.of_lapsed hl he
  have hrecord : (s.reclaim now).job = some (Slot.reclaimed job now) := by
    simp only [Slot.reclaim, hj, hscore]
    split <;> rfl
  have hkept : (s.reclaim now).score = s.score := by
    simp only [Slot.reclaim, hj, hscore]
    split <;> exact hscore
  have hnamed : ∀ lease', (Slot.reclaimed job now).lease = some lease' → lease'.jobId = id := by
    intro lease' hl'
    rw [(Slot.reclaimed_spec hjl hlapsed).1] at hl'
    cases hl'
  have hkey : (Slot.reclaimed job now).idempotencyKey = job.idempotencyKey := by
    by_cases ha : job.attempt < job.maxAttempts
    · rw [Slot.reclaimed_retry hjl hlapsed ha]
    · rw [Slot.reclaimed_dead hjl hlapsed ha]
  exact h.update hj hcoherent hrecord (Slot.reclaimed_work job now) hkey hkept hnamed

/-- One turn of the two loops. -/
theorem Slot.encoded_reclaim (h : s.Stamped id) (hl : s.lease = some expiry) (he : expiry ≤ now)
    (hcompleted : ∀ job, s.job = some job → job.attempt < job.maxAttempts → job.completedAt = none) :
    (s.reclaim now).encoded json = (s.encoded json).reclaim now := by
  obtain ⟨job, score, lease, hj, hscore, hjl, hlapsed, -, -⟩ := h.coherent.of_lapsed hl he
  have hstored : score = queueScore job.priority job.createdAt := by
    have hscored := h.scored job hj
    rw [hscore, Option.some.injEq] at hscored
    exact hscored
  by_cases ha : job.attempt < job.maxAttempts
  · have hleft : 0 < job.attemptsRemaining := Nat.sub_pos_of_lt ha
    have hnone := hcompleted job hj ha
    simp [Slot.reclaim, hj, hscore, hleft, Slot.reclaimed_retry hjl hlapsed ha, Slot.encoded,
      Slot.unlease, Slot.setReady, RedisSlot.reclaim, RedisSlot.unlease, RedisSlot.setReady,
      JsonTrip.hash, jobHash, JobHash.clearLease, ha, hnone, hstored]
  · have hdone : ¬ 0 < job.attemptsRemaining := by
      unfold Job.attemptsRemaining
      omega
    simp [Slot.reclaim, hj, hscore, hdone, Slot.reclaimed_dead hjl hlapsed ha, Slot.encoded,
      Slot.unlease, RedisSlot.reclaim, RedisSlot.unlease,
      JsonTrip.hash, jobHash, JobHash.clearLease, ha, hashText]

variable {db : RedisQueue} {q : JobQueue} {limit : Int}

/-- A lapsed lease belongs to a job with a UUID. -/
theorem Mirrors.uuid_of_lease (h : Mirrors json db q) (hl : q.leases.lookup id = some expiry) :
    id.value < 2 ^ 128 := by
  apply (h.stamped id).uuid
  intro hnone
  have habsent : q.leases.lookup id = none := ((h.stamped id).coherent.absent hnone).2
  rw [habsent] at hl
  cases hl

theorem JobQueue.reclaimOne_runs (q : JobQueue) (now : Instant) (id : JobId) :
    (q.reclaimOne now id).self.runs = q.runs := by
  unfold JobQueue.reclaimOne
  dsimp only
  split
  · rfl
  · split
    · split
      · rfl
      · unfold JobQueue.makeReady
        dsimp only
        split
        · rfl
        · rename_i q' hq'
          split at hq'
          · cases hq'
          · cases hq'
            rfl
    · rfl

theorem JobQueue.reclaimAll_runs (now : Instant) (ids : List JobId) (q : JobQueue) :
    (JobQueue.reclaimAll now ids q).self.runs = q.runs := by
  induction ids generalizing q with
  | nil => rfl
  | cons first rest ih =>
    have hone := q.reclaimOne_runs now first
    unfold JobQueue.reclaimAll
    dsimp only
    split
    · exact hone
    · split <;> exact (ih _).trans hone

/-- The members of the leases set up to now are the lapsed leases, in the same order. -/
theorem Mirrors.lapsed_eq (h : Mirrors json db q) (hr : q.ReclaimsAlike now limit) :
    ((SortedSet.sorted EntityId.chars db.leases).filter fun entry =>
        decide (entry.2 ≤ wholeMillis now)) =
      (q.lapsed now).map fun entry => (entry.2, wholeMillis entry.1) := by
  have hmem : ∀ id ms, (id, ms) ∈ (SortedSet.sorted EntityId.chars db.leases).filter
      (fun entry => decide (entry.2 ≤ wholeMillis now)) ↔
      ∃ expiry, q.leases.lookup id = some expiry ∧ expiry ≤ now ∧ ms = wholeMillis expiry := by
    intro id ms
    rw [List.mem_filter, SortedSet.mem_sorted, h.lease_eq, Option.map_eq_some_iff,
      decide_eq_true_eq]
    constructor
    · rintro ⟨⟨expiry, hl, rfl⟩, hle⟩
      exact ⟨expiry, hl, (hr.present id expiry hl).mp hle, rfl⟩
    · rintro ⟨expiry, hl, hle, rfl⟩
      exact ⟨⟨expiry, hl, rfl⟩, (hr.present id expiry hl).mpr hle⟩
  have hmem' : ∀ id ms, (id, ms) ∈ (q.lapsed now).map (fun entry => (entry.2, wholeMillis entry.1)) ↔
      ∃ expiry, q.leases.lookup id = some expiry ∧ expiry ≤ now ∧ ms = wholeMillis expiry := by
    intro id ms
    rw [List.mem_map]
    constructor
    · rintro ⟨⟨expiry, id'⟩, hentry, heq⟩
      cases heq
      obtain ⟨hl, hle⟩ := JobQueue.mem_lapsed.mp hentry
      exact ⟨expiry, hl, hle, rfl⟩
    · rintro ⟨expiry, hl, hle, rfl⟩
      exact ⟨(expiry, id), JobQueue.mem_lapsed.mpr ⟨hl, hle⟩, rfl⟩
  have huuid : ∀ entry ∈ (SortedSet.sorted EntityId.chars db.leases).filter
      (fun entry => decide (entry.2 ≤ wholeMillis now)), entry.1.value < 2 ^ 128 := by
    intro entry hentry
    obtain ⟨expiry, hl, -, -⟩ := (hmem entry.1 entry.2).mp hentry
    exact h.uuid_of_lease hl
  have hperm : ((SortedSet.sorted EntityId.chars db.leases).filter
      fun entry => decide (entry.2 ≤ wholeMillis now)).Perm
      ((q.lapsed now).map fun entry => (entry.2, wholeMillis entry.1)) := by
    rw [List.perm_ext_iff_of_nodup]
    · intro entry
      rw [hmem, hmem']
    · exact (SortedSet.sorted_perm.nodup_iff.mpr SortedSet.pairs_nodup).filter _
    · apply List.Nodup.of_map Prod.fst
      rw [List.map_map]
      exact q.lapsed_nodup now
  apply SortedSet.eq_of_sorted hperm
  · exact SortedSet.sorted_pairwise.filter _
  · rw [List.pairwise_map]
    refine (q.lapsed_pairwise now).imp_of_mem ?_
    intro left right hleft hright hle
    have horder := hr.ordered left hleft right hright
    have horder' := hr.ordered right hright left hleft
    rw [SortedSet.place_le_iff] at hle ⊢
    rcases hle with hlt | ⟨heq, htext⟩
    · left
      exact Int.not_le.mp fun hge => absurd (horder'.mp hge) (Int.not_le.mpr hlt)
    · right
      exact ⟨congrArg wholeMillis heq, htext⟩
  · intro a ha b hb htext
    have hb' := hperm.mem_iff.mpr hb
    exact EntityId.chars_inj (huuid a ha) (huuid b hb') htext

theorem Mirrors.rangeByScore_eq (h : Mirrors json db q) (hr : q.ReclaimsAlike now limit) :
    SortedSet.rangeByScore EntityId.chars db.leases (wholeMillis now) limit =
      q.reclaimBatch now (sliceEnd (q.lapsed now).length limit) := by
  unfold SortedSet.rangeByScore JobQueue.reclaimBatch
  rw [h.lapsed_eq hr, List.map_map]
  dsimp only
  by_cases hneg : limit < 0
  · rw [if_pos hneg, hr.bounded hneg]
    simp
  · rw [if_neg hneg, sliceEnd, if_neg hneg, List.map_take]
    rfl

/-- The lapsed leases are reclaimed in the same order on both sides. -/
theorem Mirrors.reclaimExpired (h : Mirrors json db q) (hr : q.ReclaimsAlike now limit) :
    Mirrors json (db.reclaimExpired now limit).1
        (q.reclaimExpired now (sliceEnd (q.lapsed now).length limit)).self ∧
      (q.reclaimExpired now (sliceEnd (q.lapsed now).length limit)).result =
        .ok (db.reclaimExpired now limit).2 := by
  obtain ⟨hresult, -, hslots⟩ := JobQueue.reclaimExpired_slots h.stamped.coherent now
    (sliceEnd (q.lapsed now).length limit)
  have hbatch := h.rangeByScore_eq hr
  have hhash : ∀ id ∈ q.reclaimBatch now (sliceEnd (q.lapsed now).length limit),
      (db.slot id).hash ≠ none := by
    intro id hmem
    obtain ⟨expiry, hl, he⟩ := JobQueue.lapsed_of_mem_reclaimBatch hmem
    obtain ⟨job, -, -, hj, -⟩ := (h.stamped id).coherent.of_lapsed hl he
    rw [h.slot_hash hj]
    simp
  obtain ⟨hreply, hscript, hruns⟩ := RedisQueue.forEach_spec (P := fun s => s.hash ≠ none)
    (RedisQueue.reclaimTurn_turns now) _ db (q.reclaimBatch_nodup now _) hhash
  have hlimit : ∀ id ∈ q.reclaimBatch now (sliceEnd (q.lapsed now).length limit),
      id ∈ q.reclaimBatch now limit.toNat := by
    intro id hmem
    by_cases hneg : limit < 0
    · rw [JobQueue.reclaimBatch, hr.bounded hneg] at hmem
      simp at hmem
    · rwa [sliceEnd, if_neg hneg] at hmem
  unfold RedisQueue.reclaimExpired RedisQueue.reclaimExpiredScript
  rw [hbatch]
  refine ⟨h.of_slots (fun id => ?_) (fun id => ?_) hruns ?_, ?_⟩
  · rw [hslots]
    split
    · rename_i hmem
      obtain ⟨expiry, hl, he⟩ := JobQueue.lapsed_of_mem_reclaimBatch hmem
      exact Slot.reclaim_stamped (h.stamped id) hl he
    · exact h.stamped id
  · rw [hscript, hslots, h.slots]
    split
    · rename_i hmem
      obtain ⟨expiry, hl, he⟩ := JobQueue.lapsed_of_mem_reclaimBatch hmem
      exact (Slot.encoded_reclaim (h.stamped id) hl he (hr.uncompleted id (hlimit id hmem))).symm
    · rfl
  · exact JobQueue.reclaimAll_runs now _ q
  · rw [hresult, hreply]
    simp

end Reclaims

/-! ### Cancellation -/

/-- The records that a cancellation of their run stops. -/
def Slot.cancellable (s : Slot) : Bool :=
  match s.job with
  | none => false
  | some job => !job.status.isTerminal

section Cancellation

variable {s : Slot} {id : JobId} {db : RedisQueue} {q : JobQueue}

theorem Slot.encoded_cancellable (s : Slot) : (s.encoded json).cancellable = s.cancellable := by
  unfold RedisSlot.cancellable Slot.cancellable Slot.encoded
  cases s.job <;> rfl

theorem Slot.encoded_cancel (s : Slot) : s.cancel.encoded json = (s.encoded json).cancel := by
  unfold Slot.cancel RedisSlot.cancel
  cases hj : s.job with
  | none => simp [Slot.encoded, hj]
  | some job =>
    cases ht : job.status.isTerminal <;>
      simp [Slot.encoded, hj, ht, JsonTrip.hash, jobHash, Slot.unlease, Slot.clearReady, Slot.cancelled,
        RedisSlot.unlease, RedisSlot.clearReady, JobHash.clearLease, Job.rebuild]

theorem Slot.cancel_stamped (h : s.Stamped id) : s.cancel.Stamped id := by
  have hcoherent := Slot.cancel_coherent h.coherent
  unfold Slot.cancel at hcoherent ⊢
  cases hj : s.job with
  | none => simpa [hj] using h
  | some job =>
    simp only [hj] at hcoherent ⊢
    cases ht : job.status.isTerminal with
    | true => exact h
    | false =>
      simp only [ht, Bool.false_eq_true, if_false] at hcoherent ⊢
      have hwork : (Slot.cancelled job).work = job.work := rfl
      exact h.update hj hcoherent rfl hwork rfl rfl fun lease hl => by cases hl

theorem JobQueue.cancelAll_runs (ids : List JobId) (q : JobQueue) :
    (JobQueue.cancelAll ids q).1.runs = q.runs := by
  induction ids generalizing q with
  | nil => rfl
  | cons first rest ih =>
    have hone : (q.cancelOne first).1.runs = q.runs := by
      unfold JobQueue.cancelOne
      split
      · rfl
      · split <;> rfl
    exact (ih _).trans hone

/-- The loop over distinct jobs of a run cancels each of them once. -/
theorem JobQueue.cancelAll_spec (ids : List JobId) (q : JobQueue) (hnodup : ids.Nodup) :
    (JobQueue.cancelAll ids q).2 = ids.filter (fun id => (q.slot id).cancellable) ∧
      ∀ id, (JobQueue.cancelAll ids q).1.slot id =
        if id ∈ ids then (q.slot id).cancel else q.slot id := by
  induction ids generalizing q with
  | nil => exact ⟨rfl, fun id => by simp [JobQueue.cancelAll]⟩
  | cons first rest ih =>
    obtain ⟨hfirst, hrest⟩ := List.nodup_cons.mp hnodup
    obtain ⟨hreply, hall⟩ := ih (q.cancelOne first).1 hrest
    have hone : (q.cancelOne first).2 = if (q.slot first).cancellable then some first else none := by
      have hslot : (q.slot first).job = q.jobs.lookup first := rfl
      unfold JobQueue.cancelOne Slot.cancellable
      rw [hslot]
      cases q.jobs.lookup first with
      | none => rfl
      | some job => cases ht : job.status.isTerminal <;> simp [ht]
    have hfilter : rest.filter (fun id => ((q.cancelOne first).1.slot id).cancellable) =
        rest.filter fun id => (q.slot id).cancellable := by
      apply List.filter_congr
      intro id hid
      have hne : id ≠ first := fun heq => hfirst (heq ▸ hid)
      rw [JobQueue.cancelOne_slot, if_neg hne]
    constructor
    · simp only [JobQueue.cancelAll, hreply, hone, hfilter, List.filter_cons]
      split <;> rfl
    · intro id
      simp only [JobQueue.cancelAll, hall, JobQueue.cancelOne_slot]
      by_cases hid : id = first
      · subst hid
        simp [hfirst]
      · simp [hid]

/-- A cancelled run loses the same jobs on both sides, in whatever order the server lists
    them. -/
theorem Mirrors.cancelRunJobs (h : Mirrors json db q) (order : SetOrder) (runId : RunId) :
    Mirrors json (db.cancelRunJobs order runId).1 (q.cancelRunJobs runId).1 ∧
      ∀ id, id ∈ (db.cancelRunJobs order runId).2 ↔ id ∈ (q.cancelRunJobs runId).2 := by
  have hlisted := order.perm ((db.runs.lookup runId).getD [])
  have hsorted := List.perm_insertionSort (fun left right : JobId => ¬ right.chars < left.chars)
    ((q.runs.lookup runId).getD [])
  obtain ⟨hreply, hall⟩ :=
    JobQueue.cancelAll_spec _ q (hsorted.nodup_iff.mpr (h.runs runId))
  have hhash : ∀ id ∈ order.smembers ((db.runs.lookup runId).getD []), (db.slot id).hash ≠ none := by
    intro id hmem hnone
    have hmember := (h.member_iff runId id).mp (hlisted.mem_iff.mp hmem)
    rw [h.slots] at hnone
    have hfresh := ((h.stamped id).fresh (by simpa [Slot.encoded] using hnone)).2 runId
    simp [JobQueue.slot, hmember] at hfresh
  obtain ⟨hreply', hall', hruns⟩ := RedisQueue.forEach_spec (P := fun s => s.hash ≠ none)
    (RedisQueue.cancelTurn_turns runId) _ db (hlisted.nodup_iff.mpr (h.members runId)) hhash
  have hsame : ∀ id, id ∈ order.smembers ((db.runs.lookup runId).getD []) ↔
      id ∈ ((q.runs.lookup runId).getD []).insertionSort fun left right => ¬ right.chars < left.chars := by
    intro id
    rw [hlisted.mem_iff, hsorted.mem_iff, h.member_iff]
  refine ⟨h.of_slots (fun id => ?_) (fun id => ?_) hruns ?_, fun id => ?_⟩
  · unfold JobQueue.cancelRunJobs
    rw [hall]
    split
    · exact Slot.cancel_stamped (h.stamped id)
    · exact h.stamped id
  · unfold JobQueue.cancelRunJobs RedisQueue.cancelRunJobs RedisQueue.cancelRunJobsScript
    rw [hall', hall, h.slots]
    by_cases hmem : id ∈ order.smembers ((db.runs.lookup runId).getD [])
    · rw [if_pos hmem, if_pos ((hsame id).mp hmem), Slot.encoded_cancel]
    · rw [if_neg hmem, if_neg (fun hin => hmem ((hsame id).mpr hin))]
  · exact JobQueue.cancelAll_runs _ q
  · unfold JobQueue.cancelRunJobs RedisQueue.cancelRunJobs RedisQueue.cancelRunJobsScript
    rw [hreply, hreply', List.mem_filter, List.mem_filter, hsame, h.slots, Slot.encoded_cancellable]

end Cancellation

/-! ### Depth -/

/-- `depth(job_type)` of the in-memory queue. -/
def JobQueue.depthOf (q : JobQueue) (jobType : JobType) : Nat := (inner q.ready jobType).entries.length

/-- The sum over the ready dictionaries is the sum over all job types. -/
theorem JobQueue.depth_eq (q : JobQueue) : q.depth = (JobType.all.map q.depthOf).sum := by
  have hkeys : q.ready.keys.Nodup := q.ready.nodupKeys
  have hperm : JobType.all.Perm
      (q.ready.keys ++ JobType.all.filter fun jobType => decide (jobType ∉ q.ready.keys)) := by
    rw [List.perm_ext_iff_of_nodup (by decide)]
    · intro jobType
      have hall : jobType ∈ JobType.all := by cases jobType <;> decide
      by_cases hmem : jobType ∈ q.ready.keys <;> simp [hall, hmem]
    · apply hkeys.append ((by decide : JobType.all.Nodup).filter _)
      intro jobType hmem hnot
      rw [List.mem_filter] at hnot
      simp [hmem] at hnot
  have hrest : ((JobType.all.filter fun jobType => decide (jobType ∉ q.ready.keys)).map
      q.depthOf).sum = 0 := by
    apply List.sum_eq_zero_iff_forall_eq_nat.mpr
    intro count hcount
    obtain ⟨jobType, hmem, rfl⟩ := List.mem_map.mp hcount
    have hnot : jobType ∉ q.ready.keys := by simpa using (List.mem_filter.mp hmem).2
    have hnone : q.ready.lookup jobType = none := AList.lookup_eq_none.mpr hnot
    simp [JobQueue.depthOf, Dict.inner, hnone]
  have hpresent : q.ready.keys.map q.depthOf = q.ready.entries.map fun entry => entry.2.entries.length := by
    show (q.ready.entries.map Sigma.fst).map q.depthOf = _
    rw [List.map_map]
    apply List.map_congr_left
    intro entry hentry
    have hlookup : q.ready.lookup entry.1 = some entry.2 := AList.mem_lookup_iff.mpr hentry
    simp [JobQueue.depthOf, Dict.inner, hlookup]
  rw [(hperm.map q.depthOf).sum_nat, List.map_append, List.sum_append, hrest, hpresent]
  rfl

theorem Mirrors.depthOf_eq {db : RedisQueue} {q : JobQueue} (h : Mirrors json db q) (jobType : JobType) :
    db.depthOf jobType = q.depthOf jobType := SortedSet.card_congr (h.ready_eq jobType)

theorem Mirrors.depth_eq {db : RedisQueue} {q : JobQueue} (h : Mirrors json db q) :
    db.depth = q.depth := by
  rw [JobQueue.depth_eq, RedisQueue.depth]
  congr 1
  exact List.map_congr_left fun jobType _ => h.depthOf_eq jobType

/-! ### Histories -/

/-- A time or a duration in whole milliseconds. -/
def OnMillis (time : Int) : Prop := time % 1000 = 0

namespace TimedCall

/-- The calls on which the adapters are compared: whole milliseconds, positive durations,
    and jobs published without a lease and always with the same type. -/
def OnMillis (q : JobQueue) : TimedCall → Prop
  | .enqueue job => job.lease = none ∧ AgenticPlatform.OnMillis job.createdAt ∧
      job.id.value < 2 ^ 128 ∧ job.idempotencyKey ≠ some "" ∧
      ∀ stored, q.jobs.lookup job.id = some stored → stored.type = job.type
  | .claim _ _ duration now _ => 0 < duration ∧ AgenticPlatform.OnMillis duration ∧
      AgenticPlatform.OnMillis now.instant
  | .renew _ _ duration now => 0 < duration ∧ AgenticPlatform.OnMillis duration ∧
      AgenticPlatform.OnMillis now.instant
  | .reclaimExpired now _ => AgenticPlatform.OnMillis now.instant
  | _ => True

/-- When the two adapters take the same decisions. -/
def Agreeing (json : JsonTrip) (q : JobQueue) : TimedCall → Prop
  | .enqueue job => json.Takes job
  | .claim _ jobTypes duration now _ =>
      (jobTypes ≠ [] → now.aware = true ∧ now.Reaches duration) ∧
        q.Untied jobTypes.eraseDups ∧ q.Worded json jobTypes.eraseDups
  | .renew id token duration now => now.aware = true ∧ now.Reaches duration ∧
      q.RenewsAlike id token duration now.instant
  | .reclaimExpired now limit => now.aware = true ∧ q.ReclaimsAlike now.instant limit
  | _ => True

end TimedCall

/-- The same answer: dictionaries are compared whatever the order of their keys, errors by
    their kind and the job they name. -/
def SameAnswer : QueueReply → QueueReply → Prop
  | .claimed left, .claimed right => canonicalFound left = canonicalFound right
  | .raised left, .raised right => left.Alike right
  | left, right => left = right

/-- The same ids in any order. -/
def SameIds : QueueReply → QueueReply → Prop
  | .ids left, .ids right => ∀ id, id ∈ left ↔ id ∈ right
  | _, _ => False

/-- The same answer to a call. -/
def TimedCall.SameAnswer : TimedCall → QueueReply → QueueReply → Prop
  | .cancelRunJobs _ => SameIds
  | _ => AgenticPlatform.SameAnswer

theorem JobQueue.renewAt_eq (q : JobQueue) (id : JobId) (token : LeaseToken) {duration : Duration}
    {now : CallTime} (haware : now.aware = true) (hreaches : now.Reaches duration) :
    q.renewAt id token duration now = q.renew id token duration now.instant := by
  unfold JobQueue.renewAt
  cases hj : q.jobs.lookup id with
  | none => simp only [JobQueue.renew, hj]
  | some job =>
    simp only [haware, Bool.true_eq_false, and_false, if_false, if_pos hreaches]
    cases hassert : job.assertLease token now.instant with
    | ok lease => rfl
    | error e => simp only [JobQueue.renew, hj, Job.renewLease, hassert, Call.result_raised]

/-- The two adapters, called alike. -/
structure Adapters where
  redis : RedisQueue
  memory : JobQueue

namespace Adapters

def empty : Adapters := ⟨RedisQueue.empty, JobQueue.empty⟩

def step (client : RedisClient) (adapters : Adapters) (call : TimedCall) : Adapters :=
  ⟨(adapters.redis.apply client call).1, (call.apply adapters.memory).1⟩

/-- What a caller sees of one call: its answer, and the depths after it. -/
structure Agree (client : RedisClient) (adapters : Adapters) (call : TimedCall) : Prop where
  answer : call.SameAnswer (adapters.redis.apply client call).2 (call.apply adapters.memory).2
  depth : (adapters.step client call).redis.depth = (adapters.step client call).memory.depth
  depthOf : ∀ jobType, (adapters.step client call).redis.depthOf jobType =
    (adapters.step client call).memory.depthOf jobType

variable {client : RedisClient} {adapters : Adapters}

/-- A claim at a time with a zone. -/
theorem claim_mirrors (h : Mirrors client.json adapters.redis adapters.memory)
    (consumer : WorkerId) {jobTypes : List JobType} {duration : Duration} {now : CallTime}
    (token : LeaseToken) (hpositive : 0 < duration)
    (hagreeing : (TimedCall.claim consumer jobTypes duration now token).Agreeing client.json
      adapters.memory) :
    let call := TimedCall.claim consumer jobTypes duration now token
    Mirrors client.json (adapters.step client call).redis (adapters.step client call).memory ∧
      call.SameAnswer (adapters.redis.apply client call).2 (call.apply adapters.memory).2 := by
  obtain ⟨htimed, huntied, hworded⟩ := hagreeing
  by_cases hnone : jobTypes = []
  · subst hnone
    have hidle : adapters.memory.claimAt consumer [] duration now token =
        .returned adapters.memory none := JobQueue.claimAt_none rfl
    simp only [step, RedisQueue.apply, TimedCall.apply, or_true, if_true, RedisQueue.claimAt, hidle]
    exact ⟨h, rfl⟩
  · obtain ⟨haware, hreaches⟩ := htimed hnone
    obtain ⟨hnext, left, right, hleft, hright, hsame⟩ :=
      h.claim consumer hpositive now.instant token huntied hworded
    have hgrants : now.Grants duration := ⟨haware, hpositive, hreaches.2⟩
    simp only [step, RedisQueue.apply, TimedCall.apply, haware, true_or, if_true,
      RedisQueue.claimAt, if_neg hnone, if_pos hreaches, JobQueue.claimAt_eq hgrants, hleft, hright]
    exact ⟨hnext, hsame⟩

theorem renew_mirrors (h : Mirrors client.json adapters.redis adapters.memory) (id : JobId)
    (token : LeaseToken) {duration : Duration} {now : CallTime}
    (hagreeing : (TimedCall.renew id token duration now).Agreeing client.json adapters.memory) :
    let call := TimedCall.renew id token duration now
    Mirrors client.json (adapters.step client call).redis (adapters.step client call).memory ∧
      call.SameAnswer (adapters.redis.apply client call).2 (call.apply adapters.memory).2 := by
  obtain ⟨haware, hreaches, halike⟩ := hagreeing
  obtain ⟨hnext, hresult⟩ := h.renew halike
  simp only [step, RedisQueue.apply, TimedCall.apply, haware, if_true, RedisQueue.renewAt,
    if_pos hreaches, JobQueue.renewAt_eq _ id token haware hreaches]
  refine ⟨hnext, ?_⟩
  revert hresult
  cases (adapters.redis.renew id token duration now.instant).result <;>
    cases (adapters.memory.renew id token duration now.instant).result <;> intro hresult
  · exact hresult
  · cases hresult
  · cases hresult
  · exact congrArg QueueReply.renewed hresult

/-- One call: the keyspace stays a mirror and the answers are the same. -/
theorem step_mirrors (h : Mirrors client.json adapters.redis adapters.memory) {call : TimedCall}
    (hmillis : call.OnMillis adapters.memory) (hagreeing : call.Agreeing client.json adapters.memory) :
    Mirrors client.json (adapters.step client call).redis (adapters.step client call).memory ∧
      call.SameAnswer (adapters.redis.apply client call).2 (call.apply adapters.memory).2 := by
  cases call with
  | enqueue job =>
    obtain ⟨hlease, -, huuid, hkey, htype⟩ := hmillis
    simp only [step, RedisQueue.apply, TimedCall.apply, RedisQueue.enqueue_taken hagreeing]
    exact ⟨h.enqueueScript hlease htype huuid hkey, rfl⟩
  | claim consumer jobTypes duration now token =>
    exact claim_mirrors h consumer token hmillis.1 hagreeing
  | renew id token duration now => exact renew_mirrors h id token hagreeing
  | acknowledge id token => exact ⟨h.acknowledge id token, rfl⟩
  | release id token requeue =>
    refine ⟨h.release id token requeue, ?_⟩
    have hreturned := (JobQueue.release_cases h.stamped.coherent id token requeue).1
    simp only [RedisQueue.apply, TimedCall.apply, hreturned]
    rfl
  | reclaimExpired now limit =>
    obtain ⟨haware, halike⟩ := hagreeing
    obtain ⟨hnext, hresult⟩ := h.reclaimExpired halike
    simp only [step, RedisQueue.apply, TimedCall.apply, JobQueue.reclaimExpiredAt, haware, if_true,
      hresult]
    exact ⟨hnext, rfl⟩
  | cancelRunJobs runId => exact h.cancelRunJobs client.order runId

/-- **The two adapters are observationally equivalent** along every history whose calls meet
    `Agreeing`. -/
theorem adapters_agree (client : RedisClient) (calls : List TimedCall)
    (h : Runs.Along (step client) (fun adapters call =>
      call.OnMillis adapters.memory ∧ call.Agreeing client.json adapters.memory) empty calls) :
    Runs.Along (step client) (fun adapters call => adapters.Agree client call) empty calls := by
  apply h.consequence (I := fun adapters => Mirrors client.json adapters.redis adapters.memory)
    mirrors_empty
  intro adapters call hmirrors hcall
  obtain ⟨hnext, hanswer⟩ := step_mirrors hmirrors hcall.1 hcall.2
  exact ⟨hnext, hanswer, hnext.depth_eq, hnext.depthOf_eq⟩

end Adapters

/-! ### Two jobs of one score -/

namespace Sample

/-- A server that lists a set as it is stored, and an encoder that changes nothing. -/
def plainClient : RedisClient where
  json := ⟨.ok⟩
  order := ⟨id, fun _ => .refl _⟩
  zoneless db _ := (db, .done)

theorem millisecond_in_range : 0 ≤ (1000 : Int) + epochWall ∧ (1000 : Int) + epochWall ≤ maxWall := by
  decide

/-- Published, claimed and acknowledged. -/
def servedOnce : List TimedCall :=
  [.enqueue (stageJob 7 .build 2 build_needs_no_role count_two),
   .claim ⟨9⟩ [.build] 60000000 (utc 1000 millisecond_in_range) firstToken,
   .acknowledge ⟨7⟩ firstToken]

/-- A build and a test published in the same millisecond, then a claim of either. -/
def publishedTogether : List TimedCall :=
  [.enqueue (stageJob 7 .build 2 build_needs_no_role count_two),
   .enqueue (stageJob 3 .test 2 (by decide) count_two),
   .claim ⟨9⟩ [.build, .test] 60000000 (utc 1000 millisecond_in_range) firstToken]

end Sample

/-- The job a reply hands out. -/
def QueueReply.claimedId : QueueReply → Option JobId
  | .claimed (some (job, _)) => some job.id
  | _ => none

/-- The same answer hands out the same job. -/
theorem claimedId_of_same {left right : QueueReply} (h : SameAnswer left right) :
    left.claimedId = right.claimedId := by
  have hcanonical : ∀ found : Option (Job × Lease),
      (QueueReply.claimed found).claimedId = (canonicalFound found).map fun handed => handed.1.id := by
    intro found
    cases found <;> rfl
  cases left with
  | claimed found =>
    cases right with
    | claimed found' =>
      have hfound : canonicalFound found = canonicalFound found' := h
      rw [hcanonical, hcanonical, hfound]
    | done => cases h
    | renewed lease => cases h
    | ids ids => cases h
    | raised e => cases h
  | raised e =>
    cases right with
    | raised e' => rfl
    | done => cases h
    | claimed found => cases h
    | renewed lease => cases h
    | ids ids => cases h
  | done => cases h; rfl
  | renewed lease => cases h; rfl
  | ids ids => cases h; rfl

namespace Adapters

theorem untied_of_single (q : JobQueue) (jobType : JobType) : q.Untied [jobType] := by
  intro earlier found later hsplit id score hforemost other hother
  have hlength := congrArg List.length hsplit
  have hnil : earlier = [] := by
    apply List.length_eq_zero_iff.mp
    simp only [List.length_cons, List.length_nil, List.length_append] at hlength
    omega
  rw [hnil] at hother
  cases hother

/-- An encoder that changes nothing takes every job. -/
theorem plainClient_takes (job : Job) : Sample.plainClient.json.Takes job :=
  ⟨⟨job.payload, rfl⟩, fun result _ => ⟨result, rfl⟩⟩

theorem plainClient_keeps (job : Job) : Sample.plainClient.json.Keeps job := by
  refine ⟨rfl, ?_⟩
  cases job.result <;> rfl

theorem adapters_agree_sample :
    Runs.Along (step Sample.plainClient) (fun adapters call => adapters.Agree Sample.plainClient call)
      empty Sample.servedOnce := by
  apply adapters_agree
  have hregular : (Sample.stageJob 7 .build 2 (by decide) (by decide)).id.value < 2 ^ 128 := by decide
  refine ⟨⟨⟨rfl, rfl, hregular, by decide, fun stored hstored => nomatch hstored⟩,
      plainClient_takes _⟩,
    ⟨⟨by decide, rfl, rfl⟩, fun _ => ⟨rfl, by decide⟩, untied_of_single _ _, ?_⟩,
    ⟨trivial, trivial⟩, trivial⟩
  intro jobType id score hforemost job hjob
  have hstored : ((∅ : Dict JobId Job).insert ⟨7⟩ _).lookup id = some job := hjob
  rw [lookup_insert_ite] at hstored
  split at hstored
  · cases hstored
    exact ⟨by decide, plainClient_keeps _⟩
  · cases hstored

/-- The script takes the build, which was requested first; the in-memory queue takes the
    test, whose id is smaller. -/
theorem adapters_differ :
    Runs.Along (step Sample.plainClient) (fun adapters call => call.OnMillis adapters.memory) empty
      Sample.publishedTogether ∧
    ¬ Runs.Along (step Sample.plainClient)
      (fun adapters call => adapters.Agree Sample.plainClient call) empty
      Sample.publishedTogether := by
  constructor
  · refine ⟨⟨rfl, rfl, by decide, by decide, fun stored hstored => nomatch hstored⟩,
      ⟨rfl, rfl, by decide, by decide, fun stored hstored => nomatch hstored⟩,
      ⟨by decide, rfl, rfl⟩, trivial⟩
  · intro h
    have hanswer := h.2.2.1.answer
    unfold TimedCall.SameAnswer at hanswer
    have hsame := claimedId_of_same hanswer
    revert hsame
    decide +kernel

end Adapters

end AgenticPlatform
