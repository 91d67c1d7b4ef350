import AgenticPlatform.RedisJobQueue

/-!
# The scripts, one job at a time

What the keyspace holds under one job id, and what each script makes of it. As in the
in-memory queue, a script changes the entries of one job and leaves all others alone,
and a loop over distinct jobs changes each of them once.
-/

namespace AgenticPlatform

open Dict

/-- Everything the keyspace holds under one job id. -/
structure RedisSlot where
  hash : Option JobHash
  ready : JobType → Option Int
  lease : Option Int
  member : RunId → Bool

namespace RedisSlot

@[ext] theorem ext {s t : RedisSlot} (hhash : s.hash = t.hash)
    (hready : ∀ k, s.ready k = t.ready k) (hlease : s.lease = t.lease)
    (hmember : ∀ r, s.member r = t.member r) : s = t := by
  cases s
  cases t
  simp only [RedisSlot.mk.injEq]
  exact ⟨hhash, funext hready, hlease, funext hmember⟩

def setReady (s : RedisSlot) (jobType : JobType) (score : Int) : RedisSlot :=
  { s with ready := fun k => if k = jobType then some score else s.ready k }

def clearReady (s : RedisSlot) (jobType : JobType) : RedisSlot :=
  { s with ready := fun k => if k = jobType then none else s.ready k }

/-- A hash written with the lease entry of its job. -/
def leased (s : RedisSlot) (hash : JobHash) (expiryMs : Int) : RedisSlot :=
  { s with hash := some hash, lease := some expiryMs }

/-- A hash written with the lease entry removed. -/
def unlease (s : RedisSlot) (hash : JobHash) : RedisSlot := { s with hash := some hash, lease := none }

/-- What `ENQUEUE` refuses to overwrite. -/
def refuses (s : RedisSlot) : Bool :=
  match s.hash with
  | none => false
  | some hash => hash.status.isInFlight || hash.acked

/-- `ENQUEUE` of a record it does not refuse. -/
def enqueue (s : RedisSlot) (jobType : JobType) (runId : RunId) (score : Int) (record : JobHash) :
    RedisSlot :=
  { s.setReady jobType score with
    hash := some record
    member := fun r => decide (r = runId) || s.member r }

/-- `ACKNOWLEDGE` by the holder. -/
def acknowledge (s : RedisSlot) (hash : JobHash) : RedisSlot :=
  { s with
    hash := some { hash.clearLease with acked := true }
    lease := none
    member := fun r => !decide (r = hash.runId) && s.member r }

/-- What `CANCEL_RUN_JOBS` does not skip. -/
def cancellable (s : RedisSlot) : Bool :=
  match s.hash with
  | none => false
  | some hash => !hash.status.isTerminal

/-- One turn of `CANCEL_RUN_JOBS`. -/
def cancel (s : RedisSlot) : RedisSlot :=
  match s.hash with
  | none => s
  | some hash =>
      if hash.status.isTerminal then s
      else (s.clearReady hash.type).unlease { hash.clearLease with
        status := .cancelled
        failureKind := some .cancelled }

/-- One turn of `RECLAIM_EXPIRED`. -/
def reclaim (s : RedisSlot) (now : Instant) : RedisSlot :=
  match s.hash with
  | none => { s with lease := none }
  | some hash =>
      if hash.attempt < hash.maxAttempts then
        (s.unlease { hash.clearLease with status := .queued }).setReady hash.type hash.score
      else
        s.unlease { hash.clearLease with
          status := .dead
          failureKind := some .infrastructure
          failureReason := some "lease expired and retry budget exhausted"
          completedAt := some now }

end RedisSlot

namespace RedisQueue

def slot (db : RedisQueue) (id : JobId) : RedisSlot where
  hash := db.jobs.lookup id
  ready jobType := (inner db.ready jobType).lookup id
  lease := db.leases.lookup id
  member runId := decide (id ∈ (db.runs.lookup runId).getD [])

variable {db : RedisQueue}

theorem slot_popReady (jobType : JobType) (id id' : JobId) :
    ({ db with ready := popInner db.ready jobType id } : RedisQueue).slot id' =
      if id' = id then (db.slot id').clearReady jobType else db.slot id' := by
  by_cases h : id' = id <;> simp [slot, inner_popInner, h, RedisSlot.clearReady]

theorem slot_leased (id id' : JobId) (hash : JobHash) (expiryMs : Int) :
    ({ db with
        jobs := db.jobs.insert id hash
        leases := db.leases.insert id expiryMs } : RedisQueue).slot id' =
      if id' = id then (db.slot id').leased hash expiryMs else db.slot id' := by
  by_cases h : id' = id <;> simp [slot, lookup_insert_ite, h, RedisSlot.leased]

theorem slot_unlease (id id' : JobId) (hash : JobHash) :
    ({ db with
        jobs := db.jobs.insert id hash
        leases := db.leases.erase id } : RedisQueue).slot id' =
      if id' = id then (db.slot id').unlease hash else db.slot id' := by
  by_cases h : id' = id <;> simp [slot, lookup_insert_ite, lookup_erase_ite, h, RedisSlot.unlease]

/-- A job given back to the ready set. -/
theorem slot_requeued (id id' : JobId) (hash : JobHash) (jobType : JobType) (score : Int) :
    ({ db with
        leases := db.leases.erase id
        jobs := db.jobs.insert id hash
        ready := setInner db.ready jobType id score } : RedisQueue).slot id' =
      if id' = id then ((db.slot id').unlease hash).setReady jobType score else db.slot id' := by
  by_cases h : id' = id <;> simp [slot, lookup_insert_ite, lookup_erase_ite, inner_setInner, h,
    RedisSlot.unlease, RedisSlot.setReady]

theorem mem_srem (runs : Dict RunId (List JobId)) (runId r : RunId) (id id' : JobId) :
    id' ∈ ((srem runs runId id).lookup r).getD [] ↔
      ¬ (r = runId ∧ id' = id) ∧ id' ∈ (runs.lookup r).getD [] := by
  unfold srem
  rw [lookup_insert_ite]
  by_cases hr : r = runId
  · subst hr
    simp [and_comm]
  · simp [hr]

theorem slot_enqueueScript (jobId id : JobId) (jobType : JobType) (runId : RunId) (score : Int)
    (record : JobHash) :
    (db.enqueueScript jobId jobType runId score record).slot id =
      if id = jobId ∧ (db.slot jobId).refuses = false then
        (db.slot id).enqueue jobType runId score record
      else db.slot id := by
  have hwritten : ({ db with
        jobs := db.jobs.insert jobId record
        ready := setInner db.ready jobType jobId score
        runs := db.runs.insert runId (((db.runs.lookup runId).getD []).insert jobId) } :
        RedisQueue).slot id =
      if id = jobId then (db.slot id).enqueue jobType runId score record else db.slot id := by
    by_cases hid : id = jobId
    · subst hid
      rw [if_pos rfl]
      ext1
      · simp [slot, RedisSlot.enqueue]
      · simp [slot, inner_setInner, RedisSlot.enqueue, RedisSlot.setReady]
      · simp [slot, RedisSlot.enqueue, RedisSlot.setReady]
      · rename_i r
        by_cases hr : r = runId <;> simp [slot, RedisSlot.enqueue, lookup_insert_ite, hr]
    · rw [if_neg hid]
      ext1
      · simp [slot, lookup_insert_ite, hid]
      · simp [slot, inner_setInner, hid]
      · simp [slot]
      · rename_i r
        by_cases hr : r = runId <;> simp [slot, lookup_insert_ite, hr, hid]
  unfold enqueueScript
  have hslot : (db.slot jobId).hash = db.jobs.lookup jobId := rfl
  cases hhash : db.jobs.lookup jobId with
  | none =>
    simp only [Option.map_none, RedisSlot.refuses, hslot, hhash, and_true, reduceCtorEq, or_self,
      if_false]
    exact hwritten
  | some hash =>
    simp only [Option.map_some, Option.some.injEq, RedisSlot.refuses, hslot, hhash,
      Bool.or_eq_false_iff]
    cases hstatus : hash.status <;> cases hacked : hash.acked <;>
      simp [JobStatus.isInFlight, hwritten]

theorem slot_acknowledgeScript (id id' : JobId) (token : LeaseToken) {hash : JobHash}
    (hhash : (db.slot id).hash = some hash) (htoken : hash.leaseToken = some token) :
    (db.acknowledgeScript id token).slot id' =
      if id' = id then (db.slot id').acknowledge hash else db.slot id' := by
  have hlookup : db.jobs.lookup id = some hash := hhash
  unfold acknowledgeScript
  simp only [hlookup, htoken, if_true]
  by_cases hid : id' = id
  · subst hid
    rw [if_pos rfl]
    ext1
    · simp [slot, RedisSlot.acknowledge]
    · simp [slot, RedisSlot.acknowledge]
    · simp [slot, RedisSlot.acknowledge]
    · simp only [slot, RedisSlot.acknowledge, mem_srem]
      simp
  · rw [if_neg hid]
    ext1
    · simp [slot, hid]
    · simp [slot]
    · simp [slot, hid]
    · simp only [slot, mem_srem]
      simp [hid]

theorem renewScript_lost {id : JobId} {token : LeaseToken} {nowMs expiryMs : Int}
    {expiresAt : Instant}
    (h : ∀ hash expiry, db.jobs.lookup id = some hash → hash.leaseToken = some token →
      db.leases.lookup id = some expiry → expiry ≤ nowMs) :
    db.renewScript id token nowMs expiryMs expiresAt = (db, none) := by
  unfold renewScript
  split
  · rfl
  · rename_i hash hhash
    split
    · rename_i htoken
      split
      · rfl
      · rename_i expiry hexpiry
        rw [if_pos (h hash expiry hhash htoken hexpiry)]
    · rfl

theorem renewScript_held {id : JobId} {token : LeaseToken} {nowMs expiryMs expiry : Int}
    {expiresAt : Instant} {hash : JobHash} (hhash : db.jobs.lookup id = some hash)
    (htoken : hash.leaseToken = some token) (hexpiry : db.leases.lookup id = some expiry)
    (hlive : nowMs < expiry) :
    db.renewScript id token nowMs expiryMs expiresAt =
      ({ db with
          jobs := db.jobs.insert id { hash with leaseExpiresAt := some expiresAt }
          leases := db.leases.insert id expiryMs },
        some (hash.leaseAcquiredAt, hash.leaseHolder)) := by
  unfold renewScript
  simp only [hhash, htoken, if_true, hexpiry, if_neg (Int.not_le.mpr hlive)]

theorem slot_releaseScript (id id' : JobId) (token : LeaseToken) (requeue : Bool) {hash : JobHash}
    (hhash : (db.slot id).hash = some hash) (htoken : hash.leaseToken = some token) :
    (db.releaseScript id token requeue).slot id' =
      if id' = id then
        if requeue then
          ((db.slot id').unlease { hash.clearLease with status := .queued }).setReady hash.type
            hash.score
        else (db.slot id').unlease { hash.clearLease with status := .pending }
      else db.slot id' := by
  have hlookup : db.jobs.lookup id = some hash := hhash
  unfold releaseScript
  simp only [hlookup, htoken, if_true]
  cases requeue with
  | true => exact slot_requeued id id' _ _ _
  | false => exact slot_unlease id id' _

/-! ### Loops -/

/-- What one turn of a loop does: it changes the slot of its job, and reports the job or
    not, both as the slot says. -/
structure Turns (turn : RedisQueue → JobId → RedisQueue × Option JobId)
    (change : RedisSlot → RedisSlot) (counts : RedisSlot → Bool) (db : RedisQueue) (id : JobId) :
    Prop where
  reply : (turn db id).2 = if counts (db.slot id) then some id else none
  slots : ∀ id', (turn db id).1.slot id' =
    if id' = id then change (db.slot id') else db.slot id'
  runs : (turn db id).1.runs = db.runs

/-- A loop over distinct jobs whose turns touch one slot each. -/
theorem forEach_spec {turn : RedisQueue → JobId → RedisQueue × Option JobId}
    {change : RedisSlot → RedisSlot} {counts : RedisSlot → Bool} {P : RedisSlot → Prop}
    (hturn : ∀ db id, P (db.slot id) → Turns turn change counts db id)
    (ids : List JobId) (db : RedisQueue) (hnodup : ids.Nodup) (hids : ∀ id ∈ ids, P (db.slot id)) :
    (forEach turn ids db).2 = ids.filter (fun id => counts (db.slot id)) ∧
      (∀ id, (forEach turn ids db).1.slot id =
        if id ∈ ids then change (db.slot id) else db.slot id) ∧
      (forEach turn ids db).1.runs = db.runs := by
  induction ids generalizing db with
  | nil => exact ⟨rfl, fun id => by simp [forEach], rfl⟩
  | cons first rest ih =>
    obtain ⟨hfirst, hrest⟩ := List.nodup_cons.mp hnodup
    have hone := hturn db first (hids first List.mem_cons_self)
    have hsame : ∀ id ∈ rest, (turn db first).1.slot id = db.slot id := by
      intro id hid
      have hne : id ≠ first := fun heq => hfirst (heq ▸ hid)
      rw [hone.slots, if_neg hne]
    have hothers : ∀ id ∈ rest, P ((turn db first).1.slot id) := by
      intro id hid
      rw [hsame id hid]
      exact hids id (List.mem_cons_of_mem _ hid)
    obtain ⟨hreply, hall, hruns⟩ := ih _ hrest hothers
    refine ⟨?_, fun id => ?_, hruns.trans hone.runs⟩
    · have hfilter : rest.filter (fun id => counts ((turn db first).1.slot id)) =
          rest.filter fun id => counts (db.slot id) :=
        List.filter_congr fun id hid => by rw [hsame id hid]
      simp only [forEach, hreply, hone.reply, hfilter, List.filter_cons]
      split <;> rfl
    · simp only [forEach, hall, hone.slots]
      by_cases hid : id = first
      · subst hid
        simp [hfirst]
      · simp [hid]

theorem reclaimTurn_turns (now : Instant) (db : RedisQueue) (id : JobId)
    (h : (db.slot id).hash ≠ none) :
    Turns (fun db id => db.reclaimTurn now id) (fun s => s.reclaim now) (fun _ => true) db id := by
  obtain ⟨hash, hhash⟩ := Option.ne_none_iff_exists'.mp h
  have hlookup : db.jobs.lookup id = some hash := hhash
  by_cases hleft : hash.attempt < hash.maxAttempts
  · constructor <;> simp only [reclaimTurn, hlookup, hleft, if_true]
    intro id'
    rw [slot_requeued]
    by_cases hid : id' = id
    · subst hid
      simp [RedisSlot.reclaim, hhash, hleft]
    · simp [hid]
  · constructor <;> simp only [reclaimTurn, hlookup, hleft, if_false, if_true]
    intro id'
    rw [slot_unlease]
    by_cases hid : id' = id
    · subst hid
      simp [RedisSlot.reclaim, hhash, hleft]
    · simp [hid]

theorem cancelTurn_turns (runId : RunId) (db : RedisQueue) (id : JobId)
    (h : (db.slot id).hash ≠ none) :
    Turns (fun db id => db.cancelTurn runId id) RedisSlot.cancel RedisSlot.cancellable db id := by
  obtain ⟨hash, hhash⟩ := Option.ne_none_iff_exists'.mp h
  have hlookup : db.jobs.lookup id = some hash := hhash
  have hterminal : (hash.status ≠ .succeeded ∧ hash.status ≠ .dead ∧ hash.status ≠ .cancelled) ↔
      hash.status.isTerminal = false := by
    cases hash.status <;> simp [JobStatus.isTerminal]
  cases ht : hash.status.isTerminal with
  | true =>
    constructor <;> simp only [cancelTurn, hlookup, hterminal, ht, RedisSlot.cancellable, hhash]
    · rfl
    · intro id'
      by_cases hid : id' = id
      · subst hid
        simp [RedisSlot.cancel, hhash, ht]
      · simp [hid]
    · rfl
  | false =>
    constructor <;> simp only [cancelTurn, hlookup, hterminal, ht, RedisSlot.cancellable, hhash,
      if_true]
    · rfl
    · intro id'
      by_cases hid : id' = id
      · subst hid
        simp [slot, inner_popInner, RedisSlot.cancel, hlookup, ht, RedisSlot.unlease,
          RedisSlot.clearReady]
      · simp [slot, inner_popInner, hid]

end RedisQueue

end AgenticPlatform
