import AgenticPlatform.JobQueue

/-!
# The queue, one job at a time

The queue keeps six dictionaries, but every operation touches the entries of one job
only. `Slot` gathers what the queue knows about one job; `slot_enqueue` and its
siblings say that an operation on the whole state is an operation on one slot and
leaves every other slot alone. Representation invariants are then facts about a slot.
-/

namespace AgenticPlatform

open Dict

/-- Everything the queue stores under one job id. -/
structure Slot where
  job : Option Job
  ready : JobType → Option Int
  score : Option Int
  lease : Option Instant
  member : RunId → Bool
  acknowledged : Bool

namespace JobQueue

def slot (q : JobQueue) (id : JobId) : Slot where
  job := q.jobs.lookup id
  ready jobType := (inner q.ready jobType).lookup id
  score := q.scores.lookup id
  lease := q.leases.lookup id
  member runId := decide (id ∈ (q.runs.lookup runId).getD [])
  acknowledged := decide (id ∈ q.acknowledged)

end JobQueue

namespace Slot

@[ext] theorem ext {s t : Slot} (hjob : s.job = t.job) (hready : ∀ k, s.ready k = t.ready k)
    (hscore : s.score = t.score) (hlease : s.lease = t.lease)
    (hmember : ∀ r, s.member r = t.member r) (hack : s.acknowledged = t.acknowledged) :
    s = t := by
  cases s
  cases t
  simp only [Slot.mk.injEq]
  exact ⟨hjob, funext hready, hscore, hlease, funext hmember, hack⟩

/-! ### The operations on one slot -/

/-- `enqueue` does nothing to a held or acknowledged record. -/
def refuses (s : Slot) : Bool :=
  match s.job with
  | none => false
  | some stored => stored.status.isInFlight || s.acknowledged

def setReady (s : Slot) (jobType : JobType) (score : Int) : Slot :=
  { s with ready := fun k => if k = jobType then some score else s.ready k }

def clearReady (s : Slot) (jobType : JobType) : Slot :=
  { s with ready := fun k => if k = jobType then none else s.ready k }

def enqueue (s : Slot) (job : Job) : Slot :=
  if s.refuses then s
  else
    let score := queueScore job.priority job.createdAt
    { s.setReady job.type score with
      job := some { job.rebuild with status := .queued }
      score := some score
      member := fun r => decide (r = job.runId) || s.member r }

/-- The record and its expiry after a lease was granted or extended. -/
def leased (s : Slot) (job : Job) (expiresAt : Instant) : Slot :=
  { s with job := some job.rebuild, lease := some expiresAt }

/-- `claim` once this slot was chosen under `jobType`. -/
def claim (s : Slot) (jobType : JobType) (job : Job) (expiresAt : Instant) : Slot :=
  (s.clearReady jobType).leased job expiresAt

def acknowledge (s : Slot) (job : Job) : Slot :=
  { s with
    job := some { job.rebuild with lease := none, assignedWorkerId := none }
    lease := none
    member := fun r => !decide (r = job.runId) && s.member r
    acknowledged := true }

def unlease (s : Slot) (job : Job) : Slot := { s with job := some job, lease := none }

/-- A record given back by its holder. -/
def released (job : Job) (requeue : Bool) : Job :=
  { job.rebuild with
    status := if requeue then .queued else .pending
    lease := none
    assignedWorkerId := none }

/-- A record dropped because its run was cancelled. -/
def cancelled (job : Job) : Job :=
  { job.rebuild with
    status := .cancelled
    failureKind := some .cancelled
    lease := none
    assignedWorkerId := none }

end Slot

namespace JobQueue

variable {q : JobQueue}

theorem slot_popReady (jobType : JobType) (id id' : JobId) :
    ({ q with ready := popInner q.ready jobType id } : JobQueue).slot id' =
      if id' = id then (q.slot id').clearReady jobType else q.slot id' := by
  by_cases h : id' = id <;> simp [slot, inner_popInner, h, Slot.clearReady]

/-- Granting or extending a lease. -/
theorem slot_leased (id id' : JobId) (job : Job) (expiresAt : Instant) :
    ({ q with
        jobs := q.jobs.insert id job.rebuild
        leases := q.leases.insert id expiresAt } : JobQueue).slot id' =
      if id' = id then (q.slot id').leased job expiresAt else q.slot id' := by
  by_cases h : id' = id <;> simp [slot, lookup_insert_ite, h, Slot.leased]

theorem slot_empty (id : JobId) :
    JobQueue.empty.slot id = ⟨none, fun _ => none, none, none, fun _ => false, false⟩ := by
  simp [slot, JobQueue.empty, Dict.inner]

theorem slot_enqueue (job : Job) (id : JobId) :
    (q.enqueue job).slot id = if id = job.id then (q.slot id).enqueue job else q.slot id := by
  by_cases h : id = job.id
  · subst h
    rw [if_pos rfl]
    unfold enqueue Slot.enqueue
    have href : (q.slot job.id).refuses = q.refuses job.id := rfl
    rw [href]
    split
    · rfl
    · ext1
      · simp [slot]
      · simp [slot, inner_setInner, Slot.setReady]
      · simp [slot]
      · simp [slot, Slot.setReady]
      · rename_i r
        by_cases hr : r = job.runId <;> simp [slot, lookup_insert_ite, hr]
      · simp [slot, Slot.setReady]
  · rw [if_neg h]
    unfold enqueue
    split
    · rfl
    · ext1
      · simp [slot, lookup_insert_ite, h]
      · simp [slot, inner_setInner, h]
      · simp [slot, lookup_insert_ite, h]
      · simp [slot]
      · rename_i r
        by_cases hr : r = job.runId <;> simp [slot, lookup_insert_ite, hr, h]
      · simp [slot]

theorem mem_discard (runs : Dict RunId (List JobId)) (runId r : RunId) (id id' : JobId) :
    id' ∈ ((discard runs runId id).lookup r).getD [] ↔
      ¬ (r = runId ∧ id' = id) ∧ id' ∈ (runs.lookup r).getD [] := by
  unfold discard
  cases hruns : runs.lookup runId with
  | none =>
    by_cases hr : r = runId
    · subst hr
      simp [hruns]
    · simp [hr]
  | some ids =>
    simp only [lookup_insert_ite]
    by_cases hr : r = runId
    · subst hr
      simp [hruns, and_comm]
    · simp [hr]

theorem slot_acknowledge (id id' : JobId) (token : LeaseToken) :
    (q.acknowledge id token).slot id' =
      match (q.slot id).job with
      | none => q.slot id'
      | some job =>
          if holds job token ∧ id' = id then (q.slot id').acknowledge job else q.slot id' := by
  unfold acknowledge
  show _ = match q.jobs.lookup id with | none => _ | some job => _
  cases q.jobs.lookup id with
  | none => rfl
  | some job =>
    simp only
    by_cases hh : holds job token = true
    · simp only [hh, if_true, true_and]
      by_cases h : id' = id
      · subst h
        rw [if_pos rfl]
        ext1
        · simp [slot, Slot.acknowledge]
        · simp [slot, Slot.acknowledge]
        · simp [slot, Slot.acknowledge]
        · simp [slot, Slot.acknowledge]
        · simp only [slot, Slot.acknowledge, mem_discard]
          simp
        · simp [slot, Slot.acknowledge]
      · rw [if_neg h]
        ext1
        · simp [slot, h]
        · simp [slot]
        · simp [slot]
        · simp [slot, h]
        · simp only [slot, mem_discard]
          simp [h]
        · simp [slot, h]
    · simp [hh]

end JobQueue

end AgenticPlatform
