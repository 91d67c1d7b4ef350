import AgenticPlatform.Enums

/-!
# Job leases

A worker holds a job for a bounded time under a token of its own. The constructor's
check that a lease ends strictly after it was acquired is a field of the structure,
so `granted` and `renewed` are the only places where it can be refused.
-/

namespace AgenticPlatform

/-- Proves that the caller still owns the lease it was granted. -/
structure LeaseToken where
  value : String
  nonempty : value ≠ ""
deriving DecidableEq

structure Lease where
  jobId : JobId
  holder : WorkerId
  token : LeaseToken
  acquiredAt : Instant
  expiresAt : Instant
  ends_after_acquired : acquiredAt < expiresAt
deriving DecidableEq

namespace Lease

/-- `Lease(...)`: the dataclass constructor with its check. -/
def build (jobId : JobId) (holder : WorkerId) (token : LeaseToken)
    (acquiredAt expiresAt : Instant) : Except PyError Lease :=
  if h : acquiredAt < expiresAt then
    .ok { jobId, holder, token, acquiredAt, expiresAt, ends_after_acquired := h }
  else
    .error (.valueError "lease must expire strictly after it was acquired")

def granted (jobId : JobId) (holder : WorkerId) (now : Instant) (duration : Duration)
    (token : LeaseToken) : Except PyError Lease :=
  build jobId holder token now (now + duration)

def isExpired (lease : Lease) (now : Instant) : Bool := decide (lease.expiresAt ≤ now)

/-- Extend the lease; `replace` runs the constructor's check again. -/
def renewed (lease : Lease) (now : Instant) (duration : Duration) : Except PyError Lease :=
  if lease.isExpired now then
    .error (.valueError "an expired lease cannot be renewed; the job was reassigned")
  else
    build lease.jobId lease.holder lease.token lease.acquiredAt (now + duration)

theorem isExpired_iff {lease : Lease} {now : Instant} :
    lease.isExpired now = true ↔ lease.expiresAt ≤ now := by
  simp [isExpired]

theorem not_isExpired_iff {lease : Lease} {now : Instant} :
    lease.isExpired now = false ↔ now < lease.expiresAt := by
  simp [isExpired]

theorem build_eq_ok {jobId : JobId} {holder : WorkerId} {token : LeaseToken}
    {acquiredAt expiresAt : Instant} {lease : Lease}
    (h : build jobId holder token acquiredAt expiresAt = .ok lease) :
    lease.jobId = jobId ∧ lease.holder = holder ∧ lease.token = token ∧
      lease.acquiredAt = acquiredAt ∧ lease.expiresAt = expiresAt := by
  unfold build at h
  split at h
  · cases h
    exact ⟨rfl, rfl, rfl, rfl, rfl⟩
  · cases h

theorem granted_eq_ok {jobId : JobId} {holder : WorkerId} {token : LeaseToken}
    {now : Instant} {duration : Duration} {lease : Lease}
    (h : granted jobId holder now duration token = .ok lease) :
    lease.token = token ∧ lease.expiresAt = now + duration :=
  ⟨(build_eq_ok h).2.2.1, (build_eq_ok h).2.2.2.2⟩

theorem renewed_eq_ok {lease lease' : Lease} {now : Instant} {duration : Duration}
    (h : lease.renewed now duration = .ok lease') :
    now < lease.expiresAt ∧ lease'.token = lease.token ∧ lease'.expiresAt = now + duration := by
  unfold renewed at h
  split at h
  · cases h
  · rename_i hlive
    have hlt : now < lease.expiresAt := not_isExpired_iff.mp (by simpa using hlive)
    exact ⟨hlt, (build_eq_ok h).2.2.1, (build_eq_ok h).2.2.2.2⟩

theorem renewed_jobId {lease lease' : Lease} {now : Instant} {duration : Duration}
    (h : lease.renewed now duration = .ok lease') : lease'.jobId = lease.jobId := by
  unfold renewed at h
  split at h
  · cases h
  · exact (build_eq_ok h).1

end Lease

namespace Sample

theorem first_lease_named : "lease-1" ≠ "" := by decide

theorem second_lease_named : "lease-2" ≠ "" := by decide

end Sample

end AgenticPlatform
