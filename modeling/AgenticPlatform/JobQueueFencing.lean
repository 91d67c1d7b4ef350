import AgenticPlatform.QueueTimes

/-!
# One holder at a time

Between two claims of a job somebody gave it up: its holder released it, its lapsed
lease was reclaimed, or it was cancelled and published again. A report is accepted from
the latest claim only, and any other leaves the queue as it is. A copy that is published
with the lease of an earlier claim brings that lease back, since `enqueue` stores it.
-/

namespace AgenticPlatform

open Dict

namespace JobQueue

variable {q : JobQueue} {call : QueueCall} {id : JobId} {token : LeaseToken}

/-! ### Cancelling, job by job -/

/-- A job that is not returned was not touched. -/
theorem cancelAll_other (ids : List JobId) (q : JobQueue) (h : id ∉ (cancelAll ids q).2) :
    (cancelAll ids q).1.slot id = q.slot id := by
  induction ids generalizing q with
  | nil => rfl
  | cons first rest ih =>
    simp only [cancelAll, List.mem_append, not_or] at h ⊢
    rw [ih _ h.2, cancelOne_slot]
    split
    · rename_i heq
      subst heq
      -- the turn for this job left it alone, or its id would have been returned
      have hnot := h.1
      unfold Slot.cancel
      unfold cancelOne at hnot
      cases hj : q.jobs.lookup id with
      | none =>
        have hslot : (q.slot id).job = none := hj
        rw [hslot]
      | some job =>
        have hslot : (q.slot id).job = some job := hj
        simp only [hj] at hnot
        rw [hslot]
        simp only
        split
        · rfl
        · rename_i hlive
          rw [if_neg hlive] at hnot
          simp at hnot
    · rfl

/-- A job that is returned ends up cancelled. -/
theorem cancelAll_mem (ids : List JobId) (q : JobQueue) (h : id ∈ (cancelAll ids q).2) :
    ∃ record, ((cancelAll ids q).1.slot id).job = some record ∧ record.status = .cancelled ∧
      record.lease = none := by
  induction ids generalizing q with
  | nil => cases h
  | cons first rest ih =>
    simp only [cancelAll, List.mem_append] at h ⊢
    by_cases hrest : id ∈ (cancelAll rest (q.cancelOne first).1).2
    · exact ih _ hrest
    · rw [cancelAll_other rest _ hrest]
      have hfirst := h.resolve_right hrest
      unfold cancelOne at hfirst
      cases hj : q.jobs.lookup first with
      | none => simp [hj] at hfirst
      | some job =>
        simp only [hj] at hfirst
        split at hfirst
        · simp at hfirst
        · rename_i hlive
          obtain rfl : id = first := by simpa using hfirst
          have hslot : (q.slot id).job = some job := hj
          rw [cancelOne_slot, if_pos rfl]
          refine ⟨Slot.cancelled job, ?_, rfl, rfl⟩
          simp [Slot.cancel, hslot, hlive, Slot.unlease]

end JobQueue

namespace QueueCall

/-- The call takes the job `id` away from whoever has it: its holder releases it, its
    lapsed lease is reclaimed, or it is cancelled. -/
def TakesBack (q : JobQueue) (id : JobId) : QueueCall → Prop
  | .release id' token _ => id' = id ∧ q.token? id = some token
  | .reclaimExpired now limit =>
      (∃ expiry, q.leases.lookup id = some expiry ∧ expiry ≤ now) ∧
        ∃ ids, ((QueueCall.reclaimExpired now limit).apply q).2 = .ids ids ∧ id ∈ ids
  | .cancelRunJobs runId => id ∈ (q.cancelRunJobs runId).2
  | _ => False

def IsCancellation : QueueCall → Prop
  | .cancelRunJobs _ => True
  | _ => False

/-- The call publishes the job `id`. -/
def Publishes (id : JobId) : QueueCall → Prop
  | .enqueue job => job.id = id
  | _ => False

end QueueCall

namespace TimedCall

/-- The job a call handed out, and the token it was handed out under. -/
def handsOut (q : JobQueue) (call : TimedCall) : Option (JobId × LeaseToken) :=
  match (call.apply q).2 with
  | .claimed (some (job, lease)) => some (job.id, lease.token)
  | _ => none

/-- The call takes the job `id` away from whoever has it: its holder releases it, its
    lapsed lease is reclaimed, or it is cancelled. -/
def TakesBack (q : JobQueue) (id : JobId) : TimedCall → Prop
  | .release id' token _ => id' = id ∧ q.token? id = some token
  | .reclaimExpired now limit =>
      (∃ expiry, q.leases.lookup id = some expiry ∧ expiry ≤ now.instant) ∧
        ∃ ids, ((TimedCall.reclaimExpired now limit).apply q).2 = .ids ids ∧ id ∈ ids
  | .cancelRunJobs runId => id ∈ (q.cancelRunJobs runId).2
  | _ => False

def IsCancellation : TimedCall → Prop
  | .cancelRunJobs _ => True
  | _ => False

/-- The call publishes the job `id`. -/
def Publishes (id : JobId) : TimedCall → Prop
  | .enqueue job => job.id = id
  | _ => False

variable {q : JobQueue} {call : TimedCall} {id : JobId} {token : LeaseToken}

/-- A call that answers as the one at its instant hands out what that one does. -/
theorem handsOut_plain (h : call.apply q = call.plain.apply q) :
    call.handsOut q = call.plain.handsOut q := by
  unfold handsOut QueueCall.handsOut
  rw [h] <;> rfl

theorem handsOut_none (h : ∀ job lease, (call.apply q).2 ≠ .claimed (some (job, lease))) :
    call.handsOut q = none := by
  unfold handsOut
  split
  · rename_i job lease hreply
    exact absurd hreply (h job lease)
  · rfl

theorem takesBack_of_plain (h : call.apply q = call.plain.apply q)
    (hback : call.plain.TakesBack q id) : call.TakesBack q id := by
  cases call with
  | enqueue job => cases hback
  | claim consumer jobTypes duration now token => cases hback
  | renew id token duration now => cases hback
  | acknowledge id token => cases hback
  | release id' token requeue => exact hback
  | reclaimExpired now limit =>
    obtain ⟨hlapsed, ids, hids, hmem⟩ := hback
    exact ⟨hlapsed, ids, (congrArg Prod.snd h).trans hids, hmem⟩
  | cancelRunJobs runId => exact hback

theorem publishes_plain : call.plain.Publishes id ↔ call.Publishes id := by
  cases call <;> exact Iff.rfl

end TimedCall

namespace JobQueue

variable {q : JobQueue} {call : QueueCall} {id : JobId} {token : LeaseToken}

/-! ### A job that is handed out -/

/-- Somebody took the job and nobody took it back: its record is in flight. -/
def Out (q : JobQueue) (id : JobId) : Prop :=
  ∃ record, q.jobs.lookup id = some record ∧ record.status.isInFlight = true

/-- The record was cancelled. -/
def Dropped (q : JobQueue) (id : JobId) : Prop :=
  ∃ record, q.jobs.lookup id = some record ∧ record.status = .cancelled

theorem Out.of_slot {q' : JobQueue} (h : q.Out id) (hslot : q'.slot id = q.slot id) : q'.Out id := by
  obtain ⟨record, hrecord, hflight⟩ := h
  have hjob : (q'.slot id).job = (q.slot id).job := by rw [hslot]
  exact ⟨record, hjob.trans hrecord, hflight⟩

theorem Dropped.of_slot {q' : JobQueue} (h : q.Dropped id) (hslot : q'.slot id = q.slot id) :
    q'.Dropped id := by
  obtain ⟨record, hrecord, hstatus⟩ := h
  have hjob : (q'.slot id).job = (q.slot id).job := by rw [hslot]
  exact ⟨record, hjob.trans hrecord, hstatus⟩

/-- What a claim hands out was queued, and is out afterwards. -/
theorem handsOut_spec (hinv : q.Inv) (hcall : call.Allowed q)
    (h : call.handsOut q = some (id, token)) :
    (∃ record, q.jobs.lookup id = some record ∧ record.status = .queued) ∧
      (call.apply q).1.Out id ∧ (call.apply q).1.token? id = some token := by
  obtain ⟨consumer, jobTypes, duration, now, fresh, job, lease, rfl, hresult, rfl, rfl⟩ :=
    QueueCall.handsOut_claim h
  rcases claim_cases hinv.coherent consumer jobTypes hcall now fresh with
    ⟨hnone, -⟩ | ⟨stored, job', lease', hstored, hqueued, -, hresult', -, hwork, hstatus, hlease, -, -, -,
      hslots⟩
  · rw [hnone] at hresult
    cases hresult
  · rw [hresult', Except.ok.injEq, Option.some.injEq, Prod.mk.injEq] at hresult
    obtain ⟨rfl, rfl⟩ := hresult
    have hid : job'.id = stored.id := Job.id_of_work hwork
    have hslot := hslots stored.id
    rw [if_pos rfl] at hslot
    have hrecord : (q.claim consumer jobTypes duration now fresh).self.jobs.lookup stored.id =
        some job'.rebuild := congrArg Slot.job hslot
    rw [hid]
    refine ⟨⟨stored, hstored, hqueued⟩, ⟨job'.rebuild, hrecord, ?_⟩, ?_⟩
    · show job'.status.isInFlight = true
      rw [hstatus]
      rfl
    · simp [QueueCall.apply, token?, hrecord, Job.rebuild, hlease]

/-- A claim leaves a job alone that is not queued. -/
theorem claim_other (hinv : q.Inv) (consumer : WorkerId) (jobTypes : List JobType)
    {duration : Duration} (hd : 0 < duration) (now : Instant) (fresh : LeaseToken) {record : Job}
    (hrecord : q.jobs.lookup id = some record) (hne : record.status ≠ .queued) :
    (q.claim consumer jobTypes duration now fresh).self.slot id = q.slot id := by
  rcases claim_cases hinv.coherent consumer jobTypes hd now fresh with
    ⟨-, hself⟩ | ⟨stored, job, lease, hstored, hqueued, -, -, -, -, -, -, -, -, -, hslots⟩
  · rw [hself]
  · rw [hslots, if_neg]
    rintro rfl
    have hsame : q.jobs.lookup stored.id = some stored := hstored
    rw [hrecord, Option.some.injEq] at hsame
    rw [hsame] at hne
    exact hne hqueued

/-- A job stays out until it is taken back. -/
theorem Out.apply (h : q.Out id) (hinv : q.Inv) (hcall : call.Allowed q)
    (hkept : ¬ call.TakesBack q id) : (call.apply q).1.Out id := by
  obtain ⟨record, hrecord, hflight⟩ := h
  have hout : q.Out id := ⟨record, hrecord, hflight⟩
  have hslotjob : (q.slot id).job = some record := hrecord
  cases call with
  | enqueue job =>
    apply hout.of_slot
    show (q.enqueue job).slot id = q.slot id
    rw [slot_enqueue]
    split
    · simp [Slot.enqueue, Slot.refuses, hslotjob, hflight]
    · rfl
  | claim consumer jobTypes duration now fresh =>
    apply hout.of_slot
    exact claim_other hinv consumer jobTypes hcall now fresh hrecord (Slot.ne_queued_of_isInFlight hflight)
  | renew id' token' duration now =>
    cases hresult : (q.renew id' token' duration now).result with
    | error e =>
      show (q.renew id' token' duration now).self.Out id
      rw [renew_raised hresult]
      exact hout
    | ok renewed =>
      obtain ⟨job, lease, hjob, -, -, -, -, -, hslots⟩ := renew_cases hresult
      by_cases hid : id = id'
      · subst hid
        have hslot := hslots id
        rw [if_pos rfl] at hslot
        rw [hslotjob, Option.some.injEq] at hjob
        subst hjob
        exact ⟨_, congrArg Slot.job hslot, hflight⟩
      · apply hout.of_slot
        exact (hslots id).trans (if_neg hid)
  | acknowledge id' token' =>
    have hslot := slot_acknowledge (q := q) id' id token'
    show (q.acknowledge id' token').Out id
    cases hjob : (q.slot id').job with
    | none =>
      rw [hjob] at hslot
      exact hout.of_slot hslot
    | some job =>
      rw [hjob] at hslot
      simp only at hslot
      split at hslot
      · rename_i hcond
        rw [hcond.2, hjob, Option.some.injEq] at hslotjob
        subst hslotjob
        exact ⟨_, congrArg Slot.job hslot, hflight⟩
      · exact hout.of_slot hslot
  | release id' token' requeue =>
    obtain ⟨-, ⟨-, hself⟩ | ⟨job, score, hjob, hholds, -, hslots⟩⟩ :=
      release_cases hinv.coherent id' token' requeue
    · show (q.release id' token' requeue).self.Out id
      rw [hself]
      exact hout
    · apply hout.of_slot
      rw [show ((QueueCall.release id' token' requeue).apply q).1 =
        (q.release id' token' requeue).self from rfl, hslots, if_neg]
      rintro rfl
      obtain ⟨lease, hlease, htoken⟩ := holds_iff.mp hholds
      have hlookup : q.jobs.lookup id = some job := hjob
      exact hkept ⟨rfl, by simp [token?, hlookup, hlease, htoken]⟩
  | reclaimExpired now limit =>
    obtain ⟨hresult, -, hslots⟩ :=
      reclaimExpired_spec hinv now (sliceEnd (q.lapsed now).length limit)
    apply hout.of_slot
    refine (hslots id).trans (if_neg fun hmem => hkept ?_)
    refine ⟨lapsed_of_mem_reclaimBatch hmem, _, ?_, hmem⟩
    simp only [QueueCall.apply, hresult, QueueReply.of]
  | cancelRunJobs runId => exact hout.of_slot (cancelAll_other _ q hkept)

/-- A cancelled job stays cancelled until it is published again. -/
theorem Dropped.apply (h : q.Dropped id) (hinv : q.Inv) (hcall : call.Allowed q)
    (hquiet : ¬ call.Publishes id) : (call.apply q).1.Dropped id := by
  obtain ⟨record, hrecord, hstatus⟩ := h
  have hdropped : q.Dropped id := ⟨record, hrecord, hstatus⟩
  have hslotjob : (q.slot id).job = some record := hrecord
  have hnolease : record.lease = none := (hinv id).coherent.no_lease hslotjob (by rw [hstatus]; rfl)
  cases call with
  | enqueue job =>
    apply hdropped.of_slot
    show (q.enqueue job).slot id = q.slot id
    rw [slot_enqueue, if_neg]
    exact fun heq => hquiet heq.symm
  | claim consumer jobTypes duration now fresh =>
    apply hdropped.of_slot
    exact claim_other hinv consumer jobTypes hcall now fresh hrecord (by rw [hstatus]; simp)
  | renew id' token' duration now =>
    cases hresult : (q.renew id' token' duration now).result with
    | error e =>
      show (q.renew id' token' duration now).self.Dropped id
      rw [renew_raised hresult]
      exact hdropped
    | ok renewed =>
      obtain ⟨job, lease, hjob, hlease, -, -, -, -, hslots⟩ := renew_cases hresult
      apply hdropped.of_slot
      refine (hslots id).trans (if_neg ?_)
      rintro rfl
      rw [hslotjob, Option.some.injEq] at hjob
      rw [← hjob, hnolease] at hlease
      cases hlease
  | acknowledge id' token' =>
    have hslot := slot_acknowledge (q := q) id' id token'
    apply hdropped.of_slot
    refine Eq.trans hslot ?_
    cases hjob : (q.slot id').job with
    | none => rfl
    | some job =>
      simp only
      refine if_neg ?_
      rintro ⟨hholds, rfl⟩
      obtain ⟨lease, hlease, -⟩ := holds_iff.mp hholds
      rw [hslotjob, Option.some.injEq] at hjob
      rw [← hjob, hnolease] at hlease
      cases hlease
  | release id' token' requeue =>
    obtain ⟨-, ⟨-, hself⟩ | ⟨job, score, hjob, hholds, -, hslots⟩⟩ :=
      release_cases hinv.coherent id' token' requeue
    · show (q.release id' token' requeue).self.Dropped id
      rw [hself]
      exact hdropped
    · apply hdropped.of_slot
      refine (hslots id).trans (if_neg ?_)
      rintro rfl
      obtain ⟨lease, hlease, -⟩ := holds_iff.mp hholds
      rw [hslotjob, Option.some.injEq] at hjob
      rw [← hjob, hnolease] at hlease
      cases hlease
  | reclaimExpired now limit =>
    obtain ⟨-, -, hslots⟩ := reclaimExpired_spec hinv now (sliceEnd (q.lapsed now).length limit)
    apply hdropped.of_slot
    refine (hslots id).trans (if_neg fun hmem => ?_)
    obtain ⟨expiry, hlease, -⟩ := lapsed_of_mem_reclaimBatch hmem
    rw [(hinv id).lease record hslotjob, hnolease] at hlease
    cases hlease
  | cancelRunJobs runId =>
    by_cases hmem : id ∈ (q.cancelRunJobs runId).2
    · obtain ⟨dropped, hdrop, hcancelled, -⟩ := cancelAll_mem _ q hmem
      exact ⟨dropped, hdrop, hcancelled⟩
    · exact hdropped.of_slot (cancelAll_other _ q hmem)

/-! ### Calls with their times -/

section Timed

variable {timed : TimedCall}

/-- What a claim hands out was queued, and is out afterwards. -/
theorem timed_handsOut_spec (hinv : q.Inv) (hallowed : timed.Allowed q)
    (hkept : timed.NoStranding q) (h : timed.handsOut q = some (id, token)) :
    (∃ record, q.jobs.lookup id = some record ∧ record.status = .queued) ∧
      (timed.apply q).1.Out id ∧ (timed.apply q).1.token? id = some token := by
  rcases apply_timed hinv hallowed hkept with ⟨-, hnothing⟩ | ⟨hplain, hcall⟩
  · rw [TimedCall.handsOut_none hnothing] at h
    cases h
  · rw [TimedCall.handsOut_plain hcall] at h
    rw [hcall]
    exact handsOut_spec hinv hplain h

theorem Out.apply_timed (h : q.Out id) (hinv : q.Inv) (hallowed : timed.Allowed q)
    (hkept : timed.NoStranding q) (hback : ¬ timed.TakesBack q id) : (timed.apply q).1.Out id := by
  rcases JobQueue.apply_timed hinv hallowed hkept with ⟨hsame, -⟩ | ⟨hplain, hcall⟩
  · rw [hsame]
    exact h
  · rw [hcall]
    exact h.apply hinv hplain fun htakes => hback (TimedCall.takesBack_of_plain hcall htakes)

theorem Dropped.apply_timed (h : q.Dropped id) (hinv : q.Inv) (hallowed : timed.Allowed q)
    (hkept : timed.NoStranding q) (hquiet : ¬ timed.Publishes id) :
    (timed.apply q).1.Dropped id := by
  rcases JobQueue.apply_timed hinv hallowed hkept with ⟨hsame, -⟩ | ⟨hplain, hcall⟩
  · rw [hsame]
    exact h
  · rw [hcall]
    exact h.apply hinv hplain fun hpublishes => hquiet (TimedCall.publishes_plain.mp hpublishes)

/-! ### Between two claims -/

/-- What a cancellation takes back it leaves cancelled. -/
theorem dropped_of_takesBack (hback : timed.TakesBack q id) (hcancel : timed.IsCancellation) :
    (timed.apply q).1.Dropped id := by
  cases timed with
  | cancelRunJobs runId =>
    obtain ⟨record, hrecord, hstatus, -⟩ := cancelAll_mem _ q hback
    exact ⟨record, hrecord, hstatus⟩
  | enqueue job => cases hcancel
  | claim consumer jobTypes duration now token => cases hcancel
  | renew id token duration now => cases hcancel
  | acknowledge id token => cases hcancel
  | release id token requeue => cases hcancel
  | reclaimExpired now limit => cases hcancel

/-- A job that is out and is later queued again was taken back in between, and
    published again if that was a cancellation. -/
theorem Out.taken_back {between : List TimedCall} {record : Job} (hout : q.Out id) (hinv : q.Inv)
    (hcalls : q.Regular between) (hrecord : (q.afterTimed between).jobs.lookup id = some record)
    (hqueued : record.status = .queued) :
    ∃ earlier call rest, between = earlier ++ call :: rest ∧
      call.TakesBack (q.afterTimed earlier) id ∧
      (call.IsCancellation → ∃ publication ∈ rest, publication.Publishes id) := by
  have hend : ¬ ((q.afterTimed between).Inv ∧ (q.afterTimed between).Out id) := by
    rintro ⟨-, record', hrecord', hflight⟩
    rw [hrecord, Option.some.injEq] at hrecord'
    subst hrecord'
    exact Slot.ne_queued_of_isInFlight hflight hqueued
  obtain ⟨earlier, call, rest, hsplit, hback, hkept, -⟩ :=
    Runs.Along.broken (I := fun q => q.Inv ∧ q.Out id)
      (T := fun q (call : TimedCall) => call.TakesBack q id) hcalls ⟨hinv, hout⟩
      (fun q call h hcall hnot => ⟨h.1.apply_timed hcall.1 hcall.2,
        h.2.apply_timed h.1 hcall.1 hcall.2 hnot⟩) hend
  refine ⟨earlier, call, rest, hsplit, hback, fun hcancel => ?_⟩
  subst hsplit
  rw [afterTimed, Runs.after_append, Runs.after_cons] at hrecord
  obtain ⟨-, hcall, hrest⟩ := Runs.along_append.mp hcalls
  -- from the cancellation on, only a publication gets the record out of CANCELLED
  have hend' : ¬ (((call.apply (q.afterTimed earlier)).1.afterTimed rest).Inv ∧
      ((call.apply (q.afterTimed earlier)).1.afterTimed rest).Dropped id) := by
    rintro ⟨-, record', hrecord', hstatus⟩
    have hsame : some record = some record' := hrecord.symm.trans hrecord'
    rw [Option.some.injEq] at hsame
    subst hsame
    rw [hqueued] at hstatus
    cases hstatus
  obtain ⟨quiet, publication, later, hsplit', hpublishes, -⟩ :=
    Runs.Along.broken (I := fun q => q.Inv ∧ q.Dropped id)
      (T := fun _ (call : TimedCall) => call.Publishes id) hrest
      ⟨hkept.apply_timed hcall.1 hcall.2, dropped_of_takesBack hback hcancel⟩
      (fun q call h hcall hnot => ⟨h.1.apply_timed hcall.1 hcall.2,
        h.2.apply_timed h.1 hcall.1 hcall.2 hnot⟩) hend'
  refine ⟨publication, ?_, hpublishes⟩
  rw [hsplit']
  exact List.mem_append_right _ List.mem_cons_self

end Timed

/-! ### The latest claim -/

/-- The token of the latest claim of the job in a history, `last` before it. -/
def latestClaim (id : JobId) (q : JobQueue) (last : Option LeaseToken) :
    List TimedCall → Option LeaseToken
  | [] => last
  | call :: rest =>
      let last := match call.handsOut q with
        | some (handed, token) => if handed = id then some token else last
        | none => last
      latestClaim id (call.apply q).1 last rest

/-- A token in a record was put there by this call, or was there before and the call
    hands the job to nobody else. -/
theorem token_apply (hinv : q.Inv) (hcall : call.Allowed q)
    (ht : (call.apply q).1.token? id = some token) :
    call.handsOut q = some (id, token) ∨
      (q.token? id = some token ∧ ∀ other, call.handsOut q ≠ some (id, other)) := by
  have hnew : ∀ other, call.handsOut q = some (id, other) → other = token := by
    intro other hhands
    have hsame := (handsOut_spec hinv hcall hhands).2.2
    rw [ht, Option.some.injEq] at hsame
    exact hsame.symm
  by_cases hhands : ∃ other, call.handsOut q = some (id, other)
  · obtain ⟨other, hother⟩ := hhands
    exact .inl (hnew other hother ▸ hother)
  · refine .inr ⟨?_, fun other hother => hhands ⟨other, hother⟩⟩
    cases call with
    | enqueue job => exact enqueue_token hcall.1 ht
    | claim consumer jobTypes duration now fresh =>
      have hslot : (q.claim consumer jobTypes duration now fresh).self.slot id = q.slot id := by
        rcases claim_cases hinv.coherent consumer jobTypes hcall now fresh with
          ⟨-, hself⟩ | ⟨stored, job, lease, -, -, -, hresult, -, hwork, -, -, -, -, -, hslots⟩
        · rw [hself]
        · rw [hslots, if_neg]
          rintro rfl
          apply hhands
          refine ⟨lease.token, ?_⟩
          simp [QueueCall.handsOut, QueueCall.apply, QueueReply.of, hresult, Job.id_of_work hwork]
      have hjob : (q.claim consumer jobTypes duration now fresh).self.jobs.lookup id =
          q.jobs.lookup id := congrArg Slot.job hslot
      unfold token? at ht ⊢
      rw [← hjob]
      exact ht
    | renew id' token' duration now => exact (renew_fades q id' token' duration now).token ht
    | acknowledge id' token' => exact (acknowledge_fades q id' token').token ht
    | release id' token' requeue => exact (release_fades q id' token' requeue).token ht
    | reclaimExpired now limit => exact (reclaimExpired_fades q now _).token ht
    | cancelRunJobs runId => exact (cancelRunJobs_fades q runId).token ht

theorem token_apply_timed {timed : TimedCall} (hinv : q.Inv) (hallowed : timed.Allowed q)
    (hkept : timed.NoStranding q) (ht : (timed.apply q).1.token? id = some token) :
    timed.handsOut q = some (id, token) ∨
      (q.token? id = some token ∧ ∀ other, timed.handsOut q ≠ some (id, other)) := by
  rcases apply_timed hinv hallowed hkept with ⟨hsame, hnothing⟩ | ⟨hplain, hcall⟩
  · rw [hsame] at ht
    refine .inr ⟨ht, fun other h => ?_⟩
    rw [TimedCall.handsOut_none hnothing] at h
    cases h
  · rw [hcall] at ht
    rw [TimedCall.handsOut_plain hcall]
    exact token_apply hinv hplain ht

/-- A stored token is the one of the latest claim. -/
theorem token_latest {calls : List TimedCall} {last : Option LeaseToken} (hinv : q.Inv)
    (hcalls : q.Regular calls) (hlast : ∀ token, q.token? id = some token → last = some token)
    (ht : (q.afterTimed calls).token? id = some token) :
    latestClaim id q last calls = some token := by
  induction calls generalizing q last with
  | nil => exact hlast token ht
  | cons call rest ih =>
    obtain ⟨⟨hallowed, hkept⟩, hrest⟩ := hcalls
    apply ih (hinv.apply_timed hallowed hkept) hrest _ ht
    intro token' ht'
    rcases token_apply_timed hinv hallowed hkept ht' with hhands | ⟨hbefore, hnot⟩
    · simp [hhands]
    · cases hhands : call.handsOut q with
      | none => exact hlast token' hbefore
      | some handed =>
        have hother : handed.1 ≠ id := fun heq => hnot handed.2 (by rw [hhands, ← heq])
        simp only [if_neg hother]
        exact hlast token' hbefore

/-! ### Who is listened to -/

/-- One of the three calls of a holder has an effect under this token. -/
def Accepts (q : JobQueue) (id : JobId) (token : LeaseToken) : Prop :=
  (∃ duration now renewed, (q.renewAt id token duration now).result = .ok renewed) ∨
  q.acknowledge id token ≠ q ∨
  ∃ requeue, (q.release id token requeue).self ≠ q

theorem token_of_renew {duration : Duration} {now : Instant} {renewed : Lease}
    (h : (q.renew id token duration now).result = .ok renewed) : q.token? id = some token := by
  obtain ⟨job, lease, hjob, hlease, htoken, -⟩ := renew_cases h
  have hlookup : q.jobs.lookup id = some job := hjob
  simp [token?, hlookup, hlease, htoken]

theorem token_of_holds {job : Job} (hjob : q.jobs.lookup id = some job)
    (hholds : holds job token = true) : q.token? id = some token := by
  obtain ⟨lease, hlease, htoken⟩ := holds_iff.mp hholds
  simp [token?, hjob, hlease, htoken]

theorem acknowledge_of_stranger (h : q.token? id ≠ some token) : q.acknowledge id token = q := by
  unfold acknowledge
  split
  · rfl
  · rename_i job hjob
    exact if_neg fun hholds => h (token_of_holds hjob hholds)

theorem release_of_stranger (h : q.token? id ≠ some token) (requeue : Bool) :
    (q.release id token requeue).self = q := by
  unfold release
  split
  · rfl
  · rename_i job hjob
    rw [if_neg fun hholds => h (token_of_holds hjob hholds)]
    rfl

theorem renew_of_stranger (h : q.token? id ≠ some token) (duration : Duration) (now : CallTime) :
    (q.renewAt id token duration now).self = q := by
  rcases renewAt_cases q id token duration now with hsame | hplain
  · exact hsame
  · rw [hplain]
    cases hresult : (q.renew id token duration now.instant).result with
    | error e => exact renew_raised hresult
    | ok renewed => exact absurd (token_of_renew hresult) h

/-- A renewal that returns was one at an instant. -/
theorem token_of_renewAt {duration : Duration} {now : CallTime} {renewed : Lease}
    (h : (q.renewAt id token duration now).result = .ok renewed) : q.token? id = some token := by
  unfold renewAt at h
  split at h
  · cases h
  · split at h
    · cases h
    · split at h
      · cases h
      · split at h
        · exact token_of_renew h
        · cases h

theorem Accepts.token_eq (h : q.Accepts id token) : q.token? id = some token := by
  rcases h with ⟨duration, now, renewed, hrenewed⟩ | hacknowledge | ⟨requeue, hrelease⟩
  · exact token_of_renewAt hrenewed
  · exact Decidable.byContradiction fun hnot => hacknowledge (acknowledge_of_stranger hnot)
  · exact Decidable.byContradiction fun hnot => hrelease (release_of_stranger hnot requeue)

/-- **One holder at a time.** Between two claims of a job it was released, its lapsed
    lease was reclaimed, or it was cancelled and published again. Only the token of its
    latest claim is listened to, and a call with any other leaves the queue as it is. -/
theorem history_fenced (calls : List TimedCall) (h : JobQueue.empty.Regular calls) (id : JobId) :
    (∀ before first between second later firstToken secondToken,
      calls = before ++ first :: (between ++ second :: later) →
      first.handsOut (JobQueue.empty.afterTimed before) = some (id, firstToken) →
      second.handsOut (JobQueue.empty.afterTimed (before ++ first :: between)) =
        some (id, secondToken) →
      ∃ earlier call rest, between = earlier ++ call :: rest ∧
        call.TakesBack (JobQueue.empty.afterTimed (before ++ first :: earlier)) id ∧
        (call.IsCancellation → ∃ publication ∈ rest, publication.Publishes id)) ∧
    (∀ token, (JobQueue.empty.afterTimed calls).Accepts id token →
      latestClaim id JobQueue.empty none calls = some token) ∧
    ∀ token, latestClaim id JobQueue.empty none calls ≠ some token →
      (∀ duration now, ((JobQueue.empty.afterTimed calls).renewAt id token duration now).self =
        JobQueue.empty.afterTimed calls) ∧
      (JobQueue.empty.afterTimed calls).acknowledge id token = JobQueue.empty.afterTimed calls ∧
      ∀ requeue, ((JobQueue.empty.afterTimed calls).release id token requeue).self =
        JobQueue.empty.afterTimed calls := by
  have hlatest : ∀ token, (JobQueue.empty.afterTimed calls).token? id = some token →
      latestClaim id JobQueue.empty none calls = some token := by
    intro token ht
    exact token_latest inv_empty h (fun _ habsent => nomatch habsent) ht
  refine ⟨?_, fun token haccepts => hlatest token haccepts.token_eq, fun token hother => ?_⟩
  · rintro before first between second later firstToken secondToken rfl hfirst hsecond
    obtain ⟨hbefore, hfirstRegular, hrest⟩ := Runs.along_append.mp h
    obtain ⟨hbetween, hsecondRegular, -⟩ := Runs.along_append.mp hrest
    have hinv := Regular.inv inv_empty hbefore
    have hinv' := hinv.apply_timed hfirstRegular.1 hfirstRegular.2
    have hout := (timed_handsOut_spec hinv hfirstRegular.1 hfirstRegular.2 hfirst).2.1
    rw [afterTimed, Runs.after_append, Runs.after_cons] at hsecond
    obtain ⟨⟨record, hrecord, hqueued⟩, -⟩ :=
      timed_handsOut_spec (Regular.inv hinv' hbetween) hsecondRegular.1 hsecondRegular.2 hsecond
    obtain ⟨earlier, call, rest, hsplit, hback, hpublished⟩ :=
      hout.taken_back hinv' hbetween hrecord hqueued
    refine ⟨earlier, call, rest, hsplit, ?_, hpublished⟩
    rw [afterTimed, Runs.after_append, Runs.after_cons]
    exact hback
  · have hstranger : (JobQueue.empty.afterTimed calls).token? id ≠ some token :=
      fun ht => hother (hlatest token ht)
    exact ⟨renew_of_stranger hstranger, acknowledge_of_stranger hstranger,
      release_of_stranger hstranger⟩

end JobQueue

namespace Sample

/-- A job is claimed, released and claimed again. -/
def heldTwice : List TimedCall :=
  claimedFor 1000 ++
    [.release ⟨7⟩ firstToken true, .claim ⟨9⟩ [.build] 1000 (utc 10 epoch_in_range) secondToken]

theorem heldTwice_regular : JobQueue.empty.Regular heldTwice := by
  have hpositive : (0 : Duration) < 1000 := by decide
  have hgrants : (utc 10 epoch_in_range).Grants 1000 := ⟨rfl, hpositive, by decide⟩
  exact ⟨⟨⟨rfl, fun _ hstored => nomatch hstored⟩, trivial⟩, ⟨hpositive, fun _ => hgrants⟩,
    ⟨trivial, trivial⟩, ⟨hpositive, fun _ => hgrants⟩, trivial⟩

/-- The copy that the first claim returned, with its lease. -/
def firstCopy : Job :=
  match (JobQueue.empty.afterTimed ((claimedFor 1000).take 1)).claimAt ⟨9⟩ [.build] 1000
      (utc 10 epoch_in_range) firstToken |>.result with
  | .ok (some (job, _)) => job
  | _ => stageJob 7 .build 2 build_needs_no_role count_two

/-- The job is given back by its second holder, and the first one publishes its copy. -/
def publishedLeased : List TimedCall :=
  heldTwice ++ [.release ⟨7⟩ secondToken true, .enqueue firstCopy]

end Sample

namespace JobQueue

/-- Released in between, and the second holder is the one listened to. -/
theorem history_fenced_sample :
    (∃ earlier call rest, [TimedCall.release ⟨7⟩ Sample.firstToken true] = earlier ++ call :: rest ∧
      call.TakesBack (JobQueue.empty.afterTimed (Sample.heldTwice.take 2 ++ earlier)) ⟨7⟩) ∧
    (JobQueue.empty.afterTimed Sample.heldTwice).acknowledge ⟨7⟩ Sample.firstToken =
      JobQueue.empty.afterTimed Sample.heldTwice := by
  have hfenced := history_fenced Sample.heldTwice Sample.heldTwice_regular ⟨7⟩
  constructor
  · obtain ⟨earlier, call, rest, hsplit, hback, -⟩ :=
      hfenced.1 (Sample.heldTwice.take 1)
        (.claim ⟨9⟩ [.build] 1000 (Sample.utc 10 Sample.epoch_in_range) Sample.firstToken)
        [.release ⟨7⟩ Sample.firstToken true]
        (.claim ⟨9⟩ [.build] 1000 (Sample.utc 10 Sample.epoch_in_range) Sample.secondToken) []
        Sample.firstToken Sample.secondToken rfl rfl rfl
    exact ⟨earlier, call, rest, hsplit, hback⟩
  · exact (hfenced.2.2 Sample.firstToken (by decide)).2.1

/-- The job is queued with the lease of the first claim, whose holder may acknowledge it,
    though the second claim is the latest. -/
theorem published_lease_accepted :
    latestClaim ⟨7⟩ JobQueue.empty none Sample.publishedLeased = some Sample.secondToken ∧
      Sample.firstToken ≠ Sample.secondToken ∧
      (JobQueue.empty.afterTimed Sample.publishedLeased).Accepts ⟨7⟩ Sample.firstToken := by
  refine ⟨by decide, by decide, .inr (.inl fun hsame => ?_)⟩
  have hacknowledged : (⟨7⟩ : JobId) ∈ ((JobQueue.empty.afterTimed Sample.publishedLeased).acknowledge
    ⟨7⟩ Sample.firstToken).acknowledged := by decide
  rw [hsame] at hacknowledged
  exact absurd hacknowledged (by decide)

end JobQueue

end AgenticPlatform
