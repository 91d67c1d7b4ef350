import AgenticPlatform.Runs
import AgenticPlatform.Timestamps
import AgenticPlatform.WorkerPool

/-!
# What a worker's operations keep

READY and BUSY say whether a slot is free, and an operation ends in a state where they say
so, unless it is a heartbeat whose time has no zone: the status is assigned before the event
refuses the time, and the slots are asked after it. The load is the worker's own report
until the next heartbeat; between two reports it is counted by reservations and releases,
and a reservation needs a free slot.
-/

namespace AgenticPlatform

/-- An operation of a worker. -/
inductive WorkerOp where
  | heartbeat (now : CallTime) (status : Option WorkerStatus) (load : Option WorkerLoad)
      (capabilities : Option WorkerCapabilities)
  | startDraining (now : CallTime)
  | markUnavailable (now : CallTime) (reason : String)
  | markUnhealthy (now : CallTime) (reason : String)
  | deregister (now : CallTime) (graceful : Bool)
  | reserveSlot (requirements : JobRequirements)
  | releaseSlot

namespace Worker

/-! ### Events at the time of a call -/

/-- `record`: the event is built first, and refuses a time without a zone. -/
def recordAt (worker : Worker) (now : CallTime) (event : WorkerEvent) : Call Worker Unit :=
  if now.aware then .returned (worker.record now.instant event) ()
  else .raised worker zonelessEvent

/-- `_transition`: the status is assigned before the event is built. -/
def transitionAt (worker : Worker) (target : WorkerStatus) (now : CallTime) : Call Worker Unit :=
  if worker.status = target then .returned worker ()
  else { worker with status := target }.recordAt now
    (.workerStatusChanged worker.id worker.status target)

/-- A transition and the event after it. -/
def transitionThen (worker : Worker) (target : WorkerStatus) (now : CallTime)
    (event : WorkerEvent) : Call Worker Unit :=
  let moved := worker.transitionAt target now
  match moved.result with
  | .error e => .raised moved.self e
  | .ok _ => moved.self.recordAt now event

/-- What a heartbeat assigns before it looks at the status. -/
def reported (worker : Worker) (now : CallTime) (load : Option WorkerLoad)
    (capabilities : Option WorkerCapabilities) : Worker :=
  { worker with
    lastHeartbeatAt := now.instant
    capabilities := capabilities.getD worker.capabilities
    load := load.getD worker.load }

/-- The status a heartbeat takes the worker to, if to another one. -/
def heartbeatTarget (worker : Worker) (status : Option WorkerStatus) : Option WorkerStatus :=
  match status with
  | some target =>
      if target ≠ worker.status then some target
      else if !worker.status.isLive then some .ready
      else none
  | none => if !worker.status.isLive then some .ready else none

def heartbeatAt (worker : Worker) (now : CallTime) (status : Option WorkerStatus)
    (load : Option WorkerLoad) (capabilities : Option WorkerCapabilities) : Call Worker Unit :=
  let reported := worker.reported now load capabilities
  let admitted := match worker.heartbeatTarget status with
    | some target => reported.transitionAt target now
    | none => .returned reported ()
  match admitted.result with
  | .error e => .raised admitted.self e
  | .ok _ =>
      let synced := admitted.self.syncBusy
      synced.recordAt now (.workerHeartbeatReceived worker.id synced.status synced.load.activeJobs)

def startDrainingAt (worker : Worker) (now : CallTime) : Call Worker Unit :=
  if worker.status = .draining then .returned worker ()
  else if !worker.status.isLive then
    .raised worker (.invalidStateTransition "Worker" worker.status.value WorkerStatus.draining.value)
  else worker.transitionThen .draining now (.workerDraining worker.id worker.load.activeJobs)

def markUnavailableAt (worker : Worker) (now : CallTime) (reason : String) : Call Worker Unit :=
  if worker.status = .offline then .returned worker ()
  else worker.transitionThen .offline now (.workerUnavailable worker.id reason)

def markUnhealthyAt (worker : Worker) (now : CallTime) (reason : String) : Call Worker Unit :=
  if worker.status = .unhealthy then .returned worker ()
  else worker.transitionThen .unhealthy now (.workerUnavailable worker.id reason)

def deregisterAt (worker : Worker) (now : CallTime) (graceful : Bool) : Call Worker Unit :=
  if worker.status ≠ .offline then
    worker.transitionThen .offline now (.workerDeregistered worker.id graceful)
  else worker.recordAt now (.workerDeregistered worker.id graceful)

/-- The worker as an operation leaves it, whether or not the operation raises. -/
def step (worker : Worker) : WorkerOp → Worker
  | .heartbeat now status load capabilities => (worker.heartbeatAt now status load capabilities).self
  | .startDraining now => (worker.startDrainingAt now).self
  | .markUnavailable now reason => (worker.markUnavailableAt now reason).self
  | .markUnhealthy now reason => (worker.markUnhealthyAt now reason).self
  | .deregister now graceful => (worker.deregisterAt now graceful).self
  | .reserveSlot requirements => (worker.reserveSlot requirements).self
  | .releaseSlot => worker.releaseSlot

abbrev after : Worker → List WorkerOp → Worker := Runs.after step

abbrev Along : (Worker → WorkerOp → Prop) → Worker → List WorkerOp → Prop := Runs.Along step

variable {worker : Worker} {ops : List WorkerOp}

/-! ### READY and BUSY say whether a slot is free -/

/-- READY means a free slot, and BUSY means none. -/
structure Synced (worker : Worker) : Prop where
  ready : worker.status = .ready → 0 < worker.availableSlots
  busy : worker.status = .busy → worker.availableSlots = 0

theorem Synced.of_declining (h : worker.status.acceptsNewJobs = false) : worker.Synced := by
  constructor
  · intro hready
    rw [hready] at h
    exact absurd h (by decide)
  · intro hbusy
    rw [hbusy] at h
    exact absurd h (by decide)

/-- `_sync_busy` restores the relation, whatever was there before. -/
theorem synced_syncBusy (worker : Worker) : worker.syncBusy.Synced := by
  by_cases haccepts : worker.status.acceptsNewJobs = true
  · by_cases hslots : worker.availableSlots = 0
    · have hsame : worker.syncBusy.availableSlots = 0 := by simpa [availableSlots] using hslots
      refine ⟨fun hready => ?_, fun _ => hsame⟩
      simp [syncBusy, haccepts, hslots] at hready
    · have hsame : 0 < worker.syncBusy.availableSlots := by
        apply Nat.pos_of_ne_zero
        simpa [availableSlots] using hslots
      refine ⟨fun _ => hsame, fun hbusy => ?_⟩
      simp [syncBusy, haccepts, hslots] at hbusy
  · apply Synced.of_declining
    rw [syncBusy_accepts]
    simpa using haccepts

theorem Synced.record (h : worker.Synced) (now : Instant) (event : WorkerEvent) :
    (worker.record now event).Synced := ⟨h.ready, h.busy⟩

/-- At a time with a zone the calls are those of a worker that is told the instant. -/
theorem transitionAt_eq {now : CallTime} (h : now.aware = true) (target : WorkerStatus) :
    worker.transitionAt target now = .returned (worker.transition target now.instant) () := by
  unfold transitionAt transition
  by_cases hsame : worker.status = target
  · rw [if_pos hsame, if_pos hsame]
  · rw [if_neg hsame, if_neg hsame, recordAt, if_pos h]

theorem heartbeatAt_eq {now : CallTime} (h : now.aware = true) (status : Option WorkerStatus)
    (load : Option WorkerLoad) (capabilities : Option WorkerCapabilities) :
    worker.heartbeatAt now status load capabilities =
      .returned (worker.heartbeat now.instant status load capabilities) () := by
  unfold heartbeatAt heartbeatTarget heartbeat reported
  cases status with
  | none => by_cases hlive : worker.status.isLive <;> simp [hlive, transitionAt_eq h, recordAt, h]
  | some target =>
    by_cases hsame : target = worker.status
    · by_cases hlive : worker.status.isLive <;> simp [hsame, hlive, transitionAt_eq h, recordAt, h]
    · simp [hsame, transitionAt_eq h, recordAt, h]

theorem recordAt_parts (worker : Worker) (now : CallTime) (event : WorkerEvent) :
    (worker.recordAt now event).self =
      { worker with events := (worker.recordAt now event).self.events } := by
  unfold recordAt
  split <;> rfl

/-- A transition writes the status and the event buffer alone. -/
theorem transitionAt_parts (worker : Worker) (target : WorkerStatus) (now : CallTime) :
    (worker.transitionAt target now).self =
      { worker with status := target, events := (worker.transitionAt target now).self.events } := by
  unfold transitionAt
  split
  · rename_i hsame
    subst hsame
    rfl
  · rw [recordAt_parts]

theorem transitionThen_parts (worker : Worker) (target : WorkerStatus) (now : CallTime)
    (event : WorkerEvent) : (worker.transitionThen target now event).self =
      { worker with
        status := target
        events := (worker.transitionThen target now event).self.events } := by
  unfold transitionThen
  dsimp only
  split
  · exact transitionAt_parts worker target now
  · rw [recordAt_parts, transitionAt_parts]

/-- A transition raises at a time without a zone, unless there is nothing to change. -/
theorem transitionAt_result {target : WorkerStatus} {now : CallTime}
    (hne : worker.status ≠ target) (h : now.aware = false) :
    (worker.transitionAt target now).result = .error zonelessEvent := by
  simp [transitionAt, hne, recordAt, h]

theorem Synced.recordAt (h : worker.Synced) (now : CallTime) (event : WorkerEvent) :
    (worker.recordAt now event).self.Synced := by
  rw [recordAt_parts]
  exact ⟨h.ready, h.busy⟩

/-- Going to a status that takes no jobs. -/
theorem synced_transitionThen (worker : Worker) {target : WorkerStatus}
    (h : target.acceptsNewJobs = false) (now : CallTime) (event : WorkerEvent) :
    (worker.transitionThen target now event).self.Synced := by
  apply Synced.of_declining
  rw [transitionThen_parts]
  exact h

/-! ### A heartbeat whose time has no zone -/

/-- Where a heartbeat stops half way, its own report agrees with the status it takes the
    worker to. -/
def Heeds (worker : Worker) : WorkerOp → Prop
  | .heartbeat now status load capabilities =>
      now.aware = false → ∀ target ∈ worker.heartbeatTarget status,
        { worker.reported now load capabilities with status := target }.Synced
  | _ => True

theorem heartbeatTarget_ne {status : Option WorkerStatus} {target : WorkerStatus}
    (h : worker.heartbeatTarget status = some target) : worker.status ≠ target := by
  unfold heartbeatTarget at h
  cases status with
  | none =>
    by_cases hlive : worker.status.isLive = true
    · simp [hlive] at h
    · simp only [Bool.not_eq_true] at hlive
      simp only [hlive, Bool.not_false, if_true, Option.some.injEq] at h
      subst h
      rintro heq
      rw [heq] at hlive
      cases hlive
  | some reported =>
    by_cases hsame : reported = worker.status
    · subst hsame
      by_cases hlive : worker.status.isLive = true
      · simp [hlive] at h
      · simp only [Bool.not_eq_true] at hlive
        simp only [ne_eq, not_true_eq_false, if_false, hlive, Bool.not_false, if_true,
          Option.some.injEq] at h
        subst h
        rintro heq
        rw [heq] at hlive
        cases hlive
    · simp only [ne_eq, hsame, not_false_eq_true, if_true, Option.some.injEq] at h
      subst h
      exact fun heq => hsame heq.symm

/-- A heartbeat keeps the relation exactly if it is not stopped half way with a report that
    disagrees. -/
theorem heartbeat_synced_iff (now : CallTime) (status : Option WorkerStatus)
    (load : Option WorkerLoad) (capabilities : Option WorkerCapabilities) :
    (worker.heartbeatAt now status load capabilities).self.Synced ↔
      worker.Heeds (.heartbeat now status load capabilities) := by
  cases haware : now.aware with
  | true =>
    refine iff_of_true ?_ fun hnaive => ?_
    · rw [heartbeatAt_eq haware]
      exact (synced_syncBusy _).record now.instant _
    · rw [haware] at hnaive
      cases hnaive
  | false =>
    unfold heartbeatAt Heeds
    cases htarget : worker.heartbeatTarget status with
    | none =>
      simp only [Call.result_returned, Call.self_returned]
      exact iff_of_true ((synced_syncBusy _).recordAt now _) fun _ target hmem =>
        absurd (htarget.symm.trans hmem) (Option.some_ne_none target).symm
    | some target =>
      have hne : (worker.reported now load capabilities).status ≠ target := heartbeatTarget_ne htarget
      simp only [transitionAt_result hne haware, Call.self_raised]
      rw [transitionAt_parts]
      constructor
      · intro h _ other hother
        obtain rfl : target = other := Option.some.inj (htarget.symm.trans hother)
        exact ⟨h.ready, h.busy⟩
      · intro h
        have hsynced := h haware target htarget
        exact ⟨hsynced.ready, hsynced.busy⟩

/-- **An operation keeps the relation exactly if it heeds it.** -/
theorem step_synced_iff (h : worker.Synced) (op : WorkerOp) :
    (worker.step op).Synced ↔ worker.Heeds op := by
  cases op with
  | heartbeat now status load capabilities => exact heartbeat_synced_iff now status load capabilities
  | startDraining now =>
    refine iff_of_true ?_ trivial
    simp only [Worker.step, startDrainingAt]
    split
    · exact h
    · split
      · exact h
      · exact worker.synced_transitionThen rfl now _
  | markUnavailable now reason =>
    refine iff_of_true ?_ trivial
    simp only [Worker.step, markUnavailableAt]
    split
    · exact h
    · exact worker.synced_transitionThen rfl now _
  | markUnhealthy now reason =>
    refine iff_of_true ?_ trivial
    simp only [Worker.step, markUnhealthyAt]
    split
    · exact h
    · exact worker.synced_transitionThen rfl now _
  | deregister now graceful =>
    refine iff_of_true ?_ trivial
    simp only [Worker.step, deregisterAt]
    split
    · exact worker.synced_transitionThen rfl now _
    · exact h.recordAt now _
  | reserveSlot requirements =>
    refine iff_of_true ?_ trivial
    simp only [Worker.step, reserveSlot]
    split
    · exact h
    · exact synced_syncBusy _
  | releaseSlot => exact iff_of_true (synced_syncBusy _) trivial

theorem register_synced (workerId : WorkerId) (endpoint : String)
    (capabilities : WorkerCapabilities) (now : Instant) (metadata : Mapping) :
    (register workerId endpoint capabilities now metadata).Synced := by
  constructor
  · intro _
    exact capabilities.concurrency_pos
  · intro hbusy
    cases hbusy

/-! ### Eligibility is coded twice -/

/-- `can_accept` and `rejection_reason` go through the same checks. -/
theorem canAccept_iff (requirements : JobRequirements) :
    worker.canAccept requirements = true ↔ worker.rejectionReason requirements = none := by
  rw [canAccept, rejectionReason]
  split_ifs <;> simp_all

theorem reserveSlot_ok_iff (requirements : JobRequirements) :
    (worker.reserveSlot requirements).result = .ok () ↔
      worker.rejectionReason requirements = none := by
  rw [← canAccept_iff, reserveSlot]
  by_cases h : worker.canAccept requirements = true
  · simp [h]
  · simp [h]

/-! ### The load -/

/-- The load is within the ceiling the worker declared. -/
def Within (worker : Worker) : Prop :=
  worker.load.activeJobs ≤ worker.capabilities.maxConcurrency

/-- A heartbeat reports no more jobs than the worker takes from then on. -/
def ReportsWithin (worker : Worker) : WorkerOp → Prop
  | .heartbeat _ _ load capabilities =>
      (load.getD worker.load).activeJobs ≤ (capabilities.getD worker.capabilities).maxConcurrency
  | _ => True

/-- A transition writes the status and the event buffer alone. -/
theorem transition_eq (worker : Worker) (target : WorkerStatus) (now : Instant) :
    worker.transition target now =
      { worker with status := target, events := (worker.transition target now).events } := by
  rw [transition]
  split
  · rename_i hsame
    rw [← hsame]
  · rfl

theorem syncBusy_eq (worker : Worker) :
    worker.syncBusy = { worker with status := worker.syncBusy.status } := by
  rw [syncBusy]
  split <;> rfl

/-- Next to status and events a heartbeat writes what it reports and its time. -/
theorem heartbeat_eq (worker : Worker) (now : Instant) (status : Option WorkerStatus)
    (load : Option WorkerLoad) (capabilities : Option WorkerCapabilities) :
    worker.heartbeat now status load capabilities = { worker with
      lastHeartbeatAt := now
      load := load.getD worker.load
      capabilities := capabilities.getD worker.capabilities
      status := (worker.heartbeat now status load capabilities).status
      events := (worker.heartbeat now status load capabilities).events } := by
  unfold heartbeat record
  dsimp only
  rw [syncBusy_eq]
  split
  · split
    · rw [transition_eq]
    · split
      · rw [transition_eq]
      · rfl
  · split
    · rw [transition_eq]
    · rfl

/-- A reservation that is taken finds a free slot, whatever the load was before. -/
theorem within_reserved {requirements : JobRequirements}
    (h : worker.canAccept requirements = true) : (worker.reserveSlot requirements).self.Within := by
  obtain ⟨-, -, hcapabilities, hload, -⟩ := worker.reserveSlot_ok h
  rw [Within, hload, hcapabilities]
  exact (free_of_canAccept h).2

/-- Next to status and events a heartbeat writes what it reports and its time. -/
theorem heartbeatAt_parts (worker : Worker) (now : CallTime) (status : Option WorkerStatus)
    (load : Option WorkerLoad) (capabilities : Option WorkerCapabilities) :
    (worker.heartbeatAt now status load capabilities).self =
      { worker.reported now load capabilities with
        status := (worker.heartbeatAt now status load capabilities).self.status
        events := (worker.heartbeatAt now status load capabilities).self.events } := by
  unfold heartbeatAt
  cases worker.heartbeatTarget status with
  | none =>
    simp only [Call.result_returned, Call.self_returned]
    rw [recordAt_parts, syncBusy_eq]
  | some target =>
    simp only
    split
    · simp only [Call.self_raised]
      rw [transitionAt_parts]
    · rw [recordAt_parts, syncBusy_eq, transitionAt_parts]

theorem Within.step {op : WorkerOp} (h : worker.Within) (hreports : worker.ReportsWithin op) :
    (worker.step op).Within := by
  have htransition : ∀ target now event, (worker.transitionThen target now event).self.Within := by
    intro target now event
    rw [Within, transitionThen_parts]
    exact h
  cases op with
  | heartbeat now status load capabilities =>
    rw [Worker.step, Within, heartbeatAt_parts]
    exact hreports
  | startDraining now =>
    simp only [Worker.step, startDrainingAt]
    split
    · exact h
    · split
      · exact h
      · exact htransition _ now _
  | markUnavailable now reason =>
    simp only [Worker.step, markUnavailableAt]
    split
    · exact h
    · exact htransition _ now _
  | markUnhealthy now reason =>
    simp only [Worker.step, markUnhealthyAt]
    split
    · exact h
    · exact htransition _ now _
  | deregister now graceful =>
    simp only [Worker.step, deregisterAt]
    split
    · exact htransition _ now _
    · rw [Within, recordAt_parts]
      exact h
  | reserveSlot requirements =>
    by_cases haccepts : worker.canAccept requirements = true
    · exact within_reserved haccepts
    · rw [Worker.step, reserveSlot, if_pos (by simpa using haccepts)]
      exact h
  | releaseSlot =>
    rw [Worker.step, Within, releaseSlot_activeJobs, releaseSlot_capabilities]
    exact Nat.le_trans (Nat.sub_le _ _) h

/-- **The worker capacity invariant.** A registered worker is synced, and stays so through a
    run exactly if every heartbeat without a zone that stops half way reports what agrees
    with the status. After any operations a reservation is refused exactly when there is a
    reason to and otherwise ends within the ceiling, no operation but a heartbeat's own
    report takes a load within the ceiling above it, and a release counts one job less but
    never fewer than none. -/
theorem capacity_kept (workerId : WorkerId) (endpoint : String) (capabilities : WorkerCapabilities)
    (now : Instant) (metadata : Mapping) (ops : List WorkerOp) :
    let registered := register workerId endpoint capabilities now metadata
    let worker := registered.after ops
    registered.Synced ∧
      (registered.Along (fun worker op => (worker.step op).Synced) ops ↔ registered.Along Heeds ops) ∧
      (∀ requirements, (worker.reserveSlot requirements).result = .ok () ↔
        worker.rejectionReason requirements = none) ∧
      (∀ requirements, (worker.reserveSlot requirements).result = .ok () →
        (worker.reserveSlot requirements).self.Within) ∧
      (worker.Within → ∀ later, worker.Along ReportsWithin later → (worker.after later).Within) ∧
      (worker.releaseSlot.load.activeJobs : Int) = max (worker.load.activeJobs - 1) 0 := by
  intro registered worker
  have hsynced : registered.Synced := register_synced workerId endpoint capabilities now metadata
  refine ⟨hsynced, ?_, reserveSlot_ok_iff, ?_, ?_, ?_⟩
  · exact Runs.along_congr hsynced (fun _ _ _ h => h) fun _ op h => step_synced_iff h op
  · intro requirements hreserved
    exact within_reserved ((canAccept_iff requirements).mpr ((reserveSlot_ok_iff requirements).mp hreserved))
  · intro hwithin later hreports
    exact hreports.invariant hwithin fun _ _ h hreport => h.step hreport
  · rw [releaseSlot_activeJobs]
    omega

/-- A second job is refused by a worker that takes one at a time, and taken after the
    first gave its slot back. -/
example :
    let one := { Sample.gpu with maxConcurrency := 1, concurrency_pos := count_one }
    let busy := (register ⟨4⟩ "http://gpu-1" one 0).after [.reserveSlot Sample.codingNeeds]
    busy.status = .busy ∧ busy.rejectionReason Sample.codingNeeds = some "at capacity" ∧
      busy.releaseSlot.rejectionReason Sample.codingNeeds = none := by decide +kernel

end Worker

namespace Sample

theorem start_in_range : 0 ≤ (0 : Int) ∧ (0 : Int) ≤ maxWall := by decide

/-- A time without a zone. -/
def zoneless : CallTime := ⟨0, none, start_in_range⟩

/-- A worker that takes one job at a time has one, and reports READY. -/
def readyWhileFull : List WorkerOp :=
  [.reserveSlot codingNeeds, .heartbeat zoneless (some .ready) none none]

end Sample

namespace Worker

/-- The heartbeat raises, and leaves the worker READY without a free slot. -/
theorem ready_without_slot :
    let one := { Sample.gpu with maxConcurrency := 1, concurrency_pos := count_one }
    let worker := (register ⟨4⟩ "http://gpu-1" one 0).after Sample.readyWhileFull
    worker.status = .ready ∧ worker.availableSlots = 0 := by decide +kernel

end Worker

end AgenticPlatform
