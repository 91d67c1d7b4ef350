import AgenticPlatform.WorkerPool

/-!
# Draining a worker

A drained worker takes no more jobs. The status is part of the record that every use
case writes back whole, so the drain lasts as long as nobody writes a copy over it that
still takes jobs, and no heartbeat readmits the worker after it went OFFLINE.
-/

namespace AgenticPlatform

open Dict

/-- The registered worker, if there is one, takes no new jobs. -/
def WorkerRegistry.Declines (registry : WorkerRegistry) (id : WorkerId) : Prop :=
  ∀ worker, registry.lookup id = some worker → worker.status.acceptsNewJobs = false

/-- Every worker is registered under its own id. -/
def WorkerRegistry.Keyed (registry : WorkerRegistry) : Prop :=
  ∀ id worker, registry.lookup id = some worker → worker.id = id

namespace WorkerRegistry

variable {registry : WorkerRegistry} {id : WorkerId}

theorem Keyed.insert (h : registry.Keyed) {worker : Worker} (hid : worker.id = id) :
    WorkerRegistry.Keyed (registry.insert id worker) := by
  intro id' worker' hfound
  rw [lookup_insert_ite] at hfound
  split at hfound
  · rename_i heq
    cases hfound
    rw [hid, heq]
  · exact h id' worker' hfound

theorem Keyed.update (h : registry.Keyed) (worker : Worker) : (registry.update worker).Keyed := by
  unfold WorkerRegistry.update
  split
  · exact h.insert rfl
  · exact h

theorem Keyed.heartbeat (h : registry.Keyed) (workerId : WorkerId) (load : WorkerLoad)
    (reportedAt : Instant) : (registry.heartbeat workerId load reportedAt).1.Keyed := by
  unfold WorkerRegistry.heartbeat
  split
  · exact h
  · rename_i worker hfound
    apply h.insert
    show (worker.heartbeat reportedAt none (some load) none).id = workerId
    rw [Worker.heartbeat_id]
    exact h workerId worker hfound

theorem Keyed.reapStale (h : registry.Keyed) (now : Instant) (timeout : Duration) :
    (registry.reapStale now timeout).Keyed := by
  unfold WorkerRegistry.reapStale
  generalize registry.sorted = workers
  induction workers generalizing registry with
  | nil => exact h
  | cons stored rest ih =>
    apply ih
    unfold reapOne
    split
    · exact h
    · exact h.insert (Worker.markUnavailable_id _ _ _)

/-! ### What keeps a worker from taking jobs -/

theorem Declines.insert (h : registry.Declines id) {id' : WorkerId} {worker : Worker}
    (hworker : id' = id → worker.status.acceptsNewJobs = false) :
    WorkerRegistry.Declines (registry.insert id' worker) id := by
  intro stored hfound
  rw [lookup_insert_ite] at hfound
  split at hfound
  · rename_i heq
    cases hfound
    exact hworker heq.symm
  · exact h stored hfound

theorem Declines.update (h : registry.Declines id) {worker : Worker}
    (hworker : worker.id = id → worker.status.acceptsNewJobs = false) :
    (registry.update worker).Declines id := by
  unfold WorkerRegistry.update
  split
  · exact h.insert hworker
  · exact h

/-- Liveness is refreshed in place; a worker that went OFFLINE would be readmitted. -/
theorem Declines.heartbeat (h : registry.Declines id) {workerId : WorkerId} (load : WorkerLoad)
    (reportedAt : Instant)
    (hlive : workerId = id → ∀ worker, registry.lookup id = some worker → worker.status.isLive = true) :
    (registry.heartbeat workerId load reportedAt).1.Declines id := by
  unfold WorkerRegistry.heartbeat
  split
  · exact h
  · rename_i worker hfound
    apply h.insert
    rintro rfl
    exact Worker.heartbeat_declines worker reportedAt (some load) none (hlive rfl worker hfound)
      (h worker hfound)

/-- Going OFFLINE does not bring a worker back. -/
theorem Declines.reapStale (h : registry.Declines id) (now : Instant) (timeout : Duration) :
    (registry.reapStale now timeout).Declines id := by
  unfold WorkerRegistry.reapStale
  generalize registry.sorted = workers
  induction workers generalizing registry with
  | nil => exact h
  | cons stored rest ih =>
    apply ih
    unfold reapOne
    split
    · exact h
    · apply h.insert
      intro _
      show (stored.copy.markUnavailable now "heartbeat timeout").status.acceptsNewJobs = false
      rw [Worker.markUnavailable_status]
      rfl

/-- A worker that takes no jobs is not listed. -/
theorem Declines.not_listed (h : registry.Declines id) (hkeyed : registry.Keyed) :
    ∀ worker ∈ registry.listAvailable, worker.id ≠ id := by
  intro worker hlisted heq
  obtain ⟨id', stored, hfound, haccepts, -, hcopy⟩ := mem_listAvailable.mp hlisted
  have hid : stored.id = id := by
    rw [← heq, ← hcopy]
    rfl
  have hkey := hkeyed id' stored hfound
  rw [hid] at hkey
  subst hkey
  rw [h stored hfound] at haccepts
  cases haccepts

end WorkerRegistry

namespace Pool

variable {scheduler : WorkerScheduler} {pool : Pool scheduler} {id : WorkerId}

/-! ### What every move keeps -/

/-- Workers are registered under their ids, and a drain in progress carries a drained
    copy. -/
structure Ordered (pool : Pool scheduler) : Prop where
  keyed : pool.registry.Keyed
  draining : ∀ worker, PoolCall.draining worker ∈ pool.calls → worker.status = .draining

theorem ordered_empty : (empty scheduler).Ordered := by
  constructor
  · intro id worker hfound
    cases hfound
  · intro worker hcall
    cases hcall

/-- Starting a call that is not a drain. -/
theorem Ordered.begin (h : pool.Ordered) {next : Pool scheduler} {call : PoolCall}
    (hregistry : next.registry = pool.registry) (hcalls : next.calls = pool.calls ++ [call])
    (hdrained : ∀ worker, call = .draining worker → worker.status = .draining) : next.Ordered := by
  constructor
  · rw [hregistry]
    exact h.keyed
  · intro worker hmem
    rw [hcalls, List.mem_append, List.mem_singleton] at hmem
    rcases hmem with hold | hnew
    · exact h.draining worker hold
    · exact hdrained worker hnew.symm

theorem Ordered.resume (h : pool.Ordered) (index : Nat) : (pool.resume index).Ordered := by
  have hshorter : ∀ worker, PoolCall.draining worker ∈ pool.calls.eraseIdx index →
      worker.status = .draining := fun worker hmem =>
    h.draining worker (List.mem_of_mem_eraseIdx hmem)
  unfold Pool.resume
  split
  · exact h
  · exact ⟨h.keyed.update _, hshorter⟩
  · rename_i worker load reportedAt hcall
    refine ⟨h.keyed.heartbeat _ _ _, fun drained hmem => ?_⟩
    rcases List.mem_or_eq_of_mem_set hmem with hold | hnew
    · exact h.draining drained hold
    · cases hnew
  · exact ⟨h.keyed.update _, hshorter⟩
  · exact ⟨h.keyed.update _, hshorter⟩
  · exact ⟨h.keyed.insert rfl, hshorter⟩

theorem Ordered.step (h : pool.Ordered) (move : PoolMove) : (pool.step move).Ordered := by
  cases move with
  | tryAcquire requirements =>
    rcases pool.tryAcquire_cases requirements with ⟨hregistry, -, hsame | ⟨worker, chosen, -, -, -, hmore⟩⟩
    · refine ⟨?_, ?_⟩
      · show (pool.tryAcquire requirements).registry.Keyed
        rw [hregistry]
        exact h.keyed
      · show ∀ worker, PoolCall.draining worker ∈ (pool.tryAcquire requirements).calls → _
        rw [hsame]
        exact h.draining
    · exact h.begin hregistry hmore (fun _ heq => nomatch heq)
  | release index =>
    show (pool.release index).Ordered
    unfold Pool.release
    split
    · exact h
    · exact ⟨h.keyed.update _, h.draining⟩
  | heartbeat workerId load draining now =>
    show (pool.heartbeat workerId load draining now).Ordered
    unfold Pool.heartbeat
    split
    · exact h
    · exact h.begin rfl rfl (fun _ heq => nomatch heq)
  | drain workerId now =>
    show (pool.drain workerId now).Ordered
    unfold Pool.drain
    split
    · exact h
    · rename_i worker hfound
      dsimp only
      split
      · exact h
      · rename_i hdrained
        refine h.begin rfl rfl ?_
        intro drained heq
        cases heq
        exact Worker.startDraining_status worker now hdrained
  | register workerId endpoint capabilities now =>
    exact h.begin rfl rfl (fun _ heq => nomatch heq)
  | reapStale now timeout => exact ⟨h.keyed.reapStale now timeout, h.draining⟩
  | resume index => exact h.resume index

theorem ordered_after (moves : List PoolMove) : ((empty scheduler).after moves).Ordered := by
  suffices hrun : ∀ pool : Pool scheduler, pool.Ordered → (pool.after moves).Ordered from
    hrun _ ordered_empty
  induction moves with
  | nil => exact fun _ h => h
  | cons move rest ih => exact fun pool h => ih _ (h.step move)

/-! ### The drain -/

/-- The move registers the worker again. -/
def Registers (id : WorkerId) (pool : Pool scheduler) : PoolMove → Prop
  | .resume index => ∃ worker, pool.calls[index]? = some (.registering worker) ∧ worker.id = id
  | _ => False

/-- The move writes no copy of the worker back that takes jobs, and does not process a
    heartbeat of the worker while it is registered as OFFLINE or UNHEALTHY. -/
def KeepsDrain (id : WorkerId) (pool : Pool scheduler) : PoolMove → Prop
  | .release index => ∀ worker, pool.held[index]? = some worker → worker.id = id →
      worker.status.acceptsNewJobs = false
  | .resume index =>
      match pool.calls[index]? with
      | some (.reserving chosen) => chosen.id = id → chosen.status.acceptsNewJobs = false
      | some (.refreshed worker) => worker.id = id → worker.status.acceptsNewJobs = false
      | some (.reporting worker _ _) => worker.id = id →
          ∀ registered, pool.registry.lookup id = some registered → registered.status.isLive = true
      | _ => True
  | _ => True

/-- A drained worker stays drained over a resumed call. -/
theorem declines_resume (h : pool.registry.Declines id) (hordered : pool.Ordered) {index : Nat}
    (hkeeps : pool.KeepsDrain id (.resume index)) (hquiet : ¬ pool.Registers id (.resume index)) :
    (pool.resume index).registry.Declines id := by
  unfold Pool.resume
  split
  · exact h
  · rename_i chosen hcall
    simp only [KeepsDrain, hcall] at hkeeps
    exact h.update hkeeps
  · rename_i worker load reportedAt hcall
    simp only [KeepsDrain, hcall] at hkeeps
    exact h.heartbeat load reportedAt hkeeps
  · rename_i worker hcall
    simp only [KeepsDrain, hcall] at hkeeps
    exact h.update hkeeps
  · rename_i worker hcall
    apply h.update
    intro _
    rw [hordered.draining worker (List.mem_of_getElem? hcall)]
    rfl
  · rename_i worker hcall
    apply h.insert
    intro heq
    exact absurd ⟨worker, hcall, heq⟩ hquiet

theorem declines_step (h : pool.registry.Declines id) (hordered : pool.Ordered) {move : PoolMove}
    (hkeeps : pool.KeepsDrain id move) (hquiet : ¬ pool.Registers id move) :
    (pool.step move).registry.Declines id := by
  cases move with
  | tryAcquire requirements =>
    show (pool.tryAcquire requirements).registry.Declines id
    rw [(pool.tryAcquire_cases requirements).1]
    exact h
  | release index =>
    show (pool.release index).registry.Declines id
    unfold Pool.release
    split
    · exact h
    · rename_i worker hheld
      apply h.update
      rw [Worker.releaseSlot_id, Worker.releaseSlot_accepts]
      exact hkeeps worker hheld
  | heartbeat workerId load draining now =>
    show (pool.heartbeat workerId load draining now).registry.Declines id
    unfold Pool.heartbeat
    split <;> exact h
  | drain workerId now =>
    show (pool.drain workerId now).registry.Declines id
    unfold Pool.drain
    split
    · exact h
    · dsimp only
      split <;> exact h
  | register workerId endpoint capabilities now => exact h
  | reapStale now timeout => exact h.reapStale now timeout
  | resume index => exact declines_resume h hordered hkeeps hquiet

/-- Once its drain is written, the worker takes no jobs. -/
theorem declines_of_drain (hordered : pool.Ordered) {index : Nat} {worker : Worker}
    (hdrain : pool.calls[index]? = some (.draining worker)) :
    (pool.resume index).registry.Declines worker.id := by
  have hstatus := hordered.draining worker (List.mem_of_getElem? hdrain)
  unfold Pool.resume
  simp only [hdrain]
  intro registered hfound
  rw [WorkerRegistry.lookup_update] at hfound
  split at hfound
  · cases hfound
    show worker.status.acceptsNewJobs = false
    rw [hstatus]
    rfl
  · rename_i hnot
    exact absurd ⟨rfl, by rw [hfound]; rfl⟩ hnot

/-- **Draining is sticky.** After the drain of a worker was written, and as long as the
    worker does not register again, it is neither listed as available nor selected, in
    every run that writes no accepting copy of it back and readmits it by no heartbeat. -/
theorem drain_sticky (scheduler : WorkerScheduler) (before later : List PoolMove) (index : Nat)
    (worker : Worker)
    (hdrain : ((empty scheduler).after before).calls[index]? = some (.draining worker))
    (hquiet : (((empty scheduler).after before).step (.resume index)).Along
      (fun pool move => ¬ pool.Registers worker.id move) later)
    (hkeeps : (((empty scheduler).after before).step (.resume index)).Along
      (KeepsDrain worker.id) later) :
    let pool := (empty scheduler).after (before ++ .resume index :: later)
    (∀ available ∈ pool.registry.listAvailable, available.id ≠ worker.id) ∧
      ∀ requirements chosen,
        (scheduler.select pool.policy pool.registry.listAvailable requirements).2 = some chosen →
        chosen.id ≠ worker.id := by
  have hordered : ((empty scheduler).after before).Ordered := ordered_after before
  have hdrained : (((empty scheduler).after (before ++ .resume index :: later)).registry.Declines
      worker.id ∧ ((empty scheduler).after (before ++ .resume index :: later)).Ordered) := by
    unfold after
    rw [Runs.after_append, Runs.after_cons]
    apply (hkeeps.and hquiet).invariant (I := fun pool => pool.registry.Declines worker.id ∧ pool.Ordered)
    · exact ⟨declines_of_drain hordered hdrain, hordered.step _⟩
    · intro pool move h hmove
      exact ⟨declines_step h.1 h.2 hmove.1 hmove.2, h.2.step move⟩
  have hlisted := hdrained.1.not_listed hdrained.2.keyed
  refine ⟨hlisted, fun requirements chosen hselect => ?_⟩
  exact hlisted chosen (scheduler.selects hselect).1

end Pool

/-! ### A job that outlives the drain -/

namespace Sample

/-- The worker registers, a job takes it, and an operator starts to drain it. -/
def drainBegun : List PoolMove :=
  [.register ⟨4⟩ "http://gpu-1" gpu 0, .resume 0, .tryAcquire codingNeeds, .resume 0, .drain ⟨4⟩ 5]

/-- The copy the drain is about to write. -/
def drained : Worker where
  id := ⟨4⟩
  endpoint := "http://gpu-1"
  capabilities := gpu
  registeredAt := 0
  status := .draining
  load := ⟨1, 0⟩
  lastHeartbeatAt := 0
  events := [(5, .workerStatusChanged ⟨4⟩ .ready .draining), (5, .workerDraining ⟨4⟩ 1)]

end Sample

namespace Pool

/-- A heartbeat and a sweep leave the drained worker alone. -/
theorem drain_sticky_sample :
    let pool := (empty .leastLoaded).after (Sample.drainBegun ++ .resume 0 ::
      [.heartbeat ⟨4⟩ ⟨1, 0⟩ false 6, .resume 0, .resume 0])
    pool.registry.lookup ⟨4⟩ ≠ none ∧
      ∀ available ∈ pool.registry.listAvailable, available.id ≠ ⟨4⟩ := by
  refine ⟨by decide +kernel, (drain_sticky .leastLoaded Sample.drainBegun
    [.heartbeat ⟨4⟩ ⟨1, 0⟩ false 6, .resume 0, .resume 0] 0 Sample.drained rfl ?_ ?_).1⟩
  · refine ⟨id, ?_, ?_, trivial⟩
    · rintro ⟨worker, hcall, -⟩
      cases hcall
    · rintro ⟨worker, hcall, -⟩
      cases hcall
  · refine ⟨trivial, ?_, fun _ => rfl, trivial⟩
    intro _ registered hfound
    cases hfound
    rfl

/-- The job releases its slot: the copy it took before the drain makes the worker
    available again. -/
theorem release_undoes_drain :
    ((empty .leastLoaded).after Sample.drainBegun).calls[0]? = some (.draining Sample.drained) ∧
    ∃ available ∈ ((empty .leastLoaded).after
      (Sample.drainBegun ++ [.resume 0, .release 0])).registry.listAvailable, available.id = ⟨4⟩ :=
  ⟨rfl, _, List.mem_cons_self, rfl⟩

end Pool

end AgenticPlatform
