import AgenticPlatform.Dict
import AgenticPlatform.Runs
import AgenticPlatform.Worker

/-!
# The worker pool under concurrent jobs

The in-memory registry hands out copies and takes copies back; each of its methods runs
under the registry's lock. A use case is a sequence of such calls with work on its own
copy in between, so the pool is a machine whose moves are single registry calls:
`PoolCall` is a use case that waits for its next one. What a job holds is the copy it
reserved a slot on, and a release writes that copy back.
-/

namespace AgenticPlatform

open Dict

/-! ### The registry -/

/-- `InMemoryWorkerRegistry._workers`. -/
abbrev WorkerRegistry := Dict WorkerId Worker

namespace WorkerRegistry

/-- `_sorted`: by the text of the id. -/
def sorted (registry : WorkerRegistry) : List Worker :=
  (registry.entries.insertionSort fun left right => ¬ right.1.chars < left.1.chars).map
    fun entry => entry.2

def register (registry : WorkerRegistry) (worker : Worker) : WorkerRegistry :=
  registry.insert worker.id worker.copy

/-- Refresh liveness in place; `false` if the worker is no longer registered. -/
def heartbeat (registry : WorkerRegistry) (workerId : WorkerId) (load : WorkerLoad) (reportedAt : Instant) :
    WorkerRegistry × Bool :=
  match registry.lookup workerId with
  | none => (registry, false)
  | some worker =>
      (registry.insert workerId (worker.heartbeat reportedAt none (some load) none).copy, true)

def get (registry : WorkerRegistry) (workerId : WorkerId) : Option Worker :=
  (registry.lookup workerId).map Worker.copy

/-- Workers that may receive new jobs right now. -/
def listAvailable (registry : WorkerRegistry) : List Worker :=
  (registry.sorted.filter fun worker =>
    worker.status.acceptsNewJobs && decide (0 < worker.availableSlots)).map Worker.copy

/-- Persist a state change made on a copy; never resurrects a deregistered worker. -/
def update (registry : WorkerRegistry) (worker : Worker) : WorkerRegistry :=
  if worker.id ∈ registry then registry.insert worker.id worker.copy else registry

/-- One turn of the loop of `reap_stale`. -/
def reapOne (now : Instant) (timeout : Duration) (registry : WorkerRegistry) (stored : Worker) :
    WorkerRegistry :=
  if !stored.status.isLive || !stored.isStale now timeout then registry
  else registry.insert stored.id (stored.copy.markUnavailable now "heartbeat timeout").copy

/-- Mark silent workers unavailable. -/
def reapStale (registry : WorkerRegistry) (now : Instant) (timeout : Duration) : WorkerRegistry :=
  registry.sorted.foldl (reapOne now timeout) registry

theorem mem_sorted {registry : WorkerRegistry} {worker : Worker} :
    worker ∈ registry.sorted ↔ ∃ id, registry.lookup id = some worker := by
  unfold sorted
  simp only [List.mem_map, List.mem_insertionSort]
  constructor
  · rintro ⟨⟨id, found⟩, hmem, rfl⟩
    exact ⟨id, AList.mem_lookup_iff.mpr hmem⟩
  · rintro ⟨id, hfound⟩
    exact ⟨⟨id, worker⟩, AList.mem_lookup_iff.mp hfound, rfl⟩

theorem mem_listAvailable {registry : WorkerRegistry} {worker : Worker} :
    worker ∈ registry.listAvailable ↔ ∃ id stored, registry.lookup id = some stored ∧
      stored.status.acceptsNewJobs = true ∧ 0 < stored.availableSlots ∧ stored.copy = worker := by
  unfold listAvailable
  simp only [List.mem_map, List.mem_filter, Bool.and_eq_true, decide_eq_true_eq, mem_sorted]
  constructor
  · rintro ⟨stored, ⟨⟨id, hfound⟩, haccepts, hslots⟩, rfl⟩
    exact ⟨id, stored, hfound, haccepts, hslots, rfl⟩
  · rintro ⟨id, stored, hfound, haccepts, hslots, rfl⟩
    exact ⟨stored, ⟨⟨id, hfound⟩, haccepts, hslots⟩, rfl⟩

theorem lookup_update {registry : WorkerRegistry} {worker : Worker} {id : WorkerId} :
    (registry.update worker).lookup id =
      if id = worker.id ∧ (registry.lookup id).isSome then some worker.copy else registry.lookup id := by
  unfold update
  by_cases hmem : worker.id ∈ registry
  · rw [if_pos hmem, lookup_insert_ite]
    by_cases hid : id = worker.id
    · subst hid
      rw [if_pos rfl, if_pos ⟨rfl, AList.lookup_isSome.mpr hmem⟩]
    · rw [if_neg hid, if_neg (fun h => hid h.1)]
  · rw [if_neg hmem, if_neg]
    rintro ⟨rfl, hsome⟩
    exact hmem (AList.lookup_isSome.mp hsome)

end WorkerRegistry

/-! ### Use cases between two registry calls -/

/-- A use case that waits for its next registry call. -/
inductive PoolCall where
  | reserving (chosen : Worker)
  | reporting (worker : Worker) (load : WorkerLoad) (reportedAt : Instant)
  | refreshed (worker : Worker)
  | draining (worker : Worker)
  | registering (worker : Worker)

structure Pool (scheduler : WorkerScheduler) where
  registry : WorkerRegistry
  policy : scheduler.State
  calls : List PoolCall
  held : List Worker

/-- One registry call, with the work on the caller's own copy that follows it. -/
inductive PoolMove where
  | tryAcquire (requirements : JobRequirements)
  | release (index : Nat)
  | heartbeat (workerId : WorkerId) (load : WorkerLoad) (draining : Bool) (now : Instant)
  | drain (workerId : WorkerId) (now : Instant)
  | register (workerId : WorkerId) (endpoint : String) (capabilities : WorkerCapabilities)
      (now : Instant)
  | reapStale (now : Instant) (timeout : Duration)
  | resume (index : Nat)

/-- The move is one of a job that takes a worker or gives it back. -/
def PoolMove.IsOccupancy : PoolMove → Prop
  | .tryAcquire _ | .release _ | .resume _ => True
  | _ => False

namespace Pool

variable {scheduler : WorkerScheduler}

def empty (scheduler : WorkerScheduler) : Pool scheduler := ⟨∅, scheduler.initial, [], []⟩

/-- `list_available`, the choice, and the reservation on the copy that was chosen. -/
def tryAcquire (pool : Pool scheduler) (requirements : JobRequirements) : Pool scheduler :=
  let (policy, chosen) := scheduler.select pool.policy pool.registry.listAvailable requirements
  match chosen with
  | none => { pool with policy := policy }
  | some worker =>
      let call := worker.reserveSlot requirements
      match call.result with
      | .error _ => { pool with policy := policy }
      | .ok () => { pool with policy := policy, calls := pool.calls ++ [.reserving call.self] }

/-- `release`: the slot is given back on the copy of the acquisition, and that copy
    is written over the registered worker. -/
def release (pool : Pool scheduler) (index : Nat) : Pool scheduler :=
  match pool.held[index]? with
  | none => pool
  | some worker =>
      { pool with
        registry := pool.registry.update worker.releaseSlot
        held := pool.held.eraseIdx index }

/-- The first call of `HeartbeatUseCase`. -/
def heartbeat (pool : Pool scheduler) (workerId : WorkerId) (load : WorkerLoad) (draining : Bool)
    (now : Instant) : Pool scheduler :=
  match pool.registry.get workerId with
  | none => pool
  | some worker =>
      let reported := worker.heartbeat now (if draining then some .draining else none) (some load) none
      { pool with calls := pool.calls ++ [.reporting reported load now] }

/-- The first call of `DrainWorkerUseCase`. -/
def drain (pool : Pool scheduler) (workerId : WorkerId) (now : Instant) : Pool scheduler :=
  match pool.registry.get workerId with
  | none => pool
  | some worker =>
      let call := worker.startDraining now
      match call.result with
      | .error _ => pool
      | .ok () => { pool with calls := pool.calls ++ [.draining call.self] }

/-- The first call of `RegisterWorkerUseCase`; an unknown worker is built anew. -/
def register (pool : Pool scheduler) (workerId : WorkerId) (endpoint : String)
    (capabilities : WorkerCapabilities) (now : Instant) : Pool scheduler :=
  let worker := match pool.registry.get workerId with
    | some existing => existing.heartbeat now (some .ready) none (some capabilities)
    | none => Worker.register workerId endpoint capabilities now
  { pool with calls := pool.calls ++ [.registering worker] }

/-- The next registry call of a waiting use case. -/
def resume (pool : Pool scheduler) (index : Nat) : Pool scheduler :=
  match pool.calls[index]? with
  | none => pool
  | some (.reserving chosen) =>
      { pool with
        registry := pool.registry.update chosen
        calls := pool.calls.eraseIdx index
        held := pool.held ++ [chosen] }
  | some (.reporting worker load reportedAt) =>
      { pool with
        registry := (pool.registry.heartbeat worker.id load reportedAt).1
        calls := pool.calls.set index (.refreshed worker) }
  | some (.refreshed worker) =>
      { pool with
        registry := pool.registry.update worker
        calls := pool.calls.eraseIdx index }
  | some (.draining worker) =>
      { pool with
        registry := pool.registry.update worker
        calls := pool.calls.eraseIdx index }
  | some (.registering worker) =>
      { pool with
        registry := pool.registry.register worker
        calls := pool.calls.eraseIdx index }

def step (pool : Pool scheduler) : PoolMove → Pool scheduler
  | .tryAcquire requirements => pool.tryAcquire requirements
  | .release index => pool.release index
  | .heartbeat workerId load draining now => pool.heartbeat workerId load draining now
  | .drain workerId now => pool.drain workerId now
  | .register workerId endpoint capabilities now => pool.register workerId endpoint capabilities now
  | .reapStale now timeout => { pool with registry := pool.registry.reapStale now timeout }
  | .resume index => pool.resume index

/-- The pool a run leads to. -/
abbrev after (pool : Pool scheduler) (moves : List PoolMove) : Pool scheduler :=
  Runs.after step pool moves

/-- Every move of the run satisfies `P` where it is made. -/
abbrev Along (P : Pool scheduler → PoolMove → Prop) (pool : Pool scheduler)
    (moves : List PoolMove) : Prop := Runs.Along step P pool moves

/-- What `try_acquire` does: nothing, or it reserves a slot on a copy of an available
    worker. -/
theorem tryAcquire_cases (pool : Pool scheduler) (requirements : JobRequirements) :
    (pool.tryAcquire requirements).registry = pool.registry ∧
    (pool.tryAcquire requirements).held = pool.held ∧
    ((pool.tryAcquire requirements).calls = pool.calls ∨
      ∃ worker chosen, worker ∈ pool.registry.listAvailable ∧
        worker.canAccept requirements = true ∧
        chosen = (worker.reserveSlot requirements).self ∧
        (pool.tryAcquire requirements).calls = pool.calls ++ [.reserving chosen]) := by
  unfold tryAcquire
  cases hselect : (scheduler.select pool.policy pool.registry.listAvailable requirements).2 with
  | none =>
    simp only [hselect, true_and]
    exact .inl trivial
  | some worker =>
    obtain ⟨hmem, haccept⟩ := scheduler.selects hselect
    have hreserved := (Worker.reserveSlot_ok worker haccept).1
    simp only [hselect, hreserved, true_and]
    exact .inr ⟨worker, _, hmem, haccept, rfl, rfl⟩

/-! ### Occupancy -/

/-- How many acquisitions of the worker were not released yet. -/
def acquisitions (pool : Pool scheduler) (id : WorkerId) : Nat :=
  pool.held.countP fun worker => decide (worker.id = id)

/-- A worker as it registers itself. -/
structure Registration where
  workerId : WorkerId
  endpoint : String
  capabilities : WorkerCapabilities
  now : Instant

/-- A pool of freshly registered workers. -/
def opened (scheduler : WorkerScheduler) (registrations : List Registration) : Pool scheduler where
  registry := registrations.foldl (fun registry r =>
    registry.register (Worker.register r.workerId r.endpoint r.capabilities r.now)) ∅
  policy := scheduler.initial
  calls := []
  held := []

/-- A copy is written back only while the registered worker still counts the jobs that
    the copy counted before its own slot was taken or given back. -/
def CopyCurrent (pool : Pool scheduler) : PoolMove → Prop
  | .resume index => ∀ chosen registered, pool.calls[index]? = some (.reserving chosen) →
      pool.registry.lookup chosen.id = some registered →
      registered.load.activeJobs + 1 = chosen.load.activeJobs
  | .release index => ∀ worker registered, pool.held[index]? = some worker →
      pool.registry.lookup worker.id = some registered →
      registered.load.activeJobs = worker.load.activeJobs
  | _ => True

/-- Every copy and every registered worker is within its limit, and the registered
    worker counts the acquisitions that were not released. -/
structure Exact (pool : Pool scheduler) : Prop where
  counted : ∀ id worker, pool.registry.lookup id = some worker →
    worker.load.activeJobs = pool.acquisitions id ∧
      worker.load.activeJobs ≤ worker.capabilities.maxConcurrency
  reserving : ∀ call ∈ pool.calls, ∃ chosen, call = .reserving chosen ∧
    chosen.load.activeJobs ≤ chosen.capabilities.maxConcurrency
  held : ∀ worker ∈ pool.held, worker.load.activeJobs ≤ worker.capabilities.maxConcurrency

theorem opened_exact (registrations : List Registration) : (opened scheduler registrations).Exact := by
  constructor
  · suffices hidle : ∀ registry : WorkerRegistry,
        (∀ id worker, registry.lookup id = some worker → worker.load.activeJobs = 0) →
        ∀ id worker, (registrations.foldl (fun registry r =>
          registry.register (Worker.register r.workerId r.endpoint r.capabilities r.now))
          registry).lookup id = some worker → worker.load.activeJobs = 0 by
      intro id worker hfound
      have hzero := hidle ∅ (by simp) id worker hfound
      rw [hzero]
      exact ⟨rfl, Nat.zero_le _⟩
    induction registrations with
    | nil =>
      intro registry hidle
      exact hidle
    | cons r rest ih =>
      intro registry hidle
      apply ih
      intro id worker hfound
      simp only [WorkerRegistry.register, lookup_insert_ite] at hfound
      split at hfound
      · cases hfound
        rfl
      · exact hidle id worker hfound
  · intro call hcall
    cases hcall
  · intro worker hworker
    cases hworker

theorem Exact.tryAcquire {pool : Pool scheduler} (h : pool.Exact) (requirements : JobRequirements) :
    (pool.tryAcquire requirements).Exact := by
  obtain ⟨hregistry, hheld, hcalls⟩ := pool.tryAcquire_cases requirements
  constructor
  · unfold acquisitions
    rw [hregistry, hheld]
    exact h.counted
  · intro call hcall
    rcases hcalls with hsame | ⟨worker, chosen, hmem, haccept, hchosen, hmore⟩
    · rw [hsame] at hcall
      exact h.reserving call hcall
    · rw [hmore, List.mem_append, List.mem_singleton] at hcall
      rcases hcall with hold | hnew
      · exact h.reserving call hold
      · refine ⟨chosen, hnew, ?_⟩
        obtain ⟨-, -, hcapabilities, hjobs, -⟩ := Worker.reserveSlot_ok worker haccept
        have hfree := (Worker.free_of_canAccept haccept).2
        rw [hchosen, hcapabilities, hjobs]
        exact hfree
  · rw [hheld]
    exact h.held

/-- A job is counted from the moment its reservation is written. -/
theorem Exact.reserve {pool : Pool scheduler} (h : pool.Exact) {index : Nat} {chosen : Worker}
    (hcall : pool.calls[index]? = some (.reserving chosen))
    (hcurrent : pool.CopyCurrent (.resume index)) : (pool.resume index).Exact := by
  obtain ⟨chosen', heq, hlimit⟩ := h.reserving _ (List.mem_of_getElem? hcall)
  cases heq
  unfold resume
  simp only [hcall]
  constructor
  · intro id worker hfound
    simp only [WorkerRegistry.lookup_update] at hfound
    simp only [acquisitions, List.countP_append]
    split at hfound
    · rename_i hwritten
      obtain ⟨rfl, hsome⟩ := hwritten
      obtain ⟨registered, hregistered⟩ := Option.isSome_iff_exists.mp hsome
      cases hfound
      have hcount := (h.counted chosen.id registered hregistered).1
      have hjobs := hcurrent chosen registered hcall hregistered
      refine ⟨?_, hlimit⟩
      show chosen.load.activeJobs = _
      rw [← hjobs, hcount]
      simp [acquisitions]
    · rename_i hother
      have hne : ¬ chosen.id = id := by
        rintro rfl
        exact hother ⟨rfl, by rw [hfound]; rfl⟩
      simpa [hne, acquisitions] using h.counted id worker hfound
  · intro call hmem
    exact h.reserving call (List.mem_of_mem_eraseIdx hmem)
  · intro worker hmem
    rcases List.mem_append.mp hmem with hold | hnew
    · exact h.held worker hold
    · rw [List.mem_singleton.mp hnew]
      exact hlimit

theorem Exact.resume {pool : Pool scheduler} (h : pool.Exact) (index : Nat)
    (hcurrent : pool.CopyCurrent (.resume index)) : (pool.resume index).Exact := by
  cases hcall : pool.calls[index]? with
  | none =>
    unfold Pool.resume
    simp only [hcall]
    exact h
  | some call =>
    obtain ⟨chosen, rfl, -⟩ := h.reserving call (List.mem_of_getElem? hcall)
    exact h.reserve hcall hcurrent

theorem countP_eraseIdx {α : Type} (p : α → Bool) {l : List α} {index : Nat} {a : α}
    (h : l[index]? = some a) : l.countP p = (l.eraseIdx index).countP p + if p a then 1 else 0 := by
  induction l generalizing index with
  | nil => simp at h
  | cons b rest ih =>
    cases index with
    | zero =>
      cases h
      simp [List.countP_cons]
    | succ index =>
      simp only [List.getElem?_cons_succ] at h
      simp only [List.eraseIdx_cons_succ, List.countP_cons]
      rw [ih h]
      omega

/-- A job is no longer counted once its release is written. -/
theorem Exact.release {pool : Pool scheduler} (h : pool.Exact) (index : Nat)
    (hcurrent : pool.CopyCurrent (.release index)) : (pool.release index).Exact := by
  unfold Pool.release
  cases hheld : pool.held[index]? with
  | none => exact h
  | some holder =>
    have hlimit := h.held holder (List.mem_of_getElem? hheld)
    constructor
    · intro id worker hfound
      simp only [WorkerRegistry.lookup_update, Worker.releaseSlot_id] at hfound
      have hcount := countP_eraseIdx (fun worker : Worker => decide (worker.id = id)) hheld
      simp only [acquisitions]
      split at hfound
      · rename_i hwritten
        obtain ⟨rfl, hsome⟩ := hwritten
        obtain ⟨registered, hregistered⟩ := Option.isSome_iff_exists.mp hsome
        cases hfound
        have hexact := (h.counted holder.id registered hregistered).1
        have hjobs := hcurrent holder registered hheld hregistered
        simp only [decide_true, if_true] at hcount
        simp only [acquisitions] at hexact
        simp only [Worker.copy, Worker.releaseSlot_activeJobs, Worker.releaseSlot_capabilities]
        omega
      · rename_i hother
        have hne : ¬ holder.id = id := by
          rintro rfl
          exact hother ⟨rfl, by rw [hfound]; rfl⟩
        have hexact := h.counted id worker hfound
        simp only [hne, decide_false, Bool.false_eq_true, if_false, Nat.add_zero] at hcount
        rw [← hcount]
        exact hexact
    · exact h.reserving
    · intro worker hmem
      exact h.held worker (List.mem_of_mem_eraseIdx hmem)

theorem Exact.step {pool : Pool scheduler} (h : pool.Exact) {move : PoolMove}
    (hmove : move.IsOccupancy) (hcurrent : pool.CopyCurrent move) : (pool.step move).Exact := by
  cases move with
  | tryAcquire requirements => exact h.tryAcquire requirements
  | release index => exact h.release index hcurrent
  | resume index => exact h.resume index hcurrent
  | heartbeat workerId load draining now => cases hmove
  | drain workerId now => cases hmove
  | register workerId endpoint capabilities now => cases hmove
  | reapStale now timeout => cases hmove

end Pool

/-! ### Two jobs on one worker -/

namespace Sample

def gpu : WorkerCapabilities where
  modelId := "qwen"
  contextLength := 1000
  maxConcurrency := 2
  supportedRoles := {.planner, .coder, .reviewer}
  supportsTools := true
  supportsJsonSchema := true
  model_given := model_named
  context_pos := by decide
  concurrency_pos := count_two
  roles_given := by decide

def codingNeeds : JobRequirements := ⟨.coder, none, 10, false, true⟩

def onePool : Pool .leastLoaded := .opened .leastLoaded [⟨⟨4⟩, "http://gpu-1", gpu, 0⟩]

/-- Two jobs take the worker, one after the other. -/
def twoAcquired : List PoolMove :=
  [.tryAcquire codingNeeds, .resume 0, .tryAcquire codingNeeds, .resume 0]

end Sample

namespace Pool

end Pool

end AgenticPlatform
