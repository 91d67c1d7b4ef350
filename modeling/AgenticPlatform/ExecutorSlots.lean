import AgenticPlatform.Runs
import Mathlib.Data.List.Basic

/-!
# The slots of the executor

`JobExecutor` takes a permit of its semaphore before it claims a job, and gives it back when the
claim finds nothing or raises, or when the job has been executed, in the caller itself or in a
task of its own. The calls of `run_once` and `run_forever`, the spawned tasks and whoever
cancels them interleave in any order. A permit is lost where a claim ends in something that is no
`Exception`, such as a cancellation, and where a task is cancelled before it starts.
-/

namespace AgenticPlatform

/-- Where a call of `run_once` or `run_forever` is. -/
inductive CallerPhase where
  | looping
  | waiting
  | granted
  | claiming
  | executing
  | backingOff
  | ended
deriving DecidableEq

/-- A permit belongs to the call: it was granted one, or has one while it claims or executes. -/
def CallerPhase.holds : CallerPhase → Bool
  | .granted | .claiming | .executing => true
  | _ => false

structure Caller where
  forever : Bool
  phase : CallerPhase

/-- Where a spawned task is; its permit is the one that its caller took. -/
inductive SpawnedPhase where
  | scheduled
  | executing
  | finished
deriving DecidableEq

def SpawnedPhase.holds : SpawnedPhase → Bool
  | .finished => false
  | _ => true

/-- How `claim_one` ends. What it raises may be an `Exception` or not. -/
inductive ClaimOutcome where
  | nothing
  | job
  | raised (isException : Bool)

/-- The semaphore, the calls and the spawned tasks. `waiters` are the places of the calls in the
    semaphore's queue. -/
structure ExecutorSlots where
  free : Nat
  waiters : List Nat
  stopping : Bool
  callers : List Caller
  tasks : List SpawnedPhase

/-- An execution that raises ends like one that succeeds. -/
inductive SlotMove where
  | call (forever : Bool)
  | resume (place : Nat)
  | claim (place : Nat) (outcome : ClaimOutcome)
  | wake (place : Nat)
  | finish (place : Nat)
  | cancel (place : Nat)
  | start (task : Nat)
  | finishTask (task : Nat)
  | cancelTask (task : Nat)
  | stop

namespace ExecutorSlots

/-! ### The semaphore -/

def setPhase (world : ExecutorSlots) (place : Nat) (phase : CallerPhase) : ExecutorSlots :=
  { world with callers := world.callers.modify place fun caller => { caller with phase } }

/-- The future of a waiter is not done. -/
def isWaiting (world : ExecutorSlots) (place : Nat) : Bool :=
  (world.callers[place]?).any fun caller => caller.phase = .waiting

/-- `_wake_up_next`. -/
def wakeUpNext (world : ExecutorSlots) : Option ExecutorSlots :=
  (world.waiters.find? world.isWaiting).map fun place =>
    { world.setPhase place .granted with free := world.free - 1 }

/-- `release`. -/
def release (world : ExecutorSlots) : ExecutorSlots :=
  let released := { world with free := world.free + 1 }
  released.wakeUpNext.getD released

/-- The loop at the end of `acquire`: as many are woken up as there are permits. -/
def wakeUpAll (world : ExecutorSlots) : (permits : Nat) → ExecutorSlots
  | 0 => world
  | permits + 1 =>
    if world.free = 0 then world
    else
      match world.wakeUpNext with
      | none => world
      | some next => next.wakeUpAll permits

/-- `acquire`, up to its first await. -/
def acquire (world : ExecutorSlots) (place : Nat) : ExecutorSlots :=
  if world.free = 0 ∨ world.waiters ≠ [] then
    { world.setPhase place .waiting with waiters := world.waiters ++ [place] }
  else { world.setPhase place .claiming with free := world.free - 1 }

/-- The waiter leaves the queue, and others may have had to wait for it. -/
def leaveQueue (world : ExecutorSlots) (place : Nat) : ExecutorSlots :=
  let left : ExecutorSlots := { world with waiters := world.waiters.erase place }
  left.wakeUpAll world.free

/-! ### Calls -/

/-- The condition of the loop of `run_forever`. -/
def loop (world : ExecutorSlots) (place : Nat) : ExecutorSlots :=
  if world.stopping then world.setPhase place .ended else world.acquire place

/-- A call of `run_once` or of `run_forever`, which clears the stop first. -/
def call (world : ExecutorSlots) (forever : Bool) : ExecutorSlots :=
  let called : ExecutorSlots := { world with
    stopping := if forever then false else world.stopping
    callers := world.callers ++ [⟨forever, .looping⟩] }
  called.acquire world.callers.length

/-- `_spawn`: the job gets a task of its own, and its caller goes on. -/
def spawn (world : ExecutorSlots) (place : Nat) : ExecutorSlots :=
  { world.setPhase place .looping with tasks := world.tasks ++ [.scheduled] }

/-- What `claim_one` comes to. -/
def claimed (world : ExecutorSlots) (place : Nat) (caller : Caller) : ClaimOutcome → ExecutorSlots
  | .nothing | .raised true =>
    (world.setPhase place (if caller.forever then .backingOff else .ended)).release
  | .raised false => world.setPhase place .ended
  | .job =>
    if caller.forever then (world.spawn place).loop place
    else world.setPhase place .executing

/-- A cancellation, where the call is waiting for something. -/
def cancelled (world : ExecutorSlots) (place : Nat) (caller : Caller) : ExecutorSlots :=
  match caller.phase with
  | .waiting => (world.setPhase place .ended).leaveQueue place
  | .granted =>
    let returned : ExecutorSlots := { world.setPhase place .ended with free := world.free + 1 }
    returned.leaveQueue place
  | .claiming => world.claimed place caller (.raised false)
  | .executing => (world.setPhase place .ended).release
  | .backingOff => world.setPhase place .ended
  | _ => world

def endTask (world : ExecutorSlots) (task : Nat) : ExecutorSlots :=
  { world with tasks := world.tasks.set task .finished }

def step (world : ExecutorSlots) : SlotMove → ExecutorSlots
  | .call forever => world.call forever
  | .resume place =>
    match world.callers[place]? with
    | none => world
    | some caller =>
      if caller.phase = .granted then (world.setPhase place .claiming).leaveQueue place else world
  | .claim place outcome =>
    match world.callers[place]? with
    | none => world
    | some caller => if caller.phase = .claiming then world.claimed place caller outcome else world
  | .wake place =>
    match world.callers[place]? with
    | none => world
    | some caller => if caller.phase = .backingOff then world.loop place else world
  | .finish place =>
    match world.callers[place]? with
    | none => world
    | some caller =>
      if caller.phase = .executing then (world.setPhase place .ended).release else world
  | .cancel place =>
    match world.callers[place]? with
    | none => world
    | some caller => world.cancelled place caller
  | .start task =>
    if world.tasks[task]? = some .scheduled then
      { world with tasks := world.tasks.set task .executing }
    else world
  | .finishTask task =>
    if world.tasks[task]? = some .executing then
      (world.endTask task).release
    else world
  | .cancelTask task =>
    if world.tasks[task]? = some .scheduled then
      world.endTask task
    else if world.tasks[task]? = some .executing then (world.endTask task).release
    else world
  | .stop => { world with stopping := true }

/-- `__init__`. -/
def initial (concurrency : Nat) : ExecutorSlots := ⟨concurrency, [], false, [], []⟩

abbrev after (world : ExecutorSlots) (moves : List SlotMove) : ExecutorSlots :=
  Runs.after step world moves

/-! ### Permits -/

/-- The claim attempts and executions in progress. -/
def inProgress (world : ExecutorSlots) : Nat :=
  world.callers.countP (fun caller => caller.phase.holds) + world.tasks.countP SpawnedPhase.holds

def permits (world : ExecutorSlots) : Nat := world.free + world.inProgress

/-- The jobs that run. -/
def running (world : ExecutorSlots) : Nat :=
  world.callers.countP (fun caller => caller.phase = .executing) +
    world.tasks.countP (· = .executing)

/-- Every permit is free or in use, and at most that many jobs run. -/
structure Conserved (concurrency : Nat) (world : ExecutorSlots) : Prop where
  permits : world.free + world.inProgress = concurrency
  running : world.running ≤ concurrency

/-- A claim ends in something that is no `Exception`, or a task is cancelled before it starts. -/
def Loses (world : ExecutorSlots) : SlotMove → Prop
  | .claim place (.raised false) | .cancel place =>
    ∃ caller, world.callers[place]? = some caller ∧ caller.phase = .claiming
  | .cancelTask task => world.tasks[task]? = some .scheduled
  | _ => False

variable {world next : ExecutorSlots} {place task : Nat} {caller : Caller} {phase : CallerPhase}

theorem countP_modify {callers : List Caller} (h : callers[place]? = some caller)
    (phase : CallerPhase) :
    (callers.modify place fun caller => { caller with phase }).countP
        (fun caller => caller.phase.holds) + caller.phase.holds.toNat =
      callers.countP (fun caller => caller.phase.holds) + phase.holds.toNat := by
  induction callers generalizing place with
  | nil => cases h
  | cons first rest ih =>
    rcases place with - | place
    · rw [← Option.some.inj h, List.modify_zero_cons, List.countP_cons, List.countP_cons]
      rcases phase.holds with - | - <;> rcases first.phase.holds with - | - <;> simp
    · have hrest := @ih place h
      rw [List.modify_succ_cons, List.countP_cons, List.countP_cons]
      omega

theorem permits_setPhase (h : world.callers[place]? = some caller) (phase : CallerPhase) :
    (world.setPhase place phase).permits + caller.phase.holds.toNat =
      world.permits + phase.holds.toNat := by
  have hcount := countP_modify h phase
  simp only [permits, inProgress, setPhase]
  omega

/-- A call that holds no permit before and after. -/
theorem permits_setPhase_idle (h : world.callers[place]? = some caller)
    (hbefore : caller.phase.holds = false) (hafter : phase.holds = false) :
    (world.setPhase place phase).permits = world.permits := by
  have hcount := permits_setPhase h phase
  rwa [hbefore, hafter, Bool.toNat_false, Nat.add_zero, Nat.add_zero] at hcount

theorem permits_setPhase_lose (h : world.callers[place]? = some caller)
    (hbefore : caller.phase.holds = true) {phase : CallerPhase} (hafter : phase.holds = false) :
    (world.setPhase place phase).permits + 1 = world.permits := by
  have hcount := permits_setPhase h phase
  rwa [hbefore, hafter, Bool.toNat_true, Bool.toNat_false, Nat.add_zero] at hcount

theorem permits_setPhase_keep (h : world.callers[place]? = some caller)
    (hbefore : caller.phase.holds = true) (hafter : phase.holds = true) :
    (world.setPhase place phase).permits = world.permits := by
  have hcount := permits_setPhase h phase
  rw [hbefore, hafter] at hcount
  exact Nat.add_right_cancel hcount

theorem exists_of_isWaiting (h : world.isWaiting place = true) :
    ∃ caller, world.callers[place]? = some caller ∧ caller.phase = .waiting := by
  rcases hcaller : world.callers[place]? with - | caller
  · rw [isWaiting, hcaller] at h
    cases h
  · rw [isWaiting, hcaller, Option.any_some, decide_eq_true_eq] at h
    exact ⟨caller, rfl, h⟩

/-- A permit that is handed over is in use. -/
theorem permits_wakeUpNext (hfree : 0 < world.free) (h : world.wakeUpNext = some next) :
    next.permits = world.permits := by
  rw [wakeUpNext, Option.map_eq_some_iff] at h
  rcases h with ⟨place, hfind, rfl⟩
  rcases exists_of_isWaiting (List.find?_some hfind) with ⟨caller, hcaller, hphase⟩
  have hcount := permits_setPhase hcaller .granted
  rw [hphase] at hcount
  simp only [permits, CallerPhase.holds, Bool.toNat_false, Bool.toNat_true] at hcount ⊢
  simp only [inProgress, setPhase] at hcount ⊢
  omega

theorem permits_release (world : ExecutorSlots) : world.release.permits = world.permits + 1 := by
  have hreleased : ({ world with free := world.free + 1 } : ExecutorSlots).permits =
      world.permits + 1 := by
    simp only [permits, inProgress]
    omega
  rw [release]
  rcases hwake : ({ world with free := world.free + 1 } : ExecutorSlots).wakeUpNext with - | next
  · exact hreleased
  · exact (permits_wakeUpNext (Nat.succ_pos world.free) hwake).trans hreleased

theorem permits_wakeUpAll (world : ExecutorSlots) (permits : Nat) :
    (world.wakeUpAll permits).permits = world.permits := by
  induction permits generalizing world with
  | zero => rfl
  | succ permits ih =>
    rw [wakeUpAll]
    split
    · rfl
    · rename_i hfree
      rcases hwake : world.wakeUpNext with - | next
      · rfl
      · exact (ih next).trans (permits_wakeUpNext (Nat.pos_of_ne_zero hfree) hwake)

theorem permits_leaveQueue (world : ExecutorSlots) (place : Nat) :
    (world.leaveQueue place).permits = world.permits :=
  permits_wakeUpAll _ world.free

/-- A call without a permit takes one or waits. -/
theorem permits_acquire (h : world.callers[place]? = some caller)
    (hidle : caller.phase.holds = false) : (world.acquire place).permits = world.permits := by
  rw [acquire]
  split
  · exact permits_setPhase_idle h hidle rfl
  · rename_i hunlocked
    rw [not_or] at hunlocked
    have hcount := permits_setPhase h .claiming
    rw [hidle] at hcount
    simp only [permits, inProgress, setPhase, CallerPhase.holds, Bool.toNat_false,
      Bool.toNat_true] at hcount ⊢
    omega

theorem permits_loop (h : world.callers[place]? = some caller)
    (hidle : caller.phase.holds = false) : (world.loop place).permits = world.permits := by
  rw [loop]
  split
  · exact permits_setPhase_idle h hidle rfl
  · exact permits_acquire h hidle

theorem permits_call (world : ExecutorSlots) (forever : Bool) :
    (world.call forever).permits = world.permits := by
  rw [call]
  refine (@permits_acquire _ _ ⟨forever, .looping⟩ List.getElem?_concat_length rfl).trans ?_
  simp only [permits, inProgress, List.countP_append, List.countP_singleton, CallerPhase.holds]
  rfl

theorem getElem?_setPhase (h : world.callers[place]? = some caller) :
    (world.setPhase place phase).callers[place]? = some { caller with phase } := by
  rw [setPhase, List.getElem?_modify, h]
  simp

/-- The call's permit goes to the task that it spawns. -/
theorem permits_spawn (h : world.callers[place]? = some caller)
    (hholds : caller.phase.holds = true) :
    (world.spawn place).permits = world.permits := by
  have hcount := permits_setPhase_lose h hholds (show CallerPhase.looping.holds = false from rfl)
  rw [← hcount]
  simp only [permits, inProgress, spawn, setPhase, List.countP_append, List.countP_singleton,
    SpawnedPhase.holds, if_true]
  omega

/-- A claim gives its permit back or passes it on, unless it ends in no `Exception`. -/
theorem permits_claimed (h : world.callers[place]? = some caller)
    (hclaiming : caller.phase = .claiming) {outcome : ClaimOutcome}
    (houtcome : outcome ≠ .raised false) :
    (world.claimed place caller outcome).permits = world.permits := by
  have hholds : caller.phase.holds = true := by rw [hclaiming]; rfl
  have hreleased : (world.setPhase place (if caller.forever then .backingOff else .ended)).release.permits =
      world.permits := by
    rw [permits_release]
    refine permits_setPhase_lose h hholds ?_
    split <;> rfl
  rcases outcome with - | - | - | -
  · exact hreleased
  · rw [claimed]
    split
    · have hlooping : (world.spawn place).callers[place]? =
          some { caller with phase := .looping } := getElem?_setPhase h
      rw [permits_loop hlooping rfl]
      exact permits_spawn h hholds
    · exact permits_setPhase_keep h hholds rfl
  · exact absurd rfl houtcome
  · exact hreleased

theorem permits_claimed_loses (h : world.callers[place]? = some caller)
    (hclaiming : caller.phase = .claiming) :
    (world.claimed place caller (.raised false)).permits + 1 = world.permits :=
  permits_setPhase_lose h (by rw [hclaiming]; rfl) rfl

theorem permits_cancelled (h : world.callers[place]? = some caller)
    (hclaiming : caller.phase ≠ .claiming) :
    (world.cancelled place caller).permits = world.permits := by
  rw [cancelled]
  split
  · rename_i hphase
    rw [permits_leaveQueue]
    exact permits_setPhase_idle h (by rw [hphase]; rfl) rfl
  · rename_i hphase
    rw [permits_leaveQueue]
    have hcount := permits_setPhase_lose h (by rw [hphase]; rfl)
      (show CallerPhase.ended.holds = false from rfl)
    have hfree : (world.setPhase place .ended).free = world.free := rfl
    rw [← hcount]
    simp only [permits, inProgress, hfree]
    omega
  · rename_i hphase
    exact absurd hphase hclaiming
  · rename_i hphase
    rw [permits_release]
    exact permits_setPhase_lose h (by rw [hphase]; rfl) rfl
  · rename_i hphase
    exact permits_setPhase_idle h (by rw [hphase]; rfl) rfl
  · rfl

theorem countP_task {phase next : SpawnedPhase} (h : world.tasks[task]? = some phase)
    (hholds : phase.holds = true) : (world.tasks.set task next).countP SpawnedPhase.holds + 1 =
      world.tasks.countP SpawnedPhase.holds + next.holds.toNat := by
  rcases List.getElem?_eq_some_iff.mp h with ⟨htask, hphase⟩
  have hpos : 0 < world.tasks.countP SpawnedPhase.holds :=
    List.countP_pos_iff.mpr ⟨phase, List.mem_of_getElem? h, hholds⟩
  rw [List.countP_set htask, hphase, hholds]
  rcases next.holds with - | - <;> simp <;> omega

/-- A task that ends had a permit. -/
theorem permits_endTask {phase : SpawnedPhase} (h : world.tasks[task]? = some phase)
    (hholds : phase.holds = true) : (world.endTask task).permits + 1 = world.permits := by
  have hcount : (world.tasks.set task .finished).countP SpawnedPhase.holds + 1 =
      world.tasks.countP SpawnedPhase.holds := countP_task h hholds
  simp only [permits, inProgress, endTask]
  omega

theorem permits_start (h : world.tasks[task]? = some .scheduled) :
    ({ world with tasks := world.tasks.set task .executing } : ExecutorSlots).permits =
      world.permits := by
  have hcount : (world.tasks.set task .executing).countP SpawnedPhase.holds + 1 =
      world.tasks.countP SpawnedPhase.holds + 1 := countP_task h rfl
  simp only [permits, inProgress]
  omega

/-- A move that loses no permit. -/
theorem permits_step (move : SlotMove) (h : ¬world.Loses move) :
    (world.step move).permits = world.permits := by
  rcases move with forever | place | ⟨place, outcome⟩ | place | place | place | task | task | task | -
  · exact permits_call world forever
  · rw [step]
    rcases hcaller : world.callers[place]? with - | caller
    · rfl
    dsimp only
    split
    · rename_i hphase
      rw [permits_leaveQueue]
      exact permits_setPhase_keep hcaller (by rw [hphase]; rfl) rfl
    · rfl
  · rw [step]
    rcases hcaller : world.callers[place]? with - | caller
    · rfl
    dsimp only
    split
    · rename_i hphase
      refine permits_claimed hcaller hphase ?_
      rintro rfl
      exact h ⟨caller, hcaller, hphase⟩
    · rfl
  · rw [step]
    rcases hcaller : world.callers[place]? with - | caller
    · rfl
    dsimp only
    split
    · rename_i hphase
      exact permits_loop hcaller (by rw [hphase]; rfl)
    · rfl
  · rw [step]
    rcases hcaller : world.callers[place]? with - | caller
    · rfl
    dsimp only
    split
    · rename_i hphase
      rw [permits_release]
      exact permits_setPhase_lose hcaller (by rw [hphase]; rfl) rfl
    · rfl
  · rw [step]
    rcases hcaller : world.callers[place]? with - | caller
    · rfl
    · exact permits_cancelled hcaller fun hphase => h ⟨caller, hcaller, hphase⟩
  · rw [step]
    split
    · rename_i hscheduled
      exact permits_start hscheduled
    · rfl
  · rw [step]
    split
    · rename_i hexecuting
      rw [permits_release]
      exact permits_endTask hexecuting rfl
    · rfl
  · rw [step]
    split
    · rename_i hscheduled
      exact absurd hscheduled h
    split
    · rename_i hexecuting
      rw [permits_release]
      exact permits_endTask hexecuting rfl
    · rfl
  · rfl

/-- A move that loses one. -/
theorem permits_step_loses (move : SlotMove) (h : world.Loses move) :
    (world.step move).permits + 1 = world.permits := by
  rcases move with forever | place | ⟨place, outcome⟩ | place | place | place | task | task | task | -
  case claim =>
    rcases outcome with - | - | - | -
    case raised.false =>
      rcases h with ⟨caller, hcaller, hphase⟩
      rw [step, hcaller]
      dsimp only
      rw [if_pos hphase]
      exact permits_claimed_loses hcaller hphase
    all_goals cases h
  case cancel =>
    rcases h with ⟨caller, hcaller, hphase⟩
    have hstep : world.step (.cancel place) = world.claimed place caller (.raised false) := by
      rw [step, hcaller]
      dsimp only
      rw [cancelled, hphase]
    rw [hstep]
    exact permits_claimed_loses hcaller hphase
  case cancelTask =>
    have hscheduled : world.tasks[task]? = some .scheduled := h
    rw [step, if_pos hscheduled]
    exact permits_endTask hscheduled rfl
  all_goals cases h

theorem running_le_inProgress (world : ExecutorSlots) : world.running ≤ world.inProgress := by
  refine Nat.add_le_add (List.countP_mono_left fun caller _ hrunning => ?_)
    (List.countP_mono_left fun task _ hrunning => ?_)
  · rw [of_decide_eq_true hrunning]
    rfl
  · rw [of_decide_eq_true hrunning]
    rfl

theorem conserved_of_permits {concurrency : Nat} (h : world.permits = concurrency) :
    world.Conserved concurrency :=
  ⟨h, Nat.le_trans (running_le_inProgress world) (h ▸ Nat.le_add_left _ _)⟩

/-- The permits are conserved in every state of a run if and only if no claim ends in something
    that is no `Exception` and no task is cancelled before it starts. -/
theorem conserved_iff (concurrency : Nat) (moves : List SlotMove) :
    (∀ before later, moves = before ++ later →
        ((initial concurrency).after before).Conserved concurrency) ↔
      Runs.Along step (fun world move => ¬world.Loses move) (initial concurrency) moves := by
  refine Runs.safe_iff_along (I := fun _ => True) trivial (conserved_of_permits rfl)
    (fun _ _ _ => trivial) ?_
  intro world move _ hconserved
  constructor
  · intro hnext hloses
    have hcount := permits_step_loses move hloses
    have hbefore : world.permits = concurrency := hconserved.permits
    have hafter : (world.step move).permits = concurrency := hnext.permits
    omega
  · intro hkeeps
    exact conserved_of_permits ((permits_step move hkeeps).trans hconserved.permits)

/-- `run_forever` is cancelled while it claims a job: the only permit is gone. -/
theorem permit_lost :
    ((initial 1).after [.call true, .cancel 0]).free = 0 ∧
      ((initial 1).after [.call true, .cancel 0]).inProgress = 0 ∧
      ¬((initial 1).after [.call true, .cancel 0]).Conserved 1 := by
  refine ⟨by decide, by decide, fun hconserved => ?_⟩
  have hpermits := hconserved.permits
  revert hpermits
  decide

end ExecutorSlots

end AgenticPlatform
