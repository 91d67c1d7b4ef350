import AgenticPlatform.Runs
import AgenticPlatform.Worker
import Mathlib.Data.Finset.Sort
import Mathlib.Data.String.Basic

/-!
# The worker's agent

`WorkerAgent` registers one inference server, sends its heartbeats and drains it. What
the control plane and the probe answer is given with each call. A drain is one value of
the status, which every heartbeat reads again.
-/

namespace AgenticPlatform

/-- What the worker advertises at registration. -/
structure WorkerDescription where
  endpoint : String
  modelId : String
  contextLength : Nat
  maxConcurrency : Nat
  roles : Finset AgentRole
  gpuType : Option String := none
  gpuCount : Nat := 1
  tensorParallelSize : Nat := 1
  workerId : Option String := none
  metadata : Mapping := []

/-- The body of a registration. -/
structure RegisterPayload where
  endpoint : String
  modelId : String
  contextLength : Nat
  maxConcurrency : Nat
  supportedRoles : List String
  gpuType : Option String
  gpuCount : Nat
  tensorParallelSize : Nat
  metadata : Mapping
  workerId : Option String

/-- A falsy text counts as none. -/
def truthy (text : Option String) : Option String := text.filter (· ≠ "")

def WorkerDescription.asPayload (description : WorkerDescription) : RegisterPayload where
  endpoint := description.endpoint
  modelId := description.modelId
  contextLength := description.contextLength
  maxConcurrency := description.maxConcurrency
  supportedRoles := (description.roles.image AgentRole.value).sort (· ≤ ·)
  gpuType := description.gpuType
  gpuCount := description.gpuCount
  tensorParallelSize := description.tensorParallelSize
  metadata := description.metadata
  workerId := truthy description.workerId

structure HeartbeatPayload where
  activeJobs : Nat
  queuedJobs : Nat
  draining : Bool
deriving DecidableEq

/-- What the agent asks of the control plane. -/
inductive WorkerRequest where
  | register (payload : RegisterPayload)
  | heartbeat (workerId : String) (payload : HeartbeatPayload)
  | drain (workerId : String)

structure ControlPlaneError where
  message : String
  statusCode : Option Nat := none

def ControlPlaneError.isUnknownWorker (error : ControlPlaneError) : Bool :=
  error.statusCode == some 404

structure WorkerAgent where
  description : WorkerDescription
  workerId : Option String
  status : WorkerStatus
  activeJobs : Nat

namespace WorkerAgent

def init (description : WorkerDescription) : WorkerAgent :=
  ⟨description, description.workerId, .starting, 0⟩

/-- What `start` is answered: whether the engine became ready in time, and the `id` in the
    body of the registration. -/
structure Startup where
  ready : Bool
  registered : Except ControlPlaneError (Option String)

/-- What `beat_once` is answered, with the answers for a registration if it comes to one. -/
structure Beat where
  heartbeat : Except ControlPlaneError Unit
  healthy : Bool
  startup : Startup

/-- The agent after a call, what it sent meanwhile, and what the call returned or raised. -/
structure Outcome (α : Type) where
  agent : WorkerAgent
  sent : List WorkerRequest
  result : Except ControlPlaneError α

def start (agent : WorkerAgent) (startup : Startup) : Outcome String :=
  let agent := { agent with status := .starting }
  if startup.ready then
    let agent := { agent with status := .registering }
    let sent := [.register agent.description.asPayload]
    match startup.registered with
    | .error error => ⟨agent, sent, .error error⟩
    | .ok id =>
        match truthy id <|> truthy agent.description.workerId with
        | none =>
            ⟨agent, sent, .error { message := "the control plane did not return a worker id" }⟩
        | some workerId =>
            ⟨{ agent with workerId := some workerId, status := .ready }, sent, .ok workerId⟩
  else
    ⟨agent, [], .error { message :=
      "the local inference server never became ready; refusing to register" }⟩

/-- A refused registration does not leave `beat_once`. -/
def beatOnce (agent : WorkerAgent) (beat : Beat) : Outcome Bool :=
  match agent.workerId with
  | none => ⟨agent, [], .ok false⟩
  | some workerId =>
      let payload : HeartbeatPayload := ⟨agent.activeJobs, 0, agent.status = .draining⟩
      let sent := [.heartbeat workerId payload]
      match beat.heartbeat with
      | .error error =>
          if error.isUnknownWorker then
            let started := agent.start beat.startup
            ⟨started.agent, sent ++ started.sent, .ok started.agent.workerId.isSome⟩
          else ⟨agent, sent, .ok false⟩
      | .ok () =>
          if beat.healthy then
            let status := if agent.status = .unhealthy then .ready else agent.status
            ⟨{ agent with status := status }, sent, .ok true⟩
          else ⟨{ agent with status := .unhealthy }, sent, .ok false⟩

/-- Whatever the control plane answers to the drain. -/
def requestDrain (agent : WorkerAgent) : Outcome Unit :=
  match agent.workerId with
  | none => ⟨agent, [], .ok ()⟩
  | some workerId => ⟨{ agent with status := .draining }, [.drain workerId], .ok ()⟩

def jobStarted (agent : WorkerAgent) : WorkerAgent :=
  { agent with activeJobs := agent.activeJobs + 1 }

def jobFinished (agent : WorkerAgent) : WorkerAgent :=
  { agent with activeJobs := agent.activeJobs - 1 }

/-- What happens to an agent that waits for its jobs. -/
inductive Move where
  | beat (beat : Beat)
  | jobStarted
  | jobFinished

def move (agent : WorkerAgent) : Move → Outcome Unit
  | .beat beat => { agent.beatOnce beat with result := .ok () }
  | .jobStarted => ⟨agent.jobStarted, [], .ok ()⟩
  | .jobFinished => ⟨agent.jobFinished, [], .ok ()⟩

def step (agent : WorkerAgent) (m : Move) : WorkerAgent := (agent.move m).agent

variable {agent : WorkerAgent} {workerId : String} {b : Beat} {beats : List Beat} {moves : List Move}

/-! ### Draining -/

/-- A heartbeat says that the worker drains, and a registration does not. -/
def Announces : WorkerRequest → Prop
  | .register _ => False
  | .heartbeat _ payload => payload.draining = true
  | .drain _ => True

instance : DecidablePred Announces := fun request =>
  match request with
  | .register _ => isFalse id
  | .heartbeat _ payload => inferInstanceAs (Decidable (payload.draining = true))
  | .drain _ => isTrue trivial

/-- Whatever the agent sends along the moves announces the drain. -/
def KeepsDrain (agent : WorkerAgent) (moves : List Move) : Prop :=
  Runs.Along step (fun agent m => ∀ request ∈ (agent.move m).sent, Announces request) agent moves

instance : Decidable (KeepsDrain agent moves) :=
  inferInstanceAs (Decidable (Runs.Along step _ agent moves))

/-- The control plane knows the worker, and the engine is healthy if the heartbeat arrived. -/
def Beat.calm (b : Beat) : Bool :=
  match b.heartbeat with
  | .error error => !error.isUnknownWorker
  | .ok () => b.healthy

/-- The control plane does not know the worker, and the engine could serve. -/
def Beat.readmits (b : Beat) : Bool :=
  match b.heartbeat with
  | .error error => error.isUnknownWorker && b.startup.ready
  | .ok () => false

/-- Every beat but the last is calm, and the last one does not ask for a registration. -/
def Steady : List Beat → Prop
  | [] => True
  | [b] => b.readmits = false
  | b :: b' :: rest => b.calm = true ∧ Steady (b' :: rest)

def beatsOf (moves : List Move) : List Beat :=
  moves.filterMap fun m => match m with
    | .beat b => some b
    | .jobStarted | .jobFinished => none

theorem Beat.readmits_of_calm (h : b.calm = true) : b.readmits = false := by
  rcases hheartbeat : b.heartbeat with error | ⟨⟩
  · simp only [Beat.calm, hheartbeat] at h
    simp only [Beat.readmits, hheartbeat]
    simpa using fun hunknown => absurd h (by simp [hunknown])
  · simp only [Beat.readmits, hheartbeat]

theorem steady_cons_of_calm (h : b.calm = true) : Steady (b :: beats) ↔ Steady beats := by
  cases beats with
  | nil => simp [Steady, Beat.readmits_of_calm h]
  | cons b' rest => simp [Steady, h]

theorem steady_cons_of_not_calm (h : b.calm ≠ true) :
    Steady (b :: beats) ↔ beats = [] ∧ b.readmits = false := by
  cases beats with
  | nil => simp [Steady]
  | cons b' rest => simp [Steady, h]

/-- A calm beat of a draining agent. -/
theorem beatOnce_of_calm (hid : agent.workerId = some workerId) (hstatus : agent.status = .draining)
    (h : b.calm = true) :
    (agent.beatOnce b).agent = agent ∧
      (agent.beatOnce b).sent = [.heartbeat workerId ⟨agent.activeJobs, 0, true⟩] := by
  rcases hheartbeat : b.heartbeat with error | ⟨⟩
  · have hknown : error.isUnknownWorker = false := by simpa [Beat.calm, hheartbeat] using h
    simp [beatOnce, hid, hstatus, hheartbeat, hknown]
  · have hhealthy : b.healthy = true := by simpa [Beat.calm, hheartbeat] using h
    have hsame : { agent with workerId := some workerId, status := .draining } = agent := by
      rw [← hid, ← hstatus]
    simp [beatOnce, hid, hstatus, hheartbeat, hhealthy, hsame]

/-- The agent asks for a registration if the engine is ready, and is not draining after it. -/
theorem start_spec (startup : Startup) (hid : agent.workerId = some workerId) :
    (∃ id, (agent.start startup).agent.workerId = some id) ∧
      (agent.start startup).agent.status ≠ .draining ∧
      (agent.start startup).sent =
        if startup.ready then [.register agent.description.asPayload] else [] := by
  simp only [start]
  split
  · split
    · simp [hid]
    · split <;> simp [hid]
  · simp [hid]

/-- Any other beat takes a draining agent out of its status, registered or not. -/
theorem beatOnce_of_not_calm (hid : agent.workerId = some workerId)
    (hstatus : agent.status = .draining) (h : b.calm ≠ true) :
    (∃ id, (agent.beatOnce b).agent.workerId = some id) ∧
      (agent.beatOnce b).agent.status ≠ .draining ∧
      ((∀ request ∈ (agent.beatOnce b).sent, Announces request) ↔ b.readmits = false) := by
  rcases hheartbeat : b.heartbeat with error | ⟨⟩
  · have hunknown : error.isUnknownWorker = true := by simpa [Beat.calm, hheartbeat] using h
    rcases start_spec b.startup hid with ⟨hsome, hnot, hsent⟩
    simp only [beatOnce, hid, hheartbeat, hunknown, if_true]
    refine ⟨hsome, hnot, ?_⟩
    rw [hsent]
    cases hready : b.startup.ready <;>
      simp [Announces, Beat.readmits, hheartbeat, hunknown, hready, hstatus]
  · have hhealthy : b.healthy = false := by simpa [Beat.calm, hheartbeat] using h
    simp [beatOnce, hid, hheartbeat, hhealthy, hstatus, Announces, Beat.readmits]

theorem keepsDrain_cons (m : Move) : KeepsDrain agent (m :: moves) ↔
    (∀ request ∈ (agent.move m).sent, Announces request) ∧ KeepsDrain (agent.step m) moves := Iff.rfl

/-- An agent that never registered sends nothing. -/
theorem keepsDrain_of_unregistered (hid : agent.workerId = none) : KeepsDrain agent moves := by
  induction moves generalizing agent with
  | nil => trivial
  | cons m rest ih =>
    rw [keepsDrain_cons]
    cases m with
    | beat b =>
      have hbeat : agent.beatOnce b = ⟨agent, [], .ok false⟩ := by simp only [beatOnce, hid]
      constructor
      · simp [move, hbeat]
      · simpa [step, move, hbeat] using ih hid
    | jobStarted => exact ⟨by simp [move], ih hid⟩
    | jobFinished => exact ⟨by simp [move], ih hid⟩

/-- The next beat of an agent that does not drain says so. -/
theorem keepsDrain_of_not_draining (hid : agent.workerId = some workerId)
    (hstatus : agent.status ≠ .draining) : KeepsDrain agent moves ↔ beatsOf moves = [] := by
  induction moves generalizing agent with
  | nil => simp [KeepsDrain, Runs.Along, beatsOf]
  | cons m rest ih =>
    rw [keepsDrain_cons]
    cases m with
    | beat b =>
      have hfirst : .heartbeat workerId ⟨agent.activeJobs, 0, false⟩ ∈ (agent.move (.beat b)).sent := by
        simp only [move, beatOnce, hid, hstatus]
        split
        · split <;> simp
        · split <;> simp
      constructor
      · rintro ⟨hsent, -⟩
        exact absurd (hsent _ hfirst) (by simp [Announces])
      · intro hnone
        simp [beatsOf] at hnone
    | jobStarted =>
      have hrest : KeepsDrain agent.jobStarted rest ↔ beatsOf rest = [] := ih hid hstatus
      simpa [move, step, beatsOf, jobStarted] using hrest
    | jobFinished =>
      have hrest : KeepsDrain agent.jobFinished rest ↔ beatsOf rest = [] := ih hid hstatus
      simpa [move, step, beatsOf, jobFinished] using hrest

/-- Every beat but the last must be calm: what the first one that is not leaves behind, the
    next one reports. -/
theorem keepsDrain_iff_steady (hid : agent.workerId = some workerId)
    (hstatus : agent.status = .draining) : KeepsDrain agent moves ↔ Steady (beatsOf moves) := by
  induction moves generalizing agent with
  | nil => simp [KeepsDrain, Runs.Along, beatsOf, Steady]
  | cons m rest ih =>
    rw [keepsDrain_cons]
    cases m with
    | beat b =>
      have hbeats : beatsOf (.beat b :: rest) = b :: beatsOf rest := rfl
      rw [hbeats]
      by_cases hcalm : b.calm = true
      · rcases beatOnce_of_calm hid hstatus hcalm with ⟨hagent, hsent⟩
        have hstep : agent.step (.beat b) = agent := hagent
        have hannounced : ∀ request ∈ (agent.move (.beat b)).sent, Announces request := by
          intro request hrequest
          rw [show (agent.move (.beat b)).sent = _ from hsent, List.mem_singleton] at hrequest
          subst hrequest
          rfl
        rw [steady_cons_of_calm hcalm, hstep, ih hid hstatus]
        exact and_iff_right hannounced
      · rcases beatOnce_of_not_calm hid hstatus hcalm with ⟨⟨id, hsome⟩, hnot, hsent⟩
        have hrest : KeepsDrain (agent.step (.beat b)) rest ↔ beatsOf rest = [] :=
          keepsDrain_of_not_draining hsome hnot
        rw [steady_cons_of_not_calm hcalm, hrest, and_comm]
        exact and_congr_right fun _ => hsent
    | jobStarted =>
      have hrest : KeepsDrain agent.jobStarted rest ↔ Steady (beatsOf rest) := ih hid hstatus
      simpa [move, step, beatsOf, jobStarted] using hrest
    | jobFinished =>
      have hrest : KeepsDrain agent.jobFinished rest ↔ Steady (beatsOf rest) := ih hid hstatus
      simpa [move, step, beatsOf, jobFinished] using hrest

/-- After `request_drain`, every heartbeat reports the drain and no registration is asked
    for exactly if the agent had no id to send heartbeats with, or the beats are steady. -/
theorem requestDrain_keepsDrain_iff (agent : WorkerAgent) (moves : List Move) :
    KeepsDrain agent.requestDrain.agent moves ↔ agent.workerId = none ∨ Steady (beatsOf moves) := by
  rcases hid : agent.workerId with - | workerId
  · have hsame : agent.requestDrain.agent = agent := by simp only [requestDrain, hid]
    rw [hsame]
    simpa using keepsDrain_of_unregistered hid
  · have hdrained : agent.requestDrain.agent = { agent with status := .draining } := by
      simp only [requestDrain, hid]
    have hkept : agent.requestDrain.agent.workerId = some workerId := by
      rw [hdrained]
      exact hid
    have hstatus : agent.requestDrain.agent.status = .draining := by rw [hdrained]
    rw [keepsDrain_iff_steady hkept hstatus]
    simp

/-- A worker that is READY under an id. -/
def registered : WorkerAgent where
  description := ⟨"http://gpu-1:8000/v1", "model-a", 32768, 4, {.coder}, none, 1, 1, none, []⟩
  workerId := some "gpu-1"
  status := .ready
  activeJobs := 1

/-- The engine is down after the first heartbeat of the drained agent, and the second one
    says that it takes work. -/
theorem flap_ends_drain :
    ¬ KeepsDrain registered.requestDrain.agent
      [.beat ⟨.ok (), false, ⟨false, .ok none⟩⟩, .beat ⟨.ok (), true, ⟨true, .ok none⟩⟩] := by
  decide

end WorkerAgent

end AgenticPlatform
