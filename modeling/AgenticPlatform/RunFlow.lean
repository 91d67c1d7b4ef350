import AgenticPlatform.Interleaving
import AgenticPlatform.LeaseRenewal
import AgenticPlatform.Runs
import AgenticPlatform.Workflow

/-!
# One run, job by job

The life of one run on the platform. `start` and `_advance` are called at any time, a
holder claims what the queue offers, and a claimed job is executed by the holder whose
lease the queue knows. An execution ends where `execute` calls `_advance`, which is a
move of its own. Next to the tables and the queue stand the claimed jobs and the log of
the facts that executions committed.
-/

namespace AgenticPlatform

open Workflow (Fact)

/-! ### An execution -/

/-- What the commit of a stage adds to the evidence about a candidate. -/
def Effect.facts (effect : Effect) (jobType : JobType) : List Fact :=
  match effect.candidate with
  | none => []
  | some changed =>
      match jobType with
      | .code => changed.patch.toList.map fun patch => .submitted changed.id patch
      | .review => effect.review.toList.map fun review => .reviewed changed.id review.verdict
      | _ => [.validated changed.id (effect.toolResults.map StoredToolResult.result)]

namespace Orchestrator

variable (o : Orchestrator)

/-- `_handle_failure`, up to the `_advance` it may end with. -/
def reportFailure (now : Instant) (job : Job) (lease : Lease) (e : PyError) (w : World) : World :=
  let decision := o.retry.decide (classify e) job.attempt
  match recordFailure now job e decision.shouldRetryJob w.db with
  | .error _ => w
  | .ok db =>
      let release := w.queue.release job.id lease.token decision.shouldRetryJob
      let w := { w with db, queue := release.self }
      match release.result with
      | .error _ => w
      | .ok () =>
          if decision.shouldRetryJob then (requeueFailed now job.id decision.reason w).self else w

/-- `execute`, up to the `_advance` it may end with. -/
def attempt (a : Answers) (job : Job) (lease : Lease) (w : World) : World :=
  let call := o.dispatch a job lease w
  match call.result with
  | .error e => o.reportFailure a.now call.self.2 lease e call.self.1
  | .ok () => call.self.1

/-- The facts an execution committed: none when it failed or only dropped its job. -/
def committedFacts (a : Answers) (job : Job) (lease : Lease) (w : World) : List Fact :=
  let call := o.dispatch a job lease w
  match call.result, o.stageEffect a job w with
  | .ok (), .ok effect => if call.self.2.status = .succeeded then effect.facts job.type else []
  | _, _ => []

variable {o}

end Orchestrator

/-! ### The moves -/

/-- One run of the platform, with the claimed jobs and the log of committed facts. -/
structure RunFlow where
  world : World
  held : List (Job × Lease)
  facts : List Fact

namespace RunFlow

/-- A claim grants a lease for a positive time, and nothing but agents and tools raises
    during an execution. -/
inductive Move where
  | start (ws : Workspaces) (now : Instant)
  | advance (ws : Workspaces) (now : Instant)
  | claim (consumer : WorkerId) (jobTypes : List JobType) (duration : Duration) (now : Instant)
      (token : LeaseToken) (duration_pos : 0 < duration)
  | execute (n : Nat) (a : Answers) (calm : a.Calm)

/-- One move in the life of the run. -/
def step (o : Orchestrator) (runId : RunId) (flow : RunFlow) : Move → RunFlow
  | .start ws now => { flow with world := (o.start ws now runId flow.world).self }
  | .advance ws now => { flow with world := (o.advance ws now runId flow.world).self }
  | .claim consumer jobTypes duration now token _ =>
      let call := flow.world.queue.claim consumer jobTypes duration now token
      { flow with
        world := { flow.world with queue := call.self }
        held :=
          match call.result with
          | .ok (some claimed) => flow.held ++ [claimed]
          | _ => flow.held }
  | .execute n a _ =>
      match flow.held[n]? with
      | none => flow
      | some (job, lease) =>
          { world := o.attempt a job lease flow.world
            held := flow.held.eraseIdx n
            facts := o.committedFacts a job lease flow.world ++ flow.facts }

/-- The run was submitted, and nothing happened since. -/
def submitted (project : Project) (run : Run) : RunFlow := ⟨World.fresh project run, [], []⟩

/-- What a run is when it is created. -/
structure New (project : Project) (run : Run) : Prop where
  projectId : run.projectId = project.id
  status : run.status = .created
  repairIterations : run.repairIterations = 0

/-- An execution that fails on the last attempt of its job is not one after which the
    retry policy asks for another. -/
def Agrees (o : Orchestrator) (flow : RunFlow) : Move → Prop
  | .execute n a _ => ∀ job lease e, flow.held[n]? = some (job, lease) →
      (o.dispatch a job lease flow.world).result = .error e →
      (o.retry.decide (classify e) job.attempt).shouldRetryJob = true →
      job.attempt < job.maxAttempts
  | _ => True

/-- There is one entry to look at, and one error at most. -/
instance Agrees.decidable (o : Orchestrator) (flow : RunFlow) :
    ∀ move, Decidable (Agrees o flow move)
  | .start _ _ | .advance _ _ | .claim _ _ _ _ _ _ => isTrue trivial
  | .execute n a _ =>
      match hheld : flow.held[n]? with
      | none => isTrue fun _ _ _ h => nomatch hheld.symm.trans h
      | some (job, lease) =>
          match hresult : (o.dispatch a job lease flow.world).result with
          | .ok _ => isTrue fun _ _ _ h he => by
              cases hheld.symm.trans h
              cases hresult.symm.trans he
          | .error e =>
              decidable_of_iff ((o.retry.decide (classify e) job.attempt).shouldRetryJob = true →
                job.attempt < job.maxAttempts) ⟨fun hleft _ _ _ h he => by
                  cases hheld.symm.trans h
                  cases hresult.symm.trans he
                  exact hleft, fun h => h job lease e hheld hresult⟩

/-- What the tables show of the run. -/
def shown (flow : RunFlow) (run : Run) : Workflow.State where
  run := run
  candidates := flow.world.db.candidates
  tickets := flow.world.db.jobs.map Workflow.Ticket.of
  facts := flow.facts

end RunFlow

end AgenticPlatform
