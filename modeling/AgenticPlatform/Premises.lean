import AgenticPlatform.Interleaving
import AgenticPlatform.Publication

/-!
# Workspaces next to the platform

The workspace manager keeps its records in memory, outside every transaction: what a
transaction created stays when it aborts, and a `release_run` before a commit is not
undone. So the interleaving of `Interleaving` is refined where workspaces are created or
released: a planner owns one while it works, a decision of `start` or `_advance` reads,
then acts on the workspaces, then commits or aborts, all under the run's lock, and
`handle_dead_job` releases the run's workspaces after its commit.
-/

namespace AgenticPlatform

/-! ### The manager -/

/-- `_Record`, as far as the bookkeeping reads it. -/
structure WorkspaceRecord where
  id : WorkspaceId
  runId : RunId
deriving DecidableEq, Repr

/-- `_records`, keyed by workspace. -/
structure WorkspaceManager where
  records : List WorkspaceRecord
deriving DecidableEq, Repr

namespace WorkspaceManager

/-- The assignment at the end of `create`. -/
def create (manager : WorkspaceManager) (runId : RunId) (id : WorkspaceId) : WorkspaceManager :=
  ⟨manager.records.filter (fun record => record.id ≠ id) ++ [⟨id, runId⟩]⟩

/-- `release`; releasing an unknown workspace is a no-op. -/
def release (manager : WorkspaceManager) (id : WorkspaceId) : WorkspaceManager :=
  ⟨manager.records.filter fun record => record.id ≠ id⟩

/-- `release_run`: the run's workspaces are collected, then released one by one. Presumed:
    git returns for each of them; where it raises, the rest stays registered. -/
def releaseRun (manager : WorkspaceManager) (runId : RunId) : WorkspaceManager :=
  let targets := (manager.records.filter fun record => record.runId = runId).map WorkspaceRecord.id
  targets.foldl release manager

variable {manager : WorkspaceManager} {record : WorkspaceRecord} {runId : RunId} {id : WorkspaceId}

@[simp] theorem mem_create : record ∈ (manager.create runId id).records ↔
    (record ∈ manager.records ∧ record.id ≠ id) ∨ record = ⟨id, runId⟩ := by
  simp [create]

@[simp] theorem mem_release :
    record ∈ (manager.release id).records ↔ record ∈ manager.records ∧ record.id ≠ id := by
  simp [release]

theorem mem_releases {targets : List WorkspaceId} :
    record ∈ (targets.foldl release manager).records ↔
      record ∈ manager.records ∧ record.id ∉ targets := by
  induction targets generalizing manager with
  | nil => simp
  | cons first rest ih => simp [ih, and_assoc]

/-- What `release_run` leaves was there before, and belongs to other runs. -/
theorem mem_releaseRun (h : record ∈ (manager.releaseRun runId).records) :
    record ∈ manager.records ∧ record.runId ≠ runId := by
  obtain ⟨hmem, hkept⟩ := mem_releases.mp h
  refine ⟨hmem, fun hrun => hkept ?_⟩
  apply List.mem_map_of_mem
  exact List.mem_filter.mpr ⟨hmem, by simpa using hrun⟩

/-- Several workspaces for one run. -/
theorem mem_creates {ids : List WorkspaceId}
    (h : record ∈ (ids.foldl (fun manager id => manager.create runId id) manager).records) :
    record ∈ manager.records ∨ record.runId = runId := by
  induction ids generalizing manager with
  | nil => exact .inl h
  | cons first rest ih =>
    rcases ih h with hmem | hrun
    · rcases mem_create.mp hmem with hold | rfl
      · exact .inl hold.1
      · exact .inr rfl
    · exact .inr hrun

end WorkspaceManager

/-! ### Decisions in progress -/

/-- The transactions that may open candidates or end a run, under the run's lock. -/
inductive Deciding where
  | start | advance
deriving DecidableEq, Repr

/-- A decision between its reads and its commit: the row it read, the workspaces it asks
    the manager for, and what it left in memory. -/
structure Decision where
  seen : Run
  now : Instant
  created : List WorkspaceId
  outcome : Except PyError Progress
  acted : Bool

namespace Orchestrator

variable (o : Orchestrator)

/-- The workspaces the loop of `_open_candidates` gets before the first refusal. -/
def createdEach (ws : Workspaces) (runId : RunId) : Nat → List Nat → List WorkspaceId
  | _, [] => []
  | issued, _ :: rest =>
      match ws.create runId ⟨o.ids.draw issued⟩ with
      | .error _ => []
      | .ok id => id :: createdEach ws runId (issued + 2) rest

/-- The decisions that reach `_open_candidates`. -/
def opensCandidates (run : Run) : Bool :=
  run.status == .planReady || (run.status == .created && !requiresPlan run)

/-- The workspaces a decision about this run asks for. -/
def created (ws : Workspaces) (issued : Nat) (run : Run) : List WorkspaceId :=
  if opensCandidates run then o.createdEach ws run.id issued (List.range run.candidateCount) else []

/-- The reads of `start` and of `_advance`, and what they decide; none when they return
    or raise before anything is decided. -/
def decision (ws : Workspaces) (now : Instant) (runId : RunId) (w : World) :
    Deciding → Option Decision
  | .start =>
      match w.db.run? runId with
      | none => none
      | some run =>
          if run.status ≠ .created then none
          else
            match w.db.requireProject run with
            | .error _ => none
            | .ok _ =>
                some ⟨run, now, o.created ws w.issued run,
                  o.openFirstStage ws now w.issued run [], false⟩
  | .advance =>
      match w.db.run? runId with
      | none => none
      | some run =>
          if run.isTerminal ∨ run.isCancelling then none
          else
            match w.db.requireProject run with
            | .error _ => none
            | .ok project =>
                if hasUnfinished (w.db.jobsOf runId) then none
                else
                  some ⟨run, now, o.created ws w.issued run,
                    o.nextStep ws now w.issued run project (w.db.candidatesOf runId), false⟩

end Orchestrator

namespace Decision

/-- It completed or failed the run, which is when it calls `release_run`. -/
def ends (d : Decision) : Bool :=
  match d.outcome with
  | .error _ => false
  | .ok p => p.run.isTerminal

/-- What it does to the workspaces. -/
def act (d : Decision) (manager : WorkspaceManager) : WorkspaceManager :=
  let manager := d.created.foldl (fun manager id => manager.create d.seen.id id) manager
  if d.ends then manager.releaseRun d.seen.id else manager

/-- The identifiers it used up. -/
def issued (d : Decision) (before : Nat) : Nat :=
  match d.outcome with
  | .error _ => before
  | .ok p => p.issued

end Decision

/-- The row is still the one that was read; these are the columns a transaction writes. -/
def Run.unchanged (seen row : Run) : Bool :=
  seen.status == row.status && seen.planId == row.planId &&
    seen.planRevisions == row.planRevisions && seen.repairIterations == row.repairIterations &&
    seen.reviewIterations == row.reviewIterations &&
    seen.selectedCandidateId == row.selectedCandidateId && seen.tokenUsage == row.tokenUsage &&
    seen.startedAt == row.startedAt && seen.completedAt == row.completedAt &&
    seen.updatedAt == row.updatedAt && seen.failureKind == row.failureKind &&
    seen.failureReason == row.failureReason

/-- The platform with its workspaces: those planners work in, the decisions in progress,
    and the dead jobs' runs whose workspaces are still to be released. -/
structure Premises where
  system : System
  manager : WorkspaceManager
  planning : LeaseToken → Option WorkspaceId
  deciding : RunId → Option Decision
  sweeping : List RunId

/-- One turn of some task. `move` is everything that touches no workspace. -/
inductive Turn where
  | move (move : Move)
  | enterPlan (token : LeaseToken) (answer : Except String WorkspaceId)
  | leavePlan (token : LeaseToken)
  | read (deciding : Deciding) (ws : Workspaces) (now : Instant) (runId : RunId)
  | act (runId : RunId)
  | finish (runId : RunId) (accepted : Bool)
  | bury (n : Nat) (now : Instant)
  | sweep (runId : RunId)

namespace Premises

/-- The moves that are turns of their own here, and those a planner is not ready for. -/
def refuses (s : Premises) : Move → Bool
  | .advance _ _ => true
  | .bury _ _ => true
  | .resume token _ => (s.planning token).isSome
  | _ => false

/-- The end of a decision. Presumed: one whose run was overwritten since it was read does
    not commit; the version that the commit compares is the one `update` found. -/
def finished (s : Premises) (runId : RunId) (d : Decision) (accepted : Bool) : Premises :=
  let s := { s with deciding := Function.update s.deciding runId none }
  match d.outcome, s.system.world.db.run? runId with
  | .ok p, some row =>
      if accepted ∧ d.acted ∧ d.seen.unchanged row then
        { s with
          system := { s.system with
            world := { s.system.world with db := s.system.world.db.store p d.now }
            pending := s.system.pending ++
              p.followUps.map fun job => (job.persisted d.now).stored } }
      else s
  | _, _ => s

/-- `handle_dead_job` up to its commit. -/
def buried (s : Premises) (job : Job) (now : Instant) : Premises :=
  match s.system.world.db.run? job.runId with
  | none => s
  | some run =>
      if run.isTerminal then s
      else
        { s with
          system := { s.system with
            world := (Orchestrator.handleDeadJob now job s.system.world).self }
          sweeping := s.sweeping ++ [job.runId] }

/-- One turn; a turn that is not possible changes nothing. -/
def step (o : Orchestrator) (s : Premises) : Turn → Premises
  | .move move =>
      if s.refuses move then s
      else { s with system := (s.system.step o .calm move).getD s.system }
  | .enterPlan token answer =>
      match s.system.holders token, s.planning token, answer with
      | some (.working job _), none, .ok id =>
          if job.type = .plan then
            { s with
              manager := s.manager.create job.runId id
              planning := Function.update s.planning token (some id) }
          else s
      | _, _, _ => s
  | .leavePlan token =>
      match s.planning token with
      | none => s
      | some id =>
          { s with
            manager := s.manager.release id
            planning := Function.update s.planning token none }
  | .read kind ws now runId =>
      match s.deciding runId, o.decision ws now runId s.system.world kind with
      | none, some d =>
          { s with
            system := { s.system with
              world := { s.system.world with issued := d.issued s.system.world.issued } }
            deciding := Function.update s.deciding runId (some d) }
      | _, _ => s
  | .act runId =>
      match s.deciding runId with
      | none => s
      | some d =>
          if d.acted then s
          else
            { s with
              manager := d.act s.manager
              deciding := Function.update s.deciding runId (some { d with acted := true }) }
  | .finish runId accepted =>
      match s.deciding runId with
      | none => s
      | some d => s.finished runId d accepted
  | .bury n now =>
      match s.system.dead[n]? with
      | none => s
      | some job =>
          -- the run's lock is taken for the transaction
          if (s.deciding job.runId).isSome then s
          else
            { s with system := { s.system with dead := s.system.dead.eraseIdx n } }.buried job now
  | .sweep runId =>
      if runId ∈ s.sweeping then
        { s with manager := s.manager.releaseRun runId, sweeping := s.sweeping.erase runId }
      else s

/-- A platform on which nothing is under way and no workspace exists. -/
def empty (w : World) : Premises :=
  ⟨.idle w, ⟨[]⟩, fun _ => none, fun _ => none, []⟩

end Premises

/-! ### A decision nobody interrupts -/

namespace Orchestrator

variable {o : Orchestrator} {ws : Workspaces} {now : Instant} {runId : RunId} {w : World}
  {run : Run} {d : Decision} {kind : Deciding}

/-- The transaction a decision belongs to. -/
def commits (o : Orchestrator) (ws : Workspaces) (now : Instant) (runId : RunId) (w : World) :
    Deciding → Except PyError (World × List Job)
  | .start => o.startCommit ws now runId w
  | .advance => o.advanceCommit ws now runId w

/-- What a decision read, and which branch of the workflow it took. -/
theorem decision_some (h : o.decision ws now runId w kind = some d) :
    w.db.run? runId = some d.seen ∧ d.seen.isTerminal = false ∧ d.now = now ∧ d.acted = false ∧
      d.created = o.created ws w.issued d.seen ∧
      ((kind = .start ∧ d.seen.status = .created ∧
          d.outcome = o.openFirstStage ws now w.issued d.seen []) ∨
        (kind = .advance ∧ ∃ project, d.outcome =
          o.nextStep ws now w.issued d.seen project (w.db.candidatesOf runId))) := by
  cases kind with
  | start =>
    simp only [decision] at h
    split at h
    · cases h
    · rename_i run hrun
      split at h
      · cases h
      · rename_i hcreated
        have hcreated : run.status = .created := by simpa using hcreated
        split at h
        · cases h
        · cases h
          exact ⟨hrun, by simp [Run.isTerminal, hcreated, RunStatus.isTerminal], rfl, rfl, rfl,
            .inl ⟨rfl, hcreated, rfl⟩⟩
  | advance =>
    simp only [decision] at h
    split at h
    · cases h
    · rename_i run hrun
      split at h
      · cases h
      · rename_i hlive
        split at h
        · cases h
        · rename_i project hproject
          split at h
          · cases h
          · cases h
            simp only [not_or, Bool.not_eq_true] at hlive
            exact ⟨hrun, hlive.1, rfl, rfl, rfl, .inr ⟨rfl, project, rfl⟩⟩

end Orchestrator

namespace Premises

variable {o : Orchestrator} {s : Premises} {ws : Workspaces} {now : Instant} {runId : RunId}
  {d : Decision} {kind : Deciding} {p : Progress}

end Premises

end AgenticPlatform
