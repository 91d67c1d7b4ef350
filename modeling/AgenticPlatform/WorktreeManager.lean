import AgenticPlatform.Dict
import AgenticPlatform.NumberText
import AgenticPlatform.Ownership
import AgenticPlatform.Runs
import AgenticPlatform.WorkspaceTools
import Mathlib.Data.Finset.Insert

/-!
# The workspace manager

`create` and `release` await the lock, git and the file system, so that calls run between
each other: a call stands before its next piece of work, and any other call may take its
own first. A piece may go well, fail, or be interrupted by an error or a cancellation.
Git and the threads that an interrupted call has started go on without it, so what they
leave at its path is decided later.
-/

namespace AgenticPlatform

open Dict

inductive WorkspaceKind where
  | gitWorktree | clone | snapshot | readonly
deriving DecidableEq, Repr

/-- `workspace_id.value.hex[:12]`. -/
def WorkspaceId.shortHex (id : WorkspaceId) : List Char := (List.range' 0 12).map (uuidDigit id.value)

/-- `role.value.lower()`. -/
def WorkspaceRole.lower (role : WorkspaceRole) : List Char := role.value.toList.map Char.toLower

/-- The one directory that a workspace may own. -/
def workspacePath (root : String) (runId : RunId) (role : WorkspaceRole) (id : WorkspaceId) : String :=
  root ++ "/" ++ runId.str ++ "/" ++ String.ofList role.lower ++ "-" ++
    String.ofList (WorkspaceId.shortHex id)

/-- What `create` knows of a workspace before it is there. -/
structure Checkout where
  id : WorkspaceId
  runId : RunId
  role : WorkspaceRole
  path : String
deriving DecidableEq

/-- `_Record`. -/
structure CheckoutRecord where
  checkout : Checkout
  kind : WorkspaceKind
deriving DecidableEq

/-- How a piece of work ends; `left` tells whether something is at the path then. -/
inductive PieceOutcome where
  | done
  | failed (left : Bool)
  | interrupted (left : Bool)

def PieceOutcome.left : PieceOutcome → Bool
  | .done => false
  | .failed left => left
  | .interrupted left => left

/-- Where a call of the manager stands: before which piece of its work. A stranded call is
    over, but what it reserved stays reserved. -/
inductive WorkspaceTask where
  | allocating (checkout : Checkout)
  | preparing (checkout : Checkout)
  | addingWorktree (checkout : Checkout)
  | clearing (checkout : Checkout)
  | cloning (checkout : Checkout)
  | checkingOut (checkout : Checkout)
  | registering (checkout : Checkout) (kind : WorkspaceKind)
  | forgetting (checkout : Checkout)
  | sweeping (checkout : Checkout)
  | releasing (id : WorkspaceId)
  | removingWorktree (record : CheckoutRecord)
  | removingTree (record : CheckoutRecord)
  | pruning (record : CheckoutRecord)
  | stranded (checkout : Checkout)

/-- A worktree is first removed by git. -/
def CheckoutRecord.removing (record : CheckoutRecord) : WorkspaceTask :=
  match record.kind with
  | .gitWorktree => .removingWorktree record
  | _ => .removingTree record

/-- `GitWorktreeWorkspaceManager`, the directories there are, and the calls under way.
    `created` are the workspaces that `create` was called for, `doomed` those that are
    given up. -/
structure WorktreeManager where
  root : String
  records : Dict WorkspaceId CheckoutRecord
  paths : Finset String
  disk : Finset String
  tasks : Nat → Option WorkspaceTask
  started : Nat
  created : List Checkout
  doomed : List Checkout

namespace WorktreeManager

/-- There is something at the path from now on, or nothing. -/
def settle (self : WorktreeManager) (path : String) (present : Bool) : WorktreeManager :=
  { self with disk := if present then insert path self.disk else self.disk.erase path }

/-- The workspace is given up. -/
def doom (self : WorktreeManager) (checkout : Checkout) : WorktreeManager :=
  { self with doomed := checkout :: self.doomed }

/-- `_forget`, and what `release` does under the lock. -/
def forget (self : WorktreeManager) (checkout : Checkout) : WorktreeManager :=
  { self with records := self.records.erase checkout.id, paths := self.paths.erase checkout.path }

/-- A piece of work on the checkout that raised: `create` undoes what it did. -/
def giveUp (self : WorktreeManager) (checkout : Checkout) (left : Bool) :
    WorktreeManager × Option WorkspaceTask :=
  ((self.settle checkout.path left).doom checkout, some (.forgetting checkout))

/-- The next piece of a call, and where the call stands then. -/
def resume (self : WorktreeManager) (outcome : PieceOutcome) :
    WorkspaceTask → WorktreeManager × Option WorkspaceTask
  -- `_allocate_path`, under the lock
  | .allocating checkout =>
      match outcome with
      | .done =>
          if checkout.path ∈ self.paths ∨ checkout.path ∈ self.disk then (self, none)
          else ({ self with paths := insert checkout.path self.paths }, some (.preparing checkout))
      | _ => (self, none)
  -- the directory of the run; the `try` of `create` has not begun yet
  | .preparing checkout =>
      match outcome with
      | .done => (self, some (.addingWorktree checkout))
      | _ => (self, some (.stranded checkout))
  -- `_materialize`
  | .addingWorktree checkout =>
      match outcome with
      | .done => (self.settle checkout.path true, some (.registering checkout .gitWorktree))
      | .failed left => (self.settle checkout.path left, some (.clearing checkout))
      | .interrupted left => self.giveUp checkout left
  | .clearing checkout =>
      match outcome with
      | .interrupted left => self.giveUp checkout left
      | outcome => (self.settle checkout.path outcome.left, some (.cloning checkout))
  | .cloning checkout =>
      match outcome with
      | .done => (self.settle checkout.path true, some (.checkingOut checkout))
      | outcome => self.giveUp checkout outcome.left
  | .checkingOut checkout =>
      match outcome with
      | .done => (self, some (.registering checkout .clone))
      | outcome => self.giveUp checkout outcome.left
  -- the end of `create`, under the lock
  | .registering checkout kind =>
      match outcome with
      | .done => ({ self with records := self.records.insert checkout.id ⟨checkout, kind⟩ }, none)
      | _ => (self, some (.stranded checkout))
  -- the `except` of `create`
  | .forgetting checkout =>
      match outcome with
      | .done => (self.forget checkout, some (.sweeping checkout))
      | _ => (self, some (.stranded checkout))
  | .sweeping checkout => (self.settle checkout.path outcome.left, none)
  -- `release`
  | .releasing id =>
      match outcome, self.records.lookup id with
      | .done, some record =>
          ((self.forget record.checkout).doom record.checkout, some record.removing)
      | _, _ => (self, none)
  | .removingWorktree record =>
      match outcome with
      | .interrupted left => (self.settle record.checkout.path left, none)
      | outcome => (self.settle record.checkout.path outcome.left, some (.removingTree record))
  | .removingTree record =>
      match outcome, record.kind with
      | .interrupted left, _ => (self.settle record.checkout.path left, none)
      | outcome, .gitWorktree => (self.settle record.checkout.path outcome.left, some (.pruning record))
      | outcome, _ => (self.settle record.checkout.path outcome.left, none)
  | .pruning _ => (self, none)
  | .stranded checkout => (self, some (.stranded checkout))

/-- A call begins. -/
def spawn (self : WorktreeManager) (task : WorkspaceTask) : WorktreeManager :=
  { self with tasks := Function.update self.tasks self.started (some task), started := self.started + 1 }

/-- `release_run`: the workspaces of the run; each is released by a call of its own here. -/
def targets (self : WorktreeManager) (runId : RunId) : List WorkspaceId :=
  (self.records.entries.filter fun entry => decide (entry.2.checkout.runId = runId)).map Sigma.fst

end WorktreeManager

/-- What happens to the manager. `uuid4` gives every workspace an id of its own. -/
inductive WorkspaceMove where
  | create (id : WorkspaceId) (runId : RunId) (role : WorkspaceRole)
  | release (id : WorkspaceId)
  | releaseRun (runId : RunId)
  | resume (task : Nat) (outcome : PieceOutcome)
  | settle (checkout : Checkout) (present : Bool)

namespace WorktreeManager

def step (self : WorktreeManager) : WorkspaceMove → WorktreeManager
  | .create id runId role =>
      if id ∈ self.created.map Checkout.id then self
      else
        let checkout : Checkout := ⟨id, runId, role, workspacePath self.root runId role id⟩
        { self with created := checkout :: self.created }.spawn (.allocating checkout)
  | .release id => self.spawn (.releasing id)
  | .releaseRun runId => (self.targets runId).foldl (fun self id => self.spawn (.releasing id)) self
  | .resume task outcome =>
      match self.tasks task with
      | none => self
      | some standing =>
          let resumed := self.resume outcome standing
          { resumed.1 with tasks := Function.update self.tasks task resumed.2 }
  -- what was left running decides about a workspace that is given up
  | .settle checkout present => if checkout ∈ self.doomed then self.settle checkout.path present else self

abbrev after (self : WorktreeManager) (moves : List WorkspaceMove) : WorktreeManager :=
  Runs.after step self moves

/-- A manager that has just been started, over whatever directories there are. -/
def fresh (root : String) (disk : Finset String) : WorktreeManager :=
  ⟨root, ∅, ∅, disk, fun _ => none, 0, [], []⟩

end WorktreeManager

end AgenticPlatform
