import AgenticPlatform.TerminalJobs

/-!
# Transactions that stay open

In `Interleaving` a transaction is one piece. A repository's `update` reads the row again
only to overwrite it, so the version it compares is never the one the transaction has
seen, and anybody may commit between the reads of a transaction and its own commit. Here
a transaction may be one piece as before, or two: it reads, which fixes the copies that it will
store, and later it stores them over whatever the rows have become. A terminal job row
keeps its status as long as holders are fenced and no open transaction is overtaken: what it read
unfinished is not terminal by now.
-/

namespace AgenticPlatform

/-! ### What a transaction reads, and what it stores -/

namespace Orchestrator

variable (o : Orchestrator)

/-- The reads of `_advance`, and the decision they lead to. -/
def advanceRead (ws : Workspaces) (now : Instant) (runId : RunId) (w : World) :
    Except PyError (Option Progress) :=
  match w.db.run? runId with
  | none => .ok none
  | some run =>
      if run.isTerminal ∨ run.isCancelling then .ok none
      else do
        let project ← w.db.requireProject run
        if hasUnfinished (w.db.jobsOf runId) then .ok none
        else do
          let progress ← o.nextStep ws now w.issued run project (w.db.candidatesOf runId)
          return some progress

/-- `_advance` stores the decision it has read. -/
theorem advanceCommit_eq (ws : Workspaces) (now : Instant) (runId : RunId) (w : World) :
    o.advanceCommit ws now runId w = (o.advanceRead ws now runId w).map fun found =>
      found.elim (w, []) fun p => (committed w p now, publication p now) := by
  unfold advanceCommit advanceRead
  cases w.db.run? runId with
  | none => rfl
  | some run =>
    simp only
    by_cases hstop : run.isTerminal = true ∨ run.isCancelling = true
    · rw [if_pos hstop, if_pos hstop]
      rfl
    · rw [if_neg hstop, if_neg hstop]
      cases w.db.requireProject run with
      | error e => rfl
      | ok project =>
        simp only [ok_bind]
        by_cases hunfinished : hasUnfinished (w.db.jobsOf runId) = true
        · rw [if_pos hunfinished, if_pos hunfinished]
          rfl
        · rw [if_neg hunfinished, if_neg hunfinished]
          cases o.nextStep ws now w.issued run project (w.db.candidatesOf runId) <;> rfl

/-- The read of `handle_dead_job`: the copy that fails a live run. -/
def deadRead (now : Instant) (job : Job) (db : Db) : Except PyError (Option Run) :=
  match db.run? job.runId with
  | none => .ok none
  | some run =>
      if run.isTerminal then .ok none
      else do
        let run ← (run.fail now (job.failureKind.getD .infrastructure) (deadJobReason job)).after
        return some run

/-- `handle_dead_job` stores the copy it has made. -/
theorem handleDeadJob_self (now : Instant) (job : Job) (w : World) :
    (handleDeadJob now job w).self = (deadRead now job w.db).toOption.join.elim w fun run =>
      { w with db := (w.db.setRun run).append run.events } := by
  unfold handleDeadJob deadRead
  cases w.db.run? job.runId with
  | none => rfl
  | some run =>
    simp only
    by_cases hterminal : run.isTerminal = true
    · rw [if_pos hterminal, if_pos hterminal]
      rfl
    · rw [if_neg hterminal, if_neg hterminal]
      cases (run.fail now (job.failureKind.getD .infrastructure) (deadJobReason job)).after <;> rfl

end Orchestrator

/-- The first read of `CancelRunUseCase.execute`: the copy of the run that it stores in
    the end, unless the run is stopping already. -/
def cancelRead (now : Instant) (runId : RunId) (reason : Option String) (db : Db) :
    Except PyError (Option Run) := do
  let run ← db.requireRun runId
  let (run, requested) ← (run.requestCancellation now reason).outcome
  if requested then
    let run ← (run.confirmCancelled now reason).after
    return some run
  else return none

namespace Db

/-- The tables once a cancellation stored its run, and its copies of the rows it listed. -/
def cancelListed (db listed : Db) (run : Run) (now : Instant) : Db :=
  let candidates := (listed.candidatesOf run.id).map fun candidate => candidate.cancel now
  { db with
    jobs := db.jobs.map fun row =>
      match listed.job? row.id with
      | some job => if job.runId = run.id then (job.cancel now).stored else row
      | none => row
    candidates := Table.putAll Candidate.id db.candidates (candidates.map Candidate.stored)
    runs := Table.put Run.id db.runs run.stored
    events := db.events ++ candidates.flatMap Candidate.events ++ run.events }

variable {db listed : Db} {run : Run} {now : Instant} {runId : RunId} {reason : Option String}

/-- Nothing came in between. -/
theorem cancelListed_self (hnodup : (db.jobs.map Job.id).Nodup) :
    db.cancelListed db run now = db.cancelRun run now := by
  have hjobs : (db.jobs.map fun row =>
      match db.job? row.id with
      | some job => if job.runId = run.id then (job.cancel now).stored else row
      | none => row) =
      db.jobs.map fun job => if job.runId = run.id then (job.cancel now).stored else job := by
    refine List.map_congr_left fun row hrow => ?_
    have hfind : db.job? row.id = some row := Table.find_of_mem hnodup hrow
    rw [hfind]
  unfold cancelListed cancelRun
  rw [hjobs]

theorem cancelRunCommit_eq (hnodup : (db.jobs.map Job.id).Nodup) :
    cancelRunCommit now runId reason db = (cancelRead now runId reason db).map fun found =>
      found.map fun run => db.cancelListed db run now := by
  unfold cancelRunCommit cancelRead
  cases db.requireRun runId with
  | error e => rfl
  | ok old =>
    simp only [ok_bind]
    cases (old.requestCancellation now reason).outcome with
    | error e => rfl
    | ok asked =>
      obtain ⟨run, requested⟩ := asked
      simp only [ok_bind]
      cases requested with
      | false => rfl
      | true =>
        simp only [if_true]
        cases (run.confirmCancelled now reason).after with
        | error e => rfl
        | ok stopped =>
          simp only [ok_bind, pure_eq_ok]
          show _ = Except.ok (some (db.cancelListed db stopped now))
          rw [cancelListed_self hnodup]

end Db

/-- What the open transaction of a holder has read: that its run is stopping, what its
    stage came to, the run of a job that failed, the row of a job to be retried. -/
inductive HolderRead where
  | stopping
  | stage (effect : Effect)
  | failure (run : Option Run)
  | failed (row : Job)

/-- The reads of a holder's next transaction, and the identifiers drawn by then. Where
    they raise, or where nothing is stored after them, the transaction is one piece. -/
def Holder.read (o : Orchestrator) (a : Answers) (w : World) : Holder → Option (HolderRead × Nat)
  | .claimed job _ =>
      match a.check .opening with
      | .error _ => none
      | .ok () =>
          match w.db.requireRun job.runId with
          | .error _ => none
          | .ok run =>
              if run.isCancelling ∨ run.isTerminal then some (.stopping, w.issued) else none
  | .working job _ =>
      match o.stageEffect a job w with
      | .error _ => none
      | .ok effect => some (.stage effect, effect.issued)
  | .reporting job _ _ => some (.failure (w.db.run? job.runId), w.issued)
  | .requeueing jobId _ => (w.db.job? jobId).map fun row => (.failed row, w.issued)
  | .acknowledging _ _ => none
  | .releasing _ _ _ => none

/-- The rest of the transaction, on the tables as they are by then. -/
def Holder.store (o : Orchestrator) (a : Answers) (w : World) : Holder → HolderRead → Piece
  | .claimed job lease, .stopping => .cancelled a job lease w
  | .working job lease, .stage effect => .completed a job lease effect w.issued w
  | .reporting job lease e, .failure run => .reported o a job lease e run w
  | .requeueing _ reason, .failed row => .requeued a row reason w
  | holder, _ => ⟨w, some holder, none⟩

/-- A transaction that stores at once is the piece that `resume` runs. -/
theorem Holder.store_read {o : Orchestrator} {a : Answers} {w : World} {holder : Holder}
    {found : HolderRead} {issued : Nat} (h : holder.read o a w = some (found, issued)) :
    (holder.store o a w found).world.db = (holder.resume o a w).world.db ∧
      (holder.store o a w found).world.queue = (holder.resume o a w).world.queue ∧
      (holder.store o a w found).holder = (holder.resume o a w).holder ∧
      (holder.store o a w found).publish = (holder.resume o a w).publish := by
  cases holder with
  | claimed job lease =>
    simp only [Holder.read] at h
    split at h
    · cases h
    · rename_i hopened
      split at h
      · cases h
      · rename_i run hrun
        split at h
        · rename_i hstop
          cases h
          have hpiece : Holder.resume o a w (.claimed job lease) = .cancelled a job lease w := by
            simp only [Holder.resume, hopened, hrun, if_pos hstop]
            rfl
          rw [hpiece]
          exact ⟨rfl, rfl, rfl, rfl⟩
        · cases h
  | working job lease =>
    simp only [Holder.read] at h
    split at h
    · cases h
    · rename_i effect heffect
      cases h
      simp only [Holder.store, Piece.completed, Holder.resume, heffect]
      cases (completing a job lease effect w.db).result <;> exact ⟨rfl, rfl, rfl, rfl⟩
  | reporting job lease e =>
    cases h
    exact ⟨rfl, rfl, rfl, rfl⟩
  | requeueing jobId reason =>
    obtain ⟨row, hrow, hread⟩ := Option.map_eq_some_iff.mp h
    cases hread
    have hpiece : Holder.resume o a w (.requeueing jobId reason) = .requeued a row reason w := by
      simp only [Holder.resume, hrow]
      rfl
    rw [hpiece]
    exact ⟨rfl, rfl, rfl, rfl⟩
  | acknowledging job lease => cases h
  | releasing job lease decision => cases h

/-- An open transaction of `_advance`, of the maintenance loop, or of a cancellation
    before and after it listed its jobs. -/
inductive Transaction where
  | advance (progress : Progress) (now : Instant)
  | expire (job : Job) (now : Instant)
  | bury (run : Run)
  | cancelling (run : Run) (now : Instant)
  | cancel (run : Run) (listed : Db) (now : Instant)

/-- The commit of an open transaction. `update` raises when the run's row is gone; a
    cancellation does not commit before it listed its jobs. -/
def System.commit (s : System) : Transaction → Option System
  | .advance p now =>
      match s.world.db.run? p.run.id with
      | none => some s
      | some _ =>
          some { s with
            world := { s.world with db := s.world.db.store p now }
            pending := s.pending ++ Orchestrator.publication p now }
  | .expire job now => some (s.expireRow now job)
  | .bury run =>
      match s.world.db.run? run.id with
      | none => some s
      | some _ =>
          some { s with
            world := { s.world with db := (s.world.db.setRun run).append run.events } }
  | .cancelling _ _ => none
  | .cancel run listed now =>
      match s.world.db.run? run.id with
      | none => some s
      | some _ =>
          some { s with
            world := { s.world with db := s.world.db.cancelListed listed run now }
            cancelled := s.cancelled ++ [run.id] }

/-- The interleaving, with what the open transaction of each holder has read and the open
    transactions of everybody else. -/
structure Concurrent where
  system : System
  reading : LeaseToken → Option HolderRead
  opened : List Transaction

namespace Concurrent

inductive Action where
  | move (move : Move)
  | read (token : LeaseToken) (a : Answers)
  | store (token : LeaseToken) (a : Answers)
  | readAdvance (now : Instant) (runId : RunId)
  | readExpired (n : Nat) (now : Instant)
  | readDead (n : Nat) (now : Instant)
  | readCancel (now : Instant) (runId : RunId) (reason : Option String)
  | listJobs (n : Nat)
  | commit (n : Nat)

/-- A holder whose transaction is open runs no other piece. -/
def free (c : Concurrent) : Move → Bool
  | .resume token _ => (c.reading token).isNone
  | _ => true

/-- A transaction has read its rows and stays open. -/
def opening (c : Concurrent) (t : Transaction) : Concurrent := { c with opened := c.opened ++ [t] }

/-- Identifiers were drawn. -/
def drawing (c : Concurrent) (issued : Nat) : Concurrent :=
  { c with system := { c.system with world := { c.system.world with issued } } }

/-- One action, if it is enabled. -/
def step (o : Orchestrator) (ws : Workspaces) (c : Concurrent) : Action → Option Concurrent
  | .move move =>
      if c.free move then (c.system.step o ws move).map fun system => { c with system } else none
  | .read token a =>
      match c.system.holders token, c.reading token with
      | some holder, none =>
          (holder.read o a c.system.world).map fun found =>
            { c.drawing found.2 with
              reading := Function.update c.reading token (some found.1) }
      | _, _ => none
  | .store token a =>
      match c.system.holders token, c.reading token with
      | some holder, some found =>
          some { c with
            system := c.system.ran token (holder.store o a c.system.world found)
            reading := Function.update c.reading token none }
      | _, _ => none
  | .readAdvance now runId =>
      match o.advanceRead ws now runId c.system.world with
      | .ok (some progress) => some ((c.drawing progress.issued).opening (.advance progress now))
      | _ => some c
  | .readExpired n now =>
      match c.system.lapsed[n]? with
      | none => none
      | some jobId =>
          let rest := { c with system := { c.system with lapsed := c.system.lapsed.eraseIdx n } }
          match c.system.world.db.job? jobId with
          | none => some rest
          | some job =>
              if job.status.isTerminal then some rest else some (rest.opening (.expire job now))
  | .readDead n now =>
      match c.system.dead[n]? with
      | none => none
      | some job =>
          let rest := { c with system := { c.system with dead := c.system.dead.eraseIdx n } }
          match Orchestrator.deadRead now job c.system.world.db with
          | .ok (some run) => some (rest.opening (.bury run))
          | _ => some rest
  | .readCancel now runId reason =>
      match cancelRead now runId reason c.system.world.db with
      | .ok (some run) => some (c.opening (.cancelling run now))
      | _ => some c
  | .listJobs n =>
      match c.opened[n]? with
      | some (.cancelling run now) =>
          some { c with opened := c.opened.set n (.cancel run c.system.world.db now) }
      | _ => none
  | .commit n =>
      match c.opened[n]? with
      | none => none
      | some t =>
          (c.system.commit t).map fun system =>
            { c with system, opened := c.opened.eraseIdx n }

/-- A finite interleaving. -/
def run (o : Orchestrator) (ws : Workspaces) (c : Concurrent) : List Action → Option Concurrent
  | [] => some c
  | action :: rest => (c.step o ws action).bind fun c => run o ws c rest

/-- Nothing is under way. -/
def idle (w : World) : Concurrent := ⟨.idle w, fun _ => none, []⟩

end Concurrent

/-! ### Transactions that are not overtaken -/

/-- A holder stores while it owns the job, or repeats what the row says, and no row that
    its transaction read unfinished is terminal by now. -/
def System.FencedStore (s : System) (a : Answers) : Holder → HolderRead → Prop
  | .claimed job lease, .stopping => s.Owns job lease ∨ s.RowIs job.id .cancelled
  | .working job lease, .stage _ => a.now < lease.expiresAt → s.Owns job lease
  | .reporting job lease _, .failure read =>
      (s.Owns job lease ∨ (job.status.isTerminal = true ∧ s.RowIs job.id job.status)) ∧
        ∀ run, read = some run → run.isTerminal = false → ¬ s.RunCancelled job.runId
  | .requeueing _ _, .failed row => s.Open row.id
  | _, _ => True

/-- No run that the transaction read unfinished was cancelled, and no job is finished. -/
def System.FencedCommit (s : System) : Transaction → Prop
  | .advance p _ => ¬ s.RunCancelled p.run.id
  | .expire job _ => s.Open job.id
  | .bury run => ¬ s.RunCancelled run.id
  | .cancelling _ _ => True
  | .cancel run listed _ => ∀ id job, listed.job? id = some job → job.runId = run.id →
      job.status.isTerminal = false → s.Open id

namespace Concurrent

def Fenced (c : Concurrent) : Action → Prop
  | .move move => c.system.Fenced move
  | .store token a => ∀ holder found, c.system.holders token = some holder →
      c.reading token = some found → c.system.FencedStore a holder found
  | .commit n => ∀ t, c.opened[n]? = some t → c.system.FencedCommit t
  | _ => True

/-- Every action of the interleaving is fenced where it is made. -/
def FencedRun (o : Orchestrator) (ws : Workspaces) (c : Concurrent) : List Action → Prop
  | [] => True
  | action :: rest => c.Fenced action ∧ ∀ c', c.step o ws action = some c' → FencedRun o ws c' rest

end Concurrent

/-! ### What an open transaction knows -/

section

variable (id : JobId) (runId : RunId)

/-- What a holder has read fits the copy it holds. -/
def HolderRead.Sound : Holder → HolderRead → Prop
  | .claimed _ _, .stopping => True
  | .working job _, .stage effect => ∀ run, effect.run = some run → run.id = job.runId
  | .reporting job _ _, .failure read => ∀ run, read = some run → run.id = job.runId
  | .requeueing _ _, .failed row => row.id = id → row.runId = runId
  | _, _ => False

/-- The copies of the watched row carry no lease, and where one is terminal the row still
    says so. -/
def Transaction.Sound (s : System) : Transaction → Prop
  | .advance p now => ∀ job ∈ Orchestrator.publication p now, job.lease = none ∧ job.id ≠ id
  | .expire job _ => job.status.isTerminal = false ∧
      (job.id = id → job.lease = none ∧ job.runId = runId)
  | .bury _ => True
  | .cancelling run _ => run.status = .cancelled
  | .cancel run listed _ => run.status = .cancelled ∧ ∀ job, listed.job? id = some job →
      job.lease = none ∧ job.runId = runId ∧
        (job.status.isTerminal = true → s.RowIs id job.status)

end

variable {o : Orchestrator} {ws : Workspaces} {id : JobId} {runId : RunId} {s s' : System}

theorem Transaction.Sound.absorbed {t : Transaction} (h : t.Sound id runId s)
    (habsorbs : System.Absorbs id s s') : t.Sound id runId s' := by
  cases t with
  | advance p now => exact h
  | expire job now => exact h
  | bury run => exact h
  | cancelling run now => exact h
  | cancel run listed now =>
    refine ⟨h.1, fun job hjob => ?_⟩
    obtain ⟨hlease, hrun, hrow⟩ := h.2 job hjob
    exact ⟨hlease, hrun, fun hterminal => habsorbs _ hterminal (hrow hterminal)⟩

namespace System

theorem Absorbs.refl (s : System) : Absorbs id s s := fun _ _ hrow => hrow

theorem Absorbs.trans {s'' : System} (h : Absorbs id s s') (h' : Absorbs id s' s'') :
    Absorbs id s s'' := fun status hterminal hrow => h' status hterminal (h status hterminal hrow)

/-- The rest of a holder's transaction. -/
theorem store_keeps (h : Watched o id runId s) {token : LeaseToken} {a : Answers} {holder : Holder}
    {found : HolderRead} (hholder : s.holders token = some holder)
    (hfound : found.Sound id runId holder) (hfence : s.FencedStore a holder found) :
    Watched o id runId (s.ran token (holder.store o a s.world found)) ∧
      Absorbs id s (s.ran token (holder.store o a s.world found)) := by
  cases holder with
  | claimed job lease =>
    cases found with
    | stopping =>
      exact cancelled_keeps h (h.holders token _ job lease hholder rfl)
        (h.fresh token job lease (.inl hholder)).1 hfence
    | stage effect => exact hfound.elim
    | failure read => exact hfound.elim
    | failed row => exact hfound.elim
  | working job lease =>
    cases found with
    | stage effect =>
      obtain ⟨hleased, hlease⟩ := h.fresh token job lease (.inr hholder)
      exact completed_keeps h (h.holders token _ job lease hholder rfl) hleased hlease
        (Nat.le_refl _) hfound hfence
    | stopping => exact hfound.elim
    | failure read => exact hfound.elim
    | failed row => exact hfound.elim
  | reporting job lease e =>
    cases found with
    | failure read =>
      exact reported_keeps h (h.holders token _ job lease hholder rfl) hfound hfence.1 hfence.2
    | stopping => exact hfound.elim
    | stage effect => exact hfound.elim
    | failed row => exact hfound.elim
  | requeueing jobId reason =>
    cases found with
    | failed row => exact requeued_keeps h hfound fun _ hid => hid ▸ hfence
    | stopping => exact hfound.elim
    | stage effect => exact hfound.elim
    | failure read => exact hfound.elim
  | acknowledging job lease => exact hfound.elim
  | releasing job lease decision => exact hfound.elim

/-- A cancellation closes the listed rows that are open, and those only. -/
theorem RowKept.cancelListed {run old : Run} {listed : Db} {now : Instant}
    (hsound : (Transaction.cancel run listed now).Sound id runId s)
    (hfence : s.FencedCommit (.cancel run listed now)) (hold : s.world.db.run? run.id = some old)
    (hdb : s'.world.db = s.world.db.cancelListed listed run now)
    (hissued : s.world.issued ≤ s'.world.issued) : RowKept id runId s s' := by
  obtain ⟨hcancelled, hlisted⟩ := hsound
  have hrun? : ∀ other, s'.world.db.run? other =
      if other = run.id then some run.stored else s.world.db.run? other := fun other => by
    rw [hdb]
    have hfind : Table.find Run.id s.world.db.runs run.stored.id = some old := hold
    exact Table.find_put hfind other
  have hjob? : s'.world.db.job? id = (s.world.db.job? id).map fun row =>
      match listed.job? row.id with
      | some job => if job.runId = run.id then (job.cancel now).stored else row
      | none => row := by
    rw [hdb]
    refine Table.find_map s.world.db.jobs _ (fun row => ?_) id
    split
    · rename_i job hjob
      split
      · exact (Job.id_of_work (Job.cancel_work job now)).trans (Table.find_key hjob)
      · rfl
    · rfl
  refine ⟨fun row hfind hlease hrun => ?_, ?_, hissued⟩
  · have hid : row.id = id := Table.find_key hfind
    rw [hjob?, hfind, Option.map_some, hid]
    cases hjob : listed.job? id with
    | none => exact ⟨row, rfl, hlease, hrun, .inl rfl⟩
    | some job =>
      obtain ⟨hfree, hjobrun, hrow⟩ := hlisted job hjob
      by_cases heq : job.runId = run.id
      · refine ⟨(job.cancel now).stored, by simp only [if_pos heq], ?_,
          (Job.runId_of_work (Job.cancel_work job now)).trans hjobrun, ?_⟩
        · show (job.cancel now).lease = none
          unfold Job.cancel
          split
          · exact hfree
          · rfl
        · cases hterminal : job.status.isTerminal with
          | true =>
            obtain ⟨same, hsame, hstatus⟩ := hrow hterminal
            rw [hfind, Option.some.injEq] at hsame
            subst hsame
            exact .inl (by simp [Job.stored, Job.cancel, hterminal, hstatus])
          | false =>
            obtain ⟨same, hsame, hopen⟩ := hfence id job hjob heq hterminal
            rw [hfind, Option.some.injEq] at hsame
            subst hsame
            exact .inr ⟨hopen, .inr ⟨run.stored, by rw [hrun?, if_pos (hjobrun.symm.trans heq)],
              hcancelled⟩⟩
      · exact ⟨row, by simp only [if_neg heq], hlease, hrun, .inl rfl⟩
  · rintro ⟨found, hfound, hstatus⟩
    unfold RunCancelled Db.RunCancelled
    rw [hrun?]
    split
    · exact ⟨run.stored, rfl, hcancelled⟩
    · exact ⟨found, hfound, hstatus⟩

/-- **The commit of a transaction that was not overtaken.** -/
theorem commit_keeps (h : Watched o id runId s) {t : Transaction} (hsound : t.Sound id runId s)
    (hfence : s.FencedCommit t) (hcommit : s.commit t = some s') :
    Watched o id runId s' ∧ Absorbs id s s' ∧ s'.holders = s.holders := by
  cases t with
  | advance p now =>
    simp only [commit] at hcommit
    split at hcommit
    · cases hcommit
      exact ⟨h, .refl s, rfl⟩
    · rename_i old hold
      cases hcommit
      have hrow : RowKept id runId s { s with
          world := { s.world with db := s.world.db.store p now }
          pending := s.pending ++ Orchestrator.publication p now } :=
        .store rfl hold hfence (Nat.le_refl _)
      refine ⟨h.kept hrow (.of_queue h rfl) rfl fun job hjob => ?_, hrow.absorbs h, rfl⟩
      rcases List.mem_append.mp hjob with hmem | hnew
      · exact .inl hmem
      · obtain ⟨hlease, hne⟩ := hsound job hnew
        exact .inr ⟨hlease, fun hsame => absurd hsame hne⟩
  | expire job now =>
    cases hcommit
    obtain ⟨hwatched, habsorbs⟩ := expireRow_keeps h now hsound.1 fun hid =>
      ⟨(hsound.2 hid).1, (hsound.2 hid).2, hid ▸ hfence⟩
    exact ⟨hwatched, habsorbs, expireRow_holders s now job⟩
  | bury run =>
    simp only [commit] at hcommit
    split at hcommit
    · cases hcommit
      exact ⟨h, .refl s, rfl⟩
    · cases hcommit
      have hrow : RowKept id runId s { s with
          world := { s.world with db := (s.world.db.setRun run).append run.events } } := by
        refine ⟨fun row hfind hlease hrun => ⟨row, hfind, hlease, hrun, .inl rfl⟩, fun hc => ?_,
          Nat.le_refl _⟩
        exact (hc.setRun_other fun heq => hfence (heq ▸ hc)).of_run? rfl
      exact ⟨h.kept hrow (.of_queue h rfl) rfl fun _ hmem => .inl hmem, hrow.absorbs h, rfl⟩
  | cancelling run now => cases hcommit
  | cancel run listed now =>
    simp only [commit] at hcommit
    split at hcommit
    · cases hcommit
      exact ⟨h, .refl s, rfl⟩
    · rename_i old hold
      cases hcommit
      have hrow : RowKept id runId s { s with
          world := { s.world with db := s.world.db.cancelListed listed run now }
          cancelled := s.cancelled ++ [run.id] } :=
        .cancelListed hsound hfence hold rfl (Nat.le_refl _)
      exact ⟨h.kept hrow (.of_queue h rfl) rfl fun _ hmem => .inl hmem, hrow.absorbs h, rfl⟩

end System

/-! ### Reading -/

/-- Reading takes identifiers at most. -/
theorem Holder.read_grows {a : Answers} {w : World} {holder : Holder} {found : HolderRead}
    {issued : Nat} (h : holder.read o a w = some (found, issued)) : w.issued ≤ issued := by
  cases holder with
  | claimed job lease =>
    simp only [Holder.read] at h
    split at h
    · cases h
    · split at h
      · cases h
      · split at h <;> cases h
        exact Nat.le_refl _
  | working job lease =>
    simp only [Holder.read] at h
    split at h
    · cases h
    · rename_i effect heffect
      cases h
      exact Orchestrator.stageEffect_grows heffect
  | reporting job lease e =>
    cases h
    exact Nat.le_refl _
  | requeueing jobId reason =>
    obtain ⟨row, -, hread⟩ := Option.map_eq_some_iff.mp h
    cases hread
    exact Nat.le_refl _
  | acknowledging job lease => cases h
  | releasing job lease decision => cases h

/-- What a holder reads fits its copy. -/
theorem Holder.read_sound (hw : System.Watched o id runId s) {a : Answers} {holder : Holder}
    {found : HolderRead} {issued : Nat} (h : holder.read o a s.world = some (found, issued)) :
    found.Sound id runId holder := by
  cases holder with
  | claimed job lease =>
    simp only [Holder.read] at h
    split at h
    · cases h
    · split at h
      · cases h
      · split at h <;> cases h
        exact trivial
  | working job lease =>
    simp only [Holder.read] at h
    split at h
    · cases h
    · rename_i effect heffect
      cases h
      exact fun run hrun => Orchestrator.stageEffect_runId heffect hrun
  | reporting job lease e =>
    cases h
    exact fun run hrun => Table.find_key hrun
  | requeueing jobId reason =>
    obtain ⟨row, hrow, hread⟩ := Option.map_eq_some_iff.mp h
    cases hread
    have hkey : row.id = jobId := Table.find_key hrow
    subst hkey
    exact fun hid => (hw.read hrow hid).2
  | acknowledging job lease => cases h
  | releasing job lease decision => cases h

/-- A decision that `_advance` reached on the tables. -/
theorem Orchestrator.advanceRead_ok {now : Instant} {w : World} {p : Progress}
    (h : o.advanceRead ws now runId w = .ok (some p)) :
    ∃ run, Orchestrator.Sound o w.issued run (w.db.candidatesOf runId) p := by
  unfold advanceRead at h
  split at h
  · cases h
  · rename_i run hrun
    split at h
    · cases h
    · rename_i hstop
      simp only [not_or, Bool.not_eq_true] at hstop
      obtain ⟨project, -, h⟩ := bind_eq_ok.mp h
      split at h
      · cases h
      · obtain ⟨progress, hp, h⟩ := bind_eq_ok.mp h
        cases h
        exact ⟨run, nextStep_sound hstop.1 hp⟩

/-- A cancellation stores a cancelled copy. -/
theorem cancelRead_ok {now : Instant} {reason : Option String} {db : Db} {run : Run}
    (h : cancelRead now runId reason db = .ok (some run)) : run.status = .cancelled := by
  unfold cancelRead at h
  obtain ⟨old, -, h⟩ := bind_eq_ok.mp h
  obtain ⟨⟨asked, requested⟩, -, h⟩ := bind_eq_ok.mp h
  cases requested with
  | false => cases h
  | true =>
    obtain ⟨stopped, hstopped, h⟩ := bind_eq_ok.mp h
    cases h
    unfold Run.confirmCancelled at hstopped
    split at hstopped
    · rename_i hsame
      cases hstopped
      exact hsame
    · obtain ⟨-, rfl⟩ := Run.transitioning_after.mp hstopped
      rfl

namespace Concurrent

/-- **The invariant**: the one of the system, with what the open transactions know. -/
structure Sound (o : Orchestrator) (id : JobId) (runId : RunId) (c : Concurrent) : Prop where
  watched : System.Watched o id runId c.system
  reading : ∀ token found, c.reading token = some found →
    ∃ holder, c.system.holders token = some holder ∧ found.Sound id runId holder
  opened : ∀ t ∈ c.opened, t.Sound id runId c.system

variable {c c' : Concurrent}

/-- A step of the system that leaves the holders whose transaction is open alone. -/
theorem Sound.stepped (h : c.Sound o id runId)
    (hkept : System.Watched o id runId c'.system ∧ System.Absorbs id c.system c'.system)
    (hreading : ∀ token found, c'.reading token = some found →
      ∃ holder, c'.system.holders token = some holder ∧ found.Sound id runId holder)
    (hopened : ∀ t ∈ c'.opened, t ∈ c.opened ∨ t.Sound id runId c'.system) :
    c'.Sound o id runId ∧ System.Absorbs id c.system c'.system := by
  refine ⟨⟨hkept.1, hreading, fun t ht => ?_⟩, hkept.2⟩
  rcases hopened t ht with hold | hnew
  · exact (h.opened t hold).absorbed hkept.2
  · exact hnew

theorem mem_opening {t t' : Transaction} (h : t ∈ (c.opening t').opened) : t ∈ c.opened ∨ t = t' := by
  simpa [opening] using h

/-- Drawing identifiers changes no row. -/
theorem Sound.drawing (h : c.Sound o id runId) {issued : Nat} (hissued : c.system.world.issued ≤ issued) :
    System.Watched o id runId (c.drawing issued).system ∧
      System.Absorbs id c.system (c.drawing issued).system := by
  have hrow : System.RowKept id runId c.system (c.drawing issued).system := .of_db rfl hissued
  exact ⟨h.watched.kept hrow (.of_queue h.watched rfl) rfl fun _ hmem => .inl hmem,
    hrow.absorbs h.watched⟩

theorem move_keeps (h : c.Sound o id runId) {move : Move} (hstep : c.step o ws (.move move) = some c')
    (hfence : c.system.Fenced move) :
    c'.Sound o id runId ∧ System.Absorbs id c.system c'.system := by
  simp only [step] at hstep
  split at hstep
  · rename_i hfree
    obtain ⟨system, hsystem, rfl⟩ := Option.map_eq_some_iff.mp hstep
    refine h.stepped (System.step_keeps h.watched hsystem hfence) (fun token found hfound => ?_)
      fun t ht => .inl ht
    obtain ⟨holder, hholder, hsound⟩ := h.reading token found hfound
    refine ⟨holder, System.step_holders hsystem hholder ?_, hsound⟩
    rintro a rfl
    have hfound : c.reading token = some found := hfound
    simp [free, hfound] at hfree
  · cases hstep

theorem read_keeps (h : c.Sound o id runId) {token : LeaseToken} {a : Answers}
    (hstep : c.step o ws (.read token a) = some c') :
    c'.Sound o id runId ∧ System.Absorbs id c.system c'.system := by
  simp only [step] at hstep
  split at hstep
  · rename_i holder hholder hnone
    obtain ⟨found, hfound, rfl⟩ := Option.map_eq_some_iff.mp hstep
    refine h.stepped (h.drawing (Holder.read_grows hfound)) (fun other seen hseen => ?_)
      fun t ht => .inl ht
    by_cases heq : other = token
    · subst heq
      simp only [Function.update_self, Option.some.injEq] at hseen
      subst hseen
      exact ⟨holder, hholder, Holder.read_sound h.watched hfound⟩
    · simp only [Function.update_of_ne heq] at hseen
      exact h.reading other seen hseen
  · cases hstep

theorem store_keeps (h : c.Sound o id runId) {token : LeaseToken} {a : Answers}
    (hstep : c.step o ws (.store token a) = some c') (hfence : c.Fenced (.store token a)) :
    c'.Sound o id runId ∧ System.Absorbs id c.system c'.system := by
  simp only [step] at hstep
  split at hstep
  · rename_i holder found hholder hfound
    cases hstep
    obtain ⟨other, hother, hsound⟩ := h.reading token found hfound
    rw [hholder, Option.some.injEq] at hother
    subst hother
    refine h.stepped (System.store_keeps h.watched hholder hsound (hfence _ _ hholder hfound))
      (fun other seen hseen => ?_) fun t ht => .inl ht
    by_cases heq : other = token
    · subst heq
      simp only [Function.update_self] at hseen
      cases hseen
    · simp only [Function.update_of_ne heq] at hseen
      obtain ⟨last, hlast, hsound⟩ := h.reading other seen hseen
      refine ⟨last, ?_, hsound⟩
      simp only [System.ran, System.setHolder, Function.update_of_ne heq]
      exact hlast
  · cases hstep

theorem commit_keeps (h : c.Sound o id runId) {n : Nat} (hstep : c.step o ws (.commit n) = some c')
    (hfence : c.Fenced (.commit n)) :
    c'.Sound o id runId ∧ System.Absorbs id c.system c'.system := by
  simp only [step] at hstep
  split at hstep
  · cases hstep
  · rename_i t ht
    obtain ⟨system, hcommit, rfl⟩ := Option.map_eq_some_iff.mp hstep
    obtain ⟨hwatched, habsorbs, hholders⟩ := System.commit_keeps h.watched
      (h.opened t (List.mem_of_getElem? ht)) (hfence t ht) hcommit
    refine h.stepped ⟨hwatched, habsorbs⟩ (fun token found hfound => ?_)
      fun t ht => .inl (List.mem_of_mem_eraseIdx ht)
    show ∃ holder, system.holders token = some holder ∧ _
    rw [hholders]
    exact h.reading token found hfound

/-- A transaction of the maintenance loop or of a cancellation opens, or only looks. -/
theorem opening_keeps (h : c.Sound o id runId) (c' : Concurrent) {t : Transaction}
    (hkept : System.Watched o id runId c'.system ∧ System.Absorbs id c.system c'.system)
    (hholders : c'.system.holders = c.system.holders) (hreading : c'.reading = c.reading)
    (hopened : c'.opened = c.opened) (ht : t.Sound id runId c'.system) :
    (c'.opening t).Sound o id runId ∧ System.Absorbs id c.system (c'.opening t).system := by
  refine h.stepped hkept (fun token found hfound => ?_) fun other hother => ?_
  · show ∃ holder, c'.system.holders token = some holder ∧ _
    rw [hholders]
    exact h.reading token found (hreading ▸ hfound)
  · rcases mem_opening hother with hold | rfl
    · exact .inl (hopened ▸ hold)
    · exact .inr ht

/-- A list of work to do got shorter. -/
theorem looked_keeps (h : c.Sound o id runId) (lapsed : List JobId) (dead : List Job) :
    System.Watched o id runId { c.system with lapsed, dead } ∧
      System.Absorbs id c.system { c.system with lapsed, dead } := by
  have hrow : System.RowKept id runId c.system { c.system with lapsed, dead } :=
    .of_db rfl (Nat.le_refl _)
  exact ⟨h.watched.kept hrow (.of_queue h.watched rfl) rfl fun _ hmem => .inl hmem,
    hrow.absorbs h.watched⟩

theorem readExpired_keeps (h : c.Sound o id runId) {n : Nat} {now : Instant}
    (hstep : c.step o ws (.readExpired n now) = some c') :
    c'.Sound o id runId ∧ System.Absorbs id c.system c'.system := by
  simp only [step] at hstep
  split at hstep
  · cases hstep
  · rename_i jobId hjobId
    have hkept := looked_keeps h (c.system.lapsed.eraseIdx n) c.system.dead
    split at hstep
    · cases hstep
      exact h.stepped hkept h.reading fun t ht => .inl ht
    · rename_i job hjob
      have hkey : job.id = jobId := Table.find_key hjob
      subst hkey
      split at hstep
      · cases hstep
        exact h.stepped hkept h.reading fun t ht => .inl ht
      · rename_i hopen
        cases hstep
        exact opening_keeps h { c with
          system := { c.system with lapsed := c.system.lapsed.eraseIdx n } } hkept rfl rfl rfl
          ⟨by simpa using hopen, h.watched.read hjob⟩

theorem readDead_keeps (h : c.Sound o id runId) {n : Nat} {now : Instant}
    (hstep : c.step o ws (.readDead n now) = some c') :
    c'.Sound o id runId ∧ System.Absorbs id c.system c'.system := by
  simp only [step] at hstep
  split at hstep
  · cases hstep
  · have hkept := looked_keeps h c.system.lapsed (c.system.dead.eraseIdx n)
    split at hstep
    · cases hstep
      exact opening_keeps h { c with
        system := { c.system with dead := c.system.dead.eraseIdx n } } hkept rfl rfl rfl trivial
    · cases hstep
      exact h.stepped hkept h.reading fun t ht => .inl ht

/-- The listed rows are the ones that the tables have now. -/
theorem listJobs_keeps (h : c.Sound o id runId) {n : Nat} (hstep : c.step o ws (.listJobs n) = some c') :
    c'.Sound o id runId ∧ System.Absorbs id c.system c'.system := by
  simp only [step] at hstep
  split at hstep
  · rename_i run now ht
    cases hstep
    refine h.stepped ⟨h.watched, .refl _⟩ h.reading fun t hmem => ?_
    rcases List.mem_or_eq_of_mem_set hmem with hold | rfl
    · exact .inl hold
    · refine .inr ⟨h.opened _ (List.mem_of_getElem? ht), fun job hjob => ?_⟩
      have hid : job.id = id := Table.find_key hjob
      subst hid
      obtain ⟨hlease, hrun⟩ := h.watched.read hjob rfl
      exact ⟨hlease, hrun, fun _ => ⟨job, hjob, rfl⟩⟩
  · cases hstep

/-- **One fenced action**: the invariant is kept, and a terminal row keeps its status. -/
theorem step_keeps (h : c.Sound o id runId) {action : Action} (hstep : c.step o ws action = some c')
    (hfence : c.Fenced action) : c'.Sound o id runId ∧ System.Absorbs id c.system c'.system := by
  cases action with
  | move move => exact move_keeps h hstep hfence
  | read token a => exact read_keeps h hstep
  | store token a => exact store_keeps h hstep hfence
  | readAdvance now other =>
    simp only [step] at hstep
    split at hstep
    · rename_i p hread
      cases hstep
      obtain ⟨run, hsound⟩ := Orchestrator.advanceRead_ok hread
      exact opening_keeps h (c.drawing p.issued) (h.drawing hsound.grows) rfl rfl rfl
        fun job hjob => h.watched.publication hsound now hjob
    · cases hstep
      exact ⟨h, .refl _⟩
  | readExpired n now => exact readExpired_keeps h hstep
  | readDead n now => exact readDead_keeps h hstep
  | readCancel now other reason =>
    simp only [step] at hstep
    split at hstep
    · rename_i run hread
      cases hstep
      exact opening_keeps h c ⟨h.watched, .refl _⟩ rfl rfl rfl (cancelRead_ok hread)
    · cases hstep
      exact ⟨h, .refl _⟩
  | listJobs n => exact listJobs_keeps h hstep
  | commit n => exact commit_keeps h hstep hfence

/-! ### Whole interleavings -/

theorem run_keeps (actions : List Action) (h : c.Sound o id runId)
    (hfenced : c.FencedRun o ws actions) (hrun : c.run o ws actions = some c') :
    c'.Sound o id runId ∧ System.Absorbs id c.system c'.system := by
  induction actions generalizing c with
  | nil =>
    cases hrun
    exact ⟨h, .refl _⟩
  | cons action rest ih =>
    obtain ⟨next, hstep, hrest⟩ := Option.bind_eq_some_iff.mp hrun
    obtain ⟨hsound, habsorbs⟩ := step_keeps h hstep hfenced.1
    obtain ⟨hfinal, habsorbs'⟩ := ih hsound (hfenced.2 next hstep) hrest
    exact ⟨hfinal, habsorbs.trans habsorbs'⟩

theorem fencedRun_append {before after : List Action} (h : c.FencedRun o ws (before ++ after)) :
    c.FencedRun o ws before ∧ ∀ c', c.run o ws before = some c' → c'.FencedRun o ws after := by
  induction before generalizing c with
  | nil => exact ⟨trivial, fun c' hc' => by cases hc'; exact h⟩
  | cons action rest ih =>
    refine ⟨⟨h.1, fun next hnext => (ih (h.2 next hnext)).1⟩, fun c' hc' => ?_⟩
    obtain ⟨next, hstep, hrest⟩ := Option.bind_eq_some_iff.mp hc'
    exact (ih (h.2 next hstep)).2 c' hrest

theorem idle_sound {w : World} {row : Job} (h : System.Published o w id row) :
    (idle w).Sound o id row.runId where
  watched := System.idle_watched h
  reading := by rintro _ _ ⟨⟩
  opened := by rintro _ ⟨⟩

/-- **Terminal rows absorb in every fenced interleaving** of any number of holders, the
    maintenance loop and cancellations, whatever comes between the reads of a transaction
    and its commit. -/
theorem terminal_row_absorbs {w : World} {row : Job} {status : JobStatus}
    (h : System.Published o w id row) (before after : List Action)
    (hfenced : (idle w).FencedRun o ws (before ++ after))
    (hbefore : (idle w).run o ws before = some c) (hafter : c.run o ws after = some c')
    (hterminal : status.isTerminal = true) (hrow : c.system.RowIs id status) :
    c'.system.RowIs id status := by
  obtain ⟨hfirst, hsecond⟩ := fencedRun_append hfenced
  obtain ⟨hsound, -⟩ := run_keeps before (idle_sound h) hfirst hbefore
  exact (run_keeps after hsound (hsecond c hbefore) hafter).2 status hterminal hrow

end Concurrent

namespace Sample

def tokenB : LeaseToken := ⟨"lease-2", second_lease_named⟩

/-- The published sample job with its candidate, before anybody claims it. -/
def publishedWorld : World :=
  let w := World.fresh (project {}) codingRun
  { w with
    db := { w.db with jobs := [publishedJob 3 count_three], candidates := [candidate] }
    queue := JobQueue.empty.enqueue (publishedJob 3 count_three)
    issued := 8 }

theorem publishedWorld_published :
    System.Published (orchestrator 3 (by decide)) publishedWorld ⟨7⟩ (publishedJob 3 (by decide))
    where
  drawn := ⟨7, by decide, rfl⟩
  stored := rfl
  lease := rfl
  queue_inv := by
    have hpub : (JobQueue.empty.slot (publishedJob 3 (by decide)).id).Publishable
        (publishedJob 3 (by decide)) := by
      rw [JobQueue.slot_empty]
      exact ⟨rfl, by simp⟩
    exact (JobQueue.Reachable.enqueue _ .empty hpub).inv
  record := by
    intro record hr
    cases hr
    rfl

/-- The coder's connection breaks. -/
def brokenAnswers (now : Instant) : Answers :=
  { coderAnswers now with coder := .error (.inference "connection reset") }

def claimMove (now : Instant) (token : LeaseToken) : Move :=
  .claim consumer [.code] 120000000 now token

/-- One holder claims the job and completes it; its last transaction stays open while a
    cancellation reads the run. -/
def oneHolder : List Concurrent.Action :=
  [.move (claimMove 10 token), .move (.resume token (coderAnswers 20)), .read token (coderAnswers 30),
    .readCancel 31 ⟨2⟩ none, .store token (coderAnswers 32)]

/-- The cancellation lists the jobs and commits. -/
def cancellation : List Concurrent.Action := [.listJobs 0, .commit 0]

/-- The cancellation has listed the jobs before the holder stores. -/
def overtaken : List Concurrent.Action :=
  [.move (claimMove 10 token), .move (.resume token (coderAnswers 20)), .read token (coderAnswers 30),
    .readCancel 31 ⟨2⟩ none, .listJobs 0, .store token (coderAnswers 32)]

/-- A first holder loses its lease, a second one completes the job. -/
def twoHolders : List Concurrent.Action :=
  [.move (claimMove 10 token), .move (.resume token (coderAnswers 20)), .move (.reclaim 120000010 100),
    .move (claimMove 120000020 tokenB), .move (.resume tokenB (coderAnswers 120000030)),
    .move (.resume tokenB (coderAnswers 120000040))]

/-- The first holder notices its own failure only now. -/
def lateReport : List Concurrent.Action :=
  [.move (.resume token (brokenAnswers 120000050)), .move (.resume token (brokenAnswers 120000060))]

end Sample

namespace Concurrent

/-- A holder that keeps its lease, and a cancellation that lists the jobs after it. -/
theorem oneHolder_fenced : (idle Sample.publishedWorld).FencedRun (Sample.orchestrator 3 (by decide))
    .calm (Sample.oneHolder ++ Sample.cancellation) := by
  refine ⟨?_, fun c₁ h₁ => ?_⟩
  · intro job lease hclaim
    cases hclaim
    exact .inl ⟨_, rfl, rfl⟩
  cases h₁
  refine ⟨?_, fun c₂ h₂ => ?_⟩
  · intro holder hholder
    cases hholder
    rintro ⟨run, hrun, hstop⟩
    cases hrun
    rcases hstop with hstop | hstop <;> cases hstop
  cases h₂
  refine ⟨trivial, fun c₃ h₃ => ?_⟩
  cases h₃
  refine ⟨trivial, fun c₄ h₄ => ?_⟩
  cases h₄
  refine ⟨?_, fun c₅ h₅ => ?_⟩
  · intro holder found hholder hfound
    cases hholder
    cases hfound
    refine fun _ => ⟨rfl, ?_⟩
    rintro ⟨run, hrun, hstatus⟩
    cases hrun
    cases hstatus
  cases h₅
  refine ⟨trivial, fun c₆ h₆ => ?_⟩
  cases h₆
  refine ⟨?_, fun _ _ => trivial⟩
  intro t ht
  cases ht
  intro id job hjob hrun hopen
  -- the only job was stored before the cancellation listed it
  rcases List.mem_singleton.mp (Table.mem_of_find hjob) with rfl
  cases hopen

/-- The sample job stays a success once its only holder stored it. -/
theorem terminal_row_absorbs_sample :
    ∃ c', (idle Sample.publishedWorld).run (Sample.orchestrator 3 (by decide)) .calm
        (Sample.oneHolder ++ Sample.cancellation) = some c' ∧
      c'.system.RowIs ⟨7⟩ .succeeded :=
  ⟨_, rfl, terminal_row_absorbs Sample.publishedWorld_published Sample.oneHolder
    Sample.cancellation oneHolder_fenced rfl rfl rfl ⟨_, rfl, rfl⟩⟩

/-- The late report of a holder that lost its lease turns a success into a failure. -/
theorem late_report_overwrites :
    ∃ c c', (idle Sample.publishedWorld).run (Sample.orchestrator 3 (by decide)) .calm
        Sample.twoHolders = some c ∧
      c.run (Sample.orchestrator 3 (by decide)) .calm Sample.lateReport = some c' ∧
      c.system.RowIs ⟨7⟩ .succeeded ∧ c'.system.RowIs ⟨7⟩ .failed := by
  exact ⟨_, _, rfl, rfl, ⟨_, rfl, rfl⟩, _, rfl, rfl⟩

/-- So does the commit of a cancellation that listed the job while it was open. -/
theorem late_cancellation_overwrites :
    ∃ c c', (idle Sample.publishedWorld).run (Sample.orchestrator 3 (by decide)) .calm
        Sample.overtaken = some c ∧
      c.run (Sample.orchestrator 3 (by decide)) .calm [.commit 0] = some c' ∧
      c.system.RowIs ⟨7⟩ .succeeded ∧ c'.system.RowIs ⟨7⟩ .cancelled := by
  exact ⟨_, _, rfl, rfl, ⟨_, rfl, rfl⟩, _, rfl, rfl⟩

end Concurrent

end AgenticPlatform
