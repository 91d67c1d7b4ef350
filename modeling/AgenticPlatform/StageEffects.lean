import AgenticPlatform.LeaseRenewal

/-!
# Success and its effect

A stage's effect and its job are stored by one transaction, so a stored success should
imply a stored effect. The failure path breaks the implication: `complete` has already
changed the holder's job when the transaction fails, and `_handle_failure` then stores
that very job in a transaction of its own. This module says for every point at which a
dispatch can raise whether the implication holds.
-/

namespace AgenticPlatform

/-- The dispatch of an attempt got to `job.complete` with this effect. -/
structure Reaches (o : Orchestrator) (a : Answers) (job : Job) (w : World) (effect : Effect) :
    Prop where
  opened : a.fault .opening = none
  live : ∃ run, w.db.run? job.runId = some run ∧ run.isCancelling = false ∧ run.isTerminal = false
  effect_eq : o.stageEffect a job w = .ok effect

/-- The plan, the candidate with its patch, report or verdict, the tool results and the
    review are in the tables. -/
structure EffectStored (effect : Effect) (db : Db) : Prop where
  plan : ∀ plan, effect.plan = some plan → plan ∈ db.plans
  review : ∀ review, effect.review = some review → review ∈ db.reviews
  toolResults : ∀ result ∈ effect.toolResults, result ∈ db.toolResults
  candidate : ∀ candidate, effect.candidate = some candidate → candidate.stored ∈ db.candidates

/-- The transaction that stores the effect of the stage committed. -/
def StageCommitted (o : Orchestrator) (a : Answers) (job : Job) (lease : Lease) (w : World) : Prop :=
  ∃ effect db, Reaches o a job w effect ∧ (completing a job lease effect w.db).result = .ok db ∧
    EffectStored effect db

/-- A repository call after `job.complete`, or the commit itself, raises. -/
def WindowFault (a : Answers) (effect : Effect) : Prop :=
  a.fault .jobsUpdate ≠ none ∨ (effect.candidate.isSome = true ∧ a.fault .candidatesUpdate ≠ none) ∨
    (effect.run.isSome = true ∧ a.fault .runsUpdate ≠ none) ∨ a.fault .commit ≠ none

/-- The completion was accepted in memory and the transaction around it was lost. -/
def CommitLost (o : Orchestrator) (a : Answers) (job : Job) (lease : Lease) (w : World) : Prop :=
  ∃ effect, Reaches o a job w effect ∧ a.now < lease.expiresAt ∧ WindowFault a effect

/-- The job is stored as a success. -/
def StoredSuccess (id : JobId) (w : World) : Prop :=
  ∃ row, w.db.job? id = some row ∧ row.status = .succeeded

namespace Orchestrator

variable {o : Orchestrator} {a : Answers} {job : Job} {lease : Lease} {w : World} {run : Run}
  {effect : Effect} {row : Job}

theorem check_eq_ok {site : Site} : a.check site = .ok () ↔ a.fault site = none := by
  unfold Answers.check
  cases a.fault site <;> simp

theorem checkIf_eq_ok {called : Bool} {site : Site} :
    a.checkIf called site = .ok () ↔ (called = true → a.fault site = none) := by
  unfold Answers.checkIf
  cases called <;> simp [check_eq_ok]

/-! ### The completing transaction -/

theorem flush_eq_ok {db : Db} (hrow : db.job? job.id = some row) :
    a.flush db effect job = .ok () ↔
      a.fault .jobsUpdate = none ∧
        (effect.candidate.isSome = true → a.fault .candidatesUpdate = none) ∧
        (effect.run.isSome = true → a.fault .runsUpdate = none) := by
  unfold Answers.flush
  rw [bind_eq_ok]
  simp only [Db.updateJob_of_some hrow, ok_bind, bind_eq_ok, checkIf_eq_ok]
  constructor
  · rintro ⟨⟨⟩, hjobs, ⟨⟩, hcands, hruns⟩
    exact ⟨check_eq_ok.mp hjobs, checkIf_eq_ok.mp hcands, hruns⟩
  · rintro ⟨hjobs, hcands, hruns⟩
    exact ⟨(), check_eq_ok.mpr hjobs, (), checkIf_eq_ok.mpr hcands, hruns⟩

/-- A flush that went through found the job's row. -/
theorem flush_row {db : Db} (h : a.flush db effect job = .ok ()) :
    ∃ row, db.job? job.id = some row := by
  unfold Answers.flush at h
  obtain ⟨-, -, h⟩ := bind_eq_ok.mp h
  obtain ⟨db', hup, -⟩ := bind_eq_ok.mp h
  exact (Db.updateJob_eq_ok hup).1

/-- The effect of a stage is in the tables once its transaction committed. -/
theorem complete_stores (heffect : o.stageEffect a job w = .ok effect) (done : Job) :
    EffectStored effect (w.db.complete effect done) := by
  have hplans : (w.db.complete effect done).plans = w.db.plans ++ effect.plan.toList := by
    unfold Db.complete
    cases effect.run <;> cases effect.candidate <;> rfl
  have hreviews : (w.db.complete effect done).reviews = w.db.reviews ++ effect.review.toList := by
    unfold Db.complete
    cases effect.run <;> cases effect.candidate <;> rfl
  have hresults : (w.db.complete effect done).toolResults =
      w.db.toolResults ++ effect.toolResults := by
    unfold Db.complete
    cases effect.run <;> cases effect.candidate <;> rfl
  refine ⟨fun plan hplan => ?_, fun review hreview => ?_, fun result hresult => ?_,
    fun candidate hcandidate => ?_⟩
  · rw [hplans, hplan]
    simp
  · rw [hreviews, hreview]
    simp
  · rw [hresults]
    exact List.mem_append_right _ hresult
  · have hcands : (w.db.complete effect done).candidates =
        Table.put Candidate.id w.db.candidates candidate.stored := by
      unfold Db.complete
      rw [hcandidate]
      cases effect.run <;> rfl
    have hrow : ∃ old, w.db.candidate? candidate.id = some old := by
      rcases stageEffect_ok heffect with ⟨-, run, run', outcome, h⟩ |
        ⟨-, run, old, changed, outcome, h⟩ | ⟨stage, -, run, project, old, changed, results, h⟩ |
        ⟨-, run, old, outcome, h⟩
      · rw [h.candidate_eq] at hcandidate
        cases hcandidate
      · rw [h.candidate_eq, Option.some.injEq] at hcandidate
        rw [← hcandidate, h.id]
        exact ⟨old, h.candidate_row⟩
      · rw [h.candidate_eq, Option.some.injEq] at hcandidate
        rw [← hcandidate, h.changed_eq]
        exact ⟨old, h.candidate_row⟩
      · rw [h.candidate_eq, Option.some.injEq] at hcandidate
        rw [← hcandidate]
        exact ⟨old, h.candidate_row⟩
    obtain ⟨old, hold⟩ := hrow
    rw [hcands, Table.mem_put]
    exact .inl ⟨rfl, old, Table.mem_of_find hold, Table.find_key hold⟩

/-- The holder's copy once `complete` accepted its token. -/
structure Accepted (a : Answers) (job : Job) (lease : Lease) (done : Job) : Prop where
  in_time : a.now < lease.expiresAt
  work : done.work = job.work
  status : done.status = .succeeded
  lease : done.lease = none

/-- The three ends of a completing transaction: the completion is refused, it is accepted
    and lost, or it is stored. -/
theorem completing_cases (hopen : job.status = .leased) (hlease : job.lease = some lease)
    (effect : Effect) (db : Db) :
    (¬ a.now < lease.expiresAt ∧ ∃ e, completing a job lease effect db = .raised job e) ∨
    (∃ done e, Accepted a job lease done ∧ completing a job lease effect db = .raised done e ∧
      ((∃ row, db.job? job.id = some row) → WindowFault a effect)) ∨
    (∃ done : Job, Accepted a job lease done ∧ (∃ row, db.job? done.id = some row) ∧
      ¬ WindowFault a effect ∧
      completing a job lease effect db = .returned done.stored (db.complete effect done)) := by
  have hresult := Job.complete_result job lease.token a.now (some effect.result)
  cases hcomplete : (job.complete (some lease.token) a.now (some effect.result)).result with
  | error e =>
    refine .inl ⟨fun hin => ?_, e, ?_⟩
    · rw [hresult.mpr (.inr ⟨lease, hlease, rfl, hin⟩)] at hcomplete
      cases hcomplete
    · simp only [completing, hcomplete, Job.complete_raised hcomplete]
  | ok u =>
    have hin : a.now < lease.expiresAt := by
      rcases hresult.mp hcomplete with hs | ⟨held, hheld, -, hin⟩
      · rw [hopen] at hs
        cases hs
      · rw [hlease, Option.some.injEq] at hheld
        rw [hheld]
        exact hin
    have hne : job.status ≠ .succeeded := by rw [hopen]; simp
    let done := (job.complete (some lease.token) a.now (some effect.result)).self
    have haccepted : Accepted a job lease done :=
      ⟨hin, Job.complete_work _ _ _ _, Job.complete_status hcomplete,
        Job.complete_lease hne hcomplete⟩
    have hid : done.id = job.id := Job.id_of_work haccepted.work
    refine .inr ?_
    cases hf : a.flush db effect done with
    | error e =>
      refine .inl ⟨done, e, haccepted, ?_, ?_⟩
      · simp only [completing, hcomplete]
        rw [show a.flush db effect _ = .error e from hf]
      · rintro ⟨row, hrow⟩
        by_contra hnone
        unfold WindowFault at hnone
        simp only [not_or, not_and, not_not] at hnone
        rw [← hid] at hrow
        rw [(flush_eq_ok hrow).mpr ⟨hnone.1, hnone.2.1, hnone.2.2.1⟩] at hf
        cases hf
    | ok u =>
      obtain ⟨row, hrow⟩ := flush_row hf
      obtain ⟨hjobs, hcands, hruns⟩ := (flush_eq_ok hrow).mp hf
      cases hc : a.check .commit with
      | error e =>
        refine .inl ⟨done.stored, e, ⟨hin, haccepted.work, haccepted.status, haccepted.lease⟩, ?_,
          fun _ => .inr (.inr (.inr fun hnone => ?_))⟩
        · simp only [completing, hcomplete, hc]
          rw [show a.flush db effect _ = .ok () from hf]
        · rw [check_eq_ok.mpr hnone] at hc
          cases hc
      | ok u =>
        refine .inr ⟨done, haccepted, ⟨row, hrow⟩, ?_, ?_⟩
        · rintro (h | ⟨hsome, h⟩ | ⟨hsome, h⟩ | h)
          · exact h hjobs
          · exact h (hcands hsome)
          · exact h (hruns hsome)
          · exact h (check_eq_ok.mp hc)
        · simp only [completing, hcomplete, hc]
          rw [show a.flush db effect _ = .ok () from hf]

/-! ### Where an attempt ends -/

/-- A dispatch that raised is reported on the holder's copy as it then is. -/
theorem execute_of_raised (ws : Workspaces) {copy : Job} {e : PyError} {w' : World}
    (h : o.dispatch a job lease w = .raised (w', copy) e) :
    o.execute ws a job lease w = o.handleFailure ws a.now copy lease e w' := by
  simp only [execute, h, Call.result_raised, Call.self_raised]

/-- A dispatch that returned is followed by `_advance`. -/
theorem execute_of_returned (ws : Workspaces) {copy : Job} {w' : World}
    (h : o.dispatch a job lease w = .returned (w', copy) ()) :
    o.execute ws a job lease w = o.advance ws a.now job.runId w' := by
  simp only [execute, h, Call.result_returned, Call.self_returned]

/-- A row of any other status is no stored success. -/
theorem not_storedSuccess {id : JobId} (hrow : w.db.job? id = some row)
    (hstatus : row.status ≠ .succeeded) : ¬ StoredSuccess id w := by
  rintro ⟨other, hother, hsucceeded⟩
  rw [hrow, Option.some.injEq] at hother
  rw [hother] at hstatus
  exact hstatus hsucceeded

/-- The row of a job whose dispatch raised before it was completed or cancelled. -/
theorem execute_raised_open (ws : Workspaces) {e : PyError} (hinv : w.queue.Inv)
    (hopen : job.status = .leased) (hrow : w.db.job? job.id = some row)
    (hrun : w.db.run? job.runId = some run) (h : o.dispatch a job lease w = .raised (w, job) e) :
    ¬ StoredSuccess job.id (o.execute ws a job lease w).self := by
  have hnot : job.status.isTerminal = false := by rw [hopen]; rfl
  obtain ⟨row', hrow', hstatus⟩ := handleFailure_open ws a.now lease hinv hnot hrow hrun e
  rw [execute_of_raised ws h]
  exact not_storedSuccess hrow' hstatus

/-- The row of a job whose dispatch raised with a finished copy is that copy. -/
theorem execute_raised_done (ws : Workspaces) {copy : Job} {e : PyError} {w' : World}
    (hinv : w'.queue.Inv) (hdone : copy.status.isTerminal = true) (hwork : copy.work = job.work)
    (hrow : w'.db.job? job.id = some row) (hrun : w'.db.run? job.runId = some run)
    (h : o.dispatch a job lease w = .raised (w', copy) e) :
    (o.execute ws a job lease w).self.db.job? job.id = some copy.stored := by
  have hid : copy.id = job.id := Job.id_of_work hwork
  have hrunId : copy.runId = job.runId := Job.runId_of_work hwork
  rw [← hid] at hrow ⊢
  rw [← hrunId] at hrun
  rw [execute_of_raised ws h]
  exact handleFailure_terminal ws a.now lease hinv hdone hrow hrun e

/-- A stored copy stays stored through the acknowledgement and what follows it. -/
theorem execute_acknowledging (ws : Workspaces) {copy : Job} {w' : World}
    (h : o.dispatch a job lease w = acknowledging a copy lease w') (hinv : w'.queue.Inv)
    (hdone : copy.status.isTerminal = true) (hwork : copy.work = job.work)
    (hrow : w'.db.job? job.id = some copy.stored) (hrun : w'.db.run? job.runId = some run) :
    (o.execute ws a job lease w).self.db.job? job.id = some copy.stored := by
  unfold acknowledging at h
  cases hack : a.check .acknowledge with
  | error e =>
    rw [hack] at h
    exact execute_raised_done ws hinv hdone hwork hrow hrun h
  | ok u =>
    rw [hack] at h
    rw [execute_of_returned ws h]
    exact advance_job? ws a.now job.runId hrow

/-- The transaction for a stopping run is lost, or stores the cancelled copy. -/
theorem cancelling_cases (a : Answers) (job : Job) (db : Db) :
    (∃ e, cancelling a job db = .raised (job.cancel a.now) e) ∨
      (∃ old, db.job? (job.cancel a.now).id = some old) ∧
        cancelling a job db = .returned (job.cancel a.now) (db.setJob (job.cancel a.now)) := by
  unfold cancelling
  cases a.check .jobsUpdate with
  | error e => exact .inl ⟨e, rfl⟩
  | ok u =>
    cases hup : db.updateJob (job.cancel a.now) with
    | error e => exact .inl ⟨e, by simp only [hup]⟩
    | ok db' =>
      obtain ⟨hrow, rfl⟩ := Db.updateJob_eq_ok hup
      cases a.check .commit with
      | error e => exact .inl ⟨e, by simp only [hup]⟩
      | ok u => exact .inr ⟨hrow, by simp only [hup]⟩

theorem cancel_status (hopen : job.status = .leased) (now : Instant) :
    (job.cancel now).status = .cancelled := by
  simp [Job.cancel, hopen, JobStatus.isTerminal]

/-- The job of a stopping run ends cancelled. -/
theorem execute_stopping (ws : Workspaces) (hinv : w.queue.Inv) (hopen : job.status = .leased)
    (hrow : w.db.job? job.id = some row) (hrun : w.db.run? job.runId = some run)
    (hopened : a.fault .opening = none)
    (hstop : run.isCancelling = true ∨ run.isTerminal = true) :
    (o.execute ws a job lease w).self.db.job? job.id = some (job.cancel a.now).stored := by
  have hwork : (job.cancel a.now).work = job.work := Job.cancel_work job a.now
  have hid : (job.cancel a.now).id = job.id := Job.id_of_work hwork
  have hdone : (job.cancel a.now).status.isTerminal = true := by rw [cancel_status hopen]; rfl
  have hdispatch : o.dispatch a job lease w = cancelJob a job lease w := by
    simp only [dispatch, check_eq_ok.mpr hopened, Db.requireRun, hrun]
    rw [if_pos hstop]
  rcases cancelling_cases a job w.db with ⟨e, hcall⟩ | ⟨-, hcall⟩
  · refine execute_raised_done (e := e) ws hinv hdone hwork hrow hrun (hdispatch.trans ?_)
    simp only [cancelJob, hcall, Call.result_raised, Call.self_raised]
  · have hstored : (w.db.setJob (job.cancel a.now)).job? job.id =
        some (job.cancel a.now).stored := by
      have hfind : w.db.job? (job.cancel a.now).id = some row := by rw [hid]; exact hrow
      rw [Db.job?_setJob hfind, if_pos hid.symm]
    have hend : cancelJob a job lease w = acknowledging a (job.cancel a.now) lease
        { w with db := w.db.setJob (job.cancel a.now) } := by
      simp only [cancelJob, hcall, Call.result_returned, Call.self_returned]
    exact execute_acknowledging ws (hdispatch.trans hend) hinv hdone hwork hstored hrun

/-- Once the effect is computed, the job is a stored success exactly if its completion
    was accepted; the transaction may nevertheless have been lost. -/
theorem execute_reaches (ws : Workspaces) (hinv : w.queue.Inv) (hopen : job.status = .leased)
    (hlease : job.lease = some lease) (hrow : w.db.job? job.id = some row)
    (hreach : Reaches o a job w effect) :
    (¬ a.now < lease.expiresAt ∧ ¬ StoredSuccess job.id (o.execute ws a job lease w).self) ∨
    (a.now < lease.expiresAt ∧ WindowFault a effect ∧
      StoredSuccess job.id (o.execute ws a job lease w).self ∧
      ∀ db, (completing a job lease effect w.db).result ≠ .ok db) ∨
    (a.now < lease.expiresAt ∧ ¬ WindowFault a effect ∧
      ∃ db, (completing a job lease effect w.db).result = .ok db ∧ EffectStored effect db) := by
  obtain ⟨run, hrun, hnc, hlive⟩ := hreach.live
  have hdispatch : o.dispatch a job lease w = o.runStage a job lease w :=
    dispatch_eq_runStage (check_eq_ok.mpr hreach.opened) hrun hlive hnc
  rcases completing_cases (a := a) hopen hlease effect w.db with ⟨hlate, e, hcall⟩ |
    ⟨done, e, hdone, hcall, hwindow⟩ | ⟨done, hdone, -, hwindow, hcall⟩
  · refine .inl ⟨hlate, execute_raised_open (e := e) ws hinv hopen hrow hrun
      (hdispatch.trans ?_)⟩
    simp only [runStage, hreach.effect_eq, hcall, Call.result_raised, Call.self_raised]
  · refine .inr (.inl ⟨hdone.in_time, hwindow ⟨row, hrow⟩, ⟨done.stored, ?_, hdone.status⟩,
      fun db hdb => ?_⟩)
    · have hterminal : done.status.isTerminal = true := by rw [hdone.status]; rfl
      refine execute_raised_done (e := e) ws hinv hterminal hdone.work hrow hrun
        (hdispatch.trans ?_)
      simp only [runStage, hreach.effect_eq, hcall, Call.result_raised, Call.self_raised]
    · rw [hcall] at hdb
      cases hdb
  · refine .inr (.inr ⟨hdone.in_time, hwindow, w.db.complete effect done, ?_, ?_⟩)
    · rw [hcall]
      rfl
    · exact complete_stores hreach.effect_eq done

/-- An attempt that never got to `job.complete` stores no success. -/
theorem execute_not_reaches (ws : Workspaces) (hinv : w.queue.Inv) (hopen : job.status = .leased)
    (hrow : w.db.job? job.id = some row) (hrun : w.db.run? job.runId = some run)
    (hnot : ∀ effect, ¬ Reaches o a job w effect) :
    ¬ StoredSuccess job.id (o.execute ws a job lease w).self := by
  cases hopened : a.fault .opening with
  | some e =>
    have hcheck : a.check .opening = .error e := by simp [Answers.check, hopened]
    refine execute_raised_open (e := e) ws hinv hopen hrow hrun ?_
    simp only [dispatch, hcheck]
  | none =>
    by_cases hstop : run.isCancelling = true ∨ run.isTerminal = true
    · refine not_storedSuccess (execute_stopping ws hinv hopen hrow hrun hopened hstop) ?_
      simp [Job.stored, cancel_status hopen]
    · simp only [not_or, Bool.not_eq_true] at hstop
      have hdispatch : o.dispatch a job lease w = o.runStage a job lease w :=
        dispatch_eq_runStage (check_eq_ok.mpr hopened) hrun hstop.2 hstop.1
      cases heffect : o.stageEffect a job w with
      | ok effect => exact absurd ⟨hopened, ⟨run, hrun, hstop.1, hstop.2⟩, heffect⟩ (hnot effect)
      | error e =>
        refine execute_raised_open (e := e) ws hinv hopen hrow hrun (hdispatch.trans ?_)
        simp only [runStage, heffect]

/-- **A stored success has its effect stored exactly when no completing transaction was
    lost after `complete` accepted the holder's token.** -/
theorem success_has_effect_iff (ws : Workspaces) (hinv : w.queue.Inv)
    (hopen : job.status = .leased) (hlease : job.lease = some lease)
    (hrow : w.db.job? job.id = some row) (hrun : w.db.run? job.runId = some run) :
    (StoredSuccess job.id (o.execute ws a job lease w).self → StageCommitted o a job lease w) ↔
      ¬ CommitLost o a job lease w := by
  by_cases hreach : ∃ effect, Reaches o a job w effect
  · obtain ⟨effect, hreach⟩ := hreach
    have hunique : ∀ {other}, Reaches o a job w other → other = effect := by
      intro other hother
      have heq := hother.effect_eq.symm.trans hreach.effect_eq
      rwa [Except.ok.injEq] at heq
    rcases execute_reaches ws hinv hopen hlease hrow hreach with ⟨hlate, hnot⟩ |
      ⟨hin, hwindow, hstored, hlost⟩ | ⟨hin, hwindow, db, hdb, hstored⟩
    · refine ⟨fun _ => ?_, fun _ h => absurd h hnot⟩
      rintro ⟨_, -, hin, -⟩
      exact hlate hin
    · constructor
      · intro himp
        obtain ⟨other, db, hother, hdb, -⟩ := himp hstored
        rw [hunique hother] at hdb
        exact absurd hdb (hlost db)
      · intro hnot
        exact absurd ⟨effect, hreach, hin, hwindow⟩ hnot
    · constructor
      · rintro - ⟨other, hother, -, hfault⟩
        rw [hunique hother] at hfault
        exact hwindow hfault
      · exact fun _ _ => ⟨effect, db, hreach, hdb, hstored⟩
  · have hnot : ∀ effect, ¬ Reaches o a job w effect := fun effect h => hreach ⟨effect, h⟩
    refine ⟨fun _ => ?_, fun _ h => absurd h (execute_not_reaches ws hinv hopen hrow hrun hnot)⟩
    rintro ⟨effect, h, -⟩
    exact hnot effect h

end Orchestrator

namespace Sample

/-- The coder's answers, with the row of the run gone stale before the commit. -/
def staleAnswers : Answers :=
  { coderAnswers 50000000 with
    fault := fun site =>
      if site = .commit then some (.other "the run row was changed by another transaction")
      else none }

end Sample

namespace Orchestrator

/-- Nothing is lost while nothing raises after `job.complete`. -/
theorem success_has_effect_iff_sample :
    StoredSuccess (Sample.heldJob 3 (by decide)).id
        ((Sample.orchestrator 3 (by decide)).execute .calm (Sample.coderAnswers 50000000)
          (Sample.heldJob 3 (by decide)) Sample.heldLease Sample.renewedWorld).self ∧
      StageCommitted (Sample.orchestrator 3 (by decide)) (Sample.coderAnswers 50000000)
        (Sample.heldJob 3 (by decide)) Sample.heldLease Sample.renewedWorld := by
  have hrow : Sample.renewedWorld.db.job? (Sample.heldJob 3 (by decide)).id =
      some (Sample.publishedJob 3 (by decide)) := rfl
  have hrun : Sample.renewedWorld.db.run? (Sample.heldJob 3 (by decide)).runId =
      some Sample.codingRun := rfl
  have hstored : StoredSuccess (Sample.heldJob 3 (by decide)).id
      ((Sample.orchestrator 3 (by decide)).execute .calm (Sample.coderAnswers 50000000)
        (Sample.heldJob 3 (by decide)) Sample.heldLease Sample.renewedWorld).self :=
    ⟨_, rfl, rfl⟩
  refine ⟨hstored, (success_has_effect_iff .calm Sample.renewedWorld_kept.reachable.inv rfl rfl
    hrow hrun).mpr ?_ hstored⟩
  rintro ⟨effect, -, -, h | ⟨-, h⟩ | ⟨-, h⟩ | h⟩ <;> exact h rfl

/-- A stale row at the commit: the job is a stored success, and its patch is nowhere. -/
theorem success_without_effect :
    (Sample.heldJob 3 (by decide)).lease = some Sample.heldLease ∧
      StoredSuccess (Sample.heldJob 3 (by decide)).id
        ((Sample.orchestrator 3 (by decide)).execute .calm Sample.staleAnswers
          (Sample.heldJob 3 (by decide)) Sample.heldLease Sample.renewedWorld).self ∧
      ¬ StageCommitted (Sample.orchestrator 3 (by decide)) Sample.staleAnswers
        (Sample.heldJob 3 (by decide)) Sample.heldLease Sample.renewedWorld := by
  obtain ⟨effect, heffect⟩ : ∃ effect, (Sample.orchestrator 3 (by decide)).stageEffect
      Sample.staleAnswers (Sample.heldJob 3 (by decide)) Sample.renewedWorld = .ok effect := ⟨_, rfl⟩
  have hrow : Sample.renewedWorld.db.job? (Sample.heldJob 3 (by decide)).id =
      some (Sample.publishedJob 3 (by decide)) := rfl
  have hreach : Reaches (Sample.orchestrator 3 (by decide)) Sample.staleAnswers
      (Sample.heldJob 3 (by decide)) Sample.renewedWorld effect :=
    ⟨rfl, ⟨Sample.codingRun, rfl, rfl, rfl⟩, heffect⟩
  have hwindow : WindowFault Sample.staleAnswers effect :=
    .inr (.inr (.inr (by simp [Sample.staleAnswers])))
  have hin : Sample.staleAnswers.now < Sample.heldLease.expiresAt := by decide
  refine ⟨rfl, ?_⟩
  rcases execute_reaches .calm Sample.renewedWorld_kept.reachable.inv rfl rfl hrow hreach with
    ⟨hlate, -⟩ | ⟨-, -, hstored, hlost⟩ | ⟨-, hnot, -⟩
  · exact absurd hin hlate
  · refine ⟨hstored, ?_⟩
    rintro ⟨other, db, hother, hdb, -⟩
    have heq := hother.effect_eq.symm.trans heffect
    rw [Except.ok.injEq] at heq
    rw [heq] at hdb
    exact hlost db hdb
  · exact absurd hwindow hnot

end Orchestrator

end AgenticPlatform
