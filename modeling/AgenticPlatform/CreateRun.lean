import AgenticPlatform.Locks
import AgenticPlatform.Run
import AgenticPlatform.Runs
import AgenticPlatform.Validation

/-!
# Creating a run

`CreateRunUseCase.execute` looks its key up, builds the run and inserts it. Any number of
calls are interleaved statement by statement: a statement sees what is committed, and an
insert waits for another transaction's uncommitted row with the same key. What the
database enforces is that no two committed rows carry one key.
-/

namespace AgenticPlatform

open Locks

inductive TaskComplexity where
  | trivial | simple | complex
deriving DecidableEq

namespace TaskComplexity

def value : TaskComplexity → String
  | trivial => "TRIVIAL"
  | simple => "SIMPLE"
  | complex => "COMPLEX"

def requiresPlan (complexity : TaskComplexity) : Bool := complexity ≠ .trivial

end TaskComplexity

structure ComplexityAssessment where
  complexity : TaskComplexity
  recommendedCandidates : Int
  rationale : String

/-- The port; the second argument of `assess` is `max_candidates`. -/
structure TaskComplexityPolicy where
  assess : String → Int → ComplexityAssessment

structure CreateRunCommand where
  projectId : ProjectId
  objective : String
  candidateCount : Option Int := none
  idempotencyKey : Option String := none
  metadata : Mapping := []

structure RunView where
  id : RunId
  projectId : ProjectId
  status : RunStatus
  objective : String
  candidateCount : Nat
  planRevisions : Nat
  repairIterations : Nat
  selectedCandidateId : Option CandidateId
  inputTokens : Nat
  outputTokens : Nat
  failureKind : Option FailureKind
  failureReason : Option String
  createdAt : Instant
  updatedAt : Instant
  completedAt : Option Instant

def RunView.of (run : Run) : RunView where
  id := run.id
  projectId := run.projectId
  status := run.status
  objective := run.objective
  candidateCount := run.candidateCount
  planRevisions := run.planRevisions
  repairIterations := run.repairIterations
  selectedCandidateId := run.selectedCandidateId
  inputTokens := run.tokenUsage.inputTokens
  outputTokens := run.tokenUsage.outputTokens
  failureKind := run.failureKind
  failureReason := run.failureReason
  createdAt := run.createdAt
  updatedAt := run.updatedAt
  completedAt := run.completedAt

/-- `{**mapping, key: value}`. -/
def Mapping.set (mapping : Mapping) (key : String) (value : PyValue) : Mapping :=
  if mapping.any fun entry => entry.1 == key then
    mapping.map fun entry => if entry.1 = key then (key, value) else entry
  else mapping ++ [(key, value)]

theorem mem_dropWhile_of_not {α : Type} {p : α → Bool} {x : α} {xs : List α} (hx : x ∈ xs)
    (hp : p x = false) : x ∈ xs.dropWhile p := by
  induction xs with
  | nil => cases hx
  | cons y ys ih =>
    rw [List.dropWhile_cons]
    split
    · rename_i hy
      rcases List.mem_cons.mp hx with rfl | hmem
      · rw [hp] at hy
        cases hy
      · exact ih hmem
    · exact hx

/-- What is not white space survives `strip`. -/
theorem isBlank_strip {text : String} (h : isBlank text = false) : isBlank (strip text) = false := by
  simp only [isBlank, List.all_eq_false] at h ⊢
  rcases h with ⟨c, hmem, hc⟩
  rw [Bool.not_eq_true] at hc
  refine ⟨c, ?_, by rw [hc]; exact Bool.false_ne_true⟩
  rw [strip, String.toList_ofList, List.mem_reverse]
  refine mem_dropWhile_of_not ?_ hc
  rw [List.mem_reverse]
  exact mem_dropWhile_of_not hmem hc

/-- What the use case is constructed with. -/
structure CreateRunUseCase where
  complexity : TaskComplexityPolicy
  limits : RunLimits

namespace CreateRunUseCase

variable {useCase : CreateRunUseCase} {command : CreateRunCommand}

def assessment (useCase : CreateRunUseCase) (command : CreateRunCommand) : ComplexityAssessment :=
  useCase.complexity.assess command.objective useCase.limits.maxParallelCandidates

/-- `min(command.candidate_count or assessment.recommended_candidates, …)`. -/
def candidateCount (useCase : CreateRunUseCase) (command : CreateRunCommand) : Int :=
  let recommended := (useCase.assessment command).recommendedCandidates
  let wanted := match command.candidateCount with
    | some count => if count = 0 then recommended else count
    | none => recommended
  min wanted useCase.limits.maxParallelCandidates

theorem candidateCount_le : useCase.candidateCount command ≤ useCase.limits.maxParallelCandidates :=
  Int.min_le_right ..

/-- The run of the command; the constructor's checks in their order. -/
def build (useCase : CreateRunUseCase) (command : CreateRunCommand) (project : Project)
    (runId : RunId) (now : Instant) : Except PyError Run :=
  let assessment := useCase.assessment command
  let metadata := Mapping.set
    (Mapping.set (Mapping.set command.metadata "complexity" (.str assessment.complexity.value))
      "complexity_rationale" (.str assessment.rationale))
    "requires_plan" (.bool assessment.complexity.requiresPlan)
  if hobjective : isBlank command.objective = false then
    if hcount : 1 ≤ useCase.candidateCount command then
      .ok (Run.create runId project.id (strip command.objective) now
        (useCase.candidateCount command).toNat useCase.limits command.idempotencyKey metadata
        (isBlank_strip hobjective) (by omega)
        (by
          have hle : useCase.candidateCount command ≤ useCase.limits.maxParallelCandidates :=
            candidateCount_le
          omega))
    else .error (.valueError "candidate_count must be at least 1")
  else .error (.valueError "a run needs a non-empty objective")

/-- The command describes a run. -/
def Acceptable (useCase : CreateRunUseCase) (command : CreateRunCommand) : Prop :=
  isBlank command.objective = false ∧ 1 ≤ useCase.candidateCount command

/-! ### Calls and their transactions -/

/-- Where a call is: before its lookup, after a lookup that found nothing, with a run in
    memory, with the run's row inserted but not committed, and at its end. -/
inductive Phase where
  | ready
  | missed
  | created (run : Run)
  | flushed (run : Run)
  | done (result : Except PyError RunView)

/-- The committed rows, the keys of the rows that are inserted and not committed, and the calls. -/
structure State where
  rows : List Run
  keys : Table String Nat := fun _ => none
  phase : Nat → Phase := fun _ => .ready

def State.set (s : State) (c : Nat) (phase : Phase) : State :=
  { s with phase := Function.update s.phase c phase }

/-- `find_by_idempotency_key`. -/
def findByIdempotencyKey (rows : List Run) (key : String) : Option Run :=
  rows.find? fun row => decide (row.idempotencyKey = some key)

/-- The error of a violated unique constraint. -/
def integrityError : PyError := .other "IntegrityError"

inductive Move where
  | lookup (c : Nat)
  | create (c : Nat) (runId : RunId) (now : Instant)
  | insert (c : Nat)
  | commit (c : Nat)

/-- The projects, which nobody changes meanwhile, and the command of every call. -/
structure Requests where
  projects : ProjectId → Option Project
  commands : Nat → CreateRunCommand

def step (useCase : CreateRunUseCase) (requests : Requests) (s : State) : Move → State
  | .lookup c =>
      match s.phase c with
      | .ready =>
          match (requests.commands c).idempotencyKey.bind (findByIdempotencyKey s.rows) with
          | some replayed => s.set c (.done (.ok (RunView.of replayed)))
          | none => s.set c .missed
      | _ => s
  | .create c runId now =>
      match s.phase c with
      | .missed =>
          let command := requests.commands c
          match requests.projects command.projectId with
          | none => s.set c (.done (.error (.entityNotFound "Project" command.projectId.str)))
          | some project =>
              match useCase.build command project runId now with
              | .error error => s.set c (.done (.error error))
              | .ok run => s.set c (.created run)
      | _ => s
  | .insert c =>
      match s.phase c with
      | .created run =>
          match run.idempotencyKey with
          | none => s.set c (.flushed run)
          | some key =>
              if (findByIdempotencyKey s.rows key).isSome then
                s.set c (.done (.error integrityError))
              else if Free s.keys c key then
                { s.set c (.flushed run) with keys := grant s.keys c key }
              else s
      | _ => s
  | .commit c =>
      match s.phase c with
      | .flushed run =>
          { s.set c (.done (.ok (RunView.of run))) with
            rows := s.rows ++ [{ run with events := [] }]
            keys := release s.keys c }
      | _ => s

variable {requests : Requests} {s s' : State} {c d : Nat} {run row : Run} {key : String}
  {rows : List Run} {phase : Phase} {move : Move} {moves : List Move}

theorem build_key {project : Project} {runId : RunId} {now : Instant}
    (h : useCase.build command project runId now = .ok run) :
    run.idempotencyKey = command.idempotencyKey := by
  simp only [build] at h
  split at h
  · split at h
    · cases h
      rfl
    · cases h
  · cases h

theorem build_ok (h : useCase.Acceptable command) (project : Project) (runId : RunId) (now : Instant) :
    ∃ run, useCase.build command project runId now = .ok run := by
  simp only [build, dif_pos h.1, dif_pos h.2]
  exact ⟨_, rfl⟩

theorem build_error (h : ¬ useCase.Acceptable command) (project : Project) (runId : RunId)
    (now : Instant) : ∃ error, useCase.build command project runId now = .error error := by
  simp only [build]
  split
  · rename_i hobjective
    split
    · rename_i hcount
      exact absurd ⟨hobjective, hcount⟩ h
    · exact ⟨_, rfl⟩
  · exact ⟨_, rfl⟩

theorem find_some (h : findByIdempotencyKey rows key = some row) :
    row ∈ rows ∧ row.idempotencyKey = some key :=
  ⟨List.mem_of_find?_eq_some h, by simpa using List.find?_some h⟩

theorem find_none : findByIdempotencyKey rows key = none ↔
    ∀ row ∈ rows, row.idempotencyKey ≠ some key := by
  simp [findByIdempotencyKey, List.find?_eq_none]

/-! ### What the constraint keeps -/

/-- The unique constraint: no two rows have one key, and a row without a key is free. -/
def UniqueKeys (rows : List Run) : Prop :=
  rows.Pairwise fun row row' => row.idempotencyKey = none ∨ row.idempotencyKey ≠ row'.idempotencyKey

/-- Uncommitted rows hold their keys, and what a call has in hand or returned is a run of
    its own key. -/
structure Kept (requests : Requests) (s : State) : Prop where
  unique : UniqueKeys s.rows
  held : ∀ key c, s.keys key = some c ↔ ∃ run, s.phase c = .flushed run ∧ run.idempotencyKey = some key
  fresh : ∀ c run key, s.phase c = .flushed run → run.idempotencyKey = some key →
    findByIdempotencyKey s.rows key = none
  own : ∀ c run, s.phase c = .created run ∨ s.phase c = .flushed run →
    run.idempotencyKey = (requests.commands c).idempotencyKey
  returned : ∀ c key view, (requests.commands c).idempotencyKey = some key →
    s.phase c = .done (.ok view) →
    ∃ row ∈ s.rows, row.idempotencyKey = some key ∧ view = RunView.of row

theorem set_phase (s : State) (c d : Nat) (phase : Phase) :
    (s.set c phase).phase d = if d = c then phase else s.phase d := Function.update_apply ..

/-- A move of `c` that ends in a phase other than `flushed` and takes no key. -/
theorem Kept.set (h : Kept requests s) (hbefore : ∀ run, s.phase c ≠ .flushed run)
    (hafter : ∀ run, phase ≠ .flushed run)
    (hown : ∀ run, phase = .created run → run.idempotencyKey = (requests.commands c).idempotencyKey)
    (hreturned : ∀ key view, (requests.commands c).idempotencyKey = some key →
      phase = .done (.ok view) → ∃ row ∈ s.rows, row.idempotencyKey = some key ∧ view = RunView.of row) :
    Kept requests (s.set c phase) where
  unique := h.unique
  held key d := by
    rw [set_phase]
    by_cases hd : d = c
    · subst hd
      rw [if_pos rfl]
      constructor
      · intro hkey
        rcases (h.held key d).mp hkey with ⟨run, hrun, -⟩
        exact absurd hrun (hbefore run)
      · rintro ⟨run, hrun, -⟩
        exact absurd hrun (hafter run)
    · rw [if_neg hd]
      exact h.held key d
  fresh d run key hrun := by
    rw [set_phase] at hrun
    split at hrun
    · exact absurd hrun (hafter run)
    · exact h.fresh d run key hrun
  own d run hrun := by
    rw [set_phase] at hrun
    split at hrun
    · rename_i hd
      subst hd
      rcases hrun with hcreated | hflushed
      · exact hown run hcreated
      · exact absurd hflushed (hafter run)
    · exact h.own d run hrun
  returned d key view hkey hdone := by
    rw [set_phase] at hdone
    split at hdone
    · rename_i hd
      subst hd
      exact hreturned key view hkey hdone
    · exact h.returned d key view hkey hdone

/-- The insert: the row's key, if it has one, becomes the call's. -/
theorem Kept.flush (h : Kept requests s) (hphase : s.phase c = .created run) {keys : Table String Nat}
    (hkeys : ∀ key d, keys key = some d ↔
      s.keys key = some d ∨ (d = c ∧ run.idempotencyKey = some key))
    (hfresh : ∀ key, run.idempotencyKey = some key → findByIdempotencyKey s.rows key = none) :
    Kept requests { s.set c (.flushed run) with keys := keys } where
  unique := h.unique
  held key d := by
    simp only [set_phase]
    rw [hkeys, h.held]
    by_cases hd : d = c
    · subst hd
      simp [hphase]
    · simp [hd]
  fresh d run' key hrun := by
    simp only [set_phase] at hrun
    split at hrun
    · cases hrun
      exact hfresh key
    · exact h.fresh d run' key hrun
  own d run' hrun := by
    simp only [set_phase] at hrun
    split at hrun
    · rename_i hd
      subst hd
      rcases hrun with hcreated | hflushed
      · cases hcreated
      · cases hflushed
        exact h.own d run (.inl hphase)
    · exact h.own d run' hrun
  returned d key view hkey hdone := by
    simp only [set_phase] at hdone
    split at hdone
    · cases hdone
    · exact h.returned d key view hkey hdone

/-- The commit: nobody else has an uncommitted row with the key. -/
theorem Kept.commit (h : Kept requests s) (hphase : s.phase c = .flushed run) :
    Kept requests { s.set c (.done (.ok (RunView.of run))) with
      rows := s.rows ++ [{ run with events := [] }]
      keys := release s.keys c } where
  unique := by
    refine List.pairwise_append.mpr ⟨h.unique, List.pairwise_singleton .., ?_⟩
    intro row hrow last hlast
    rw [List.mem_singleton] at hlast
    subst hlast
    rcases hkey : row.idempotencyKey with - | key
    · exact .inl rfl
    · refine .inr fun hsame => ?_
      exact find_none.mp (h.fresh c run key hphase hsame.symm) row hrow hkey
  held key d := by
    simp only [set_phase]
    by_cases hd : d = c
    · subst hd
      simp [release_self]
    · rw [release_other hd, h.held, if_neg hd]
  fresh d run' key hrun hkey := by
    simp only [set_phase] at hrun
    split at hrun
    · cases hrun
    · rename_i hd
      refine find_none.mpr fun row hrow hsame => ?_
      rcases List.mem_append.mp hrow with hold | hnew
      · exact find_none.mp (h.fresh d run' key hrun hkey) row hold hsame
      · -- the committed row has the key of an uncommitted one: both calls would hold it
        rw [List.mem_singleton] at hnew
        subst hnew
        have hc : s.keys key = some c := (h.held key c).mpr ⟨run, hphase, hsame⟩
        have hheld : s.keys key = some d := (h.held key d).mpr ⟨run', hrun, hkey⟩
        rw [hc, Option.some.injEq] at hheld
        exact hd hheld.symm
  own d run' hrun := by
    simp only [set_phase] at hrun
    split at hrun
    · rcases hrun with hcreated | hflushed
      · cases hcreated
      · cases hflushed
    · exact h.own d run' hrun
  returned d key view hkey hdone := by
    simp only [set_phase] at hdone
    split at hdone
    · rename_i hd
      subst hd
      cases hdone
      have hown := h.own d run (.inr hphase)
      exact ⟨_, List.mem_append_right _ (List.mem_singleton_self _), hown.trans hkey, rfl⟩
    · rcases h.returned d key view hkey hdone with ⟨row, hrow, hsame, hview⟩
      exact ⟨row, List.mem_append_left _ hrow, hsame, hview⟩

theorem Kept.step (h : Kept requests s) (move : Move) : Kept requests (step useCase requests s move) := by
  cases move with
  | lookup c =>
    simp only [CreateRunUseCase.step]
    split
    · rename_i hphase
      have hbefore : ∀ run, s.phase c ≠ .flushed run := by simp [hphase]
      split
      · rename_i replayed hfound
        refine h.set hbefore (by simp) (by simp) ?_
        intro key view hkey hdone
        rw [hkey, Option.bind_some] at hfound
        cases hdone
        rcases find_some hfound with ⟨hrow, hsame⟩
        exact ⟨replayed, hrow, hsame, rfl⟩
      · exact h.set hbefore (by simp) (by simp) (by simp)
    · exact h
  | create c runId now =>
    simp only [CreateRunUseCase.step]
    split
    · rename_i hphase
      have hbefore : ∀ run, s.phase c ≠ .flushed run := by simp [hphase]
      split
      · exact h.set hbefore (by simp) (by simp) (by simp)
      · split
        · exact h.set hbefore (by simp) (by simp) (by simp)
        · rename_i run hbuild
          refine h.set hbefore (by simp) ?_ (by simp)
          intro run' hcreated
          cases hcreated
          exact build_key hbuild
    · exact h
  | insert c =>
    simp only [CreateRunUseCase.step]
    split
    · rename_i run hphase
      have hbefore : ∀ run, s.phase c ≠ .flushed run := by simp [hphase]
      split
      · rename_i hnone
        exact h.flush hphase (by simp [hnone]) (by simp [hnone])
      · rename_i key hkey
        split
        · exact h.set hbefore (by simp) (by simp) (by simp)
        · rename_i hrow
          split
          · rename_i hfree
            refine h.flush hphase ?_ ?_
            · intro key' d
              constructor
              · intro hgranted
                rcases grant_holds hgranted with hheld | ⟨hd, hsame⟩
                · exact .inl hheld
                · exact .inr ⟨hd, hsame ▸ hkey⟩
              · rintro (hheld | ⟨hd, hsame⟩)
                · exact grant_of_holds hfree hheld
                · rw [hkey, Option.some.injEq] at hsame
                  subst hd hsame
                  exact grant_self
            · intro key' hsame
              rw [hkey, Option.some.injEq] at hsame
              subst hsame
              simpa using hrow
          · exact h
    · exact h
  | commit c =>
    simp only [CreateRunUseCase.step]
    split
    · rename_i run hphase
      exact h.commit hphase
    · exact h

theorem kept_after (h : Kept requests s) (moves : List Move) :
    Kept requests (Runs.after (step useCase requests) s moves) :=
  Runs.after_invariant h fun _ move h => h.step move

/-- A table without committed keys in common, and no call under way. -/
theorem Kept.init (h : UniqueKeys rows) : Kept requests { rows := rows } where
  unique := h
  held key c := by simp
  fresh c run key hrun := by cases hrun
  own c run hrun := by rcases hrun with hcreated | hflushed <;> contradiction
  returned c key view _ hdone := by cases hdone

theorem UniqueKeys.length_le (h : UniqueKeys rows) (key : String) :
    (rows.filter fun row => decide (row.idempotencyKey = some key)).length ≤ 1 := by
  by_contra hmany
  rw [Nat.not_le] at hmany
  have hpair := h.filter fun row => decide (row.idempotencyKey = some key)
  rcases hrows : rows.filter (fun row => decide (row.idempotencyKey = some key)) with - | ⟨row, - | ⟨row', rest⟩⟩
  · simp [hrows] at hmany
  · simp [hrows] at hmany
  · have hmem : ∀ x ∈ row :: row' :: rest, x.idempotencyKey = some key := by
      intro x hx
      rw [← hrows] at hx
      simpa using (List.mem_filter.mp hx).2
    rw [hrows, List.pairwise_cons] at hpair
    have hrow : row.idempotencyKey = some key := hmem row (by simp)
    have hrow' : row'.idempotencyKey = some key := hmem row' (by simp)
    rcases hpair.1 row' (by simp) with hnone | hne
    · rw [hrow] at hnone
      cases hnone
    · exact hne (hrow.trans hrow'.symm)

/-! ### Every call comes to its end -/

variable (useCase requests) in
theorem ends_of_flushed (hphase : s.phase c = .flushed run) :
    ∃ later result, (Runs.after (step useCase requests) s later).phase c = .done result :=
  ⟨[.commit c], _, by
    simp only [Runs.after_cons, Runs.after_nil, step, hphase, set_phase, if_pos]
    rfl⟩

variable (useCase) in
/-- An insert that has to wait does so for a transaction that can commit. -/
theorem ends_of_created (h : Kept requests s) (hphase : s.phase c = .created run) :
    ∃ later result, (Runs.after (step useCase requests) s later).phase c = .done result := by
  have hflushed : ∀ keys : Table String Nat, ({ s.set c (.flushed run) with keys := keys } : State).phase c =
      .flushed run := by
    intro keys
    rw [set_phase, if_pos rfl]
  rcases hkey : run.idempotencyKey with - | key
  · have hstep : step useCase requests s (.insert c) = s.set c (.flushed run) := by
      simp only [step, hphase, hkey]
    rcases ends_of_flushed useCase requests (hflushed s.keys) with ⟨later, result, hdone⟩
    exact ⟨.insert c :: later, result, by rw [Runs.after_cons, hstep]; exact hdone⟩
  · by_cases hrow : (findByIdempotencyKey s.rows key).isSome = true
    · refine ⟨[.insert c], .error integrityError, ?_⟩
      simp [step, hphase, hkey, hrow, set_phase]
    · rcases hheld : s.keys key with - | d
      · have hstep : step useCase requests s (.insert c) =
            { s.set c (.flushed run) with keys := grant s.keys c key } := by
          simp only [step, hphase, hkey, hrow]
          rw [if_neg Bool.false_ne_true, if_pos (.inl hheld)]
        rcases ends_of_flushed useCase requests (hflushed (grant s.keys c key)) with
          ⟨later, result, hdone⟩
        exact ⟨.insert c :: later, result, by rw [Runs.after_cons, hstep]; exact hdone⟩
      · rcases (h.held key d).mp hheld with ⟨other, hother, hsame⟩
        have hcd : c ≠ d := by
          rintro rfl
          rw [hphase] at hother
          cases hother
        have hfound : (findByIdempotencyKey (s.rows ++ [{ other with events := [] }]) key).isSome = true := by
          rw [Option.isSome_iff_ne_none]
          intro hnone
          exact find_none.mp hnone _ (List.mem_append_right _ (List.mem_singleton_self _)) hsame
        refine ⟨[.commit d, .insert c], .error integrityError, ?_⟩
        simp [step, hother, set_phase, hcd, hphase, hkey, hfound]

theorem call_ends (h : Kept requests s) (c : Nat) :
    ∃ later result, (Runs.after (step useCase requests) s later).phase c = .done result := by
  have hmissed : ∀ s : State, Kept requests s → s.phase c = .missed →
      ∃ later result, (Runs.after (step useCase requests) s later).phase c = .done result := by
    intro s h hphase
    have hnext : Kept requests (step useCase requests s (.create c ⟨0⟩ 0)) := h.step _
    by_cases hcreated : ∃ run, (step useCase requests s (.create c ⟨0⟩ 0)).phase c = .created run
    · rcases hcreated with ⟨run, hcreated⟩
      rcases ends_of_created useCase hnext hcreated with ⟨later, result, hdone⟩
      exact ⟨.create c ⟨0⟩ 0 :: later, result, hdone⟩
    · refine ⟨[.create c ⟨0⟩ 0], ?_⟩
      simp only [step, hphase] at hcreated
      simp only [Runs.after_cons, Runs.after_nil, step, hphase]
      split
      · exact ⟨_, by rw [set_phase, if_pos rfl]⟩
      · split
        · exact ⟨_, by rw [set_phase, if_pos rfl]⟩
        · rename_i project hproject _ run hbuild
          simp [hproject, hbuild, set_phase] at hcreated
  rcases hphase : s.phase c with - | - | run | run | result
  · have hnext : Kept requests (step useCase requests s (.lookup c)) := h.step _
    by_cases hmiss : (step useCase requests s (.lookup c)).phase c = .missed
    · rcases hmissed _ hnext hmiss with ⟨later, result, hdone⟩
      exact ⟨.lookup c :: later, result, hdone⟩
    · refine ⟨[.lookup c], ?_⟩
      simp only [step, hphase] at hmiss
      simp only [Runs.after_cons, Runs.after_nil, step, hphase]
      split
      · exact ⟨_, by rw [set_phase, if_pos rfl]⟩
      · rename_i hfound
        simp [hfound, set_phase] at hmiss
  · exact hmissed s h hphase
  · exact ends_of_created useCase h hphase
  · exact ends_of_flushed useCase requests hphase
  · exact ⟨[], result, hphase⟩

/-! ### The race -/

def Move.call : Move → Nat
  | .lookup c | .create c _ _ | .insert c | .commit c => c

/-- The move does not build a run of a command that describes none, and does not insert a
    row where one with its key is committed already. -/
def Clear (useCase : CreateRunUseCase) (requests : Requests) (s : State) : Move → Prop
  | .create c _ _ => s.phase c = .missed → useCase.Acceptable (requests.commands c)
  | .insert c => ∀ run key, s.phase c = .created run →
      (requests.commands c).idempotencyKey = some key → findByIdempotencyKey s.rows key = none
  | .lookup _ | .commit _ => True

/-- No call with the key has raised. -/
def Unraised (requests : Requests) (key : String) (s : State) : Prop :=
  ∀ c, (requests.commands c).idempotencyKey = some key → ∀ error, s.phase c ≠ .done (.error error)

theorem set_phase_other (phase : Phase) (h : d ≠ c) : (s.set c phase).phase d = s.phase d := by
  rw [set_phase, if_neg h]

theorem step_phase_other (h : d ≠ move.call) :
    (step useCase requests s move).phase d = s.phase d := by
  cases move with
  | lookup c =>
    simp only [step]
    split
    · split <;> exact set_phase_other _ h
    · rfl
  | create c runId now =>
    simp only [step]
    split
    · split
      · exact set_phase_other _ h
      · split <;> exact set_phase_other _ h
    · rfl
  | insert c =>
    simp only [step]
    split
    · split
      · exact set_phase_other _ h
      · split
        · exact set_phase_other _ h
        · split
          · exact set_phase_other _ h
          · rfl
    · rfl
  | commit c =>
    simp only [step]
    split
    · exact set_phase_other _ h
    · rfl

/-- A call that has ended stays as it is. -/
theorem step_phase_done {result : Except PyError RunView} (h : s.phase c = .done result) :
    (step useCase requests s move).phase c = .done result := by
  by_cases hc : c = move.call
  · subst hc
    cases move with
    | lookup c | create c runId now | insert c | commit c =>
      simp only [Move.call] at h
      simp only [step, h, Move.call]
  · rw [step_phase_other hc, h]

theorem after_phase_done {result : Except PyError RunView} (h : s.phase c = .done result) :
    (Runs.after (step useCase requests) s moves).phase c = .done result := by
  induction moves generalizing s with
  | nil => exact h
  | cons move rest ih => exact ih (step_phase_done h)

variable (useCase move) in
/-- A call raises where its move is not clear, and nowhere else. -/
theorem unraised_step_iff (h : Kept requests s) (hs : Unraised requests key s)
    (hproject : ∀ c, (requests.commands c).idempotencyKey = some key →
      (requests.projects (requests.commands c).projectId).isSome = true) :
    Unraised requests key (step useCase requests s move) ↔
      ((requests.commands move.call).idempotencyKey = some key → Clear useCase requests s move) := by
  have hmover : Unraised requests key (step useCase requests s move) ↔
      ((requests.commands move.call).idempotencyKey = some key →
        ∀ error, (step useCase requests s move).phase move.call ≠ .done (.error error)) := by
    constructor
    · exact fun hafter hkey => hafter _ hkey
    · intro hafter c hkey
      by_cases hc : c = move.call
      · subst hc
        exact hafter hkey
      · rw [step_phase_other hc]
        exact hs c hkey
  rw [hmover]
  refine forall_congr' fun hkey => ?_
  have hsame := hs move.call hkey
  cases move with
  | lookup c =>
    simp only [Move.call] at hkey hsame ⊢
    refine ⟨fun _ => trivial, fun _ error => ?_⟩
    simp only [step]
    split
    · split
      · simp [set_phase]
      · simp [set_phase]
    · exact hsame error
  | create c runId now =>
    simp only [Move.call, Clear] at hkey hsame ⊢
    rcases Option.isSome_iff_exists.mp (hproject c hkey) with ⟨project, hfound⟩
    constructor
    · intro hafter hphase
      by_contra hbad
      rcases build_error hbad project runId now with ⟨error, hbuild⟩
      exact hafter error (by simp [step, hphase, hfound, hbuild, set_phase])
    · intro hgood error
      simp only [step, hfound]
      split
      · rename_i hphase
        rcases build_ok (hgood hphase) project runId now with ⟨run, hbuild⟩
        simp [hbuild, set_phase]
      · exact hsame error
  | insert c =>
    simp only [Move.call, Clear] at hkey hsame ⊢
    constructor
    · intro hafter run key' hphase hkey'
      have hrun : run.idempotencyKey = some key' := (h.own c run (.inl hphase)).trans hkey'
      rw [← Option.not_isSome_iff_eq_none]
      intro hrow
      exact hafter integrityError (by simp [step, hphase, hrun, hrow, set_phase])
    · intro hclear error
      rcases hphase : s.phase c with - | - | run | run | result
      · simp [step, hphase]
      · simp [step, hphase]
      · have hrun : run.idempotencyKey = some key := (h.own c run (.inl hphase)).trans hkey
        have hnone := hclear run key hphase hkey
        simp only [step, hphase, hrun, hnone]
        rw [if_neg (by simp)]
        split
        · simp [set_phase]
        · simp [hphase]
      · simp [step, hphase]
      · simpa [step, hphase] using hsame error
  | commit c =>
    simp only [Move.call] at hkey hsame ⊢
    refine ⟨fun _ => trivial, fun _ error => ?_⟩
    simp only [step]
    split
    · simp [set_phase]
    · exact hsame error

/-- No call with the key raises in a run exactly if all its moves are clear. -/
theorem unraised_iff_along (h : Kept requests s) (hs : Unraised requests key s)
    (hproject : ∀ c, (requests.commands c).idempotencyKey = some key →
      (requests.projects (requests.commands c).projectId).isSome = true) :
    Unraised requests key (Runs.after (step useCase requests) s moves) ↔
      Runs.Along (step useCase requests)
        (fun s move => (requests.commands move.call).idempotencyKey = some key →
          Clear useCase requests s move) s moves := by
  induction moves generalizing s with
  | nil => exact ⟨fun _ => trivial, fun _ => hs⟩
  | cons move rest ih =>
    have hnext : Kept requests (step useCase requests s move) := h.step move
    have hmove := unraised_step_iff useCase move h hs hproject
    constructor
    · intro hend
      have hraised : Unraised requests key (step useCase requests s move) := by
        intro c hkey error hdone
        refine hend c hkey error ?_
        rw [Runs.after_cons]
        exact after_phase_done hdone
      exact ⟨hmove.mp hraised, (ih hnext hraised).mp hend⟩
    · rintro ⟨hclear, hrest⟩
      exact (ih hnext (hmove.mpr hclear)).mpr hrest

/-- At most one run with the key is stored, and every call comes to its end. All the calls
    that have ended returned the view of that run exactly if every call with the key found
    no committed run with it when it inserted its own, and described a run. -/
theorem execute_idempotent_iff (useCase : CreateRunUseCase) (requests : Requests) (key : String)
    (rows : List Run) (moves : List Move) (hunique : UniqueKeys rows)
    (hproject : ∀ c, (requests.commands c).idempotencyKey = some key →
      (requests.projects (requests.commands c).projectId).isSome = true) :
    let s := Runs.after (step useCase requests) { rows := rows } moves
    (s.rows.filter fun row => decide (row.idempotencyKey = some key)).length ≤ 1 ∧
    (∀ c, ∃ later result, (Runs.after (step useCase requests) s later).phase c = .done result) ∧
    ((∀ c result, (requests.commands c).idempotencyKey = some key → s.phase c = .done result →
      ∃ row ∈ s.rows, row.idempotencyKey = some key ∧ result = .ok (RunView.of row)) ↔
      Runs.Along (step useCase requests)
        (fun s move => (requests.commands move.call).idempotencyKey = some key →
          Clear useCase requests s move) { rows := rows } moves) := by
  intro s
  have h : Kept requests s := kept_after (Kept.init hunique) moves
  refine ⟨h.unique.length_le key, call_ends h, ?_⟩
  rw [← unraised_iff_along (Kept.init hunique) (fun c _ error hdone => by cases hdone) hproject]
  constructor
  · intro hreturned c hkey error hdone
    rcases hreturned c _ hkey hdone with ⟨row, -, -, hresult⟩
    cases hresult
  · intro hraised c result hkey hdone
    rcases result with error | view
    · exact absurd hdone (hraised c hkey error)
    · rcases h.returned c key view hkey hdone with ⟨row, hrow, hsame, rfl⟩
      exact ⟨row, hrow, hsame, rfl⟩

/-- A use case whose policy plans for one candidate, and two requests with one key. -/
def single : CreateRunUseCase := ⟨⟨fun _ _ => ⟨.simple, 1, "single-step objective"⟩⟩, {}⟩

def replayedRequests : Requests where
  projects id := some ⟨id, "p", none, "main", 0, {}, none⟩
  commands _ := { projectId := ⟨1⟩, objective := "fix", idempotencyKey := some "k" }

/-- The second call that looks its key up before the first one commits raises. -/
theorem overlapping_lookups_raise :
    ¬ ∀ c result, (replayedRequests.commands c).idempotencyKey = some "k" →
      (Runs.after (step single replayedRequests) { rows := [] }
        [.lookup 0, .lookup 1, .create 0 ⟨1⟩ 0, .create 1 ⟨2⟩ 0, .insert 0, .commit 0,
          .insert 1]).phase c = .done result →
      ∃ view, result = .ok view := by
  intro h
  rcases h 1 (.error integrityError) rfl rfl with ⟨view, hview⟩
  cases hview

/-- One call after the other: the second one returns the run of the first. -/
theorem execute_idempotent_sequential :
    ∃ row ∈ (Runs.after (step single replayedRequests) { rows := [] }
        [.lookup 0, .create 0 ⟨1⟩ 0, .insert 0, .commit 0, .lookup 1]).rows,
      row.idempotencyKey = some "k" ∧
        (Runs.after (step single replayedRequests) { rows := [] }
          [.lookup 0, .create 0 ⟨1⟩ 0, .insert 0, .commit 0, .lookup 1]).phase 1 =
            .done (.ok (RunView.of row)) := by
  have hall := (execute_idempotent_iff single replayedRequests "k" []
    [.lookup 0, .create 0 ⟨1⟩ 0, .insert 0, .commit 0, .lookup 1] .nil fun _ _ => rfl).2.2.mpr
    ⟨fun _ => trivial, fun _ _ => ⟨by decide, by decide⟩, fun _ run key _ _ => rfl,
      fun _ => trivial, fun _ => trivial, trivial⟩
  rcases hall 1 _ rfl rfl with ⟨row, hrow, hkey, hresult⟩
  exact ⟨row, hrow, hkey, congrArg Phase.done hresult⟩

end CreateRunUseCase

end AgenticPlatform
