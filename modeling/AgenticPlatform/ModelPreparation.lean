import AgenticPlatform.ModelState
import AgenticPlatform.Runs
import Mathlib.Logic.Function.Basic

/-!
# Preparing the model

Any number of processes run `prepare_model` on one volume. A process takes one step after
the other, each with what the world answers to it; other processes step in between, and a
process can die before any of its steps. The kernel releases the lock of a process that
dies. What else happens to the files of the volume is a move of its own.

The lock is on a file of the volume that every process opens for itself. Once a name of a size
table has led `_discard` to that file, whoever comes later opens and locks a new one.
-/

namespace AgenticPlatform

/-- What `prepare_model` reads of the worker's configuration; `downloadLock` is the path of the
    lock file. -/
structure PreparationConfig where
  modelId : String
  modelRevision : Option String
  downloadMaxAttempts : Nat
  downloadLock : String
  attempts_pos : 1 ≤ downloadMaxAttempts

inductive PreparationError where
  | markerUnreadable (error : MarkerError)
  | lockTimeout
  | tooLittleSpace
  | quotaExceeded
  | downloadFailed (attempts : Nat)
  | stillDifferent (names : List String)

/-- The outcome without its duration. -/
structure PreparationOutcome where
  state : ModelState
  downloaded : Bool
  attempts : Nat

namespace PrepareModel

/-- A download attempt that raises has run out of space or may be tried again. -/
inductive FetchError where
  | quota
  | transient

/-- What the world answers to a step that asks it: whether the deadline of the lock has
    passed, whether there is space, the expected sizes given the previous marker, how a
    download ends if it ends now, the files after a step that changes them, and the clock
    and the environment for a new marker. -/
structure Answer where
  expired : Bool := false
  enough : Bool := true
  sizes : Option ModelState → Option (List (String × Int)) := fun _ => none
  fetched : Option (Except FetchError String) := none
  disk : Disk
  now : String := ""
  image : Option String := none

/-- Where a process is; `locked` tells the check under the lock from the one before it. -/
inductive Phase where
  | ready
  | checking (locked : Bool) (previous : Option ModelState)
  | probing (locked : Bool) (previous : Option ModelState) (marker : ModelState)
  | verifying (locked : Bool) (previous : Option ModelState) (marker : ModelState)
      (rest : List (String × Int)) (ok : Bool)
  | waiting (previous : Option ModelState)
  | measuring (previous : Option ModelState)
  | sizing (previous : Option ModelState)
  | fetching (expected : Option (List (String × Int))) (attempt spent : Nat) (repairing : Bool)
  | comparing (expected : Option (List (String × Int))) (snapshot : String) (attempts : Nat)
      (repairing : Bool)
  | discarding (expected : List (String × Int)) (attempts : Nat)
  | listing (snapshot : String) (attempts : Nat) (verified : Bool)
  | marking (state : ModelState) (attempts : Nat)
  | leaving (result : Except PreparationError PreparationOutcome)
  | returned (result : Except PreparationError PreparationOutcome)
  | dead

/-- The process has acquired the download lock and not left it. -/
def Phase.critical : Phase → Bool
  | .checking locked _ | .probing locked _ _ | .verifying locked _ _ _ _ => locked
  | .measuring _ | .sizing _ | .fetching .. | .comparing .. | .discarding .. | .listing ..
  | .marking .. | .leaving _ => true
  | .ready | .waiting _ | .returned _ | .dead => false

/-- The marker and the files of the volume, and the processes. Lock files are numbered: `lockFile`
    is the one at the path now, `handle` the one that a process has opened, and `locks` says who
    has locked which. -/
structure State where
  marker : Option String
  disk : Disk
  lockFile : Nat := 0
  handle : Nat → Option Nat := fun _ => none
  locks : Nat → Option Nat := fun _ => none
  phase : Nat → Phase := fun _ => .ready

def State.set (s : State) (p : Nat) (phase : Phase) : State :=
  { s with phase := Function.update s.phase p phase }

/-- The lock file that the process tries: it is opened once, before the first try. -/
def State.opened (s : State) (p : Nat) : Nat := (s.handle p).getD s.lockFile

def State.opens (s : State) (p : Nat) : State :=
  { s with handle := Function.update s.handle p (some (s.opened p)) }

/-- `flock` with `LOCK_EX`. -/
def State.acquire (s : State) (p : Nat) : State :=
  { s.opens p with locks := Function.update s.locks (s.opened p) (some p) }

/-- `flock` with `LOCK_UN`, by the process or by the kernel at its death. -/
def State.release (s : State) (p : Nat) : State :=
  { s with locks := fun file => if s.locks file = some p then none else s.locks file }

/-- After `_discard` where one of the names leads to the lock file: the next to open its path
    creates another file. -/
def State.discarded (config : PreparationConfig) (s : State) (snapshot : String)
    (names : List String) : State :=
  if names.any fun name => s.disk.place snapshot name == config.downloadLock then
    { s with lockFile := s.lockFile + 1 }
  else s

section Fields

variable (s : State) (p : Nat) (config : PreparationConfig) (snapshot : String)
  (names : List String)

@[simp] theorem opens_phase : (s.opens p).phase = s.phase := rfl

@[simp] theorem opens_marker : (s.opens p).marker = s.marker := rfl

@[simp] theorem opens_disk : (s.opens p).disk = s.disk := rfl

@[simp] theorem acquire_phase : (s.acquire p).phase = s.phase := rfl

@[simp] theorem acquire_marker : (s.acquire p).marker = s.marker := rfl

@[simp] theorem acquire_disk : (s.acquire p).disk = s.disk := rfl

@[simp] theorem release_phase : (s.release p).phase = s.phase := rfl

@[simp] theorem release_marker : (s.release p).marker = s.marker := rfl

@[simp] theorem release_disk : (s.release p).disk = s.disk := rfl

@[simp] theorem discarded_phase : (s.discarded config snapshot names).phase = s.phase := by
  unfold State.discarded
  split <;> rfl

@[simp] theorem discarded_marker : (s.discarded config snapshot names).marker = s.marker := by
  unfold State.discarded
  split <;> rfl

@[simp] theorem discarded_disk : (s.discarded config snapshot names).disk = s.disk := by
  unfold State.discarded
  split <;> rfl

end Fields

/-- After a check that did not find the model. -/
def declined (locked : Bool) (previous : Option ModelState) : Phase :=
  if locked then .measuring previous else .waiting previous

/-- A result of the check: under the lock it is carried out of it. -/
def finished (locked : Bool) (result : Except PreparationError PreparationOutcome) : Phase :=
  if locked then .leaving result else .returned result

/-- What a marker of this process is built from. -/
def newState (config : PreparationConfig) (disk : Disk) (snapshot : String) (verified : Bool)
    (answer : Answer) : ModelState :=
  let files := snapshotFiles disk snapshot
  { modelId := config.modelId
    revision := pathName snapshot
    snapshotPath := snapshot
    preparedAt := answer.now
    totalBytes := (files.map Prod.snd).sum
    files
    verified
    version := markerVersion
    vllmImage := .ofText answer.image }

/-- The next step of process `p`. -/
def advance (json : JsonCodec) (builtins : Conversions) (config : PreparationConfig) (s : State)
    (p : Nat) (answer : Answer) : State :=
  match s.phase p with
  | .ready =>
      match readMarker json builtins s.marker with
      | .error error => s.set p (.returned (.error (.markerUnreadable error)))
      | .ok previous => s.set p (.checking false previous)
  | .checking locked previous =>
      match readMarker json builtins s.marker with
      | .error error => s.set p (finished locked (.error (.markerUnreadable error)))
      | .ok none => s.set p (declined locked previous)
      | .ok (some marker) =>
          if marker.matches config.modelId config.modelRevision && marker.verified then
            s.set p (.probing locked previous marker)
          else s.set p (declined locked previous)
  | .probing locked previous marker =>
      if s.disk.isDir marker.snapshotPath then
        s.set p (.verifying locked previous marker marker.files true)
      else s.set p (declined locked previous)
  | .verifying locked previous marker [] ok =>
      if ok then s.set p (finished locked (.ok ⟨marker, false, 0⟩))
      else s.set p (declined locked previous)
  | .verifying locked previous marker (file :: rest) ok =>
      let same := s.disk.stat marker.snapshotPath file.1 == some file.2
      s.set p (.verifying locked previous marker rest (ok && same))
  | .waiting previous =>
      if (s.locks (s.opened p)).isNone then (s.acquire p).set p (.checking true previous)
      else if answer.expired then s.set p (.returned (.error .lockTimeout))
      else s.opens p
  | .measuring previous =>
      if answer.enough then s.set p (.sizing previous)
      else s.set p (.leaving (.error .tooLittleSpace))
  | .sizing previous => s.set p (.fetching (answer.sizes previous) 1 0 false)
  | .fetching expected attempt spent repairing =>
      let s := { s with disk := answer.disk }
      match answer.fetched with
      | none => s.set p (.fetching expected attempt spent repairing)
      | some (.ok snapshot) => s.set p (.comparing expected snapshot (spent + attempt) repairing)
      | some (.error .quota) => s.set p (.leaving (.error .quotaExceeded))
      | some (.error .transient) =>
          if config.downloadMaxAttempts ≤ attempt then
            s.set p (.leaving (.error (.downloadFailed config.downloadMaxAttempts)))
          else s.set p (.fetching expected (attempt + 1) spent repairing)
  | .comparing expected snapshot attempts repairing =>
      match expected with
      | none => s.set p (.listing snapshot attempts false)
      | some sizes =>
          let broken := mismatches s.disk snapshot sizes
          if broken = [] then s.set p (.listing snapshot attempts true)
          else if repairing then s.set p (.leaving (.error (.stillDifferent broken)))
          else (s.discarded config snapshot broken).set p (.discarding sizes attempts)
  | .discarding expected attempts =>
      -- every broken file is unlinked, with its blob, as far as that succeeds
      { s with disk := answer.disk }.set p (.fetching (some expected) 1 attempts true)
  | .listing snapshot attempts verified =>
      s.set p (.marking (newState config s.disk snapshot verified answer) attempts)
  | .marking state attempts =>
      -- `os.replace` of the file that was written next to the marker
      { s.set p (.leaving (.ok ⟨state, true, attempts⟩)) with marker := some (state.toJson json) }
  | .leaving result => (s.release p).set p (.returned result)
  | .returned _ | .dead => s

inductive Move where
  | run (p : Nat) (answer : Answer)
  | kill (p : Nat)
  | disturb (disk : Disk)

def step (json : JsonCodec) (builtins : Conversions) (config : PreparationConfig) (s : State) :
    Move → State
  | .run p answer => advance json builtins config s p answer
  | .kill p => (s.release p).set p .dead
  | .disturb disk => { s with disk := disk }

variable {json : JsonCodec} {builtins : Conversions} {config : PreparationConfig} {s s' : State}
  {p q n : Nat} {answer : Answer} {phase : Phase} {m : ModelState} {locked : Bool} {move : Move}
  {moves : List Move}

/-! ### One process at a time -/

theorem set_phase (s : State) (p q : Nat) (phase : Phase) :
    (s.set p phase).phase q = if q = p then phase else s.phase q := Function.update_apply ..

@[simp] theorem set_phase_self (s : State) (p : Nat) (phase : Phase) :
    (s.set p phase).phase p = phase := Function.update_self ..

theorem set_phase_other (phase : Phase) (h : q ≠ p) : (s.set p phase).phase q = s.phase q := by
  rw [set_phase, if_neg h]

theorem critical_declined (locked : Bool) (previous : Option ModelState) :
    (declined locked previous).critical = locked := by
  cases locked <;> rfl

theorem critical_finished (locked : Bool) (result : Except PreparationError PreparationOutcome) :
    (finished locked result).critical = locked := by
  cases locked <;> rfl

/-- What a step does to the lock, the marker and the files: it tries the lock, takes it, replaces
    the marker, unlinks the lock file, gives the lock back, or none of it, and only the holder
    changes files. -/
inductive Turn (json : JsonCodec) (s : State) (p : Nat) : State → Prop where
  | none : Turn json s p s
  | wait (previous : Option ModelState) (hphase : s.phase p = .waiting previous) :
      Turn json s p (s.opens p)
  | stay (phase : Phase) (disk : Disk) (hphase : phase.critical = (s.phase p).critical)
      (hdisk : (s.phase p).critical = false → disk = s.disk) :
      Turn json s p { s.set p phase with disk := disk }
  | acquire (previous : Option ModelState) (hphase : s.phase p = .waiting previous)
      (hfree : s.locks (s.opened p) = .none) :
      Turn json s p ((s.acquire p).set p (.checking true previous))
  | unlink (expected : List (String × Int)) (attempts : Nat)
      (hphase : (s.phase p).critical = true) :
      Turn json s p { s.set p (.discarding expected attempts) with lockFile := s.lockFile + 1 }
  | mark (state : ModelState) (attempts : Nat) (hphase : s.phase p = .marking state attempts) :
      Turn json s p { s.set p (.leaving (.ok ⟨state, true, attempts⟩)) with
        marker := some (state.toJson json) }
  | release (result : Except PreparationError PreparationOutcome)
      (hphase : s.phase p = .leaving result) :
      Turn json s p ((s.release p).set p (.returned result))

/-- A step that changes nothing but the phase. -/
theorem Turn.set (hphase : phase.critical = (s.phase p).critical) : Turn json s p (s.set p phase) :=
  .stay phase s.disk hphase fun _ => rfl

theorem advance_turn (s : State) (p : Nat) (answer : Answer) :
    Turn json s p (advance json builtins config s p answer) := by
  rcases hphase : s.phase p with - | ⟨locked, previous⟩ | ⟨locked, previous, marker⟩ |
    ⟨locked, previous, marker, rest, ok⟩ | previous | previous | previous |
    ⟨expected, attempt, spent, repairing⟩ | ⟨expected, snapshot, attempts, repairing⟩ |
    ⟨expected, attempts⟩ | ⟨snapshot, attempts, verified⟩ | ⟨state, attempts⟩ | result | result | -
  · simp only [advance, hphase]
    split <;> exact .set (by rw [hphase]; rfl)
  · simp only [advance, hphase]
    split
    · exact .set (by rw [hphase, critical_finished]; rfl)
    · exact .set (by rw [hphase, critical_declined]; rfl)
    · split
      · exact .set (by rw [hphase]; rfl)
      · exact .set (by rw [hphase, critical_declined]; rfl)
  · simp only [advance, hphase]
    split
    · exact .set (by rw [hphase]; rfl)
    · exact .set (by rw [hphase, critical_declined]; rfl)
  · rcases rest with - | ⟨file, rest⟩
    · simp only [advance, hphase]
      split
      · exact .set (by rw [hphase, critical_finished]; rfl)
      · exact .set (by rw [hphase, critical_declined]; rfl)
    · simp only [advance, hphase]
      exact .set (by rw [hphase]; rfl)
  · simp only [advance, hphase]
    split
    · rename_i hfree
      exact .acquire previous hphase (by simpa using hfree)
    · split
      · exact .set (by rw [hphase]; rfl)
      · exact .wait previous hphase
  · simp only [advance, hphase]
    split <;> exact .set (by rw [hphase]; rfl)
  · simp only [advance, hphase]
    exact .set (by rw [hphase]; rfl)
  · have hcritical : (s.phase p).critical = true := by rw [hphase]; rfl
    have hstay : ∀ phase : Phase, phase.critical = true →
        Turn json s p { s.set p phase with disk := answer.disk } :=
      fun phase hnew => .stay phase answer.disk (hnew.trans hcritical.symm)
        fun hnot => absurd hcritical (by simp [hnot])
    simp only [advance, hphase]
    split
    · exact hstay _ rfl
    · exact hstay _ rfl
    · exact hstay _ rfl
    · split <;> exact hstay _ rfl
  · simp only [advance, hphase]
    split
    · exact .set (by rw [hphase]; rfl)
    · split
      · exact .set (by rw [hphase]; rfl)
      · split
        · exact .set (by rw [hphase]; rfl)
        · unfold State.discarded
          split
          · exact .unlink _ _ (by rw [hphase]; rfl)
          · exact .set (by rw [hphase]; rfl)
  · simp only [advance, hphase]
    exact .stay _ answer.disk (by rw [hphase]; rfl) fun hnot => by simp [hphase, Phase.critical] at hnot
  · simp only [advance, hphase]
    exact .set (by rw [hphase]; rfl)
  · simp only [advance, hphase]
    exact .mark state attempts hphase
  · simp only [advance, hphase]
    exact .release result hphase
  · simp only [advance, hphase]
    exact .none
  · simp only [advance, hphase]
    exact .none

/-- No name that differs, and so will be discarded, leads to the lock file. -/
def LeavesLock (config : PreparationConfig) (disk : Disk) : Phase → Prop
  | .comparing (some sizes) snapshot _ false =>
      ∀ name ∈ mismatches disk snapshot sizes, disk.place snapshot name ≠ config.downloadLock
  | _ => True

/-- The step does not unlink the lock file. -/
def KeepsLock (config : PreparationConfig) (s : State) : Move → Prop
  | .run p _ => LeavesLock config s.disk (s.phase p)
  | .kill _ | .disturb _ => True

/-- The lock file stays the one it is. -/
theorem KeepsLock.lockFile (h : KeepsLock config s move) :
    (step json builtins config s move).lockFile = s.lockFile := by
  cases move with
  | run p answer =>
    have hleaves : LeavesLock config s.disk (s.phase p) := h
    rcases hphase : s.phase p with - | ⟨locked, previous⟩ | ⟨locked, previous, marker⟩ |
      ⟨locked, previous, marker, - | ⟨file, rest⟩, ok⟩ | previous | previous | previous |
      ⟨expected, attempt, spent, repairing⟩ | ⟨- | sizes, snapshot, attempts, - | -⟩ |
      ⟨expected, attempts⟩ | ⟨snapshot, attempts, verified⟩ | ⟨state, attempts⟩ | result | result | -
    all_goals
      rw [hphase] at hleaves
      simp only [step, advance, hphase]
    case comparing.some.false =>
      have hnone : ((mismatches s.disk snapshot sizes).any fun name =>
          s.disk.place snapshot name == config.downloadLock) = false := by
        rw [List.any_eq_false]
        intro name hname
        rw [beq_iff_eq]
        exact hleaves name hname
      unfold State.discarded
      rw [hnone]
      split <;> rfl
    case comparing.some.true =>
      simp only [if_true]
      split <;> rfl
    all_goals (try split) <;> (try split) <;> rfl
  | kill p => rfl
  | disturb disk => rfl

/-- There is one lock file, and its lock is with the process between its acquisition and its
    end. -/
structure Guarded (s : State) : Prop where
  holder : ∀ p, (s.phase p).critical = true ↔ s.locks s.lockFile = some p
  handles : ∀ p file, s.handle p = some file → file = s.lockFile

theorem Guarded.opened (h : Guarded s) (p : Nat) : s.opened p = s.lockFile := by
  unfold State.opened
  cases hhandle : s.handle p with
  | none => rfl
  | some file => exact h.handles p file hhandle

theorem Guarded.handles_opens (h : Guarded s) (p q file : Nat)
    (hfile : (s.opens p).handle q = some file) : file = s.lockFile := by
  have hhandle : Function.update s.handle p (some (s.opened p)) q = some file := hfile
  rw [Function.update_apply] at hhandle
  split at hhandle
  · cases hhandle
    exact h.opened p
  · exact h.handles q file hhandle

/-- Whoever had the lock file locked has it, but for the process that releases it. -/
theorem locks_release (s : State) (p q : Nat) :
    (s.release p).locks s.lockFile = some q ↔ q ≠ p ∧ s.locks s.lockFile = some q := by
  unfold State.release
  dsimp only
  split
  · rename_i hheld
    rw [hheld]
    simp [eq_comm]
  · rename_i hheld
    constructor
    · intro hq
      refine ⟨fun heq => hheld ?_, hq⟩
      rw [← heq]
      exact hq
    · exact And.right

theorem Guarded.turn (h : Guarded s) (turn : Turn json s p s') (hfile : s'.lockFile = s.lockFile) :
    Guarded s' := by
  cases turn with
  | none => exact h
  | wait previous hphase => exact ⟨h.holder, h.handles_opens p⟩
  | stay phase disk hphase hdisk =>
    refine ⟨fun q => ?_, h.handles⟩
    simp only [set_phase]
    split
    · rename_i hq
      subst hq
      rw [hphase]
      exact h.holder q
    · exact h.holder q
  | acquire previous hphase hfree =>
    rw [h.opened p] at hfree
    refine ⟨fun q => ?_, h.handles_opens p⟩
    have hlocks : ((s.acquire p).set p (.checking true previous)).locks s.lockFile = some p := by
      show Function.update s.locks (s.opened p) (some p) s.lockFile = some p
      rw [h.opened p, Function.update_self]
    rw [hfile, hlocks, set_phase]
    split
    · rename_i hq
      exact iff_of_true rfl (congrArg some hq.symm)
    · rename_i hq
      have hother : ((s.acquire p).phase q).critical = true ↔ s.locks s.lockFile = some q := h.holder q
      rw [hother, hfree]
      simp [Ne.symm hq]
  | unlink expected attempts hphase => exact absurd hfile (Nat.succ_ne_self s.lockFile)
  | mark state attempts hphase =>
    have hheld : s.locks s.lockFile = some p := (h.holder p).mp (by rw [hphase]; rfl)
    refine ⟨fun q => ?_, h.handles⟩
    simp only [set_phase]
    split
    · rename_i hq
      subst hq
      exact iff_of_true rfl hheld
    · exact h.holder q
  | release result hphase =>
    refine ⟨fun q => ?_, h.handles⟩
    have hlocks := locks_release s p q
    rw [set_phase]
    split
    · rename_i hq
      exact iff_of_false Bool.false_ne_true fun hheld => (hlocks.mp hheld).1 hq
    · rename_i hq
      exact (h.holder q).trans ⟨fun hheld => hlocks.mpr ⟨hq, hheld⟩, fun hheld => (hlocks.mp hheld).2⟩

theorem Guarded.step (h : Guarded s) (hkept : KeepsLock config s move) :
    Guarded (step json builtins config s move) := by
  cases move with
  | run p answer =>
    have hturn : Turn json s p (advance json builtins config s p answer) := advance_turn s p answer
    exact h.turn hturn hkept.lockFile
  | kill p =>
    refine ⟨fun q => ?_, h.handles⟩
    have hlocks := locks_release s p q
    simp only [PrepareModel.step, set_phase]
    split
    · rename_i hq
      exact iff_of_false Bool.false_ne_true fun hheld => (hlocks.mp hheld).1 hq
    · rename_i hq
      exact (h.holder q).trans ⟨fun hheld => hlocks.mpr ⟨hq, hheld⟩, fun hheld => (hlocks.mp hheld).2⟩
  | disturb disk => exact ⟨h.holder, h.handles⟩

theorem guarded_after (h : Guarded s)
    (hkept : Runs.Along (step json builtins config) (KeepsLock config) s moves) :
    Guarded (Runs.after (step json builtins config) s moves) :=
  hkept.invariant h fun _ _ h hkept => h.step hkept

theorem Guarded.init (marker : Option String) (disk : Disk) :
    Guarded { marker := marker, disk := disk } := by
  constructor <;> simp [Phase.critical]

/-- The marker is replaced by nobody but the process that has the lock. -/
theorem marker_step (h : Guarded s) (hmarker : (step json builtins config s move).marker ≠ s.marker) :
    ∃ p answer, move = .run p answer ∧ (s.phase p).critical = true ∧
      s.locks s.lockFile = some p := by
  cases move with
  | run p answer =>
    have hturn : Turn json s p (step json builtins config s (.run p answer)) := advance_turn s p answer
    generalize step json builtins config s (.run p answer) = s' at hturn hmarker
    cases hturn with
    | none | wait | stay | acquire | unlink | release => exact absurd rfl hmarker
    | mark state attempts hphase =>
      have hcritical : (s.phase p).critical = true := by
        rw [hphase]
        rfl
      exact ⟨p, answer, rfl, hcritical, (h.holder p).mp hcritical⟩
  | kill p => exact absurd rfl hmarker
  | disturb disk => exact absurd rfl hmarker

/-! ### A marker that holds

Once a verified marker that fits the request is written, and while its files are in place,
the check finds it, and nobody goes on to a download. -/

/-- The marker of the volume is `m`, and it is what the request asks for. -/
def Vouched (json : JsonCodec) (builtins : Conversions) (config : PreparationConfig) (m : ModelState)
    (s : State) : Prop :=
  readMarker json builtins s.marker = .ok (some m) ∧
    m.matches config.modelId config.modelRevision = true ∧ m.verified = true

/-- A check that has found nothing wrong with `m`, with the number of steps to its end. -/
inductive Restoring (m : ModelState) (locked : Bool) : Nat → Phase → Prop where
  | checking (previous : Option ModelState) :
      Restoring m locked (m.files.length + 3 + locked.toNat) (.checking locked previous)
  | probing (previous : Option ModelState) :
      Restoring m locked (m.files.length + 2 + locked.toNat) (.probing locked previous m)
  | verifying (previous : Option ModelState) (rest : List (String × Int))
      (hrest : ∀ file ∈ rest, file ∈ m.files) :
      Restoring m locked (rest.length + 1 + locked.toNat) (.verifying locked previous m rest true)
  | leaving (hlocked : locked = true) : Restoring m locked 1 (.leaving (.ok ⟨m, false, 0⟩))
  | returned : Restoring m locked 0 (.returned (.ok ⟨m, false, 0⟩))

variable (answer) in
/-- The check goes on, and ends with `m`. -/
theorem Restoring.step (h : Restoring m locked n (s.phase p)) (hvouched : Vouched json builtins config m s)
    (hintact : s.disk.Intact m.snapshotPath m.files) :
    Restoring m locked (n - 1) ((advance json builtins config s p answer).phase p) ∧
      (advance json builtins config s p answer).marker = s.marker ∧
      (advance json builtins config s p answer).disk = s.disk := by
  rcases hvouched with ⟨hread, hmatches, hverified⟩
  generalize hphase : s.phase p = phase at h
  cases h with
  | checking previous =>
    simp only [advance, hphase, hread, hmatches, hverified, Bool.and_self, if_true, set_phase_self]
    refine ⟨?_, rfl, rfl⟩
    have hcount : m.files.length + 3 + locked.toNat - 1 = m.files.length + 2 + locked.toNat := by omega
    rw [hcount]
    exact .probing previous
  | probing previous =>
    simp only [advance, hphase, hintact.1, if_true, set_phase_self]
    refine ⟨?_, rfl, rfl⟩
    have hcount : m.files.length + 2 + locked.toNat - 1 = m.files.length + 1 + locked.toNat := by omega
    rw [hcount]
    exact .verifying previous m.files fun _ hfile => hfile
  | verifying previous rest hrest =>
    rcases rest with - | ⟨file, rest⟩
    · simp only [advance, hphase, if_true, set_phase_self]
      refine ⟨?_, rfl, rfl⟩
      cases locked with
      | false => exact .returned
      | true => exact .leaving rfl
    · have hsame : s.disk.stat m.snapshotPath file.1 = some file.2 :=
        hintact.2 file (hrest file List.mem_cons_self)
      simp only [advance, hphase, hsame, beq_self_eq_true, Bool.and_self, set_phase_self]
      refine ⟨?_, rfl, rfl⟩
      have hcount : (file :: rest).length + 1 + locked.toNat - 1 = rest.length + 1 + locked.toNat := by
        rw [List.length_cons]
        omega
      rw [hcount]
      exact .verifying previous rest fun other hother => hrest other (List.mem_cons_of_mem file hother)
  | leaving hlocked =>
    simp only [advance, hphase]
    refine ⟨?_, rfl, rfl⟩
    rw [set_phase_self]
    exact .returned
  | returned =>
    simp only [advance, hphase]
    exact ⟨.returned, trivial, trivial⟩

/-- `m` is the marker, and whoever has the lock is finding that out or about to leave. -/
structure Settled (json : JsonCodec) (builtins : Conversions) (config : PreparationConfig)
    (m : ModelState) (s : State) : Prop where
  guarded : Guarded s
  vouched : Vouched json builtins config m s
  calm : ∀ p, (s.phase p).critical = true →
    (∃ n, Restoring m true n (s.phase p)) ∨ ∃ result, s.phase p = .leaving result

theorem Turn.phase_other (turn : Turn json s p s') (h : q ≠ p) : s'.phase q = s.phase q := by
  cases turn with
  | none | wait => rfl
  | stay | acquire | unlink | mark | release => exact set_phase_other _ h

/-- Outside the lock a process changes neither the marker nor the files, and comes to a
    critical phase only by taking the lock. -/
theorem Turn.outside (turn : Turn json s p s') (h : (s.phase p).critical = false) :
    s'.marker = s.marker ∧
      ((s'.phase p).critical = true → ∃ previous, s'.phase p = .checking true previous) := by
  cases turn with
  | none => exact ⟨rfl, fun hcritical => absurd hcritical (by simp [h])⟩
  | wait previous hphase =>
    refine ⟨rfl, fun hcritical => ?_⟩
    have hwaiting : (s.phase p).critical = true := hcritical
    rw [h] at hwaiting
    cases hwaiting
  | unlink expected attempts hphase =>
    rw [h] at hphase
    cases hphase
  | stay phase disk hphase hdisk =>
    refine ⟨rfl, fun hcritical => ?_⟩
    simp only [set_phase_self, hphase, h] at hcritical
    cases hcritical
  | acquire previous hphase hfree => exact ⟨rfl, fun _ => ⟨previous, set_phase_self ..⟩⟩
  | mark state attempts hphase =>
    rw [hphase] at h
    cases h
  | release result hphase =>
    rw [hphase] at h
    cases h

/-- What a step of the process that has the lock leaves of a settled marker. -/
theorem Settled.advance_self (h : Settled json builtins config m s)
    (hintact : s.disk.Intact m.snapshotPath m.files) (p : Nat) (answer : Answer) :
    (advance json builtins config s p answer).marker = s.marker ∧
      (((advance json builtins config s p answer).phase p).critical = true →
        ∃ n, Restoring m true n ((advance json builtins config s p answer).phase p)) := by
  rcases hcritical : (s.phase p).critical with - | -
  · have hturn : Turn json s p (advance json builtins config s p answer) := advance_turn s p answer
    rcases hturn.outside hcritical with ⟨hmarker, hnext⟩
    refine ⟨hmarker, fun hnow => ?_⟩
    rcases hnext hnow with ⟨previous, hphase⟩
    rw [hphase]
    exact ⟨_, .checking previous⟩
  · rcases h.calm p hcritical with ⟨n, hrestoring⟩ | ⟨result, hleaving⟩
    · rcases hrestoring.step answer h.vouched hintact with ⟨hnext, hmarker, -⟩
      exact ⟨hmarker, fun _ => ⟨_, hnext⟩⟩
    · simp only [advance, hleaving, set_phase_self]
      exact ⟨rfl, fun hnow => by cases hnow⟩

/-- Nobody compares sizes any more. -/
theorem Settled.keepsLock (h : Settled json builtins config m s) (move : Move) :
    KeepsLock config s move := by
  cases move with
  | run p answer =>
    show LeavesLock config s.disk (s.phase p)
    unfold LeavesLock
    split
    · rename_i hphase
      have hcritical : (s.phase p).critical = true := by
        rw [hphase]
        rfl
      rcases h.calm p hcritical with ⟨n, hrestoring⟩ | ⟨result, hleaving⟩
      · rw [hphase] at hrestoring
        cases hrestoring
      · rw [hphase] at hleaving
        cases hleaving
    · trivial
  | kill p => trivial
  | disturb disk => trivial

theorem Settled.step (h : Settled json builtins config m s)
    (hintact : s.disk.Intact m.snapshotPath m.files) (move : Move) :
    Settled json builtins config m (step json builtins config s move) := by
  have hguarded : Guarded (PrepareModel.step json builtins config s move) :=
    h.guarded.step (h.keepsLock move)
  cases move with
  | run p answer =>
    rcases h.advance_self hintact p answer with ⟨hmarker, hnext⟩
    refine ⟨hguarded, ?_, fun q hq => ?_⟩
    · simpa only [Vouched, PrepareModel.step, hmarker] using h.vouched
    · by_cases hqp : q = p
      · subst hqp
        exact .inl (hnext hq)
      · have hturn : Turn json s p (advance json builtins config s p answer) := advance_turn s p answer
        simp only [PrepareModel.step, hturn.phase_other hqp] at hq ⊢
        exact h.calm q hq
  | kill p =>
    refine ⟨hguarded, h.vouched, fun q hq => ?_⟩
    simp only [PrepareModel.step, set_phase] at hq ⊢
    split at hq
    · cases hq
    · rename_i hqp
      rw [if_neg hqp]
      exact h.calm q hq
  | disturb disk => exact ⟨hguarded, h.vouched, h.calm⟩

/-- The state right after the marker was replaced. -/
theorem Settled.of_mark (h : Guarded s) {state : ModelState} {attempts : Nat}
    (hphase : s.phase p = .marking state attempts)
    (hvouched : Vouched json builtins config m (advance json builtins config s p answer)) :
    Settled json builtins config m (advance json builtins config s p answer) := by
  have hturn : Turn json s p (advance json builtins config s p answer) := advance_turn s p answer
  have hfile : (advance json builtins config s p answer).lockFile = s.lockFile := by
    simp only [advance, hphase]
    rfl
  refine ⟨h.turn hturn hfile, hvouched, fun q hq => ?_⟩
  have hholder : (s.phase p).critical = true := by
    rw [hphase]
    rfl
  by_cases hqp : q = p
  · subst hqp
    refine .inr ⟨.ok ⟨state, true, attempts⟩, ?_⟩
    simp only [advance, hphase, set_phase_self]
  · have hturn : Turn json s p (advance json builtins config s p answer) := advance_turn s p answer
    rw [hturn.phase_other hqp] at hq
    have hlock := (h.holder q).mp hq
    rw [(h.holder p).mp hholder, Option.some.injEq] at hlock
    exact absurd hlock.symm hqp

/-- The steps of `q` in a run. -/
def Move.isRunOf (q : Nat) : Move → Bool
  | .run p _ => p == q
  | .kill _ | .disturb _ => false

/-- A process that began its check under the lock after the marker was settled goes on to
    return `m`, whatever the others do, unless it is killed. -/
theorem Restoring.next (h : Restoring m true n (s.phase q)) (hsettled : Settled json builtins config m s)
    (hintact : s.disk.Intact m.snapshotPath m.files) (hkill : move ≠ .kill q) :
    Restoring m true (n - if move.isRunOf q then 1 else 0)
      ((PrepareModel.step json builtins config s move).phase q) := by
  cases move with
  | run p answer =>
    simp only [Move.isRunOf, beq_iff_eq]
    split
    · rename_i hpq
      subst hpq
      exact (h.step _ hsettled.vouched hintact).1
    · rename_i hpq
      have hturn : Turn json s p (advance json builtins config s p answer) := advance_turn s p answer
      simpa only [PrepareModel.step, hturn.phase_other (Ne.symm hpq), Nat.sub_zero] using h
  | kill p =>
    have hqp : q ≠ p := by
      rintro rfl
      exact hkill rfl
    have hphase : (PrepareModel.step json builtins config s (.kill p)).phase q = s.phase q :=
      set_phase_other _ hqp
    rw [hphase]
    exact h
  | disturb disk => exact h

/-- A dead process takes no step. -/
theorem dead_step (h : s.phase q = .dead) : (step json builtins config s move).phase q = .dead := by
  cases move with
  | run p answer =>
    by_cases hqp : q = p
    · subst hqp
      simp only [step, advance, h]
    · have hturn : Turn json s p (advance json builtins config s p answer) := advance_turn s p answer
      exact (hturn.phase_other hqp).trans h
  | kill p =>
    simp only [step, set_phase]
    split
    · rfl
    · exact h
  | disturb disk => exact h

theorem Settled.after (h : Settled json builtins config m s)
    (hintact : Runs.Along (PrepareModel.step json builtins config)
      (fun s _ => s.disk.Intact m.snapshotPath m.files) s moves) :
    Settled json builtins config m (Runs.after (PrepareModel.step json builtins config) s moves) :=
  hintact.invariant h fun _ move h hintact => h.step hintact move

theorem Restoring.after (h : Restoring m true n (s.phase q)) (hsettled : Settled json builtins config m s)
    (hintact : Runs.Along (PrepareModel.step json builtins config)
      (fun s _ => s.disk.Intact m.snapshotPath m.files) s moves)
    (hkill : ∀ move ∈ moves, move ≠ .kill q) :
    Restoring m true (n - moves.countP (Move.isRunOf q))
      ((Runs.after (PrepareModel.step json builtins config) s moves).phase q) := by
  induction moves generalizing s n with
  | nil => exact h
  | cons move rest ih =>
    rw [List.forall_mem_cons] at hkill
    have hnext := ih (h.next hsettled hintact.1 hkill.1) (hsettled.step hintact.1 move) hintact.2 hkill.2
    rw [Nat.sub_sub, Nat.add_comm] at hnext
    rw [List.countP_cons]
    exact hnext

theorem Restoring.ne_fetching (h : Restoring m locked n phase) (expected : Option (List (String × Int)))
    (attempt spent : Nat) (repairing : Bool) : phase ≠ .fetching expected attempt spent repairing := by
  rintro rfl
  cases h

/-- Killed or not, the process never gets to a download. -/
theorem Restoring.never_fetches (h : (∃ n, Restoring m true n (s.phase q)) ∨ s.phase q = .dead)
    (hsettled : Settled json builtins config m s)
    (hintact : Runs.Along (PrepareModel.step json builtins config)
      (fun s _ => s.disk.Intact m.snapshotPath m.files) s moves)
    (expected : Option (List (String × Int))) (attempt spent : Nat) (repairing : Bool) :
    (Runs.after (PrepareModel.step json builtins config) s moves).phase q ≠
      .fetching expected attempt spent repairing := by
  induction moves generalizing s with
  | nil =>
    rw [Runs.after_nil]
    rcases h with ⟨n, hrestoring⟩ | hdead
    · exact hrestoring.ne_fetching expected attempt spent repairing
    · rw [hdead]
      exact Phase.noConfusion
  | cons move rest ih =>
    refine ih ?_ (hsettled.step hintact.1 move) hintact.2
    rcases h with ⟨n, hrestoring⟩ | hdead
    · by_cases hkill : move = .kill q
      · subst hkill
        exact .inr (set_phase_self ..)
      · exact .inl ⟨_, hrestoring.next hsettled hintact.1 hkill⟩
    · exact .inr (dead_step hdead)

theorem Restoring.done (h : Restoring m locked n phase) (hn : n = 0) :
    phase = .returned (.ok ⟨m, false, 0⟩) := by
  cases h with
  | checking | probing | verifying => simp at hn
  | leaving => cases hn
  | returned => rfl

/-- A process that comes to hold the lock was waiting for it. -/
theorem Turn.took (turn : Turn json s p s') (hfree : (s.phase p).critical = false)
    (htaken : (s'.phase p).critical = true) : ∃ previous, s'.phase p = .checking true previous :=
  (turn.outside hfree).2 htaken

end PrepareModel

/-! ### A lock file that is discarded -/

namespace PrepareModel

namespace Sample

def lockPath : String := "/ws/state/model-download.lock"

theorem five_attempts : 1 ≤ 5 := Nat.succ_pos 4

/-- A request with one attempt for each download. -/
def impatient : PreparationConfig := ⟨"m", none, 1, lockPath, Nat.le_refl 1⟩

def builtins : Conversions where
  str value := match value with
    | .str text => text
    | _ => ""
  int value := match value with
    | .int n => .ok n
    | _ => .error .conversion
  str_text _ := rfl
  int_int _ := rfl

/-- An encoder that nothing is read with. -/
def mute : JsonCodec := ⟨fun _ => "", fun _ => .error jsonDecodeError⟩

/-- A volume on which the lock file has forty bytes. -/
def volume : Disk where
  isDir _ := false
  stat _ name := if name = lockPath then some 40 else none
  walk _ := []

/-- The size table, and a download that brings a snapshot. -/
def listing (sizes : List (String × Int)) : Answer where
  sizes _ := some sizes
  fetched := some (.ok "/ws/hub/abc")
  disk := volume

/-- One process comes to compare sizes and goes on, then another one starts. -/
def twoProcesses (sizes : List (String × Int)) : List Move :=
  List.replicate 8 (.run 0 (listing sizes)) ++ List.replicate 3 (.run 1 (listing sizes))

/-- Where the two processes are then. -/
def phases (sizes : List (String × Int)) : Nat → Phase :=
  (Runs.after (step mute builtins impatient) { marker := none, disk := volume }
    (twoProcesses sizes)).phase

end Sample

end PrepareModel

end AgenticPlatform
