import Mathlib.Algebra.BigOperators.Group.List.Basic
import Mathlib.Data.List.Chain

/-!
# Optimistic locking on one row

A transaction reads a row, computes, re-reads the row to overwrite it, and commits; the
commit compares versions, but the version it compares is the one the re-read found. Any
number of transactions may be open at once, and what one computes may also depend on an
environment, everything else it reads. As long as every overwrite is timely, the re-read
finding what the transaction read at first, the committed transactions form a serial
history: each of them worked on the row its predecessor left.
-/

namespace Optimistic

variable {T E R : Type}

/-- A row next to its version counter. -/
structure Versioned (R : Type) where
  row : R
  version : Nat

/-- How the body of a transaction ends: it leaves without a commit, it commits without
    writing the row, or it writes it. -/
inductive Outcome (R : Type) where
  | abandoned
  | untouched
  | wrote (row : R)

/-- A transaction that read the row and did not end yet. -/
structure Open (T R : Type) where
  task : T
  seen : Versioned R

/-- A transaction about to commit: the row it writes, if it does, next to the version
    that its re-read found. -/
structure Ready (T R : Type) where
  task : T
  write : Option (Versioned R)

/-- A commit: the row just before it and just after it. -/
structure Entry (T R : Type) where
  task : T
  before : R
  after : R

structure State (T R : Type) where
  current : Versioned R
  opened : List (Open T R)
  ready : List (Ready T R)
  log : List (Entry T R)

inductive Move (T E : Type) where
  | read (task : T)
  | update (n : Nat) (env : E)
  | commit (n : Nat)

/-- A row nobody works on. -/
def idle (row : R) : State T R := ⟨⟨row, 0⟩, [], [], []⟩

namespace State

/-- What a body leaves to commit; a write goes over the row as it is by now. -/
def prepare (s : State T R) (task : T) : Outcome R → State T R
  | .abandoned => s
  | .untouched => { s with ready := s.ready ++ [⟨task, none⟩] }
  | .wrote row => { s with ready := s.ready ++ [⟨task, some ⟨row, s.current.version⟩⟩] }

/-- The end of a transaction; a version that moved on since the re-read rolls it back. -/
def commit (s : State T R) (txn : Ready T R) : State T R :=
  match txn.write with
  | none => { s with log := s.log ++ [⟨txn.task, s.current.row, s.current.row⟩] }
  | some found =>
      if found.version = s.current.version then
        { s with
          current := ⟨found.row, s.current.version + 1⟩
          log := s.log ++ [⟨txn.task, s.current.row, found.row⟩] }
      else s

/-- One move; a transaction that is not there does nothing. -/
def step (body : T → E → R → Outcome R) (s : State T R) : Move T E → State T R
  | .read task => { s with opened := s.opened ++ [⟨task, s.current⟩] }
  | .update n env =>
      match s.opened[n]? with
      | none => s
      | some txn =>
          { s with opened := s.opened.eraseIdx n }.prepare txn.task (body txn.task env txn.seen.row)
  | .commit n =>
      match s.ready[n]? with
      | none => s
      | some txn => { s with ready := s.ready.eraseIdx n }.commit txn

/-- A finite interleaving. -/
def run (body : T → E → R → Outcome R) (s : State T R) : List (Move T E) → State T R
  | [] => s
  | move :: rest => run body (s.step body move) rest

/-- A move that overwrites the row finds it as its transaction read it. -/
def Timely (body : T → E → R → Outcome R) (s : State T R) : Move T E → Prop
  | .update n env => ∀ txn row, s.opened[n]? = some txn →
      body txn.task env txn.seen.row = .wrote row → s.current.version = txn.seen.version
  | _ => True

/-- Every overwrite of an interleaving is timely. -/
def AllTimely (body : T → E → R → Outcome R) (s : State T R) : List (Move T E) → Prop
  | [] => True
  | move :: rest => s.Timely body move ∧ AllTimely body (s.step body move) rest

/-- Whoever read the current version read the current row, and a write made for the
    current version is one its task makes from the current row. -/
structure Consistent (body : T → E → R → Outcome R) (s : State T R) : Prop where
  opened : ∀ txn ∈ s.opened, txn.seen.version ≤ s.current.version ∧
    (txn.seen.version = s.current.version → txn.seen.row = s.current.row)
  untouched : ∀ txn ∈ s.ready, txn.write = none →
    ∃ env seen, body txn.task env seen = .untouched
  wrote : ∀ txn ∈ s.ready, ∀ found, txn.write = some found →
    found.version ≤ s.current.version ∧
      (found.version = s.current.version →
        ∃ env, body txn.task env s.current.row = .wrote found.row)

end State

/-! ### Serial histories -/

/-- The commit is one the task can make: from the row before it, or without a write. -/
def Entry.Justified (body : T → E → R → Outcome R) (entry : Entry T R) : Prop :=
  (∃ env, body entry.task env entry.before = .wrote entry.after) ∨
    (entry.after = entry.before ∧ ∃ env seen, body entry.task env seen = .untouched)

/-- A history in which every commit starts from the row the one before it left. -/
inductive Serial (body : T → E → R → Outcome R) : R → List (Entry T R) → R → Prop where
  | nil (row : R) : Serial body row [] row
  | cons {entry : Entry T R} {log : List (Entry T R)} {last : R} :
      entry.Justified body → Serial body entry.after log last →
      Serial body entry.before (entry :: log) last

namespace Serial

variable {body : T → E → R → Outcome R} {first last middle : R} {log later : List (Entry T R)}

theorem append (h : Serial body first log middle) (h' : Serial body middle later last) :
    Serial body first (log ++ later) last := by
  induction h with
  | nil row => exact h'
  | cons hentry _ ih => exact .cons hentry (ih h')

theorem snoc {task : T} {row : R} (h : Serial body first log middle)
    (hentry : Entry.Justified body ⟨task, middle, row⟩) :
    Serial body first (log ++ [⟨task, middle, row⟩]) row :=
  h.append (.cons hentry (.nil row))

/-- **Invariants.** What every possible commit preserves holds of every committed row. -/
theorem preserves (h : Serial body first log last) (P : R → Prop) (hfirst : P first)
    (hstep : ∀ entry : Entry T R, entry.Justified body → P entry.before → P entry.after) :
    (∀ entry ∈ log, P entry.after) ∧ P last := by
  induction h with
  | nil row => exact ⟨by simp, hfirst⟩
  | cons hentry _ ih =>
    have hnext := hstep _ hentry hfirst
    obtain ⟨hall, hlast⟩ := ih hnext
    exact ⟨List.forall_mem_cons.mpr ⟨hnext, hall⟩, hlast⟩

/-- **Paths.** What relates the two rows of every possible commit relates neighbours. -/
theorem isChain (h : Serial body first log last) {S : Type} (view : R → S) {rel : S → S → Prop}
    (hstep : ∀ entry : Entry T R, entry.Justified body → rel (view entry.before) (view entry.after)) :
    (view first :: log.map fun entry => view entry.after).IsChain rel := by
  induction h with
  | nil row => exact List.isChain_singleton _
  | cons hentry _ ih => exact List.isChain_cons_cons.mpr ⟨hstep _ hentry, ih⟩

/-- **Accounts.** A total to which every possible commit adds its charge is the sum of
    the charges of the commits that happened. -/
theorem total (h : Serial body first log last) {A : Type} [AddMonoid A] (balance : R → A)
    (charge : T → A)
    (hstep : ∀ entry : Entry T R, entry.Justified body →
      balance entry.after = balance entry.before + charge entry.task) :
    balance last = balance first + (log.map fun entry => charge entry.task).sum := by
  induction h with
  | nil row => simp
  | cons hentry _ ih => rw [ih, hstep _ hentry, List.map_cons, List.sum_cons, add_assoc]

end Serial

/-! ### Every timely interleaving is serial -/

namespace State

variable {body : T → E → R → Outcome R} {s : State T R} {first : R}

theorem Consistent.eraseOpened (h : s.Consistent body) (n : Nat) :
    State.Consistent body { s with opened := s.opened.eraseIdx n } :=
  ⟨fun txn hmem => h.opened txn (List.mem_of_mem_eraseIdx hmem), h.untouched, h.wrote⟩

theorem Consistent.eraseReady (h : s.Consistent body) (n : Nat) :
    State.Consistent body { s with ready := s.ready.eraseIdx n } :=
  ⟨h.opened, fun txn hmem => h.untouched txn (List.mem_of_mem_eraseIdx hmem),
    fun txn hmem => h.wrote txn (List.mem_of_mem_eraseIdx hmem)⟩

/-- One more transaction about to commit. -/
theorem Consistent.addReady (h : s.Consistent body) {txn : Ready T R}
    (huntouched : txn.write = none → ∃ env seen, body txn.task env seen = .untouched)
    (hwrote : ∀ found, txn.write = some found → found.version ≤ s.current.version ∧
      (found.version = s.current.version →
        ∃ env, body txn.task env s.current.row = .wrote found.row)) :
    State.Consistent body { s with ready := s.ready ++ [txn] } := by
  refine ⟨h.opened, fun other hmem => ?_, fun other hmem => ?_⟩
  · rcases List.mem_append.mp hmem with hold | hnew
    · exact h.untouched other hold
    · rw [List.mem_singleton.mp hnew]
      exact huntouched
  · rcases List.mem_append.mp hmem with hold | hnew
    · exact h.wrote other hold
    · rw [List.mem_singleton.mp hnew]
      exact hwrote

theorem prepare_consistent {txn : Open T R} {env : E} (h : s.Consistent body)
    (hseen : s.current.version = txn.seen.version → txn.seen.row = s.current.row)
    (htimely : ∀ row, body txn.task env txn.seen.row = .wrote row →
      s.current.version = txn.seen.version) :
    (s.prepare txn.task (body txn.task env txn.seen.row)).Consistent body := by
  cases hbody : body txn.task env txn.seen.row with
  | abandoned => exact h
  | untouched => exact h.addReady (fun _ => ⟨env, _, hbody⟩) (by rintro _ ⟨⟩)
  | wrote row =>
    refine h.addReady (by rintro ⟨⟩) ?_
    rintro _ ⟨⟩
    refine ⟨Nat.le_refl _, fun _ => ⟨env, ?_⟩⟩
    rw [← hseen (htimely row hbody)]
    exact hbody

/-- Preparing a commit is none. -/
theorem prepare_kept (s : State T R) (task : T) (outcome : Outcome R) :
    (s.prepare task outcome).log = s.log ∧ (s.prepare task outcome).current = s.current := by
  cases outcome <;> exact ⟨rfl, rfl⟩

/-- The end of a transaction extends the history by at most one justified commit. -/
theorem commit_serial {txn : Ready T R} (h : s.Consistent body)
    (huntouched : txn.write = none → ∃ env seen, body txn.task env seen = .untouched)
    (hwrote : ∀ found, txn.write = some found → found.version = s.current.version →
      ∃ env, body txn.task env s.current.row = .wrote found.row)
    (hserial : Serial body first s.log s.current.row) :
    (s.commit txn).Consistent body ∧
      Serial body first (s.commit txn).log (s.commit txn).current.row := by
  unfold commit
  cases hwrite : txn.write with
  | none => exact ⟨⟨h.opened, h.untouched, h.wrote⟩, hserial.snoc (.inr ⟨rfl, huntouched hwrite⟩)⟩
  | some found =>
    by_cases hversion : found.version = s.current.version
    · simp only [if_pos hversion]
      refine ⟨⟨fun other hmem => ?_, h.untouched, fun other hmem old hold => ?_⟩,
        hserial.snoc (.inl (hwrote found hwrite hversion))⟩
      · have hle := (h.opened other hmem).1
        exact ⟨Nat.le_succ_of_le hle, fun heq => absurd heq (Nat.ne_of_lt (Nat.lt_succ_of_le hle))⟩
      · have hle := (h.wrote other hmem old hold).1
        exact ⟨Nat.le_succ_of_le hle, fun heq => absurd heq (Nat.ne_of_lt (Nat.lt_succ_of_le hle))⟩
    · simp only [if_neg hversion]
      exact ⟨h, hserial⟩

theorem step_serial (move : Move T E) (h : s.Consistent body) (htimely : s.Timely body move)
    (hserial : Serial body first s.log s.current.row) :
    (s.step body move).Consistent body ∧
      Serial body first (s.step body move).log (s.step body move).current.row := by
  cases move with
  | read task =>
    refine ⟨⟨fun txn hmem => ?_, h.untouched, h.wrote⟩, hserial⟩
    rcases List.mem_append.mp hmem with hold | hnew
    · exact h.opened txn hold
    · rw [List.mem_singleton.mp hnew]
      exact ⟨Nat.le_refl _, fun _ => rfl⟩
  | update n env =>
    simp only [step]
    cases htxn : s.opened[n]? with
    | none => exact ⟨h, hserial⟩
    | some txn =>
      simp only
      have hseen := (h.opened txn (List.mem_of_getElem? htxn)).2
      obtain ⟨hlog, hcurrent⟩ := prepare_kept { s with opened := s.opened.eraseIdx n } txn.task
        (body txn.task env txn.seen.row)
      rw [hlog, hcurrent]
      exact ⟨prepare_consistent (h.eraseOpened n) (fun heq => hseen heq.symm)
        (fun row hrow => htimely txn row htxn hrow), hserial⟩
  | commit n =>
    simp only [step]
    cases htxn : s.ready[n]? with
    | none => exact ⟨h, hserial⟩
    | some txn =>
      simp only
      have hmem := List.mem_of_getElem? htxn
      exact commit_serial (h.eraseReady n) (h.untouched txn hmem)
        (fun found hfound => (h.wrote txn hmem found hfound).2) hserial

theorem run_serial (moves : List (Move T E)) (h : s.Consistent body)
    (htimely : s.AllTimely body moves) (hserial : Serial body first s.log s.current.row) :
    Serial body first (s.run body moves).log (s.run body moves).current.row := by
  induction moves generalizing s with
  | nil => exact hserial
  | cons move rest ih =>
    obtain ⟨hnext, hserial'⟩ := step_serial move h htimely.1 hserial
    exact ih hnext htimely.2 hserial'

/-- **No update is lost.** However transactions overlap, as long as every overwrite is
    timely the commits form a serial history from the first row to the current one. -/
theorem serial_of_idle (body : T → E → R → Outcome R) (row : R) (moves : List (Move T E))
    (htimely : (idle row).AllTimely body moves) :
    Serial body row ((idle row).run body moves).log ((idle row).run body moves).current.row :=
  run_serial moves ⟨by rintro _ ⟨⟩, by rintro _ ⟨⟩, by rintro _ ⟨⟩⟩ htimely (.nil row)

end State

end Optimistic
