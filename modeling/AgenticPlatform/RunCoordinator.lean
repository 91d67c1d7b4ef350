import AgenticPlatform.Runs
import Mathlib.Data.Finset.Card
import Mathlib.Logic.Function.Basic

/-!
# The in-process run coordinator

`InProcessRunCoordinator.lock` keeps one lock for each run in use and counts the calls
that hold it or wait for it. Calls from any number of tasks are interleaved at every
point where one of them may be suspended, a task that is cancelled there included; which
of the tasks waiting for a lock gets it is left open.
-/

namespace AgenticPlatform

namespace InProcessRunCoordinator

/-- Where a call of `lock` for a run is. Locks are numbered as they are made. -/
inductive Phase where
  | idle
  | entering (run : Nat)
  | registering (run : Nat)
  | waiting (run : Nat) (lock : Nat)
  | inside (run : Nat) (lock : Nat)
  | leaving (run : Nat)
  | dropping (run : Nat)
deriving DecidableEq

/-- The coordinator's tables and guard, its locks, and the calls of `lock`. -/
structure State where
  locks : Nat → Option Nat := fun _ => none
  holders : Nat → Option Nat := fun _ => none
  guard : Option Nat := none
  created : Nat := 0
  locked : Nat → Bool := fun _ => false
  phase : Nat → Phase := fun _ => .idle

def State.set (s : State) (t : Nat) (phase : Phase) : State :=
  { s with phase := Function.update s.phase t phase }

inductive Move where
  | call (t : Nat) (run : Nat)
  | takeGuard (t : Nat)
  | register (t : Nat)
  | acquire (t : Nat)
  | leave (t : Nat)
  | dropEntry (t : Nat)
  | cancel (t : Nat)

/-- The first critical section. -/
def register (s : State) (t run : Nat) : State :=
  let lock := (s.locks run).getD s.created
  { s.set t (.waiting run lock) with
    locks := Function.update s.locks run (some lock)
    holders := Function.update s.holders run (some ((s.holders run).getD 0 + 1))
    guard := none
    created := s.created + 1 }

/-- The second critical section. Without a count for the run it raises a `KeyError`. -/
def dropEntry (s : State) (t run : Nat) : State :=
  match s.holders run with
  | none => { s.set t .idle with guard := none }
  | some count =>
      let remaining := count - 1
      if remaining ≤ 0 then
        { s.set t .idle with
          holders := Function.update s.holders run none
          locks := Function.update s.locks run none
          guard := none }
      else
        { s.set t .idle with
          holders := Function.update s.holders run (some remaining)
          guard := none }

/-- One step of one call. The body is left in the same way whether it returns or raises;
    a cancelled task is thrown out of what it waits for. -/
def step (s : State) : Move → State
  | .call t run =>
      match s.phase t with
      | .idle => s.set t (.entering run)
      | _ => s
  | .takeGuard t =>
      match s.guard, s.phase t with
      | none, .entering run => { s.set t (.registering run) with guard := some t }
      | none, .leaving run => { s.set t (.dropping run) with guard := some t }
      | _, _ => s
  | .register t =>
      match s.phase t with
      | .registering run => register s t run
      | _ => s
  | .acquire t =>
      match s.phase t with
      | .waiting run lock =>
          if s.locked lock then s
          else { s.set t (.inside run lock) with locked := Function.update s.locked lock true }
      | _ => s
  | .leave t =>
      match s.phase t with
      | .inside run lock =>
          { s.set t (.leaving run) with locked := Function.update s.locked lock false }
      | _ => s
  | .dropEntry t =>
      match s.phase t with
      | .dropping run => dropEntry s t run
      | _ => s
  | .cancel t =>
      match s.phase t with
      | .entering _ => s.set t .idle
      | .waiting run _ => s.set t (.leaving run)
      | .inside run lock =>
          { s.set t (.leaving run) with locked := Function.update s.locked lock false }
      | .leaving _ => s.set t .idle
      | _ => s

variable {s : State} {t u run lock : Nat}

@[simp] theorem set_phase_self (s : State) (t : Nat) (phase : Phase) :
    (s.set t phase).phase t = phase := Function.update_self ..

/-- The run whose count the call is part of. -/
def Phase.counted : Phase → Option Nat
  | .waiting run _ | .inside run _ | .leaving run | .dropping run => some run
  | .idle | .entering _ | .registering _ => none

/-- The run and the lock that the call holds or waits for. -/
def Phase.uses : Phase → Option (Nat × Nat)
  | .waiting run lock | .inside run lock => some (run, lock)
  | .idle | .entering _ | .registering _ | .leaving _ | .dropping _ => none

theorem Phase.counted_of_uses {phase : Phase} (h : phase.uses = some (run, lock)) :
    phase.counted = some run := by
  cases phase <;> simp_all [Phase.uses, Phase.counted]

/-- What a move can do, with what it needs. -/
inductive Turn (s : State) : State → Prop where
  | none : Turn s s
  | pass (t : Nat) (phase : Phase) (guard : Option Nat)
      (hcounted : phase.counted = (s.phase t).counted)
      (huses : phase.uses = .none) : Turn s { s.set t phase with guard := guard }
  | register (t run : Nat) (hphase : s.phase t = .registering run) : Turn s (register s t run)
  | acquire (t run lock : Nat) (hphase : s.phase t = .waiting run lock)
      (hfree : s.locked lock = false) :
      Turn s { s.set t (.inside run lock) with locked := Function.update s.locked lock true }
  | leave (t run lock : Nat) (hphase : s.phase t = .inside run lock) :
      Turn s { s.set t (.leaving run) with locked := Function.update s.locked lock false }
  | leak (t run : Nat) (hphase : s.phase t = .leaving run) : Turn s (s.set t .idle)
  | dropEntry (t run : Nat) (hphase : s.phase t = .dropping run) : Turn s (dropEntry s t run)

theorem step_turn (s : State) (move : Move) : Turn s (step s move) := by
  cases move with
  | call t run =>
    simp only [step]
    split
    · rename_i hphase
      exact .pass t (.entering run) s.guard (by rw [hphase]; rfl) rfl
    · exact .none
  | takeGuard t =>
    simp only [step]
    split
    · rename_i run hguard hphase
      exact .pass t (.registering run) (some t) (by rw [hphase]; rfl) rfl
    · rename_i run hguard hphase
      exact .pass t (.dropping run) (some t) (by rw [hphase]; rfl) rfl
    · exact .none
  | register t =>
    simp only [step]
    split
    · exact .register t _ ‹_›
    · exact .none
  | acquire t =>
    simp only [step]
    split
    · rename_i run lock hphase
      split
      · exact .none
      · rename_i hfree
        exact .acquire t run lock hphase (Bool.eq_false_of_not_eq_true hfree)
    · exact .none
  | leave t =>
    simp only [step]
    split
    · exact .leave t _ _ ‹_›
    · exact .none
  | dropEntry t =>
    simp only [step]
    split
    · exact .dropEntry t _ ‹_›
    · exact .none
  | cancel t =>
    simp only [step]
    split
    · rename_i hphase
      exact .pass t .idle s.guard (by rw [hphase]; rfl) rfl
    · rename_i run lock hphase
      exact .pass t (.leaving run) s.guard (by rw [hphase]; rfl) rfl
    · exact .leave t _ _ ‹_›
    · exact .leak t _ ‹_›
    · exact .none

/-! ### The count of a run -/

/-- The calls that a run's count stands for; a call that was cancelled before it gave its
    part back is still counted. -/
def Counted (s : State) (run : Nat) : Prop :=
  ∃ calls : Finset Nat, (∀ t, (s.phase t).counted = some run → t ∈ calls) ∧
    calls.card ≤ (s.holders run).getD 0

/-- The entry of a run stays while somebody uses its lock, and only who is inside has it
    locked. -/
structure Exclusive (s : State) : Prop where
  counted : ∀ run, Counted s run
  entry : ∀ t run lock, (s.phase t).uses = some (run, lock) → s.locks run = some lock
  locked : ∀ t run lock, s.phase t = .inside run lock → s.locked lock = true
  single : ∀ t u run run' lock, s.phase t = .inside run lock → s.phase u = .inside run' lock → t = u

theorem Exclusive.init : Exclusive {} where
  counted run := ⟨∅, by simp [Phase.counted], Nat.zero_le _⟩
  entry t run lock h := by cases h
  locked t run lock h := by cases h
  single t u run run' lock h := by cases h

variable {s' : State} {phase : Phase}

/-- A call that moves on without joining the count of a run. -/
theorem Counted.move (h : Counted s run) (hphase : s'.phase = Function.update s.phase t phase)
    (hcounted : phase.counted = some run → (s.phase t).counted = some run)
    (hholders : (s.holders run).getD 0 ≤ (s'.holders run).getD 0) : Counted s' run := by
  rcases h with ⟨calls, hmem, hcard⟩
  refine ⟨calls, ?_, hcard.trans hholders⟩
  intro u hu
  rw [hphase] at hu
  by_cases hut : u = t
  · subst hut
    rw [Function.update_self] at hu
    exact hmem u (hcounted hu)
  · rw [Function.update_of_ne hut] at hu
    exact hmem u hu

/-- The last call that a count stands for is alone. -/
theorem Counted.alone (h : Counted s run) (hlast : (s.holders run).getD 0 ≤ 1)
    (ht : (s.phase t).counted = some run) (hu : (s.phase u).counted = some run) : u = t := by
  rcases h with ⟨calls, hmem, hcard⟩
  exact Finset.card_le_one.mp (hcard.trans hlast) u (hmem u hu) t (hmem t ht)

/-- One call more. -/
theorem Counted.register (h : Counted s run) : Counted (register s t run) run := by
  rcases h with ⟨calls, hmem, hcard⟩
  refine ⟨insert t calls, ?_, ?_⟩
  · intro u hu
    by_cases hut : u = t
    · exact hut ▸ Finset.mem_insert_self t calls
    · refine Finset.mem_insert_of_mem (hmem u ?_)
      simpa [InProcessRunCoordinator.register, State.set, hut] using hu
  · have hinsert := Finset.card_insert_le t calls
    simp only [InProcessRunCoordinator.register, Function.update_self, Option.getD_some]
    omega

/-- One call less. -/
theorem Counted.drop (h : Counted s run) (ht : (s.phase t).counted = some run)
    (hphase : s'.phase = Function.update s.phase t .idle)
    (hholders : (s.holders run).getD 0 - 1 ≤ (s'.holders run).getD 0) : Counted s' run := by
  rcases h with ⟨calls, hmem, hcard⟩
  refine ⟨calls.erase t, ?_, ?_⟩
  · intro u hu
    rw [hphase] at hu
    by_cases hut : u = t
    · subst hut
      rw [Function.update_self] at hu
      cases hu
    · rw [Function.update_of_ne hut] at hu
      exact Finset.mem_erase.mpr ⟨hut, hmem u hu⟩
  · have herase := Finset.card_erase_of_mem (hmem t ht)
    omega

variable (t phase) in
/-- What one call must see to when it moves on. -/
theorem Exclusive.move (h : Exclusive s) (hphase : s'.phase = Function.update s.phase t phase)
    (hcounted : ∀ run, Counted s' run)
    (hentry : ∀ u run lock, u ≠ t → (s.phase u).uses = some (run, lock) → s'.locks run = some lock)
    (hown : ∀ run lock, phase.uses = some (run, lock) → s'.locks run = some lock)
    (hlocked : ∀ u run lock, u ≠ t → s.phase u = .inside run lock → s'.locked lock = true)
    (hinside : ∀ run lock, phase = .inside run lock →
      s'.locked lock = true ∧ ∀ u run', s.phase u ≠ .inside run' lock) : Exclusive s' where
  counted := hcounted
  entry u run lock hu := by
    rw [hphase] at hu
    by_cases hut : u = t
    · subst hut
      rw [Function.update_self] at hu
      exact hown run lock hu
    · rw [Function.update_of_ne hut] at hu
      exact hentry u run lock hut hu
  locked u run lock hu := by
    rw [hphase] at hu
    by_cases hut : u = t
    · subst hut
      rw [Function.update_self] at hu
      exact (hinside run lock hu).1
    · rw [Function.update_of_ne hut] at hu
      exact hlocked u run lock hut hu
  single u v run run' lock hu hv := by
    rw [hphase] at hu hv
    by_cases hut : u = t
    · subst hut
      rw [Function.update_self] at hu
      by_cases hvu : v = u
      · exact hvu.symm
      · rw [Function.update_of_ne hvu] at hv
        exact absurd hv ((hinside run lock hu).2 v run')
    · rw [Function.update_of_ne hut] at hu
      by_cases hvt : v = t
      · subst hvt
        rw [Function.update_self] at hv
        exact absurd hu ((hinside run' lock hv).2 u run)
      · rw [Function.update_of_ne hvt] at hv
        exact h.single u v run run' lock hu hv

theorem Exclusive.register (h : Exclusive s) (hphase : s.phase t = .registering run) :
    Exclusive (register s t run) := by
  refine h.move t (.waiting run ((s.locks run).getD s.created)) rfl ?_ ?_ ?_ ?_ ?_
  · intro run'
    by_cases hrun : run' = run
    · subst hrun
      exact (h.counted run').register
    · refine (h.counted run').move rfl (fun hcounted => ?_) ?_
      · cases hcounted
        exact absurd rfl hrun
      · simp [InProcessRunCoordinator.register, Function.update_of_ne hrun]
  · intro u run' lock hut huses
    have hentry := h.entry u run' lock huses
    by_cases hrun : run' = run
    · subst hrun
      simp [InProcessRunCoordinator.register, hentry]
    · simp [InProcessRunCoordinator.register, Function.update_of_ne hrun, hentry]
  · intro run' lock huses
    cases huses
    simp [InProcessRunCoordinator.register]
  · intro u run' lock hut hu
    exact h.locked u run' lock hu
  · intro run' lock hinside
    cases hinside

/-- A call that takes no lock and whose count stays, or is not given back. -/
theorem Exclusive.pass (h : Exclusive s) (guard : Option Nat)
    (hcounted : ∀ run, phase.counted = some run → (s.phase t).counted = some run)
    (huses : phase.uses = none) : Exclusive { s.set t phase with guard := guard } := by
  refine h.move t phase rfl ?_ ?_ ?_ ?_ ?_
  · exact fun run => (h.counted run).move rfl (hcounted run) le_rfl
  · exact fun u run lock _ hu => h.entry u run lock hu
  · intro run lock hown
    rw [huses] at hown
    cases hown
  · exact fun u run lock _ hu => h.locked u run lock hu
  · rintro run lock rfl
    cases huses

theorem Exclusive.acquire (h : Exclusive s) (hphase : s.phase t = .waiting run lock)
    (hfree : s.locked lock = false) :
    Exclusive { s.set t (.inside run lock) with locked := Function.update s.locked lock true } := by
  refine h.move t (.inside run lock) rfl ?_ ?_ ?_ ?_ ?_
  · intro run'
    refine (h.counted run').move rfl (fun hcounted => ?_) le_rfl
    rw [hphase]
    exact hcounted
  · exact fun u run' lock' _ hu => h.entry u run' lock' hu
  · intro run' lock' hown
    cases hown
    exact h.entry t run lock (by rw [hphase]; rfl)
  · intro u run' lock' _ hu
    by_cases hlock : lock' = lock
    · subst hlock
      exact Function.update_self ..
    · simpa [Function.update_of_ne hlock] using h.locked u run' lock' hu
  · intro run' lock' hinside
    cases hinside
    refine ⟨Function.update_self .., fun u run' hu => ?_⟩
    have hlocked := h.locked u run' lock hu
    rw [hfree] at hlocked
    cases hlocked

theorem Exclusive.leave (h : Exclusive s) (hphase : s.phase t = .inside run lock) :
    Exclusive { s.set t (.leaving run) with locked := Function.update s.locked lock false } := by
  refine h.move t (.leaving run) rfl ?_ ?_ ?_ ?_ ?_
  · intro run'
    refine (h.counted run').move rfl (fun hcounted => ?_) le_rfl
    rw [hphase]
    exact hcounted
  · exact fun u run' lock' _ hu => h.entry u run' lock' hu
  · intro run' lock' hown
    cases hown
  · intro u run' lock' hut hu
    have hlock : lock' ≠ lock := by
      rintro rfl
      exact hut (h.single u t run' run lock' hu hphase)
    simpa [Function.update_of_ne hlock] using h.locked u run' lock' hu
  · intro run' lock' hinside
    cases hinside

/-- A count of at most one is the leaving call's own, and nobody else uses the entry. -/
theorem Exclusive.unused (h : Exclusive s) (hphase : s.phase t = .dropping run)
    (hlast : (s.holders run).getD 0 ≤ 1) : (s.phase u).uses ≠ some (run, lock) := by
  intro huses
  have hdropping : (s.phase t).counted = some run := by
    rw [hphase]
    rfl
  have hsame : u = t := (h.counted run).alone hlast hdropping (Phase.counted_of_uses huses)
  rw [hsame, hphase] at huses
  cases huses

theorem Exclusive.dropEntry (h : Exclusive s) (hphase : s.phase t = .dropping run) :
    Exclusive (dropEntry s t run) := by
  have hdropping : (s.phase t).counted = some run := by
    rw [hphase]
    rfl
  have hother : ∀ run', run' ≠ run → Phase.idle.counted = some run' → (s.phase t).counted = some run' :=
    fun run' _ hidle => by cases hidle
  simp only [InProcessRunCoordinator.dropEntry]
  split
  · exact h.pass none (fun run' hidle => by cases hidle) rfl
  · rename_i count hcount
    split
    · rename_i hremaining
      have hlast : (s.holders run).getD 0 ≤ 1 := by
        simp only [hcount, Option.getD_some]
        omega
      refine h.move t .idle rfl ?_ ?_ ?_ ?_ ?_
      · intro run'
        by_cases hrun : run' = run
        · subst hrun
          refine (h.counted run').drop hdropping rfl ?_
          simp only [Function.update_self, Option.getD_none]
          omega
        · refine (h.counted run').move rfl (hother run' hrun) ?_
          simp [Function.update_of_ne hrun]
      · intro u run' lock hut huses
        have hrun : run' ≠ run := by
          rintro rfl
          exact h.unused hphase hlast huses
        simpa [Function.update_of_ne hrun] using h.entry u run' lock huses
      · intro run' lock hown
        cases hown
      · exact fun u run' lock _ hu => h.locked u run' lock hu
      · intro run' lock hinside
        cases hinside
    · refine h.move t .idle rfl ?_ ?_ ?_ ?_ ?_
      · intro run'
        by_cases hrun : run' = run
        · subst hrun
          refine (h.counted run').drop hdropping rfl ?_
          simp [hcount]
        · refine (h.counted run').move rfl (hother run' hrun) ?_
          simp [Function.update_of_ne hrun]
      · exact fun u run' lock _ huses => h.entry u run' lock huses
      · intro run' lock hown
        cases hown
      · exact fun u run' lock _ hu => h.locked u run' lock hu
      · intro run' lock hinside
        cases hinside

theorem Exclusive.turn (h : Exclusive s) (turn : Turn s s') : Exclusive s' := by
  cases turn with
  | none => exact h
  | pass t phase guard hcounted huses => exact h.pass guard (fun run hrun => hcounted ▸ hrun) huses
  | register t run hphase => exact h.register hphase
  | acquire t run lock hphase hfree => exact h.acquire hphase hfree
  | leave t run lock hphase => exact h.leave hphase
  | leak t run hphase => exact h.pass s.guard (fun run hrun => by cases hrun) rfl
  | dropEntry t run hphase => exact h.dropEntry hphase

theorem exclusive_after (moves : List Move) : Exclusive (Runs.after step {} moves) :=
  Runs.after_invariant Exclusive.init fun s move h => h.turn (step_turn s move)

/-- A move that takes an entry from the table finds nobody at the lock, and leaves nobody. -/
theorem Exclusive.removed (h : Exclusive s) (turn : Turn s s') (hentry : s.locks run = some lock)
    (hgone : s'.locks run = none) (u lock' : Nat) : (s.phase u).uses ≠ some (run, lock') := by
  cases turn with
  | none | pass | acquire | leave | leak =>
    exact absurd (hentry.symm.trans hgone) (by simp)
  | register t run' hphase =>
    exfalso
    by_cases hrun : run = run'
    · subst hrun
      simp [InProcessRunCoordinator.register] at hgone
    · simp [InProcessRunCoordinator.register, Function.update_of_ne hrun, hentry] at hgone
  | dropEntry t run' hphase =>
    simp only [InProcessRunCoordinator.dropEntry] at hgone
    split at hgone
    · exact absurd (hentry.symm.trans hgone) (by simp)
    · rename_i count hcount
      split at hgone
      · rename_i hremaining
        by_cases hrun : run = run'
        · subst hrun
          refine h.unused hphase ?_
          simp only [hcount, Option.getD_some]
          omega
        · exfalso
          simp [Function.update_of_ne hrun, hentry] at hgone
      · exact absurd (hentry.symm.trans hgone) (by simp)

/-- However the calls are interleaved, at most one is in the body for a run. Who holds the
    lock of a run or waits for it finds its lock in the table, so all of them have the same
    one, and the entry is taken out by no move that finds somebody at the lock. -/
theorem lock_exclusive (moves : List Move) :
    let s := Runs.after step {} moves
    (∀ t u run lock lock', s.phase t = .inside run lock → s.phase u = .inside run lock' → t = u) ∧
    (∀ t u run lock lock', (s.phase t).uses = some (run, lock) →
      (s.phase u).uses = some (run, lock') → lock = lock' ∧ s.locks run = some lock) ∧
    (∀ move run lock, s.locks run = some lock → (step s move).locks run = none →
      ∀ u lock', (s.phase u).uses ≠ some (run, lock')) := by
  intro s
  have h : Exclusive s := exclusive_after moves
  have hsame : ∀ t u run lock lock', (s.phase t).uses = some (run, lock) →
      (s.phase u).uses = some (run, lock') → lock = lock' ∧ s.locks run = some lock := by
    intro t u run lock lock' ht hu
    have hentry := h.entry t run lock ht
    have hentry' := h.entry u run lock' hu
    rw [hentry, Option.some.injEq] at hentry'
    exact ⟨hentry', hentry⟩
  refine ⟨?_, hsame, ?_⟩
  · intro t u run lock lock' ht hu
    have hlock : lock = lock' :=
      (hsame t u run lock lock' (by rw [ht]; rfl) (by rw [hu]; rfl)).1
    subst hlock
    exact h.single t u run run lock ht hu
  · intro move run lock hentry hgone
    exact h.removed (step_turn s move) hentry hgone

end InProcessRunCoordinator

end AgenticPlatform
