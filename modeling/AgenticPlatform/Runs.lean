/-!
# Runs of a machine

A machine that takes one move after the other. `Along` is a condition on every move of
a run, at the state in which it is made; the rules below are the inductions over a run
that statements about all runs go through.
-/

namespace Runs

variable {S M : Type}

/-- The state a run leads to. -/
def after (step : S → M → S) (s : S) (moves : List M) : S := moves.foldl step s

/-- Every move of the run satisfies `P` where it is made. -/
def Along (step : S → M → S) (P : S → M → Prop) (s : S) : List M → Prop
  | [] => True
  | move :: rest => P s move ∧ Along step P (step s move) rest

variable {step : S → M → S} {P P' : S → M → Prop} {I : S → Prop} {s : S}
  {moves before later : List M}

instance Along.decidable [hP : ∀ s move, Decidable (P s move)] :
    ∀ s moves, Decidable (Along step P s moves)
  | _, [] => isTrue trivial
  | s, move :: rest =>
      have := Along.decidable (step s move) rest
      inferInstanceAs (Decidable (P s move ∧ Along step P (step s move) rest))

@[simp] theorem after_nil : after step s [] = s := rfl

@[simp] theorem after_cons {move : M} {rest : List M} :
    after step s (move :: rest) = after step (step s move) rest := rfl

theorem after_append :
    after step s (before ++ later) = after step (after step s before) later := List.foldl_append

theorem along_append : Along step P s (before ++ later) ↔
    Along step P s before ∧ Along step P (after step s before) later := by
  induction before generalizing s with
  | nil => simp [Along]
  | cons move rest ih => simp [Along, ih, and_assoc]

/-- What every move keeps holds after a run. -/
theorem Along.invariant (h : Along step P s moves) (hs : I s)
    (hstep : ∀ s move, I s → P s move → I (step s move)) : I (after step s moves) := by
  induction moves generalizing s with
  | nil => exact hs
  | cons move rest ih => exact ih h.2 (hstep s move hs h.1)

/-- What every move keeps, wherever it is made, holds after every run. -/
theorem after_invariant (hs : I s) (hstep : ∀ s move, I s → I (step s move)) :
    I (after step s moves) := by
  induction moves generalizing s with
  | nil => exact hs
  | cons move rest ih => exact ih (hstep s move hs)

/-- What a move satisfies where an invariant holds, every move of a run satisfies. -/
theorem Along.consequence (h : Along step P s moves) (hs : I s)
    (hstep : ∀ s move, I s → P s move → I (step s move) ∧ P' s move) :
    Along step P' s moves := by
  induction moves generalizing s with
  | nil => trivial
  | cons move rest ih =>
    obtain ⟨hnext, hmove⟩ := hstep s move hs h.1
    exact ⟨hmove, ih h.2 hnext⟩

/-- Two conditions that agree where an invariant holds are the same condition on a run
    that starts there, if the invariant is kept by moves that meet it. -/
theorem along_congr (hs : I s) (hstep : ∀ s move, I s → P s move → I (step s move))
    (hmove : ∀ s move, I s → (P s move ↔ P' s move)) :
    Along step P s moves ↔ Along step P' s moves := by
  constructor
  · exact fun h => h.consequence hs fun s move hs h => ⟨hstep s move hs h, (hmove s move hs).mp h⟩
  · refine fun h => h.consequence hs fun s move hs h => ?_
    have hmet := (hmove s move hs).mpr h
    exact ⟨hstep s move hs hmet, hmet⟩

/-- A condition on the moves alone. -/
theorem along_of_forall {Q : M → Prop} (h : ∀ move ∈ moves, Q move) :
    Along step (fun _ move => Q move) s moves := by
  induction moves generalizing s with
  | nil => trivial
  | cons move rest ih =>
    rw [List.forall_mem_cons] at h
    exact ⟨h.1, ih h.2⟩

theorem Along.and (h : Along step P s moves) (h' : Along step P' s moves) :
    Along step (fun s move => P s move ∧ P' s move) s moves := by
  induction moves generalizing s with
  | nil => exact h
  | cons move rest ih => exact ⟨⟨h.1, h'.1⟩, ih h.2 h'.2⟩

/-- Where a run first breaks what all moves but `T` keep. -/
theorem Along.broken {T : S → M → Prop} (h : Along step P s moves) (hs : I s)
    (hstep : ∀ s move, I s → P s move → ¬ T s move → I (step s move))
    (hend : ¬ I (after step s moves)) :
    ∃ earlier move rest, moves = earlier ++ move :: rest ∧ T (after step s earlier) move ∧
      I (after step s earlier) := by
  induction moves generalizing s with
  | nil => exact absurd hs hend
  | cons move rest ih =>
    by_cases hmove : T s move
    · exact ⟨[], move, rest, rfl, hmove, hs⟩
    · obtain ⟨earlier, broken, later, hsplit, hbroken, hkept⟩ := ih h.2 (hstep s move hs h.1 hmove) hend
      subst hsplit
      exact ⟨move :: earlier, broken, later, rfl, hbroken, hkept⟩

/-- Where a move leads from a safe state to a safe one exactly if it meets a condition, all states
    of a run are safe exactly if all its moves meet it. -/
theorem safe_iff_along {safe : S → Prop} (hI : I s) (hsafe : safe s)
    (hstep : ∀ s move, I s → I (step s move))
    (hmove : ∀ s move, I s → safe s → (safe (step s move) ↔ P s move)) :
    (∀ before later, moves = before ++ later → safe (after step s before)) ↔
      Along step P s moves := by
  induction moves generalizing s with
  | nil =>
    refine iff_of_true (fun before later hsplit => ?_) trivial
    rw [(List.append_eq_nil_iff.mp hsplit.symm).1]
    exact hsafe
  | cons move rest ih =>
    constructor
    · intro hall
      have hnext : safe (step s move) := hall [move] rest rfl
      refine ⟨(hmove s move hI hsafe).mp hnext, (ih (hstep s move hI) hnext).mp ?_⟩
      rintro before later rfl
      exact hall (move :: before) later rfl
    · rintro ⟨hmet, hrest⟩ before later hsplit
      rcases before with - | ⟨first, before⟩
      · exact hsafe
      · rw [List.cons_append, List.cons.injEq] at hsplit
        rw [← hsplit.1]
        have hnext := (hmove s move hI hsafe).mpr hmet
        exact (ih (hstep s move hI) hnext).mpr hrest before later hsplit.2

end Runs
