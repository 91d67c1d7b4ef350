import Mathlib.Logic.Function.Basic

/-!
# Exclusive ownership

Owners that hold at most one thing each, and no thing twice. An owner takes a thing that
nobody holds, gives it up, or hands it to another owner that holds nothing.
-/

namespace Ownership

variable {O P : Type} {holds : O → Option P} {owner other : O} {thing : P}

/-- No thing has two owners. -/
def Exclusive (holds : O → Option P) : Prop :=
  ∀ owner other thing, holds owner = some thing → holds other = some thing → owner = other

/-- Somebody holds the thing. -/
def Held (holds : O → Option P) (thing : P) : Prop := ∃ owner, holds owner = some thing

variable [DecidableEq O]

theorem Exclusive.drop (h : Exclusive holds) (owner : O) :
    Exclusive (Function.update holds owner none) := by
  intro first second thing hfirst hsecond
  have hkept : ∀ holder, Function.update holds owner none holder = some thing →
      holds holder = some thing := by
    intro holder hholder
    by_cases heq : holder = owner
    · subst heq
      rw [Function.update_self] at hholder
      cases hholder
    · rwa [Function.update_of_ne heq] at hholder
  exact h first second thing (hkept first hfirst) (hkept second hsecond)

theorem Exclusive.acquire (h : Exclusive holds) (owner : O)
    (hfree : ∀ other, other ≠ owner → holds other ≠ some thing) :
    Exclusive (Function.update holds owner (some thing)) := by
  intro first second thing' hfirst hsecond
  by_cases hf : first = owner
  · by_cases hs : second = owner
    · rw [hf, hs]
    · subst hf
      rw [Function.update_self, Option.some.injEq] at hfirst
      subst hfirst
      rw [Function.update_of_ne hs] at hsecond
      exact absurd hsecond (hfree second hs)
  · rw [Function.update_of_ne hf] at hfirst
    by_cases hs : second = owner
    · subst hs
      rw [Function.update_self, Option.some.injEq] at hsecond
      subst hsecond
      exact absurd hfirst (hfree first hf)
    · rw [Function.update_of_ne hs] at hsecond
      exact h first second thing' hfirst hsecond

/-- What an owner held is free once it gave it up. -/
theorem Exclusive.free_after_drop (h : Exclusive holds) (hholds : holds owner = some thing)
    (holder : O) : Function.update holds owner none holder ≠ some thing := by
  by_cases heq : holder = owner
  · subst heq
    rw [Function.update_self]
    exact nofun
  · rw [Function.update_of_ne heq]
    intro hsome
    exact heq (h holder owner thing hsome hholds)

theorem Exclusive.transfer (h : Exclusive holds) (hholds : holds owner = some thing) (other : O) :
    Exclusive (Function.update (Function.update holds owner none) other (some thing)) :=
  (h.drop owner).acquire other fun holder _ => h.free_after_drop hholds holder

theorem held_acquire (hnone : holds owner = none) (wanted : P) :
    Held (Function.update holds owner (some thing)) wanted ↔ wanted = thing ∨ Held holds wanted := by
  constructor
  · rintro ⟨holder, hholder⟩
    by_cases heq : holder = owner
    · subst heq
      rw [Function.update_self, Option.some.injEq] at hholder
      exact .inl hholder.symm
    · rw [Function.update_of_ne heq] at hholder
      exact .inr ⟨holder, hholder⟩
  · rintro (rfl | ⟨holder, hholder⟩)
    · exact ⟨owner, Function.update_self ..⟩
    · refine ⟨holder, ?_⟩
      rw [Function.update_of_ne]
      · exact hholder
      · rintro rfl
        rw [hnone] at hholder
        cases hholder

theorem held_drop (h : Exclusive holds) (hholds : holds owner = some thing) (wanted : P) :
    Held (Function.update holds owner none) wanted ↔ wanted ≠ thing ∧ Held holds wanted := by
  constructor
  · rintro ⟨holder, hholder⟩
    refine ⟨?_, holder, ?_⟩
    · rintro rfl
      exact h.free_after_drop hholds holder hholder
    · by_cases heq : holder = owner
      · subst heq
        rw [Function.update_self] at hholder
        cases hholder
      · rwa [Function.update_of_ne heq] at hholder
  · rintro ⟨hne, holder, hholder⟩
    refine ⟨holder, ?_⟩
    rw [Function.update_of_ne]
    · exact hholder
    · rintro rfl
      rw [hholds, Option.some.injEq] at hholder
      exact hne hholder.symm

theorem held_transfer (h : Exclusive holds) (hholds : holds owner = some thing)
    (hnone : holds other = none) (wanted : P) :
    Held (Function.update (Function.update holds owner none) other (some thing)) wanted ↔
      Held holds wanted := by
  have hempty : Function.update holds owner none other = none := by
    by_cases heq : other = owner
    · subst heq
      exact Function.update_self ..
    · rw [Function.update_of_ne heq, hnone]
  rw [held_acquire hempty, held_drop h hholds]
  constructor
  · rintro (rfl | ⟨-, hheld⟩)
    · exact ⟨owner, hholds⟩
    · exact hheld
  · intro hheld
    by_cases heq : wanted = thing
    · exact .inl heq
    · exact .inr ⟨heq, hheld⟩

end Ownership
