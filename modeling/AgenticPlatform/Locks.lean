import Mathlib.Logic.Function.Basic
import Mathlib.Logic.Relation

/-!
# Locks held to the end

Exclusive locks that an owner may be granted again while it holds them, and that it gives
back all at once. An owner wants at most one lock at a time and waits for whoever holds it.
Where owners ask for locks in an order, no circle of them waits.
-/

namespace Locks

open Relation

/-- Who holds each lock. -/
abbrev Table (K T : Type) := K → Option T

variable {K T : Type} {locks : Table K T} {t u : T} {k k' : K}

/-- `t` would be granted `k` at once. -/
def Free (locks : Table K T) (t : T) (k : K) : Prop := locks k = none ∨ locks k = some t

section Grant

variable [DecidableEq K]

def grant (locks : Table K T) (t : T) (k : K) : Table K T := Function.update locks k (some t)

@[simp] theorem grant_self : grant locks t k k = some t := Function.update_self ..

/-- Nobody loses a lock when a free one is granted. -/
theorem grant_of_holds (hfree : Free locks t k) (h : locks k' = some u) :
    grant locks t k k' = some u := by
  by_cases hk : k' = k
  · subst hk
    rcases hfree with hnone | hown
    · rw [hnone] at h
      cases h
    · rw [grant_self, ← hown, h]
  · rwa [grant, Function.update_of_ne hk]

/-- A grant gives its owner one lock, and nobody else anything. -/
theorem grant_holds (h : grant locks t k k' = some u) : locks k' = some u ∨ (u = t ∧ k' = k) := by
  by_cases hk : k' = k
  · subst hk
    rw [grant_self, Option.some.injEq] at h
    exact .inr ⟨h.symm, rfl⟩
  · rw [grant, Function.update_of_ne hk] at h
    exact .inl h

theorem grant_other (hfree : Free locks t k) (hu : u ≠ t) :
    grant locks t k k' = some u ↔ locks k' = some u := by
  constructor
  · intro h
    rcases grant_holds h with hheld | ⟨hown, -⟩
    · exact hheld
    · exact absurd hown hu
  · exact grant_of_holds hfree

end Grant

section Release

variable [DecidableEq T]

instance : Decidable (Free locks t k) := inferInstanceAs (Decidable (_ ∨ _))

def release (locks : Table K T) (t : T) : Table K T := fun k => if locks k = some t then none else locks k

theorem release_self : release locks t k ≠ some t := by
  unfold release
  split
  · simp
  · assumption

theorem release_other (h : u ≠ t) : release locks t k = some u ↔ locks k = some u := by
  unfold release
  split
  · rename_i hown
    rw [hown]
    simp [h.symm]
  · rfl

end Release

/-! ### Waiting -/

/-- The lock that `t` wants is held by `u`. -/
def WaitsFor (locks : Table K T) (wants : T → Option K) (t u : T) : Prop :=
  ∃ k, wants t = some k ∧ locks k = some u ∧ u ≠ t

/-- Some of the waiting goes up in rank: an owner that is waited for has not passed the
    lock that the other one wants. -/
structure Ascending (locks : Table K T) (wants : T → Option K) (rank : K → Nat)
    (waits : T → T → Prop) : Prop where
  blocked : ∀ t u, waits t u → WaitsFor locks wants t u
  rank_inj : ∀ t u k k', wants t = some k → wants u = some k' → rank k = rank k' → k = k'
  ascending : ∀ t u k k', waits t u → wants t = some k → wants u = some k' → rank k ≤ rank k'

namespace Ascending

variable {wants : T → Option K} {rank : K → Nat} {waits : T → T → Prop} {v : T}

/-- Who waits for one that waits itself wants a lock of a lower rank. -/
theorem rank_lt (h : Ascending locks wants rank waits) (hwait : waits t u) (hnext : waits u v)
    (ht : wants t = some k) (hu : wants u = some k') : rank k < rank k' := by
  refine Nat.lt_of_le_of_ne (h.ascending t u k k' hwait ht hu) fun hsame => ?_
  have hk : k = k' := h.rank_inj t u k k' ht hu hsame
  subst hk
  obtain ⟨wanted, hwanted, hholder, -⟩ := h.blocked t u hwait
  obtain ⟨wanted', hwanted', hholder', hother⟩ := h.blocked u v hnext
  rw [ht, Option.some.injEq] at hwanted
  rw [hu, Option.some.injEq] at hwanted'
  subst hwanted hwanted'
  rw [hholder, Option.some.injEq] at hholder'
  exact hother hholder'.symm

theorem rank_lt_of_chain (h : Ascending locks wants rank waits) (hchain : TransGen waits t u)
    (hnext : waits u v) (ht : wants t = some k) (hu : wants u = some k') : rank k < rank k' := by
  induction hchain generalizing k' v with
  | single hwait => exact h.rank_lt hwait hnext ht hu
  | @tail middle last hbefore hwait ih =>
    obtain ⟨wanted, hwanted, -, -⟩ := h.blocked middle last hwait
    exact Nat.lt_trans (ih hwait hwanted) (h.rank_lt hwait hnext hwanted hu)

/-- **Owners that ask for locks in ascending rank do not deadlock.** -/
theorem no_cycle (h : Ascending locks wants rank waits) (t : T) : ¬ TransGen waits t t := by
  intro hcycle
  obtain ⟨next, hwait, -⟩ := TransGen.head'_iff.mp hcycle
  obtain ⟨k, hwanted, -, -⟩ := h.blocked t next hwait
  exact Nat.lt_irrefl _ (h.rank_lt_of_chain hcycle hwait hwanted hwanted)

/-- Who waits does so, in the end, for one that does not. -/
theorem ends (h : Ascending locks wants rank waits) {bound : Nat}
    (hbound : ∀ t k, wants t = some k → rank k < bound) (t : T) :
    ∃ u, ReflTransGen waits t u ∧ ∀ v, ¬ waits u v := by
  by_cases hwaits : ∃ u, waits t u
  · obtain ⟨u, hwait⟩ := hwaits
    obtain ⟨k, hwanted, -, -⟩ := h.blocked t u hwait
    -- Each step of the chain comes closer to the bound.
    induction hgap : bound - rank k using Nat.strongRecOn generalizing t u k with
    | _ gap ih =>
      by_cases hnext : ∃ v, waits u v
      · obtain ⟨v, hnext⟩ := hnext
        obtain ⟨k', hwanted', -, -⟩ := h.blocked u v hnext
        have hlt := h.rank_lt hwait hnext hwanted hwanted'
        have hle := hbound u k' hwanted'
        obtain ⟨last, hchain, hlast⟩ := ih (bound - rank k') (by omega) u v hnext k' hwanted' rfl
        exact ⟨last, .head hwait hchain, hlast⟩
      · exact ⟨u, .single hwait, fun v hv => hnext ⟨v, hv⟩⟩
  · exact ⟨t, .refl, fun u hu => hwaits ⟨u, hu⟩⟩

end Ascending

end Locks
