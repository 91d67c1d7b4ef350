import Mathlib.Algebra.BigOperators.Group.List.Basic
import Mathlib.Algebra.Order.Ring.Nat
import Mathlib.Data.List.Sublists

/-!
# Filling two budgets from a ranking

Candidates are gone through from the best to the worst. What a candidate gives is taken while there
is room for one more and its cost is still affordable, and otherwise left out. Nothing that is left
out would fit in the end.
-/

namespace Packing

variable {C E : Type} (give : C → Option E) (cost : E → Nat) (maxItems maxCost : Int)

/-- What was taken, what it costs, and how many candidates were left out. -/
structure Packed (E : Type) where
  taken : List E
  used : Nat
  skipped : Nat

def step (packed : Packed E) (candidate : C) : Packed E :=
  if maxItems ≤ packed.taken.length then { packed with skipped := packed.skipped + 1 }
  else
    match give candidate with
    | none => packed
    | some item =>
      if maxCost < packed.used + cost item then { packed with skipped := packed.skipped + 1 }
      else ⟨packed.taken ++ [item], packed.used + cost item, packed.skipped⟩

def packFrom (packed : Packed E) (candidates : List C) : Packed E :=
  candidates.foldl (step give cost maxItems maxCost) packed

def pack (candidates : List C) : Packed E := packFrom give cost maxItems maxCost ⟨[], 0, 0⟩ candidates

variable {give cost maxItems maxCost} {packed : Packed E} {candidate : C} {candidates : List C}
  {item : E}

/-- Left out, without anything to give, or taken. -/
theorem step_cases (packed : Packed E) (candidate : C) :
    (step give cost maxItems maxCost packed candidate =
        { packed with skipped := packed.skipped + 1 } ∧
      ∀ item, give candidate = some item →
        maxItems ≤ packed.taken.length ∨ maxCost < packed.used + cost item) ∨
    (step give cost maxItems maxCost packed candidate = packed ∧ give candidate = none) ∨
    ∃ item, give candidate = some item ∧ (packed.taken.length : Int) < maxItems ∧
      (packed.used + cost item : Int) ≤ maxCost ∧
      step give cost maxItems maxCost packed candidate =
        ⟨packed.taken ++ [item], packed.used + cost item, packed.skipped⟩ := by
  rw [step]
  by_cases hroom : maxItems ≤ packed.taken.length
  · exact .inl ⟨if_pos hroom, fun _ _ => .inl hroom⟩
  · rw [if_neg hroom]
    rcases give candidate with - | item
    · exact .inr (.inl ⟨rfl, rfl⟩)
    · by_cases hcost : maxCost < packed.used + cost item
      · refine .inl ⟨if_pos hcost, fun other hother => .inr ?_⟩
        rw [← Option.some.inj hother]
        exact hcost
      · exact .inr (.inr ⟨item, rfl, not_le.mp hroom, not_lt.mp hcost, if_neg hcost⟩)

/-- The budgets are kept, and what is used is what the taken items cost. -/
structure Kept (cost : E → Nat) (maxItems maxCost : Int) (packed : Packed E) : Prop where
  length_le : (packed.taken.length : Int) ≤ max maxItems 0
  used_le : (packed.used : Int) ≤ max maxCost 0
  used_eq : packed.used = (packed.taken.map cost).sum

theorem Kept.step (h : Kept cost maxItems maxCost packed) (candidate : C) :
    Kept cost maxItems maxCost (step give cost maxItems maxCost packed candidate) := by
  rcases step_cases packed candidate with
    ⟨hstep, -⟩ | ⟨hstep, -⟩ | ⟨item, -, hroom, hcost, hstep⟩
  · rw [hstep]
    exact ⟨h.length_le, h.used_le, h.used_eq⟩
  · rw [hstep]
    exact h
  · rw [hstep]
    refine ⟨?_, ?_, ?_⟩
    · rw [List.length_append, List.length_singleton]
      omega
    · push_cast
      omega
    · rw [List.map_append, List.sum_append, List.map_singleton, List.sum_singleton, ← h.used_eq]

theorem Kept.packFrom (h : Kept cost maxItems maxCost packed) (candidates : List C) :
    Kept cost maxItems maxCost (packFrom give cost maxItems maxCost packed candidates) := by
  induction candidates generalizing packed with
  | nil => exact h
  | cons candidate rest ih => exact ih (h.step candidate)

theorem kept_pack (candidates : List C) :
    Kept cost maxItems maxCost (pack give cost maxItems maxCost candidates) :=
  Kept.packFrom ⟨le_max_right _ _, le_max_right _ _, rfl⟩ candidates

/-! ### What is taken -/

variable (give cost maxItems maxCost) in
/-- Going on, items are added at the end, in the order of their candidates. -/
theorem packFrom_taken (packed : Packed E) (candidates : List C) :
    ∃ added, added.Sublist (candidates.filterMap give) ∧
      (packFrom give cost maxItems maxCost packed candidates).taken = packed.taken ++ added ∧
      packed.used ≤ (packFrom give cost maxItems maxCost packed candidates).used := by
  induction candidates generalizing packed with
  | nil => exact ⟨[], List.Sublist.slnil, (List.append_nil _).symm, Nat.le_refl _⟩
  | cons candidate rest ih =>
    rcases step_cases packed candidate with
      ⟨hstep, -⟩ | ⟨hstep, hnone⟩ | ⟨item, hgive, -, -, hstep⟩
    · rcases ih { packed with skipped := packed.skipped + 1 } with ⟨added, hsub, htaken, hused⟩
      rw [packFrom, List.foldl_cons, hstep]
      refine ⟨added, hsub.trans ?_, htaken, hused⟩
      exact (List.sublist_cons_self _ _).filterMap give
    · rcases ih packed with ⟨added, hsub, htaken, hused⟩
      rw [packFrom, List.foldl_cons, hstep]
      refine ⟨added, ?_, htaken, hused⟩
      rw [List.filterMap_cons_none hnone]
      exact hsub
    · rcases ih ⟨packed.taken ++ [item], packed.used + cost item, packed.skipped⟩ with
        ⟨added, hsub, htaken, hused⟩
      rw [packFrom, List.foldl_cons, hstep]
      refine ⟨item :: added, ?_, ?_, Nat.le_trans (Nat.le_add_right _ _) hused⟩
      · rw [List.filterMap_cons_some hgive]
        exact hsub.cons_cons item
      · exact htaken.trans (List.append_assoc ..)

theorem pack_sublist (candidates : List C) :
    (pack give cost maxItems maxCost candidates).taken.Sublist (candidates.filterMap give) := by
  rcases packFrom_taken give cost maxItems maxCost
    ⟨[], 0, 0⟩ candidates with ⟨added, hsub, htaken, -⟩
  rw [pack, htaken]
  exact hsub

/-- What is left out would not fit in the end. -/
theorem fits_not (packed : Packed E) (hcandidate : candidate ∈ candidates)
    (hgive : give candidate = some item) :
    item ∈ (packFrom give cost maxItems maxCost packed candidates).taken ∨
      maxItems ≤ (packFrom give cost maxItems maxCost packed candidates).taken.length ∨
      maxCost < (packFrom give cost maxItems maxCost packed candidates).used + cost item := by
  induction candidates generalizing packed with
  | nil => cases hcandidate
  | cons first rest ih =>
    rcases List.mem_cons.mp hcandidate with rfl | hrest
    · rcases packFrom_taken give cost maxItems maxCost
        (step give cost maxItems maxCost packed candidate) rest with ⟨added, -, htaken, hused⟩
      rw [packFrom, List.foldl_cons]
      rw [packFrom] at htaken hused
      rw [htaken]
      rcases step_cases packed candidate with
        ⟨hstep, hleft⟩ | ⟨-, hnone⟩ | ⟨other, hother, -, -, hstep⟩
      · rw [hstep] at hused ⊢
        refine .inr ((hleft item hgive).imp (fun hroom => ?_) fun hcost => ?_)
        · rw [List.length_append]
          push_cast
          omega
        · have hle : packed.used ≤ _ := hused
          omega
      · rw [hgive] at hnone
        cases hnone
      · rw [hgive] at hother
        rw [hstep, ← Option.some.inj hother]
        exact .inl (List.mem_append_left _ (List.mem_append_right _ List.mem_cons_self))
    · exact ih _ hrest

/-- Behind a full budget of items, everything is left out. -/
theorem packFrom_full (hfull : maxItems ≤ packed.taken.length) (candidates : List C) :
    packFrom give cost maxItems maxCost packed candidates =
      { packed with skipped := packed.skipped + candidates.length } := by
  induction candidates generalizing packed with
  | nil => rfl
  | cons candidate rest ih =>
    have hstep : step give cost maxItems maxCost packed candidate =
        { packed with skipped := packed.skipped + 1 } := if_pos hfull
    rw [packFrom, List.foldl_cons, hstep]
    refine (@ih { packed with skipped := packed.skipped + 1 } hfull).trans ?_
    rw [List.length_cons, Nat.add_assoc, Nat.add_comm 1]

/-- **What is left out is counted.** Going on from `packed`, the candidates in `gone` came up while
    there was room for one more, and those in `rest` behind a full budget: left out are the items of
    `gone` that were not taken, and all of `rest`. -/
structure Counted (give : C → Option E) (maxItems : Int) (packed final : Packed E)
    (gone rest : List C) (added : List E) : Prop where
  taken_eq : final.taken = packed.taken ++ added
  within : added.Sublist (gone.filterMap give)
  skipped_eq : final.skipped + added.length =
    packed.skipped + (gone.filterMap give).length + rest.length
  full : rest ≠ [] → maxItems ≤ final.taken.length ∧ gone.getLast?.bind give = added.getLast?
  room : gone ≠ [] → (packed.taken.length : Int) < maxItems

variable (give cost maxItems maxCost) in
theorem packFrom_counted (packed : Packed E) (candidates : List C) :
    ∃ gone rest added, candidates = gone ++ rest ∧
      Counted give maxItems packed (packFrom give cost maxItems maxCost packed candidates)
        gone rest added := by
  induction candidates generalizing packed with
  | nil =>
    exact ⟨[], [], [], rfl, (List.append_nil _).symm, List.Sublist.slnil, rfl,
      fun hrest => absurd rfl hrest, fun hgone => absurd rfl hgone⟩
  | cons candidate later ih =>
    by_cases hroom : maxItems ≤ packed.taken.length
    · refine ⟨[], candidate :: later, [], rfl, ?_⟩
      rw [packFrom_full hroom]
      exact ⟨(List.append_nil _).symm, List.Sublist.slnil, rfl, fun _ => ⟨hroom, rfl⟩,
        fun hgone => absurd rfl hgone⟩
    · have hopen : (packed.taken.length : Int) < maxItems := not_le.mp hroom
      obtain ⟨gone, rest, added, rfl, h⟩ := ih (step give cost maxItems maxCost packed candidate)
      rw [packFrom, List.foldl_cons]
      rw [packFrom] at h
      -- the last candidate that came up in time, once there is another one behind it
      have hlast : gone ≠ [] → (candidate :: gone).getLast? = gone.getLast? := by
        intro hgone
        obtain ⟨first, others, rfl⟩ := List.exists_cons_of_ne_nil hgone
        exact List.getLast?_cons_cons
      rcases step_cases packed candidate with
        ⟨hstep, hleft⟩ | ⟨hstep, hnone⟩ | ⟨item, hgive, -, -, hstep⟩
      · rw [hstep] at h ⊢
        -- a candidate that gives nothing is not left out while there is room
        have hgives : ∃ item, give candidate = some item := by
          by_contra hnot
          have hnone : give candidate = none := by
            rcases hgive : give candidate with - | item
            · rfl
            · exact absurd ⟨item, hgive⟩ hnot
          have hsame : step give cost maxItems maxCost packed candidate = packed := by
            rw [step, if_neg hroom, hnone]
          have hcount := congrArg Packed.skipped (hsame.symm.trans hstep)
          exact absurd hcount (Nat.ne_of_lt (Nat.lt_succ_self _))
        obtain ⟨item, hgive⟩ := hgives
        have hgone : rest ≠ [] → gone ≠ [] := by
          rintro hrest rfl
          have hadded : added = [] := List.sublist_nil.mp h.within
          have hfull := (h.full hrest).1
          rw [h.taken_eq, hadded, List.append_nil] at hfull
          exact hroom hfull
        refine ⟨candidate :: gone, rest, added, rfl, h.taken_eq, ?_, ?_, fun hrest => ?_, fun _ => hopen⟩
        · rw [List.filterMap_cons_some hgive]
          exact h.within.cons item
        · have hcount := h.skipped_eq
          rw [List.filterMap_cons_some hgive, List.length_cons]
          simp only at hcount
          omega
        · rw [hlast (hgone hrest)]
          exact h.full hrest
      · rw [hstep] at h ⊢
        refine ⟨candidate :: gone, rest, added, rfl, h.taken_eq, ?_, ?_, fun hrest => ?_, fun _ => hopen⟩
        · rw [List.filterMap_cons_none hnone]
          exact h.within
        · rw [List.filterMap_cons_none hnone]
          exact h.skipped_eq
        · have hgone : gone ≠ [] := by
            rintro rfl
            have hadded : added = [] := List.sublist_nil.mp h.within
            have hfull := (h.full hrest).1
            rw [h.taken_eq, hadded, List.append_nil] at hfull
            exact hroom hfull
          rw [hlast hgone]
          exact h.full hrest
      · rw [hstep] at h ⊢
        refine ⟨candidate :: gone, rest, item :: added, rfl, ?_, ?_, ?_, fun hrest => ⟨(h.full hrest).1, ?_⟩,
          fun _ => hopen⟩
        · rw [h.taken_eq, List.append_assoc]
          rfl
        · rw [List.filterMap_cons_some hgive]
          exact h.within.cons_cons item
        · have hcount := h.skipped_eq
          rw [List.filterMap_cons_some hgive, List.length_cons, List.length_cons]
          simp only at hcount
          omega
        · by_cases hgone : gone = []
          · have hadded : added = [] := by
              rw [hgone] at h
              exact List.sublist_nil.mp h.within
            rw [hgone, hadded]
            exact hgive
          · have hadded : added ≠ [] := by
              rintro rfl
              obtain ⟨hfull, -⟩ := h.full hrest
              rw [h.taken_eq, List.append_nil] at hfull
              exact absurd (h.room hgone) (not_lt.mpr hfull)
            obtain ⟨first, others, hcons⟩ := List.exists_cons_of_ne_nil hadded
            rw [hlast hgone, (h.full hrest).2, hcons, List.getLast?_cons_cons]

end Packing
