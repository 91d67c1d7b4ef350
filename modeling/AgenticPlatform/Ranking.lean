import Mathlib.Data.List.Count
import Mathlib.Data.List.Rotate
import Mathlib.Data.List.Sort

/-!
# Choosing by a key, and choosing in turn

A list ranked by a key in a linear order. Where different members have different keys, the
ranking depends on what is in the list and not on how it is listed, and its head is the
only member with the least key. Of a list that is gone through in turn, every stretch of
whole rounds contains each member equally often, wherever it starts.
-/

namespace AgenticPlatform.Ranking

/-! ### By a key -/

section Key

variable {α K : Type} [LinearOrder K] {key : α → K} {l l' : List α}

/-- The members with the smallest key first, those of equal keys in their order. -/
def ranked (key : α → K) (l : List α) : List α :=
  l.insertionSort fun left right => key left ≤ key right

theorem ranked_perm (key : α → K) (l : List α) : (ranked key l).Perm l :=
  List.perm_insertionSort _ l

theorem ranked_pairwise (key : α → K) (l : List α) :
    (ranked key l).Pairwise fun left right => key left ≤ key right := by
  have htrans : IsTrans α fun left right => key left ≤ key right :=
    ⟨fun _ _ _ hleft hright => le_trans hleft hright⟩
  have htotal : Std.Total fun left right : α => key left ≤ key right :=
    ⟨fun left right => le_total (key left) (key right)⟩
  exact List.pairwise_insertionSort _ l

/-- A sort by a relation that says what the comparison of the keys says. -/
theorem insertionSort_eq_ranked {less : α → α → Prop} [DecidableRel less]
    (h : ∀ left right, less left right ↔ key left ≤ key right) (l : List α) :
    l.insertionSort less = ranked key l := by
  obtain rfl : less = fun left right => key left ≤ key right := by
    funext left right
    exact propext (h left right)
  unfold ranked
  congr

/-- Two lists sorted by their keys are the same if they have the same members and no two of
    these share a key. -/
theorem eq_of_sorted (hinj : Set.InjOn key {x | x ∈ l}) (hperm : l.Perm l')
    (h : l.Pairwise fun left right => key left ≤ key right)
    (h' : l'.Pairwise fun left right => key left ≤ key right) : l = l' := by
  refine List.Perm.eq_of_pairwise ?_ h h' hperm
  intro left right hleft hright hle hge
  exact hinj hleft (hperm.mem_iff.mpr hright) (le_antisymm hle hge)

/-- The ranking does not depend on the order in which the members are listed. -/
theorem ranked_of_perm (hinj : Set.InjOn key {x | x ∈ l}) (hperm : l'.Perm l) :
    ranked key l' = ranked key l := by
  have hall : (ranked key l').Perm (ranked key l) :=
    (ranked_perm key l').trans (hperm.trans (ranked_perm key l).symm)
  refine eq_of_sorted ?_ hall (ranked_pairwise key l') (ranked_pairwise key l)
  intro left hleft right hright heq
  have hmem : ∀ x, x ∈ ranked key l' → x ∈ l := fun x hx =>
    hperm.mem_iff.mp ((ranked_perm key l').mem_iff.mp hx)
  exact hinj (hmem left hleft) (hmem right hright) heq

theorem ranked_head_le {least : α} (h : (ranked key l).head? = some least) :
    least ∈ l ∧ ∀ x ∈ l, key least ≤ key x := by
  obtain ⟨rest, hranked⟩ := List.head?_eq_some_iff.mp h
  have hsorted := ranked_pairwise key l
  have hperm := ranked_perm key l
  rw [hranked] at hsorted hperm
  refine ⟨hperm.mem_iff.mp (List.mem_cons_self ..), ?_⟩
  intro x hx
  rcases List.mem_cons.mp (hperm.mem_iff.mpr hx) with rfl | hrest
  · exact le_refl _
  · exact (List.pairwise_cons.mp hsorted).1 x hrest

theorem ranked_last_ge {greatest : α} (h : (ranked key l).getLast? = some greatest) {member : α}
    (hmember : member ∈ l) : key member ≤ key greatest := by
  rcases List.getLast?_eq_some_iff.mp h with ⟨before, hranked⟩
  have hin : member ∈ before ++ [greatest] := hranked ▸ (ranked_perm key l).mem_iff.mpr hmember
  rcases List.mem_append.mp hin with hbefore | hlast
  · have hsorted := hranked ▸ ranked_pairwise key l
    exact (List.pairwise_append.mp hsorted).2.2 member hbefore greatest List.mem_cons_self
  · rw [List.mem_singleton.mp hlast]

theorem ranked_head_none : (ranked key l).head? = none ↔ l = [] := by
  rw [List.head?_eq_none_iff, ← List.length_eq_zero_iff, (ranked_perm key l).length_eq,
    List.length_eq_zero_iff]

end Key

/-! ### In turn -/

section Turns

variable {α : Type} (order : List α) (start : Nat)

/-- The members that `count` turns come to, beginning at `start`. -/
def turns (count : Nat) : List (Option α) :=
  (List.range count).map fun i => order[(start + i) % order.length]?

theorem turns_succ (count : Nat) :
    turns order start (count + 1) =
      order[start % order.length]? :: turns order ((start + 1) % order.length) count := by
  unfold turns
  rw [List.range_succ_eq_map, List.map_cons, List.map_map, Nat.add_zero]
  congr 1
  apply List.map_congr_left
  intro i _
  rw [Function.comp_apply, Nat.mod_add_mod]
  congr 2
  omega

theorem turns_add (first second : Nat) :
    turns order start (first + second) =
      turns order start first ++ turns order (start + first) second := by
  unfold turns
  rw [List.range_add, List.map_append, List.map_map]
  congr 1
  apply List.map_congr_left
  intro i _
  rw [Function.comp_apply, Nat.add_assoc]

/-- One round is the list itself, turned to where the round begins. -/
theorem turns_round : turns order start order.length = (order.rotate start).map some := by
  apply List.ext_getElem?
  intro i
  unfold turns
  rw [List.getElem?_map, List.getElem?_map]
  rcases Nat.lt_or_ge i order.length with hi | hi
  · have hbound : (i + start) % order.length < order.length :=
      Nat.mod_lt _ (Nat.zero_lt_of_lt hi)
    rw [List.getElem?_range hi, List.getElem?_rotate hi, Option.map_some, Nat.add_comm start i,
      List.getElem?_eq_getElem hbound]
    rfl
  · rw [List.getElem?_eq_none (by simpa using hi), List.getElem?_eq_none (by simpa using hi)]
    rfl

/-- In `k` rounds a member comes `k` times as often as it is in the list. -/
theorem count_turns [DecidableEq α] (member : α) (k : Nat) :
    (turns order start (order.length * k)).count (some member) = k * order.count member := by
  induction k with
  | zero => simp [turns]
  | succ k ih =>
    have hround : (turns order (start + order.length * k) order.length).count (some member) =
        order.count member := by
      rw [turns_round, List.count_map_of_injective _ _ (Option.some_injective α)]
      exact (List.rotate_perm order _).count_eq member
    rw [Nat.mul_succ, turns_add, List.count_append, ih, hround, Nat.succ_mul]

end Turns

end AgenticPlatform.Ranking
