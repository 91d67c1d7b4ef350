import Mathlib.Data.List.AList

/-!
# Dictionaries

A Python `dict` is an association list with distinct keys. Mathlib's `AList` has the
operations; the lemmas here put a lookup after an update in one normal form, a
conditional on the key, so that `simp` and `split` can finish goals about several
updates in a row. The order in which a dictionary is traversed is not Python's.
-/

/-- `dict[K, V]`. -/
abbrev Dict (K V : Type) := AList (fun _ : K => V)

namespace Dict

variable {K V : Type} [DecidableEq K]

theorem lookup_insert_ite (d : Dict K V) (k k' : K) (v : V) :
    (d.insert k v).lookup k' = if k' = k then some v else d.lookup k' := by
  by_cases h : k' = k
  · subst h
    simp
  · rw [if_neg h, AList.lookup_insert_ne h]

theorem lookup_erase_ite (d : Dict K V) (k k' : K) :
    (d.erase k).lookup k' = if k' = k then none else d.lookup k' := by
  by_cases h : k' = k
  · subst h
    simp
  · rw [if_neg h, AList.lookup_erase_ne h]

/-- `d.setdefault(k, {})`, read only. -/
def inner {J : Type} (d : Dict K (Dict J V)) (k : K) : Dict J V := (d.lookup k).getD ∅

variable {J : Type} [DecidableEq J]

/-- `d.setdefault(k, {})[j] = v`. -/
def setInner (d : Dict K (Dict J V)) (k : K) (j : J) (v : V) : Dict K (Dict J V) :=
  d.insert k ((inner d k).insert j v)

/-- `d.get(k, {}).pop(j, None)`. -/
def popInner (d : Dict K (Dict J V)) (k : K) (j : J) : Dict K (Dict J V) :=
  match d.lookup k with
  | none => d
  | some entries => d.insert k (entries.erase j)

theorem inner_setInner (d : Dict K (Dict J V)) (k k' : K) (j j' : J) (v : V) :
    (inner (setInner d k j v) k').lookup j' =
      if k' = k ∧ j' = j then some v else (inner d k').lookup j' := by
  unfold setInner
  rw [inner, lookup_insert_ite]
  by_cases hk : k' = k
  · subst hk
    simp only [if_true, Option.getD_some, lookup_insert_ite, true_and]
  · rw [if_neg hk, if_neg (fun h => hk h.1)]
    rfl

theorem inner_popInner (d : Dict K (Dict J V)) (k k' : K) (j j' : J) :
    (inner (popInner d k j) k').lookup j' =
      if k' = k ∧ j' = j then none else (inner d k').lookup j' := by
  unfold popInner
  cases hd : d.lookup k with
  | none =>
    by_cases hk : k' = k
    · subst hk
      simp [inner, hd]
    · rw [if_neg (fun h => hk h.1)]
  | some entries =>
    rw [inner, lookup_insert_ite]
    by_cases hk : k' = k
    · subst hk
      simp only [if_true, Option.getD_some, lookup_erase_ite, true_and, inner, hd]
    · rw [if_neg hk, if_neg (fun h => hk h.1)]
      rfl

end Dict
