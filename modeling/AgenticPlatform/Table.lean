import Mathlib.Algebra.Order.BigOperators.Group.List
import Mathlib.Algebra.Order.Group.Nat
import Mathlib.Algebra.Order.Ring.Nat
import Mathlib.Data.List.Nodup

/-!
# Tables of keyed rows

A database table is a list of rows with a key. `find` reads a row, `put` overwrites
the row with the same key and is silent when there is none, and a new row is appended.
The lemmas reduce a read after a write to a conditional on the key.
-/

namespace Table

variable {R K : Type} [DecidableEq K] {key : R → K}

/-- The row stored under a key. -/
def find (key : R → K) (rows : List R) (k : K) : Option R :=
  List.find? (fun row => decide (key row = k)) rows

/-- Overwrite the row that has the same key. -/
def put (key : R → K) (rows : List R) (row : R) : List R :=
  rows.map fun old => if key old = key row then row else old

theorem find_key {rows : List R} {k : K} {row : R} (h : find key rows k = some row) :
    key row = k := by
  simpa using List.find?_some h

theorem mem_of_find {rows : List R} {k : K} {row : R} (h : find key rows k = some row) :
    row ∈ rows := List.mem_of_find?_eq_some h

theorem find_eq_none {rows : List R} {k : K} :
    find key rows k = none ↔ ∀ row ∈ rows, key row ≠ k := by
  simp [find, List.find?_eq_none]

/-- Under distinct keys a stored row is the one its key finds. -/
theorem find_of_mem {rows : List R} (hnodup : (rows.map key).Nodup) {row : R} (h : row ∈ rows) :
    find key rows (key row) = some row := by
  induction rows with
  | nil => cases h
  | cons first rest ih =>
    obtain ⟨hfirst, hrest⟩ := List.nodup_cons.mp hnodup
    rcases List.mem_cons.mp h with rfl | hmem
    · simp [find]
    · have hne : key first ≠ key row := by
        intro heq
        exact hfirst (heq ▸ List.mem_map_of_mem hmem)
      have := ih hrest hmem
      simpa [find, hne] using this

@[simp] theorem keys_put (rows : List R) (row : R) : (put key rows row).map key = rows.map key := by
  unfold put
  rw [List.map_map]
  apply List.map_congr_left
  intro old _
  simp only [Function.comp]
  split
  · rename_i heq
    exact heq.symm
  · rfl

theorem mem_put {rows : List R} {row other : R} :
    other ∈ put key rows row ↔
      (other = row ∧ ∃ old ∈ rows, key old = key row) ∨ (other ∈ rows ∧ key other ≠ key row) := by
  unfold put
  rw [List.mem_map]
  constructor
  · rintro ⟨old, hold, rfl⟩
    split
    · rename_i heq
      exact .inl ⟨rfl, old, hold, heq⟩
    · rename_i hne
      exact .inr ⟨hold, hne⟩
  · rintro (⟨rfl, old, hold, heq⟩ | ⟨hmem, hne⟩)
    · exact ⟨old, hold, if_pos heq⟩
    · exact ⟨other, hmem, if_neg hne⟩

theorem find_put_ne (rows : List R) (row : R) {k : K} (hk : k ≠ key row) :
    find key (put key rows row) k = find key rows k := by
  induction rows with
  | nil => rfl
  | cons first rest ih =>
    by_cases hfirst : key first = key row
    · have hne : key first ≠ k := fun h => hk (h.symm.trans hfirst)
      simpa [find, put, hfirst, hk.symm, hne] using ih
    · by_cases hfk : key first = k
      · simp [find, put, hfk, hk]
      · simpa [find, put, hfirst, hfk] using ih

theorem find_put_self {rows : List R} {row old : R} (h : find key rows (key row) = some old) :
    find key (put key rows row) (key row) = some row := by
  induction rows with
  | nil => cases h
  | cons first rest ih =>
    by_cases hfirst : key first = key row
    · simp [find, put, hfirst]
    · have hrest : find key rest (key row) = some old := by
        simpa [find, hfirst] using h
      simpa [find, put, hfirst] using ih hrest

/-- A read after a write, for a row that is there. -/
theorem find_put {rows : List R} {row old : R} (h : find key rows (key row) = some old) (k : K) :
    find key (put key rows row) k = if k = key row then some row else find key rows k := by
  by_cases hk : k = key row
  · subst hk
    rw [if_pos rfl, find_put_self h]
  · rw [if_neg hk, find_put_ne rows row hk]

/-- Of two writes to one row the second stays. -/
theorem put_put (rows : List R) {first second : R} (h : key first = key second) :
    put key (put key rows first) second = put key rows second := by
  unfold put
  rw [List.map_map]
  apply List.map_congr_left
  intro old _
  simp only [Function.comp]
  by_cases hold : key old = key second
  · simp [hold, h]
  · simp [hold, h]

/-- Overwrite every row that has a newer version among `updates`. -/
def putAll (key : R → K) (rows updates : List R) : List R :=
  rows.map fun old => (find key updates (key old)).getD old

theorem key_putAll (updates : List R) (old : R) :
    key ((find key updates (key old)).getD old) = key old := by
  cases h : find key updates (key old) with
  | none => rfl
  | some row => exact find_key h

@[simp] theorem keys_putAll (rows updates : List R) :
    (putAll key rows updates).map key = rows.map key := by
  unfold putAll
  rw [List.map_map]
  exact List.map_congr_left fun old _ => key_putAll updates old

theorem mem_putAll {rows updates : List R} {row : R} (h : row ∈ putAll key rows updates) :
    row ∈ rows ∨ row ∈ updates := by
  obtain ⟨old, hold, rfl⟩ := List.mem_map.mp h
  cases hfind : find key updates (key old) with
  | none => exact .inl hold
  | some newer => exact .inr (mem_of_find hfind)

theorem find_putAll (rows updates : List R) (k : K) :
    find key (putAll key rows updates) k =
      (find key rows k).map fun old => (find key updates k).getD old := by
  induction rows with
  | nil => rfl
  | cons first rest ih =>
    have hkey : key ((find key updates (key first)).getD first) = key first :=
      key_putAll updates first
    by_cases hfirst : key first = k
    · subst hfirst
      simp [find, putAll] at hkey ⊢
      simp [hkey]
    · simp only [find, putAll, List.map_cons] at hkey ih ⊢
      simp only [List.find?_cons]
      rw [hkey]
      simpa [hfirst] using ih

/-- A change that keeps keys commutes with looking a row up. -/
theorem find_map (rows : List R) (f : R → R) (hf : ∀ row, key (f row) = key row) (k : K) :
    find key (rows.map f) k = (find key rows k).map f := by
  have hkey : (fun row => decide (key row = k)) ∘ f = fun row => decide (key row = k) := by
    funext row
    simp [hf]
  rw [find, List.find?_map, hkey]
  rfl

/-- Updating every row, from a reordered copy of the rows, is a map. -/
theorem putAll_map {rows copy : List R} (f : R → R) (hf : ∀ row, key (f row) = key row)
    (hnodup : (rows.map key).Nodup) (hperm : copy.Perm rows) :
    putAll key rows (copy.map f) = rows.map f := by
  apply List.map_congr_left
  intro row hrow
  have hcopy : find key copy (key row) = some row :=
    find_of_mem ((hperm.map key).nodup_iff.mpr hnodup) (hperm.mem_iff.mpr hrow)
  rw [find_map copy f hf, hcopy]
  rfl

/-- Under distinct keys overwriting one row changes that row only. -/
theorem put_eq_map {rows : List R} {old row : R} (f : R → R)
    (hnodup : (rows.map key).Nodup) (hold : old ∈ rows) (hkey : key row = key old)
    (hrow : row = f old) :
    put key rows row = rows.map fun other => if key other = key old then f other else other := by
  apply List.map_congr_left
  intro other hother
  rw [hkey]
  split
  · rename_i heq
    rw [hrow, List.inj_on_of_nodup_map hnodup hother hold heq]
  · rfl

/-- Under distinct keys a change of one row changes a sum by what that row changes. -/
theorem sum_le_add {rows : List R} (before after : R → Nat) {k : K} {extra : Nat}
    (hnodup : (rows.map key).Nodup) (hrow : ∀ row ∈ rows, key row = k → after row ≤ before row + extra)
    (hother : ∀ row ∈ rows, key row ≠ k → after row ≤ before row) :
    (rows.map after).sum ≤ (rows.map before).sum + extra := by
  induction rows with
  | nil => simp
  | cons first rest ih =>
    obtain ⟨hfirst, hrest⟩ := List.nodup_cons.mp hnodup
    simp only [List.map_cons, List.sum_cons]
    by_cases hkey : key first = k
    · -- the rest does not contain the key, so nothing changes there
      have hle : (rest.map after).sum ≤ (rest.map before).sum := by
        apply List.sum_le_sum
        intro row hmem
        apply hother row (List.mem_cons_of_mem _ hmem)
        intro heq
        apply hfirst
        rw [hkey, ← heq]
        exact List.mem_map_of_mem hmem
      have := hrow first List.mem_cons_self hkey
      omega
    · have hle := ih hrest (fun row hmem => hrow row (List.mem_cons_of_mem _ hmem))
        (fun row hmem => hother row (List.mem_cons_of_mem _ hmem))
      have := hother first List.mem_cons_self hkey
      omega

theorem find_append {rows more : List R} {k : K} :
    find key (rows ++ more) k = (find key rows k).or (find key more k) := by
  simp [find]

end Table
