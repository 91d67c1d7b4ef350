import Mathlib.Data.List.Infix
import Mathlib.Logic.ExistsUnique

/-!
# Where a list occurs in another one

Counting that goes on behind each occurrence it has found, and replacing the first one.
An occurrence that overlaps the one before it is not counted, so counting one of them says
that all of them overlap, not that there is one.
-/

namespace AgenticPlatform.Occurrences

variable {α : Type} {pattern text before after : List α} {position other skip : Nat}

def OccursAt (pattern text : List α) (position : Nat) : Prop := pattern <+: text.drop position

theorem OccursAt.length_le (h : OccursAt pattern text position) (hpattern : pattern ≠ []) :
    position + pattern.length ≤ text.length := by
  have hlength := List.IsPrefix.length_le h
  rw [List.length_drop] at hlength
  have hpositive := List.length_pos_of_ne_nil hpattern
  omega

theorem not_occursAt_nil (hpattern : pattern ≠ []) : ¬ OccursAt pattern ([] : List α) position := by
  intro h
  have hlength := h.length_le hpattern
  have hpositive := List.length_pos_of_ne_nil hpattern
  rw [List.length_nil] at hlength
  omega

theorem occursAt_append : OccursAt pattern (before ++ text) (before.length + position) ↔
    OccursAt pattern text position := by
  rw [OccursAt, OccursAt, List.drop_append, List.drop_eq_nil_of_le (Nat.le_add_right ..), List.nil_append,
    Nat.add_sub_cancel_left]

theorem occursAt_of_eq (h : text = before ++ pattern ++ after) : OccursAt pattern text before.length := by
  rw [h, OccursAt, List.append_assoc, List.drop_left]
  exact List.prefix_append pattern after

/-! ### Splitting, counting, replacing -/

variable [DecidableEq α]

instance : Decidable (OccursAt pattern text position) :=
  inferInstanceAs (Decidable (pattern <+: text.drop position))

/-- The text before the first occurrence, and the text after it. -/
def split (pattern : List α) : List α → Option (List α × List α)
  | [] => none
  | symbol :: rest =>
    if pattern <+: symbol :: rest then some ([], (symbol :: rest).drop pattern.length)
    else (split pattern rest).map fun parts => (symbol :: parts.1, parts.2)

/-- The occurrences from left to right; what one of them covers is skipped. -/
def countFrom (pattern : List α) : (skip : Nat) → List α → Nat
  | _, [] => 0
  | skip + 1, _ :: rest => countFrom pattern skip rest
  | 0, symbol :: rest =>
    if pattern <+: symbol :: rest then countFrom pattern (pattern.length - 1) rest + 1
    else countFrom pattern 0 rest

def count (pattern text : List α) : Nat := countFrom pattern 0 text

/-- The first occurrence is replaced. -/
def replaceFirst (pattern replacement text : List α) : List α :=
  match split pattern text with
  | some (before, after) => before ++ replacement ++ after
  | none => text

/-! ### The first occurrence -/

theorem split_eq_append (h : split pattern text = some (before, after)) :
    text = before ++ pattern ++ after := by
  induction text generalizing before with
  | nil => cases h
  | cons symbol rest ih =>
    rw [split] at h
    split at h
    · rename_i hbegin
      cases h
      rw [List.nil_append]
      exact (List.prefix_append_drop hbegin)
    · rcases Option.map_eq_some_iff.mp h with ⟨parts, hparts, hsame⟩
      cases hsame
      rw [List.cons_append, List.cons_append, ← ih hparts]

theorem split_first (h : split pattern text = some (before, after))
    (hoccurs : OccursAt pattern text position) : before.length ≤ position := by
  induction text generalizing before position with
  | nil => cases h
  | cons symbol rest ih =>
    rw [split] at h
    split at h
    · cases h
      exact Nat.zero_le _
    · rename_i hbegin
      rcases Option.map_eq_some_iff.mp h with ⟨parts, hparts, hsame⟩
      cases hsame
      rcases position with - | position
      · exact absurd hoccurs hbegin
      · have hlater := ih hparts hoccurs
        rw [List.length_cons]
        omega

theorem split_eq_none (hpattern : pattern ≠ []) :
    split pattern text = none ↔ ∀ position, ¬ OccursAt pattern text position := by
  induction text with
  | nil => exact iff_of_true rfl fun position => not_occursAt_nil hpattern
  | cons symbol rest ih =>
    rw [split]
    split
    · rename_i hbegin
      refine iff_of_false (fun h => by cases h) ?_
      intro h
      exact h 0 hbegin
    · rename_i hbegin
      rw [Option.map_eq_none_iff, ih]
      constructor
      · intro h position hoccurs
        rcases position with - | position
        · exact hbegin hoccurs
        · exact h position hoccurs
      · intro h position
        exact h (position + 1)

/-! ### Counting -/

theorem countFrom_eq_drop : countFrom pattern skip text = countFrom pattern 0 (text.drop skip) := by
  induction text generalizing skip with
  | nil =>
    rw [List.drop_nil]
    rcases skip with - | skip
    · rfl
    · rfl
  | cons symbol rest ih =>
    rcases skip with - | skip
    · rfl
    · rw [countFrom, ih, List.drop_succ_cons]

theorem count_of_split_none (h : split pattern text = none) : count pattern text = 0 := by
  rw [count]
  induction text with
  | nil => rfl
  | cons symbol rest ih =>
    rw [split] at h
    split at h
    · cases h
    · rename_i hbegin
      rw [countFrom, if_neg hbegin]
      exact ih (Option.map_eq_none_iff.mp h)

/-- Behind the first occurrence the counting starts anew. -/
theorem count_of_split (hpattern : pattern ≠ []) (h : split pattern text = some (before, after)) :
    count pattern text = count pattern after + 1 := by
  rw [count, count]
  induction text generalizing before with
  | nil => cases h
  | cons symbol rest ih =>
    rw [split] at h
    split at h
    · rename_i hbegin
      cases h
      rw [countFrom, if_pos hbegin, countFrom_eq_drop]
      rcases pattern with - | ⟨first, pattern⟩
      · exact absurd rfl hpattern
      · rw [List.length_cons, Nat.add_sub_cancel, List.drop_succ_cons]
    · rename_i hbegin
      rcases Option.map_eq_some_iff.mp h with ⟨parts, hparts, hsame⟩
      cases hsame
      rw [countFrom, if_neg hbegin, ih hparts]

theorem count_eq_zero (hpattern : pattern ≠ []) :
    count pattern text = 0 ↔ ∀ position, ¬ OccursAt pattern text position := by
  rw [← split_eq_none hpattern]
  constructor
  · intro h
    rcases hsplit : split pattern text with - | ⟨before, after⟩
    · rfl
    · rw [count_of_split hpattern hsplit] at h
      omega
  · exact count_of_split_none

/-- One occurrence is counted exactly if there is one and all of them overlap. -/
theorem count_eq_one (hpattern : pattern ≠ []) : count pattern text = 1 ↔
    (∃ position, OccursAt pattern text position) ∧ ∀ position other,
      OccursAt pattern text position → OccursAt pattern text other → other < position + pattern.length := by
  rcases hsplit : split pattern text with - | ⟨before, after⟩
  · refine iff_of_false ?_ ?_
    · rw [count_of_split_none hsplit]
      omega
    · rintro ⟨⟨position, h⟩, -⟩
      exact (split_eq_none hpattern).mp hsplit position h
  · have htext := split_eq_append hsplit
    have hfirst : OccursAt pattern text before.length := occursAt_of_eq htext
    have hlength : (before ++ pattern).length = before.length + pattern.length := List.length_append
    rw [count_of_split hpattern hsplit, Nat.add_eq_right, count_eq_zero hpattern]
    constructor
    · intro h
      refine ⟨⟨_, hfirst⟩, ?_⟩
      intro position other hposition hother
      have hleast := split_first hsplit hposition
      by_contra hfar
      -- What lies behind the first occurrence lies in the text after it.
      have hshift : (before ++ pattern).length + (other - (before ++ pattern).length) = other := by omega
      have hbehind : OccursAt pattern (before ++ pattern ++ after)
          ((before ++ pattern).length + (other - (before ++ pattern).length)) := by
        rw [hshift, ← htext]
        exact hother
      exact h _ (occursAt_append.mp hbehind)
    · rintro ⟨-, h⟩ position hposition
      have hlater : OccursAt pattern text (before.length + pattern.length + position) := by
        rw [htext, ← hlength]
        exact occursAt_append.mpr hposition
      have hnear := h _ _ hfirst hlater
      omega

/-! ### One occurrence, and several that overlap -/

/-- The pattern occurs more than once, and any two of its occurrences overlap. -/
structure Tangled (pattern text : List α) : Prop where
  several : ∃ position other, position < other ∧ OccursAt pattern text position ∧ OccursAt pattern text other
  overlap : ∀ position other, OccursAt pattern text position → OccursAt pattern text other →
    other < position + pattern.length

theorem count_of_existsUnique (hpattern : pattern ≠ []) (h : ∃! position, OccursAt pattern text position) :
    count pattern text = 1 := by
  rcases h with ⟨only, honly, hunique⟩
  refine (count_eq_one hpattern).mpr ⟨⟨only, honly⟩, ?_⟩
  intro position other hposition hother
  rw [hunique position hposition, hunique other hother]
  have hpositive := List.length_pos_of_ne_nil hpattern
  omega

/-- Where one occurrence is counted there is one, or there are several that overlap. -/
theorem existsUnique_iff_not_tangled (hpattern : pattern ≠ []) (h : count pattern text = 1) :
    (∃! position, OccursAt pattern text position) ↔ ¬ Tangled pattern text := by
  rcases (count_eq_one hpattern).mp h with ⟨⟨position, hposition⟩, hoverlap⟩
  constructor
  · rintro ⟨only, -, hunique⟩ htangled
    rcases htangled.several with ⟨first, second, hbefore, hfirst, hsecond⟩
    rw [hunique first hfirst, hunique second hsecond] at hbefore
    omega
  · intro h
    refine ⟨position, hposition, ?_⟩
    intro other hother
    by_contra hne
    refine h ⟨?_, hoverlap⟩
    rcases Nat.lt_or_gt_of_ne hne with hbefore | hafter
    · exact ⟨other, position, hbefore, hother, hposition⟩
    · exact ⟨position, other, hafter, hposition, hother⟩

theorem Tangled.count (hpattern : pattern ≠ []) (h : Tangled pattern text) : count pattern text = 1 := by
  rcases h.several with ⟨position, -, -, hposition, -⟩
  exact (count_eq_one hpattern).mpr ⟨⟨position, hposition⟩, h.overlap⟩

/-- Where one occurrence is counted, replacing the first one replaces it. -/
theorem replaceFirst_of_existsUnique {replacement : List α} (hpattern : pattern ≠ [])
    (hunique : ∃! position, OccursAt pattern text position) (h : text = before ++ pattern ++ after) :
    replaceFirst pattern replacement text = before ++ replacement ++ after := by
  have hown := occursAt_of_eq h
  rcases hsplit : split pattern text with - | ⟨first, rest⟩
  · exact absurd hown ((split_eq_none hpattern).mp hsplit _)
  · have htext := split_eq_append hsplit
    have hlength : first.length = before.length := hunique.unique (occursAt_of_eq htext) hown
    simp only [replaceFirst, hsplit]
    rw [htext, List.append_assoc, List.append_assoc] at h
    rcases List.append_inj h hlength with ⟨hbefore, hrest⟩
    rw [hbefore, List.append_cancel_left hrest]

end AgenticPlatform.Occurrences
