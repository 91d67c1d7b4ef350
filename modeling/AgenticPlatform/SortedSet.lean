import AgenticPlatform.Dict
import Mathlib.Data.Char
import Mathlib.Data.List.Lex
import Mathlib.Data.List.Sort
import Mathlib.Data.Prod.Lex

/-!
# Sorted sets

A set whose members carry a score, traversed by score and, among equal scores, by the
text of the members. Two lists of members sorted that way are equal once they have the
same elements, provided no two members share a text; the head of a set is the least of
its members.
-/

/-- A sorted set: the score of each member. -/
abbrev SortedSet (α : Type) := Dict α Int

namespace SortedSet

variable {α : Type} (text : α → List Char)

/-- The position of a member: its score, then its text. -/
def place (entry : α × Int) : Int ×ₗ List Char := toLex (entry.2, text entry.1)

theorem place_lt_iff {left right : α × Int} :
    place text left < place text right ↔
      left.2 < right.2 ∨ (left.2 = right.2 ∧ text left.1 < text right.1) := by
  simp [place, Prod.Lex.toLex_lt_toLex]

theorem place_le_iff {left right : α × Int} :
    place text left ≤ place text right ↔
      left.2 < right.2 ∨ (left.2 = right.2 ∧ text left.1 ≤ text right.1) := by
  simp [place, Prod.Lex.toLex_le_toLex]

/-- Two members at one place have the same score and the same text. -/
theorem eq_of_place {left right : α × Int} (h : place text left = place text right)
    (htext : text left.1 = text right.1 → left.1 = right.1) : left = right := by
  unfold place at h
  rw [toLex_inj, Prod.mk.injEq] at h
  exact Prod.ext (htext h.2) h.1

/-- The members with their scores, as they are stored. -/
def pairs (set : SortedSet α) : List (α × Int) := set.entries.map fun entry => (entry.1, entry.2)

/-- The members with their scores, in order. -/
def sorted (set : SortedSet α) : List (α × Int) :=
  (pairs set).insertionSort fun left right => place text left ≤ place text right

/-- `ZRANGE key 0 0 WITHSCORES`. -/
def head (set : SortedSet α) : Option (α × Int) := (sorted text set).head?

/-- `ZRANGEBYSCORE key -inf max LIMIT 0 limit`; a negative limit is no limit. -/
def rangeByScore (set : SortedSet α) (max limit : Int) : List α :=
  let found := ((sorted text set).filter fun entry => decide (entry.2 ≤ max)).map Prod.fst
  if limit < 0 then found else found.take limit.toNat

/-- `ZCARD key`. -/
def card (set : SortedSet α) : Nat := set.entries.length

variable {text} {set other : SortedSet α} {member : α} {score : Int}

theorem mem_pairs_iff : (member, score) ∈ pairs set ↔ ⟨member, score⟩ ∈ set.entries := by
  unfold pairs
  rw [List.mem_map]
  constructor
  · rintro ⟨entry, hentry, heq⟩
    cases heq
    exact hentry
  · intro h
    exact ⟨⟨member, score⟩, h, rfl⟩

theorem pairs_nodup : (pairs set).Nodup := by
  have hkeys : (set.entries.map Sigma.fst).Nodup := set.nodupKeys
  apply List.Nodup.of_map Prod.fst
  unfold pairs
  rw [List.map_map]
  exact hkeys

theorem sorted_perm : (sorted text set).Perm (pairs set) := List.perm_insertionSort _ _

theorem sorted_pairwise :
    (sorted text set).Pairwise fun left right => place text left ≤ place text right :=
  List.pairwise_insertionSort _ _

/-- A sorted list is determined by its elements. -/
theorem eq_of_sorted {left right : List (α × Int)} (hperm : left.Perm right)
    (hleft : left.Pairwise fun a b => place text a ≤ place text b)
    (hright : right.Pairwise fun a b => place text a ≤ place text b)
    (htext : ∀ a ∈ left, ∀ b ∈ right, text a.1 = text b.1 → a.1 = b.1) : left = right := by
  apply List.Perm.eq_of_pairwise _ hleft hright hperm
  intro a b ha hb hab hba
  exact eq_of_place text (le_antisymm hab hba) (htext a ha b hb)

variable [DecidableEq α]

theorem mem_pairs : (member, score) ∈ pairs set ↔ set.lookup member = some score := by
  rw [mem_pairs_iff]
  exact AList.mem_lookup_iff.symm

theorem mem_sorted : (member, score) ∈ sorted text set ↔ set.lookup member = some score := by
  rw [sorted_perm.mem_iff, mem_pairs]

theorem head_eq_none : head text set = none ↔ ∀ member, set.lookup member = none := by
  unfold head
  rw [List.head?_eq_none_iff]
  constructor
  · intro h member
    cases hl : set.lookup member with
    | none => rfl
    | some score =>
      have hmem : (member, score) ∈ sorted text set := mem_sorted.mpr hl
      rw [h] at hmem
      cases hmem
  · intro h
    apply List.eq_nil_iff_forall_not_mem.mpr
    rintro ⟨member, score⟩ hmem
    rw [mem_sorted, h member] at hmem
    cases hmem

/-- The head is a member, and no member comes before it. -/
theorem head_spec (h : head text set = some (member, score)) :
    set.lookup member = some score ∧ ∀ other bound, set.lookup other = some bound →
      place text (member, score) ≤ place text (other, bound) := by
  unfold head at h
  obtain ⟨rest, hsorted⟩ := List.head?_eq_some_iff.mp h
  have hpairwise : (sorted text set).Pairwise fun a b => place text a ≤ place text b :=
    sorted_pairwise
  constructor
  · have hmem : (member, score) ∈ sorted text set := by
      rw [hsorted]
      exact List.mem_cons_self
    exact mem_sorted.mp hmem
  · intro other bound hother
    have hmem : (other, bound) ∈ sorted text set := mem_sorted.mpr hother
    rw [hsorted] at hmem hpairwise
    rcases List.mem_cons.mp hmem with heq | hrest
    · rw [heq]
    · exact (List.pairwise_cons.mp hpairwise).1 _ hrest

/-- Sets with the same scores have the same size. -/
theorem card_congr (h : ∀ member, set.lookup member = other.lookup member) :
    card set = card other := by
  have hperm : (pairs set).Perm (pairs other) := by
    rw [List.perm_ext_iff_of_nodup pairs_nodup pairs_nodup]
    rintro ⟨member, score⟩
    rw [mem_pairs, mem_pairs, h member]
  have hlength := hperm.length_eq
  simpa [pairs, card] using hlength

end SortedSet
