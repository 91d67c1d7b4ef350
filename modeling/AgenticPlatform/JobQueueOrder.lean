import AgenticPlatform.JobQueueSlots
import AgenticPlatform.SortedSet
import Mathlib.Data.Int.ConditionallyCompleteOrder
import Mathlib.Data.List.MinMax
import Mathlib.Order.ConditionallyCompleteLattice.Basic

/-!
# The order in which the queue hands out jobs

The key `(score, str(job_id))` of the source is a place in a linear order. The scan of
`_next_ready` over the ready dictionaries keeps the least entry seen so far, so what it
returns is the first least entry of all of them; the lapsed leases are sorted by the
same key.
-/

namespace List

variable {α β : Type} [LinearOrder β] {f : α → β} {m : α} {l : List α}

/-- Every element before the first least one is greater. -/
theorem exists_split_of_mem_argmin [DecidableEq α] (h : m ∈ argmin f l) :
    ∃ before after, l = before ++ m :: after ∧ ∀ a ∈ before, f m < f a := by
  obtain ⟨before, after, hsplit, hnot⟩ := eq_append_cons_of_mem (argmin_mem h)
  refine ⟨before, after, hsplit, fun a ha => ?_⟩
  by_contra hle
  have hindex := index_of_argmin h (hsplit ▸ mem_append_left _ ha) (not_lt.mp hle)
  have ham : m ≠ a := fun heq => hnot (heq ▸ ha)
  rw [hsplit, idxOf_append_of_notMem hnot, idxOf_append_of_mem ha, idxOf_cons_self] at hindex
  have hlt := idxOf_lt_length_of_mem ha
  omega

end List

namespace AgenticPlatform

open Dict

namespace JobQueue

/-- The place of an entry in a sorted set of jobs. -/
abbrev place (id : JobId) (score : Int) : Int ×ₗ List Char :=
  SortedSet.place EntityId.chars (id, score)

theorem keyLt_iff {left right : Int × JobId} :
    keyLt left right = true ↔ place left.2 left.1 < place right.2 right.1 := by
  rw [SortedSet.place_lt_iff, keyLt, decide_eq_true_eq]

theorem keyLt_eq_false {left right : Int × JobId} :
    keyLt left right = false ↔ place right.2 right.1 ≤ place left.2 left.1 := by
  rw [← Bool.not_eq_true, keyLt_iff, not_lt]

/-- The ready entries of the requested types, in the order of the scan. -/
def readyEntries (q : JobQueue) (wanted : List JobType) : List (Int × JobType × JobId) :=
  wanted.flatMap fun jobType =>
    (inner q.ready jobType).entries.map fun entry => (entry.2, jobType, entry.1)

/-- The place of a ready entry. -/
def entryPlace (entry : Int × JobType × JobId) : Int ×ₗ List Char := place entry.2.2 entry.1

variable {q : JobQueue} {wanted : List JobType} {jobType : JobType} {id : JobId} {score : Int}

theorem mem_readyEntries : (score, jobType, id) ∈ q.readyEntries wanted ↔
    jobType ∈ wanted ∧ (q.slot id).ready jobType = some score := by
  unfold readyEntries
  simp only [List.mem_flatMap, List.mem_map, slot]
  constructor
  · rintro ⟨other, hother, entry, hentry, heq⟩
    cases heq
    exact ⟨hother, AList.mem_lookup_iff.mpr hentry⟩
  · rintro ⟨hwanted, hready⟩
    exact ⟨jobType, hwanted, ⟨id, score⟩, AList.mem_lookup_iff.mp hready, rfl⟩

/-- The scan is a search for the first least entry. -/
theorem nextReady_eq (q : JobQueue) (wanted : List JobType) : q.nextReady wanted =
    ((q.readyEntries wanted).argmin entryPlace).map fun found => (found.2.1, found.2.2) := by
  have hbetter : ∀ (best : Option (Int × JobType × JobId)) (jobType : JobType)
      (entry : JobId × Int), better best jobType entry =
        List.argAux (fun b c => entryPlace b < entryPlace c) best (entry.2, jobType, entry.1) := by
    intro best jobType entry
    cases best with
    | none => rfl
    | some old =>
      have hlt : keyLt (entry.2, entry.1) (old.1, old.2.2) = true ↔
          entryPlace (entry.2, jobType, entry.1) < entryPlace old := keyLt_iff
      simp only [better, List.argAux, hlt]
  unfold nextReady List.argmin readyEntries
  rw [List.foldl_flatMap]
  simp only [List.foldl_map, hbetter]

/-- `_next_ready` returns an entry of the ready map of a requested type. -/
theorem nextReady_spec (h : q.nextReady wanted = some (jobType, id)) :
    jobType ∈ wanted ∧ ∃ score, (q.slot id).ready jobType = some score := by
  rw [nextReady_eq, Option.map_eq_some_iff] at h
  obtain ⟨⟨score, found⟩, hleast, heq⟩ := h
  cases heq
  obtain ⟨hwanted, hready⟩ := mem_readyEntries.mp (List.argmin_mem hleast)
  exact ⟨hwanted, score, hready⟩

/-- The ready job of a requested type that no other one precedes. -/
structure Foremost (q : JobQueue) (wanted : List JobType) (jobType : JobType) (id : JobId)
    (score : Int) : Prop where
  requested : jobType ∈ wanted
  ready : (inner q.ready jobType).lookup id = some score
  first : ∀ other ∈ wanted, ∀ id' score', (inner q.ready other).lookup id' = some score' →
    keyLt (score', id') (score, id) = false

theorem nextReady_foremost (h : q.nextReady wanted = some (jobType, id)) :
    ∃ score, q.Foremost wanted jobType id score := by
  rw [nextReady_eq, Option.map_eq_some_iff] at h
  obtain ⟨⟨score, found⟩, hleast, heq⟩ := h
  cases heq
  obtain ⟨hwanted, hready⟩ := mem_readyEntries.mp (List.argmin_mem hleast)
  refine ⟨score, hwanted, hready, fun other hother id' score' hready' => ?_⟩
  rw [keyLt_eq_false]
  exact List.le_of_mem_argmin (mem_readyEntries.mpr ⟨hother, hready'⟩) hleast

theorem nextReady_eq_none (h : q.nextReady wanted = none) :
    ∀ jobType ∈ wanted, ∀ id, (inner q.ready jobType).lookup id = none := by
  intro jobType hwanted id
  rw [nextReady_eq, Option.map_eq_none_iff, List.argmin_eq_none] at h
  cases hready : (inner q.ready jobType).lookup id with
  | none => rfl
  | some score =>
    have hmem := mem_readyEntries.mpr ⟨hwanted, hready⟩
    rw [h] at hmem
    cases hmem

/-- The lapsed leases come in the order of their places. -/
theorem lapsed_pairwise (q : JobQueue) (now : Instant) :
    (q.lapsed now).Pairwise fun left right => place left.2 left.1 ≤ place right.2 right.1 := by
  have htotal : Std.Total fun left right : Int × JobId => keyLt right left = false :=
    ⟨fun left right => by rw [keyLt_eq_false, keyLt_eq_false]; exact le_total _ _⟩
  have htrans : IsTrans (Int × JobId) fun left right => keyLt right left = false :=
    ⟨fun a b c hab hbc => by rw [keyLt_eq_false] at hab hbc ⊢; exact hab.trans hbc⟩
  refine (List.pairwise_insertionSort _ _).imp ?_
  intro left right h
  exact keyLt_eq_false.mp h

end JobQueue

end AgenticPlatform
