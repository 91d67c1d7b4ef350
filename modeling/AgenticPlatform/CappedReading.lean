import Mathlib.Data.List.Basic

/-!
# Reading the output of a process

A pipe is read to its end whatever it holds, so that the child never blocks, but only the first
`limit` bytes are kept. What is kept does not depend on the pieces that the pipe hands out.
-/

namespace AgenticPlatform

/-- What `_read_capped` has read so far. -/
structure CappedReading where
  kept : List (List UInt8)
  size : Nat
  truncated : Bool

namespace CappedReading

variable {limit : Nat} {reading : CappedReading} {consumed chunk : List UInt8}
  {chunks : List (List UInt8)}

def start : CappedReading := ⟨[], 0, false⟩

/-- One turn of the loop. -/
def add (reading : CappedReading) (limit : Nat) (chunk : List UInt8) : CappedReading where
  kept :=
    if reading.size < limit then reading.kept ++ [chunk.take (limit - reading.size)]
    else reading.kept
  size := reading.size + chunk.length
  truncated := if reading.size + chunk.length > limit then true else reading.truncated

/-- The rest of the loop, over what the stream's `read` returns; nothing means the end. -/
def loop (limit : Nat) (reading : CappedReading) : List (List UInt8) → List UInt8 × Bool
  | [] => (reading.kept.flatten, reading.truncated)
  | chunk :: chunks =>
    if chunk = [] then (reading.kept.flatten, reading.truncated)
    else loop limit (reading.add limit chunk) chunks

/-- `_read_capped`. -/
def readCapped (chunks : List (List UInt8)) (limit : Nat) : List UInt8 × Bool :=
  loop limit start chunks

/-- The state of the loop after these bytes, however they were cut. -/
structure Reads (limit : Nat) (consumed : List UInt8) (reading : CappedReading) : Prop where
  kept : reading.kept.flatten = consumed.take limit
  size : reading.size = consumed.length
  truncated : reading.truncated = decide (limit < consumed.length)

theorem reads_start (limit : Nat) : Reads limit [] start := by
  refine ⟨?_, rfl, ?_⟩
  · rw [List.take_nil]
    rfl
  · exact (decide_eq_false (Nat.not_lt_zero limit)).symm

theorem Reads.add (h : Reads limit consumed reading) (chunk : List UInt8) :
    Reads limit (consumed ++ chunk) (reading.add limit chunk) := by
  constructor
  · rw [CappedReading.add, h.size, List.take_append, ← h.kept]
    split
    · rw [List.flatten_append, List.flatten_singleton]
    · rename_i hfull
      -- the limit was reached before this chunk
      rw [Nat.sub_eq_zero_of_le (Nat.le_of_not_lt hfull), List.take_zero, List.append_nil]
  · rw [CappedReading.add, h.size, List.length_append]
  · have htruncated : (reading.add limit chunk).truncated =
        if reading.size + chunk.length > limit then true else reading.truncated := rfl
    rw [htruncated, h.size, h.truncated, List.length_append]
    split
    · rename_i hover
      exact (decide_eq_true hover).symm
    · rename_i hunder
      have hbefore : ¬ limit < consumed.length := by omega
      rw [decide_eq_false hbefore, decide_eq_false hunder]

theorem loop_eq (h : Reads limit consumed reading) (hchunks : ∀ chunk ∈ chunks, chunk ≠ []) :
    loop limit reading chunks = ((consumed ++ chunks.flatten).take limit,
      decide (limit < (consumed ++ chunks.flatten).length)) := by
  induction chunks generalizing reading consumed with
  | nil => rw [loop, h.kept, h.truncated, List.flatten_nil, List.append_nil]
  | cons chunk chunks ih =>
    rcases List.forall_mem_cons.mp hchunks with ⟨hchunk, hrest⟩
    rw [loop, if_neg hchunk, ih (h.add chunk) hrest, List.flatten_cons, List.append_assoc]

/-- **What is read is the beginning of the stream, and the mark is set exactly if there was
    more, whatever chunks the stream comes in.** -/
theorem readCapped_eq (limit : Nat) (hchunks : ∀ chunk ∈ chunks, chunk ≠ []) :
    readCapped chunks limit =
      (chunks.flatten.take (min limit chunks.flatten.length),
        decide (chunks.flatten.length > limit)) := by
  rw [readCapped, loop_eq (reads_start limit) hchunks, List.nil_append, ← List.take_take,
    List.take_length]

theorem readCapped_eq_straddling : readCapped [[1, 2], [3, 4, 5]] 3 = ([1, 2, 3], true) :=
  readCapped_eq 3 (by decide)

end CappedReading

end AgenticPlatform
