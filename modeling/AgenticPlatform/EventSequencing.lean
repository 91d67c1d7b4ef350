import AgenticPlatform.Dict
import AgenticPlatform.EventClasses
import Mathlib.Data.List.Sort
import Mathlib.Data.Set.Function
import Mathlib.Data.String.Basic
import Mathlib.Order.Interval.Set.Defs

/-!
# Batches of the event log

What `SqlAlchemyEventStore.append` computes without the database: the events of a batch
grouped by run, the order in which the groups are written, the advisory lock of each, and
the numbered rows. The groups are sorted by the text of the run id, the locks are keyed by
its first four bytes as a signed number; `lockOrder` undoes the sign, and the sort goes
along it.
-/

namespace AgenticPlatform

/-- `event_run_id`. -/
def eventRunId (event : Event) : Option RunId :=
  match List.lookup "run_id" event.fields with
  | some (.entityId .run id) => some id
  | _ => none

/-- A row of `run_events`; its `recorded_at` is stamped by the server. -/
structure RunEventModel where
  id : Nat
  runId : Option Nat
  sequence : Nat
  name : String
  occurredAt : Instant
  payload : Mapping

namespace EventStore

/-- The key an event is grouped under. -/
def runUuid (event : Event) : Option Nat := (eventRunId event).map EntityId.value

/-- `grouped`. -/
def grouped (events : List Event) : Dict (Option Nat) (List Event) :=
  events.foldl (fun groups event =>
    groups.insert (runUuid event) ((groups.lookup (runUuid event)).getD [] ++ [event])) ∅

/-- The sort key of a group: events without a run come first. -/
def SortsBefore : Option Nat → Option Nat → Prop
  | none, _ => True
  | some _, none => False
  | some left, some right => uuidText left ≤ uuidText right

instance : DecidableRel SortsBefore
  | none, _ => isTrue trivial
  | some _, none => isFalse id
  | some left, some right => inferInstanceAs (Decidable (uuidText left ≤ uuidText right))

/-- The groups in the order in which they are written. -/
def groups (events : List Event) : List (Option Nat × List Event) :=
  ((grouped events).keys.insertionSort SortsBefore).map fun run =>
    (run, ((grouped events).lookup run).getD [])

/-- `uuid.bytes`. -/
def uuidBytes (value : Nat) : List Nat := (List.range 16).map fun i => value / 256 ^ (15 - i) % 256

/-- `int.from_bytes(bytes, "big", signed=True)`. -/
def fromBytes (bytes : List Nat) : Int :=
  let value := foldDigits 256 0 bytes
  if value < 256 ^ bytes.length / 2 then value else (value : Int) - 256 ^ bytes.length

/-- `_lock_key`. -/
def lockKey : Option Nat → Int
  | none => 0
  | some value => fromBytes ((uuidBytes value).take 4)

/-- `_next_sequence`, over the rows that the query sees. -/
def nextSequence (rows : List RunEventModel) (run : Option Nat) : Nat :=
  match ((rows.filter fun row => row.runId = run).map RunEventModel.sequence).max? with
  | none => 1
  | some highest => highest + 1

/-- The rows of one group, numbered from `sequence` on. -/
def rowsFrom (iso : IsoCodec) (run : Option Nat) (sequence : Nat) : List Event → List RunEventModel
  | [] => []
  | event :: rest =>
      ⟨event.eventId, run, sequence, event.type.name, event.occurredAt, event.payload iso⟩ ::
        rowsFrom iso run (sequence + 1) rest

/-! ### Grouping -/

/-- The events of one run, or of none, in order. -/
def eventsOf (run : Option Nat) (events : List Event) : List Event :=
  events.filter fun event => runUuid event = run

def rowsOf (run : Option Nat) (rows : List RunEventModel) : List RunEventModel :=
  rows.filter fun row => row.runId = run

/-- The events of one run in groups still to be written. -/
def eventsIn (run : Option Nat) (groups : List (Option Nat × List Event)) : List Event :=
  (groups.filter fun group => group.1 = run).flatMap Prod.snd

section Groups

variable {run run' : Option Nat} {events rest : List Event} {groups' : List (Option Nat × List Event)}

@[simp] theorem eventsOf_append :
    eventsOf run (events ++ rest) = eventsOf run events ++ eventsOf run rest := List.filter_append ..

@[simp] theorem rowsOf_append {rows rows' : List RunEventModel} :
    rowsOf run (rows ++ rows') = rowsOf run rows ++ rowsOf run rows' := List.filter_append ..

@[simp] theorem eventsIn_nil : eventsIn run [] = [] := rfl

theorem eventsIn_cons :
    eventsIn run ((run', events) :: groups') =
      (if run' = run then events else []) ++ eventsIn run groups' := by
  unfold eventsIn
  by_cases h : run' = run <;> simp [h]

/-- A group is the events of its run; a run without events has none. -/
theorem lookup_grouped (run : Option Nat) (events : List Event) :
    (grouped events).lookup run = if eventsOf run events = [] then none else some (eventsOf run events) := by
  -- The loop appends, so the induction takes the last event off.
  induction events using List.reverseRecOn with
  | nil => rfl
  | append_singleton events event ih =>
    have hstep : grouped (events ++ [event]) = (grouped events).insert (runUuid event)
        (((grouped events).lookup (runUuid event)).getD [] ++ [event]) := by
      unfold grouped
      rw [List.foldl_append]
      rfl
    rw [hstep, Dict.lookup_insert_ite, eventsOf_append]
    by_cases hrun : run = runUuid event
    · subst hrun
      have hlast : eventsOf (runUuid event) [event] = [event] := by simp [eventsOf]
      rw [if_pos rfl, hlast, if_neg (by simp), ih]
      split
      · rename_i hempty
        rw [hempty]
        rfl
      · rfl
    · have hlast : eventsOf run [event] = [] := by simp [eventsOf, Ne.symm hrun]
      rw [if_neg hrun, hlast, List.append_nil, ih]

theorem getD_lookup_grouped (run : Option Nat) (events : List Event) :
    ((grouped events).lookup run).getD [] = eventsOf run events := by
  rw [lookup_grouped]
  split
  · rename_i hempty
    rw [hempty]
    rfl
  · rfl

/-- Nothing of a batch is lost between the groups, and nothing changes its order in a run. -/
theorem eventsIn_groups (run : Option Nat) (events : List Event) :
    eventsIn run (groups events) = eventsOf run events := by
  have hperm := List.perm_insertionSort SortsBefore (grouped events).keys
  have hnodup : ((grouped events).keys.insertionSort SortsBefore).Nodup :=
    hperm.nodup_iff.mpr (AList.keys_nodup _)
  have hfilter : (groups events).filter (fun group => group.1 = run) =
      (((grouped events).keys.insertionSort SortsBefore).filter fun run' => run' = run).map fun run =>
        (run, ((grouped events).lookup run).getD []) := by
    rw [groups, List.filter_map]
    rfl
  unfold eventsIn
  rw [hfilter, List.filter_eq, List.map_replicate]
  by_cases hkey : run ∈ (grouped events).keys
  · rw [List.count_eq_one_of_mem hnodup (hperm.mem_iff.mpr hkey)]
    simp [getD_lookup_grouped]
  · rw [List.count_eq_zero_of_not_mem fun hmem => hkey (hperm.mem_iff.mp hmem)]
    have hempty : (grouped events).lookup run = none := AList.lookup_eq_none.mpr hkey
    rw [← getD_lookup_grouped, hempty]
    rfl

end Groups

/-! ### Numbering -/

section Rows

variable {iso : IsoCodec} {run run' : Option Nat} {sequence : Nat} {events rest : List Event}
  {rows : List RunEventModel}

@[simp] theorem rowsFrom_nil : rowsFrom iso run sequence [] = [] := rfl

@[simp] theorem length_rowsFrom : (rowsFrom iso run sequence events).length = events.length := by
  induction events generalizing sequence with
  | nil => rfl
  | cons event rest ih => rw [rowsFrom, List.length_cons, List.length_cons, ih]

theorem rowsFrom_append : rowsFrom iso run sequence (events ++ rest) =
    rowsFrom iso run sequence events ++ rowsFrom iso run (sequence + events.length) rest := by
  induction events generalizing sequence with
  | nil => rfl
  | cons event events ih =>
    rw [List.cons_append, rowsFrom, ih, rowsFrom, List.cons_append, List.length_cons,
      Nat.add_assoc, Nat.add_comm 1]

theorem sequences_rowsFrom : (rowsFrom iso run sequence events).map RunEventModel.sequence =
    List.range' sequence events.length := by
  induction events generalizing sequence with
  | nil => rfl
  | cons event rest ih => rw [rowsFrom, List.map_cons, ih, List.length_cons, List.range'_succ]

theorem rowsOf_rowsFrom : rowsOf run' (rowsFrom iso run sequence events) =
    if run = run' then rowsFrom iso run sequence events else [] := by
  induction events generalizing sequence with
  | nil => simp [rowsOf]
  | cons event rest ih =>
    have hcons : rowsOf run' (rowsFrom iso run sequence (event :: rest)) =
        (if run = run' then [⟨event.eventId, run, sequence, event.type.name, event.occurredAt,
          event.payload iso⟩] else []) ++ rowsOf run' (rowsFrom iso run (sequence + 1) rest) := by
      rw [rowsFrom, rowsOf, List.filter_cons]
      by_cases h : run = run' <;> simp [h, rowsOf]
    rw [hcons, ih]
    by_cases h : run = run' <;> simp [h, rowsFrom]

theorem max_range' (count : Nat) : (List.range' 1 (count + 1)).max? = some (count + 1) := by
  rw [List.max?_eq_some_iff]
  constructor
  · rw [List.mem_range'_1]
    omega
  · intro sequence hmem
    rw [List.mem_range'_1] at hmem
    omega

/-- Where the rows of a run are numbered without a gap, the next number continues them. -/
theorem nextSequence_of_numbered (h : rowsOf run rows = rowsFrom iso run 1 events) :
    nextSequence rows run = events.length + 1 := by
  have hsequences : (rows.filter fun row => row.runId = run).map RunEventModel.sequence =
      List.range' 1 events.length := by
    change (rowsOf run rows).map RunEventModel.sequence = _
    rw [h, sequences_rowsFrom]
  unfold nextSequence
  rw [hsequences]
  cases hcount : events.length with
  | zero => rfl
  | succ count => rw [max_range']

end Rows

/-! ### The order of the locks -/

/-- The place of a lock: its key without the sign. -/
def lockOrder (key : Int) : Nat := (key % 2 ^ 32).toNat

/-- A signed 32-bit number. -/
def IsLockKey (key : Int) : Prop := -2 ^ 31 ≤ key ∧ key < 2 ^ 31

theorem lockKey_eq (value : Nat) : lockKey (some value) =
    if value / 2 ^ 96 % 2 ^ 32 < 2 ^ 31 then ((value / 2 ^ 96 % 2 ^ 32 : Nat) : Int)
    else ((value / 2 ^ 96 % 2 ^ 32 : Nat) : Int) - 2 ^ 32 := by
  have hbytes : (uuidBytes value).take 4 = [value / 2 ^ 96 / 2 ^ 24 % 256, value / 2 ^ 96 / 2 ^ 16 % 256,
      value / 2 ^ 96 / 2 ^ 8 % 256, value / 2 ^ 96 % 256] := by
    simp only [Nat.div_div_eq_div_mul]
    rfl
  have hvalue : foldDigits 256 0 ((uuidBytes value).take 4) = value / 2 ^ 96 % 2 ^ 32 := by
    rw [hbytes]
    simp only [foldDigits, List.foldl_cons, List.foldl_nil]
    omega
  unfold lockKey fromBytes
  simp only [hvalue]
  rw [hbytes]
  simp

theorem lockKey_isLockKey (run : Option Nat) : IsLockKey (lockKey run) := by
  cases run with
  | none => exact ⟨by decide, by decide⟩
  | some value =>
    rw [lockKey_eq, IsLockKey]
    split <;> omega

/-- Two locks at one place are one lock. -/
theorem lockOrder_injOn : Set.InjOn lockOrder {key | IsLockKey key} := by
  intro left hleft right hright h
  obtain ⟨hleft, hleft'⟩ : IsLockKey left := hleft
  obtain ⟨hright, hright'⟩ : IsLockKey right := hright
  simp only [lockOrder] at h
  omega

theorem lockOrder_lockKey (value : Nat) : lockOrder (lockKey (some value)) = value / 2 ^ 96 % 2 ^ 32 := by
  rw [lockKey_eq]
  unfold lockOrder
  split <;> omega

theorem hexDigit_lt : ∀ m < 16, ∀ n < 16, m < n → hexDigit m < hexDigit n := by decide

/-- Texts compare as the numbers before their `count` last of the first eight digits do. -/
theorem digits_lt {left right count first : Nat} {rest rest' : List Char} (hcount : first + count = 8)
    (h : left / 2 ^ 96 % 16 ^ count < right / 2 ^ 96 % 16 ^ count) :
    (List.range' first count).map (uuidDigit left) ++ rest <
      (List.range' first count).map (uuidDigit right) ++ rest' := by
  induction count generalizing first with
  | zero =>
    rw [Nat.pow_zero, Nat.mod_one, Nat.mod_one] at h
    cases h
  | succ count ih =>
    have hdigit : ∀ value, uuidDigit value first = hexDigit (value / 2 ^ 96 / 16 ^ count % 16) := by
      intro value
      rw [uuidDigit, Nat.div_div_eq_div_mul, show (2 : Nat) ^ 96 = 16 ^ 24 by decide, ← Nat.pow_add,
        show 31 - first = 24 + count by omega]
    have hlt : ∀ value, value / 16 ^ count % 16 < 16 := fun value => Nat.mod_lt _ (by decide)
    rw [Nat.mod_pow_succ, Nat.mod_pow_succ] at h
    simp only [List.range'_succ, List.map_cons, List.cons_append, List.cons_lt_cons_iff, hdigit]
    rcases Nat.lt_trichotomy (left / 2 ^ 96 / 16 ^ count % 16) (right / 2 ^ 96 / 16 ^ count % 16) with
      hless | hsame | hmore
    · exact .inl (hexDigit_lt _ (hlt _) _ (hlt _) hless)
    · rw [hsame] at h ⊢
      exact .inr ⟨rfl, ih (by omega) (by omega)⟩
    · -- A greater first digit makes the greater number.
      have hleft : left / 2 ^ 96 % 16 ^ count < 16 ^ count := Nat.mod_lt _ (Nat.pow_pos (by decide))
      have hright : right / 2 ^ 96 % 16 ^ count < 16 ^ count := Nat.mod_lt _ (Nat.pow_pos (by decide))
      have hmul := Nat.mul_le_mul_left (16 ^ count) (Nat.succ_le_of_lt hmore)
      rw [Nat.succ_eq_add_one, Nat.mul_add, Nat.mul_one] at hmul
      omega

/-- The sort of the groups goes along the order of the locks. -/
theorem lockOrder_mono {left right : Option Nat} (h : SortsBefore left right) :
    lockOrder (lockKey left) ≤ lockOrder (lockKey right) := by
  match left, right, h with
  | none, _, _ => exact Nat.zero_le _
  | some left, some right, h =>
    rw [lockOrder_lockKey, lockOrder_lockKey]
    by_contra hgt
    have htext : uuidText right < uuidText left := by
      rw [String.lt_iff_toList_lt, uuidText, uuidText, EntityId.str, EntityId.str,
        String.toList_ofList, String.toList_ofList, EntityId.chars, EntityId.chars]
      simp only [List.append_assoc]
      exact digits_lt (by decide) (by rw [show (16 : Nat) ^ 8 = 2 ^ 32 by decide]; omega)
    exact absurd h (not_le_of_gt htext)

/-- **The locks of a batch are taken in ascending order.** -/
theorem groups_lockOrder (events : List Event) :
    ((groups events).map fun group => lockKey group.1).Pairwise fun left right =>
      lockOrder left ≤ lockOrder right := by
  have htotal : Std.Total SortsBefore := ⟨by
    intro left right
    cases left with
    | none => exact .inl trivial
    | some left =>
      cases right with
      | none => exact .inr trivial
      | some right => exact le_total (uuidText left) (uuidText right)⟩
  have htrans : IsTrans (Option Nat) SortsBefore := ⟨by
    intro first second third hfirst hsecond
    match first, second, third, hfirst, hsecond with
    | none, _, _, _, _ => trivial
    | some first, some second, some third, hfirst, hsecond =>
      have hle : uuidText first ≤ uuidText third := le_trans hfirst hsecond
      exact hle⟩
  unfold groups
  rw [List.map_map, List.pairwise_map]
  exact (List.pairwise_insertionSort SortsBefore _).imp lockOrder_mono

end EventStore

end AgenticPlatform
