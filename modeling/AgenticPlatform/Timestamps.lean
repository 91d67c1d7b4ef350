import AgenticPlatform.Basics

/-!
# Times with and without a zone

A `datetime` is a wall time that may have a zone. Times with a zone and times without one
cannot be compared or subtracted, and no time lies before year 1 or after year 9999. Under
one zone object the wall times are compared, under two the times in UTC.
-/

namespace AgenticPlatform

/-- A `tzinfo`: which object it is, and how far ahead of UTC it is at a wall time. -/
structure Zone where
  object : Nat
  offset : Int → Duration

/-- `datetime.max`, in microseconds since the start of year 1. -/
def maxWall : Int := 315537897599999999

structure Stamp where
  wall : Int
  zone : Option Zone
  in_range : 0 ≤ wall ∧ wall ≤ maxWall

namespace Stamp

/-- `tzinfo is not None`. -/
def aware (stamp : Stamp) : Bool := stamp.zone.isSome

/-- The time from `earlier` to `later`, if the two can be compared. -/
def elapsed (later earlier : Stamp) : Option Duration :=
  match later.zone, earlier.zone with
  | none, none => some (later.wall - earlier.wall)
  | some zone, some zone' =>
      if zone.object = zone'.object then some (later.wall - earlier.wall)
      else some ((later.wall - zone.offset later.wall) -
        (earlier.wall - zone'.offset earlier.wall))
  | _, _ => none

/-- `left >= right`. -/
def ge (left right : Stamp) : Except PyError Bool :=
  match left.elapsed right with
  | some duration => .ok (decide (0 ≤ duration))
  | none => .error (.other "can't compare offset-naive and offset-aware datetimes")

/-- `left - right`. -/
def sub (left right : Stamp) : Except PyError Duration :=
  match left.elapsed right with
  | some duration => .ok duration
  | none => .error (.other "can't subtract offset-naive and offset-aware datetimes")

/-- `not (later <= earlier)`, for times that can be compared. -/
def outlasts (later earlier : Stamp) : Bool :=
  match later.elapsed earlier with
  | some duration => decide (0 < duration)
  | none => false

/-- `stamp + duration`, under the same zone. -/
def add (stamp : Stamp) (duration : Duration) : Except PyError Stamp :=
  if h : 0 ≤ stamp.wall + duration ∧ stamp.wall + duration ≤ maxWall then
    .ok ⟨stamp.wall + duration, stamp.zone, h⟩
  else .error (.other "date value out of range")

section Lemmas

variable {left right stamp : Stamp} {duration : Duration}

theorem elapsed_isSome_iff : (left.elapsed right).isSome = true ↔ left.aware = right.aware := by
  unfold elapsed aware
  rcases left.zone with - | zone <;> rcases right.zone with - | zone' <;> simp
  split <;> rfl

theorem elapsed_of_aware (h : left.aware = right.aware) :
    ∃ duration, left.elapsed right = some duration :=
  Option.isSome_iff_exists.mp (elapsed_isSome_iff.mpr h)

/-- What is added to a time is what lies between the two. -/
theorem elapsed_of_zone (h : left.zone = right.zone) :
    left.elapsed right = some (left.wall - right.wall) := by
  unfold elapsed
  rw [h]
  rcases right.zone with - | zone
  · rfl
  · exact if_pos rfl

theorem add_eq_ok {sum : Stamp} (h : stamp.add duration = .ok sum) :
    sum.wall = stamp.wall + duration ∧ sum.zone = stamp.zone := by
  unfold add at h
  split at h
  · cases h
    exact ⟨rfl, rfl⟩
  · cases h

theorem ge_eq_ok {known : Bool} (h : left.ge right = .ok known) : left.aware = right.aware := by
  unfold ge at h
  split at h
  · rename_i duration hsome
    exact elapsed_isSome_iff.mp (by rw [hsome]; rfl)
  · cases h

end Lemmas

end Stamp

/-! ### Times under a fixed offset -/

/-- A `datetime`: its place in the calendar, and how far ahead of UTC its zone is, if it has
    one. -/
structure CallTime where
  wall : Int
  offset : Option Duration
  in_range : 0 ≤ wall ∧ wall ≤ maxWall

/-- 1970-01-01T00:00:00, in microseconds since the start of year 1. -/
def epochWall : Int := 62135596800000000

namespace CallTime

/-- `tzinfo is not None`. -/
def aware (time : CallTime) : Bool := time.offset.isSome

/-- The instant a time with a zone stands for. -/
def instant (time : CallTime) : Instant := time.wall - time.offset.getD 0 - epochWall

/-- `time + duration` is in the calendar. -/
def Reaches (time : CallTime) (duration : Duration) : Prop :=
  0 ≤ time.wall + duration ∧ time.wall + duration ≤ maxWall

instance (time : CallTime) (duration : Duration) : Decidable (time.Reaches duration) :=
  inferInstanceAs (Decidable (_ ∧ _))

/-- What `Lease(acquired_at=time, expires_at=time + duration)` raises. -/
def leaseError (time : CallTime) (duration : Duration) : Option PyError :=
  if ¬ time.Reaches duration then some (.other "date value out of range")
  else if duration ≤ 0 then some (.valueError "lease must expire strictly after it was acquired")
  else if time.aware = false then some (.valueError "lease timestamps must be timezone-aware")
  else none

/-- A lease can be granted at this time, for this long. -/
structure Grants (time : CallTime) (duration : Duration) : Prop where
  aware : time.aware = true
  positive : 0 < duration
  in_calendar : time.wall + duration ≤ maxWall

theorem leaseError_eq_none {time : CallTime} {duration : Duration} :
    time.leaseError duration = none ↔ time.Grants duration := by
  have hrange := time.in_range
  unfold leaseError
  constructor
  · intro h
    split at h
    · cases h
    · rename_i hreaches
      split at h
      · cases h
      · rename_i hpositive
        split at h
        · cases h
        · rename_i haware
          exact ⟨by simpa using haware, not_le.mp hpositive, (not_not.mp hreaches).2⟩
  · intro h
    have hreaches : time.Reaches duration := by
      refine ⟨?_, h.in_calendar⟩
      have hpositive := h.positive
      unfold Duration at *
      omega
    rw [if_neg (not_not.mpr hreaches), if_neg (not_le.mpr h.positive), if_neg (by simp [h.aware])]

end CallTime

/-- What the constructor of an event raises at a time without a zone. -/
def zonelessEvent : PyError := .valueError "event timestamps must be timezone-aware"

end AgenticPlatform
