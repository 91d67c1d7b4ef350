import AgenticPlatform.QueueTimes
import AgenticPlatform.Rounding

/-!
# The order in which jobs are claimed

A score is one integer for priority and age. The milliseconds are truncated from a float
that was rounded twice; they stay far below the distance of two priorities, so the
priority always decides first, but they need not be the milliseconds of the record. The
stored score is that of the record in every history, whatever was requeued, released or
reclaimed.
-/

namespace AgenticPlatform

open Dict

/-! ### The milliseconds of a score -/

/-- The two roundings one after the other. That `round` is `roundDouble` is a hypothesis,
    so that nothing evaluates a rounding of an unknown number. -/
theorem wholeMillis_of_pos {t : Int} (h : 0 < t) {round : Nat → Nat → Nat × Int}
    (hround : roundDouble = round) : wholeMillis t =
      match round t.natAbs 1000000 with
      | (m, e) => match round (m * 1000 * 2 ^ e.toNat) (2 ^ (-e).toNat) with
        | (m, e) => t.sign * ((m * 2 ^ e.toNat / 2 ^ (-e).toNat : Nat) : Int) := by
  unfold wholeMillis
  rw [if_neg h.ne', hround]

/-- What is truncated to whole milliseconds: the seconds and then the product, each
    rounded once. -/
theorem wholeMillis_eq {t : Int} (h : 0 < t) : ∃ (m : Nat) (e : Int) (m' : Nat) (e' : Int),
    m = nearest (t.natAbs * 2 ^ (-e).toNat) (1000000 * 2 ^ e.toNat) ∧
    m' = nearest (m * 1000 * 2 ^ e.toNat * 2 ^ (-e').toNat) (2 ^ (-e).toNat * 2 ^ e'.toNat) ∧
    wholeMillis t = ((m' * 2 ^ e'.toNat / 2 ^ (-e').toNat : Nat) : Int) := by
  obtain ⟨round, hround⟩ : ∃ round, roundDouble = round := ⟨_, rfl⟩
  have hnearest := roundDouble_eq
  rw [wholeMillis_of_pos h hround, Int.sign_eq_one_of_pos h]
  rw [hround] at hnearest
  clear hround
  split
  rename_i m e hfirst
  split
  rename_i m' e' hsecond
  refine ⟨m, e, m', e', ?_, ?_, Int.one_mul _⟩
  · obtain ⟨e₁, heq⟩ := hnearest t.natAbs 1000000
    rw [hfirst, Prod.mk.injEq] at heq
    obtain ⟨rfl, rfl⟩ := heq
    rfl
  · obtain ⟨e₁, heq⟩ := hnearest (m * 1000 * 2 ^ e.toNat) (2 ^ (-e).toNat)
    rw [hsecond, Prod.mk.injEq] at heq
    obtain ⟨rfl, rfl⟩ := heq
    rfl

/-- Each of the two roundings at most doubles. -/
theorem truncated_le {n m m' ms : Nat} {a b c d : Nat} (hb : 0 < b) (hd : 0 < d)
    (hm : m * (1000000 * a) ≤ 2 * (n * b)) (hm' : m' * (b * c) ≤ 2 * (m * 1000 * a * d))
    (hfloor : ms * d ≤ m' * c) : 250 * ms ≤ n := by
  have hms : ms * 1000000 * (d * b) ≤ 4000 * n * (d * b) := by
    calc ms * 1000000 * (d * b)
        = ms * d * b * 1000000 := by ring
      _ ≤ m' * c * b * 1000000 := by gcongr
      _ = m' * (b * c) * 1000000 := by ring
      _ ≤ 2 * (m * 1000 * a * d) * 1000000 := by gcongr
      _ = 2000 * (m * (1000000 * a)) * d := by ring
      _ ≤ 2000 * (2 * (n * b)) * d := by gcongr
      _ = 4000 * n * (d * b) := by ring
  have hle := Nat.le_of_mul_le_mul_right hms (Nat.mul_pos hd hb)
  omega

theorem wholeMillis_bounds {t : Int} (h : 0 ≤ t) :
    0 ≤ wholeMillis t ∧ 250 * wholeMillis t ≤ t := by
  rcases h.eq_or_lt with rfl | hpos
  · exact ⟨le_refl _, le_refl _⟩
  · obtain ⟨m, e, m', e', hm, hm', hms⟩ := wholeMillis_eq hpos
    rw [hms]
    refine ⟨Int.natCast_nonneg _, ?_⟩
    have hfirst := nearest_le (t.natAbs * 2 ^ (-e).toNat) (1000000 * 2 ^ e.toNat)
    have hsecond := nearest_le (m * 1000 * 2 ^ e.toNat * 2 ^ (-e').toNat)
      (2 ^ (-e).toNat * 2 ^ e'.toNat)
    rw [← hm] at hfirst
    rw [← hm'] at hsecond
    have hfloor := Nat.div_mul_le_self (m' * 2 ^ e'.toNat) (2 ^ (-e').toNat)
    have hle := truncated_le (by positivity) (by positivity) hfirst hsecond hfloor
    omega

/-- Microseconds as seconds, for a number of seconds from `2 ** 30` on below `2 ** 31`. -/
theorem roundDouble_seconds {n : Nat} (h : 2 ^ 30 * 1000000 ≤ n) (h' : n < 2 ^ 31 * 1000000) :
    roundDouble n 1000000 = (nearest (n * 2 ^ 22) 1000000, -22) := by
  have hden : Nat.log2 1000000 = 19 := log2_eq (by omega) (by omega)
  have hscaled : (1000000 : Nat) * 2 ^ (-22 : Int).toNat = 1000000 := by simp
  have hround : roundDouble n 1000000 =
      (nearest (n * 2 ^ (-(-22) : Int).toNat) (1000000 * 2 ^ (-22 : Int).toNat), -22) := by
    rcases Nat.lt_or_ge n (2 ^ 50) with hlow | hhigh
    · have hlog : Nat.log2 n = 49 := log2_eq (by omega) (by omega)
      refine roundDouble_of_log (-22) (-22) hlog hden (by omega) ?_
      rw [if_neg]
      show ¬ n * 2 ^ 22 < 1000000 * 2 ^ 0 * 2 ^ 52
      omega
    · have hlog : Nat.log2 n = 50 := log2_eq (by omega) (by omega)
      refine roundDouble_of_log (-21) (-22) hlog hden (by omega) ?_
      rw [if_pos]
      · rfl
      · show n * 2 ^ 21 < 1000000 * 2 ^ 0 * 2 ^ 52
        omega
  rw [hscaled] at hround
  exact hround

/-- A product of seconds and 1000, from `2 ** 40` on below `2 ** 41`. -/
theorem roundDouble_product {m : Nat} (h : 2 ^ 62 ≤ m * 1000) (h' : m * 1000 < 2 ^ 63) :
    roundDouble (m * 1000 * 2 ^ (-22 : Int).toNat) (2 ^ (-(-22) : Int).toNat) =
      (nearest (m * 1000 * 2 ^ 12) (2 ^ 22), -12) := by
  have hnum : m * 1000 * 2 ^ (-22 : Int).toNat = m * 1000 := by simp
  have hscaled : (2 : Nat) ^ (-(-22) : Int).toNat * 2 ^ (-12 : Int).toNat = 2 ^ 22 := by simp
  have hlog : Nat.log2 (m * 1000) = 62 := log2_eq h h'
  have hden : Nat.log2 (2 ^ (-(-22) : Int).toNat) = 22 :=
    log2_eq (by show 2 ^ 22 ≤ 2 ^ 22; omega) (by show 2 ^ 22 < 2 ^ 23; omega)
  have hround := roundDouble_of_log (-12) (-12) hlog hden (by omega) (by
    rw [if_neg]
    show ¬ m * 1000 * 2 ^ 12 < 2 ^ 22 * 2 ^ 0 * 2 ^ 52
    omega)
  rw [hscaled] at hround
  rw [hnum]
  exact hround

/-- From 3 November 2004 to 19 January 2038 the truncated milliseconds are those of the
    clock. -/
theorem wholeMillis_exact {t : Int} (h : 2 ^ 40 * 1000 ≤ t) (h' : t < 2 ^ 31 * 1000000) :
    wholeMillis t = t / 1000 := by
  have hpos : 0 < t := by omega
  obtain ⟨n, rfl⟩ := Int.eq_ofNat_of_zero_le hpos.le
  obtain ⟨round, hround⟩ : ∃ round, roundDouble = round := ⟨_, rfl⟩
  have hfirst := @roundDouble_seconds n (by omega) (by omega)
  obtain ⟨hm, hm'⟩ := nearest_near (d := 1000000) (by omega) (n * 2 ^ 22)
  generalize nearest (n * 2 ^ 22) 1000000 = m at hfirst hm hm'
  have hsecond := @roundDouble_product m (by omega) (by omega)
  obtain ⟨hp, hp'⟩ := nearest_near (d := 2 ^ 22) (by omega) (m * 1000 * 2 ^ 12)
  generalize nearest (m * 1000 * 2 ^ 12) (2 ^ 22) = p at hsecond hp hp'
  rw [wholeMillis_of_pos hpos hround, Int.sign_eq_one_of_pos hpos]
  rw [hround] at hfirst hsecond
  clear hround
  split
  rename_i m₁ e₁ hround₁
  rw [Int.natAbs_natCast, hfirst, Prod.mk.injEq] at hround₁
  obtain ⟨rfl, rfl⟩ := hround₁
  split
  rename_i m₂ e₂ hround₂
  rw [hsecond, Prod.mk.injEq] at hround₂
  obtain ⟨rfl, rfl⟩ := hround₂
  rw [Int.one_mul]
  show ((p * 2 ^ 0 / 2 ^ 12 : Nat) : Int) = n / 1000
  omega

namespace JobQueue

variable {q q' : JobQueue} {wanted : List JobType} {calls : List QueueCall} {call : QueueCall}

/-! ### The stored score is that of the record -/

/-- Every record is scored by its priority and its creation time. -/
def Scored (q : JobQueue) : Prop :=
  ∀ id job, q.jobs.lookup id = some job →
    q.scores.lookup id = some (queueScore job.priority job.createdAt)

theorem Scored.of_fades (h : q.Scored) (hfades : q.Fades q') (hscores : q'.scores = q.scores) :
    q'.Scored := by
  intro id job hjob
  obtain ⟨old, hold, hwork, -⟩ := hfades id job hjob
  have hpriority : job.priority = old.priority := congrArg Job.Work.priority hwork
  have hcreated : job.createdAt = old.createdAt := congrArg Job.Work.createdAt hwork
  rw [hscores, hpriority, hcreated]
  exact h id old hold

theorem Scored.enqueue (h : q.Scored) (job : Job) : (q.enqueue job).Scored := by
  unfold JobQueue.enqueue
  split
  · exact h
  · intro id record hrecord
    simp only [lookup_insert_ite] at hrecord ⊢
    split
    · rename_i hid
      rw [if_pos hid] at hrecord
      cases hrecord
      rfl
    · rename_i hid
      rw [if_neg hid] at hrecord
      exact h id record hrecord

/-- A publication that is not refused stores its record as queued. -/
theorem lookup_enqueue {job : Job} (h : q.refuses job.id = false) (id : JobId) :
    (q.enqueue job).jobs.lookup id =
      if id = job.id then some { job.rebuild with status := .queued } else q.jobs.lookup id := by
  unfold enqueue
  rw [if_neg (by simp [h])]
  exact lookup_insert_ite _ _ _ _

/-- What two publications store. -/
theorem lookup_enqueue_enqueue (first second : Job) (hfirst : q.refuses first.id = false)
    (hsecond : (q.enqueue first).refuses second.id = false) {id : JobId} {job : Job}
    (h : ((q.enqueue first).enqueue second).jobs.lookup id = some job) :
    (id = second.id ∧ job = { second.rebuild with status := .queued }) ∨
      (id = first.id ∧ job = { first.rebuild with status := .queued }) ∨
      q.jobs.lookup id = some job := by
  rw [lookup_enqueue hsecond, lookup_enqueue hfirst] at h
  split at h
  · rename_i hid
    exact .inl ⟨hid, (Option.some.inj h).symm⟩
  · split at h
    · rename_i hid
      exact .inr (.inl ⟨hid, (Option.some.inj h).symm⟩)
    · exact .inr (.inr h)

theorem claimLoop_scores (wanted : List JobType) (consumer : WorkerId) (duration : Duration)
    (now : Instant) (token : LeaseToken) (rounds : Nat) (q : JobQueue) :
    (claimLoop wanted consumer duration now token rounds q).self.scores = q.scores := by
  induction rounds generalizing q with
  | zero => rfl
  | succ rounds ih =>
    unfold claimLoop
    split
    · rfl
    · rename_i jobType id hnext
      dsimp only
      split
      · exact ih _
      · split
        · unfold grant
          dsimp only
          split <;> rfl
        · exact ih _

theorem Scored.claim (h : q.Scored) (consumer : WorkerId) (jobTypes : List JobType)
    (duration : Duration) (now : Instant) (token : LeaseToken) :
    (q.claim consumer jobTypes duration now token).self.Scored := by
  have hscores : (q.claim consumer jobTypes duration now token).self.scores = q.scores :=
    claimLoop_scores _ _ _ _ _ _ _
  intro id job hjob
  rw [hscores]
  rcases claim_grants q consumer jobTypes duration now token with
    ⟨-, hjobs⟩ | ⟨granted, stored, lease, -, hstored, -, hjobs⟩
  · rw [hjobs] at hjob
    exact h id job hjob
  · rw [hjobs, lookup_insert_ite] at hjob
    split at hjob
    · rename_i hid
      cases hjob
      have hwork := Job.leaseTo_work stored.rebuild consumer now duration token
      have hpriority := congrArg Job.Work.priority hwork
      have hcreated := congrArg Job.Work.createdAt hwork
      rw [hid, h granted stored hstored]
      exact congrArg₂ (fun priority createdAt => some (queueScore priority createdAt))
        hpriority.symm hcreated.symm
    · exact h id job hjob

theorem makeReady_scores {jobType : JobType} {id : JobId} (h : q.makeReady jobType id = .ok q') :
    q'.scores = q.scores := by
  unfold makeReady at h
  split at h
  · cases h
  · cases h
    rfl

theorem renew_scores (q : JobQueue) (id : JobId) (token : LeaseToken) (duration : Duration)
    (now : Instant) : (q.renew id token duration now).self.scores = q.scores := by
  unfold renew
  split
  · rfl
  · dsimp only
    split <;> rfl

theorem acknowledge_scores (q : JobQueue) (id : JobId) (token : LeaseToken) :
    (q.acknowledge id token).scores = q.scores := by
  unfold acknowledge
  split
  · rfl
  · split <;> rfl

theorem release_scores (q : JobQueue) (id : JobId) (token : LeaseToken) (requeue : Bool) :
    (q.release id token requeue).self.scores = q.scores := by
  unfold release
  split
  · rfl
  · split
    · cases requeue with
      | false => rfl
      | true =>
        simp only [if_true]
        split
        · rfl
        · rename_i q' hready
          have hscores := makeReady_scores hready
          exact hscores
    · rfl

theorem reclaimOne_scores (q : JobQueue) (now : Instant) (id : JobId) :
    (q.reclaimOne now id).self.scores = q.scores := by
  unfold reclaimOne
  dsimp only
  split
  · rfl
  · split
    · split
      · rfl
      · split
        · rfl
        · rename_i q' hready
          have hscores := makeReady_scores hready
          exact hscores
    · rfl

theorem reclaimAll_scores (now : Instant) (ids : List JobId) (q : JobQueue) :
    (reclaimAll now ids q).self.scores = q.scores := by
  induction ids generalizing q with
  | nil => rfl
  | cons id rest ih =>
    have hfirst := reclaimOne_scores q now id
    unfold reclaimAll
    simp only
    split
    · exact hfirst
    · split <;> exact (ih _).trans hfirst

theorem cancelAll_scores (ids : List JobId) (q : JobQueue) :
    (cancelAll ids q).1.scores = q.scores := by
  induction ids generalizing q with
  | nil => rfl
  | cons id rest ih =>
    refine (ih _).trans ?_
    unfold cancelOne
    split
    · rfl
    · split <;> rfl

theorem Scored.apply (h : q.Scored) (call : QueueCall) : (call.apply q).1.Scored := by
  cases call with
  | enqueue job => exact h.enqueue job
  | claim consumer jobTypes duration now token => exact h.claim consumer jobTypes duration now token
  | renew id token duration now =>
    exact h.of_fades (renew_fades q id token duration now) (renew_scores q id token duration now)
  | acknowledge id token =>
    exact h.of_fades (acknowledge_fades q id token) (acknowledge_scores q id token)
  | release id token requeue =>
    exact h.of_fades (release_fades q id token requeue) (release_scores q id token requeue)
  | reclaimExpired now limit =>
    exact h.of_fades (reclaimExpired_fades q now _) (reclaimAll_scores now _ q)
  | cancelRunJobs runId =>
    exact h.of_fades (cancelRunJobs_fades q runId) (cancelAll_scores _ q)

theorem scored_empty : JobQueue.empty.Scored := by
  intro id job hjob
  cases hjob

theorem scored_after (calls : List QueueCall) : (JobQueue.empty.after calls).Scored :=
  Runs.after_invariant scored_empty fun _ call h => h.apply call

/-! ### Who waits, and who is first -/

/-- A queued job of a requested type. -/
structure Waiting (q : JobQueue) (wanted : List JobType) (job : Job) : Prop where
  stored : q.jobs.lookup job.id = some job
  requested : job.type ∈ wanted
  queued : job.status = .queued

/-- The place of a job: highest priority, then earliest millisecond, then smallest id. -/
def due (job : Job) : Int ×ₗ (Int ×ₗ List Char) :=
  toLex (-job.priority.rank, toLex (job.createdAt / 1000, job.id.chars))

/-- No waiting job comes before this one. -/
structure First (q : JobQueue) (wanted : List JobType) (job : Job) : Prop where
  waiting : q.Waiting wanted job
  least : ∀ other, q.Waiting wanted other → due job ≤ due other

/-- The creation time lies between the epoch and `10 ** 13` milliseconds after it. -/
structure Admissible (job : Job) : Prop where
  id_uuid : job.id.value < 2 ^ 128
  since_epoch : 0 ≤ job.createdAt
  before_limit : job.createdAt < 10 ^ 16

/-- What a claim promises: a job if and only if one waits, and then the first one; and
    scores that a double holds. -/
structure ClaimsInOrder (q : JobQueue) (wanted : List JobType)
    (answer : Except PyError (Option (Job × Lease))) : Prop where
  found : (∃ job lease, answer = .ok (some (job, lease))) ↔ ∃ job, q.Waiting wanted job
  first : ∀ job lease, answer = .ok (some (job, lease)) →
    ∃ stored, q.First wanted stored ∧ job.work = stored.work
  exact : ∀ id job, q.jobs.lookup id = some job →
    |queueScore job.priority job.createdAt| < 2 ^ 53

/-- The truncated float puts `other` before `first`, of the same priority. -/
def Overtakes (other first : Job) : Prop :=
  other.priority = first.priority ∧
    place other.id (wholeMillis other.createdAt) < place first.id (wholeMillis first.createdAt)

/-! ### Scores -/

theorem rank_injective {left right : Priority} (h : left.rank = right.rank) : left = right := by
  cases left <;> cases right <;> first | rfl | exact absurd h (by decide)

theorem rank_gap {left right : Priority} (h : left.rank < right.rank) :
    left.rank + 10 ≤ right.rank := by
  cases left <;> cases right <;> first | exact absurd h (by decide) | decide

theorem rank_bounds (priority : Priority) : 0 ≤ priority.rank ∧ priority.rank ≤ 30 := by
  cases priority <;> decide

/-- The milliseconds of a time before the limit are less than the distance of two priorities. -/
theorem wholeMillis_lt {t : Int} (h : 0 ≤ t) (hrecent : t < 10 ^ 16) :
    0 ≤ wholeMillis t ∧ wholeMillis t < 10 * priorityBand := by
  obtain ⟨hnonneg, hle⟩ := wholeMillis_bounds h
  unfold priorityBand
  omega

/-- **Scores are exact doubles.** -/
theorem queueScore_lt (priority : Priority) {t : Int} (h : 0 ≤ t) (hrecent : t < 10 ^ 16) :
    |queueScore priority t| < 2 ^ 53 := by
  obtain ⟨hnonneg, hlt⟩ := wholeMillis_lt h hrecent
  obtain ⟨hlow, hhigh⟩ := rank_bounds priority
  unfold queueScore
  unfold priorityBand at hlt ⊢
  rw [abs_lt]
  omega

/-- A higher priority scores lower, whatever the ages. -/
theorem queueScore_lt_of_rank {left right : Job} (hleft : Admissible left)
    (hright : Admissible right) (h : right.priority.rank < left.priority.rank) :
    queueScore left.priority left.createdAt < queueScore right.priority right.createdAt := by
  have hl := wholeMillis_lt hleft.since_epoch hleft.before_limit
  have hr := wholeMillis_lt hright.since_epoch hright.before_limit
  have hgap := rank_gap h
  unfold queueScore
  unfold priorityBand at hl hr ⊢
  omega

/-- Within a priority the score orders as the truncated milliseconds do. -/
theorem place_lt_iff_of_priority {left right : Job} (h : left.priority = right.priority) :
    place left.id (queueScore left.priority left.createdAt) <
        place right.id (queueScore right.priority right.createdAt) ↔
      place left.id (wholeMillis left.createdAt) < place right.id (wholeMillis right.createdAt) := by
  rw [SortedSet.place_lt_iff, SortedSet.place_lt_iff, h]
  unfold queueScore
  simp

/-! ### What the scan finds -/

theorem Waiting.ready (hinv : q.Inv) (hscored : q.Scored) {job : Job} (h : q.Waiting wanted job) :
    (inner q.ready job.type).lookup job.id = some (queueScore job.priority job.createdAt) := by
  have hready := (hinv job.id).ready job h.stored job.type
  rw [if_pos ⟨rfl, h.queued⟩] at hready
  exact hready.trans (hscored job.id job h.stored)

theorem waiting_of_ready (hinv : q.Inv) {jobType : JobType} {id : JobId} {score : Int}
    (hwanted : jobType ∈ wanted) (hready : (inner q.ready jobType).lookup id = some score) :
    ∃ job, q.Waiting wanted job ∧ job.id = id ∧ job.type = jobType := by
  obtain ⟨job, hjob, htype, hqueued⟩ := (hinv.coherent id).of_ready hready
  have hid : job.id = id := (hinv id).keyed job hjob
  refine ⟨job, ⟨?_, htype ▸ hwanted, hqueued⟩, hid, htype⟩
  rw [hid]
  exact hjob

/-- The scan finds the waiting job with the least score and id. -/
theorem nextReady_waiting (hinv : q.Inv) (hscored : q.Scored) {jobType : JobType} {id : JobId}
    (h : q.nextReady wanted = some (jobType, id)) :
    ∃ job, q.Waiting wanted job ∧ job.id = id ∧ job.type = jobType ∧
      ∀ other, q.Waiting wanted other →
        place job.id (queueScore job.priority job.createdAt) ≤
          place other.id (queueScore other.priority other.createdAt) := by
  obtain ⟨score, hforemost⟩ := nextReady_foremost h
  obtain ⟨job, hwaiting, rfl, rfl⟩ := waiting_of_ready hinv hforemost.requested hforemost.ready
  refine ⟨job, hwaiting, rfl, rfl, fun other hother => ?_⟩
  have hscore := hwaiting.ready hinv hscored
  rw [hforemost.ready, Option.some.injEq] at hscore
  have hfirst := hforemost.first other.type hother.requested other.id _
    (hother.ready hinv hscored)
  rw [keyLt_eq_false, hscore] at hfirst
  exact hfirst

theorem no_waiting (hinv : q.Inv) (hscored : q.Scored) (h : q.nextReady wanted = none) :
    ¬ ∃ job, q.Waiting wanted job := by
  rintro ⟨job, hwaiting⟩
  have hready := hwaiting.ready hinv hscored
  rw [nextReady_eq_none h job.type hwaiting.requested job.id] at hready
  cases hready

/-- Where jobs wait, one of them is first. -/
theorem exists_first (hinv : q.Inv) {job : Job} (hwaiting : q.Waiting wanted job) :
    ∃ first, q.First wanted first := by
  have hmem : ∀ other, q.Waiting wanted other ↔ other ∈ (q.jobs.entries.map fun entry =>
      entry.2).filter fun other => decide (other.type ∈ wanted ∧ other.status = .queued) := by
    intro other
    simp only [List.mem_filter, List.mem_map, decide_eq_true_eq]
    constructor
    · intro h
      exact ⟨⟨⟨other.id, other⟩, AList.mem_lookup_iff.mp h.stored, rfl⟩, h.requested, h.queued⟩
    · rintro ⟨⟨⟨id, found⟩, hentry, rfl⟩, hrequested, hqueued⟩
      have hlookup : q.jobs.lookup id = some found := AList.mem_lookup_iff.mpr hentry
      have hid : found.id = id := (hinv id).keyed found hlookup
      refine ⟨?_, hrequested, hqueued⟩
      rw [hid]
      exact hlookup
  rcases hleast : ((q.jobs.entries.map fun entry => entry.2).filter fun other =>
      decide (other.type ∈ wanted ∧ other.status = .queued)).argmin due with _ | first
  · rw [List.argmin_eq_none] at hleast
    have hnone := (hmem job).mp hwaiting
    rw [hleast] at hnone
    cases hnone
  · refine ⟨first, (hmem first).mpr (List.argmin_mem hleast), fun other hother => ?_⟩
    exact List.le_of_mem_argmin ((hmem other).mp hother) hleast

theorem due_le_iff {left right : Job} : due left ≤ due right ↔
    right.priority.rank < left.priority.rank ∨ (left.priority.rank = right.priority.rank ∧
      place left.id (left.createdAt / 1000) ≤ place right.id (right.createdAt / 1000)) := by
  unfold due place SortedSet.place
  rw [Prod.Lex.toLex_le_toLex]
  simp

/-- Where the truncated milliseconds are those of the clock, nobody overtakes. -/
theorem First.not_overtaken {first other : Job} (h : q.First wanted first)
    (hother : q.Waiting wanted other) (hfirst : wholeMillis first.createdAt = first.createdAt / 1000)
    (hexact : wholeMillis other.createdAt = other.createdAt / 1000) : ¬ Overtakes other first := by
  rintro ⟨hpriority, hlt⟩
  rw [hfirst, hexact] at hlt
  rcases due_le_iff.mp (h.least other hother) with hrank | ⟨-, hle⟩
  · rw [hpriority] at hrank
    exact absurd hrank (lt_irrefl _)
  · exact absurd hle (not_le.mpr hlt)

theorem eq_of_chars {left right : Job} (hleft : q.jobs.lookup left.id = some left)
    (hright : q.jobs.lookup right.id = some right) (hl : Admissible left) (hr : Admissible right)
    (h : left.id.chars = right.id.chars) : left = right := by
  rw [EntityId.chars_inj hl.id_uuid hr.id_uuid h, hright] at hleft
  exact (Option.some.inj hleft).symm

/-- The waiting job of least score is the first one, unless the truncated float lets
    another job of its priority overtake the first one. -/
theorem least_first_iff (hinv : q.Inv)
    (hadmissible : ∀ id job, q.jobs.lookup id = some job → Admissible job) {job : Job}
    (hwaiting : q.Waiting wanted job)
    (hleast : ∀ other, q.Waiting wanted other →
      place job.id (queueScore job.priority job.createdAt) ≤
        place other.id (queueScore other.priority other.createdAt)) :
    q.First wanted job ↔ ∀ first, q.First wanted first → ∀ other, q.Waiting wanted other →
      ¬ Overtakes other first := by
  have hsame : ∀ first, q.First wanted first → q.First wanted job → first = job := by
    intro first hfirst hjob
    have hdue := le_antisymm (hfirst.least job hwaiting) (hjob.least first hfirst.waiting)
    unfold due at hdue
    simp only [toLex_inj, Prod.mk.injEq] at hdue
    exact eq_of_chars hfirst.waiting.stored hwaiting.stored
      (hadmissible _ _ hfirst.waiting.stored) (hadmissible _ _ hwaiting.stored) hdue.2.2
  constructor
  · intro hjob first hfirst other hother hovertakes
    obtain rfl := hsame first hfirst hjob
    have hlt := (place_lt_iff_of_priority hovertakes.1).mpr hovertakes.2
    exact absurd (hleast other hother) (not_le.mpr hlt)
  · intro hnone
    obtain ⟨first, hfirst⟩ := exists_first hinv hwaiting
    have hf := hadmissible _ _ hfirst.waiting.stored
    have hj := hadmissible _ _ hwaiting.stored
    have hle := hleast first hfirst.waiting
    have hrank : job.priority = first.priority := by
      apply rank_injective
      rcases due_le_iff.mp (hfirst.least job hwaiting) with hhigher | ⟨hequal, -⟩
      · have hlt := queueScore_lt_of_rank hf hj hhigher
        rw [SortedSet.place_le_iff] at hle
        omega
      · exact hequal.symm
    have hnot : ¬ place job.id (wholeMillis job.createdAt) <
        place first.id (wholeMillis first.createdAt) := fun hlt =>
      hnone first hfirst job hwaiting ⟨hrank, hlt⟩
    have hequal := le_antisymm hle (not_lt.mp fun hlt =>
      hnot ((place_lt_iff_of_priority hrank).mp hlt))
    have hchars : job.id.chars = first.id.chars := by
      unfold place SortedSet.place at hequal
      rw [toLex_inj, Prod.mk.injEq] at hequal
      exact hequal.2
    rw [eq_of_chars hwaiting.stored hfirst.waiting.stored hj hf hchars]
    exact hfirst

/-- A claim at an instant comes in order exactly when no float overtakes. -/
theorem claim_in_order_iff (hinv : q.Inv) (hscored : q.Scored)
    (hadmissible : ∀ id job, q.jobs.lookup id = some job → Admissible job)
    (consumer : WorkerId) (jobTypes : List JobType) {duration : Duration} (hduration : 0 < duration)
    (now : Instant) (token : LeaseToken) :
    q.ClaimsInOrder jobTypes (q.claim consumer jobTypes duration now token).result ↔
      ∀ first, q.First jobTypes first → ∀ other, q.Waiting jobTypes other → ¬ Overtakes other first := by
  have hexact : ∀ id job, q.jobs.lookup id = some job →
      |queueScore job.priority job.createdAt| < 2 ^ 53 := fun id job hjob =>
    queueScore_lt job.priority (hadmissible id job hjob).since_epoch (hadmissible id job hjob).before_limit
  have hdups : ∀ job, q.Waiting jobTypes.eraseDups job ↔ q.Waiting jobTypes job := fun job =>
    ⟨fun h => ⟨h.stored, List.mem_eraseDups.mp h.requested, h.queued⟩,
      fun h => ⟨h.stored, List.mem_eraseDups.mpr h.requested, h.queued⟩⟩
  rcases hnext : q.nextReady jobTypes.eraseDups with _ | ⟨jobType, id⟩
  · have hidle : ¬ ∃ job, q.Waiting jobTypes job := by
      rintro ⟨job, hwaiting⟩
      exact no_waiting hinv hscored hnext ⟨job, (hdups job).mpr hwaiting⟩
    rw [claim_none hnext]
    constructor
    · intro _ first hfirst
      exact absurd ⟨first, hfirst.waiting⟩ hidle
    · intro _
      refine ⟨⟨?_, fun h => absurd h hidle⟩, ?_, hexact⟩
      · rintro ⟨job, lease, hresult⟩
        cases hresult
      · intro job lease hresult
        cases hresult
  · obtain ⟨job, hwaiting, hid, htype, hleast⟩ := nextReady_waiting hinv hscored hnext
    obtain ⟨stored, lease, hstored, -, -, -, hresult, -⟩ :=
      claim_found hinv.coherent consumer hduration now token hnext
    have hsame : stored = job := by
      have hlookup := hwaiting.stored
      rw [hid] at hlookup
      exact Option.some.inj (hstored.symm.trans hlookup)
    subst hsame
    have hwork := Job.leaseTo_work stored.rebuild consumer now duration token
    have hiff := least_first_iff hinv hadmissible ((hdups stored).mp hwaiting)
      fun other hother => hleast other ((hdups other).mpr hother)
    rw [← hiff, hresult]
    constructor
    · intro h
      obtain ⟨first, hfirst, hfirstWork⟩ := h.first _ lease rfl
      have hids : first.id = stored.id := Job.id_of_work (hfirstWork.symm.trans hwork)
      have hlookup := hfirst.waiting.stored
      rw [hids, ((hdups stored).mp hwaiting).stored] at hlookup
      rw [Option.some.inj hlookup]
      exact hfirst
    · intro hfirst
      refine ⟨⟨fun _ => ⟨stored, hfirst.waiting⟩, fun _ => ⟨_, lease, rfl⟩⟩, ?_, hexact⟩
      intro found lease' hfound
      cases hfound
      exact ⟨stored, hfirst, hwork⟩

/-- A claim that finds a job and cannot be granted a lease raises. -/
theorem claimAt_refused (hinv : q.Inv) (consumer : WorkerId) {jobTypes : List JobType}
    {duration : Duration} {now : CallTime} (token : LeaseToken) (hgrants : ¬ now.Grants duration)
    (hnext : q.nextReady jobTypes.eraseDups ≠ none) :
    ∃ e, (q.claimAt consumer jobTypes duration now token).result = .error e := by
  obtain ⟨⟨jobType, id⟩, hnext⟩ := Option.ne_none_iff_exists'.mp hnext
  obtain ⟨-, score, hready⟩ := nextReady_spec hnext
  obtain ⟨stored, hstored, -, hqueued⟩ := (hinv id).coherent.of_ready hready
  have hlookup : q.jobs.lookup id = some stored := hstored
  cases herror : now.leaseError duration with
  | none => exact absurd (CallTime.leaseError_eq_none.mp herror) hgrants
  | some e =>
    refine ⟨e, ?_⟩
    unfold claimAt claimLoopAt
    simp only [hnext, hlookup, hqueued, if_true, grantAt, herror, Call.result_raised]

/-- **Claims come in order exactly when no float overtakes.** In every state the queue
    reaches and for every list of types, a claim finds a job if and only if one waits (and it
    can be granted a lease), and every score is an exact double; the job is the first one if
    and only if no waiting job of its priority gets before the first one by the truncation of
    its creation time. -/
theorem claims_in_order_iff (calls : List TimedCall) (h : JobQueue.empty.Regular calls)
    (hadmissible : ∀ id job, (JobQueue.empty.afterTimed calls).jobs.lookup id = some job →
      Admissible job)
    (consumer : WorkerId) (jobTypes : List JobType) (duration : Duration) (now : CallTime)
    (token : LeaseToken) :
    (JobQueue.empty.afterTimed calls).ClaimsInOrder jobTypes
        ((JobQueue.empty.afterTimed calls).claimAt consumer jobTypes duration now token).result ↔
      ((∃ job, (JobQueue.empty.afterTimed calls).Waiting jobTypes job) → now.Grants duration) ∧
      ∀ first, (JobQueue.empty.afterTimed calls).First jobTypes first →
        ∀ other, (JobQueue.empty.afterTimed calls).Waiting jobTypes other →
          ¬ Overtakes other first := by
  obtain ⟨plain, hplain, hafter⟩ := h.permitted inv_empty
  have hinv : (JobQueue.empty.after plain).Inv := Permitted.inv inv_empty hplain
  have hscored := scored_after plain
  rw [hafter] at hadmissible ⊢
  generalize JobQueue.empty.after plain = q at *
  by_cases hgrants : now.Grants duration
  · rw [claimAt_eq hgrants,
      claim_in_order_iff hinv hscored hadmissible consumer jobTypes hgrants.positive now.instant token]
    exact ⟨fun hfirst => ⟨fun _ => hgrants, hfirst⟩, fun hboth => hboth.2⟩
  · by_cases hwaits : ∃ job, q.Waiting jobTypes job
    · -- the claim raises although a job waits
      have hnext : q.nextReady jobTypes.eraseDups ≠ none := by
        intro hnone
        obtain ⟨job, hwaiting⟩ := hwaits
        exact no_waiting hinv hscored hnone
          ⟨job, hwaiting.stored, List.mem_eraseDups.mpr hwaiting.requested, hwaiting.queued⟩
      obtain ⟨e, hraised⟩ := claimAt_refused hinv consumer token hgrants hnext
      refine iff_of_false (fun hordered => ?_) fun hboth => hgrants (hboth.1 hwaits)
      obtain ⟨job, lease, hfound⟩ := hordered.found.mpr hwaits
      rw [hraised] at hfound
      cases hfound
    · have hidle : ¬ ∃ id job, q.jobs.lookup id = some job ∧ job.type ∈ jobTypes ∧
          job.status = .queued := by
        rintro ⟨id, job, hjob, hrequested, hqueued⟩
        have hkeyed : job.id = id := (hinv id).coherent.keyed job hjob
        subst hkeyed
        exact hwaits ⟨job, hjob, hrequested, hqueued⟩
      rw [claimAt_none (nextReady_idle hinv hidle)]
      refine iff_of_true ⟨⟨?_, fun hwaits' => absurd hwaits' hwaits⟩, ?_, fun id job hjob =>
        queueScore_lt job.priority (hadmissible id job hjob).since_epoch (hadmissible id job hjob).before_limit⟩
        ⟨fun hwaits' => absurd hwaits' hwaits,
          fun first hfirst => absurd ⟨first, hfirst.waiting⟩ hwaits⟩
      · rintro ⟨job, lease, hresult⟩
        cases hresult
      · intro job lease hresult
        cases hresult

end JobQueue

/-! ### A job that is overtaken -/

namespace Sample

/-- A build created at the given time. -/
def buildAt (id : Nat) (createdAt : Instant) : Job :=
  Job.create ⟨id⟩ ⟨2⟩ ⟨1⟩ .build createdAt none (some ⟨5⟩) .high 2 build_needs_no_role count_two

/-- Two builds of July 2026, a millisecond apart. -/
def buildsOf2026 : List TimedCall :=
  [.enqueue (buildAt 7 1784000000001000), .enqueue (buildAt 3 1784000000002000)]

/-- Two builds of January 2038, a millisecond apart. -/
def buildsOf2038 : List TimedCall :=
  [.enqueue (buildAt 7 2147483648001000), .enqueue (buildAt 3 2147483648002000)]

theorem july_in_range :
    0 ≤ (1784000000003000 : Int) + epochWall ∧ (1784000000003000 : Int) + epochWall ≤ maxWall := by
  decide

theorem january_in_range :
    0 ≤ (2147483648003000 : Int) + epochWall ∧ (2147483648003000 : Int) + epochWall ≤ maxWall := by
  decide

end Sample

namespace JobQueue

theorem claims_in_order_iff_sample :
    (JobQueue.empty.afterTimed Sample.buildsOf2026).ClaimsInOrder [.build]
      ((JobQueue.empty.afterTimed Sample.buildsOf2026).claimAt ⟨9⟩ [.build] 60000000
        (Sample.utc 1784000000003000 Sample.july_in_range) Sample.firstToken).result := by
  have hregular : JobQueue.empty.Regular Sample.buildsOf2026 :=
    ⟨⟨⟨rfl, fun _ hstored => by cases hstored⟩, trivial⟩,
      ⟨⟨rfl, fun _ hstored => by cases hstored⟩, trivial⟩, trivial⟩
  have hpositive : (0 : Duration) < 60000000 := by decide
  have hstored : ∀ id job, (JobQueue.empty.afterTimed Sample.buildsOf2026).jobs.lookup id = some job →
      Admissible job ∧ wholeMillis job.createdAt = job.createdAt / 1000 := by
    intro id job hjob
    rcases lookup_enqueue_enqueue (q := JobQueue.empty) (Sample.buildAt 7 1784000000001000) (Sample.buildAt 3 1784000000002000)
        rfl (by decide +kernel) hjob with
      ⟨-, rfl⟩ | ⟨-, rfl⟩ | hnone
    · exact ⟨⟨by decide, by decide, by decide⟩, wholeMillis_exact (by decide) (by decide)⟩
    · exact ⟨⟨by decide, by decide, by decide⟩, wholeMillis_exact (by decide) (by decide)⟩
    · cases hnone
  refine (claims_in_order_iff Sample.buildsOf2026 hregular (fun id job hjob => (hstored id job hjob).1) ⟨9⟩
    [.build] 60000000 (Sample.utc 1784000000003000 Sample.july_in_range) Sample.firstToken).mpr
    ⟨fun _ => ⟨rfl, hpositive, by decide⟩, ?_⟩
  intro first hfirst other hother
  exact hfirst.not_overtaken hother (hstored _ _ hfirst.waiting.stored).2
    (hstored _ _ hother.stored).2

/-- Of two builds the later one is handed out first: its creation time is truncated to the
    millisecond of the other one, and its id is smaller. -/
theorem later_build_claimed_first :
    JobQueue.empty.Regular Sample.buildsOf2038 ∧
      (∀ id job, (JobQueue.empty.afterTimed Sample.buildsOf2038).jobs.lookup id = some job →
        Admissible job) ∧
      ¬ (JobQueue.empty.afterTimed Sample.buildsOf2038).ClaimsInOrder [.build]
        ((JobQueue.empty.afterTimed Sample.buildsOf2038).claimAt ⟨9⟩ [.build] 60000000
          (Sample.utc 2147483648003000 Sample.january_in_range) Sample.firstToken).result := by
  let early : Job := { (Sample.buildAt 7 2147483648001000).rebuild with status := .queued }
  let late : Job := { (Sample.buildAt 3 2147483648002000).rebuild with status := .queued }
  have hlookup : ∀ id job, (JobQueue.empty.afterTimed Sample.buildsOf2038).jobs.lookup id = some job →
      (id = ⟨3⟩ ∧ job = late) ∨ (id = ⟨7⟩ ∧ job = early) := by
    intro id job hjob
    rcases lookup_enqueue_enqueue (q := JobQueue.empty) (Sample.buildAt 7 2147483648001000) (Sample.buildAt 3 2147483648002000)
        rfl (by decide +kernel) hjob with
      hlate | hearly | hnone
    · exact .inl hlate
    · exact .inr hearly
    · cases hnone
  refine ⟨⟨⟨⟨rfl, fun _ hstored => by cases hstored⟩, trivial⟩,
    ⟨⟨rfl, fun _ hstored => by cases hstored⟩, trivial⟩, trivial⟩, ?_, ?_⟩
  · intro id job hjob
    rcases hlookup id job hjob with ⟨-, rfl⟩ | ⟨-, rfl⟩
    · exact ⟨by decide, by decide, by decide⟩
    · exact ⟨by decide, by decide, by decide⟩
  · intro hordered
    have hclaimed : ((JobQueue.empty.afterTimed Sample.buildsOf2038).claimAt ⟨9⟩ [.build] 60000000
        (Sample.utc 2147483648003000 Sample.january_in_range) Sample.firstToken).result.toOption.join.map (fun found => found.1.id) =
        some ⟨3⟩ := by decide +kernel
    obtain ⟨⟨job, lease⟩, hfound, hid⟩ := Option.map_eq_some_iff.mp hclaimed
    rcases hresult : ((JobQueue.empty.afterTimed Sample.buildsOf2038).claimAt ⟨9⟩ [.build] 60000000
        (Sample.utc 2147483648003000 Sample.january_in_range) Sample.firstToken).result with e | answer
    · rw [hresult] at hfound
      cases hfound
    · rw [hresult] at hfound hordered
      have hanswer : answer = some (job, lease) := by simpa [Except.toOption] using hfound
      rw [hanswer] at hordered
      obtain ⟨stored, hfirst, hwork⟩ := hordered.first job lease rfl
      have hstored := hfirst.waiting.stored
      have hwaiting : (JobQueue.empty.afterTimed Sample.buildsOf2038).Waiting [.build] early :=
        ⟨rfl, by decide, rfl⟩
      have hdue := hfirst.least early hwaiting
      rcases hlookup stored.id stored hstored with ⟨-, hlate⟩ | ⟨hseven, -⟩
      · rw [hlate] at hdue
        exact absurd hdue (by decide +kernel)
      · rw [← Job.id_of_work hwork, hid] at hseven
        exact absurd hseven (by decide)

end JobQueue

end AgenticPlatform
