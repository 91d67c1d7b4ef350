import Mathlib.Data.Prod.Lex
import Mathlib.Data.List.Infix

/-!
# Redis streams

What `XADD`, `PEXPIRE`, `XREVRANGE` and `XREAD` do to the stream under one key. A key that
has expired is gone with its last id, so the next entry gets an id from the clock alone:
ids still grow, because a key never expires in the millisecond of its last entry.
-/

namespace RedisStream

/-- Milliseconds and a sequence number, compared in that order. -/
abbrev EntryId := Nat ×ₗ Nat

def EntryId.ms (id : EntryId) : Nat := (ofLex id).1

def EntryId.seq (id : EntryId) : Nat := (ofLex id).2

/-- The id below all ids, `0-0`. -/
def zero : EntryId := toLex (0, 0)

/-- The value of a key that holds a stream. -/
structure Stream (F : Type) where
  entries : List (EntryId × F)
  lastId : EntryId
  expiresAt : Option Nat

variable {F : Type}

/-- The deadline of the key has not passed. -/
def Stream.Live (now : Nat) (stream : Stream F) : Prop := ∀ deadline ∈ stream.expiresAt, now ≤ deadline

instance (now : Nat) (stream : Stream F) : Decidable (stream.Live now) :=
  inferInstanceAs (Decidable (∀ deadline ∈ stream.expiresAt, now ≤ deadline))

/-- What a command finds under the key. -/
def found (now : Nat) (value : Option (Stream F)) : Option (Stream F) :=
  value.filter fun stream => decide (stream.Live now)

/-- The id of an entry that is added with `*`. -/
def nextId (now : Nat) (last : EntryId) : EntryId :=
  if last.ms < now then toLex (now, 0) else toLex (last.ms, last.seq + 1)

def created : Stream F := ⟨[], zero, none⟩

/-- `XADD key MAXLEN ~ maxlen * fields`: the server may keep more entries than `maxlen`; of
    the surplus it drops the `trim` oldest. -/
def xadd (maxlen trim now : Nat) (fields : F) (value : Option (Stream F)) : Stream F :=
  let stream := (found now value).getD created
  let id := nextId now stream.lastId
  let entries := stream.entries ++ [(id, fields)]
  { stream with entries := entries.drop (min trim (entries.length - maxlen)), lastId := id }

/-- `PEXPIRE key ttl`; a time to live of 0 deletes the key. -/
def pexpire (ttl now : Nat) (value : Option (Stream F)) : Option (Stream F) :=
  if ttl = 0 then none
  else (found now value).map fun stream => { stream with expiresAt := some (now + ttl) }

/-- `XREVRANGE key + - COUNT 1`. -/
def xrevrange (now : Nat) (value : Option (Stream F)) : Option (EntryId × F) :=
  (found now value).bind fun stream => stream.entries.getLast?

/-- The entries above an id. -/
def unread (now : Nat) (value : Option (Stream F)) (after : EntryId) : List (EntryId × F) :=
  ((found now value).elim [] Stream.entries).filter fun entry => decide (after < entry.1)

/-- `XREAD COUNT count STREAMS key after`, once it returns. -/
def xread (count now : Nat) (value : Option (Stream F)) (after : EntryId) : List (EntryId × F) :=
  (unread now value after).take count

/-! ### Ids -/

theorem lt_iff (left right : EntryId) :
    left < right ↔ left.ms < right.ms ∨ left.ms = right.ms ∧ left.seq < right.seq := Prod.Lex.lt_iff

theorem lt_of_ms {left right : EntryId} (h : left.ms < right.ms) : left < right :=
  (lt_iff left right).mpr (.inl h)

theorem ms_le {left right : EntryId} (h : left ≤ right) : left.ms ≤ right.ms := by
  rcases Prod.Lex.le_iff.mp h with hms | ⟨hms, -⟩
  · exact Nat.le_of_lt hms
  · exact Nat.le_of_eq hms

theorem zero_le (id : EntryId) : zero ≤ id := by
  rw [zero, Prod.Lex.le_iff]
  rcases Nat.eq_zero_or_pos id.ms with hms | hms
  · exact .inr ⟨hms.symm, Nat.zero_le _⟩
  · exact .inl hms

theorem lt_nextId (now : Nat) (last : EntryId) : last < nextId now last := by
  unfold nextId
  split
  · rename_i hms
    exact lt_of_ms hms
  · exact (lt_iff _ _).mpr (.inr ⟨rfl, Nat.lt_succ_self _⟩)

theorem nextId_ms {now : Nat} {last : EntryId} (h : last.ms ≤ now) : (nextId now last).ms = now := by
  unfold nextId
  split
  · rfl
  · rename_i hms
    exact Nat.le_antisymm h (Nat.le_of_not_lt hms)

/-! ### The log of a key -/

/-- `log` are all entries that were ever added under the key, which now holds `value`. -/
structure Logged (now : Nat) (log : List (EntryId × F)) (value : Option (Stream F)) : Prop where
  sorted : log.Pairwise fun earlier later => earlier.1 < later.1
  absent : found now value = none → ∀ entry ∈ log, entry.1.ms < now
  present : ∀ stream, found now value = some stream → stream.entries <:+ log ∧
    (∀ entry ∈ log, entry.1 ≤ stream.lastId) ∧ stream.lastId.ms ≤ now ∧
    ∀ deadline ∈ stream.expiresAt, stream.lastId.ms ≤ deadline

/-- A position that a reader may have: the start, or an entry of the log. -/
def Reached (log : List (EntryId × F)) (id : EntryId) : Prop := id = zero ∨ id ∈ log.map Prod.fst

variable {now later maxlen trim ttl : Nat} {log : List (EntryId × F)} {value : Option (Stream F)}
  {fields : F} {after : EntryId}

theorem found_eq_some {stream : Stream F} (h : found now value = some stream) :
    value = some stream ∧ stream.Live now := by
  rw [found, Option.filter_eq_some_iff] at h
  exact ⟨h.1, of_decide_eq_true h.2⟩

theorem found_of_live {stream : Stream F} (h : stream.Live now) : found now (some stream) = some stream :=
  Option.filter_eq_some_iff.mpr ⟨rfl, decide_eq_true h⟩

/-- Time only takes keys away. -/
theorem found_later (h : now ≤ later) (value : Option (Stream F)) :
    found later value = found now value ∨ found later value = none := by
  cases hlater : found later value with
  | none => exact .inr rfl
  | some stream =>
    obtain ⟨rfl, hlive⟩ := found_eq_some hlater
    left
    refine (found_of_live fun deadline hdeadline => ?_).symm
    exact Nat.le_trans h (hlive deadline hdeadline)

theorem logged_nothing (now : Nat) : Logged now ([] : List (EntryId × F)) none := by
  constructor
  · exact .nil
  · intro _ entry hentry
    cases hentry
  · intro stream hfound
    cases hfound

/-- A key expires after the millisecond of its last entry. -/
theorem Logged.tick (h : Logged now log value) (hlater : now ≤ later) : Logged later log value := by
  constructor
  · exact h.sorted
  · intro hgone entry hentry
    cases hfound : found now value with
    | none => exact Nat.lt_of_lt_of_le (h.absent hfound entry hentry) hlater
    | some stream =>
      obtain ⟨-, hlast, -, hexpires⟩ := h.present stream hfound
      have hdead : ¬ stream.Live later := by
        intro hlive
        rw [(found_eq_some hfound).1, found_of_live hlive] at hgone
        cases hgone
      obtain ⟨deadline, hdeadline, hpassed⟩ : ∃ deadline ∈ stream.expiresAt, ¬ later ≤ deadline := by
        by_contra hnone
        push Not at hnone
        exact hdead hnone
      calc entry.1.ms ≤ stream.lastId.ms := ms_le (hlast entry hentry)
        _ ≤ deadline := hexpires deadline hdeadline
        _ < later := Nat.lt_of_not_le hpassed
  · intro stream hfound
    have hbefore : found now value = some stream := by
      rcases found_later hlater value with hsame | hnone
      · rw [← hsame, hfound]
      · rw [hnone] at hfound
        cases hfound
    obtain ⟨hentries, hlast, hms, hexpires⟩ := h.present stream hbefore
    exact ⟨hentries, hlast, Nat.le_trans hms hlater, hexpires⟩

/-- The stream that `XADD` adds to. -/
def current (now : Nat) (value : Option (Stream F)) : Stream F := (found now value).getD created

theorem Logged.next (h : Logged now log value) : (current now value).entries <:+ log ∧
    (∀ entry ∈ log, entry.1 < nextId now (current now value).lastId) ∧
    (nextId now (current now value).lastId).ms = now ∧ (current now value).Live now := by
  unfold current
  cases hfound : found now value with
  | none =>
    refine ⟨List.nil_suffix, fun entry hentry => ?_, ?_, ?_⟩
    · have hms := h.absent hfound entry hentry
      refine lt_of_ms ?_
      rw [nextId_ms (Nat.zero_le _)]
      exact hms
    · exact nextId_ms (Nat.zero_le _)
    · intro deadline hdeadline
      cases hdeadline
  | some stream =>
    obtain ⟨hentries, hlast, hms, -⟩ := h.present stream hfound
    refine ⟨hentries, fun entry hentry => ?_, ?_, (found_eq_some hfound).2⟩
    · exact lt_of_le_of_lt (hlast entry hentry) (lt_nextId now _)
    · exact nextId_ms hms

theorem xadd_eq (maxlen trim now : Nat) (fields : F) (value : Option (Stream F)) :
    xadd maxlen trim now fields value =
      { current now value with
        entries := ((current now value).entries ++ [(nextId now (current now value).lastId, fields)]).drop
          (min trim (((current now value).entries ++ [(nextId now (current now value).lastId, fields)]).length - maxlen))
        lastId := nextId now (current now value).lastId } := rfl

theorem Logged.xadd (h : Logged now log value) (maxlen trim : Nat) (fields : F) :
    Logged now (log ++ [(nextId now (current now value).lastId, fields)])
      (some (xadd maxlen trim now fields value)) := by
  obtain ⟨hentries, hfresh, hms, hlive⟩ := h.next
  have hfound : found now (some (RedisStream.xadd maxlen trim now fields value)) =
      some (RedisStream.xadd maxlen trim now fields value) := found_of_live hlive
  constructor
  · rw [List.pairwise_append]
    refine ⟨h.sorted, List.pairwise_singleton _ _, fun entry hentry new hnew => ?_⟩
    rw [List.mem_singleton.mp hnew]
    exact hfresh entry hentry
  · intro hgone
    rw [hfound] at hgone
    cases hgone
  · intro stream hstream
    rw [hfound, Option.some.injEq] at hstream
    subst hstream
    rw [xadd_eq]
    refine ⟨?_, fun entry hentry => ?_, Nat.le_of_eq hms, fun deadline hdeadline => ?_⟩
    · refine (List.drop_suffix _ _).trans ?_
      exact List.suffix_append_inj_of_length_eq rfl |>.mpr ⟨hentries, rfl⟩
    · rcases List.mem_append.mp hentry with hold | hnew
      · exact le_of_lt (hfresh entry hold)
      · rw [List.mem_singleton.mp hnew]
    · show (nextId now (current now value).lastId).ms ≤ deadline
      rw [hms]
      exact hlive deadline hdeadline

theorem Logged.pexpire (h : Logged now log value) (httl : 0 < ttl) :
    Logged now log (pexpire ttl now value) := by
  unfold RedisStream.pexpire
  rw [if_neg (Nat.ne_of_gt httl)]
  cases hfound : found now value with
  | none =>
    refine ⟨h.sorted, fun _ => h.absent hfound, fun stream hstream => ?_⟩
    cases hstream
  | some stream =>
    obtain ⟨hentries, hlast, hms, -⟩ := h.present stream hfound
    have hlive : found now (some { stream with expiresAt := some (now + ttl) }) =
        some { stream with expiresAt := some (now + ttl) } := by
      refine found_of_live fun deadline hdeadline => ?_
      rw [← Option.mem_some.mp hdeadline]
      exact Nat.le_add_right now ttl
    refine ⟨h.sorted, fun hgone => ?_, fun stream' hstream' => ?_⟩
    · rw [Option.map_some, hlive] at hgone
      cases hgone
    · rw [Option.map_some, hlive, Option.some.injEq] at hstream'
      subst hstream'
      refine ⟨hentries, hlast, hms, fun deadline hdeadline => ?_⟩
      rw [← Option.mem_some.mp hdeadline]
      exact Nat.le_trans hms (Nat.le_add_right now ttl)

/-! ### What a reader has not read -/

theorem Reached.append (h : Reached log after) (more : List (EntryId × F)) :
    Reached (log ++ more) after := by
  rcases h with hzero | hmem
  · exact .inl hzero
  · right
    rw [List.map_append]
    exact List.mem_append_left _ hmem

/-- The next entry is above every position. -/
theorem Logged.reached_lt (h : Logged now log value) (hafter : Reached log after) :
    after < nextId now (current now value).lastId := by
  rcases hafter with rfl | hmem
  · exact lt_of_le_of_lt (zero_le _) (lt_nextId now _)
  · obtain ⟨entry, hentry, rfl⟩ := List.mem_map.mp hmem
    exact h.next.2.1 entry hentry

/-- In the order of ids the entries above a position come last. -/
theorem unread_suffix {entries : List (EntryId × F)}
    (h : entries.Pairwise fun earlier later => earlier.1 < later.1) (after : EntryId) :
    ∃ passed, entries = passed ++ entries.filter (fun entry => decide (after < entry.1)) ∧
      ∀ entry ∈ passed, ¬ after < entry.1 := by
  induction entries with
  | nil => exact ⟨[], rfl, fun entry hentry => nomatch hentry⟩
  | cons first rest ih =>
    rw [List.pairwise_cons] at h
    by_cases hfirst : after < first.1
    · refine ⟨[], ?_, fun entry hentry => nomatch hentry⟩
      rw [List.nil_append, eq_comm, List.filter_eq_self]
      intro entry hentry
      rcases List.mem_cons.mp hentry with rfl | hmem
      · exact decide_eq_true hfirst
      · exact decide_eq_true (lt_trans hfirst (h.1 entry hmem))
    · obtain ⟨passed, hsplit, hpassed⟩ := ih h.2
      refine ⟨first :: passed, ?_, List.forall_mem_cons.mpr ⟨hfirst, hpassed⟩⟩
      rw [List.filter_cons_of_neg (by simpa using hfirst), List.cons_append, ← hsplit]

theorem unread_of_found {stream : Stream F} (h : found now value = some stream) :
    unread now value after = stream.entries.filter fun entry => decide (after < entry.1) := by
  rw [unread, h]
  rfl

theorem unread_current : unread now value after =
    (current now value).entries.filter fun entry => decide (after < entry.1) := by
  unfold unread current
  cases found now value <;> rfl

/-- What the server drops while it adds an entry is the oldest of what is unread, and only if
    that is more than it has to keep. -/
theorem Logged.unread_xadd (h : Logged now log value) (hafter : Reached log after)
    (maxlen trim : Nat) (fields : F) :
    ∃ dropped, RedisStream.unread now (some (RedisStream.xadd maxlen trim now fields value)) after =
        (unread now value after ++ [(nextId now (current now value).lastId, fields)]).drop dropped ∧
      ((unread now value after).length < maxlen → dropped = 0) := by
  obtain ⟨hentries, -, -, hlive⟩ := h.next
  obtain ⟨passed, hsplit, hpassed⟩ := unread_suffix (h.sorted.sublist hentries.sublist) after
  generalize hnew : (nextId now (current now value).lastId, fields) = new
  have hfresh : after < new.1 := by
    rw [← hnew]
    exact h.reached_lt hafter
  have hfound : found now (some (RedisStream.xadd maxlen trim now fields value)) =
      some (RedisStream.xadd maxlen trim now fields value) := found_of_live hlive
  rw [unread_of_found hfound, unread_current, xadd_eq, hnew]
  generalize (current now value).entries = entries at hsplit
  generalize hrest : entries.filter (fun entry => decide (after < entry.1)) = rest at hsplit
  generalize hcut : min trim ((entries ++ [new]).length - maxlen) = cut
  have hpassed' : ∀ entries' : List (EntryId × F), entries' <:+ passed →
      entries'.filter (fun entry => decide (after < entry.1)) = [] := by
    intro entries' hsuffix
    rw [List.filter_eq_nil_iff]
    intro entry hentry
    simpa using hpassed entry (hsuffix.subset hentry)
  have hkept : ∀ dropped, ((rest ++ [new]).drop dropped).filter (fun entry => decide (after < entry.1)) =
      (rest ++ [new]).drop dropped := by
    intro dropped
    rw [List.filter_eq_self]
    intro entry hentry
    rcases List.mem_append.mp (List.mem_of_mem_drop hentry) with hmem | hmem
    · rw [← hrest] at hmem
      exact (List.mem_filter.mp hmem).2
    · rw [List.mem_singleton.mp hmem]
      exact decide_eq_true hfresh
  refine ⟨cut - passed.length, ?_, fun hroom => ?_⟩
  · show ((entries ++ [new]).drop cut).filter _ = _
    rw [hsplit, List.append_assoc, List.drop_append, List.filter_append,
      hpassed' _ (List.drop_suffix _ _), List.nil_append, hkept]
  · rw [hsplit, List.length_append, List.length_append, List.length_singleton] at hcut
    omega

/-- Time takes all of it or nothing. -/
theorem unread_later (h : now ≤ later) (after : EntryId) :
    unread later value after = unread now value after ∨ unread later value after = [] := by
  unfold unread
  rcases found_later h value with hsame | hnone
  · rw [hsame]
    exact .inl rfl
  · rw [hnone]
    exact .inr rfl

theorem unread_of_live (h : ∀ stream, value = some stream → stream.Live later) (hlater : now ≤ later)
    (after : EntryId) : unread later value after = unread now value after := by
  cases value with
  | none => rfl
  | some stream =>
    have hlive := h stream rfl
    have hbefore : stream.Live now := fun deadline hdeadline =>
      Nat.le_trans hlater (hlive deadline hdeadline)
    rw [unread_of_found (found_of_live hlive), unread_of_found (found_of_live hbefore)]

theorem unread_pexpire (httl : 0 < ttl) (after : EntryId) :
    unread now (pexpire ttl now value) after = unread now value after := by
  unfold pexpire
  rw [if_neg (Nat.ne_of_gt httl)]
  cases hfound : found now value with
  | none =>
    have hnothing : found now (none : Option (Stream F)) = none := rfl
    rw [Option.map_none, unread, unread, hnothing, hfound]
  | some stream =>
    rw [Option.map_some, unread_of_found hfound, unread_of_found (found_of_live ?_)]
    intro deadline hdeadline
    rw [← Option.mem_some.mp hdeadline]
    exact Nat.le_add_right now ttl

theorem Logged.unread_suffix (h : Logged now log value) (after : EntryId) :
    unread now value after <:+ log := by
  rw [unread_current]
  have hentries := h.next.1
  obtain ⟨passed, hsplit, -⟩ := RedisStream.unread_suffix (h.sorted.sublist hentries.sublist) after
  exact List.IsSuffix.trans ⟨passed, hsplit.symm⟩ hentries

/-- A position at the newest entry has nothing unread. -/
theorem Logged.unread_latest (h : Logged now log value) :
    unread now value (((xrevrange now value).map Prod.fst).getD zero) = [] ∧
      Reached log (((xrevrange now value).map Prod.fst).getD zero) := by
  unfold xrevrange
  cases hfound : found now value with
  | none =>
    refine ⟨?_, .inl rfl⟩
    rw [unread, hfound]
    rfl
  | some stream =>
    obtain ⟨hentries, -⟩ := h.present stream hfound
    rcases List.eq_nil_or_concat stream.entries with hempty | ⟨older, newest, hconcat⟩
    · rw [unread_of_found hfound, hempty]
      exact ⟨rfl, .inl (by simp [hempty])⟩
    · rw [List.concat_eq_append] at hconcat
      have hsorted := h.sorted.sublist hentries.sublist
      rw [hconcat, List.pairwise_append] at hsorted
      have hlatest : (((some stream).bind fun stream => stream.entries.getLast?).map Prod.fst).getD zero =
          newest.1 := by
        rw [Option.bind_some, hconcat]
        simp
      rw [hlatest, unread_of_found hfound, hconcat]
      refine ⟨?_, .inr ?_⟩
      · rw [List.filter_eq_nil_iff]
        intro entry hentry
        rcases List.mem_append.mp hentry with hold | hnewest
        · simpa using le_of_lt (hsorted.2.2 entry hold newest List.mem_cons_self)
        · rw [List.mem_singleton.mp hnewest]
          simp
      · refine List.mem_map_of_mem (hentries.subset ?_)
        rw [hconcat]
        exact List.mem_append_right _ List.mem_cons_self

/-- After some of what is unread is read, up to an entry of it, the rest is unread. -/
theorem Logged.unread_after (h : Logged now log value) {batch rest : List (EntryId × F)}
    {last : EntryId × F} (hsplit : unread now value after = batch ++ last :: rest) :
    unread now value last.1 = rest ∧ Reached log last.1 := by
  have hsuffix := h.unread_suffix after
  have hsorted := h.sorted.sublist hsuffix.sublist
  rw [hsplit] at hsorted hsuffix
  have hlast : after < last.1 := by
    have hmem : last ∈ unread now value after := by
      rw [hsplit]
      exact List.mem_append_right _ List.mem_cons_self
    rw [unread] at hmem
    exact of_decide_eq_true (List.mem_filter.mp hmem).2
  rw [List.pairwise_append, List.pairwise_cons] at hsorted
  constructor
  · -- what is above the last entry of the batch is above the old position too
    have hagain : unread now value last.1 =
        (unread now value after).filter fun entry => decide (last.1 < entry.1) := by
      rw [unread, unread, List.filter_filter]
      refine List.filter_congr fun entry _ => ?_
      by_cases habove : last.1 < entry.1
      · simp [habove, lt_trans hlast habove]
      · simp [habove]
    have hbatch : batch.filter (fun entry => decide (last.1 < entry.1)) = [] := by
      rw [List.filter_eq_nil_iff]
      intro entry hentry
      simpa using le_of_lt (hsorted.2.2 entry hentry last List.mem_cons_self)
    have hrest : rest.filter (fun entry => decide (last.1 < entry.1)) = rest := by
      rw [List.filter_eq_self]
      intro entry hentry
      exact decide_eq_true (hsorted.2.1.1 entry hentry)
    rw [hagain, hsplit, List.filter_append, hbatch, List.nil_append,
      List.filter_cons_of_neg (by simp), hrest]
  · refine .inr (List.mem_map_of_mem (hsuffix.subset ?_))
    exact List.mem_append_right _ List.mem_cons_self

end RedisStream
