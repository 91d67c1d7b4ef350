import AgenticPlatform.EventDelivery
import Mathlib.Data.List.Induction

/-!
# A full backlog and the end of a stream

A full queue drops its oldest item, and the marker that ends a stream is put into the same
queue right after the event that ends it. With room for two items that event stays; with
room for one the marker always pushes it out, whatever the consumer has read.
-/

namespace AgenticPlatform

/-- What happens to a stream: an event is offered, or its consumer reads an item. -/
inductive StreamMove (E : Type) where
  | offer (event : E)
  | read

namespace EventStream

variable {E : Type}

section Moves

variable (isTerminal : E → Bool) (backlog : Nat)

def step (stream : EventStream E) : StreamMove E → EventStream E
  | .offer event => stream.offer isTerminal backlog event
  | .read => stream.pull

/-- A stream as `subscribe` opens it. -/
def opened (runId : RunId) : EventStream E := ⟨runId, [], false, [], 0⟩

/-- The events offered in a run, in order. -/
def offered : List (StreamMove E) → List E
  | [] => []
  | .offer event :: rest => event :: offered rest
  | .read :: rest => offered rest

def streamAfter (runId : RunId) (moves : List (StreamMove E)) : EventStream E :=
  Runs.after (step isTerminal backlog) (opened runId) moves

/-- The events that the consumer has received. -/
def received (stream : EventStream E) : List E := stream.taken.filterMap id

/-- The consumer reads until nothing waits. -/
def readOn (stream : EventStream E) : EventStream E :=
  Runs.after (step isTerminal backlog) stream (List.replicate stream.queue.length .read)

/-- What a consumer is promised: some of the events in their order, the one that ended the
    stream among them, and then the end. -/
structure KeepsEnd (runId : RunId) (moves : List (StreamMove E)) : Prop where
  in_order : (streamAfter isTerminal backlog runId moves).received.Sublist (offered moves)
  ends : ∀ event, (offered moves).find? isTerminal = some event → ∃ events : List E,
    ((streamAfter isTerminal backlog runId moves).readOn isTerminal backlog).taken =
      events.map some ++ [some event, none]
  last : ∀ before later, (streamAfter isTerminal backlog runId moves).taken =
    before ++ none :: later → later = []

end Moves

variable {isTerminal : E → Bool} {backlog : Nat} {stream : EventStream E} {events : List E}

/-! ### Making room -/

/-- What a put leaves of the queue before it adds its item. -/
def room (backlog : Nat) (queue : List (Option E)) : List (Option E) :=
  if 0 < backlog ∧ backlog ≤ queue.length then queue.tail else queue

theorem put_queue (backlog : Nat) (stream : EventStream E) (item : Option E) :
    (put backlog stream item).queue = room backlog stream.queue ++ [item] := by
  unfold put room
  split <;> rfl

theorem put_taken (backlog : Nat) (stream : EventStream E) (item : Option E) :
    (put backlog stream item).taken = stream.taken := by
  unfold put
  split <;> rfl

theorem room_sublist (backlog : Nat) (queue : List (Option E)) :
    (room backlog queue).Sublist queue := by
  unfold room
  split
  · exact List.tail_sublist queue
  · exact List.Sublist.refl queue

theorem room_length {queue : List (Option E)} (hpos : 0 < backlog) (h : queue.length ≤ backlog) :
    (room backlog queue).length < backlog := by
  unfold room
  split
  · rename_i hfull
    rw [List.length_tail]
    omega
  · omega

/-- Where two items fit, the item put last is not dropped for the next one. -/
theorem room_keeps_last (h : backlog ≠ 1) (queue : List (Option E)) (item : Option E) :
    ∃ kept, room backlog (queue ++ [item]) = kept ++ [item] ∧ kept.Sublist queue := by
  unfold room
  split
  · rename_i hfull
    rcases queue with - | ⟨first, rest⟩
    · simp only [List.nil_append, List.length_singleton] at hfull
      omega
    · exact ⟨rest, rfl, List.sublist_cons_self first rest⟩
  · exact ⟨queue, rfl, List.Sublist.refl queue⟩

/-- Where one item fits, the item put last is dropped for the next one. -/
theorem room_drops_last {queue : List (Option E)} (h : queue.length ≤ 1) (item : Option E) :
    room 1 (room 1 queue ++ [item]) = [] := by
  have hempty := room_length Nat.one_pos h
  rw [List.eq_nil_of_length_eq_zero (Nat.lt_one_iff.mp hempty)]
  rfl

/-! ### What a stream has delivered -/

/-- What a stream that was offered these events has delivered and still holds. -/
structure Tracks (isTerminal : E → Bool) (backlog : Nat) (stream : EventStream E)
    (events : List E) : Prop where
  bounded : 0 < backlog → stream.queue.length ≤ backlog
  running : stream.closed = false → events.find? isTerminal = none ∧
    ∃ kept : List E, kept.Sublist events ∧ stream.seen = kept.map some
  ended : stream.closed = true → ∃ event kept, events.find? isTerminal = some event ∧
    (∀ other ∈ kept, isTerminal other = false) ∧ (kept ++ [event]).Sublist events ∧
      stream.seen = kept.map some ++ if backlog = 1 then [none] else [some event, none]

theorem tracks_opened (runId : RunId) : Tracks isTerminal backlog (opened runId) [] := by
  refine ⟨fun _ => Nat.zero_le _, fun _ => ⟨rfl, [], List.Sublist.refl [], rfl⟩, ?_⟩
  intro hclosed
  cases hclosed

theorem Tracks.pull (h : Tracks isTerminal backlog stream events) :
    Tracks isTerminal backlog stream.pull events := by
  obtain ⟨-, hclosed, -⟩ := pull_rest stream
  have hlength : stream.pull.queue.length ≤ stream.queue.length := by
    unfold EventStream.pull
    split
    · exact Nat.le_refl _
    · rename_i item rest hqueue
      rw [hqueue]
      exact Nat.le_succ _
  refine ⟨fun hpos => Nat.le_trans hlength (h.bounded hpos), ?_, ?_⟩
  · rw [hclosed, pull_seen]
    exact h.running
  · rw [hclosed, pull_seen]
    exact h.ended

/-- Of the events seen so far, a put keeps a part in their order. -/
theorem kept_of_seen {kept : List E} (h : stream.seen = kept.map some)
    {queue : List (Option E)} (hqueue : queue.Sublist stream.queue) :
    ∃ kept' : List E, kept'.Sublist kept ∧ stream.taken ++ queue = kept'.map some := by
  have hsub : (stream.taken ++ queue).Sublist (kept.map some) := by
    rw [← h]
    exact (List.Sublist.refl stream.taken).append hqueue
  obtain ⟨kept', hkept', heq⟩ := List.sublist_map_iff.mp hsub
  exact ⟨kept', hkept', heq⟩

/-- The last event and the end, put one after the other. -/
theorem ending_seen {kept : List E} (hbounded : 0 < backlog → stream.queue.length ≤ backlog)
    (h : stream.seen = kept.map some) (event : E) :
    ∃ kept' : List E, kept'.Sublist kept ∧
      (put backlog { put backlog stream (some event) with closed := true } none).seen =
        kept'.map some ++ if backlog = 1 then [none] else [some event, none] := by
  have hseen : (put backlog { put backlog stream (some event) with closed := true } none).seen =
      stream.taken ++ (room backlog (room backlog stream.queue ++ [some event]) ++ [none]) := by
    unfold seen
    rw [put_taken, put_queue]
    dsimp only
    rw [put_taken, put_queue]
  rw [hseen]
  by_cases hone : backlog = 1
  · subst hone
    obtain ⟨kept', hkept', hall⟩ := kept_of_seen h (List.nil_sublist stream.queue)
    refine ⟨kept', hkept', ?_⟩
    rw [room_drops_last (hbounded Nat.one_pos), if_pos rfl, List.nil_append, ← hall,
      List.append_nil]
  · obtain ⟨rest, hrest, hsub⟩ := room_keeps_last hone (room backlog stream.queue) (some event)
    obtain ⟨kept', hkept', hall⟩ := kept_of_seen h (hsub.trans (room_sublist backlog stream.queue))
    refine ⟨kept', hkept', ?_⟩
    rw [hrest, if_neg hone, ← hall]
    simp

theorem find?_append_none {event : E} (h : events.find? isTerminal = none) :
    (events ++ [event]).find? isTerminal = if isTerminal event then some event else none := by
  rw [List.find?_append, h, Option.none_or]
  cases hevent : isTerminal event with
  | true => simp [hevent]
  | false => simp [hevent]

theorem Tracks.offer (h : Tracks isTerminal backlog stream events) (event : E) :
    Tracks isTerminal backlog (stream.offer isTerminal backlog event) (events ++ [event]) := by
  cases hclosed : stream.closed with
  | true =>
    -- A closed stream ignores the event.
    rw [offer_of_closed hclosed]
    refine ⟨h.bounded, ?_, ?_⟩
    · intro hopen
      rw [hclosed] at hopen
      cases hopen
    · intro _
      obtain ⟨last, kept, hfind, hquiet, hsub, hseen⟩ := h.ended hclosed
      refine ⟨last, kept, ?_, hquiet, hsub.trans (List.sublist_append_left events [event]), hseen⟩
      rw [List.find?_append, hfind, Option.some_or]
  | false =>
    obtain ⟨hfind, kept, hsub, hseen⟩ := h.running hclosed
    have hquiet : ∀ other ∈ events, isTerminal other = false := by
      intro other hother
      simpa using List.find?_eq_none.mp hfind other hother
    obtain ⟨kept', hkept', hroom⟩ := kept_of_seen hseen (room_sublist backlog stream.queue)
    cases hevent : isTerminal event with
    | false =>
      have hoffer : stream.offer isTerminal backlog event = put backlog stream (some event) := by
        unfold EventStream.offer
        rw [if_neg (by simp [hclosed]), if_neg (by simp [hevent])]
      rw [hoffer]
      refine ⟨?_, ?_, ?_⟩
      · intro hpos
        have hlength := room_length hpos (h.bounded hpos)
        rw [put_queue, List.length_append, List.length_singleton]
        omega
      · intro _
        refine ⟨by rw [find?_append_none hfind, if_neg (by simp [hevent])], kept' ++ [event],
          (hkept'.trans hsub).append (List.Sublist.refl _), ?_⟩
        unfold seen
        rw [put_taken, put_queue, ← List.append_assoc, hroom, List.map_append]
        rfl
      · intro hended
        rw [put_closed, hclosed] at hended
        cases hended
    | true =>
      have hoffer : stream.offer isTerminal backlog event =
          put backlog { put backlog stream (some event) with closed := true } none := by
        unfold EventStream.offer
        rw [if_neg (by simp [hclosed]), if_pos hevent]
      rw [hoffer]
      refine ⟨?_, ?_, ?_⟩
      · intro hpos
        have hlength := room_length hpos (h.bounded hpos)
        have hfirst : (put backlog stream (some event)).queue.length ≤ backlog := by
          rw [put_queue, List.length_append, List.length_singleton]
          omega
        have hsecond := room_length hpos hfirst
        rw [put_queue, List.length_append, List.length_singleton]
        dsimp only
        omega
      · intro hopen
        rw [put_closed] at hopen
        cases hopen
      · intro _
        have hend : (events ++ [event]).find? isTerminal = some event := by
          rw [find?_append_none hfind, if_pos hevent]
        obtain ⟨kept', hkept', hended⟩ := ending_seen h.bounded hseen event
        have hsub' := hkept'.trans hsub
        refine ⟨event, kept', hend, ?_, hsub'.append (List.Sublist.refl _), hended⟩
        intro other hother
        exact hquiet other (hsub'.subset hother)

theorem offered_append (moves more : List (StreamMove E)) :
    offered (moves ++ more) = offered moves ++ offered more := by
  induction moves with
  | nil => rfl
  | cons move rest ih =>
    cases move with
    | offer event => exact congrArg (event :: ·) ih
    | read => exact ih

theorem tracks_after (runId : RunId) (moves : List (StreamMove E)) :
    Tracks isTerminal backlog (streamAfter isTerminal backlog runId moves) (offered moves) := by
  induction moves using List.reverseRecOn with
  | nil => exact tracks_opened runId
  | append_singleton moves move ih =>
    unfold streamAfter
    rw [Runs.after_append, offered_append]
    cases move with
    | offer event => exact ih.offer event
    | read =>
      rw [offered, offered, List.append_nil]
      exact ih.pull

/-! ### What the consumer receives -/

theorem readOn_taken (stream : EventStream E) :
    (stream.readOn isTerminal backlog).taken = stream.seen := by
  obtain ⟨runId, queue, closed, taken, dropped⟩ := stream
  unfold readOn
  induction queue generalizing taken with
  | nil => exact (List.append_nil taken).symm
  | cons item rest ih =>
    have hrest := ih (taken ++ [item])
    rw [seen, List.append_assoc] at hrest
    exact hrest

theorem received_sublist {kept : List E} {ending : List (Option E)}
    (h : stream.seen = kept.map some ++ ending) :
    stream.received.Sublist (kept ++ ending.filterMap id) := by
  have hsub : (stream.taken.filterMap id).Sublist (stream.seen.filterMap id) :=
    (List.sublist_append_left stream.taken stream.queue).filterMap id
  have hkept : (kept.map some).filterMap id = kept := by
    rw [List.filterMap_map]
    exact List.filterMap_some
  rw [h, List.filterMap_append, hkept] at hsub
  exact hsub

/-- After the end of what is delivered there is nothing. -/
theorem nothing_later {kept : List E} {before later : List (Option E)}
    (h : kept.map some ++ [none] = before ++ none :: later) : later = [] := by
  induction kept generalizing before with
  | nil =>
    rcases before with - | ⟨first, rest⟩
    · exact (List.cons.inj h).2.symm
    · have hlength := congrArg List.length h
      simp at hlength
  | cons event kept ih =>
    rcases before with - | ⟨first, rest⟩
    · cases (List.cons.inj h).1
    · exact ih (List.cons.inj h).2

/-- What a stream delivers in all, whether or not it has ended. -/
theorem Tracks.seen_eq (h : Tracks isTerminal backlog stream events) :
    ∃ kept ending, stream.seen = kept.map some ++ ending ∧
      (kept ++ ending.filterMap id).Sublist events ∧
      ∀ before later, kept.map some ++ ending = before ++ none :: later → later = [] := by
  cases hclosed : stream.closed with
  | false =>
    obtain ⟨-, kept, hsub, hseen⟩ := h.running hclosed
    refine ⟨kept, [], by rw [hseen, List.append_nil], by simpa using hsub, ?_⟩
    intro before later heq
    have hnone : none ∈ kept.map some := by
      rw [← List.append_nil (kept.map some), heq]
      exact List.mem_append_right before (List.mem_cons_self ..)
    obtain ⟨event, -, hevent⟩ := List.mem_map.mp hnone
    cases hevent
  | true =>
    obtain ⟨event, kept, -, -, hsub, hseen⟩ := h.ended hclosed
    refine ⟨kept, _, hseen, ?_, ?_⟩
    · split
      · have hmarker : kept ++ ([none] : List (Option E)).filterMap id = kept :=
          List.append_nil kept
        rw [hmarker]
        exact (List.sublist_append_left kept [event]).trans hsub
      · exact hsub
    · intro before later heq
      split at heq
      · exact nothing_later heq
      · have hall : (kept ++ [event]).map some ++ [none] = before ++ none :: later := by
          rw [← heq]
          simp
        exact nothing_later hall

/-- A stream that was offered a last event is closed. -/
theorem Tracks.closed_of_find (h : Tracks isTerminal backlog stream events) {event : E}
    (hfind : events.find? isTerminal = some event) : stream.closed = true := by
  cases hclosed : stream.closed with
  | true => rfl
  | false =>
    rw [(h.running hclosed).1] at hfind
    cases hfind

/-- A consumer gets what it is promised exactly where two items fit into the backlog, or
    nothing ends the stream. -/
theorem keeps_end_iff (isTerminal : E → Bool) (backlog : Nat) (runId : RunId)
    (moves : List (StreamMove E)) :
    KeepsEnd isTerminal backlog runId moves ↔
      backlog ≠ 1 ∨ ∀ event ∈ offered moves, isTerminal event = false := by
  have htracks : Tracks isTerminal backlog (streamAfter isTerminal backlog runId moves)
      (offered moves) := tracks_after runId moves
  constructor
  · intro hkeeps
    by_cases hone : backlog = 1
    · right
      rcases hfind : (offered moves).find? isTerminal with - | event
      · intro event hevent
        simpa using List.find?_eq_none.mp hfind event hevent
      · -- The marker has pushed out the event that ended the stream.
        exfalso
        obtain ⟨last, kept, -, hquiet, -, hseen⟩ := htracks.ended (htracks.closed_of_find hfind)
        obtain ⟨events, hends⟩ := hkeeps.ends event hfind
        rw [readOn_taken, hseen, if_pos hone] at hends
        have hsame : kept.map some = events.map some ++ [some event] := by
          have hall : kept.map some ++ [none] = (events.map some ++ [some event]) ++ [none] := by
            rw [hends]
            simp
          exact List.append_cancel_right hall
        have hmem : some event ∈ kept.map some := by
          rw [hsame]
          exact List.mem_append_right _ (List.mem_cons_self ..)
        obtain ⟨other, hother, heq⟩ := List.mem_map.mp hmem
        cases heq
        exact absurd (List.find?_some hfind) (by simp [hquiet event hother])
    · exact Or.inl hone
  · intro hroom
    obtain ⟨kept, ending, hseen, hsub, hlast⟩ := htracks.seen_eq
    refine ⟨(received_sublist hseen).trans hsub, ?_, ?_⟩
    · intro event hfind
      obtain ⟨last, kept', hlastfind, -, -, hall⟩ := htracks.ended (htracks.closed_of_find hfind)
      have hone : backlog ≠ 1 := by
        rcases hroom with hone | hquiet
        · exact hone
        · have hterminal := List.find?_some hfind
          rw [hquiet event (List.mem_of_find?_eq_some hfind)] at hterminal
          cases hterminal
      rw [hfind] at hlastfind
      cases hlastfind
      refine ⟨kept', ?_⟩
      rw [readOn_taken, hall, if_neg hone]
    · intro before later htaken
      have hall : kept.map some ++ ending =
          before ++ none :: (later ++
            (streamAfter isTerminal backlog runId moves).queue) := by
        rw [← hseen, seen, htaken]
        simp
      exact (List.append_eq_nil_iff.mp (hlast _ _ hall)).1

/-- With a backlog of one the consumer gets the end without the event that ended the run. -/
theorem last_event_dropped :
    ¬ KeepsEnd isTerminalForRun 1 ⟨2⟩ [StreamMove.offer Sample.failedFinal, .read] := by
  intro h
  obtain ⟨events, hends⟩ := h.ends Sample.failedFinal rfl
  have hone : ((streamAfter isTerminalForRun 1 ⟨2⟩
      [StreamMove.offer Sample.failedFinal, .read]).readOn isTerminalForRun 1).taken.length = 1 := rfl
  rw [hends, List.length_append, List.length_cons, List.length_singleton] at hone
  omega

end EventStream

end AgenticPlatform
