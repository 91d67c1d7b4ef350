import AgenticPlatform.Dict
import AgenticPlatform.RunHistory
import AgenticPlatform.Runs

/-!
# The in-memory event bus

Publishing fans an event out to the streams subscribed to its run; a stream delivers
the event that ends its run and then closes itself. None of this awaits halfway, so each
method is one function of the bus. `taken` and `dropped` are what a stream's subscriber
has pulled so far and how many items the full queue pushed out.
-/

namespace AgenticPlatform

open Dict

/-- `InMemoryRunEventStream`. -/
structure EventStream (E : Type) where
  runId : RunId
  queue : List (Option E)
  closed : Bool
  taken : List (Option E)
  dropped : Nat

namespace EventStream

variable {E : Type} (isTerminal : E → Bool) (backlog : Nat)

/-- `_put`: a full queue drops its oldest item. A backlog of 0 is unbounded. -/
def put (stream : EventStream E) (item : Option E) : EventStream E :=
  if 0 < backlog ∧ backlog ≤ stream.queue.length then
    { stream with queue := stream.queue.tail ++ [item], dropped := stream.dropped + 1 }
  else { stream with queue := stream.queue ++ [item] }

/-- Deliver the event; after the one that ends the run, nothing else will come. -/
def offer (stream : EventStream E) (event : E) : EventStream E :=
  if stream.closed then stream
  else if isTerminal event then
    put backlog { put backlog stream (some event) with closed := true } none
  else put backlog stream (some event)

/-- `__anext__`, once the queue has an item. -/
def pull (stream : EventStream E) : EventStream E :=
  match stream.queue with
  | [] => stream
  | item :: rest => { stream with queue := rest, taken := stream.taken ++ [item] }

/-- What the subscriber gets: what it has pulled, and what waits for it. -/
def seen (stream : EventStream E) : List (Option E) := stream.taken ++ stream.queue

/-- What a stream delivers that closes itself on `isTerminal`; `none` ends it. -/
def closing : List E → List (Option E)
  | [] => []
  | event :: rest => if isTerminal event then [some event, none] else some event :: closing rest

variable {isTerminal backlog}

theorem closing_append (events more : List E) :
    closing isTerminal (events ++ more) =
      if events.any isTerminal then closing isTerminal events
      else closing isTerminal events ++ closing isTerminal more := by
  induction events with
  | nil => rfl
  | cons event rest ih =>
    cases hevent : isTerminal event with
    | true => simp [closing, hevent]
    | false =>
      simp only [List.cons_append, closing, hevent, List.any_cons, Bool.false_or, ih,
        Bool.false_eq_true, if_false]
      split <;> rfl

theorem put_dropped (backlog : Nat) (stream : EventStream E) (item : Option E) :
    stream.dropped ≤ (put backlog stream item).dropped := by
  unfold put
  split
  · exact Nat.le_succ _
  · exact Nat.le_refl _

/-- A put that drops nothing adds its item at the end. -/
theorem put_seen {stream : EventStream E} {item : Option E}
    (h : (put backlog stream item).dropped = stream.dropped) :
    (put backlog stream item).seen = stream.seen ++ [item] := by
  unfold put at h ⊢
  split
  · rename_i hfull
    rw [if_pos hfull] at h
    exact absurd h (Nat.succ_ne_self _)
  · simp [seen]

@[simp] theorem put_closed (stream : EventStream E) (item : Option E) :
    (put backlog stream item).closed = stream.closed := by
  unfold put
  split <;> rfl

@[simp] theorem put_runId (stream : EventStream E) (item : Option E) :
    (put backlog stream item).runId = stream.runId := by
  unfold put
  split <;> rfl

theorem offer_of_closed {stream : EventStream E} (h : stream.closed = true) (event : E) :
    offer isTerminal backlog stream event = stream := by
  unfold offer
  rw [if_pos h]

@[simp] theorem offer_runId (stream : EventStream E) (event : E) :
    (offer isTerminal backlog stream event).runId = stream.runId := by
  unfold offer
  split
  · rfl
  · split <;> simp

theorem offer_closed (stream : EventStream E) (event : E) :
    (offer isTerminal backlog stream event).closed = (stream.closed || isTerminal event) := by
  unfold offer
  cases hclosed : stream.closed with
  | true => simp [hclosed]
  | false =>
    cases hevent : isTerminal event with
    | true => simp
    | false => simp [hclosed]

theorem offer_dropped (stream : EventStream E) (event : E) :
    stream.dropped ≤ (offer isTerminal backlog stream event).dropped := by
  unfold offer
  split
  · exact Nat.le_refl _
  · split
    · refine Nat.le_trans (put_dropped backlog stream (some event)) ?_
      exact put_dropped backlog { put backlog stream (some event) with closed := true } none
    · exact put_dropped backlog stream (some event)

theorem offer_seen {stream : EventStream E} {event : E} (hopen : stream.closed = false)
    (h : (offer isTerminal backlog stream event).dropped = stream.dropped) :
    (offer isTerminal backlog stream event).seen = stream.seen ++ closing isTerminal [event] := by
  unfold offer at h ⊢
  rw [if_neg (by simp [hopen])] at h ⊢
  cases hevent : isTerminal event with
  | false =>
    rw [hevent] at h
    simp only [closing, hevent]
    exact put_seen h
  | true =>
    rw [hevent] at h
    simp only [if_true] at h
    have hfirst := put_dropped backlog stream (some event)
    have hsecond := put_dropped backlog
      { put backlog stream (some event) with closed := true } none
    have hput : (put backlog stream (some event)).dropped = stream.dropped :=
      Nat.le_antisymm (Nat.le_trans hsecond (Nat.le_of_eq h)) hfirst
    simp only [if_true, closing, hevent]
    rw [put_seen (h.trans hput.symm)]
    show (put backlog stream (some event)).seen ++ [none] = _
    rw [put_seen hput]
    simp

@[simp] theorem pull_seen (stream : EventStream E) : stream.pull.seen = stream.seen := by
  unfold pull seen
  split
  · rfl
  · rename_i item rest hqueue
    simp [hqueue]

theorem pull_rest (stream : EventStream E) : stream.pull.runId = stream.runId ∧
    stream.pull.closed = stream.closed ∧ stream.pull.dropped = stream.dropped := by
  unfold pull
  split <;> exact ⟨rfl, rfl, rfl⟩

end EventStream

/-- `InMemoryEventBus`; a stream is known by its place among all streams ever opened. -/
structure EventBus (E : Type) where
  backlog : Nat
  streams : List (EventStream E)
  subscribers : Dict RunId (List Nat)

namespace EventBus

variable {E : Type} (runIdOf : E → Option RunId) (isTerminal : E → Bool)

def empty (backlog : Nat) : EventBus E := ⟨backlog, [], ∅⟩

def subscribed (bus : EventBus E) (runId : RunId) : List Nat := (bus.subscribers.lookup runId).getD []

/-- `_unsubscribe`. -/
def unsubscribe (bus : EventBus E) (runId : RunId) (index : Nat) : EventBus E :=
  match bus.subscribers.lookup runId with
  | none => bus
  | some indices =>
      let rest := indices.erase index
      { bus with subscribers :=
          if rest = [] then bus.subscribers.erase runId else bus.subscribers.insert runId rest }

/-- One stream is offered the event, and leaves the bus if that ends it. -/
def offerTo (event : E) (bus : EventBus E) (index : Nat) : EventBus E :=
  match bus.streams[index]? with
  | none => bus
  | some stream =>
      let offered := { bus with
        streams := bus.streams.set index (stream.offer isTerminal bus.backlog event) }
      if stream.closed = false ∧ isTerminal event = true then
        offered.unsubscribe stream.runId index
      else offered

def publishOne (bus : EventBus E) (event : E) : EventBus E :=
  match runIdOf event with
  | none => bus
  | some runId => (bus.subscribed runId).foldl (offerTo isTerminal event) bus

/-- Publish a batch. -/
def publish (bus : EventBus E) (events : List E) : EventBus E :=
  events.foldl (publishOne runIdOf isTerminal) bus

/-- Stream events for one run, starting from now. -/
def subscribe (bus : EventBus E) (runId : RunId) : EventBus E :=
  { bus with
    streams := bus.streams ++ [⟨runId, [], false, [], 0⟩]
    subscribers := bus.subscribers.insert runId (bus.subscribed runId ++ [bus.streams.length]) }

/-- A subscriber takes its next item. -/
def pull (bus : EventBus E) (index : Nat) : EventBus E :=
  { bus with streams := bus.streams.modify index EventStream.pull }

/-- A subscriber leaves. -/
def aclose (bus : EventBus E) (index : Nat) : EventBus E :=
  match bus.streams[index]? with
  | none => bus
  | some stream =>
      ({ bus with
        streams := bus.streams.set index
          (({ stream with closed := true } : EventStream E).put bus.backlog none) }).unsubscribe
        stream.runId index

/-! ### Who is subscribed -/

/-- The bus fans an event out to the open streams of its run, once to each. -/
structure Listed (bus : EventBus E) : Prop where
  nodup : ∀ runId, (bus.subscribed runId).Nodup
  mem : ∀ runId index, index ∈ bus.subscribed runId ↔
    ∃ stream, bus.streams[index]? = some stream ∧ stream.runId = runId ∧ stream.closed = false

theorem subscribed_unsubscribe (bus : EventBus E) (runId runId' : RunId) (index : Nat) :
    (bus.unsubscribe runId index).subscribed runId' =
      if runId' = runId then (bus.subscribed runId').erase index else bus.subscribed runId' := by
  unfold unsubscribe subscribed
  cases hfound : bus.subscribers.lookup runId with
  | none =>
    by_cases hid : runId' = runId
    · subst hid
      simp [hfound]
    · simp [hid]
  | some indices =>
    by_cases hid : runId' = runId
    · subst hid
      simp only [if_true, hfound, Option.getD_some]
      split
      · rename_i hempty
        rw [lookup_erase_ite, if_pos rfl, hempty]
        rfl
      · rw [lookup_insert_ite, if_pos rfl]
        rfl
    · rw [if_neg hid]
      simp only
      split
      · rw [lookup_erase_ite, if_neg hid]
      · rw [lookup_insert_ite, if_neg hid]

@[simp] theorem unsubscribe_streams (bus : EventBus E) (runId : RunId) (index : Nat) :
    (bus.unsubscribe runId index).streams = bus.streams := by
  unfold unsubscribe
  split <;> rfl

@[simp] theorem unsubscribe_backlog (bus : EventBus E) (runId : RunId) (index : Nat) :
    (bus.unsubscribe runId index).backlog = bus.backlog := by
  unfold unsubscribe
  split <;> rfl

variable {runIdOf isTerminal}

theorem getElem?_set_of_some {α : Type} {l : List α} {index : Nat} {old : α}
    (h : l[index]? = some old) (new : α) (index' : Nat) :
    (l.set index new)[index']? = if index' = index then some new else l[index']? := by
  have hlt : index < l.length := (List.getElem?_eq_some_iff.mp h).1
  rw [List.getElem?_set]
  by_cases hindex : index' = index
  · rw [if_pos hindex.symm, if_pos hlt, if_pos hindex]
  · rw [if_neg (Ne.symm hindex), if_neg hindex]

theorem offerTo_streams (bus : EventBus E) (event : E) (index index' : Nat) :
    (offerTo isTerminal event bus index).streams[index']? =
      if index' = index then
        (bus.streams[index']?).map fun stream => stream.offer isTerminal bus.backlog event
      else bus.streams[index']? := by
  unfold offerTo
  cases hstream : bus.streams[index]? with
  | none =>
    by_cases hindex : index' = index
    · simp [hindex, hstream]
    · simp [hindex]
  | some stream =>
    have hset := getElem?_set_of_some hstream (stream.offer isTerminal bus.backlog event) index'
    have hgoal : (bus.streams.set index (stream.offer isTerminal bus.backlog event))[index']? =
        if index' = index then
          (bus.streams[index']?).map fun stream => stream.offer isTerminal bus.backlog event
        else bus.streams[index']? := by
      rw [hset]
      by_cases hindex : index' = index
      · simp [hindex, hstream]
      · simp [hindex]
    dsimp only
    split
    · rw [unsubscribe_streams]
      exact hgoal
    · exact hgoal

@[simp] theorem offerTo_backlog (bus : EventBus E) (event : E) (index : Nat) :
    (offerTo isTerminal event bus index).backlog = bus.backlog := by
  unfold offerTo
  split
  · rfl
  · dsimp only
    split
    · rw [unsubscribe_backlog]
    · rfl

/-- Each subscribed stream is offered the event once. -/
theorem offerAll_streams {indices : List Nat} (hnodup : indices.Nodup) (bus : EventBus E)
    (event : E) (index : Nat) :
    (indices.foldl (offerTo isTerminal event) bus).streams[index]? =
      if index ∈ indices then
        (bus.streams[index]?).map fun stream => stream.offer isTerminal bus.backlog event
      else bus.streams[index]? := by
  induction indices generalizing bus with
  | nil => simp
  | cons first rest ih =>
    rw [List.nodup_cons] at hnodup
    rw [List.foldl_cons, ih hnodup.2, offerTo_streams, offerTo_backlog]
    by_cases hfirst : index = first
    · subst hfirst
      simp [hnodup.1]
    · simp [hfirst]

theorem Listed.unsubscribe_of_closed (bus : EventBus E) (hnodup : ∀ runId, (bus.subscribed runId).Nodup)
    {index : Nat} {stream : EventStream E} (hstream : bus.streams[index]? = some stream)
    (hclosed : stream.closed = true)
    (hmem : ∀ runId other, (other = index → runId ≠ stream.runId) →
      (other ∈ bus.subscribed runId ↔ ∃ stream, bus.streams[other]? = some stream ∧
        stream.runId = runId ∧ stream.closed = false)) :
    (bus.unsubscribe stream.runId index).Listed := by
  constructor
  · intro runId
    rw [subscribed_unsubscribe]
    split
    · exact (hnodup runId).erase index
    · exact hnodup runId
  · intro runId other
    rw [subscribed_unsubscribe, unsubscribe_streams]
    by_cases hother : other = index ∧ runId = stream.runId
    · obtain ⟨rfl, rfl⟩ := hother
      rw [if_pos rfl, (hnodup stream.runId).mem_erase_iff, hstream]
      simp [hclosed]
    · have hne : other = index → runId ≠ stream.runId := fun hindex hrun => hother ⟨hindex, hrun⟩
      rw [← hmem runId other hne]
      split
      · rename_i hrun
        rw [(hnodup runId).mem_erase_iff]
        exact ⟨fun h => h.2, fun h => ⟨fun hindex => hne hindex hrun, h⟩⟩
      · rfl

theorem Listed.offerTo {bus : EventBus E} (h : bus.Listed) (event : E) (index : Nat) :
    (offerTo isTerminal event bus index).Listed := by
  unfold EventBus.offerTo
  cases hstream : bus.streams[index]? with
  | none => exact h
  | some stream =>
    have hset := getElem?_set_of_some hstream (stream.offer isTerminal bus.backlog event)
    dsimp only
    split
    · rename_i hends
      -- the stream ends here: it is closed, and taken off the list of its run
      have hrun : (stream.offer isTerminal bus.backlog event).runId = stream.runId :=
        EventStream.offer_runId stream event
      rw [← hrun]
      refine Listed.unsubscribe_of_closed
        { bus with streams := bus.streams.set index (stream.offer isTerminal bus.backlog event) }
        h.nodup ((hset index).trans (if_pos rfl)) ?_ ?_
      · rw [EventStream.offer_closed, hends.2, Bool.or_true]
      · intro runId other hne
        show other ∈ bus.subscribed runId ↔ ∃ stream', (bus.streams.set index _)[other]? = some stream' ∧ _
        rw [h.mem, hset]
        by_cases hindex : other = index
        · subst hindex
          have hother : ¬ stream.runId = runId := fun heq => hne rfl (heq.symm.trans hrun.symm)
          simp [hstream, hother]
        · rw [if_neg hindex]
    · rename_i hkeeps
      -- otherwise the stream is as open as before
      have hclosed : (stream.offer isTerminal bus.backlog event).closed = stream.closed := by
        rw [EventStream.offer_closed]
        cases hc : stream.closed with
        | true => rfl
        | false =>
          cases ht : isTerminal event with
          | false => rfl
          | true => exact absurd ⟨hc, ht⟩ hkeeps
      refine ⟨h.nodup, fun runId other => ?_⟩
      show other ∈ bus.subscribed runId ↔ ∃ stream', (bus.streams.set index _)[other]? = some stream' ∧ _
      rw [h.mem, hset]
      by_cases hindex : other = index
      · subst hindex
        simp [hstream, hclosed]
      · rw [if_neg hindex]

theorem Listed.publishOne {bus : EventBus E} (h : bus.Listed) (event : E) :
    (publishOne runIdOf isTerminal bus event).Listed := by
  unfold EventBus.publishOne
  split
  · exact h
  · rename_i runId hrun
    generalize bus.subscribed runId = indices
    induction indices generalizing bus with
    | nil => exact h
    | cons index rest ih => exact ih (h.offerTo event index)

/-- An event reaches every stream of its run; a closed one is deaf to it anyway. -/
theorem publishOne_streams {bus : EventBus E} (h : bus.Listed) (event : E) (index : Nat) :
    (publishOne runIdOf isTerminal bus event).streams[index]? =
      (bus.streams[index]?).map fun stream =>
        if runIdOf event = some stream.runId then stream.offer isTerminal bus.backlog event
        else stream := by
  unfold publishOne
  cases hrun : runIdOf event with
  | none => cases bus.streams[index]? <;> simp
  | some runId =>
    simp only
    rw [offerAll_streams (h.nodup runId)]
    cases hstream : bus.streams[index]? with
    | none => simp
    | some stream =>
      simp only [Option.map_some, Option.some.injEq]
      by_cases hid : runId = stream.runId
      · subst hid
        simp only [if_true]
        split
        · rfl
        · rename_i hnot
          have hclosed : stream.closed = true := by
            cases hc : stream.closed with
            | true => rfl
            | false => exact absurd ((h.mem _ _).mpr ⟨stream, hstream, rfl, hc⟩) hnot
          rw [EventStream.offer_of_closed hclosed]
      · rw [if_neg hid, if_neg]
        intro hmem
        obtain ⟨stream', hstream', hid', -⟩ := (h.mem _ _).mp hmem
        rw [hstream, Option.some.injEq] at hstream'
        subst hstream'
        exact hid hid'.symm

/-! ### Moves -/

theorem listed_empty (backlog : Nat) : (empty backlog : EventBus E).Listed := by
  constructor
  · intro runId
    exact List.nodup_nil
  · intro runId index
    simp [subscribed, empty]

theorem Listed.publish {bus : EventBus E} (h : bus.Listed) (events : List E) :
    (publish runIdOf isTerminal bus events).Listed := by
  unfold EventBus.publish
  induction events generalizing bus with
  | nil => exact h
  | cons event rest ih => exact ih (h.publishOne event)

theorem Listed.subscribe {bus : EventBus E} (h : bus.Listed) (runId : RunId) :
    (bus.subscribe runId).Listed := by
  have hfresh : ∀ other, bus.streams.length ∉ bus.subscribed other := by
    intro other hmem
    obtain ⟨stream, hstream, -⟩ := (h.mem other _).mp hmem
    have hlt := (List.getElem?_eq_some_iff.mp hstream).1
    exact absurd hlt (Nat.lt_irrefl _)
  have hlist : ∀ other, (bus.subscribe runId).subscribed other =
      if other = runId then bus.subscribed other ++ [bus.streams.length]
      else bus.subscribed other := by
    intro other
    unfold EventBus.subscribe subscribed
    simp only [lookup_insert_ite]
    split
    · rename_i heq
      rw [heq]
      rfl
    · rfl
  constructor
  · intro other
    rw [hlist]
    split
    · refine List.Nodup.append (h.nodup other) (List.nodup_singleton _) ?_
      intro index hmem hnew
      rw [List.mem_singleton.mp hnew] at hmem
      exact hfresh other hmem
    · exact h.nodup other
  · intro other index
    have hstreams : (bus.subscribe runId).streams[index]? =
        if index = bus.streams.length then some ⟨runId, [], false, [], 0⟩ else bus.streams[index]? := by
      show (bus.streams ++ [_])[index]? = _
      by_cases hindex : index = bus.streams.length
      · simp [hindex]
      · rw [if_neg hindex, List.getElem?_append]
        split
        · rfl
        · rename_i hge
          have hlarge : ¬ index < bus.streams.length := hge
          rw [List.getElem?_eq_none (by simp; omega), List.getElem?_eq_none (by omega)]
    rw [hlist, hstreams]
    by_cases hindex : index = bus.streams.length
    · subst hindex
      have hnot := hfresh other
      by_cases hrun : other = runId
      · simp [hrun]
      · simp [hrun, hnot, Ne.symm hrun]
    · rw [if_neg hindex, ← h.mem]
      split
      · simp [hindex]
      · rfl

theorem pull_streams (bus : EventBus E) (index index' : Nat) :
    (bus.pull index).streams[index']? =
      (bus.streams[index']?).map fun stream => if index' = index then stream.pull else stream := by
  show (bus.streams.modify index EventStream.pull)[index']? = _
  rw [List.getElem?_modify]
  by_cases hindex : index' = index
  · simp [hindex]
  · cases bus.streams[index']? <;> simp [hindex, Ne.symm hindex]

theorem Listed.pull {bus : EventBus E} (h : bus.Listed) (index : Nat) : (bus.pull index).Listed := by
  refine ⟨h.nodup, fun runId other => ?_⟩
  show other ∈ bus.subscribed runId ↔ _
  rw [h.mem, pull_streams]
  cases hstream : bus.streams[other]? with
  | none => simp
  | some stream =>
    obtain ⟨hrun, hclosed, -⟩ := EventStream.pull_rest stream
    by_cases hindex : other = index
    · simp [hindex, hrun, hclosed]
    · simp [hindex]

theorem aclose_streams (bus : EventBus E) {index index' : Nat} (h : index' ≠ index) :
    (bus.aclose index).streams[index']? = bus.streams[index']? := by
  unfold aclose
  cases hstream : bus.streams[index]? with
  | none => rfl
  | some stream =>
    simp only [unsubscribe_streams]
    rw [getElem?_set_of_some hstream, if_neg h]

theorem Listed.aclose {bus : EventBus E} (h : bus.Listed) (index : Nat) :
    (bus.aclose index).Listed := by
  unfold EventBus.aclose
  cases hstream : bus.streams[index]? with
  | none => exact h
  | some stream =>
    dsimp only
    generalize hended : ({ stream with closed := true } : EventStream E).put bus.backlog none = ended
    have hrun : ended.runId = stream.runId := by
      rw [← hended]
      exact EventStream.put_runId _ _
    have hclosed : ended.closed = true := by
      rw [← hended]
      exact EventStream.put_closed _ _
    have hset := getElem?_set_of_some hstream ended
    rw [← hrun]
    refine Listed.unsubscribe_of_closed { bus with streams := bus.streams.set index ended } h.nodup
      ((hset index).trans (if_pos rfl)) hclosed ?_
    intro runId other hne
    show other ∈ bus.subscribed runId ↔ ∃ stream', (bus.streams.set index ended)[other]? = some stream' ∧ _
    rw [h.mem, hset]
    by_cases hindex : other = index
    · subst hindex
      have hother : ¬ stream.runId = runId := fun heq => hne rfl (heq.symm.trans hrun.symm)
      simp [hstream, hother, hclosed]
    · rw [if_neg hindex]

end EventBus

/-- What happens to a bus. -/
inductive BusMove (E : Type) where
  | publish (events : List E)
  | subscribe (runId : RunId)
  | pull (index : Nat)
  | aclose (index : Nat)

namespace EventBus

variable {E : Type} (runIdOf : E → Option RunId) (isTerminal : E → Bool)

def step (bus : EventBus E) : BusMove E → EventBus E
  | .publish events => publish runIdOf isTerminal bus events
  | .subscribe runId => bus.subscribe runId
  | .pull index => bus.pull index
  | .aclose index => bus.aclose index

/-- The bus a run of moves leads to. -/
abbrev after (bus : EventBus E) (moves : List (BusMove E)) : EventBus E :=
  Runs.after (step runIdOf isTerminal) bus moves

/-- The events of one run in a batch. -/
def addressed (runId : RunId) (events : List E) : List E :=
  events.filter fun event => decide (runIdOf event = some runId)

/-- The events of one run that are published, in order. -/
def traffic (runId : RunId) : List (BusMove E) → List E
  | [] => []
  | .publish events :: rest => addressed runIdOf runId events ++ traffic runId rest
  | _ :: rest => traffic runId rest

variable {runIdOf isTerminal} {bus : EventBus E}

theorem Listed.step (h : bus.Listed) (move : BusMove E) : (bus.step runIdOf isTerminal move).Listed := by
  cases move with
  | publish events => exact h.publish events
  | subscribe runId => exact h.subscribe runId
  | pull index => exact h.pull index
  | aclose index => exact h.aclose index

theorem Listed.after (h : bus.Listed) (moves : List (BusMove E)) :
    (bus.after runIdOf isTerminal moves).Listed := by
  induction moves generalizing bus with
  | nil => exact h
  | cons move rest ih => exact ih (h.step move)

end EventBus

/-! ### What a stream delivers -/

namespace EventStream

variable {E : Type} {isTerminal : E → Bool} {backlog : Nat} {stream : EventStream E} {events : List E}

/-- The stream was offered these events since it was opened. -/
structure Follows (isTerminal : E → Bool) (stream : EventStream E) (events : List E) : Prop where
  closed : stream.closed = events.any isTerminal
  seen : stream.dropped = 0 → stream.seen = closing isTerminal events

theorem Follows.offer (h : Follows isTerminal stream events) (event : E) :
    Follows isTerminal (offer isTerminal backlog stream event) (events ++ [event]) := by
  constructor
  · rw [offer_closed, h.closed]
    simp
  · intro hdropped
    have hzero : stream.dropped = 0 :=
      Nat.eq_zero_of_le_zero (hdropped ▸ offer_dropped stream event)
    rw [closing_append, ← h.closed]
    cases hclosed : stream.closed with
    | true => simp [offer_of_closed hclosed, h.seen hzero]
    | false => rw [offer_seen hclosed (hdropped.trans hzero.symm), h.seen hzero]; simp

theorem Follows.pull (h : Follows isTerminal stream events) : Follows isTerminal stream.pull events := by
  obtain ⟨-, hclosed, hdropped⟩ := pull_rest stream
  constructor
  · rw [hclosed, h.closed]
  · rw [hdropped, pull_seen]
    exact h.seen

theorem follows_opened (isTerminal : E → Bool) (runId : RunId) :
    Follows isTerminal ⟨runId, [], false, [], 0⟩ [] := ⟨rfl, fun _ => rfl⟩

end EventStream

namespace EventBus

variable {E : Type} {runIdOf : E → Option RunId} {isTerminal : E → Bool} {bus : EventBus E}
  {index : Nat} {runId : RunId} {offered : List E}

/-- The stream at this place follows the run, and was offered these events. -/
def Serves (isTerminal : E → Bool) (bus : EventBus E) (index : Nat) (runId : RunId)
    (offered : List E) : Prop :=
  ∃ stream, bus.streams[index]? = some stream ∧ stream.runId = runId ∧
    stream.Follows isTerminal offered

theorem Serves.publish (h : bus.Serves isTerminal index runId offered) (hlisted : bus.Listed)
    (events : List E) : (publish runIdOf isTerminal bus events).Serves isTerminal index runId
      (offered ++ addressed runIdOf runId events) := by
  unfold EventBus.publish
  induction events generalizing bus offered with
  | nil => simpa [addressed] using h
  | cons event rest ih =>
    obtain ⟨stream, hstream, hrun, hfollows⟩ := h
    have hnext : (publishOne runIdOf isTerminal bus event).Serves isTerminal index runId
        (offered ++ addressed runIdOf runId [event]) := by
      refine ⟨_, (publishOne_streams hlisted event index).trans (by rw [hstream]; rfl), ?_, ?_⟩
      · dsimp only
        split <;> simp [hrun]
      · dsimp only
        rw [hrun]
        by_cases haddressed : runIdOf event = some runId
        · simp only [addressed, haddressed, if_true, decide_true, List.filter_cons_of_pos,
            List.filter_nil]
          exact hfollows.offer event
        · simpa [addressed, haddressed] using hfollows
    have hsplit : offered ++ addressed runIdOf runId (event :: rest) =
        offered ++ addressed runIdOf runId [event] ++ addressed runIdOf runId rest := by
      simp [addressed, List.filter_cons]
      split <;> simp
    rw [hsplit, List.foldl_cons]
    exact ih hnext (hlisted.publishOne event)

theorem Serves.step (h : bus.Serves isTerminal index runId offered) (hlisted : bus.Listed)
    {move : BusMove E} (hstays : move ≠ .aclose index) :
    (bus.step runIdOf isTerminal move).Serves isTerminal index runId
      (offered ++ traffic runIdOf runId [move]) := by
  cases move with
  | publish events =>
    simpa [traffic, EventBus.step] using h.publish hlisted events
  | subscribe other =>
    obtain ⟨stream, hstream, hrun, hfollows⟩ := h
    have hlt := (List.getElem?_eq_some_iff.mp hstream).1
    refine ⟨stream, ?_, hrun, by simpa [traffic] using hfollows⟩
    show (bus.streams ++ [_])[index]? = some stream
    rw [List.getElem?_append_left hlt]
    exact hstream
  | pull other =>
    obtain ⟨stream, hstream, hrun, hfollows⟩ := h
    refine ⟨_, (pull_streams bus other index).trans (by rw [hstream]; rfl), ?_, ?_⟩
    · dsimp only
      split
      · exact (EventStream.pull_rest stream).1.trans hrun
      · exact hrun
    · dsimp only
      simp only [traffic, List.append_nil]
      split
      · exact hfollows.pull
      · exact hfollows
  | aclose other =>
    obtain ⟨stream, hstream, hrun, hfollows⟩ := h
    have hother : index ≠ other := fun heq => hstays (by rw [heq])
    refine ⟨stream, ?_, hrun, by simpa [traffic] using hfollows⟩
    show (bus.aclose other).streams[index]? = some stream
    rw [aclose_streams bus hother]
    exact hstream

theorem Serves.after (h : bus.Serves isTerminal index runId offered) (hlisted : bus.Listed)
    {moves : List (BusMove E)} (hstays : ∀ move ∈ moves, move ≠ .aclose index) :
    (bus.after runIdOf isTerminal moves).Serves isTerminal index runId
      (offered ++ traffic runIdOf runId moves) := by
  induction moves generalizing bus offered with
  | nil => simpa [traffic] using h
  | cons move rest ih =>
    have hnext : (bus.step runIdOf isTerminal move).Serves isTerminal index runId
        (offered ++ traffic runIdOf runId [move]) := h.step hlisted (hstays move List.mem_cons_self)
    have hrest := ih hnext (hlisted.step move) fun other hmem => hstays other (List.mem_cons_of_mem _ hmem)
    have hsplit : traffic runIdOf runId (move :: rest) =
        traffic runIdOf runId [move] ++ traffic runIdOf runId rest := by
      cases move <;> simp [traffic]
    rw [hsplit, ← List.append_assoc]
    exact hrest

/-! ### What a subscriber has pulled stays pulled -/

/-- Nothing that was pulled is taken back, and drops are not forgotten. -/
def Grows (stream stream' : EventStream E) : Prop :=
  stream.taken <+: stream'.taken ∧ stream.dropped ≤ stream'.dropped

theorem offer_grows (backlog : Nat) (stream : EventStream E) (event : E) :
    Grows stream (stream.offer isTerminal backlog event) := by
  refine ⟨?_, EventStream.offer_dropped stream event⟩
  have hput : ∀ (stream : EventStream E) (item : Option E), (stream.put backlog item).taken = stream.taken := by
    intro stream item
    unfold EventStream.put
    split <;> rfl
  unfold EventStream.offer
  split
  · exact List.prefix_refl _
  · split
    · simp only [hput, List.prefix_refl]
    · simp only [hput, List.prefix_refl]

theorem publish_grows (hlisted : bus.Listed) {stream : EventStream E}
    (hstream : bus.streams[index]? = some stream) (events : List E) :
    ∃ stream', (publish runIdOf isTerminal bus events).streams[index]? = some stream' ∧
      Grows stream stream' := by
  unfold EventBus.publish
  induction events generalizing bus stream with
  | nil => exact ⟨stream, hstream, List.prefix_refl _, Nat.le_refl _⟩
  | cons event rest ih =>
    have hnext : (publishOne runIdOf isTerminal bus event).streams[index]? =
        some (if runIdOf event = some stream.runId then stream.offer isTerminal bus.backlog event
          else stream) := by
      rw [publishOne_streams hlisted, hstream]
      rfl
    obtain ⟨stream', hstream', hgrows⟩ := ih (hlisted.publishOne event) hnext
    have hfirst : Grows stream (if runIdOf event = some stream.runId then
        stream.offer isTerminal bus.backlog event else stream) := by
      split
      · exact offer_grows bus.backlog stream event
      · exact ⟨List.prefix_refl _, Nat.le_refl _⟩
    exact ⟨stream', hstream', hfirst.1.trans hgrows.1, Nat.le_trans hfirst.2 hgrows.2⟩

theorem pull_grows {stream : EventStream E} (hstream : bus.streams[index]? = some stream)
    (other : Nat) : ∃ stream', (bus.pull other).streams[index]? = some stream' ∧ Grows stream stream' := by
  refine ⟨_, (pull_streams bus other index).trans (by rw [hstream]; rfl), ?_⟩
  dsimp only
  split
  · refine ⟨?_, Nat.le_of_eq (EventStream.pull_rest stream).2.2.symm⟩
    unfold EventStream.pull
    split
    · exact List.prefix_refl _
    · exact List.prefix_append _ _
  · exact ⟨List.prefix_refl _, Nat.le_refl _⟩

end EventBus

end AgenticPlatform
