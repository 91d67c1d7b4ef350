import AgenticPlatform.EventDelivery

/-!
# Subscriptions

Any number of clients follow runs. A client's generator subscribes to the bus before anything
else and closes its subscription in a `finally` block, but only one that passes for an
`AsyncGenerator`, which the streams of the in-memory bus do not. So a subscription is given up
only by the event that ends its run, and a client that leaves before it was offered one leaves
its subscription behind.
-/

namespace AgenticPlatform

/-! ### The type test -/

/-- The methods that `isinstance(live, AsyncGenerator)` looks for. -/
def asyncGeneratorMethods : List String := ["__aiter__", "__anext__", "asend", "athrow", "aclose"]

/-- The methods of `InMemoryRunEventStream`. -/
def inMemoryRunEventStreamMethods : List String :=
  ["__init__", "ready", "offer", "_put", "__aiter__", "__anext__", "aclose"]

def isAsyncGenerator (methods : List String) : Bool := asyncGeneratorMethods.all methods.contains

/-- The end of the `finally` block, once the pull in flight is cancelled. -/
def closeLive (bus : EventBus DomainEvent) (index : Nat) : EventBus DomainEvent :=
  if isAsyncGenerator inMemoryRunEventStreamMethods then bus.aclose index else bus

/-- The block leaves the bus as it is. -/
theorem closeLive_eq (bus : EventBus DomainEvent) (index : Nat) : closeLive bus index = bus :=
  if_neg (by decide)

/-! ### Clients -/

/-- Where a `_run_event_stream` is. -/
inductive StreamPhase where
  | replaying
  | checking
  | live
  | ended
deriving DecidableEq

/-- A generator: its run, its stream on the bus, and how many live events it has sent. -/
structure Subscriber where
  runId : RunId
  index : Nat
  phase : StreamPhase
  forwarded : Nat

/-- The bus, and all generators that were ever started. -/
structure Streaming where
  bus : EventBus DomainEvent
  clients : List Subscriber

/-- A client is named by its place. It may be disconnected at every await; a read of the store
    that raises ends the generator in the same way. -/
inductive StreamingMove where
  | publish (events : List DomainEvent)
  | connect (runId : RunId)
  | prefetch (place : Nat)
  | replayed (place : Nat)
  | status (place : Nat) (terminal : Bool)
  | forward (place : Nat)
  | disconnect (place : Nat)

namespace Streaming

def setClient (world : Streaming) (place : Nat) (client : Subscriber) : Streaming :=
  { world with clients := world.clients.set place client }

/-- The generator returns, whatever the reason. -/
def finish (world : Streaming) (place : Nat) (client : Subscriber) : Streaming :=
  { bus := closeLive world.bus client.index
    clients := world.clients.set place { client with phase := .ended } }

/-- The item that the pull in flight has taken and that was not sent yet. -/
def arrived (world : Streaming) (client : Subscriber) : Option (Option DomainEvent) :=
  (world.bus.streams[client.index]?).bind fun stream => stream.taken[client.forwarded]?

/-- The generator starts: it subscribes before anything else. -/
def connect (world : Streaming) (runId : RunId) : Streaming :=
  { bus := world.bus.subscribe runId
    clients := world.clients ++ [⟨runId, world.bus.streams.length, .replaying, 0⟩] }

/-- The pull in flight takes the next item, once the last one was used. -/
def prefetch (world : Streaming) (client : Subscriber) : Streaming :=
  if client.phase = .ended then world
  else
    match world.bus.streams[client.index]? with
    | none => world
    | some stream =>
      if stream.taken.length ≤ client.forwarded then
        { world with bus := world.bus.pull client.index }
      else world

/-- The last page of the replay has come. -/
def replayed (world : Streaming) (place : Nat) (client : Subscriber) : Streaming :=
  if client.phase = .replaying then world.setClient place { client with phase := .checking }
  else world

/-- The status of the run is read again after the replay. -/
def status (world : Streaming) (place : Nat) (client : Subscriber) (terminal : Bool) : Streaming :=
  if client.phase = .checking then
    if terminal then world.finish place client
    else world.setClient place { client with phase := .live }
  else world

/-- One turn of the live loop, once its pull has returned. -/
def forward (world : Streaming) (place : Nat) (client : Subscriber) : Streaming :=
  if client.phase = .live then
    match world.arrived client with
    | none => world
    | some none => world.finish place client
    | some (some event) =>
      if isFinal event then world.finish place client
      else world.setClient place { client with forwarded := client.forwarded + 1 }
  else world

def disconnect (world : Streaming) (place : Nat) (client : Subscriber) : Streaming :=
  if client.phase = .ended then world else world.finish place client

def step (world : Streaming) : StreamingMove → Streaming
  | .publish events => { world with bus := world.bus.publish runIdOf isTerminalForRun events }
  | .connect runId => world.connect runId
  | .prefetch place =>
    match world.clients[place]? with
    | none => world
    | some client => world.prefetch client
  | .replayed place =>
    match world.clients[place]? with
    | none => world
    | some client => world.replayed place client
  | .status place terminal =>
    match world.clients[place]? with
    | none => world
    | some client => world.status place client terminal
  | .forward place =>
    match world.clients[place]? with
    | none => world
    | some client => world.forward place client
  | .disconnect place =>
    match world.clients[place]? with
    | none => world
    | some client => world.disconnect place client

/-- Before the first client. -/
def initial (backlog : Nat) : Streaming := ⟨.empty backlog, []⟩

abbrev after (world : Streaming) (moves : List StreamingMove) : Streaming :=
  Runs.after step world moves

/-- No generator that has ended is still subscribed. -/
def LeakFree (world : Streaming) : Prop :=
  ∀ client ∈ world.clients, client.phase = .ended →
    client.index ∉ world.bus.subscribed client.runId

/-- The stream of the client was offered the event that ends its run. -/
def Offered (world : Streaming) (client : Subscriber) : Prop :=
  ∃ stream, world.bus.streams[client.index]? = some stream ∧ stream.closed = true

/-- A client that is disconnected, and one that finds its run terminal after the replay, was
    offered the event that ends the run. -/
def LeavesAfterEnd (world : Streaming) : StreamingMove → Prop
  | .disconnect place => ∀ client, world.clients[place]? = some client →
      client.phase ≠ .ended → world.Offered client
  | .status place true => ∀ client, world.clients[place]? = some client →
      client.phase = .checking → world.Offered client
  | _ => True

end Streaming

/-! ### Streams -/

namespace EventStream

variable {E : Type} {isTerminal : E → Bool} {backlog : Nat} {stream later : EventStream E}

/-- Only a closed stream holds the mark of its end, or an event that ends the run. -/
def Marked (isTerminal : E → Bool) (stream : EventStream E) : Prop :=
  ∀ item ∈ stream.seen, (∀ event, item = some event → isTerminal event = true) →
    stream.closed = true

theorem mem_put_seen {item new : Option E} (h : item ∈ (stream.put backlog new).seen) :
    item ∈ stream.seen ∨ item = new := by
  rw [seen, put] at h
  rw [seen]
  split at h
  · rcases List.mem_append.mp h with htaken | hqueue
    · exact .inl (List.mem_append_left _ htaken)
    · rcases List.mem_append.mp hqueue with htail | hnew
      · exact .inl (List.mem_append_right _ (List.mem_of_mem_tail htail))
      · exact .inr (List.mem_singleton.mp hnew)
  · rcases List.mem_append.mp h with htaken | hqueue
    · exact .inl (List.mem_append_left _ htaken)
    · rcases List.mem_append.mp hqueue with hold | hnew
      · exact .inl (List.mem_append_right _ hold)
      · exact .inr (List.mem_singleton.mp hnew)

theorem Marked.offer (h : stream.Marked isTerminal) (event : E) :
    (stream.offer isTerminal backlog event).Marked isTerminal := by
  intro item hitem hends
  rw [offer_closed]
  rcases hclosed : stream.closed with - | -
  · rcases hevent : isTerminal event with - | -
    · have hput : stream.offer isTerminal backlog event = stream.put backlog (some event) := by
        rw [EventStream.offer, hclosed, hevent]
        rfl
      rw [hput] at hitem
      rcases mem_put_seen hitem with hold | rfl
      · rw [h item hold hends] at hclosed
        cases hclosed
      · rw [hends event rfl] at hevent
        cases hevent
    · rfl
  · rfl

theorem Marked.pull (h : stream.Marked isTerminal) : stream.pull.Marked isTerminal := by
  intro item hitem hends
  rw [pull_seen] at hitem
  rw [(pull_rest stream).2.1]
  exact h item hitem hends

/-- What a stream is later: it follows the same run, is not opened again, and stays marked. -/
structure Later (isTerminal : E → Bool) (stream later : EventStream E) : Prop where
  runId : later.runId = stream.runId
  closed : stream.closed = true → later.closed = true
  marked : stream.Marked isTerminal → later.Marked isTerminal

theorem Later.refl (stream : EventStream E) : stream.Later isTerminal stream := ⟨rfl, id, id⟩

theorem Later.trans {last : EventStream E} (h : stream.Later isTerminal later)
    (h' : later.Later isTerminal last) : stream.Later isTerminal last :=
  ⟨h'.runId.trans h.runId, h'.closed ∘ h.closed, h'.marked ∘ h.marked⟩

theorem later_offer (stream : EventStream E) (event : E) :
    stream.Later isTerminal (stream.offer isTerminal backlog event) := by
  refine ⟨offer_runId stream event, fun hclosed => ?_, fun hmarked => hmarked.offer event⟩
  rw [offer_closed, hclosed]
  rfl

theorem later_pull (stream : EventStream E) : stream.Later isTerminal stream.pull :=
  ⟨(pull_rest stream).1, fun hclosed => (pull_rest stream).2.1.trans hclosed, Marked.pull⟩

end EventStream

namespace EventBus

variable {E : Type} {runIdOf : E → Option RunId} {isTerminal : E → Bool} {bus : EventBus E}
  {index : Nat} {stream : EventStream E}

theorem publish_later (hlisted : bus.Listed) (hstream : bus.streams[index]? = some stream)
    (events : List E) : ∃ later, (publish runIdOf isTerminal bus events).streams[index]? = some later ∧
      stream.Later isTerminal later := by
  rw [EventBus.publish]
  induction events generalizing bus stream with
  | nil => exact ⟨stream, hstream, .refl stream⟩
  | cons event rest ih =>
    have hnext : (publishOne runIdOf isTerminal bus event).streams[index]? =
        some (if runIdOf event = some stream.runId then stream.offer isTerminal bus.backlog event
          else stream) := by
      rw [publishOne_streams hlisted, hstream]
      rfl
    rcases ih (hlisted.publishOne event) hnext with ⟨later, hlater, hrest⟩
    refine ⟨later, hlater, .trans ?_ hrest⟩
    split
    · exact EventStream.later_offer stream event
    · exact .refl stream

theorem pull_later (hstream : bus.streams[index]? = some stream) (other : Nat) :
    ∃ later, (bus.pull other).streams[index]? = some later ∧ stream.Later isTerminal later := by
  refine ⟨_, (pull_streams bus other index).trans (by rw [hstream]; rfl), ?_⟩
  dsimp only
  split
  · exact EventStream.later_pull stream
  · exact .refl stream

theorem subscribe_later (hstream : bus.streams[index]? = some stream) (runId : RunId) :
    ∃ later, (bus.subscribe runId).streams[index]? = some later ∧
      stream.Later isTerminal later := by
  refine ⟨stream, ?_, .refl stream⟩
  have hlt := (List.getElem?_eq_some_iff.mp hstream).1
  rw [EventBus.subscribe, List.getElem?_append_left hlt]
  exact hstream

end EventBus

/-! ### What holds throughout -/

namespace Streaming

variable {world : Streaming} {client : Subscriber} {place : Nat}

/-- The client has a stream of its run, which is closed if it holds the end. -/
def Follows (world : Streaming) (client : Subscriber) : Prop :=
  ∃ stream, world.bus.streams[client.index]? = some stream ∧ stream.runId = client.runId ∧
    stream.Marked isTerminalForRun

/-- The bus is in order, and every client follows its run. -/
structure Sound (world : Streaming) : Prop where
  listed : world.bus.Listed
  follows : ∀ client ∈ world.clients, world.Follows client

/-- A move of the bus that only makes streams later. -/
def Advances (world next : Streaming) : Prop :=
  next.bus.Listed ∧ ∀ (index : Nat) (stream : EventStream DomainEvent),
    world.bus.streams[index]? = some stream →
    ∃ later : EventStream DomainEvent, next.bus.streams[index]? = some later ∧
      stream.Later isTerminalForRun later

theorem Follows.advance {next : Streaming} (h : world.Follows client)
    (hnext : world.Advances next) {client' : Subscriber} (hindex : client'.index = client.index)
    (hrun : client'.runId = client.runId) : next.Follows client' := by
  rcases h with ⟨stream, hstream, hid, hmarked⟩
  rcases hnext.2 client.index stream hstream with ⟨later, hlater, hstays⟩
  refine ⟨later, by rw [hindex]; exact hlater, ?_, hstays.marked hmarked⟩
  rw [hstays.runId, hid, hrun]

theorem Offered.advance {next : Streaming} (h : world.Offered client)
    (hnext : world.Advances next) {client' : Subscriber} (hindex : client'.index = client.index) :
    next.Offered client' := by
  rcases h with ⟨stream, hstream, hclosed⟩
  rcases hnext.2 client.index stream hstream with ⟨later, hlater, hstays⟩
  exact ⟨later, by rw [hindex]; exact hlater, hstays.closed hclosed⟩

/-- A client is subscribed until its stream was offered the end of the run. -/
theorem Sound.not_subscribed_iff (h : world.Sound) (hclient : client ∈ world.clients) :
    client.index ∉ world.bus.subscribed client.runId ↔ world.Offered client := by
  rcases h.follows client hclient with ⟨stream, hstream, hrun, -⟩
  rw [h.listed.mem, Offered, hstream]
  constructor
  · intro hnone
    refine ⟨stream, rfl, ?_⟩
    rcases hclosed : stream.closed with - | -
    · exact absurd ⟨stream, rfl, hrun, hclosed⟩ hnone
    · rfl
  · rintro ⟨found, hfound, hclosed⟩ ⟨other, hother, -, hopen⟩
    cases hfound
    cases hother
    rw [hclosed] at hopen
    cases hopen

theorem Sound.leakFree_iff_offered (h : world.Sound) :
    world.LeakFree ↔ ∀ client ∈ world.clients, client.phase = .ended → world.Offered client :=
  forall₃_congr fun _ hclient _ => h.not_subscribed_iff hclient

/-- Which clients a move makes leave, where a client that leaves the live loop was offered the
    end of its run. -/
def Leaving (world : Streaming) (place : Nat) (client : Subscriber) : StreamingMove → Prop
  | .disconnect left => left = place ∧ client.phase ≠ .ended
  | .status left terminal => left = place ∧ terminal = true ∧ client.phase = .checking
  | .forward left => left = place ∧ world.Offered client
  | _ => False

/-- What a move may do: the streams get later, and a client keeps its stream, and ends only where
    the move makes it leave. -/
structure Moved (world next : Streaming) (leaving : Nat → Subscriber → Prop) : Prop where
  advances : world.Advances next
  clients : ∀ place client', next.clients[place]? = some client' →
    (client'.phase ≠ .ended ∧ next.Follows client') ∨
      ∃ client, world.clients[place]? = some client ∧ client'.index = client.index ∧
        client'.runId = client.runId ∧
        (client'.phase = .ended → client.phase = .ended ∨ leaving place client)

variable {leaving : Nat → Subscriber → Prop} {next : Streaming}

theorem Sound.advances_self (h : world.Sound) (hbus : next.bus = world.bus) :
    world.Advances next := by
  rw [Advances, hbus]
  exact ⟨h.listed, fun index stream hstream => ⟨stream, hstream, .refl stream⟩⟩

/-- Only the bus moves. -/
theorem moved_bus (hadvances : world.Advances next) (hclients : next.clients = world.clients) :
    world.Moved next leaving := by
  refine ⟨hadvances, fun place client hclient => .inr ⟨client, ?_, rfl, rfl, .inl⟩⟩
  rw [← hclients]
  exact hclient

theorem Sound.moved_self (h : world.Sound) : world.Moved world leaving :=
  moved_bus (h.advances_self rfl) rfl

/-- One client changes its phase. -/
theorem Sound.moved_client (h : world.Sound) (hclient : world.clients[place]? = some client)
    (hbus : next.bus = world.bus) {client' : Subscriber}
    (hclients : next.clients = world.clients.set place client') (hindex : client'.index = client.index)
    (hrun : client'.runId = client.runId)
    (hphase : client'.phase = .ended → client.phase = .ended ∨ leaving place client) :
    world.Moved next leaving := by
  refine ⟨h.advances_self hbus, fun other found hfound => .inr ?_⟩
  rw [hclients, List.getElem?_set] at hfound
  split at hfound
  · rename_i heq
    split at hfound
    · cases hfound
      rw [← heq]
      exact ⟨client, hclient, hindex, hrun, hphase⟩
    · cases hfound
  · exact ⟨found, hfound, rfl, rfl, .inl⟩

theorem Sound.moved_finish (h : world.Sound) (hclient : world.clients[place]? = some client)
    (hleaving : leaving place client) : world.Moved (world.finish place client) leaving :=
  h.moved_client hclient (closeLive_eq world.bus client.index) rfl rfl rfl fun _ => .inr hleaving

theorem Sound.moved_connect (h : world.Sound) (runId : RunId) :
    world.Moved (world.connect runId) leaving := by
  have hadvances : world.Advances (world.connect runId) :=
    ⟨h.listed.subscribe runId, fun index stream hstream => EventBus.subscribe_later hstream runId⟩
  refine ⟨hadvances, fun place client hclient => ?_⟩
  rw [connect, List.getElem?_append] at hclient
  split at hclient
  · exact .inr ⟨client, hclient, rfl, rfl, .inl⟩
  · rw [List.getElem?_singleton] at hclient
    split at hclient
    · cases hclient
      refine .inl ⟨nofun, ⟨runId, [], false, [], 0⟩, ?_, rfl, ?_⟩
      · rw [connect, EventBus.subscribe]
        exact List.getElem?_concat_length
      · intro item hitem
        cases hitem
    · cases hclient

/-- What has arrived and ends the run was offered. -/
theorem Sound.offered_of_arrived (h : world.Sound) (hclient : client ∈ world.clients)
    {item : Option DomainEvent} (harrived : world.arrived client = some item)
    (hends : ∀ event, item = some event → isTerminalForRun event = true) :
    world.Offered client := by
  rcases h.follows client hclient with ⟨stream, hstream, -, hmarked⟩
  rw [arrived, hstream, Option.bind_some] at harrived
  refine ⟨stream, hstream, hmarked item ?_ hends⟩
  exact List.mem_append_left _ (List.mem_of_getElem? harrived)

theorem Sound.moved_prefetch (h : world.Sound) (client : Subscriber) :
    world.Moved (world.prefetch client) leaving := by
  rw [prefetch]
  split
  · exact h.moved_self
  split
  · exact h.moved_self
  split
  · exact moved_bus ⟨h.listed.pull client.index, fun index stream hstream =>
      EventBus.pull_later hstream client.index⟩ rfl
  · exact h.moved_self

theorem Sound.moved_replayed (h : world.Sound) (hclient : world.clients[place]? = some client) :
    world.Moved (world.replayed place client) leaving := by
  rw [replayed]
  split
  · exact h.moved_client hclient rfl rfl rfl rfl nofun
  · exact h.moved_self

theorem Sound.moved_status (h : world.Sound) (hclient : world.clients[place]? = some client)
    {terminal : Bool} (hleaving : client.phase = .checking → terminal = true → leaving place client) :
    world.Moved (world.status place client terminal) leaving := by
  rw [status]
  split
  · rename_i hchecking
    split
    · rename_i hterminal
      exact h.moved_finish hclient (hleaving hchecking hterminal)
    · exact h.moved_client hclient rfl rfl rfl rfl nofun
  · exact h.moved_self

theorem isTerminalForRun_of_isFinal {event : DomainEvent} (h : isFinal event = true) :
    isTerminalForRun event = true := by
  rw [isTerminalForRun_eq, h]
  rfl

theorem Sound.moved_forward (h : world.Sound) (hclient : world.clients[place]? = some client)
    (hleaving : world.Offered client → leaving place client) :
    world.Moved (world.forward place client) leaving := by
  have hmem : client ∈ world.clients := List.mem_of_getElem? hclient
  rw [forward]
  split
  · rename_i hlive
    rcases harrived : world.arrived client with - | - | event
    · exact h.moved_self
    · refine h.moved_finish hclient (hleaving (h.offered_of_arrived hmem harrived ?_))
      intro found hfound
      cases hfound
    · dsimp only
      split
      · rename_i hfinal
        refine h.moved_finish hclient (hleaving (h.offered_of_arrived hmem harrived ?_))
        intro found hfound
        cases hfound
        exact isTerminalForRun_of_isFinal hfinal
      · refine h.moved_client hclient rfl rfl rfl rfl fun hended => ?_
        rw [hlive] at hended
        cases hended
  · exact h.moved_self

theorem Sound.moved_disconnect (h : world.Sound) (hclient : world.clients[place]? = some client)
    (hleaving : client.phase ≠ .ended → leaving place client) :
    world.Moved (world.disconnect place client) leaving := by
  rw [disconnect]
  split
  · exact h.moved_self
  · rename_i hphase
    exact h.moved_finish hclient (hleaving hphase)

theorem Sound.moved_step (h : world.Sound) (move : StreamingMove) :
    world.Moved (world.step move) fun place client => world.Leaving place client move := by
  rcases move with events | runId | place | place | ⟨place, terminal⟩ | place | place
  · refine moved_bus ⟨h.listed.publish events, fun index stream hstream => ?_⟩ rfl
    exact EventBus.publish_later h.listed hstream events
  · exact h.moved_connect runId
  all_goals
    rw [step]
    rcases hclient : world.clients[place]? with - | client
    · exact h.moved_self
    dsimp only
  · exact h.moved_prefetch client
  · exact h.moved_replayed hclient
  · exact h.moved_status hclient fun hchecking hterminal => ⟨rfl, hterminal, hchecking⟩
  · exact h.moved_forward hclient fun hoffered => ⟨rfl, hoffered⟩
  · exact h.moved_disconnect hclient fun hphase => ⟨rfl, hphase⟩

/-- What was so throughout stays so. -/
theorem Sound.moved (h : world.Sound) (hmoved : world.Moved next leaving) : next.Sound := by
  refine ⟨hmoved.advances.1, fun client' hmem => ?_⟩
  rcases List.getElem?_of_mem hmem with ⟨place, hplace⟩
  rcases hmoved.clients place client' hplace with ⟨-, hfollows⟩ | ⟨client, hclient, hindex, hrun, -⟩
  · exact hfollows
  · exact (h.follows client (List.mem_of_getElem? hclient)).advance hmoved.advances hindex hrun

theorem Sound.step (h : world.Sound) (move : StreamingMove) : (world.step move).Sound :=
  h.moved (h.moved_step move)

theorem sound_initial (backlog : Nat) : (initial backlog).Sound :=
  ⟨EventBus.listed_empty backlog, nofun⟩

/-! ### Leaks -/

/-- A client that leaves takes nothing from the bus. -/
theorem Sound.offered_of_finish (h : world.Sound) (hclient : world.clients[place]? = some client)
    (hfree : (world.finish place client).LeakFree) : world.Offered client := by
  have hnext : (world.finish place client).Sound :=
    h.moved (@Sound.moved_finish _ _ _ (fun _ _ => True) h hclient trivial)
  have hplace : place < world.clients.length := (List.getElem?_eq_some_iff.mp hclient).1
  have hended : { client with phase := .ended } ∈ (world.finish place client).clients :=
    List.mem_of_getElem? (List.getElem?_set_self hplace)
  rcases hnext.leakFree_iff_offered.mp hfree _ hended rfl with ⟨stream, hstream, hclosed⟩
  rw [finish, closeLive_eq] at hstream
  exact ⟨stream, hstream, hclosed⟩

theorem LeavesAfterEnd.offered {move : StreamingMove} (h : world.LeavesAfterEnd move)
    (hclient : world.clients[place]? = some client) (hleaving : world.Leaving place client move) :
    world.Offered client := by
  rcases move with events | runId | left | left | ⟨left, terminal⟩ | left | left
  case disconnect =>
    rcases hleaving with ⟨rfl, hphase⟩
    exact h client hclient hphase
  case forward => exact hleaving.2
  case status =>
    rcases hleaving with ⟨rfl, rfl, hphase⟩
    exact h client hclient hphase
  all_goals cases hleaving

/-- A move leaves nothing behind if and only if whoever leaves was offered the end. -/
theorem Sound.leakFree_step_iff (h : world.Sound) (hfree : world.LeakFree) (move : StreamingMove) :
    (world.step move).LeakFree ↔ world.LeavesAfterEnd move := by
  constructor
  · intro hnext
    rcases move with events | runId | place | place | ⟨place, terminal⟩ | place | place
    case disconnect =>
      intro client hclient hphase
      rw [Streaming.step, hclient] at hnext
      dsimp only at hnext
      rw [disconnect, if_neg hphase] at hnext
      exact h.offered_of_finish hclient hnext
    case status =>
      rcases terminal with - | -
      · trivial
      · intro client hclient hphase
        rw [Streaming.step, hclient] at hnext
        dsimp only at hnext
        rw [status, if_pos hphase, if_pos rfl] at hnext
        exact h.offered_of_finish hclient hnext
    all_goals trivial
  · intro hleaves
    have hmoved := h.moved_step move
    rw [(h.step move).leakFree_iff_offered]
    intro client' hmem hended
    rcases List.getElem?_of_mem hmem with ⟨place, hplace⟩
    rcases hmoved.clients place client' hplace with ⟨hphase, -⟩ | ⟨client, hclient, hindex, -, hleft⟩
    · exact absurd hended hphase
    · refine Offered.advance ?_ hmoved.advances hindex
      rcases hleft hended with hbefore | hleaving
      · exact h.leakFree_iff_offered.mp hfree client (List.mem_of_getElem? hclient) hbefore
      · exact hleaves.offered hclient hleaving

/-- No subscription is ever left behind if and only if nobody leaves, on being disconnected or on
    finding the run terminal, before being offered the event that ends the run. -/
theorem leakFree_iff (backlog : Nat) (moves : List StreamingMove) :
    (∀ before later, moves = before ++ later → ((initial backlog).after before).LeakFree) ↔
      Runs.Along Streaming.step LeavesAfterEnd (initial backlog) moves := by
  refine Runs.safe_iff_along (I := Sound) (sound_initial backlog) nofun
    (fun world move h => h.step move) fun world move h hfree => h.leakFree_step_iff hfree move

/-- A client that is disconnected while its run goes on leaves its subscription behind. -/
theorem disconnected_leaks :
    ((initial 10000).after [.connect ⟨7⟩, .disconnect 0]).bus.subscribed ⟨7⟩ = [0] ∧
      ¬((initial 10000).after [.connect ⟨7⟩, .disconnect 0]).LeakFree := by
  have hsubscribed : ((initial 10000).after [.connect ⟨7⟩, .disconnect 0]).bus.subscribed ⟨7⟩ = [0] := by
    decide +kernel
  refine ⟨hsubscribed, fun hfree => ?_⟩
  have hgone := hfree ⟨⟨7⟩, 0, .ended, 0⟩ (List.mem_singleton_self _) rfl
  rw [hsubscribed] at hgone
  exact hgone (List.mem_singleton_self 0)

end Streaming

end AgenticPlatform
