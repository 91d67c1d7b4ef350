import AgenticPlatform.EventCodecs
import AgenticPlatform.Keyspace
import AgenticPlatform.RedisStreams
import AgenticPlatform.Runs

/-!
# The Redis event bus

`publish` sends one pipeline that is not a transaction: between two of its commands the
server runs those of others, and a lost connection leaves a pipeline half done. A reader
is a position in the stream of its run. Its calls come one after the other, and each awaits
one command, so one turn of `__anext__` is one move; readers do not change the server, so
one reader is enough. Entries carry the place of their pipeline among all pipelines ever
sent, which no code reads.
-/

namespace AgenticPlatform

open Dict RedisStream

/-! ### Events -/

/-- `is_terminal_for_run`. -/
def Event.isTerminalForRun (event : Event) : Bool :=
  [EventClass.runCancelled.name, EventClass.runCompleted.name, EventClass.runFailed.name].contains
      event.type.name ||
    match event.type.className == EventClass.runStateChanged.className,
        List.lookup "current" event.fields with
    | true, some (.member .runStatus status) => RunStatus.isTerminal status
    | _, _ => false

/-- `run_id_of`. -/
def Event.runIdOf (event : Event) : Option RunId :=
  match List.lookup "run_id" event.fields with
  | some (.entityId .run runId) => some runId
  | _ => none

/-! ### The bus -/

/-- What `encode_event` writes. -/
abbrev EventRecord := List (String × String)

/-- A command of a pipeline. -/
inductive StreamCommand where
  | xadd (key : String) (record : EventRecord) (maxlen : Nat)
  | pexpire (key : String) (ttlMs : Nat)

/-- `RedisEventBus`. The time to live is at least a millisecond. -/
structure RedisEventBus where
  keys : Keyspace
  maxLength : Nat
  runStreamTtlMs : Nat
  ttl_pos : 0 < runStreamTtlMs

theorem ttl_floor (ttlMs : Int) : 0 < (max ttlMs 1).toNat := by omega

/-- `RedisEventBus(redis, ..)`, with the time to live in whole milliseconds. -/
def RedisEventBus.create (keys : Keyspace) (maxStreamLength : Nat) (runStreamTtl : Int) : RedisEventBus :=
  ⟨keys, maxStreamLength, (max runStreamTtl 1).toNat, ttl_floor runStreamTtl⟩

/-- `RunEventStream`. -/
structure RunEventStream where
  key : String
  batch : Nat
  lastId : Option EntryId
  buffer : List Event
  closed : Bool

/-- An entry with the place of its pipeline. -/
structure StreamEntry where
  pipe : Nat
  record : EventRecord

/-- The server. -/
structure RedisServer where
  now : Nat
  streams : Dict String (Stream StreamEntry)

/-- A turn of the loop of `__anext__`. -/
inductive ReaderTurn where
  | event (event : Event)
  | stop
  | again
  | raised (e : PyError)

section Bus

variable (json : JsonCodec) (iso : IsoCodec)

/-- The commands for one event. -/
def RedisEventBus.commandsFor (bus : RedisEventBus) (event : Event) : List StreamCommand :=
  let record := encodeEvent json iso event
  .xadd bus.keys.eventStream record bus.maxLength ::
    match event.runIdOf with
    | none => []
    | some runId =>
        [.xadd (bus.keys.runStream runId) record bus.maxLength,
          .pexpire (bus.keys.runStream runId) bus.runStreamTtlMs]

/-- `publish`: the pipeline it sends. -/
def RedisEventBus.publish (bus : RedisEventBus) (events : List Event) : List StreamCommand :=
  events.flatMap (bus.commandsFor json iso)

/-- `subscribe`. -/
def RedisEventBus.subscribe (bus : RedisEventBus) (runId : RunId) : RunEventStream :=
  ⟨bus.keys.runStream runId, bus.maxLength, none, [], false⟩

/-- The server runs a command. -/
def RedisServer.execute (pipe trim : Nat) (server : RedisServer) : StreamCommand → RedisServer
  | .xadd key record maxlen =>
      let stream := xadd maxlen trim server.now ⟨pipe, record⟩ (server.streams.lookup key)
      { server with streams := server.streams.insert key stream }
  | .pexpire key ttlMs =>
      match pexpire ttlMs server.now (server.streams.lookup key) with
      | none => { server with streams := server.streams.erase key }
      | some stream => { server with streams := server.streams.insert key stream }

namespace RunEventStream

/-- `ready`. -/
def ready (self : RunEventStream) (server : RedisServer) : RunEventStream :=
  match self.lastId with
  | some _ => self
  | none =>
      let newest := xrevrange server.now (server.streams.lookup self.key)
      { self with lastId := some ((newest.map Prod.fst).getD zero) }

/-- `_accept`. -/
def accept (self : RunEventStream) (record : EventRecord) : Except PyError RunEventStream :=
  match decodeEvent json iso fun field => List.lookup field record with
  | .error e => .error e
  | .ok none => .ok self
  | .ok (some event) =>
      .ok { self with
        buffer := self.buffer ++ [event]
        closed := self.closed || event.isTerminalForRun }

/-- The loop of `_read`; an entry that cannot be decoded ends it. -/
def acceptAll (self : RunEventStream) : List (EntryId × StreamEntry) → RunEventStream × Option PyError
  | [] => (self, none)
  | (entryId, entry) :: rest =>
      match accept json iso { self with lastId := some entryId } entry.record with
      | .error e => ({ self with lastId := some entryId }, some e)
      | .ok self => acceptAll self rest

/-- One turn of `__anext__`: it ends with the first command that it awaits. -/
def turn (self : RunEventStream) (server : RedisServer) : RunEventStream × ReaderTurn :=
  match self.buffer with
  | event :: rest => ({ self with buffer := rest }, .event event)
  | [] =>
      if self.closed then (self, .stop)
      else
        match self.lastId with
        | none => (self.ready server, .again)
        | some lastId =>
            match self.acceptAll json iso
                (xread self.batch server.now (server.streams.lookup self.key) lastId) with
            | (self, none) => (self, .again)
            | (self, some e) => (self, .raised e)

def aclose (self : RunEventStream) : RunEventStream := { self with buffer := [], closed := true }

end RunEventStream

/-- A pipeline: what it was sent for, what the server has run of it, what it has still to
    run, and what was lost on the way. -/
structure Pipe where
  events : List Event
  served : List StreamCommand
  waiting : List StreamCommand
  lost : List StreamCommand

/-- Publishers, the server and one reader; `taken` is what the reader was handed, `added` are
    all entries ever added, with their keys. -/
structure BusWorld where
  server : RedisServer
  pipes : List Pipe
  reader : RunEventStream
  taken : List Event
  added : List (String × EntryId × StreamEntry)

inductive BusWorldMove where
  | publish (events : List Event)
  | serve (pipe trim : Nat)
  | lose (pipe : Nat)
  | tick (ms : Nat)
  | ready
  | turn
  | aclose

/-- The moves of the reader. -/
def BusWorldMove.ofReader : BusWorldMove → Bool
  | .ready | .turn | .aclose => true
  | _ => false

namespace BusWorld

/-- The entries that a command adds under the keys. -/
def adds (server : RedisServer) (pipe : Nat) : StreamCommand → List (String × EntryId × StreamEntry)
  | .xadd key record _ =>
      [(key, nextId server.now (current server.now (server.streams.lookup key)).lastId, ⟨pipe, record⟩)]
  | .pexpire _ _ => []

def step (bus : RedisEventBus) (world : BusWorld) : BusWorldMove → BusWorld
  | .publish events =>
      { world with pipes := world.pipes ++ [⟨events, [], bus.publish json iso events, []⟩] }
  | .serve index trim =>
      match world.pipes[index]? with
      | some ⟨events, served, command :: waiting, lost⟩ =>
          { world with
            server := world.server.execute index trim command
            pipes := world.pipes.set index ⟨events, served ++ [command], waiting, lost⟩
            added := world.added ++ adds world.server index command }
      | _ => world
  | .lose index =>
      { world with pipes := world.pipes.modify index fun pipe =>
          { pipe with waiting := [], lost := pipe.waiting ++ pipe.lost } }
  | .tick ms => { world with server := { world.server with now := world.server.now + ms } }
  | .ready => { world with reader := world.reader.ready world.server }
  | .turn =>
      match world.reader.turn json iso world.server with
      | (reader, .event event) => { world with reader, taken := world.taken ++ [event] }
      | (reader, _) => { world with reader }
  | .aclose => { world with reader := world.reader.aclose }

abbrev after (bus : RedisEventBus) (world : BusWorld) (moves : List BusWorldMove) : BusWorld :=
  Runs.after (step json iso bus) world moves

/-- A bus that nobody has published on yet, and a new reader of the run. -/
def start (bus : RedisEventBus) (runId : RunId) : BusWorld :=
  ⟨⟨0, ∅⟩, [], bus.subscribe runId, [], []⟩

/-- The entries ever added under a key. -/
def log (world : BusWorld) (key : String) : List (EntryId × StreamEntry) :=
  (world.added.filter fun entry => decide (entry.1 = key)).map Prod.snd

end BusWorld

end Bus

end AgenticPlatform
