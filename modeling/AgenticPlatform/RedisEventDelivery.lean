import AgenticPlatform.EventBus
import AgenticPlatform.RedisEventBus

/-!
# What a reader of the Redis event bus is handed

The invariant of the server says what each pipeline has added under each key, and that ids
grow. The invariant of the reader says that what it has read and what it has not read yet
are, in this order, some of what was added since it took its position. They are all of it
as long as the reader keeps up: fewer entries wait for it than the server keeps, and none
waits past the deadline of the key.
-/

namespace AgenticPlatform

open Dict RedisStream

variable (json : JsonCodec) (iso : IsoCodec)

/-- The records that commands add under a key. -/
def recordsFor (key : String) (commands : List StreamCommand) : List EventRecord :=
  commands.flatMap fun command =>
    match command with
    | .xadd key' record _ => if key' = key then [record] else []
    | .pexpire _ _ => []

/-- What a reader makes of an entry: nothing, if the record is of an event it does not know or is
    malformed. -/
def decoded (entry : EntryId × StreamEntry) : Option Event :=
  match decodeEvent json iso fun field => List.lookup field entry.2.record with
  | .ok event => event
  | .error _ => none

namespace BusWorld

/-- The server and the publishers. -/
structure Sane (bus : RedisEventBus) (world : BusWorld) : Prop where
  logged : ∀ key, Logged world.server.now (world.log key) (world.server.streams.lookup key)
  pipes : ∀ pipe ∈ world.pipes,
    pipe.served ++ pipe.waiting ++ pipe.lost = bus.publish json iso pipe.events
  tagged : ∀ key index,
    ((world.log key).filter fun entry => decide (entry.2.pipe = index)).map (fun entry => entry.2.record) =
      recordsFor key ((world.pipes[index]?).elim [] Pipe.served)

variable {json iso} {bus : RedisEventBus} {world : BusWorld}

/-! ### The server -/

/-- The bus sends its own bounds. -/
theorem mem_publish {events : List Event} {command : StreamCommand}
    (h : command ∈ bus.publish json iso events) :
    (∃ key record, command = .xadd key record bus.maxLength) ∨
      ∃ key, command = .pexpire key bus.runStreamTtlMs := by
  obtain ⟨event, -, hcommand⟩ := List.mem_flatMap.mp h
  unfold RedisEventBus.commandsFor at hcommand
  dsimp only at hcommand
  rcases List.mem_cons.mp hcommand with rfl | hmem
  · exact .inl ⟨_, _, rfl⟩
  · split at hmem
    · cases hmem
    · rename_i runId hrun
      rw [List.mem_cons, List.mem_singleton] at hmem
      rcases hmem with rfl | rfl
      · exact .inl ⟨_, _, rfl⟩
      · exact .inr ⟨_, rfl⟩

/-- What the server does when it is asked to run a command of a pipeline. -/
theorem serve_cases (json : JsonCodec) (iso : IsoCodec) (bus : RedisEventBus) (world : BusWorld)
    (index trim : Nat) :
    step json iso bus world (.serve index trim) = world ∨
      ∃ events served command waiting lost,
        world.pipes[index]? = some ⟨events, served, command :: waiting, lost⟩ ∧
        step json iso bus world (.serve index trim) = { world with
          server := world.server.execute index trim command
          pipes := world.pipes.set index ⟨events, served ++ [command], waiting, lost⟩
          added := world.added ++ adds world.server index command } := by
  unfold step
  dsimp only
  split
  · rename_i events served command waiting lost hpipe
    exact .inr ⟨events, served, command, waiting, lost, hpipe, rfl⟩
  · exact .inl rfl

theorem execute_now (pipe trim : Nat) (server : RedisServer) (command : StreamCommand) :
    (server.execute pipe trim command).now = server.now := by
  cases command with
  | xadd key record maxlen => rfl
  | pexpire key ttlMs =>
    unfold RedisServer.execute
    dsimp only
    split <;> rfl

theorem execute_xadd_lookup (pipe trim : Nat) (server : RedisServer) (key key' : String)
    (record : EventRecord) (maxlen : Nat) :
    (server.execute pipe trim (.xadd key' record maxlen)).streams.lookup key =
      if key = key' then
        some (xadd maxlen trim server.now ⟨pipe, record⟩ (server.streams.lookup key))
      else server.streams.lookup key := by
  show (server.streams.insert key' _).lookup key = _
  rw [lookup_insert_ite]
  by_cases hkey : key = key'
  · rw [if_pos hkey, if_pos hkey, hkey]
  · rw [if_neg hkey, if_neg hkey]

theorem execute_pexpire_lookup (pipe trim : Nat) (server : RedisServer) (key key' : String) (ttl : Nat) :
    (server.execute pipe trim (.pexpire key' ttl)).streams.lookup key =
      if key = key' then pexpire ttl server.now (server.streams.lookup key)
      else server.streams.lookup key := by
  unfold RedisServer.execute
  dsimp only
  by_cases hkey : key = key'
  · subst hkey
    rw [if_pos rfl]
    split
    · rename_i hgone
      rw [lookup_erase_ite, if_pos rfl, hgone]
    · rename_i stream hstream
      rw [lookup_insert_ite, if_pos rfl, hstream]
  · rw [if_neg hkey]
    split
    · rw [lookup_erase_ite, if_neg hkey]
    · rw [lookup_insert_ite, if_neg hkey]

/-- The entries that a command adds under one key. -/
def addsTo (server : RedisServer) (pipe : Nat) (key : String) (command : StreamCommand) :
    List (EntryId × StreamEntry) :=
  ((adds server pipe command).filter fun entry => decide (entry.1 = key)).map Prod.snd

theorem log_append (server : RedisServer) (pipes : List Pipe) (index : Nat) (command : StreamCommand)
    (key : String) : ({ world with
      server, pipes, added := world.added ++ adds world.server index command } : BusWorld).log key =
        world.log key ++ addsTo world.server index key command := by
  unfold log addsTo
  rw [List.filter_append, List.map_append]

theorem addsTo_records (server : RedisServer) (pipe : Nat) (key : String) (command : StreamCommand) :
    (addsTo server pipe key command).map (fun entry => entry.2.record) = recordsFor key [command] ∧
      ∀ entry ∈ addsTo server pipe key command, entry.2.pipe = pipe := by
  unfold addsTo adds recordsFor
  cases command with
  | xadd key' record maxlen =>
    by_cases hkey : key' = key
    · simp [hkey]
    · simp [hkey]
  | pexpire key' ttl => simp

/-- A command of the bus keeps the log of every key. -/
theorem logged_execute (hlogged : ∀ key, Logged world.server.now (world.log key)
      (world.server.streams.lookup key)) {command : StreamCommand}
    (hcommand : (∃ key record, command = .xadd key record bus.maxLength) ∨
      ∃ key, command = .pexpire key bus.runStreamTtlMs) (index trim : Nat) (key : String) :
    Logged world.server.now (world.log key ++ addsTo world.server index key command)
      ((world.server.execute index trim command).streams.lookup key) := by
  rcases hcommand with ⟨key', record, rfl⟩ | ⟨key', rfl⟩
  · rw [execute_xadd_lookup]
    by_cases hkey : key = key'
    · subst hkey
      rw [if_pos rfl]
      have hnew := (hlogged key).xadd bus.maxLength trim ⟨index, record⟩
      have hadds : addsTo world.server index key (.xadd key record bus.maxLength) =
          [(nextId world.server.now (current world.server.now (world.server.streams.lookup key)).lastId,
            ⟨index, record⟩)] := by
        simp [addsTo, adds]
      rw [hadds]
      exact hnew
    · have hadds : addsTo world.server index key (.xadd key' record bus.maxLength) = [] := by
        simp [addsTo, adds, Ne.symm hkey]
      rw [if_neg hkey, hadds, List.append_nil]
      exact hlogged key
  · have hadds : addsTo world.server index key (.pexpire key' bus.runStreamTtlMs) = [] := rfl
    rw [execute_pexpire_lookup, hadds, List.append_nil]
    split
    · exact (hlogged key).pexpire bus.ttl_pos
    · exact hlogged key

theorem recordsFor_append (key : String) (earlier later : List StreamCommand) :
    recordsFor key (earlier ++ later) = recordsFor key earlier ++ recordsFor key later :=
  List.flatMap_append

theorem Sane.serve (h : world.Sane json iso bus) (index trim : Nat) :
    (step json iso bus world (.serve index trim)).Sane json iso bus := by
  rcases serve_cases json iso bus world index trim with hsame | ⟨events, served, command, waiting, lost,
    hpipe, hstep⟩
  · rw [hsame]
    exact h
  · have hsent := h.pipes _ (List.mem_of_getElem? hpipe)
    have hmem : command ∈ bus.publish json iso events := by
      rw [← hsent]
      exact List.mem_append_left _ (List.mem_append_right _ List.mem_cons_self)
    have hcommand := mem_publish hmem
    rw [hstep]
    constructor
    · intro key
      rw [log_append]
      show Logged (world.server.execute index trim command).now _ _
      rw [execute_now]
      exact logged_execute h.logged hcommand index trim key
    · intro pipe hmem
      rcases List.mem_or_eq_of_mem_set hmem with hold | rfl
      · exact h.pipes pipe hold
      · rw [← hsent]
        simp
    · intro key other
      obtain ⟨hrecords, hplace⟩ := addsTo_records world.server index key command
      rw [log_append, List.filter_append, List.map_append, h.tagged]
      show _ = recordsFor key (((world.pipes.set index _)[other]?).elim [] Pipe.served)
      by_cases hother : other = index
      · subst hother
        have hall : (addsTo world.server other key command).filter
            (fun entry => decide (entry.2.pipe = other)) = addsTo world.server other key command := by
          rw [List.filter_eq_self]
          intro entry hentry
          exact decide_eq_true (hplace entry hentry)
        have hlt := (List.getElem?_eq_some_iff.mp hpipe).1
        rw [hall, hrecords, hpipe, List.getElem?_set_self hlt, ← recordsFor_append]
        rfl
      · have hnone : (addsTo world.server index key command).filter
            (fun entry => decide (entry.2.pipe = other)) = [] := by
          rw [List.filter_eq_nil_iff]
          intro entry hentry
          rw [hplace entry hentry]
          simpa using Ne.symm hother
        rw [hnone, List.getElem?_set_ne (Ne.symm hother), List.map_nil, List.append_nil]

theorem Sane.publish (h : world.Sane json iso bus) (events : List Event) :
    (step json iso bus world (.publish events)).Sane json iso bus := by
  refine ⟨h.logged, fun pipe hmem => ?_, fun key index => ?_⟩
  · rcases List.mem_append.mp hmem with hold | hnew
    · exact h.pipes pipe hold
    · rw [List.mem_singleton.mp hnew]
      simp
  · have htagged := h.tagged key index
    show _ = recordsFor key (((world.pipes ++ [⟨events, [], _, []⟩])[index]?).elim [] Pipe.served)
    rw [List.getElem?_append]
    split
    · exact htagged
    · rename_i hge
      -- a new pipeline has added nothing, and nothing is tagged with a place beyond it
      rw [List.getElem?_eq_none (Nat.le_of_not_lt hge)] at htagged
      rcases Nat.eq_zero_or_pos (index - world.pipes.length) with hzero | hpos
      · rw [hzero]
        exact htagged
      · rw [List.getElem?_eq_none (by rw [List.length_singleton]; exact hpos)]
        exact htagged

theorem Sane.lose (h : world.Sane json iso bus) (index : Nat) :
    (step json iso bus world (.lose index)).Sane json iso bus := by
  refine ⟨h.logged, fun pipe hmem => ?_, fun key other => ?_⟩
  · obtain ⟨place, hplace⟩ := List.getElem?_of_mem hmem
    rw [show (step json iso bus world (.lose index)).pipes = world.pipes.modify index _ from rfl,
      List.getElem?_modify] at hplace
    obtain ⟨old, hold, hpipe⟩ := Option.map_eq_some_iff.mp hplace
    have hsent := h.pipes old (List.mem_of_getElem? hold)
    rw [← hpipe]
    split
    · rw [← hsent]
      simp
    · exact hsent
  · have htagged := h.tagged key other
    refine htagged.trans (congrArg (recordsFor key) ?_)
    rw [show (step json iso bus world (.lose index)).pipes = world.pipes.modify index _ from rfl,
      List.getElem?_modify]
    cases world.pipes[other]? with
    | none => rfl
    | some pipe =>
      simp only [Option.map_eq_map, Option.map_some, Option.elim_some]
      split <;> rfl

/-- What the server holds is not touched by the moves of a reader. -/
theorem turn_server (json : JsonCodec) (iso : IsoCodec) (bus : RedisEventBus) (world : BusWorld) :
    (step json iso bus world .turn).server = world.server ∧
      (step json iso bus world .turn).pipes = world.pipes ∧
      (step json iso bus world .turn).added = world.added := by
  unfold step
  dsimp only
  split <;> exact ⟨rfl, rfl, rfl⟩

theorem Sane.step (h : world.Sane json iso bus) (move : BusWorldMove) :
    (step json iso bus world move).Sane json iso bus := by
  cases move with
  | publish events => exact h.publish events
  | serve index trim => exact h.serve index trim
  | lose index => exact h.lose index
  | tick ms => exact ⟨fun key => (h.logged key).tick (Nat.le_add_right _ ms), h.pipes, h.tagged⟩
  | ready => exact ⟨h.logged, h.pipes, h.tagged⟩
  | turn =>
    obtain ⟨hserver, hpipes, hadded⟩ := turn_server json iso bus world
    have hlog : ∀ key, (BusWorld.step json iso bus world .turn).log key = world.log key := by
      intro key
      rw [log, hadded, log]
    constructor
    · intro key
      rw [hserver, hlog]
      exact h.logged key
    · rw [hpipes]
      exact h.pipes
    · intro key index
      rw [hlog, hpipes]
      exact h.tagged key index
  | aclose => exact ⟨h.logged, h.pipes, h.tagged⟩

theorem sane_start (bus : RedisEventBus) (runId : RunId) : (start bus runId).Sane json iso bus := by
  refine ⟨fun key => logged_nothing 0, fun pipe hmem => ?_, fun key index => rfl⟩
  cases hmem

theorem sane_after (json : JsonCodec) (iso : IsoCodec) (bus : RedisEventBus) (runId : RunId) (moves : List BusWorldMove) :
    ((start bus runId).after json iso bus moves).Sane json iso bus :=
  Runs.after_invariant (sane_start bus runId) fun _ move h => h.step move

/-! ### The reader -/

/-- What the loop of `_read` consumes of a reply: all of it, or what comes up to the entry that
    cannot be decoded. -/
theorem acceptAll_spec (json : JsonCodec) (iso : IsoCodec) (self : RunEventStream)
    (entries : List (EntryId × StreamEntry)) :
    ∃ consumed rest, entries = consumed ++ rest ∧ (entries ≠ [] → consumed ≠ []) ∧
      (self.acceptAll json iso entries).1 = { self with
        lastId := (consumed.getLast?.map Prod.fst).or self.lastId
        buffer := self.buffer ++ consumed.filterMap (decoded json iso)
        closed := self.closed ||
          (consumed.filterMap (decoded json iso)).any Event.isTerminalForRun } := by
  induction entries generalizing self with
  | nil => exact ⟨[], [], rfl, fun h => h, by simp [RunEventStream.acceptAll]⟩
  | cons first rest ih =>
    obtain ⟨entryId, entry⟩ := first
    unfold RunEventStream.acceptAll RunEventStream.accept
    cases hdecode : decodeEvent json iso (fun field => List.lookup field entry.record) with
    | error e =>
      have hnone : decoded json iso (entryId, entry) = none := by
        rw [decoded, hdecode]
      exact ⟨[(entryId, entry)], rest, rfl, fun _ => List.cons_ne_nil _ _, by simp [hnone]⟩
    | ok found =>
      have hfound : decoded json iso (entryId, entry) = found := by
        rw [decoded, hdecode]
      cases found with
      | none =>
        obtain ⟨consumed, later, hsplit, -, hself⟩ := ih { self with lastId := some entryId }
        refine ⟨(entryId, entry) :: consumed, later, by rw [hsplit]; rfl,
          fun _ => List.cons_ne_nil _ _, ?_⟩
        refine hself.trans ?_
        cases consumed with
        | nil => simp [hfound]
        | cons second others => simp [hfound, List.getLast?_cons]
      | some event =>
        obtain ⟨consumed, later, hsplit, -, hself⟩ := ih { self with
          lastId := some entryId
          buffer := self.buffer ++ [event]
          closed := self.closed || event.isTerminalForRun }
        refine ⟨(entryId, entry) :: consumed, later, by rw [hsplit]; rfl,
          fun _ => List.cons_ne_nil _ _, ?_⟩
        refine hself.trans ?_
        cases consumed with
        | nil => simp [hfound]
        | cons second others => simp [hfound, List.getLast?_cons, Bool.or_assoc]

/-- What the reader has not read, once it has a position. -/
def waitingFor (world : BusWorld) (lastId : EntryId) : List (EntryId × StreamEntry) :=
  unread world.server.now (world.server.streams.lookup world.reader.key) lastId

/-- The reader keeps up, this move included: fewer entries wait for it than the server keeps, and
    none waits past the deadline of the key. -/
def KeepsUp (bus : RedisEventBus) (world : BusWorld) (move : BusWorldMove) : Prop :=
  ∀ lastId, world.reader.lastId = some lastId →
    match move with
    | .serve _ _ => (world.waitingFor lastId).length < bus.maxLength
    | .tick ms => world.waitingFor lastId = [] ∨
        ∀ stream, world.server.streams.lookup world.reader.key = some stream →
          stream.Live (world.server.now + ms)
    | .aclose => False
    | _ => True

/-- Since the reader took its position at the end of `earlier`, `read` is what it has read.
    `whole` says that it kept up and was not closed by its caller. -/
structure Follows (json : JsonCodec) (iso : IsoCodec) (whole : Prop)
    (earlier since read : List (EntryId × StreamEntry)) (lastId : EntryId) (world : BusWorld) : Prop where
  position : world.reader.lastId = some lastId
  reached : Reached (world.log world.reader.key) lastId
  log : world.log world.reader.key = earlier ++ since
  within : (read ++ world.waitingFor lastId).Sublist since
  all : whole → read ++ world.waitingFor lastId = since
  handed : (world.taken ++ world.reader.buffer).Sublist (read.filterMap (decoded json iso))
  handed_all : whole → world.taken ++ world.reader.buffer = read.filterMap (decoded json iso)
  closed : whole → world.reader.closed =
    (world.taken ++ world.reader.buffer).any Event.isTerminalForRun

section Steps

variable {whole whole' : Prop} {earlier since read : List (EntryId × StreamEntry)} {lastId : EntryId}

theorem Follows.weaken (h : Follows json iso whole earlier since read lastId world)
    (himp : whole' → whole) : Follows json iso whole' earlier since read lastId world :=
  ⟨h.position, h.reached, h.log, h.within, fun hwhole => h.all (himp hwhole), h.handed,
    fun hwhole => h.handed_all (himp hwhole), fun hwhole => h.closed (himp hwhole)⟩

theorem Follows.repiped (h : Follows json iso whole earlier since read lastId world)
    (pipes : List Pipe) : Follows json iso whole earlier since read lastId { world with pipes } :=
  ⟨h.position, h.reached, h.log, h.within, h.all, h.handed, h.handed_all, h.closed⟩

/-- A command adds to what waits under the key, and may drop the oldest of it if the reader does
    not keep up. -/
theorem waiting_execute (hsane : world.Sane json iso bus) {key : String}
    (hreached : Reached (world.log key) lastId) {command : StreamCommand}
    (hcommand : (∃ key record, command = .xadd key record bus.maxLength) ∨
      ∃ key, command = .pexpire key bus.runStreamTtlMs) (index trim : Nat) :
    ∃ dropped, unread world.server.now ((world.server.execute index trim command).streams.lookup key) lastId =
        (unread world.server.now (world.server.streams.lookup key) lastId ++
          addsTo world.server index key command).drop dropped ∧
      ((unread world.server.now (world.server.streams.lookup key) lastId).length < bus.maxLength →
        dropped = 0) := by
  rcases hcommand with ⟨key', record, rfl⟩ | ⟨key', rfl⟩
  · rw [execute_xadd_lookup]
    by_cases hkey : key = key'
    · subst hkey
      have hadds : addsTo world.server index key (.xadd key record bus.maxLength) =
          [(nextId world.server.now (current world.server.now (world.server.streams.lookup key)).lastId,
            ⟨index, record⟩)] := by
        simp [addsTo, adds]
      rw [if_pos rfl, hadds]
      exact (hsane.logged key).unread_xadd hreached bus.maxLength trim ⟨index, record⟩
    · have hadds : addsTo world.server index key (.xadd key' record bus.maxLength) = [] := by
        simp [addsTo, adds, Ne.symm hkey]
      rw [if_neg hkey, hadds, List.append_nil]
      exact ⟨0, rfl, fun _ => rfl⟩
  · have hadds : addsTo world.server index key (.pexpire key' bus.runStreamTtlMs) = [] := rfl
    rw [execute_pexpire_lookup, hadds, List.append_nil]
    refine ⟨0, ?_, fun _ => rfl⟩
    split
    · exact unread_pexpire bus.ttl_pos lastId
    · rfl

theorem Follows.serve (h : Follows json iso whole earlier since read lastId world)
    (hsane : world.Sane json iso bus) (index trim : Nat) :
    ∃ since', Follows json iso (whole ∧ KeepsUp bus world (.serve index trim)) earlier since' read lastId
      (step json iso bus world (.serve index trim)) := by
  rcases serve_cases json iso bus world index trim with hsame | ⟨events, served, command, waiting, lost,
    hpipe, hstep⟩
  · rw [hsame]
    exact ⟨since, h.weaken And.left⟩
  · have hsent := hsane.pipes _ (List.mem_of_getElem? hpipe)
    have hmem : command ∈ bus.publish json iso events := by
      rw [← hsent]
      exact List.mem_append_left _ (List.mem_append_right _ List.mem_cons_self)
    have hcommand := mem_publish hmem
    obtain ⟨dropped, hwaiting, hroom⟩ := waiting_execute hsane h.reached hcommand index trim
    refine ⟨since ++ addsTo world.server index world.reader.key command, ?_⟩
    rw [hstep]
    have hlater : ({ world with
        server := world.server.execute index trim command
        pipes := world.pipes.set index ⟨events, served ++ [command], waiting, lost⟩
        added := world.added ++ adds world.server index command } : BusWorld).waitingFor lastId =
          (world.waitingFor lastId ++ addsTo world.server index world.reader.key command).drop dropped := by
      show unread (world.server.execute index trim command).now _ _ = _
      rw [execute_now]
      exact hwaiting
    constructor
    · exact h.position
    · rw [log_append]
      exact h.reached.append _
    · rw [log_append]
      show world.log world.reader.key ++ _ = _
      rw [h.log, List.append_assoc]
    · rw [hlater]
      refine ((List.drop_sublist _ _).append_left read).trans ?_
      rw [← List.append_assoc]
      exact h.within.append_right _
    · rintro ⟨hwhole, hkeeps⟩
      rw [hlater, hroom (hkeeps lastId h.position), List.drop_zero, ← List.append_assoc, h.all hwhole]
    · exact h.handed
    · exact fun hwhole => h.handed_all hwhole.1
    · exact fun hwhole => h.closed hwhole.1

theorem Follows.tick (h : Follows json iso whole earlier since read lastId world) (ms : Nat) :
    Follows json iso (whole ∧ KeepsUp bus world (.tick ms)) earlier since read lastId
      (step json iso bus world (.tick ms)) := by
  have hlater : (step json iso bus world (.tick ms)).waitingFor lastId = world.waitingFor lastId ∨
      (step json iso bus world (.tick ms)).waitingFor lastId = [] :=
    unread_later (Nat.le_add_right _ ms) lastId
  constructor
  · exact h.position
  · exact h.reached
  · exact h.log
  · rcases hlater with hsame | hnone
    · rw [hsame]
      exact h.within
    · rw [hnone, List.append_nil]
      exact (List.sublist_append_left _ _).trans h.within
  · rintro ⟨hwhole, hkeeps⟩
    have hsame : (step json iso bus world (.tick ms)).waitingFor lastId = world.waitingFor lastId := by
      rcases hkeeps lastId h.position with hnone | hlive
      · rcases hlater with hsame | hgone
        · exact hsame
        · rw [hgone, hnone]
      · exact unread_of_live hlive (Nat.le_add_right _ ms) lastId
    rw [hsame]
    exact h.all hwhole
  · exact h.handed
  · exact fun hwhole => h.handed_all hwhole.1
  · exact fun hwhole => h.closed hwhole.1

theorem Follows.aclose (h : Follows json iso whole earlier since read lastId world) :
    Follows json iso (whole ∧ KeepsUp bus world .aclose) earlier since read lastId
      (step json iso bus world .aclose) := by
  have hnever : ¬ KeepsUp bus world .aclose := fun hkeeps => hkeeps lastId h.position
  refine ⟨h.position, h.reached, h.log, h.within, fun hwhole => absurd hwhole.2 hnever, ?_,
    fun hwhole => absurd hwhole.2 hnever, fun hwhole => absurd hwhole.2 hnever⟩
  show (world.taken ++ []).Sublist _
  rw [List.append_nil]
  exact (List.sublist_append_left _ _).trans h.handed

/-- What a turn does, once the reader has a position. -/
theorem turn_cases (json : JsonCodec) (iso : IsoCodec) (bus : RedisEventBus)
    (hposition : world.reader.lastId = some lastId) :
    (∃ event rest, world.reader.buffer = event :: rest ∧
      step json iso bus world .turn =
        { world with reader := { world.reader with buffer := rest }, taken := world.taken ++ [event] }) ∨
    (world.reader.buffer = [] ∧ world.reader.closed = true ∧ step json iso bus world .turn = world) ∨
    (world.reader.buffer = [] ∧ world.reader.closed = false ∧ ∃ consumed rest,
      (world.waitingFor lastId).take world.reader.batch = consumed ++ rest ∧
      ((world.waitingFor lastId).take world.reader.batch ≠ [] → consumed ≠ []) ∧
      step json iso bus world .turn = { world with reader := { world.reader with
        lastId := (consumed.getLast?.map Prod.fst).or (some lastId)
        buffer := consumed.filterMap (decoded json iso)
        closed := (consumed.filterMap (decoded json iso)).any Event.isTerminalForRun } }) := by
  unfold step RunEventStream.turn
  dsimp only
  cases hbuffer : world.reader.buffer with
  | cons event rest => exact .inl ⟨event, rest, rfl, rfl⟩
  | nil =>
    cases hclosed : world.reader.closed with
    | true => exact .inr (.inl ⟨rfl, rfl, rfl⟩)
    | false =>
      refine .inr (.inr ⟨rfl, rfl, ?_⟩)
      obtain ⟨consumed, rest, hsplit, hsome, hself⟩ := acceptAll_spec json iso world.reader
        (xread world.reader.batch world.server.now (world.server.streams.lookup world.reader.key) lastId)
      refine ⟨consumed, rest, hsplit, hsome, ?_⟩
      rw [hbuffer, hclosed, hposition, List.nil_append, Bool.false_or] at hself
      simp only [hposition, Bool.false_eq_true, if_false]
      rw [← hself]
      generalize RunEventStream.acceptAll json iso world.reader _ = answer
      obtain ⟨reader, raised⟩ := answer
      cases raised <;> rfl

/-- After a read the position is the last entry consumed, and what comes after it still waits. -/
theorem reading_advances (hsane : world.Sane json iso bus)
    (hreached : Reached (world.log world.reader.key) lastId) {consumed rest : List (EntryId × StreamEntry)}
    (hsplit : (world.waitingFor lastId).take world.reader.batch = consumed ++ rest) :
    ∃ lastId', (consumed.getLast?.map Prod.fst).or (some lastId) = some lastId' ∧
      Reached (world.log world.reader.key) lastId' ∧
      world.waitingFor lastId = consumed ++ world.waitingFor lastId' := by
  have hwaiting : world.waitingFor lastId =
      consumed ++ (rest ++ (world.waitingFor lastId).drop world.reader.batch) := by
    rw [← List.append_assoc, ← hsplit, List.take_append_drop]
  rcases List.eq_nil_or_concat consumed with rfl | ⟨init, last, hconcat⟩
  · exact ⟨lastId, rfl, hreached, rfl⟩
  · rw [List.concat_eq_append] at hconcat
    have hlast := hwaiting
    rw [hconcat, List.append_assoc, List.singleton_append] at hlast
    obtain ⟨hunread, hmem⟩ := (hsane.logged world.reader.key).unread_after hlast
    refine ⟨last.1, ?_, hmem, hwaiting.trans (congrArg _ hunread.symm)⟩
    rw [hconcat]
    simp

/-- A turn moves the position over what it reads, and hands out what it has read. -/
theorem Follows.turn (h : Follows json iso whole earlier since read lastId world)
    (hsane : world.Sane json iso bus) :
    ∃ read' lastId', Follows json iso whole earlier since read' lastId' (step json iso bus world .turn) := by
  rcases turn_cases json iso bus h.position with ⟨event, rest, hbuffer, hstep⟩ | ⟨-, -, hstep⟩ |
    ⟨hbuffer, hclosed, consumed, rest, hsplit, -, hstep⟩
  · rw [hstep]
    have hsame : world.taken ++ [event] ++ rest = world.taken ++ world.reader.buffer := by
      rw [hbuffer, List.append_assoc, List.singleton_append]
    refine ⟨read, lastId, h.position, h.reached, h.log, h.within, h.all, ?_, fun hwhole => ?_,
      fun hwhole => ?_⟩
    · show (world.taken ++ [event] ++ rest).Sublist _
      rw [hsame]
      exact h.handed
    · show world.taken ++ [event] ++ rest = _
      rw [hsame]
      exact h.handed_all hwhole
    · show world.reader.closed = (world.taken ++ [event] ++ rest).any Event.isTerminalForRun
      rw [hsame]
      exact h.closed hwhole
  · rw [hstep]
    exact ⟨read, lastId, h⟩
  · rw [hstep]
    obtain ⟨lastId', hlast, hreached, hwaiting⟩ := reading_advances hsane h.reached hsplit
    have hall : (read ++ consumed) ++ world.waitingFor lastId' = read ++ world.waitingFor lastId := by
      rw [hwaiting, List.append_assoc]
    have hevents : (read ++ consumed).filterMap (decoded json iso) =
        read.filterMap (decoded json iso) ++ consumed.filterMap (decoded json iso) :=
      List.filterMap_append
    have hbefore := h.handed
    rw [hbuffer, List.append_nil] at hbefore
    refine ⟨read ++ consumed, lastId', hlast, hreached, h.log, ?_, fun hwhole => ?_, ?_, fun hwhole => ?_,
      fun hwhole => ?_⟩
    · show (read ++ consumed ++ world.waitingFor lastId').Sublist since
      rw [hall]
      exact h.within
    · show read ++ consumed ++ world.waitingFor lastId' = since
      rw [hall]
      exact h.all hwhole
    · rw [hevents]
      exact hbefore.append_right _
    · have hhanded := h.handed_all hwhole
      rw [hbuffer, List.append_nil] at hhanded
      rw [hevents, ← hhanded]
    · have hopen := h.closed hwhole
      rw [hclosed, hbuffer, List.append_nil] at hopen
      show _ = (world.taken ++ consumed.filterMap (decoded json iso)).any Event.isTerminalForRun
      rw [List.any_append, ← hopen, Bool.false_or]

theorem Follows.step (h : Follows json iso whole earlier since read lastId world)
    (hsane : world.Sane json iso bus) (move : BusWorldMove) :
    ∃ since' read' lastId', Follows json iso (whole ∧ KeepsUp bus world move) earlier since' read' lastId'
      (step json iso bus world move) := by
  cases move with
  | publish events => exact ⟨since, read, lastId, (h.repiped _).weaken And.left⟩
  | serve index trim =>
    obtain ⟨since', hserve⟩ := h.serve hsane index trim
    exact ⟨since', read, lastId, hserve⟩
  | lose index => exact ⟨since, read, lastId, (h.repiped _).weaken And.left⟩
  | tick ms => exact ⟨since, read, lastId, h.tick ms⟩
  | ready =>
    have hsame : BusWorld.step json iso bus world .ready = world := by
      unfold BusWorld.step RunEventStream.ready
      rw [h.position]
    rw [hsame]
    exact ⟨since, read, lastId, h.weaken And.left⟩
  | turn =>
    obtain ⟨read', lastId', hturn⟩ := h.turn hsane
    exact ⟨since, read', lastId', hturn.weaken And.left⟩
  | aclose => exact ⟨since, read, lastId, h.aclose⟩

theorem Follows.after (h : Follows json iso whole earlier since read lastId world)
    (hsane : world.Sane json iso bus) (moves : List BusWorldMove) :
    ∃ since' read' lastId', Follows json iso
      (whole ∧ Runs.Along (BusWorld.step json iso bus) (KeepsUp bus) world moves) earlier since' read'
      lastId' (world.after json iso bus moves) := by
  induction moves generalizing world whole since read lastId with
  | nil => exact ⟨since, read, lastId, h.weaken And.left⟩
  | cons move rest ih =>
    obtain ⟨since', read', lastId', hnext⟩ := h.step hsane move
    obtain ⟨since'', read'', lastId'', hrest⟩ := ih hnext (hsane.step move)
    exact ⟨since'', read'', lastId'', hrest.weaken fun hwhole => ⟨⟨hwhole.1, hwhole.2.1⟩, hwhole.2.2⟩⟩

/-- A reader that takes its position follows what is added from then on. -/
theorem follows_ready (hsane : world.Sane json iso bus) (hnew : world.reader.lastId = none)
    (hbuffer : world.reader.buffer = []) (htaken : world.taken = []) (hopen : world.reader.closed = false) :
    ∃ lastId, Follows json iso True (world.log world.reader.key) [] [] lastId
      (step json iso bus world .ready) := by
  obtain ⟨hnone, hreached⟩ := (hsane.logged world.reader.key).unread_latest
  have hstep : step json iso bus world .ready = { world with reader := { world.reader with
      lastId := some (((xrevrange world.server.now (world.server.streams.lookup world.reader.key)).map
        Prod.fst).getD zero) } } := by
    unfold step RunEventStream.ready
    rw [hnew]
  rw [hstep]
  refine ⟨_, rfl, hreached, (List.append_nil _).symm, ?_, fun _ => hnone, ?_, fun _ => ?_, fun _ => ?_⟩
  · show ([] ++ unread _ _ _).Sublist []
    rw [hnone]
    exact List.Sublist.refl _
  · show (world.taken ++ world.reader.buffer).Sublist _
    rw [htaken, hbuffer]
    exact List.Sublist.refl _
  · show world.taken ++ world.reader.buffer = []
    rw [htaken, hbuffer]
    rfl
  · show world.reader.closed = (world.taken ++ world.reader.buffer).any _
    rw [htaken, hbuffer, hopen]
    rfl

/-- A reader stays on its key. -/
theorem reader_fixed (json : JsonCodec) (iso : IsoCodec) (bus : RedisEventBus) (world : BusWorld)
    (move : BusWorldMove) : (step json iso bus world move).reader.key = world.reader.key ∧
      (step json iso bus world move).reader.batch = world.reader.batch := by
  have hready : (world.reader.ready world.server).key = world.reader.key ∧
      (world.reader.ready world.server).batch = world.reader.batch := by
    unfold RunEventStream.ready
    split <;> exact ⟨rfl, rfl⟩
  cases move with
  | publish events => exact ⟨rfl, rfl⟩
  | serve index trim =>
    rcases serve_cases json iso bus world index trim with hsame | ⟨_, _, _, _, _, -, hstep⟩
    · rw [hsame]
      exact ⟨rfl, rfl⟩
    · rw [hstep]
      exact ⟨rfl, rfl⟩
  | lose index => exact ⟨rfl, rfl⟩
  | tick ms => exact ⟨rfl, rfl⟩
  | ready => exact hready
  | turn =>
    cases hposition : world.reader.lastId with
    | some lastId =>
      rcases turn_cases json iso bus hposition with ⟨event, rest, -, hstep⟩ | ⟨-, -, hstep⟩ |
        ⟨-, -, consumed, rest, -, -, hstep⟩
      · rw [hstep]
        exact ⟨rfl, rfl⟩
      · rw [hstep]
        exact ⟨rfl, rfl⟩
      · rw [hstep]
        exact ⟨rfl, rfl⟩
    | none =>
      unfold step RunEventStream.turn
      dsimp only
      cases world.reader.buffer with
      | cons event rest => exact ⟨rfl, rfl⟩
      | nil =>
        cases world.reader.closed with
        | true => exact ⟨rfl, rfl⟩
        | false =>
          simp only [hposition, Bool.false_eq_true, if_false]
          exact hready
  | aclose => exact ⟨rfl, rfl⟩

theorem reader_after (json : JsonCodec) (iso : IsoCodec) (bus : RedisEventBus) (runId : RunId) (moves : List BusWorldMove) :
    ((start bus runId).after json iso bus moves).reader.key = bus.keys.runStream runId ∧
      ((start bus runId).after json iso bus moves).reader.batch = bus.maxLength := by
  have hkept : ∀ (world : BusWorld) (move : BusWorldMove),
      world.reader.key = bus.keys.runStream runId ∧ world.reader.batch = bus.maxLength →
      (step json iso bus world move).reader.key = bus.keys.runStream runId ∧
        (step json iso bus world move).reader.batch = bus.maxLength := by
    intro world move h
    obtain ⟨hkey, hbatch⟩ := reader_fixed json iso bus world move
    exact ⟨hkey.trans h.1, hbatch.trans h.2⟩
  exact Runs.after_invariant (I := fun world : BusWorld =>
    world.reader.key = bus.keys.runStream runId ∧ world.reader.batch = bus.maxLength) ⟨rfl, rfl⟩ hkept

/-! ### A reader that keeps calling -/

/-- What waits for the reader. -/
def waiting (world : BusWorld) : List (EntryId × StreamEntry) := world.reader.lastId.elim [] world.waitingFor

/-- There is nothing to hand out, and nothing to read or nobody who would. -/
def Idle (world : BusWorld) : Prop :=
  world.reader.buffer = [] ∧ (world.reader.closed = true ∨ world.waiting = [])

/-- An entry that waits is read and then handed out. -/
def pending (world : BusWorld) : Nat := 2 * world.waiting.length + world.reader.buffer.length

theorem turn_drains (h : Follows json iso whole earlier since read lastId world)
    (hsane : world.Sane json iso bus) (hbatch : 0 < world.reader.batch) :
    (step json iso bus world .turn).Idle ∨
      ¬ world.Idle ∧ (step json iso bus world .turn).pending < world.pending := by
  have hwaiting : world.waiting = world.waitingFor lastId := by
    rw [waiting, h.position]
    rfl
  rcases turn_cases json iso bus h.position with ⟨event, rest, hbuffer, hstep⟩ |
    ⟨hbuffer, hclosed, hstep⟩ | ⟨hbuffer, hclosed, consumed, rest, hsplit, hsome, hstep⟩
  · right
    refine ⟨fun hidle => ?_, ?_⟩
    · rw [hidle.1] at hbuffer
      cases hbuffer
    · rw [hstep]
      show 2 * world.waiting.length + rest.length < _
      rw [pending, hbuffer, List.length_cons]
      omega
  · rw [hstep]
    exact .inl ⟨hbuffer, .inl hclosed⟩
  · obtain ⟨lastId', hlast, -, hrest⟩ := reading_advances hsane h.reached hsplit
    have hnext : (step json iso bus world .turn).waiting = world.waitingFor lastId' := by
      rw [waiting, hstep]
      show ((consumed.getLast?.map Prod.fst).or (some lastId)).elim [] _ = _
      rw [hlast]
      rfl
    by_cases hnone : world.waitingFor lastId = []
    · left
      have hempty := hrest
      rw [hnone, eq_comm, List.append_eq_nil_iff] at hempty
      refine ⟨?_, .inr (hnext.trans hempty.2)⟩
      rw [hstep]
      show consumed.filterMap _ = []
      rw [hempty.1]
      rfl
    · right
      have hconsumed : consumed ≠ [] := by
        refine hsome fun htake => ?_
        rcases List.take_eq_nil_iff.mp htake with hzero | hnil
        · exact absurd hzero (Nat.ne_of_gt hbatch)
        · exact hnone hnil
      refine ⟨fun hidle => ?_, ?_⟩
      · rcases hidle.2 with hclosed' | hnil
        · rw [hclosed] at hclosed'
          cases hclosed'
        · exact hnone (hwaiting.symm.trans hnil)
      · have hpos := List.length_pos_iff.mpr hconsumed
        have hhanded := List.length_filterMap_le (decoded json iso) consumed
        have hbuffer' : (step json iso bus world .turn).reader.buffer =
            consumed.filterMap (decoded json iso) := by
          rw [hstep]
        rw [pending, pending, hnext, hwaiting, hrest, hbuffer', hbuffer, List.length_append,
          List.length_nil]
        omega

theorem idle_of_pending (h : world.pending = 0) : world.Idle := by
  unfold pending at h
  have hwaiting : world.waiting.length = 0 := by omega
  have hbuffer : world.reader.buffer.length = 0 := by omega
  exact ⟨List.length_eq_zero_iff.mp hbuffer, .inr (List.length_eq_zero_iff.mp hwaiting)⟩

/-- Enough turns leave nothing to do. -/
theorem Follows.drained (h : Follows json iso whole earlier since read lastId world)
    (hsane : world.Sane json iso bus) (hbatch : 0 < world.reader.batch) {turns : Nat}
    (hturns : world.Idle ∨ world.pending ≤ turns) :
    ∃ read' lastId',
      Follows json iso whole earlier since read' lastId'
        (world.after json iso bus (List.replicate turns .turn)) ∧
      (world.after json iso bus (List.replicate turns .turn)).Idle := by
  induction turns generalizing world read lastId with
  | zero =>
    refine ⟨read, lastId, h, ?_⟩
    rcases hturns with hidle | hzero
    · exact hidle
    · exact idle_of_pending (Nat.eq_zero_of_le_zero hzero)
  | succ turns ih =>
    obtain ⟨read', lastId', hnext⟩ := h.turn hsane
    have hbatch' : 0 < (BusWorld.step json iso bus world .turn).reader.batch := by
      rw [(reader_fixed json iso bus world .turn).2]
      exact hbatch
    rw [List.replicate_succ]
    refine ih hnext (hsane.step .turn) hbatch' ?_
    rcases turn_drains h hsane hbatch with hidle | ⟨hbusy, hless⟩
    · exact .inl hidle
    · right
      have hpending := hturns.resolve_left hbusy
      omega

/-! ### Taking a position -/

theorem reader_untouched (json : JsonCodec) (iso : IsoCodec) (bus : RedisEventBus) (world : BusWorld)
    {moves : List BusWorldMove} (h : ∀ move ∈ moves, move.ofReader = false) :
    (world.after json iso bus moves).reader = world.reader ∧
      (world.after json iso bus moves).taken = world.taken := by
  induction moves generalizing world with
  | nil => exact ⟨rfl, rfl⟩
  | cons move rest ih =>
    rw [List.forall_mem_cons] at h
    obtain ⟨hreader, htaken⟩ := ih (BusWorld.step json iso bus world move) h.2
    have hmove : (BusWorld.step json iso bus world move).reader = world.reader ∧
        (BusWorld.step json iso bus world move).taken = world.taken := by
      cases move with
      | serve index trim =>
        rcases serve_cases json iso bus world index trim with hsame | ⟨_, _, _, _, _, -, hstep⟩
        · rw [hsame]
          exact ⟨rfl, rfl⟩
        · rw [hstep]
          exact ⟨rfl, rfl⟩
      | publish events => exact ⟨rfl, rfl⟩
      | lose index => exact ⟨rfl, rfl⟩
      | tick ms => exact ⟨rfl, rfl⟩
      | ready => cases h.1
      | turn => cases h.1
      | aclose => cases h.1
    exact ⟨hreader.trans hmove.1, htaken.trans hmove.2⟩

/-- The first turn of a reader takes its position, too. -/
theorem turn_of_new (hnew : world.reader.lastId = none) (hbuffer : world.reader.buffer = [])
    (hopen : world.reader.closed = false) :
    step json iso bus world .turn = step json iso bus world .ready := by
  unfold step RunEventStream.turn
  dsimp only
  rw [hbuffer]
  simp only [hopen, Bool.false_eq_true, if_false, hnew]

end Steps

/-! ### What was published -/

theorem admits_uuid {hint : Annotation} {kind : IdKind} {id : EntityId kind}
    (h : hint.Admits (.entityId kind id)) : IsUuid id.value := by
  induction hint with
  | entityId kind' => exact h.2
  | optional inner ih =>
    rcases h with hnone | hinner
    · cases hnone
    · exact ih hinner
  | _ => exact h.elim

/-- An event that a publisher of this deployment can build and write. -/
structure Publishable (json : JsonCodec) (iso : IsoCodec) (event : Event) : Prop where
  exported : event.type ∈ EventClass.exported
  admissible : event.Admissible
  representable : json.Representable (event.payload iso)

theorem Publishable.run_uuid {event : Event} (h : Publishable json iso event) {runId : RunId}
    (hrun : event.runIdOf = some runId) : IsUuid runId.value := by
  unfold Event.runIdOf at hrun
  split at hrun
  · rename_i found hlookup
    rw [Option.some.injEq] at hrun
    subst hrun
    obtain ⟨before, after, hsplit, -⟩ := List.lookup_eq_some_iff.mp hlookup
    have hmem : ("run_id", FieldValue.entityId .run found) ∈ event.fields := by
      rw [hsplit]
      exact List.mem_append_right _ List.mem_cons_self
    obtain ⟨field, -, -, hadmits⟩ := h.admissible.typed.field_of_mem hmem
    exact admits_uuid hadmits
  · cases hrun

/-- The events of one run. -/
abbrev ofRun (runId : RunId) (events : List Event) : List Event :=
  EventBus.addressed Event.runIdOf runId events

/-- Under the key of a run, a pipeline adds the events of that run and no others, in order. -/
theorem recordsFor_publish {runId : RunId} (hrun : IsUuid runId.value) {events : List Event}
    (h : ∀ event ∈ events, Publishable json iso event) :
    recordsFor (bus.keys.runStream runId) (bus.publish json iso events) =
      (ofRun runId events).map (encodeEvent json iso) := by
  induction events with
  | nil => rfl
  | cons event rest ih =>
    rw [List.forall_mem_cons] at h
    have hglobal : bus.keys.eventStream ≠ bus.keys.runStream runId := by
      intro hsame
      cases @Keyspace.key_inj bus.keys .eventStream (.runStream runId) trivial hrun hsame
    have hfirst : recordsFor (bus.keys.runStream runId) (bus.commandsFor json iso event) =
        (ofRun runId [event]).map (encodeEvent json iso) := by
      unfold RedisEventBus.commandsFor
      dsimp only
      cases howner : event.runIdOf with
      | none => simp [recordsFor, hglobal, EventBus.addressed, howner]
      | some owner =>
        by_cases hsame : owner = runId
        · simp [recordsFor, hglobal, EventBus.addressed, howner, hsame]
        · have hother : bus.keys.runStream owner ≠ bus.keys.runStream runId := by
            intro hkeys
            cases @Keyspace.key_inj bus.keys (.runStream owner) (.runStream runId)
              (h.1.run_uuid howner) hrun hkeys
            exact hsame rfl
          simp [recordsFor, hglobal, EventBus.addressed, howner, hsame, hother]
    show recordsFor _ (bus.commandsFor json iso event ++ bus.publish json iso rest) = _
    rw [recordsFor_append, hfirst, ih h.2, ← List.map_append]
    exact congrArg _ (List.filter_append [event] rest).symm

/-- A reader gets the events back that were written. -/
theorem filterMap_records {events : List Event} (h : ∀ event ∈ events, Publishable json iso event)
    {entries : List (EntryId × StreamEntry)}
    (hentries : entries.map (fun entry => entry.2.record) = events.map (encodeEvent json iso)) :
    entries.filterMap (decoded json iso) = events := by
  induction entries generalizing events with
  | nil =>
    cases events with
    | nil => rfl
    | cons event rest => cases hentries
  | cons entry others ih =>
    cases events with
    | nil => cases hentries
    | cons event rest =>
      rw [List.forall_mem_cons] at h
      rw [List.map_cons, List.map_cons, List.cons.injEq] at hentries
      have hdecoded : decoded json iso entry = some event := by
        rw [decoded, hentries.1,
          decodeEvent_encodeEvent json iso h.1.exported h.1.admissible h.1.representable]
      rw [List.filterMap_cons_some hdecoded, ih h.2 hentries.2]

/-- What a pipeline has added under the key of a run since some moment are events of that run that
    it was sent for, one after the other and each once. -/
theorem Sane.published (h : world.Sane json iso bus) {runId : RunId} (hrun : IsUuid runId.value)
    {earlier since : List (EntryId × StreamEntry)}
    (hlog : world.log (bus.keys.runStream runId) = earlier ++ since) {index : Nat} {pipe : Pipe}
    (hpipe : world.pipes[index]? = some pipe) (hevents : ∀ event ∈ pipe.events, Publishable json iso event) :
    ((since.filter fun entry => decide (entry.2.pipe = index)).filterMap (decoded json iso)) <:+:
      ofRun runId pipe.events := by
  have hsent : recordsFor (bus.keys.runStream runId) (bus.publish json iso pipe.events) =
      (ofRun runId pipe.events).map (encodeEvent json iso) := recordsFor_publish hrun hevents
  rw [← h.pipes pipe (List.mem_of_getElem? hpipe), recordsFor_append, recordsFor_append,
    List.append_assoc] at hsent
  have htagged := h.tagged (bus.keys.runStream runId) index
  rw [hpipe, Option.elim_some, hlog, List.filter_append, List.map_append] at htagged
  rw [← htagged, List.append_assoc] at hsent
  obtain ⟨before, others, hsplit, -, hothers⟩ := List.append_eq_map_iff.mp hsent
  obtain ⟨mine, rest, hrest, hmine, -⟩ := List.append_eq_map_iff.mp hothers.symm
  have hmem : ∀ event ∈ mine, Publishable json iso event := by
    intro event hevent
    have hall : event ∈ ofRun runId pipe.events := by
      rw [hsplit, hrest]
      exact List.mem_append_right _ (List.mem_append_left _ hevent)
    exact hevents event (List.mem_filter.mp hall).1
  rw [filterMap_records hmem hmine.symm, hsplit, hrest]
  exact ⟨before, rest, List.append_assoc _ _ _⟩

/-- A pipeline that was sent later, and that the server has run to its end, has added them all. -/
theorem Sane.published_all (h : world.Sane json iso bus) {runId : RunId} (hrun : IsUuid runId.value)
    {earlier since : List (EntryId × StreamEntry)}
    (hlog : world.log (bus.keys.runStream runId) = earlier ++ since) {index : Nat} {pipe : Pipe}
    (hpipe : world.pipes[index]? = some pipe) (hevents : ∀ event ∈ pipe.events, Publishable json iso event)
    (hlater : ∀ entry ∈ earlier, entry.2.pipe ≠ index) (hwaiting : pipe.waiting = []) (hlost : pipe.lost = []) :
    ((since.filter fun entry => decide (entry.2.pipe = index)).filterMap (decoded json iso)) =
      ofRun runId pipe.events := by
  have hsent : recordsFor (bus.keys.runStream runId) (bus.publish json iso pipe.events) =
      (ofRun runId pipe.events).map (encodeEvent json iso) := recordsFor_publish hrun hevents
  have hserved := h.pipes pipe (List.mem_of_getElem? hpipe)
  rw [hwaiting, hlost, List.append_nil, List.append_nil] at hserved
  have hnone : earlier.filter (fun entry => decide (entry.2.pipe = index)) = [] := by
    rw [List.filter_eq_nil_iff]
    intro entry hentry
    simpa using hlater entry hentry
  have htagged := h.tagged (bus.keys.runStream runId) index
  rw [hpipe, Option.elim_some, hlog, List.filter_append, hnone, List.nil_append, hserved, hsent] at htagged
  refine filterMap_records (fun event hevent => ?_) htagged
  exact hevents event (List.mem_filter.mp hevent).1

/-! ### Both bounds on what a reader is handed -/

section Following

variable {runId : RunId} {before later : List BusWorldMove} {pin : BusWorldMove}

/-- A reader that took its position after `before` follows its run from there. -/
theorem follows_after (json : JsonCodec) (iso : IsoCodec) (bus : RedisEventBus) (runId : RunId) (hpin : pin = .ready ∨ pin = .turn)
    (hbefore : ∀ move ∈ before, move.ofReader = false) (later : List BusWorldMove) :
    ∃ since read lastId, Follows json iso
      (Runs.Along (step json iso bus) (KeepsUp bus)
        ((start bus runId).after json iso bus (before ++ [pin])) later)
      (((start bus runId).after json iso bus before).log (bus.keys.runStream runId)) since read lastId
      ((start bus runId).after json iso bus (before ++ pin :: later)) := by
  obtain ⟨hreader, htaken⟩ := reader_untouched json iso bus (start bus runId) hbefore
  have hsane : ((start bus runId).after json iso bus before).Sane json iso bus :=
    sane_after json iso bus runId before
  generalize hworld : (start bus runId).after json iso bus before = world at hreader htaken hsane
  have hready : step json iso bus world pin = step json iso bus world .ready := by
    rcases hpin with rfl | rfl
    · rfl
    · exact turn_of_new (by rw [hreader]; rfl) (by rw [hreader]; rfl) (by rw [hreader]; rfl)
  obtain ⟨lastId, hfollows⟩ := follows_ready hsane (by rw [hreader]; rfl) (by rw [hreader]; rfl)
    (by rw [htaken]; rfl) (by rw [hreader]; rfl)
  rw [← hready, hreader] at hfollows
  obtain ⟨since, read, lastId', hafter⟩ := hfollows.after (hsane.step pin) later
  have hsplit : (start bus runId).after json iso bus (before ++ pin :: later) =
      (step json iso bus world pin).after json iso bus later := by
    rw [← hworld]
    exact Runs.after_append
  have hpinned : (start bus runId).after json iso bus (before ++ [pin]) = step json iso bus world pin := by
    rw [← hworld]
    exact Runs.after_append
  rw [hsplit, hpinned]
  exact ⟨since, read, lastId', hafter.weaken fun h => ⟨trivial, h⟩⟩

/-- **In order and at most once**: whatever publishers, the server and its clock do, what a reader is
    handed is, in order, some of what was added for its run since it took its position, and of each
    pipeline that is a stretch of the events of the run that it was sent for. -/
theorem reader_in_order (bus : RedisEventBus) (hrun : IsUuid runId.value) (hpin : pin = .ready ∨ pin = .turn)
    (hbefore : ∀ move ∈ before, move.ofReader = false) (later : List BusWorldMove) :
    ∃ since read : List (EntryId × StreamEntry),
      ((start bus runId).after json iso bus (before ++ pin :: later)).log (bus.keys.runStream runId) =
        ((start bus runId).after json iso bus before).log (bus.keys.runStream runId) ++ since ∧
      read.Sublist since ∧
      (((start bus runId).after json iso bus (before ++ pin :: later)).taken ++
          ((start bus runId).after json iso bus (before ++ pin :: later)).reader.buffer).Sublist
        (read.filterMap (decoded json iso)) ∧
      ∀ index pipe,
        ((start bus runId).after json iso bus (before ++ pin :: later)).pipes[index]? = some pipe →
        (∀ event ∈ pipe.events, Publishable json iso event) →
        (since.filter fun entry => decide (entry.2.pipe = index)).filterMap (decoded json iso) <:+:
          ofRun runId pipe.events := by
  obtain ⟨since, read, lastId, hfollows⟩ := follows_after json iso bus runId hpin hbefore later
  have hsane := sane_after json iso bus runId (before ++ pin :: later)
  have hlog := hfollows.log
  rw [(reader_after json iso bus runId _).1] at hlog
  refine ⟨since, read, hlog, (List.sublist_append_left _ _).trans hfollows.within, hfollows.handed, ?_⟩
  intro index pipe hpipe hevents
  exact hsane.published hrun hlog hpipe hevents

namespace Sample

def smallBus : RedisEventBus := .create Keyspace.Sample.staging 2 0

/-- A batch of one event, whose three commands are served, and two calls of the reader. -/
def published : List BusWorldMove :=
  [.publish [EventSample.started], .serve 0 0, .serve 0 0, .serve 0 0, .turn, .turn]

/-- The sample before the reader is called. -/
def served : BusWorld :=
  (start smallBus ⟨2⟩).after EventSample.codec .sample smallBus
    [.ready, .publish [EventSample.started], .serve 0 0, .serve 0 0, .serve 0 0]

end Sample

/-- The calls of the reader change neither what the publisher sent nor what the server has. -/
theorem published_served :
    ((start Sample.smallBus ⟨2⟩).after EventSample.codec .sample Sample.smallBus
        (.ready :: Sample.published)).added = Sample.served.added ∧
      ((start Sample.smallBus ⟨2⟩).after EventSample.codec .sample Sample.smallBus
        (.ready :: Sample.published)).pipes = Sample.served.pipes := by
  have hfirst := turn_server EventSample.codec .sample Sample.smallBus Sample.served
  have hsecond := turn_server EventSample.codec .sample Sample.smallBus
    (step EventSample.codec .sample Sample.smallBus Sample.served .turn)
  exact ⟨hsecond.2.2.trans hfirst.2.2, hsecond.2.1.trans hfirst.2.1⟩

/-- The run's stream has got the event by the end of the sample. -/
theorem published_log : ∃ entry, entry ∈ ((start Sample.smallBus ⟨2⟩).after EventSample.codec .sample
    Sample.smallBus (.ready :: Sample.published)).log (Sample.smallBus.keys.runStream ⟨2⟩) := by
  have hadded : (Sample.served.added[1]?.map Prod.fst) = some (Sample.smallBus.keys.runStream ⟨2⟩) := by
    decide +kernel
  obtain ⟨entry, hentry, hkey⟩ := Option.map_eq_some_iff.mp hadded
  rw [← published_served.1] at hentry
  exact ⟨entry.2, List.mem_map.mpr ⟨entry,
    List.mem_filter.mpr ⟨List.mem_of_getElem? hentry, decide_eq_true hkey⟩, rfl⟩⟩

theorem reader_in_order_sample :
    ∃ since read : List (EntryId × StreamEntry), since ≠ [] ∧
      ((start Sample.smallBus ⟨2⟩).after EventSample.codec .sample Sample.smallBus (.ready :: Sample.published)).log
          (Sample.smallBus.keys.runStream ⟨2⟩) = [] ++ since ∧
        read.Sublist since ∧
        ((start Sample.smallBus ⟨2⟩).after EventSample.codec .sample Sample.smallBus
          (.ready :: Sample.published)).taken.Sublist (read.filterMap (decoded EventSample.codec .sample)) := by
  obtain ⟨since, read, hlog, hread, hhanded, -⟩ := @reader_in_order EventSample.codec
    .sample ⟨2⟩ [] .ready Sample.smallBus (by decide) (.inl rfl) (fun move hmove => nomatch hmove)
    Sample.published
  refine ⟨since, read, ?_, hlog, hread, (List.sublist_append_left _ _).trans hhanded⟩
  rintro rfl
  obtain ⟨entry, hentry⟩ := published_log
  rw [List.nil_append] at hlog
  rw [hlog] at hentry
  cases hentry

/-- **Nothing is lost** while the reader keeps up: if it goes on calling, it is handed all that was
    added for its run since it took its position, or it was handed an event that ends the run. -/
theorem reader_complete (bus : RedisEventBus) (hrun : IsUuid runId.value) (hlength : 0 < bus.maxLength)
    (hpin : pin = .ready ∨ pin = .turn) (hbefore : ∀ move ∈ before, move.ofReader = false)
    (hkeeps : Runs.Along (step json iso bus) (KeepsUp bus)
      ((start bus runId).after json iso bus (before ++ [pin])) later) :
    ∃ since,
      ((start bus runId).after json iso bus (before ++ pin :: later)).log (bus.keys.runStream runId) =
        ((start bus runId).after json iso bus before).log (bus.keys.runStream runId) ++ since ∧
      (∀ turns, 2 * since.length ≤ turns →
        let calm := (start bus runId).after json iso bus (before ++ pin :: later ++ List.replicate turns .turn)
        calm.taken = since.filterMap (decoded json iso) ∨
          calm.taken <+: since.filterMap (decoded json iso) ∧
            calm.taken.any Event.isTerminalForRun = true) ∧
      ∀ index pipe,
        ((start bus runId).after json iso bus (before ++ pin :: later)).pipes[index]? = some pipe →
        (∀ event ∈ pipe.events, Publishable json iso event) →
        ((start bus runId).after json iso bus before).pipes.length ≤ index →
        pipe.waiting = [] → pipe.lost = [] →
        (since.filter fun entry => decide (entry.2.pipe = index)).filterMap (decoded json iso) =
          ofRun runId pipe.events := by
  obtain ⟨since, read, lastId, hfollows⟩ := follows_after json iso bus runId hpin hbefore later
  have hsane := sane_after json iso bus runId (before ++ pin :: later)
  have hearlier := sane_after json iso bus runId before
  obtain ⟨hkey, hbatch⟩ := reader_after json iso bus runId (before ++ pin :: later)
  have hlog := hfollows.log
  rw [hkey] at hlog
  refine ⟨since, hlog, fun turns hturns => ?_, fun index pipe hpipe hevents hlater hwaiting hlost => ?_⟩
  · have hpending : ((start bus runId).after json iso bus (before ++ pin :: later)).pending ≤ turns := by
      have hall := congrArg List.length (hfollows.all hkeeps)
      have hhanded := congrArg List.length (hfollows.handed_all hkeeps)
      have hread := List.length_filterMap_le (decoded json iso) read
      rw [List.length_append] at hall hhanded
      unfold pending waiting
      rw [hfollows.position, Option.elim_some]
      omega
    obtain ⟨read', lastId', hdrained, hempty, hidle⟩ :=
      hfollows.drained hsane (by rw [hbatch]; exact hlength) (.inr hpending)
    have hcalm : (start bus runId).after json iso bus
        (before ++ pin :: later ++ List.replicate turns .turn) =
          ((start bus runId).after json iso bus (before ++ pin :: later)).after json iso bus
            (List.replicate turns .turn) := Runs.after_append
    rw [hcalm]
    generalize ((start bus runId).after json iso bus (before ++ pin :: later)).after json iso bus
      (List.replicate turns .turn) = calm at hdrained hempty hidle
    have hall := hdrained.all hkeeps
    have htaken := hdrained.handed_all hkeeps
    rw [hempty, List.append_nil] at htaken
    rcases hidle with hclosed | hnone
    · right
      rw [hdrained.closed hkeeps, hempty, List.append_nil] at hclosed
      refine ⟨?_, hclosed⟩
      rw [htaken, ← hall, List.filterMap_append]
      exact List.prefix_append _ _
    · left
      rw [waiting, hdrained.position, Option.elim_some] at hnone
      rw [hnone, List.append_nil] at hall
      rw [htaken, hall]
  · refine hsane.published_all hrun hlog hpipe hevents (fun entry hentry htag => ?_) hwaiting hlost
    -- nothing was tagged with the place of a pipeline that had not been sent
    have hnone := hearlier.tagged (bus.keys.runStream runId) index
    rw [List.getElem?_eq_none hlater] at hnone
    have hmem : entry ∈ (((start bus runId).after json iso bus before).log
        (bus.keys.runStream runId)).filter fun entry => decide (entry.2.pipe = index) :=
      List.mem_filter.mpr ⟨hentry, decide_eq_true htag⟩
    rw [List.map_eq_nil_iff.mp hnone] at hmem
    cases hmem

theorem reader_complete_sample :
    ∃ since : List (EntryId × StreamEntry),
      ((start Sample.smallBus ⟨2⟩).after EventSample.codec .sample Sample.smallBus (.ready :: Sample.published)).log
          (Sample.smallBus.keys.runStream ⟨2⟩) = [] ++ since ∧
        (since.filter fun entry => decide (entry.2.pipe = 0)).filterMap (decoded EventSample.codec .sample) =
          ofRun ⟨2⟩ [EventSample.started] ∧
        ∀ turns, 2 * since.length ≤ turns →
          let calm := (start Sample.smallBus ⟨2⟩).after EventSample.codec .sample Sample.smallBus
            (.ready :: Sample.published ++ List.replicate turns .turn)
          calm.taken = since.filterMap (decoded EventSample.codec .sample) ∨
            calm.taken <+: since.filterMap (decoded EventSample.codec .sample) ∧
              calm.taken.any Event.isTerminalForRun = true := by
  have hkeeps : Runs.Along (step EventSample.codec .sample Sample.smallBus) (KeepsUp Sample.smallBus)
      ((start Sample.smallBus ⟨2⟩).after EventSample.codec .sample Sample.smallBus ([] ++ [.ready]))
      Sample.published := by
    refine ⟨fun _ _ => trivial, fun lastId hlast => ?_, fun lastId hlast => ?_, fun lastId hlast => ?_,
      fun _ _ => trivial, fun _ _ => trivial, trivial⟩
    · cases hlast
      exact Nat.zero_lt_two
    · cases hlast
      exact Nat.zero_lt_two
    · cases hlast
      exact Nat.one_lt_two
  have hpipe : ((start Sample.smallBus ⟨2⟩).after EventSample.codec .sample Sample.smallBus
      ([] ++ .ready :: Sample.published)).pipes[0]? = some ⟨[EventSample.started],
      Sample.smallBus.publish EventSample.codec .sample [EventSample.started], [], []⟩ := by
    rw [List.nil_append, published_served.2]
    rfl
  obtain ⟨since, hlog, hcalm, hsent⟩ := @reader_complete EventSample.codec .sample ⟨2⟩ []
    Sample.published .ready Sample.smallBus (by decide) Nat.zero_lt_two (.inl rfl)
    (fun move hmove => nomatch hmove) hkeeps
  refine ⟨since, hlog, ?_, hcalm⟩
  refine hsent 0 _ hpipe ?_ (Nat.zero_le _) rfl rfl
  intro event hevent
  rw [List.mem_singleton.mp hevent]
  exact ⟨by simp [EventSample.started, EventClass.exported], EventSample.started_admissible, ⟨rfl, by decide⟩⟩

end Following

end BusWorld

end AgenticPlatform
