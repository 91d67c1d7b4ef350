import AgenticPlatform.EventDelivery

/-!
# Resuming a stream

A client of the event stream subscribes to the bus, replays the stored events after its
cursor page by page, reads the status of the run again and then forwards live events.
The publisher commits a batch to the store and publishes it afterwards. Every store read
and every bus call is one move, and the moves of the two interleave in any order. Stored
events are numbered from 1, and an event keeps its number on the bus, so that what was
sent can be compared with what is stored.
-/

namespace AgenticPlatform

/-- An event with its sequence in the store. -/
abbrev Numbered := Nat × DomainEvent

/-- Consecutive sequences after `base`. -/
def numberFrom (base : Nat) : List DomainEvent → List Numbered
  | [] => []
  | event :: rest => (base + 1, event) :: numberFrom (base + 1) rest

/-- Where a client is in `_run_event_stream`. `ended` remembers how many events were
    stored at that moment. -/
inductive ClientPhase where
  | replaying (position : Option Nat)
  | checking
  | live
  | ended (total : Nat)
deriving DecidableEq

/-- A client: its stream on the bus, the sequences of what it was sent, and how many
    live events it was sent. `read` is how many events were stored at its latest page. -/
structure StreamClient where
  cursor : Option Nat
  index : Nat
  phase : ClientPhase
  sent : List Nat
  forwarded : Nat
  read : Nat

/-- Everything after the cursor and up to `n` was sent. -/
def StreamClient.CaughtUp (client : StreamClient) (n : Nat) : Prop :=
  ∀ k, client.cursor.getD 0 < k → k ≤ n → k ∈ client.sent

/-- A run, its stored events, the batch that is committed and not yet published, the bus
    and a client. -/
structure Following where
  run : Run
  stored : List DomainEvent
  waiting : Option (List Numbered)
  bus : EventBus Numbered
  client : Option StreamClient

inductive FollowMove where
  | commit (transaction : RunTransaction)
  | publish
  | connect (cursor : Option Nat)
  | prefetch
  | page
  | status
  | forward

namespace Following

/-- `_REPLAY_PAGE_SIZE`. -/
def pageSize : Nat := 500

/-- `list_by_run`: the first rows after the position. -/
def listByRun (stored : List DomainEvent) (position : Option Nat) : List Numbered :=
  ((numberFrom 0 stored).filter fun row => decide (position.getD 0 < row.1)).take pageSize

def publish (bus : EventBus Numbered) (batch : List Numbered) : EventBus Numbered :=
  bus.publish (fun row => runIdOf row.2) (fun row => isTerminalForRun row.2) batch

/-- The first half of `commit_and_publish`. One publisher: the previous batch is out. -/
def commit (world : Following) (transaction : RunTransaction) : Following :=
  match world.waiting with
  | some _ => world
  | none =>
      let filed := (transaction.batch world.run).filter fun event =>
        decide (event.body.runId = world.run.id)
      { world with
        run := transaction.commit world.run
        stored := world.stored ++ filed
        waiting := some (numberFrom world.stored.length filed) }

/-- The second half of `commit_and_publish`. -/
def announce (world : Following) : Following :=
  match world.waiting with
  | none => world
  | some batch => { world with bus := publish world.bus batch, waiting := none }

/-- The stream opens: it subscribes before anything else. -/
def connect (world : Following) (cursor : Option Nat) : Following :=
  match world.client with
  | some _ => world
  | none =>
      { world with
        bus := world.bus.subscribe world.run.id
        client := some ⟨cursor, world.bus.streams.length, .replaying cursor, [], 0, 0⟩ }

/-- The pull that is always in flight takes the next item, once the last one was used. -/
def prefetch (world : Following) : Following :=
  match world.client with
  | none => world
  | some client =>
      match world.bus.streams[client.index]? with
      | none => world
      | some stream =>
          if stream.taken.length ≤ client.forwarded then
            { world with bus := world.bus.pull client.index }
          else world

/-- One page of `_replay`. -/
def page (world : Following) : Following :=
  match world.client with
  | none => world
  | some client =>
      match client.phase with
      | .replaying position =>
          let batch := listByRun world.stored position
          let position := ((batch.getLast?).map Prod.fst).or position
          { world with client := some { client with
              sent := client.sent ++ batch.map Prod.fst
              read := world.stored.length
              phase := if batch.length < pageSize then .checking else .replaying position } }
      | _ => world

/-- The status is read again after the replay. -/
def status (world : Following) : Following :=
  match world.client with
  | none => world
  | some client =>
      match client.phase with
      | .checking =>
          { world with client := some { client with
              phase := if world.run.isTerminal then .ended world.stored.length else .live } }
      | _ => world

/-- One turn of the live loop, once its pull has returned. -/
def forward (world : Following) : Following :=
  match world.client with
  | none => world
  | some client =>
      match client.phase, (world.bus.streams[client.index]?).bind (·.taken[client.forwarded]?) with
      | .live, some (some row) =>
          { world with client := some { client with
              sent := client.sent ++ [row.1]
              forwarded := client.forwarded + 1
              phase := if isFinal row.2 then .ended world.stored.length else .live } }
      | .live, some none =>
          { world with client := some { client with phase := .ended world.stored.length } }
      | _, _ => world

def step (world : Following) : FollowMove → Following
  | .commit transaction => world.commit transaction
  | .publish => world.announce
  | .connect cursor => world.connect cursor
  | .prefetch => world.prefetch
  | .page => world.page
  | .status => world.status
  | .forward => world.forward

/-- Before the first event of the run. -/
def initial (run : Run) (backlog : Nat) : Following :=
  ⟨run, [], none, .empty backlog, none⟩

abbrev after (world : Following) (moves : List FollowMove) : Following := Runs.after step world moves

end Following

/-! ### Sequences -/

theorem numberFrom_append (base : Nat) (events more : List DomainEvent) :
    numberFrom base (events ++ more) =
      numberFrom base events ++ numberFrom (base + events.length) more := by
  induction events generalizing base with
  | nil => rfl
  | cons event rest ih =>
    simp only [List.cons_append, numberFrom, ih, List.length_cons]
    rw [show base + 1 + rest.length = base + (rest.length + 1) by omega]

theorem mem_numberFrom {base n : Nat} {event : DomainEvent} {events : List DomainEvent}
    (h : (n, event) ∈ numberFrom base events) : base < n ∧ n ≤ base + events.length ∧ event ∈ events := by
  induction events generalizing base with
  | nil => cases h
  | cons first rest ih =>
    rcases List.mem_cons.mp h with heq | hrest
    · cases heq
      simp
    · obtain ⟨hlow, hhigh, hmem⟩ := ih hrest
      refine ⟨by omega, ?_, List.mem_cons_of_mem _ hmem⟩
      simp only [List.length_cons]
      omega

theorem mem_numberFrom_fst {base n : Nat} {events : List DomainEvent} (hlow : base < n)
    (hhigh : n ≤ base + events.length) : n ∈ (numberFrom base events).map Prod.fst := by
  induction events generalizing base with
  | nil => simp at hhigh; omega
  | cons first rest ih =>
    simp only [numberFrom, List.map_cons, List.mem_cons]
    by_cases hn : n = base + 1
    · exact .inl hn
    · refine .inr (ih (by omega) ?_)
      simp only [List.length_cons] at hhigh
      omega

theorem numberFrom_length (base : Nat) (events : List DomainEvent) :
    (numberFrom base events).length = events.length := by
  induction events generalizing base with
  | nil => rfl
  | cons first rest ih => simp [numberFrom, ih]

theorem numberFrom_take (base count : Nat) (events : List DomainEvent) :
    (numberFrom base events).take count = numberFrom base (events.take count) := by
  induction events generalizing base count with
  | nil => simp [numberFrom]
  | cons first rest ih =>
    cases count with
    | zero => rfl
    | succ count => simp [numberFrom, ih]

/-- The rows after a position. -/
theorem filter_numberFrom (base position : Nat) (events : List DomainEvent) :
    (numberFrom base events).filter (fun row => decide (base + position < row.1)) =
      numberFrom (base + position) (events.drop position) := by
  induction events generalizing base position with
  | nil => simp [numberFrom]
  | cons first rest ih =>
    cases position with
    | zero =>
      rw [List.filter_eq_self.mpr]
      · rfl
      · intro row hmem
        obtain ⟨n, event⟩ := row
        exact decide_eq_true (mem_numberFrom hmem).1
    | succ position =>
      have hskip : ¬ base + (position + 1) < base + 1 := by omega
      have hshift : base + (position + 1) = base + 1 + position := by omega
      simp only [numberFrom, List.filter_cons, decide_eq_true_eq, hskip, if_false, List.drop_succ_cons]
      rw [hshift]
      exact ih (base + 1) position

theorem numberFrom_last (base : Nat) (events : List DomainEvent) :
    ((numberFrom base events).getLast?).map Prod.fst =
      if events = [] then none else some (base + events.length) := by
  induction events generalizing base with
  | nil => rfl
  | cons first rest ih =>
    cases rest with
    | nil => rfl
    | cons second others =>
      have hrest := ih (base + 1)
      simp only [reduceCtorEq, if_false] at hrest
      simp only [numberFrom, List.getLast?_cons_cons, reduceCtorEq, if_false, List.length_cons]
      rw [← show base + 1 + (others.length + 1) = base + (others.length + 1 + 1) by omega]
      simpa [numberFrom] using hrest

theorem numberFrom_snd (base : Nat) (events : List DomainEvent) :
    (numberFrom base events).map Prod.snd = events := by
  induction events generalizing base with
  | nil => rfl
  | cons first rest ih => simp [numberFrom, ih]

theorem Recorded.quiet_of_live {events : List DomainEvent} (h : Recorded false false events) :
    Quiet events := by
  rcases h with ⟨-, hquiet⟩ | ⟨-, -, -, -, -, hended, -⟩
  · exact hquiet
  · cases hended

theorem Recorded.final_mem {events : List DomainEvent} (h : Recorded false true events) :
    ∃ event ∈ events, isFinal event = true := by
  rcases h with ⟨hsame, -⟩ | ⟨before, changed, final, later, -, -, rfl, -, -, hfinal, -⟩
  · cases hsame
  · exact ⟨final, by simp, hfinal⟩

/-- A stream that closes itself never serves the last stored event: the change of status
    that closes it has the final event behind it in the store. -/
theorem last_not_served {is : Bool} {stored : List DomainEvent} {base : Nat} {offered : List Numbered}
    (hrecorded : Recorded false is stored) (hquiet : Quiet (stored.take base))
    (hbase : base ≤ stored.length) (hoffered : offered <+: numberFrom base (stored.drop base))
    (hends : offered.any (fun row => isTerminalForRun row.2) = true) (event : DomainEvent) :
    some (stored.length, event) ∉
      EventStream.closing (fun row : Numbered => isTerminalForRun row.2) offered := by
  intro hmem
  cases hfirst : offered.filter (fun row => isTerminalForRun row.2) with
  | nil =>
    obtain ⟨row, hrow, hterminal⟩ := List.any_eq_true.mp hends
    exact absurd hterminal (List.filter_eq_nil_iff.mp hfirst row hrow)
  | cons last others =>
    obtain ⟨quiet, rest, rfl, hquiets, hlast, -⟩ := List.filter_eq_cons_iff.mp hfirst
    have hserved : (stored.length, event) ∈ quiet ++ [last] := by
      rw [EventStream.closing_quiet hquiets] at hmem
      simp only [EventStream.closing, hlast, if_true] at hmem
      simpa using hmem
    -- what was served are the first events after `base`, so all of them
    have hshown : quiet ++ [last] = numberFrom base ((stored.drop base).take (quiet.length + 1)) := by
      obtain ⟨more, hmore⟩ := hoffered
      rw [← numberFrom_take, ← hmore,
        show quiet ++ last :: rest ++ more = (quiet ++ [last]) ++ (rest ++ more) by simp]
      exact (List.take_left' (by simp)).symm
    have hall : quiet ++ [last] = numberFrom base (stored.drop base) := by
      rw [hshown] at hserved
      have hhigh := (mem_numberFrom hserved).2.1
      rw [List.length_take, List.length_drop] at hhigh
      rw [hshown, List.take_of_length_le]
      rw [List.length_drop]
      omega
    have hstored : stored = stored.take base ++ (quiet.map Prod.snd ++ [last.2]) := by
      have hevents := congrArg (List.map Prod.snd) hall
      rw [numberFrom_snd, List.map_append] at hevents
      rw [show quiet.map Prod.snd ++ [last.2] = stored.drop base from hevents, List.take_append_drop]
    have hcount : stored.filter isTerminalForRun = [last.2] := by
      have hnone : (quiet.map Prod.snd).filter isTerminalForRun = [] := by
        rw [List.filter_eq_nil_iff]
        intro event hevent
        obtain ⟨row, hrow, rfl⟩ := List.mem_map.mp hevent
        exact hquiets row hrow
      rw [hstored, List.filter_append, List.filter_append, filter_of_quiet hquiet, hnone]
      simp [hlast]
    rcases hrecorded.ends with hnone | ⟨changed, final, htwo, -⟩
    · rw [hnone] at hcount
      cases hcount
    · rw [htwo] at hcount
      cases hcount

namespace Following

/-- A page: the events after the position, as many as fit. -/
theorem listByRun_eq (stored : List DomainEvent) (position : Option Nat) :
    listByRun stored position =
      numberFrom (position.getD 0) ((stored.drop (position.getD 0)).take pageSize) := by
  have hrows := filter_numberFrom 0 (position.getD 0) stored
  simp only [Nat.zero_add] at hrows
  unfold listByRun
  rw [hrows, numberFrom_take]

/-! ### What holds throughout -/

/-- The stream of a client: it was offered what was published since the subscription,
    that is, the stored events after `base` but for those that wait. -/
def Subscribed (world : Following) (client : StreamClient) (base : Nat) : Prop :=
  ∃ offered, world.bus.Serves (fun row => isTerminalForRun row.2) client.index world.run.id offered ∧
    offered ++ world.waiting.getD [] = numberFrom base (world.stored.drop base)

/-- What was sent was read from the store, or was pulled off the bus. -/
def Accounted (world : Following) (client : StreamClient) : Prop :=
  ∀ n ∈ client.sent, n ≤ client.read ∨ ∃ event stream,
    world.bus.streams[client.index]? = some stream ∧ some (n, event) ∈ stream.taken

/-- What is known of a client in each phase. -/
def InPhase (world : Following) (client : StreamClient) (base : Nat) : ClientPhase → Prop
  | .replaying position =>
      client.cursor.getD 0 ≤ position.getD 0 ∧ client.CaughtUp (position.getD 0) ∧
        ∀ n ∈ client.sent, n ≤ client.read
  | .checking => client.CaughtUp client.read ∧ ∀ n ∈ client.sent, n ≤ client.read
  | .live => client.CaughtUp client.read ∧ Quiet (world.stored.take base) ∧
      Accounted world client
  | .ended total => client.CaughtUp client.read ∧ client.read ≤ total ∧
      total ≤ world.stored.length ∧
      ∀ stream, world.bus.streams[client.index]? = some stream → stream.dropped = 0 →
        (∃ event ∈ world.stored.take total, isFinal event = true) ∧
          (total ∈ client.sent → total ≤ client.read)

/-- The invariant of the whole. -/
structure Sound (world : Following) : Prop where
  recorded : Recorded false world.run.status.isTerminal world.stored
  listed : world.bus.Listed
  own : ∀ event ∈ world.stored, event.body.runId = world.run.id
  waiting : ∃ published, published ≤ world.stored.length ∧
    world.waiting.getD [] = numberFrom published (world.stored.drop published)
  client : ∀ client, world.client = some client → client.read ≤ world.stored.length ∧
    ∃ base, base ≤ world.stored.length ∧ world.Subscribed client base ∧
      world.InPhase client base client.phase

theorem sound_initial {run : Run} (hlive : run.status.isTerminal = false) (backlog : Nat) :
    (initial run backlog).Sound := by
  constructor
  · show Recorded false run.status.isTerminal []
    rw [hlive]
    exact .nil false
  · exact EventBus.listed_empty backlog
  · intro event hmem
    cases hmem
  · exact ⟨0, Nat.le_refl _, rfl⟩
  · intro client hclient
    cases hclient

variable {world : Following}

/-! ### The publisher -/

theorem Accounted.grows {world' : Following} {client : StreamClient}
    {stream stream' : EventStream Numbered} (h : Accounted world client)
    (hstream : world.bus.streams[client.index]? = some stream)
    (hstream' : world'.bus.streams[client.index]? = some stream')
    (hgrows : EventBus.Grows stream stream') : Accounted world' client := by
  intro n hmem
  rcases h n hmem with hread | ⟨event, found, hfound, htaken⟩
  · exact .inl hread
  · rw [hstream, Option.some.injEq] at hfound
    subst hfound
    exact .inr ⟨event, stream', hstream', hgrows.1.subset htaken⟩

/-- More events are stored, and the client's stream only grows. -/
theorem InPhase.grows {world' : Following} {client : StreamClient} {base : Nat}
    {phase : ClientPhase} {stream stream' : EventStream Numbered}
    (h : world.InPhase client base phase) (hbase : base ≤ world.stored.length)
    (hstored : world.stored <+: world'.stored)
    (hstream : world.bus.streams[client.index]? = some stream)
    (hstream' : world'.bus.streams[client.index]? = some stream')
    (hgrows : EventBus.Grows stream stream') : world'.InPhase client base phase := by
  obtain ⟨more, hmore⟩ := hstored
  cases phase with
  | replaying position => exact h
  | checking => exact h
  | live =>
    obtain ⟨hcaught, hquiet, haccounted⟩ := h
    refine ⟨hcaught, ?_, haccounted.grows hstream hstream' hgrows⟩
    rw [← hmore, List.take_append_of_le_length hbase]
    exact hquiet
  | ended total =>
    obtain ⟨hcaught, hread, htotal, hlast⟩ := h
    refine ⟨hcaught, hread, ?_, ?_⟩
    · rw [← hmore, List.length_append]
      exact Nat.le_trans htotal (Nat.le_add_right _ _)
    · intro grown hgrown hdropped
      rw [hstream', Option.some.injEq] at hgrown
      subst hgrown
      rw [← hmore, List.take_append_of_le_length htotal]
      exact hlast stream hstream (Nat.eq_zero_of_le_zero (hdropped ▸ hgrows.2))

theorem Sound.commit (h : world.Sound) (transaction : RunTransaction) :
    (world.commit transaction).Sound := by
  unfold Following.commit
  cases hwaiting : world.waiting with
  | some batch => exact h
  | none =>
    obtain ⟨hid, -, -⟩ := transaction.work_recorded world.run
    dsimp only
    generalize hfiled : (transaction.batch world.run).filter
      (fun event => decide (event.body.runId = world.run.id)) = filed
    have hlater : ∀ base, base ≤ world.stored.length →
        numberFrom base ((world.stored ++ filed).drop base) =
          numberFrom base (world.stored.drop base) ++ numberFrom world.stored.length filed := by
      intro base hbase
      rw [List.drop_append_of_le_length hbase, numberFrom_append, List.length_drop]
      rw [show base + (world.stored.length - base) = world.stored.length by omega]
    constructor
    · refine h.recorded.append ?_
      rw [← hfiled]
      exact transaction.filed_recorded world.run
    · exact h.listed
    · intro event hmem
      show event.body.runId = (transaction.commit world.run).id
      rw [hid]
      rcases List.mem_append.mp hmem with hold | hnew
      · exact h.own event hold
      · rw [← hfiled] at hnew
        exact of_decide_eq_true (List.mem_filter.mp hnew).2
    · refine ⟨world.stored.length, by simp, ?_⟩
      show numberFrom world.stored.length filed = _
      rw [hlater _ (Nat.le_refl _)]
      simp [numberFrom]
    · intro client hclient
      obtain ⟨hread, base, hbase, ⟨offered, hserves, hoffered⟩, hphase⟩ := h.client client hclient
      obtain ⟨stream, hstream, hrun, hfollows⟩ := hserves
      refine ⟨?_, base, ?_, ⟨offered, ?_, ?_⟩, ?_⟩
      · exact Nat.le_trans hread (by simp)
      · exact Nat.le_trans hbase (by simp)
      · show world.bus.Serves _ client.index (transaction.commit world.run).id offered
        rw [hid]
        exact ⟨stream, hstream, hrun, hfollows⟩
      · rw [hwaiting, Option.getD_none, List.append_nil] at hoffered
        show offered ++ numberFrom world.stored.length filed = _
        rw [hlater base hbase, hoffered]
      · exact hphase.grows hbase (List.prefix_append _ _) hstream hstream
          ⟨List.prefix_refl _, Nat.le_refl _⟩

theorem Sound.announce (h : world.Sound) : world.announce.Sound := by
  unfold Following.announce
  cases hwaiting : world.waiting with
  | none => exact h
  | some batch =>
    obtain ⟨published, hpublished, hbatch⟩ := h.waiting
    rw [hwaiting, Option.getD_some] at hbatch
    -- every row of the batch is addressed to this run
    have haddressed : EventBus.addressed (fun row : Numbered => runIdOf row.2) world.run.id batch =
        batch := by
      unfold EventBus.addressed
      rw [List.filter_eq_self]
      intro row hmem
      obtain ⟨n, event⟩ := row
      rw [hbatch] at hmem
      have hown := h.own event (List.mem_of_mem_drop (mem_numberFrom hmem).2.2)
      simp [runIdOf, hown]
    constructor
    · exact h.recorded
    · exact h.listed.publish batch
    · exact h.own
    · exact ⟨world.stored.length, Nat.le_refl _, by simp [numberFrom]⟩
    · intro client hclient
      obtain ⟨hread, base, hbase, ⟨offered, hserves, hoffered⟩, hphase⟩ := h.client client hclient
      have hnext : (publish world.bus batch).Serves (fun row => isTerminalForRun row.2) client.index
          world.run.id (offered ++ EventBus.addressed (fun row => runIdOf row.2) world.run.id batch) :=
        hserves.publish h.listed batch
      obtain ⟨stream, hstream, -, -⟩ := hserves
      have hgrown : ∃ stream', (publish world.bus batch).streams[client.index]? = some stream' ∧
          EventBus.Grows stream stream' := EventBus.publish_grows h.listed hstream batch
      obtain ⟨stream', hstream', hgrows⟩ := hgrown
      refine ⟨hread, base, hbase, ⟨offered ++ batch, ?_, ?_⟩, ?_⟩
      · rw [haddressed] at hnext
        exact hnext
      · rw [hwaiting, Option.getD_some] at hoffered
        show offered ++ batch ++ [] = _
        rw [List.append_nil]
        exact hoffered
      · exact hphase.grows hbase (List.prefix_refl _) hstream hstream' hgrows

/-! ### The client, up to the status check -/

theorem Sound.connect (h : world.Sound) (cursor : Option Nat) : (world.connect cursor).Sound := by
  unfold Following.connect
  cases hclient : world.client with
  | some client => exact h
  | none =>
    obtain ⟨published, hpublished, hwaiting⟩ := h.waiting
    constructor
    · exact h.recorded
    · exact h.listed.subscribe world.run.id
    · exact h.own
    · exact ⟨published, hpublished, hwaiting⟩
    · intro client hsome
      cases hsome
      refine ⟨Nat.zero_le _, published, hpublished, ⟨[], ?_, hwaiting⟩, ?_⟩
      · exact ⟨⟨world.run.id, [], false, [], 0⟩, by simp [EventBus.subscribe], rfl,
          EventStream.follows_opened _ _⟩
      · refine ⟨Nat.le_refl _, ?_, ?_⟩
        · intro k hlow hhigh
          exact absurd hhigh (Nat.not_le.mpr hlow)
        · intro _ hmem
          cases hmem

theorem Sound.prefetch (h : world.Sound) : world.prefetch.Sound := by
  unfold Following.prefetch
  cases hclient : world.client with
  | none => exact h
  | some client =>
    dsimp only
    split
    · exact h
    · rename_i stream hstream
      split
      · refine ⟨h.recorded, h.listed.pull client.index, h.own, h.waiting, ?_⟩
        intro client' hsome
        cases hsome
        obtain ⟨hread, base, hbase, ⟨offered, hserves, hoffered⟩, hphase⟩ := h.client client hclient
        obtain ⟨stream', hstream', hgrows⟩ := EventBus.pull_grows hstream client.index
        obtain ⟨served, hserved, hrun, hfollows⟩ := hserves
        rw [hstream, Option.some.injEq] at hserved
        subst hserved
        refine ⟨hread, base, hbase, ⟨offered, ?_, hoffered⟩, ?_⟩
        · refine ⟨stream.pull, ?_, (EventStream.pull_rest stream).1.trans hrun, hfollows.pull⟩
          rw [EventBus.pull_streams, hstream]
          simp
        · exact hphase.grows hbase (List.prefix_refl _) hstream hstream' hgrows
      · exact h

/-- A client is replaced by one with the same stream that has read no more than is
    stored. -/
theorem Sound.progress (h : world.Sound) {client client' : StreamClient}
    (hclient : world.client = some client) (hindex : client'.index = client.index)
    (hread : client'.read ≤ world.stored.length)
    (hphase : ∀ base, base ≤ world.stored.length → world.Subscribed client base →
      world.InPhase client base client.phase → world.InPhase client' base client'.phase) :
    Sound { world with client := some client' } := by
  refine ⟨h.recorded, h.listed, h.own, h.waiting, ?_⟩
  intro found hfound
  cases hfound
  obtain ⟨-, base, hbase, hsubscribed, hbefore⟩ := h.client client hclient
  refine ⟨hread, base, hbase, ?_, ?_⟩
  · obtain ⟨offered, hserves, hoffered⟩ := hsubscribed
    refine ⟨offered, ?_, hoffered⟩
    rw [hindex]
    exact hserves
  · have hnext := hphase base hbase hsubscribed hbefore
    cases hcase : client'.phase <;> (rw [hcase] at hnext; exact hnext)

theorem Sound.page (h : world.Sound) : world.page.Sound := by
  unfold Following.page
  cases hclient : world.client with
  | none => exact h
  | some client =>
    dsimp only
    split
    · rename_i position hreplaying
      refine h.progress hclient rfl (Nat.le_refl _) ?_
      intro base hbase _ hphase
      rw [hreplaying] at hphase
      obtain ⟨hcursor, hcaught, hbound⟩ := hphase
      have hrows := listByRun_eq world.stored position
      generalize hp : position.getD 0 = p at *
      have hlength : (listByRun world.stored position).length = min pageSize (world.stored.length - p) := by
        rw [hrows, numberFrom_length, List.length_take, List.length_drop]
      have hread := (h.client client hclient).1
      -- the page brings the client to the end of its rows
      have hsent : ∀ k, client.cursor.getD 0 < k →
          k ≤ p + (listByRun world.stored position).length →
          k ∈ client.sent ++ (listByRun world.stored position).map Prod.fst := by
        intro k hlow hhigh
        by_cases hk : k ≤ p
        · exact List.mem_append_left _ (hcaught k hlow hk)
        · apply List.mem_append_right
          rw [hrows]
          apply mem_numberFrom_fst (by omega)
          rw [hlength] at hhigh
          rw [List.length_take, List.length_drop]
          exact hhigh
      have hwithin : ∀ n ∈ client.sent ++ (listByRun world.stored position).map Prod.fst,
          n ≤ world.stored.length := by
        intro n hmem
        rcases List.mem_append.mp hmem with hold | hnew
        · exact Nat.le_trans (hbound n hold) hread
        · obtain ⟨row, hrow, rfl⟩ := List.mem_map.mp hnew
          rw [hrows] at hrow
          obtain ⟨n, event⟩ := row
          obtain ⟨hlow, hhigh, -⟩ := mem_numberFrom hrow
          rw [List.length_take, List.length_drop] at hhigh
          simp only at hlow ⊢
          omega
      dsimp only
      split
      · rename_i hlast
        refine ⟨?_, hwithin⟩
        intro k hlow hhigh
        exact hsent k hlow (by simp only at hhigh; omega)
      · rename_i hfull
        have hposition : ((((listByRun world.stored position).getLast?).map Prod.fst).or position).getD 0 =
            p + (listByRun world.stored position).length := by
          rw [hlength, hrows, numberFrom_last]
          have hmany : pageSize ≤ world.stored.length - p := by omega
          have hpositive : 0 < pageSize := by decide
          rw [if_neg]
          · rw [List.length_take, List.length_drop]
            rfl
          · intro hempty
            have hzero := congrArg List.length hempty
            rw [List.length_take, List.length_drop, List.length_nil] at hzero
            omega
        refine ⟨?_, ?_, hwithin⟩
        · rw [hposition]
          exact Nat.le_trans hcursor (Nat.le_add_right _ _)
        · rw [hposition]
          exact hsent
    · exact h

theorem Sound.status (h : world.Sound) : world.status.Sound := by
  unfold Following.status
  cases hclient : world.client with
  | none => exact h
  | some client =>
    dsimp only
    split
    · rename_i hchecking
      have hread := (h.client client hclient).1
      refine h.progress hclient rfl hread ?_
      intro base hbase _ hphase
      rw [hchecking] at hphase
      obtain ⟨hcaught, hbound⟩ := hphase
      dsimp only
      cases hterminal : world.run.isTerminal with
      | true =>
        have hrecorded := h.recorded
        rw [show world.run.status.isTerminal = true from hterminal] at hrecorded
        refine ⟨hcaught, hread, Nat.le_refl _, fun _ _ _ => ⟨?_, fun hsent => hbound _ hsent⟩⟩
        rw [List.take_length]
        exact hrecorded.final_mem
      | false =>
        have hrecorded := h.recorded
        rw [show world.run.status.isTerminal = false from hterminal] at hrecorded
        refine ⟨hcaught, ?_, fun n hmem => .inl (hbound n hmem)⟩
        exact fun event hmem => hrecorded.quiet_of_live event (List.mem_of_mem_take hmem)
    · exact h

/-! ### The live loop -/

/-- Once an event that ends the run was published, the final event is stored. -/
theorem Sound.final_stored (h : world.Sound) {base : Nat} {offered : List Numbered}
    (hoffered : offered <+: numberFrom base (world.stored.drop base))
    (hends : offered.any (fun row => isTerminalForRun row.2) = true) :
    ∃ event ∈ world.stored, isFinal event = true := by
  obtain ⟨row, hrow, hterminal⟩ := List.any_eq_true.mp hends
  have hstored : row.2 ∈ world.stored :=
    List.mem_of_mem_drop (mem_numberFrom (hoffered.subset hrow)).2.2
  have hrecorded := h.recorded
  cases his : world.run.status.isTerminal with
  | true =>
    rw [his] at hrecorded
    exact hrecorded.final_mem
  | false =>
    rw [his] at hrecorded
    have hquiet : isTerminalForRun row.2 = false := hrecorded.quiet_of_live row.2 hstored
    rw [hquiet] at hterminal
    cases hterminal

/-- The stream ends in the live loop: the final event is stored, and the last stored
    event was not sent unless it was read from the store. -/
theorem Sound.ends_live (h : world.Sound) {client : StreamClient} {base : Nat}
    (hbase : base ≤ world.stored.length) (hsubscribed : world.Subscribed client base)
    (hlive : world.InPhase client base .live) {sent : List Nat}
    (hsent : ∀ n ∈ sent, n ∈ client.sent ∨ ∃ event stream,
      world.bus.streams[client.index]? = some stream ∧ some (n, event) ∈ stream.taken)
    (hended : ∃ stream item, world.bus.streams[client.index]? = some stream ∧ item ∈ stream.taken ∧
      ∀ row, item = some row → isFinal row.2 = true) :
    ∀ stream, world.bus.streams[client.index]? = some stream → stream.dropped = 0 →
      (∃ event ∈ world.stored, isFinal event = true) ∧
        (world.stored.length ∈ sent → world.stored.length ≤ client.read) := by
  intro stream hstream hdropped
  obtain ⟨-, hquiet, haccounted⟩ := hlive
  obtain ⟨offered, ⟨served, hserved, -, hfollows⟩, hoffered⟩ := hsubscribed
  rw [hstream, Option.some.injEq] at hserved
  subst hserved
  have hseen := hfollows.seen hdropped
  have htaken : ∀ item, item ∈ stream.taken → item ∈
      EventStream.closing (fun row : Numbered => isTerminalForRun row.2) offered := by
    intro item hmem
    rw [← hseen]
    exact List.mem_append_left _ hmem
  -- an item that ends the loop comes from an event that ends the run
  have hends : offered.any (fun row => isTerminalForRun row.2) = true := by
    obtain ⟨found, item, hfound, hitem, hitemEnds⟩ := hended
    rw [hstream, Option.some.injEq] at hfound
    subst hfound
    refine EventStream.any_of_end (htaken item hitem) fun row hrow => ?_
    rw [isTerminalForRun_eq, hitemEnds row hrow, Bool.true_or]
  have hstart : offered <+: numberFrom base (world.stored.drop base) := ⟨_, hoffered⟩
  refine ⟨h.final_stored hstart hends, fun hlast => ?_⟩
  have hnot := last_not_served h.recorded hquiet hbase hstart hends
  have hunserved : ∀ event found, world.bus.streams[client.index]? = some found →
      some (world.stored.length, event) ∉ found.taken := by
    intro event found hfound hmem
    rw [hstream, Option.some.injEq] at hfound
    subst hfound
    exact hnot event (htaken _ hmem)
  rcases hsent _ hlast with hbefore | ⟨event, found, hfound, hmem⟩
  · rcases haccounted _ hbefore with hread | ⟨event, found, hfound, hmem⟩
    · exact hread
    · exact absurd hmem (hunserved event found hfound)
  · exact absurd hmem (hunserved event found hfound)

theorem Sound.forward (h : world.Sound) : world.forward.Sound := by
  unfold Following.forward
  cases hclient : world.client with
  | none => exact h
  | some client =>
    have hread := (h.client client hclient).1
    dsimp only
    split
    · rename_i row hlive hitem
      obtain ⟨stream, hstream, htaken⟩ := Option.bind_eq_some_iff.mp hitem
      have hmem : some row ∈ stream.taken := List.mem_of_getElem? htaken
      have hsent : ∀ n ∈ client.sent ++ [row.1], n ∈ client.sent ∨ ∃ event stream,
          world.bus.streams[client.index]? = some stream ∧ some (n, event) ∈ stream.taken := by
        intro n hn
        rcases List.mem_append.mp hn with hold | hnew
        · exact .inl hold
        · rw [List.mem_singleton.mp hnew]
          exact .inr ⟨row.2, stream, hstream, hmem⟩
      refine h.progress hclient rfl hread ?_
      intro base hbase hsubscribed hphase
      rw [hlive] at hphase
      obtain ⟨hcaught, hquiet, haccounted⟩ := hphase
      have hcaught' : ∀ k, client.cursor.getD 0 < k → k ≤ client.read → k ∈ client.sent ++ [row.1] :=
        fun k hlow hhigh => List.mem_append_left _ (hcaught k hlow hhigh)
      dsimp only
      cases hfinal : isFinal row.2 with
      | true =>
        refine ⟨hcaught', hread, Nat.le_refl _, ?_⟩
        rw [List.take_length]
        refine h.ends_live hbase hsubscribed ⟨hcaught, hquiet, haccounted⟩ hsent
          ⟨stream, some row, hstream, hmem, fun row' heq => ?_⟩
        cases heq
        exact hfinal
      | false =>
        refine ⟨hcaught', hquiet, fun n hn => ?_⟩
        rcases hsent n hn with hold | hnew
        · exact haccounted n hold
        · exact .inr hnew
    · rename_i hlive hitem
      obtain ⟨stream, hstream, htaken⟩ := Option.bind_eq_some_iff.mp hitem
      have hmem : none ∈ stream.taken := List.mem_of_getElem? htaken
      refine h.progress hclient rfl hread ?_
      intro base hbase hsubscribed hphase
      rw [hlive] at hphase
      refine ⟨hphase.1, hread, Nat.le_refl _, ?_⟩
      rw [List.take_length]
      exact h.ends_live hbase hsubscribed hphase (fun n hn => .inl hn)
        ⟨stream, none, hstream, hmem, fun row heq => nomatch heq⟩
    · exact h

theorem Sound.step (h : world.Sound) (move : FollowMove) : (world.step move).Sound := by
  cases move with
  | commit transaction => exact h.commit transaction
  | publish => exact h.announce
  | connect cursor => exact h.connect cursor
  | prefetch => exact h.prefetch
  | page => exact h.page
  | status => exact h.status
  | forward => exact h.forward

theorem Sound.after (h : world.Sound) (moves : List FollowMove) : (world.after moves).Sound := by
  induction moves generalizing world with
  | nil => exact h
  | cons move rest ih => exact ih (h.step move)

/-- **Resumption, exactly.** When the stream of a client has ended, and nothing was
    dropped from its backlog, the final event is among the `total` events that were
    stored by then; every one of them after the cursor was sent exactly if none of them
    was committed after the last page of the replay was read. -/
theorem resumed_iff (run : Run) (hrun : run.status.isTerminal = false) (backlog : Nat)
    (moves : List FollowMove) (client : StreamClient) (total : Nat) (stream : EventStream Numbered)
    (hclient : ((initial run backlog).after moves).client = some client)
    (hended : client.phase = .ended total)
    (hstream : ((initial run backlog).after moves).bus.streams[client.index]? = some stream)
    (hroom : stream.dropped = 0) :
    (∃ event ∈ ((initial run backlog).after moves).stored.take total, isFinal event = true) ∧
    ((∀ n, client.cursor.getD 0 < n → n ≤ total → n ∈ client.sent) ↔
      total ≤ max client.read (client.cursor.getD 0)) := by
  have hsound : ((initial run backlog).after moves).Sound := (sound_initial hrun backlog).after moves
  obtain ⟨-, base, -, -, hphase⟩ := hsound.client client hclient
  rw [hended] at hphase
  obtain ⟨hcaught, hread, -, hlast⟩ := hphase
  obtain ⟨hfinal, hunsent⟩ := hlast stream hstream hroom
  refine ⟨hfinal, ?_, ?_⟩
  · intro hall
    rcases Nat.lt_or_ge (client.cursor.getD 0) total with hbeyond | hwithin
    · exact Nat.le_trans (hunsent (hall total hbeyond (Nat.le_refl _))) (Nat.le_max_left _ _)
    · exact Nat.le_trans hwithin (Nat.le_max_right _ _)
  · intro hcondition n hlow hhigh
    apply hcaught n hlow
    omega

end Following

/-! ### A run that ends around the replay -/

namespace Sample

/-- A client resumes after the first event of a run that has ended. -/
def resumedAfterEnd : List FollowMove :=
  [.commit codingStarted, .publish, .commit runFailed, .publish, .connect (some 1), .page, .status]

/-- The run ends after the last page and before the status is read again. -/
def endedDuringReplay : List FollowMove :=
  [.commit codingStarted, .publish, .connect none, .page, .commit runFailed, .status]

end Sample

namespace Following

/-- The change of status and the final event are replayed. -/
theorem resumed_iff_sample :
    ∃ client, ((initial Sample.followedRun 10).after Sample.resumedAfterEnd).client = some client ∧
      client.phase = .ended 3 ∧ ∀ n, client.cursor.getD 0 < n → n ≤ 3 → n ∈ client.sent :=
  ⟨⟨some 1, 0, .ended 3, [2, 3], 0, 3⟩, rfl, rfl,
    (resumed_iff Sample.followedRun rfl 10 Sample.resumedAfterEnd
      ⟨some 1, 0, .ended 3, [2, 3], 0, 3⟩ 3 ⟨⟨2⟩, [], false, [], 0⟩ rfl rfl rfl rfl).2.mpr (by decide)⟩

/-- The stream ends although neither the change of status nor the final event was sent. -/
theorem end_not_sent :
    ∃ client stream, ((initial Sample.followedRun 10).after Sample.endedDuringReplay).client =
        some client ∧
      ((initial Sample.followedRun 10).after Sample.endedDuringReplay).bus.streams[client.index]? =
        some stream ∧ stream.dropped = 0 ∧
      client.phase = .ended 3 ∧ client.cursor = none ∧
      ((initial Sample.followedRun 10).after Sample.endedDuringReplay).stored[2]? =
        some Sample.failedFinal ∧
      3 ∉ client.sent :=
  ⟨⟨none, 0, .ended 3, [1], 0, 1⟩, ⟨⟨2⟩, [], false, [], 0⟩, rfl, rfl, rfl, rfl, rfl, rfl, by decide⟩

end Following

end AgenticPlatform
