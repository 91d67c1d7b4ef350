import AgenticPlatform.EventSequencing
import AgenticPlatform.Locks
import AgenticPlatform.Runs

/-!
# The event log

Any number of transactions append batches of events through `SqlAlchemyEventStore.append`
and then commit or roll back, interleaved statement by statement. A statement sees what is
committed when it runs and what its own transaction wrote; an advisory lock is held until
its transaction ends. A move that cannot be made now, such as a lock that someone else
holds, leaves the state as it is, and can be tried again.
-/

namespace AgenticPlatform

namespace EventLog

open EventStore Locks Relation

/-- What was done for the group that is written next. -/
inductive Phase where
  | unlocked
  | locked
  | numbered (sequence : Nat)

/-- A transaction: the groups that its append has still to write, and its uncommitted rows.
    `batches` records what it appended, `taken` the locks that its last append took. -/
structure Transaction where
  pending : List (Option Nat × List Event) := []
  phase : Phase := .unlocked
  rows : List RunEventModel := []
  batches : List (List Event) := []
  taken : List Int := []

/-- The table of events with the rows in the order of their commits, and the sessions at
    work. `journal` records the batches of the committed transactions. -/
structure State where
  rows : List RunEventModel := []
  journal : List (List Event) := []
  locks : Table Int Nat := fun _ => none
  transactions : Nat → Transaction := fun _ => {}

/-- What a statement of `t` sees. -/
def State.visible (s : State) (t : Nat) : List RunEventModel := s.rows ++ (s.transactions t).rows

def State.set (s : State) (t : Nat) (x : Transaction) : State :=
  { s with transactions := Function.update s.transactions t x }

/-- The lock that the append asks for. -/
def Transaction.wants (x : Transaction) : Option Int :=
  match x.pending, x.phase with
  | group :: _, .unlocked => some (lockKey group.1)
  | _, _ => none

inductive Move where
  | append (t : Nat) (events : List Event)
  | lockSequence (t : Nat)
  | nextSequence (t : Nat)
  | addRows (t : Nat)
  | commit (t : Nat)
  | rollback (t : Nat)

/-- One step of one transaction: the start of `append`, a turn of its loop in three
    statements, or the end of the transaction. -/
def step (iso : IsoCodec) (s : State) : Move → State
  | .append _ [] => s
  | .append t (event :: rest) =>
      let x := s.transactions t
      match x.pending with
      | [] =>
          s.set t { x with
            pending := groups (event :: rest)
            phase := .unlocked
            batches := x.batches ++ [event :: rest]
            taken := [] }
      | _ :: _ => s
  | .lockSequence t =>
      let x := s.transactions t
      match x.wants with
      | some key =>
          if Free s.locks t key then
            { s.set t { x with phase := .locked, taken := x.taken ++ [key] } with
              locks := grant s.locks t key }
          else s
      | none => s
  | .nextSequence t =>
      let x := s.transactions t
      match x.pending, x.phase with
      | group :: _, .locked =>
          s.set t { x with phase := .numbered (EventStore.nextSequence (s.visible t) group.1) }
      | _, _ => s
  | .addRows t =>
      let x := s.transactions t
      match x.pending, x.phase with
      | group :: rest, .numbered sequence =>
          s.set t { x with
            pending := rest
            phase := .unlocked
            rows := x.rows ++ rowsFrom iso group.1 sequence group.2 }
      | _, _ => s
  | .commit t =>
      let x := s.transactions t
      match x.pending with
      | [] =>
          { s.set t {} with
            rows := s.rows ++ x.rows
            journal := s.journal ++ x.batches
            locks := release s.locks t }
      | _ :: _ => s
  | .rollback t => { s.set t {} with locks := release s.locks t }

variable {iso : IsoCodec} {s : State} {t u : Nat} {x : Transaction} {move : Move}

/-- What a move can do, with what it needs. -/
inductive Turn (iso : IsoCodec) (s : State) : State → Prop where
  | none : Turn iso s s
  | append (t : Nat) (events : List Event) (hidle : (s.transactions t).pending = []) :
      Turn iso s (s.set t { s.transactions t with
        pending := groups events
        phase := .unlocked
        batches := (s.transactions t).batches ++ [events]
        taken := [] })
  | lock (t : Nat) (group : Option Nat × List Event) (rest : List (Option Nat × List Event))
      (hpending : (s.transactions t).pending = group :: rest)
      (hphase : (s.transactions t).phase = .unlocked) (hfree : Free s.locks t (lockKey group.1)) :
      Turn iso s { s.set t { s.transactions t with
          phase := .locked
          taken := (s.transactions t).taken ++ [lockKey group.1] } with
        locks := grant s.locks t (lockKey group.1) }
  | number (t : Nat) (group : Option Nat × List Event) (rest : List (Option Nat × List Event))
      (hpending : (s.transactions t).pending = group :: rest)
      (hphase : (s.transactions t).phase = .locked) :
      Turn iso s (s.set t { s.transactions t with
        phase := .numbered (nextSequence (s.visible t) group.1) })
  | add (t : Nat) (group : Option Nat × List Event) (rest : List (Option Nat × List Event))
      (sequence : Nat) (hpending : (s.transactions t).pending = group :: rest)
      (hphase : (s.transactions t).phase = .numbered sequence) :
      Turn iso s (s.set t { s.transactions t with
        pending := rest
        phase := .unlocked
        rows := (s.transactions t).rows ++ rowsFrom iso group.1 sequence group.2 })
  | commit (t : Nat) (hidle : (s.transactions t).pending = []) :
      Turn iso s { s.set t {} with
        rows := s.rows ++ (s.transactions t).rows
        journal := s.journal ++ (s.transactions t).batches
        locks := release s.locks t }
  | rollback (t : Nat) : Turn iso s { s.set t {} with locks := release s.locks t }

theorem wants_eq_some {key : Int} (h : x.wants = some key) :
    ∃ group rest, x.pending = group :: rest ∧ x.phase = .unlocked ∧ key = lockKey group.1 := by
  unfold Transaction.wants at h
  split at h
  · rename_i group rest hpending hphase
    cases h
    exact ⟨group, rest, hpending, hphase, rfl⟩
  · cases h

theorem step_turn (iso : IsoCodec) (s : State) (move : Move) : Turn iso s (step iso s move) := by
  cases move with
  | append t events =>
    cases events with
    | nil => exact .none
    | cons event rest =>
      simp only [step]
      split
      · exact .append t (event :: rest) ‹_›
      · exact .none
  | lockSequence t =>
    simp only [step]
    split
    · rename_i key hwants
      split
      · rename_i hfree
        obtain ⟨group, rest, hpending, hphase, rfl⟩ := wants_eq_some hwants
        exact .lock t group rest hpending hphase hfree
      · exact .none
    · exact .none
  | nextSequence t =>
    simp only [step]
    split
    · exact .number t _ _ ‹_› ‹_›
    · exact .none
  | addRows t =>
    simp only [step]
    split
    · exact .add t _ _ _ ‹_› ‹_›
    · exact .none
  | commit t =>
    simp only [step]
    split
    · exact .commit t ‹_›
    · exact .none
  | rollback t => exact .rollback t

/-! ### Numbering

A transaction continues the committed numbers of a run only while it holds the run's lock,
and nobody else commits events of that run meanwhile. -/

variable {journal journal' : List (List Event)} {locks locks' : Table Int Nat}

/-- What holds of a transaction next to the committed batches. -/
structure Transaction.Numbered (iso : IsoCodec) (journal : List (List Event)) (locks : Table Int Nat)
    (t : Nat) (x : Transaction) : Prop where
  rows : ∀ run, ∃ written, written ++ eventsIn run x.pending = eventsOf run x.batches.flatten ∧
    rowsOf run x.rows = rowsFrom iso run ((eventsOf run journal.flatten).length + 1) written
  held : ∀ run, rowsOf run x.rows ≠ [] → locks (lockKey run) = some t
  locked : ∀ group rest, x.pending = group :: rest → x.phase ≠ .unlocked →
    locks (lockKey group.1) = some t
  numbered : ∀ group rest sequence, x.pending = group :: rest → x.phase = .numbered sequence →
    sequence = (eventsOf group.1 journal.flatten).length + (rowsOf group.1 x.rows).length + 1

/-- The committed rows are the committed batches, numbered run by run. -/
structure Numbered (iso : IsoCodec) (s : State) : Prop where
  committed : ∀ run, rowsOf run s.rows = rowsFrom iso run 1 (eventsOf run s.journal.flatten)
  transaction : ∀ t, (s.transactions t).Numbered iso s.journal s.locks t

/-- A transaction that has not begun. -/
theorem Transaction.Numbered.idle : ({} : Transaction).Numbered iso journal locks t where
  rows run := ⟨[], rfl, rfl⟩
  held run h := absurd rfl h
  locked group rest h := by cases h
  numbered group rest sequence h := by cases h

/-- Another transaction can do what it likes to the runs whose locks `u` does not hold. -/
theorem Transaction.Numbered.transfer (h : x.Numbered iso journal locks u)
    (hlocks : ∀ key, locks' key = some u ↔ locks key = some u)
    (hjournal : ∀ run, locks (lockKey run) = some u →
      eventsOf run journal'.flatten = eventsOf run journal.flatten) :
    x.Numbered iso journal' locks' u where
  rows run := by
    obtain ⟨written, hwritten, hrows⟩ := h.rows run
    refine ⟨written, hwritten, ?_⟩
    by_cases hempty : rowsOf run x.rows = []
    · have hnone : written = [] := by
        rw [hempty] at hrows
        exact List.length_eq_zero_iff.mp (by rw [← length_rowsFrom, ← hrows]; rfl)
      rw [hempty, hnone]
      rfl
    · rw [hjournal run (h.held run hempty), hrows]
  held run hne := (hlocks _).mpr (h.held run hne)
  locked group rest hpending hphase := (hlocks _).mpr (h.locked group rest hpending hphase)
  numbered group rest sequence hpending hphase := by
    have hlock := h.locked group rest hpending (by rw [hphase]; simp)
    rw [hjournal group.1 hlock]
    exact h.numbered group rest sequence hpending hphase

/-- What a transaction sees of a run is numbered without a gap. -/
theorem Numbered.visible (h : Numbered iso s) (t : Nat) (run : Option Nat) :
    ∃ written, rowsOf run (s.visible t) =
      rowsFrom iso run 1 (eventsOf run s.journal.flatten ++ written) := by
  obtain ⟨written, -, hrows⟩ := (h.transaction t).rows run
  refine ⟨written, ?_⟩
  rw [State.visible, rowsOf_append, h.committed, hrows, rowsFrom_append, Nat.add_comm 1]

/-- A move of `t` that commits nothing and takes no lock from anyone. -/
theorem Numbered.set (h : Numbered iso s) (x : Transaction) (locks : Table Int Nat)
    (hlocks : ∀ u, u ≠ t → ∀ key, locks key = some u ↔ s.locks key = some u)
    (hx : x.Numbered iso s.journal locks t) :
    Numbered iso { s.set t x with locks := locks } where
  committed := h.committed
  transaction u := by
    by_cases hu : u = t
    · subst hu
      simpa [State.set] using hx
    · have hother : (Function.update s.transactions t x) u = s.transactions u :=
        Function.update_of_ne hu ..
      simp only [State.set, hother]
      exact (h.transaction u).transfer (hlocks u hu) fun _ _ => rfl

theorem Numbered.append (h : Numbered iso s) (events : List Event)
    (hidle : (s.transactions t).pending = []) :
    Numbered iso (s.set t { s.transactions t with
      pending := groups events
      phase := .unlocked
      batches := (s.transactions t).batches ++ [events]
      taken := [] }) := by
  have hx := h.transaction t
  refine h.set _ s.locks (fun _ _ _ => Iff.rfl) ⟨fun run => ?_, hx.held, ?_, ?_⟩
  · obtain ⟨written, hwritten, hrows⟩ := hx.rows run
    refine ⟨written, ?_, hrows⟩
    rw [hidle, eventsIn_nil, List.append_nil] at hwritten
    rw [eventsIn_groups, hwritten, List.flatten_append, eventsOf_append, List.flatten_singleton]
  · exact fun group rest _ hphase => absurd rfl hphase
  · intro group rest sequence _ hphase
    cases hphase

theorem Numbered.lock (h : Numbered iso s) {group : Option Nat × List Event}
    {rest : List (Option Nat × List Event)} (hpending : (s.transactions t).pending = group :: rest)
    (hfree : Free s.locks t (lockKey group.1)) :
    Numbered iso { s.set t { s.transactions t with
        phase := .locked
        taken := (s.transactions t).taken ++ [lockKey group.1] } with
      locks := grant s.locks t (lockKey group.1) } := by
  have hx := h.transaction t
  refine h.set _ _ (fun u hu key => grant_other hfree hu)
    ⟨hx.rows, fun run hne => grant_of_holds hfree (hx.held run hne), ?_, ?_⟩
  · intro group' rest' hpending' _
    rw [show group' = group by simpa [hpending] using (congrArg List.head? hpending').symm]
    exact grant_self
  · intro group' rest' sequence _ hphase
    cases hphase

theorem Numbered.number (h : Numbered iso s) {group : Option Nat × List Event}
    {rest : List (Option Nat × List Event)} (hpending : (s.transactions t).pending = group :: rest)
    (hphase : (s.transactions t).phase = .locked) :
    Numbered iso (s.set t { s.transactions t with
      phase := .numbered (nextSequence (s.visible t) group.1) }) := by
  have hx := h.transaction t
  refine h.set _ s.locks (fun _ _ _ => Iff.rfl) ⟨hx.rows, hx.held, ?_, ?_⟩
  · exact fun group' rest' hpending' _ => hx.locked group' rest' hpending' (by rw [hphase]; simp)
  · intro group' rest' sequence hpending' hnumber
    rw [show group' = group by simpa [hpending] using (congrArg List.head? hpending').symm]
    cases hnumber
    obtain ⟨written, hseen⟩ := h.visible t group.1
    have hlength : (rowsOf group.1 (s.visible t)).length =
        (eventsOf group.1 s.journal.flatten).length + (rowsOf group.1 (s.transactions t).rows).length := by
      rw [State.visible, rowsOf_append, List.length_append, h.committed, length_rowsFrom]
    rw [hseen, length_rowsFrom] at hlength
    rw [nextSequence_of_numbered hseen, hlength]

theorem Numbered.add (h : Numbered iso s) {group : Option Nat × List Event}
    {rest : List (Option Nat × List Event)} {sequence : Nat}
    (hpending : (s.transactions t).pending = group :: rest)
    (hphase : (s.transactions t).phase = .numbered sequence) :
    Numbered iso (s.set t { s.transactions t with
      pending := rest
      phase := .unlocked
      rows := (s.transactions t).rows ++ rowsFrom iso group.1 sequence group.2 }) := by
  have hx := h.transaction t
  have hlock := hx.locked group rest hpending (by rw [hphase]; simp)
  have hsequence := hx.numbered group rest sequence hpending hphase
  refine h.set _ s.locks (fun _ _ _ => Iff.rfl) ⟨fun run => ?_, fun run hne => ?_, ?_, ?_⟩
  · obtain ⟨written, hwritten, hrows⟩ := hx.rows run
    rw [hpending, eventsIn_cons] at hwritten
    by_cases hrun : group.1 = run
    · -- The group continues the rows that are there.
      rw [if_pos hrun] at hwritten
      subst hrun
      refine ⟨written ++ group.2, by rw [List.append_assoc, hwritten], ?_⟩
      rw [rowsOf_append, rowsOf_rowsFrom, if_pos rfl, rowsFrom_append, hsequence, hrows,
        length_rowsFrom]
      congr 2
      omega
    · rw [if_neg hrun] at hwritten
      refine ⟨written, hwritten, ?_⟩
      rw [rowsOf_append, rowsOf_rowsFrom, if_neg hrun, List.append_nil, hrows]
  · rw [rowsOf_append, rowsOf_rowsFrom] at hne
    by_cases hrun : group.1 = run
    · exact hrun ▸ hlock
    · rw [if_neg hrun, List.append_nil] at hne
      exact hx.held run hne
  · exact fun group' rest' _ hphase' => absurd rfl hphase'
  · intro group' rest' sequence' _ hphase'
    cases hphase'

/-- A commit adds to the runs whose locks the transaction holds, and to no other. -/
theorem Numbered.commit (h : Numbered iso s) (hidle : (s.transactions t).pending = []) :
    Numbered iso { s.set t {} with
      rows := s.rows ++ (s.transactions t).rows
      journal := s.journal ++ (s.transactions t).batches
      locks := release s.locks t } := by
  have hx := h.transaction t
  have hwritten : ∀ run, rowsOf run (s.transactions t).rows =
      rowsFrom iso run ((eventsOf run s.journal.flatten).length + 1)
        (eventsOf run (s.transactions t).batches.flatten) := by
    intro run
    obtain ⟨written, hwritten, hrows⟩ := hx.rows run
    rw [hidle, eventsIn_nil, List.append_nil] at hwritten
    rw [hrows, hwritten]
  constructor
  · intro run
    simp only [rowsOf_append, h.committed, hwritten, List.flatten_append, eventsOf_append,
      rowsFrom_append, Nat.add_comm]
  · intro u
    by_cases hu : u = t
    · subst hu
      simpa [State.set] using Transaction.Numbered.idle
    · have hother : (Function.update s.transactions t {}) u = s.transactions u :=
        Function.update_of_ne hu ..
      simp only [State.set, hother]
      refine (h.transaction u).transfer (fun key => release_other hu) fun run hlock => ?_
      -- `u` holds the lock of the run, so that `t` wrote nothing for it.
      have hempty : rowsOf run (s.transactions t).rows = [] := by
        by_contra hne
        rw [hx.held run hne, Option.some.injEq] at hlock
        exact hu hlock.symm
      have hnone : eventsOf run (s.transactions t).batches.flatten = [] := by
        rw [← List.length_eq_zero_iff, ← length_rowsFrom, ← hwritten, hempty]
        rfl
      simp only [List.flatten_append, eventsOf_append, hnone, List.append_nil]

theorem Numbered.rollback (h : Numbered iso s) (t : Nat) :
    Numbered iso { s.set t {} with locks := release s.locks t } :=
  h.set _ _ (fun _ hu _ => release_other hu) .idle

theorem Numbered.step (h : Numbered iso s) : Numbered iso (step iso s move) := by
  have hturn := step_turn iso s move
  generalize EventLog.step iso s move = s' at hturn ⊢
  cases hturn with
  | none => exact h
  | append t events hidle => exact h.append events hidle
  | lock t group rest hpending hphase hfree => exact h.lock hpending hfree
  | number t group rest hpending hphase => exact h.number hpending hphase
  | add t group rest sequence hpending hphase => exact h.add hpending hphase
  | commit t hidle => exact h.commit hidle
  | rollback t => exact h.rollback t

theorem numbered_after (moves : List Move) : Numbered iso (Runs.after (EventLog.step iso) {} moves) :=
  Runs.after_invariant ⟨fun _ => rfl, fun _ => .idle⟩ fun _ _ h => h.step

/-! ### Locks

An append takes the locks of its groups from the first to the last, which is upwards in
`lockOrder`. A transaction that made one append holds no other locks. -/

/-- The locks that the append will still ask for. -/
def Transaction.untaken (x : Transaction) : List Int :=
  match x.phase with
  | .unlocked => x.pending.map fun group => lockKey group.1
  | _ => x.pending.tail.map fun group => lockKey group.1

structure Transaction.Disciplined (locks : Table Int Nat) (t : Nat) (x : Transaction) : Prop where
  keys : x.taken ++ x.untaken =
    (groups (x.batches.getLast?.getD [])).map fun group => lockKey group.1
  holds : ∀ key ∈ x.taken, locks key = some t
  only : x.batches.length ≤ 1 → ∀ key, locks key = some t → key ∈ x.taken

def Disciplined (s : State) : Prop := ∀ t, (s.transactions t).Disciplined s.locks t

theorem Transaction.Disciplined.idle (h : ∀ key, locks key ≠ some t) :
    ({} : Transaction).Disciplined locks t where
  keys := rfl
  holds key hkey := by cases hkey
  only _ key hkey := absurd hkey (h key)

/-- A move of `t` leaves the others their locks. -/
theorem Disciplined.set (h : Disciplined s) (x : Transaction) (locks : Table Int Nat)
    (hlocks : ∀ u, u ≠ t → ∀ key, locks key = some u ↔ s.locks key = some u)
    (hx : x.Disciplined locks t) : Disciplined { s.set t x with locks := locks } := by
  intro u
  by_cases hu : u = t
  · subst hu
    simpa [State.set] using hx
  · have hother : (Function.update s.transactions t x) u = s.transactions u :=
      Function.update_of_ne hu ..
    simp only [State.set, hother]
    exact ⟨(h u).keys, fun key hkey => (hlocks u hu key).mpr ((h u).holds key hkey),
      fun hone key hkey => (h u).only hone key ((hlocks u hu key).mp hkey)⟩

theorem Disciplined.append (h : Disciplined s) (events : List Event) :
    Disciplined (s.set t { s.transactions t with
      pending := groups events
      phase := .unlocked
      batches := (s.transactions t).batches ++ [events]
      taken := [] }) := by
  refine h.set _ s.locks (fun _ _ _ => Iff.rfl) ⟨?_, fun _ => List.not_mem_nil.elim, ?_⟩
  · simp [Transaction.untaken]
  · -- Before its first append a transaction holds no lock at all.
    intro hone key hheld
    have hfirst : (s.transactions t).batches = [] := by simpa using hone
    have hkeys := (h t).keys
    have htaken : (s.transactions t).taken = [] := by
      rw [hfirst] at hkeys
      exact (List.append_eq_nil_iff.mp hkeys).1
    have hmem := (h t).only (by simp [hfirst]) key hheld
    rw [htaken] at hmem
    cases hmem

theorem Disciplined.lock (h : Disciplined s) {group : Option Nat × List Event}
    {rest : List (Option Nat × List Event)} (hpending : (s.transactions t).pending = group :: rest)
    (hphase : (s.transactions t).phase = .unlocked) (hfree : Free s.locks t (lockKey group.1)) :
    Disciplined { s.set t { s.transactions t with
        phase := .locked
        taken := (s.transactions t).taken ++ [lockKey group.1] } with
      locks := grant s.locks t (lockKey group.1) } := by
  refine h.set _ _ (fun u hu key => grant_other hfree hu) ⟨?_, ?_, ?_⟩
  · have hkeys := (h t).keys
    rw [Transaction.untaken, hphase, hpending] at hkeys
    simpa [Transaction.untaken, hpending] using hkeys
  · intro key hkey
    rcases List.mem_append.mp hkey with hbefore | hnow
    · exact grant_of_holds hfree ((h t).holds key hbefore)
    · rw [List.mem_singleton.mp hnow]
      exact grant_self
  · intro hone key hheld
    rcases grant_holds hheld with hbefore | ⟨-, hnow⟩
    · exact List.mem_append_left _ ((h t).only hone key hbefore)
    · simp [hnow]

theorem Disciplined.step (h : Disciplined s) : Disciplined (step iso s move) := by
  have hturn := step_turn iso s move
  generalize EventLog.step iso s move = s' at hturn ⊢
  cases hturn with
  | none => exact h
  | append t events hidle => exact h.append events
  | lock t group rest hpending hphase hfree => exact h.lock hpending hphase hfree
  | number t group rest hpending hphase =>
    have hkeys := (h t).keys
    rw [Transaction.untaken, hphase] at hkeys
    exact h.set _ s.locks (fun _ _ _ => Iff.rfl) ⟨hkeys, (h t).holds, (h t).only⟩
  | add t group rest sequence hpending hphase =>
    have hkeys := (h t).keys
    rw [Transaction.untaken, hphase, hpending] at hkeys
    exact h.set _ s.locks (fun _ _ _ => Iff.rfl) ⟨hkeys, (h t).holds, (h t).only⟩
  | commit t hidle =>
    exact h.set {} (release s.locks t) (fun _ hu _ => release_other hu) (.idle fun _ => release_self)
  | rollback t =>
    exact h.set {} (release s.locks t) (fun _ hu _ => release_other hu) (.idle fun _ => release_self)

theorem disciplined_after (moves : List Move) : Disciplined (Runs.after (EventLog.step iso) {} moves) :=
  Runs.after_invariant (fun _ => .idle fun _ => by simp) fun _ _ h => h.step

theorem Disciplined.taken_ascending (h : Disciplined s) (t : Nat) :
    (s.transactions t).taken.Pairwise fun left right => lockOrder left ≤ lockOrder right := by
  have hall := groups_lockOrder ((s.transactions t).batches.getLast?.getD [])
  rw [← (h t).keys] at hall
  exact (List.pairwise_append.mp hall).1

theorem Disciplined.taken_isLockKey (h : Disciplined s) {key : Int}
    (hkey : key ∈ (s.transactions t).taken) : IsLockKey key := by
  have hmem := List.mem_append_left (s.transactions t).untaken hkey
  rw [(h t).keys, List.mem_map] at hmem
  obtain ⟨group, -, rfl⟩ := hmem
  exact lockKey_isLockKey group.1

/-- The lock of the group at the head comes after those that were taken. -/
theorem Disciplined.wants_ascending (h : Disciplined s) {key wanted : Int}
    (hkey : key ∈ (s.transactions t).taken) (hwants : (s.transactions t).wants = some wanted) :
    lockOrder key ≤ lockOrder wanted := by
  obtain ⟨group, rest, hpending, hphase, rfl⟩ := wants_eq_some hwants
  have hall := groups_lockOrder ((s.transactions t).batches.getLast?.getD [])
  rw [← (h t).keys] at hall
  refine (List.pairwise_append.mp hall).2.2 key hkey _ ?_
  rw [Transaction.untaken, hphase, hpending]
  exact List.mem_cons_self ..

/-- The append of `t` waits for a lock that the append of `u` took. -/
def State.AppendWaits (s : State) (t u : Nat) : Prop :=
  ∃ key, (s.transactions t).wants = some key ∧ s.locks key = some u ∧ u ≠ t ∧
    key ∈ (s.transactions u).taken

/-- `t` waits for a lock that `u` holds. -/
def State.Waits (s : State) (t u : Nat) : Prop :=
  WaitsFor s.locks (fun t => (s.transactions t).wants) t u

theorem wants_lockOrder_inj {y : Transaction} {key key' : Int} (h : x.wants = some key)
    (h' : y.wants = some key') (hsame : lockOrder key = lockOrder key') : key = key' := by
  obtain ⟨group, -, -, -, rfl⟩ := wants_eq_some h
  obtain ⟨group', -, -, -, rfl⟩ := wants_eq_some h'
  exact lockOrder_injOn (lockKey_isLockKey _) (lockKey_isLockKey _) hsame

/-- Appends ask for locks upwards. -/
theorem Disciplined.appendWaits (h : Disciplined s) :
    Ascending s.locks (fun t => (s.transactions t).wants) lockOrder s.AppendWaits where
  blocked t u := fun ⟨key, hwants, hholder, hother, _⟩ => ⟨key, hwants, hholder, hother⟩
  rank_inj t u key key' hwants hwants' hsame := wants_lockOrder_inj hwants hwants' hsame
  ascending t u key key' := fun ⟨wanted, hwanted, _, _, htaken⟩ hwants hwants' => by
    have hsame : wanted = key := Option.some.inj (hwanted.symm.trans hwants)
    exact h.wants_ascending (hsame ▸ htaken) hwants'

/-- Where each transaction made one append, the locks it holds are those that it took. -/
theorem Disciplined.waits (h : Disciplined s) (hone : ∀ t, (s.transactions t).batches.length ≤ 1) :
    Ascending s.locks (fun t => (s.transactions t).wants) lockOrder s.Waits where
  blocked t u hwait := hwait
  rank_inj t u key key' hwants hwants' hsame := wants_lockOrder_inj hwants hwants' hsame
  ascending t u key key' := fun ⟨wanted, hwanted, hholder, _⟩ hwants hwants' => by
    have hsame : wanted = key := Option.some.inj (hwanted.symm.trans hwants)
    exact h.wants_ascending (hsame ▸ (h u).only (hone u) wanted hholder) hwants'

theorem wants_lt {key : Int} (h : x.wants = some key) : lockOrder key < 2 ^ 32 := by
  obtain ⟨group, rest, -, -, rfl⟩ := wants_eq_some h
  unfold lockOrder
  omega

/-! ### Every run -/

/-- The sequences of a run that a statement of `t` sees. -/
def State.sequences (s : State) (t : Nat) (run : Option Nat) : List Nat :=
  (rowsOf run (s.visible t)).map RunEventModel.sequence

theorem Numbered.sequences (h : Numbered iso s) (t : Nat) (run : Option Nat) :
    s.sequences t run = List.range' 1 (s.sequences t run).length := by
  obtain ⟨written, hseen⟩ := h.visible t run
  rw [State.sequences, hseen, sequences_rowsFrom, List.length_range']

/-- The events of a committed batch stand next to each other among those of their run. -/
theorem Numbered.batch (h : Numbered iso s) {batch : List Event} (hbatch : batch ∈ s.journal)
    (run : Option Nat) :
    ∃ first, rowsFrom iso run first (eventsOf run batch) <:+: rowsOf run s.rows := by
  obtain ⟨earlier, later, hjournal⟩ := List.append_of_mem hbatch
  rw [h.committed, hjournal, List.flatten_append, List.flatten_cons, eventsOf_append,
    eventsOf_append, rowsFrom_append, rowsFrom_append, ← List.append_assoc]
  exact ⟨_, _, _, rfl⟩

/-- **In every interleaving the committed events of each run are numbered `1` to `n` in the
    order of the commits, nobody sees a number without the one before it, the events of a
    batch keep their order, and appends take their locks upwards in `lockOrder`, so that no
    circle of appends waits.** Where each transaction makes one append, as the unit of work
    does when it commits, no circle of transactions waits either. -/
theorem event_log_sequenced (iso : IsoCodec) (moves : List Move) :
    let s := Runs.after (step iso) {} moves
    (∀ run, rowsOf run s.rows = rowsFrom iso run 1 (eventsOf run s.journal.flatten) ∧
      (rowsOf run s.rows).map RunEventModel.sequence = List.range' 1 (rowsOf run s.rows).length) ∧
    (∀ t run k, 1 ≤ k → k + 1 ∈ s.sequences t run → k ∈ s.sequences t run) ∧
    (∀ batch ∈ s.journal, ∀ run,
      ∃ first, rowsFrom iso run first (eventsOf run batch) <:+: rowsOf run s.rows) ∧
    (∀ t, (s.transactions t).taken.Pairwise (fun left right => lockOrder left ≤ lockOrder right) ∧
      ∀ key ∈ (s.transactions t).taken, s.locks key = some t ∧ IsLockKey key) ∧
    Set.InjOn lockOrder {key | IsLockKey key} ∧
    (∀ t, ¬ TransGen s.AppendWaits t t) ∧
    ((∀ t, (s.transactions t).batches.length ≤ 1) →
      ∀ t, ¬ TransGen s.Waits t t ∧ ∃ u, ReflTransGen s.Waits t u ∧ ∀ v, ¬ s.Waits u v) := by
  intro s
  have hnumbered : Numbered iso s := numbered_after moves
  have hdisciplined : Disciplined s := disciplined_after moves
  refine ⟨fun run => ⟨hnumbered.committed run, ?_⟩, ?_, fun batch hbatch => hnumbered.batch hbatch,
    fun t => ⟨hdisciplined.taken_ascending t, fun key hkey => ⟨(hdisciplined t).holds key hkey, ?_⟩⟩,
    lockOrder_injOn, hdisciplined.appendWaits.no_cycle, fun hone t => ?_⟩
  · rw [hnumbered.committed, sequences_rowsFrom, length_rowsFrom]
  · intro t run k hk hmem
    rw [hnumbered.sequences, List.mem_range'_1] at hmem ⊢
    omega
  · exact hdisciplined.taken_isLockKey hkey
  · have hascending := hdisciplined.waits hone
    exact ⟨hascending.no_cycle t, hascending.ends (fun t key => wants_lt) t⟩

section Sample

def sampleRunEvent (run eventId : Nat) : Event :=
  ⟨EventClass.planRequested, [("run_id", .entityId .run ⟨run⟩), ("revision", .json (.int 1))], 0, eventId⟩

def sampleWorkerEvent (eventId : Nat) : Event :=
  ⟨EventClass.workerDeregistered,
    [("worker_id", .entityId .worker ⟨7⟩), ("graceful", .json (.bool true))], 0, eventId⟩

/-- Two transactions that write to one run and to none, whose locks are the same. -/
def sampleMoves : List Move :=
  [.append 0 [sampleRunEvent 5 1, sampleWorkerEvent 2], .append 1 [sampleWorkerEvent 3, sampleRunEvent 5 4],
    .lockSequence 0, .lockSequence 1, .nextSequence 0, .addRows 0, .lockSequence 0, .nextSequence 0,
    .addRows 0, .commit 0, .lockSequence 1, .nextSequence 1, .addRows 1, .lockSequence 1,
    .nextSequence 1, .addRows 1, .commit 1]

theorem event_log_sequenced_sample :
    let s := Runs.after (step IsoCodec.sample) {} sampleMoves
    s.sequences 0 (some 5) = [1, 2] ∧ s.sequences 0 none = [1, 2] ∧ ∀ t, ¬ TransGen s.Waits t t := by
  have hone : ∀ t, ((Runs.after (step IsoCodec.sample) {} sampleMoves).transactions t).batches.length ≤ 1 := by
    intro t
    match t with
    | 0 => decide +kernel
    | 1 => decide +kernel
    | t + 2 => exact Nat.zero_le 1
  obtain ⟨-, -, -, -, -, -, hcycle⟩ := event_log_sequenced IsoCodec.sample sampleMoves
  exact ⟨rfl, rfl, fun t => (hcycle hone t).1⟩

/-- Transactions that append twice can hold the locks of their first batches against each
    other. -/
example :
    let s := Runs.after (step IsoCodec.sample) {}
      [.append 0 [sampleRunEvent (2 ^ 96) 1], .append 1 [sampleRunEvent (2 ^ 97) 2],
        .lockSequence 0, .nextSequence 0, .addRows 0, .lockSequence 1, .nextSequence 1, .addRows 1,
        .append 0 [sampleRunEvent (2 ^ 97) 3], .append 1 [sampleRunEvent (2 ^ 96) 4]]
    s.Waits 0 1 ∧ s.Waits 1 0 :=
  ⟨⟨2, rfl, rfl, by decide⟩, ⟨1, rfl, rfl, by decide⟩⟩

end Sample

end EventLog

end AgenticPlatform
