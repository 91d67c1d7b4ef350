import AgenticPlatform.RegistryEquivalence

/-!
# The keyspace

Every key that the platform keeps in Redis, with the prefix of its environment. A key is
the prefix, a head that tells its kind, and an argument. No head begins another, but for
the global event stream, whose key takes no argument.
-/

namespace AgenticPlatform

/-- `Keyspace`; a blank prefix is refused. -/
structure Keyspace where
  keyPrefix : String
  nonempty : keyPrefix ≠ ""

namespace Keyspace

variable (keys : Keyspace)

def workerIndex : String := keys.keyPrefix ++ ":workers"

/-- `worker`, of the text of an id. -/
def worker (workerId : String) : String := keys.keyPrefix ++ ":worker:" ++ workerId

/-- `job`, of the text of an id. -/
def job (jobId : String) : String := keys.keyPrefix ++ ":job:" ++ jobId

def ready (jobType : JobType) : String := keys.keyPrefix ++ ":ready:" ++ jobType.value

def leases : String := keys.keyPrefix ++ ":leases"

def runJobs (runId : RunId) : String := keys.keyPrefix ++ ":run:" ++ runId.str ++ ":jobs"

def eventStream : String := keys.keyPrefix ++ ":events"

def runStream (runId : RunId) : String := keys.keyPrefix ++ ":events:run:" ++ runId.str

def lock (name : String) : String := keys.keyPrefix ++ ":lock:" ++ name

end Keyspace

/-- What a key is about. -/
inductive KeyName where
  | workerIndex
  | worker (workerId : String)
  | job (jobId : String)
  | ready (jobType : JobType)
  | leases
  | runJobs (runId : RunId)
  | eventStream
  | runStream (runId : RunId)
  | lock (name : String)

def Keyspace.key (keys : Keyspace) : KeyName → String
  | .workerIndex => keys.workerIndex
  | .worker workerId => keys.worker workerId
  | .job jobId => keys.job jobId
  | .ready jobType => keys.ready jobType
  | .leases => keys.leases
  | .runJobs runId => keys.runJobs runId
  | .eventStream => keys.eventStream
  | .runStream runId => keys.runStream runId
  | .lock name => keys.lock name

/-- The kinds of keys. -/
inductive KeyKind where
  | workerIndex | worker | job | ready | leases | runJobs | eventStream | runStream | lock
deriving DecidableEq

namespace KeyKind

def all : List KeyKind :=
  [.workerIndex, .worker, .job, .ready, .leases, .runJobs, .eventStream, .runStream, .lock]

/-- What follows the prefix. -/
def head : KeyKind → String
  | .workerIndex => ":workers"
  | .worker => ":worker:"
  | .job => ":job:"
  | .ready => ":ready:"
  | .leases => ":leases"
  | .runJobs => ":run:"
  | .eventStream => ":events"
  | .runStream => ":events:run:"
  | .lock => ":lock:"

theorem mem_all (kind : KeyKind) : kind ∈ all := by cases kind <;> decide

/-- No head begins another, but for that of the event stream. -/
theorem head_begins {left right : KeyKind} (h : left.head.toList <+: right.head.toList) :
    left = right ∨ left = .eventStream ∧ right = .runStream := by
  have hall : (all.all fun left => all.all fun right => decide (left.head.toList <+: right.head.toList →
      left = right ∨ left = .eventStream ∧ right = .runStream)) = true := by decide
  have hleft := List.all_eq_true.mp hall left (mem_all left)
  exact of_decide_eq_true (List.all_eq_true.mp hleft right (mem_all right)) h

end KeyKind

namespace KeyName

def kind : KeyName → KeyKind
  | .workerIndex => .workerIndex
  | .worker _ => .worker
  | .job _ => .job
  | .ready _ => .ready
  | .leases => .leases
  | .runJobs _ => .runJobs
  | .eventStream => .eventStream
  | .runStream _ => .runStream
  | .lock _ => .lock

/-- What follows the head. -/
def argument : KeyName → List Char
  | .workerIndex => []
  | .worker workerId => workerId.toList
  | .job jobId => jobId.toList
  | .ready jobType => jobType.value.toList
  | .leases => []
  | .runJobs runId => runId.str.toList ++ ":jobs".toList
  | .eventStream => []
  | .runStream runId => runId.str.toList
  | .lock name => name.toList

/-- The run of a key, if it has one, is a UUID. -/
def Proper : KeyName → Prop
  | .runJobs runId => IsUuid runId.value
  | .runStream runId => IsUuid runId.value
  | _ => True

theorem eq_of_argument {left right : KeyName} (hleft : left.Proper) (hright : right.Proper)
    (hkind : left.kind = right.kind) (h : left.argument = right.argument) : left = right := by
  cases left with
  | workerIndex =>
    cases right with
    | workerIndex => rfl
    | _ => cases hkind
  | worker workerId =>
    cases right with
    | worker workerId' => rw [String.toList_injective h]
    | _ => cases hkind
  | job jobId =>
    cases right with
    | job jobId' => rw [String.toList_injective h]
    | _ => cases hkind
  | ready jobType =>
    cases right with
    | ready jobType' =>
      have hvalue : StrEnum.value jobType = StrEnum.value jobType' := String.toList_injective h
      rw [StrEnum.value_inj hvalue]
    | _ => cases hkind
  | leases =>
    cases right with
    | leases => rfl
    | _ => cases hkind
  | runJobs runId =>
    cases right with
    | runJobs runId' =>
      have hstr : runId.str = runId'.str := String.toList_injective (List.append_cancel_right h)
      rw [EntityId.str_inj hleft hright hstr]
    | _ => cases hkind
  | eventStream =>
    cases right with
    | eventStream => rfl
    | _ => cases hkind
  | runStream runId =>
    cases right with
    | runStream runId' => rw [EntityId.str_inj hleft hright (String.toList_injective h)]
    | _ => cases hkind
  | lock name =>
    cases right with
    | lock name' => rw [String.toList_injective h]
    | _ => cases hkind

end KeyName

namespace Keyspace

theorem key_toList (keys : Keyspace) (name : KeyName) :
    (keys.key name).toList = keys.keyPrefix.toList ++ (name.kind.head.toList ++ name.argument) := by
  have hwritten : ∀ head argument : String, (keys.keyPrefix ++ head ++ argument).toList =
      keys.keyPrefix.toList ++ (head.toList ++ argument.toList) := by
    intro head argument
    rw [String.toList_append, String.toList_append, List.append_assoc]
  have halone : ∀ head : String, (keys.keyPrefix ++ head).toList =
      keys.keyPrefix.toList ++ (head.toList ++ []) := by
    intro head
    rw [String.toList_append, List.append_nil]
  cases name with
  | workerIndex => exact halone _
  | worker workerId => exact hwritten _ workerId
  | job jobId => exact hwritten _ jobId
  | ready jobType => exact hwritten _ jobType.value
  | leases => exact halone _
  | runJobs runId =>
    show (keys.keyPrefix ++ ":run:" ++ runId.str ++ ":jobs").toList =
      keys.keyPrefix.toList ++ (":run:".toList ++ (runId.str.toList ++ ":jobs".toList))
    rw [String.append_assoc, hwritten, String.toList_append]
  | eventStream => exact halone _
  | runStream runId => exact hwritten _ runId.str
  | lock name => exact hwritten _ name

/-- Two keys are the same text only if they are about the same. -/
theorem key_inj (keys : Keyspace) {left right : KeyName} (hleft : left.Proper) (hright : right.Proper)
    (h : keys.key left = keys.key right) : left = right := by
  have hchars := congrArg String.toList h
  rw [key_toList, key_toList, List.append_cancel_left_eq] at hchars
  have hcompare : left.kind.head.toList <+: right.kind.head.toList ∨
      right.kind.head.toList <+: left.kind.head.toList := by
    refine List.prefix_or_prefix_of_prefix (List.prefix_append _ left.argument) ?_
    rw [hchars]
    exact List.prefix_append _ _
  -- the key of the event stream ends where that of a run's stream goes on
  have hstream : ∀ name name' : KeyName, name.kind = .eventStream → name'.kind = .runStream →
      name.kind.head.toList ++ name.argument ≠ name'.kind.head.toList ++ name'.argument := by
    intro name name' hevents hrun heq
    have hargument : name.argument = [] := by
      cases name with
      | eventStream => rfl
      | _ => cases hevents
    have hshort : KeyKind.eventStream.head.toList.length = 7 := by decide
    have hlong : KeyKind.runStream.head.toList.length = 12 := by decide
    have hlength := congrArg List.length heq
    rw [hevents, hrun, hargument, List.length_append, List.length_append, hshort, hlong,
      List.length_nil] at hlength
    omega
  have hkind : left.kind = right.kind := by
    rcases hcompare with hbegins | hbegins
    · rcases KeyKind.head_begins hbegins with hsame | ⟨hevents, hrun⟩
      · exact hsame
      · exact absurd hchars (hstream left right hevents hrun)
    · rcases KeyKind.head_begins hbegins with hsame | ⟨hevents, hrun⟩
      · exact hsame.symm
      · exact absurd hchars.symm (hstream right left hevents hrun)
  rw [hkind] at hchars
  exact KeyName.eq_of_argument hleft hright hkind (List.append_cancel_left hchars)

/-- Neither prefix, with the colon after it, begins the other. -/
def Apart (keys keys' : Keyspace) : Prop :=
  ¬ (keys.keyPrefix ++ ":").toList <+: (keys'.keyPrefix ++ ":").toList ∧
    ¬ (keys'.keyPrefix ++ ":").toList <+: (keys.keyPrefix ++ ":").toList

theorem begins_key (keys : Keyspace) (name : KeyName) :
    (keys.keyPrefix ++ ":").toList <+: (keys.key name).toList := by
  have hcolon : ":".toList <+: name.kind.head.toList := by
    cases name.kind <;> decide
  rw [key_toList, String.toList_append, List.prefix_append_right_inj]
  exact hcolon.trans (List.prefix_append _ _)

/-- **Keys do not clash**: a key tells what it is about, and environments whose prefixes are
    apart share no key. -/
theorem keys_tell {keys keys' : Keyspace} (hkeys : keys = keys' ∨ keys.Apart keys')
    {left right : KeyName} (hleft : left.Proper) (hright : right.Proper)
    (h : keys.key left = keys'.key right) : keys = keys' ∧ left = right := by
  rcases hkeys with rfl | ⟨hfirst, hsecond⟩
  · exact ⟨rfl, keys.key_inj hleft hright h⟩
  · have hbegins := keys.begins_key left
    rw [h] at hbegins
    rcases List.prefix_or_prefix_of_prefix hbegins (keys'.begins_key right) with hle | hle
    · exact absurd hle hfirst
    · exact absurd hle hsecond

namespace Sample

def staging : Keyspace := ⟨"staging", by simp⟩

def production : Keyspace := ⟨"production", by simp⟩

end Sample

theorem keys_tell_sample :
    Sample.staging.key (.runStream ⟨2⟩) ≠ Sample.production.key (.runStream ⟨2⟩) := by
  intro h
  have hapart : Sample.staging.Apart Sample.production := by
    constructor <;> decide
  have hproper : (KeyName.runStream ⟨2⟩).Proper := (by decide : IsUuid 2)
  have hsame := (keys_tell (.inr hapart) hproper hproper h).1
  exact hapart.1 (by rw [hsame])

end Keyspace

end AgenticPlatform
