import AgenticPlatform.Doubles
import AgenticPlatform.Enums
import AgenticPlatform.Run

/-!
# Completing, validating and asking again

An agent asks a model, validates the answer, and asks again in the same conversation while its
budget of repairs lasts. Messages are passed on unread, so what they are is left open; so are
the provider, the codec and the parser.
-/

namespace AgenticPlatform

inductive FinishReason where
  | stop | length | toolCalls | cancelled | error
deriving DecidableEq, Repr

/-- A tool that the model asks for. What a text is depends on who reads it. -/
structure ToolCall (Text : Type) where
  id : Text
  name : Text
  arguments : Text

structure CompletionResult (Text : Type) where
  content : Text
  model : Text
  finishReason : FinishReason
  toolCalls : List (ToolCall Text)
  usage : TokenUsage
  latencyMs : Int
  correlationId : Option Text

/-- A length-truncated answer can never be valid structured output. -/
def CompletionResult.truncated {Text : Type} (result : CompletionResult Text) : Bool :=
  decide (result.finishReason = .length)

/-- A conversation is not empty. -/
structure CompletionRequest (Message : Type) where
  messages : List Message
  temperature : Binary64
  maxTokens : Option Int
  jsonSchema : Mapping
  timeoutSeconds : Option Binary64
  messages_ne : messages ≠ []
  temperature_le : (Binary64.ofInt 0).le temperature = true ∧ temperature.le (.ofInt 2) = true
  maxTokens_pos : ∀ tokens, maxTokens = some tokens → 0 < tokens

/-- A prompt ready to send. -/
structure RenderedPrompt (Message : Type) where
  messages : List Message
  version : String
  messages_ne : messages ≠ []

structure StructuredOutputError where
  message : String
  schema : String
  rawOutput : String
  attempt : Nat
deriving DecidableEq, Repr

/-- A `StructuredOutputError`, or what the provider or the parser raised. -/
inductive CompletionError where
  | structured (error : StructuredOutputError)
  | raised (error : PyError)
deriving DecidableEq, Repr

/-- A validated draft plus everything needed to explain how it was produced. -/
structure AgentOutcome (Draft : Type) where
  draft : Draft
  usage : TokenUsage
  promptVersion : String
  model : String
  repairs : Nat
  rawLength : Nat

/-- The exceptions that `complete` takes for an invalid answer. -/
def PyError.isRejection : PyError → Bool
  | .structuredOutput _ | .valueError _ => true
  | _ => false

/-- The shared machinery, with what `CompletionRequest` asks of its settings. -/
structure StructuredCompletion (Message : Type) where
  render : AgentRole → Mapping → RenderedPrompt Message
  schemaFor : AgentRole → Mapping
  repairMessages : AgentRole → String → String → List Message
  maxStructuredOutputRepairs : Nat
  temperature : Binary64
  maxTokens : Option Int
  timeoutSeconds : Option Binary64
  extraVariables : Mapping
  temperature_le : (Binary64.ofInt 0).le temperature = true ∧ temperature.le (.ofInt 2) = true
  maxTokens_pos : ∀ tokens, maxTokens = some tokens → 0 < tokens

namespace StructuredCompletion

variable {Message Draft : Type}

/-- A call of the provider and its answer. -/
structure Call (Message : Type) where
  request : CompletionRequest Message
  answer : Except PyError (CompletionResult String)

/-- What the loop carries from one attempt to the next. -/
structure Progress (Message : Type) where
  messages : List Message
  usage : TokenUsage
  lastError : String
  raw : String
  messages_ne : messages ≠ []

/-- What one completion is called with; the provider answers the calls one after the other. -/
structure Task (Message Draft : Type) where
  machinery : StructuredCompletion Message
  provider : Nat → CompletionRequest Message → Except PyError (CompletionResult String)
  role : AgentRole
  given : Mapping
  parse : String → Except PyError Draft

namespace Task

def budget (task : Task Message Draft) : Nat := task.machinery.maxStructuredOutputRepairs

def prompt (task : Task Message Draft) : RenderedPrompt Message :=
  -- a variable that is given takes the place of an extra one
  let extra := task.machinery.extraVariables.filter fun entry =>
    (List.lookup entry.1 task.given).isNone
  task.machinery.render task.role (extra ++ task.given)

def request (task : Task Message Draft) (progress : Progress Message) :
    CompletionRequest Message where
  messages := progress.messages
  temperature := task.machinery.temperature
  maxTokens := task.machinery.maxTokens
  jsonSchema := task.machinery.schemaFor task.role
  timeoutSeconds := task.machinery.timeoutSeconds
  messages_ne := progress.messages_ne
  temperature_le := task.machinery.temperature_le
  maxTokens_pos := task.machinery.maxTokens_pos

def truncatedError (task : Task Message Draft) (raw : String) (attempt : Nat) :
    StructuredOutputError where
  message := "model output was truncated by the token limit"
  schema := task.role.value
  rawOutput := raw
  attempt := attempt + 1

/-- What is raised after the loop. -/
def exhaustedError (task : Task Message Draft) (lastError raw : String) :
    StructuredOutputError where
  message := "structured output still invalid after " ++ toString task.budget ++
    " repair attempt(s): " ++ lastError
  schema := task.role.value
  rawOutput := raw
  attempt := task.budget + 1

/-- The conversation with the rejected answer and the violation attached. -/
def repaired (task : Task Message Draft) (progress : Progress Message) (usage : TokenUsage)
    (raw lastError : String) : Progress Message where
  messages := progress.messages ++ task.machinery.repairMessages task.role raw lastError
  usage
  lastError
  raw
  messages_ne := List.append_ne_nil_of_left_ne_nil progress.messages_ne _

/-- The loop from an attempt on, with the calls it makes. -/
def loop (task : Task Message Draft) (attempt : Nat) (progress : Progress Message) :
    (remaining : Nat) → Except CompletionError (AgentOutcome Draft) × List (Call Message)
  | 0 => (.error (.structured (task.exhaustedError progress.lastError progress.raw)), [])
  | remaining + 1 =>
    let request := task.request progress
    match task.provider attempt request with
    | .error error => (.error (.raised error), [⟨request, .error error⟩])
    | .ok result =>
      let call : Call Message := ⟨request, .ok result⟩
      let usage := progress.usage + result.usage
      if result.truncated then
        (.error (.structured (task.truncatedError result.content attempt)), [call])
      else
        match task.parse result.content with
        | .ok draft =>
          (.ok {
            draft
            usage
            promptVersion := task.prompt.version
            model := result.model
            repairs := attempt
            rawLength := result.content.length }, [call])
        | .error error =>
          if error.isRejection then
            if attempt ≥ task.budget then
              (.error (.structured (task.exhaustedError error.str result.content)), [call])
            else
              let rest := loop task (attempt + 1)
                (task.repaired progress usage result.content error.str) remaining
              (rest.1, call :: rest.2)
          else (.error (.raised error), [call])

def start (task : Task Message Draft) : Progress Message where
  messages := task.prompt.messages
  usage := 0
  lastError := ""
  raw := ""
  messages_ne := task.prompt.messages_ne

/-- `complete`. -/
def complete (task : Task Message Draft) :
    Except CompletionError (AgentOutcome Draft) × List (Call Message) :=
  task.loop 0 task.start (task.budget + 1)

/-! ### The accounting -/

/-- The answer of the call was complete, and the parser rejected it. -/
def Rejected (task : Task Message Draft) (call : Call Message) : Prop :=
  ∃ result error, call.answer = .ok result ∧ result.truncated = false ∧
    task.parse result.content = .error error ∧ error.isRejection = true

/-- The usage of all calls that were answered. -/
def totalUsage : List (Call Message) → TokenUsage
  | [] => 0
  | call :: rest =>
    match call.answer with
    | .ok result => result.usage + totalUsage rest
    | .error _ => totalUsage rest

/-- How a completion ends that makes this call after those whose answers were rejected. -/
inductive Concludes (task : Task Message Draft) (rejected : List (Call Message))
    (last : Call Message) : Except CompletionError (AgentOutcome Draft) → Prop
  | valid (result : CompletionResult String) (draft : Draft) (hanswer : last.answer = .ok result)
      (hwhole : result.truncated = false) (hparse : task.parse result.content = .ok draft) :
      Concludes task rejected last (.ok {
        draft
        usage := totalUsage (rejected ++ [last])
        promptVersion := task.prompt.version
        model := result.model
        repairs := rejected.length
        rawLength := result.content.length })
  | truncated (result : CompletionResult String) (hanswer : last.answer = .ok result)
      (hcut : result.truncated = true) :
      Concludes task rejected last
        (.error (.structured (task.truncatedError result.content rejected.length)))
  | exhausted (result : CompletionResult String) (error : PyError) (hanswer : last.answer = .ok result)
      (hrejected : task.Rejected last) (hparse : task.parse result.content = .error error)
      (hbudget : rejected.length = task.budget) :
      Concludes task rejected last
        (.error (.structured (task.exhaustedError error.str result.content)))
  | providerFailed (error : PyError) (hanswer : last.answer = .error error) :
      Concludes task rejected last (.error (.raised error))
  | parserFailed (result : CompletionResult String) (error : PyError)
      (hanswer : last.answer = .ok result) (hwhole : result.truncated = false)
      (hparse : task.parse result.content = .error error) (herror : error.isRejection = false) :
      Concludes task rejected last (.error (.raised error))

variable {task : Task Message Draft} {progress : Progress Message}
  {earlier calls : List (Call Message)}

theorem totalUsage_append (first second : List (Call Message)) :
    totalUsage (first ++ second) = totalUsage first + totalUsage second := by
  induction first with
  | nil => exact (TokenUsage.ext (Nat.zero_add _).symm (Nat.zero_add _).symm)
  | cons call rest ih =>
    rw [List.cons_append, totalUsage, totalUsage, ih]
    split
    · exact TokenUsage.ext (Nat.add_assoc _ _ _).symm (Nat.add_assoc _ _ _).symm
    · rfl

/-- The call goes on with the conversation of one whose answer was rejected. -/
def Follows (task : Task Message Draft) (call next : Call Message) : Prop :=
  ∃ result error, call.answer = .ok result ∧ task.parse result.content = .error error ∧
    next.request.messages = call.request.messages ++
      task.machinery.repairMessages task.role result.content error.str

/-- What the calls from an attempt on amount to, after the rejected answers of earlier ones. -/
structure Accounts (task : Task Message Draft) (earlier : List (Call Message))
    (messages : List Message) (rejected : List (Call Message)) (last : Call Message)
    (outcome : Except CompletionError (AgentOutcome Draft)) : Prop where
  rejects : ∀ call ∈ rejected, task.Rejected call
  within : earlier.length + rejected.length ≤ task.budget
  answered : ∀ i call, (rejected ++ [last])[i]? = some call →
    call.answer = task.provider (earlier.length + i) call.request
  starts : ∀ call ∈ (rejected ++ [last]).head?, call.request.messages = messages
  extends' : (rejected ++ [last]).IsChain task.Follows
  concludes : task.Concludes (earlier ++ rejected) last outcome

/-- One call that ends the loop. -/
theorem Accounts.of_last {answer : Except PyError (CompletionResult String)}
    {outcome : Except CompletionError (AgentOutcome Draft)}
    (hearlier : earlier.length ≤ task.budget)
    (hanswer : task.provider earlier.length (task.request progress) = answer)
    (hconcludes : task.Concludes earlier ⟨task.request progress, answer⟩ outcome) :
    task.Accounts earlier progress.messages [] ⟨task.request progress, answer⟩ outcome := by
  refine ⟨List.forall_mem_nil _, hearlier, ?_, ?_, .singleton _, ?_⟩
  · intro i call hcall
    rcases i with - | i
    · cases hcall
      exact hanswer.symm
    · cases hcall
  · intro call hcall
    cases hcall
    rfl
  · rw [List.append_nil]
    exact hconcludes

/-- A rejected answer before the rest of the loop. -/
theorem Accounts.cons {result : CompletionResult String} {error : PyError}
    {rejected : List (Call Message)} {last : Call Message}
    {outcome : Except CompletionError (AgentOutcome Draft)} {usage : TokenUsage}
    (hanswer : task.provider earlier.length (task.request progress) = .ok result)
    (hwhole : result.truncated = false) (hparse : task.parse result.content = .error error)
    (herror : error.isRejection = true)
    (h : task.Accounts (earlier ++ [⟨task.request progress, .ok result⟩])
      (task.repaired progress usage result.content error.str).messages rejected last outcome) :
    task.Accounts earlier progress.messages (⟨task.request progress, .ok result⟩ :: rejected) last
      outcome := by
  constructor
  · intro call hcall
    rcases List.mem_cons.mp hcall with rfl | hrest
    · exact ⟨result, error, rfl, hwhole, hparse, herror⟩
    · exact h.rejects call hrest
  · have hwithin := h.within
    rw [List.length_append, List.length_singleton] at hwithin
    rw [List.length_cons]
    omega
  · intro i call hcall
    rcases i with - | i
    · cases hcall
      exact hanswer.symm
    · have hrest := h.answered i call hcall
      rw [List.length_append, List.length_singleton] at hrest
      rw [hrest]
      congr 1
      omega
  · intro call hcall
    cases hcall
    rfl
  · rw [List.cons_append, List.isChain_cons]
    exact ⟨fun next hnext => ⟨result, error, rfl, hparse, h.starts next hnext⟩, h.extends'⟩
  · have hconcludes := h.concludes
    rw [List.append_assoc, List.singleton_append] at hconcludes
    exact hconcludes

theorem totalUsage_last {request : CompletionRequest Message} {result : CompletionResult String}
    (h : progress.usage = totalUsage earlier) :
    progress.usage + result.usage = totalUsage (earlier ++ [⟨request, .ok result⟩]) := by
  rw [totalUsage_append, h]
  rfl

/-- One attempt: it ends the loop, or its answer is rejected and the budget allows another. -/
theorem loop_cases (remaining : Nat) (hearlier : earlier.length ≤ task.budget)
    (husage : progress.usage = totalUsage earlier) :
    (∃ answer, task.provider earlier.length (task.request progress) = answer ∧
      (task.loop earlier.length progress (remaining + 1)).2 = [⟨task.request progress, answer⟩] ∧
      task.Concludes earlier ⟨task.request progress, answer⟩
        (task.loop earlier.length progress (remaining + 1)).1) ∨
    ∃ result error, task.provider earlier.length (task.request progress) = .ok result ∧
      result.truncated = false ∧ task.parse result.content = .error error ∧
      error.isRejection = true ∧ earlier.length < task.budget ∧
      ∃ rest, rest = task.loop (earlier.length + 1)
          (task.repaired progress (progress.usage + result.usage) result.content error.str)
          remaining ∧
        task.loop earlier.length progress (remaining + 1) =
          (rest.1, ⟨task.request progress, .ok result⟩ :: rest.2) := by
  rw [loop]
  rcases hanswer : task.provider earlier.length (task.request progress) with error | result
  · exact .inl ⟨_, rfl, rfl, .providerFailed error rfl⟩
  dsimp only
  rcases hcut : result.truncated with - | -
  swap
  · rw [if_pos rfl]
    exact .inl ⟨_, rfl, rfl, .truncated result rfl hcut⟩
  rw [if_neg nofun]
  rcases hparse : task.parse result.content with error | draft
  swap
  · dsimp only
    rw [totalUsage_last husage]
    exact .inl ⟨_, rfl, rfl, .valid result draft rfl hcut hparse⟩
  dsimp only
  rcases herror : error.isRejection with - | -
  · rw [if_neg nofun]
    exact .inl ⟨_, rfl, rfl, .parserFailed result error rfl hcut hparse herror⟩
  rw [if_pos rfl]
  split
  · rename_i hspent
    exact .inl ⟨_, rfl, rfl, .exhausted result error rfl ⟨result, error, rfl, hcut, hparse, herror⟩
      hparse (Nat.le_antisymm hearlier hspent)⟩
  · rename_i hleft
    exact .inr ⟨result, error, rfl, hcut, hparse, herror, Nat.lt_of_not_le hleft, _, rfl, rfl⟩

theorem loop_accounts (remaining : Nat) (hbudget : earlier.length + remaining = task.budget)
    (husage : progress.usage = totalUsage earlier) :
    ∃ rejected last, (task.loop earlier.length progress (remaining + 1)).2 = rejected ++ [last] ∧
      task.Accounts earlier progress.messages rejected last
        (task.loop earlier.length progress (remaining + 1)).1 := by
  induction remaining generalizing earlier progress with
  | zero =>
    rcases loop_cases 0 (Nat.le_of_eq hbudget) husage with
      ⟨answer, hanswer, hcalls, hconcludes⟩ | ⟨_, _, -, -, -, -, hleft, -⟩
    · exact ⟨[], _, hcalls, .of_last (Nat.le_of_eq hbudget) hanswer hconcludes⟩
    · omega
  | succ remaining ih =>
    have hearlier : earlier.length ≤ task.budget := by omega
    rcases loop_cases (remaining + 1) hearlier husage with ⟨answer, hanswer, hcalls, hconcludes⟩ |
      ⟨result, error, hanswer, hwhole, hparse, herror, -, rest, hrest, hloop⟩
    · exact ⟨[], _, hcalls, .of_last hearlier hanswer hconcludes⟩
    · -- the rejected answer counts as one of the earlier ones for the rest of the loop
      have hlength : (earlier ++ [(⟨task.request progress, .ok result⟩ : Call Message)]).length =
          earlier.length + 1 := by
        rw [List.length_append, List.length_singleton]
      have husage' : (task.repaired progress (progress.usage + result.usage) result.content
          error.str).usage = totalUsage (earlier ++ [⟨task.request progress, .ok result⟩]) :=
        totalUsage_last husage
      have hbudget' : (earlier ++ [(⟨task.request progress, .ok result⟩ : Call Message)]).length +
          remaining = task.budget := by
        omega
      obtain ⟨rejected, last, hcalls, haccounts⟩ := ih hbudget' husage'
      rw [hlength, ← hrest] at hcalls haccounts
      refine ⟨⟨task.request progress, .ok result⟩ :: rejected, last, ?_, ?_⟩
      · rw [hloop, hcalls, List.cons_append]
      · rw [hloop]
        exact haccounts.cons hanswer hwhole hparse herror

/-- **A completion makes calls whose answers are rejected, at most as many as the budget has
    repairs, and one more; how it ends is decided by the last answer, and the usage of all of
    them is accounted for.** -/
theorem complete_accounts (task : Task Message Draft) :
    ∃ rejected last, task.complete.2 = rejected ++ [last] ∧
      task.Accounts [] task.prompt.messages rejected last task.complete.1 := by
  have hbudget : ([] : List (Call Message)).length + task.budget = task.budget := Nat.zero_add _
  have husage : task.start.usage = totalUsage ([] : List (Call Message)) := rfl
  exact loop_accounts task.budget hbudget husage

end Task

end StructuredCompletion

namespace Sample

theorem coldest_allowed : (Binary64.ofInt 0).le (.ofInt 0) = true ∧
    (Binary64.ofInt 0).le (.ofInt 2) = true := by decide +kernel

theorem unlimited_tokens : ∀ tokens : Int, none = some tokens → 0 < tokens := nofun

theorem one_message : ["plan"] ≠ [] := List.cons_ne_nil _ _

def machinery : StructuredCompletion String where
  render _ _ := ⟨["plan"], "v1", one_message⟩
  schemaFor _ := []
  repairMessages _ raw violation := [raw, violation]
  maxStructuredOutputRepairs := 1
  temperature := .ofInt 0
  maxTokens := none
  timeoutSeconds := none
  extraVariables := []
  temperature_le := coldest_allowed
  maxTokens_pos := unlimited_tokens

/-- The first answer is no number, the second one is. -/
def repairedTask : StructuredCompletion.Task String Nat where
  machinery
  provider attempt _ :=
    .ok ⟨if attempt = 0 then "seven" else "7", "m", .stop, [], ⟨3, 2⟩, 40, none⟩
  role := .planner
  given := []
  parse content := if content = "7" then .ok 7 else .error (.valueError "not a number")

example : repairedTask.complete.1 = .ok ⟨7, ⟨6, 4⟩, "v1", "m", 1, 1⟩ ∧
    repairedTask.complete.2.map (fun call => call.request.messages) =
      [["plan"], ["plan", "seven", "not a number"]] := ⟨rfl, rfl⟩

end Sample

end AgenticPlatform
