import AgenticPlatform.Json
import AgenticPlatform.StructuredCompletion

/-!
# What an inference server answers

`OpenAICompatibleLLMProvider.complete`, from the response on. Whatever JSON the body holds is
made a result of: a field that is missing or of another kind degrades. Two things are not
caught: a document nested beyond the recursion limit, and a token count that is no finite number.
-/

namespace AgenticPlatform.OpenAICompatible

open Json
open Utf8 (CodePoint)

/-- A response as `_post` has it: its status and its text. -/
structure Response where
  statusCode : Nat
  text : List Char

/-- An `InferenceError`, or an exception that `complete` does not catch. -/
inductive ProviderError where
  | inference (message : List Char) (statusCode : Option Nat) (model : List CodePoint)
  | valueError (text : String)
  | overflowError (text : String)
  | recursionError

/-- What of the request is read once there is a response. -/
structure Request where
  model : Option (List CodePoint)
  correlationId : Option (List CodePoint)

/-- What `str` makes of a value that is no text, and `json.dumps`. -/
structure Builtins where
  render : Json → List CodePoint
  dumps : Json → List CodePoint

/-! ### The body -/

/-- `_BODY_EXCERPT_CHARS`. -/
def bodyExcerptChars : Nat := 500

/-- `request.model or self._model_info.model_id`. -/
def modelFor (modelId : List CodePoint) (request : Request) : List CodePoint :=
  if request.model.getD [] = [] then modelId else request.model.getD []

/-- `_raise_for_status`. -/
def raiseForStatus (response : Response) (model : List CodePoint) : Except ProviderError Unit :=
  if response.statusCode < 400 then .ok ()
  else
    .error (.inference ("inference server returned ".toList ++ (toString response.statusCode).toList ++
      ": ".toList ++ response.text.take bodyExcerptChars) (some response.statusCode) model)

/-- `_json_object`: of what `json.loads` raises only the kinds of `ValueError` are caught. -/
def jsonObject (limit : Nat) (text : List Char) (model : List CodePoint) :
    Except ProviderError (List (List CodePoint × Json)) :=
  match loads limit text with
  | .error .recursion => .error .recursionError
  | .error _ =>
    .error (.inference ("inference server returned a body that is not JSON: ".toList ++
      text.take bodyExcerptChars) none model)
  | .ok (.obj entries) => .ok entries
  | .ok _ =>
    .error (.inference "inference server returned a JSON value that is not an object".toList none model)

/-! ### The fields -/

/-- `_as_object`. -/
def asObject : Option Json → List (List CodePoint × Json)
  | some (.obj entries) => entries
  | _ => []

/-- `str(value)`. -/
def str (builtins : Builtins) : Json → List CodePoint
  | .str text => text
  | value => builtins.render value

/-- `str(value or default)`. -/
def strOr (builtins : Builtins) (value : Option Json) (default : List CodePoint) : List CodePoint :=
  match value with
  | some value => if value.truthy then str builtins value else default
  | none => default

/-- A part of a content list, if it is one of text. -/
def partText (builtins : Builtins) : Json → Option (List CodePoint)
  | .obj part =>
    match get part "type" with
    | none => some (str builtins ((get part "text").getD (.str [])))
    | some (.str kind) =>
      if kind = key "text" then some (str builtins ((get part "text").getD (.str []))) else none
    | some _ => none
  | _ => none

/-- `_content_text`. -/
def contentText (builtins : Builtins) : Option Json → List CodePoint
  | some (.str content) => content
  | some (.arr parts) => (parts.filterMap (partText builtins)).flatten
  | _ => []

/-- `_FINISH_REASONS`. -/
def finishReasons : List (List CodePoint × FinishReason) :=
  [(key "stop", .stop), (key "length", .length), (key "tool_calls", .toolCalls),
    (key "function_call", .toolCalls), (key "content_filter", .error), (key "error", .error),
    (key "abort", .cancelled)]

/-- `_finish_reason`. -/
def finishReason (builtins : Builtins) : Option Json → FinishReason
  | none | some .null => .stop
  | some raw => (List.lookup (str builtins raw) finishReasons).getD .error

/-- `_tool_call`. -/
def toolCall (builtins : Builtins) (entry : List (List CodePoint × Json)) :
    ToolCall (List CodePoint) :=
  let function := asObject (get entry "function")
  { id := strOr builtins (get entry "id") []
    name := strOr builtins (get function "name") []
    arguments :=
      match (get function "arguments").getD (.str []) with
      | .str arguments => arguments
      | arguments => builtins.dumps arguments }

/-- `_tool_calls`. -/
def toolCalls (builtins : Builtins) : Option Json → List (ToolCall (List CodePoint))
  | some (.arr entries) =>
    entries.filterMap fun
      | .obj entry => some (toolCall builtins entry)
      | _ => none
  | _ => []

/-! ### The usage -/

/-- `TokenUsage.__post_init__`. -/
def tokenUsage (inputTokens outputTokens : Int) : Except ProviderError TokenUsage :=
  if inputTokens < 0 ∨ outputTokens < 0 then
    .error (.valueError "token counts must not be negative")
  else .ok ⟨inputTokens.toNat, outputTokens.toNat⟩

/-- `_non_negative_int`: `int` raises for a double that is not finite. -/
def nonNegativeInt : Option Json → Except ProviderError Int
  | some (.int n) => .ok (max 0 n)
  | some (.float value) =>
    match value.toInt with
    | .ok n => .ok (max 0 n)
    | .error .value => .error (.valueError "cannot convert float NaN to integer")
    | .error .overflow => .error (.overflowError "cannot convert float infinity to integer")
  | _ => .ok 0

/-- `_usage`. -/
def usage : Option Json → Except ProviderError TokenUsage
  | some (.obj raw) => do
    let inputTokens ← nonNegativeInt (get raw "prompt_tokens")
    let outputTokens ← nonNegativeInt (get raw "completion_tokens")
    tokenUsage inputTokens outputTokens
  | _ => .ok {}

/-! ### The result -/

/-- `_to_result`. -/
def toResult (builtins : Builtins) (model : List CodePoint) (body : List (List CodePoint × Json))
    (request : Request) (latencyMs : Int) : Except ProviderError (CompletionResult (List CodePoint)) :=
  match get body "choices" with
  | some (.arr (first :: _)) => do
    let choice := asObject (some first)
    let message := asObject (get choice "message")
    let counts ← usage (get body "usage")
    return {
      content := contentText builtins (get message "content")
      model := strOr builtins (get body "model") model
      finishReason := finishReason builtins (get choice "finish_reason")
      toolCalls := toolCalls builtins (get message "tool_calls")
      usage := counts
      latencyMs
      correlationId := request.correlationId }
  | _ => .error (.inference "inference response contained no choices".toList none model)

/-- `complete`, once a response has been received; `limit` is how many containers may still be
    entered when it is decoded. -/
def complete (builtins : Builtins) (limit : Nat) (modelId : List CodePoint) (request : Request)
    (latencyMs : Int) (response : Response) : Except ProviderError (CompletionResult (List CodePoint)) := do
  raiseForStatus response (modelFor modelId request)
  let body ← jsonObject limit response.text (modelFor modelId request)
  toResult builtins (modelFor modelId request) body request latencyMs

/-! ### Totality -/

def ProviderError.IsInference : ProviderError → Prop
  | .inference _ _ _ => True
  | _ => False

instance : DecidablePred ProviderError.IsInference
  | .inference _ _ _ => isTrue trivial
  | .valueError _ | .overflowError _ | .recursionError => isFalse id

/-- A result, or an `InferenceError`. -/
def Classified {α : Type} : Except ProviderError α → Prop
  | .ok _ => True
  | .error error => error.IsInference

instance {α : Type} : DecidablePred (@Classified α)
  | .ok _ => isTrue trivial
  | .error error => inferInstanceAs (Decidable error.IsInference)

/-- A count that `int` takes, or that is no number. -/
def Countable : Option Json → Prop
  | some (.float value) => value.isFinite = true
  | _ => True

/-- Both counts can be taken. -/
def CountableUsage : Option Json → Prop
  | some (.obj raw) => Countable (get raw "prompt_tokens") ∧ Countable (get raw "completion_tokens")
  | _ => True

/-- There is a first choice. -/
def HasChoices (body : List (List CodePoint × Json)) : Prop :=
  ∃ first rest, get body "choices" = some (.arr (first :: rest))

variable {builtins : Builtins} {model : List CodePoint} {body : List (List CodePoint × Json)}
  {request : Request} {latencyMs : Int}

/-- A count that is taken is not negative. -/
theorem nonNegativeInt_spec (value : Option Json) :
    (Countable value ∧ ∃ n, nonNegativeInt value = .ok n ∧ 0 ≤ n) ∨
      (¬Countable value ∧ ∃ error, nonNegativeInt value = .error error ∧
        ¬error.IsInference) := by
  rcases value with - | - | - | n | number | - | - | -
  case some.int => exact .inl ⟨trivial, _, rfl, Int.le_max_left 0 n⟩
  case some.float =>
    rcases number with - | negative | ⟨negative, number⟩
    · exact .inr ⟨Bool.false_ne_true, _, rfl, id⟩
    · exact .inr ⟨Bool.false_ne_true, _, rfl, id⟩
    · exact .inl ⟨rfl, _, rfl, Int.le_max_left 0 _⟩
  all_goals exact .inl ⟨trivial, 0, rfl, le_rfl⟩

theorem tokenUsage_of_nonneg {inputTokens outputTokens : Int} (hinput : 0 ≤ inputTokens)
    (houtput : 0 ≤ outputTokens) :
    tokenUsage inputTokens outputTokens = .ok ⟨inputTokens.toNat, outputTokens.toNat⟩ :=
  if_neg (by omega)

/-- The usage is taken exactly if both counts are. -/
theorem usage_spec (value : Option Json) :
    (CountableUsage value ∧ ∃ counts, usage value = .ok counts) ∨
      (¬CountableUsage value ∧ ∃ error, usage value = .error error ∧
        ¬error.IsInference) := by
  rcases value with - | - | - | - | - | - | - | raw
  case some.obj =>
    rcases nonNegativeInt_spec (get raw "prompt_tokens") with
      ⟨hinput, inputTokens, hread, hnonneg⟩ | ⟨hinput, error, hraised, herror⟩
    · rcases nonNegativeInt_spec (get raw "completion_tokens") with
        ⟨houtput, outputTokens, hread', hnonneg'⟩ | ⟨houtput, error, hraised, herror⟩
      · refine .inl ⟨⟨hinput, houtput⟩, ⟨inputTokens.toNat, outputTokens.toNat⟩, ?_⟩
        rw [usage, hread, hread']
        exact tokenUsage_of_nonneg hnonneg hnonneg'
      · refine .inr ⟨fun h => houtput h.2, error, ?_, herror⟩
        rw [usage, hread, hraised]
        rfl
    · refine .inr ⟨fun h => hinput h.1, error, ?_, herror⟩
      rw [usage, hraised]
      rfl
  all_goals exact .inl ⟨trivial, {}, rfl⟩

theorem toResult_classified_iff :
    Classified (toResult builtins model body request latencyMs) ↔
      (HasChoices body → CountableUsage (get body "usage")) := by
  by_cases hchoices : HasChoices body
  · rw [imp_iff_right hchoices]
    rcases hchoices with ⟨first, rest, hfound⟩
    simp only [toResult, hfound]
    rcases usage_spec (get body "usage") with ⟨hcountable, counts, husage⟩ | ⟨hnot, error, husage, herror⟩
    · rw [husage]
      exact iff_of_true trivial hcountable
    · rw [husage]
      exact iff_of_false herror hnot
  · refine iff_of_true ?_ (absurd · hchoices)
    rw [toResult]
    split
    · rename_i first rest hfound
      exact absurd ⟨first, rest, hfound⟩ hchoices
    · trivial

/-- What is received is made a result or an `InferenceError` if and only if the status is one of
    failure, or the document is nested no deeper than the recursion limit and, where it has a
    choice, counts tokens in finite numbers. -/
theorem complete_classified_iff (builtins : Builtins) (limit : Nat) (modelId : List CodePoint)
    (request : Request) (latencyMs : Int) (response : Response) :
    Classified (complete builtins limit modelId request latencyMs response) ↔
      400 ≤ response.statusCode ∨ (loads limit response.text ≠ .error .recursion ∧
        ∀ body, loads limit response.text = .ok (.obj body) → HasChoices body →
          CountableUsage (get body "usage")) := by
  rw [complete, raiseForStatus]
  by_cases hstatus : response.statusCode < 400
  · rw [if_pos hstatus, or_iff_right (Nat.not_le.mpr hstatus), jsonObject]
    rcases hloads : loads limit response.text with error | value
    · rcases error with - | - | -
      · exact iff_of_true trivial ⟨nofun, nofun⟩
      · exact iff_of_true trivial ⟨nofun, nofun⟩
      · exact iff_of_false id fun h => h.1 rfl
    · rcases value with - | - | - | - | - | - | body
      case obj =>
        refine toResult_classified_iff.trans ⟨fun h => ⟨nofun, ?_⟩, fun h => h.2 body rfl⟩
        intro other hsame
        rw [← Json.obj.inj (Except.ok.inj hsame)]
        exact h
      all_goals exact iff_of_true trivial ⟨nofun, nofun⟩
  · rw [if_neg hstatus]
    exact iff_of_true trivial (.inl (Nat.not_lt.mp hstatus))

/-- A count that is not a number is not caught. -/
theorem not_complete_classified :
    ¬Classified (complete ⟨fun _ => [], fun _ => []⟩ 100 [] ⟨none, none⟩ 0
      ⟨200, "\x7b\"choices\": [\x7b\x7d], \"usage\": \x7b\"prompt_tokens\": NaN\x7d\x7d".toList⟩) := by
  decide +kernel

end AgenticPlatform.OpenAICompatible
