import AgenticPlatform.Basics
import Mathlib.Data.List.Basic
import Mathlib.Data.List.Infix

/-!
# Renting a Pod

`RunPodClient.create_pod` sends one `POST` through the retry loop that all requests share.
What the server did with an attempt and what reached the client of its answer are two
things, and the client sees the second one only. The Pods a call costs are those that the
server created for any of its attempts.
-/

namespace AgenticPlatform

/-! ### What comes back -/

/-- `httpx.HTTPError`: the name of its class and its text. -/
structure HttpError where
  name : String
  text : String

/-- `httpx.Response`; `json` is the value of `response.json()`, or the text of the
    `ValueError` that it raises. -/
structure Response where
  statusCode : Nat
  text : String
  json : Except String PyValue

/-- `response.is_success`. -/
def Response.isSuccess (response : Response) : Bool :=
  200 ≤ response.statusCode && response.statusCode ≤ 299

/-- One attempt: the id of the Pod that the server created for it, if it did, and what the
    client got to see. -/
structure Attempt where
  created : Option String
  answer : Except HttpError Response

/-- `RETRYABLE_STATUS`. -/
def retryableStatus : List Nat := [408, 425, 429, 500, 502, 503, 504]

/-- `NEVER_RETRIED`. -/
def neverRetried : List Nat := [401, 403]

inductive RunPodErrorKind where
  | authentication | quota | gpuUnavailable | volumeNotFound | podNotFound | service | transport
  | api (statusCode : Nat)
deriving DecidableEq, Repr

structure RunPodError where
  kind : RunPodErrorKind
  message : String
  hint : Option String := none

/-- What leaves a call of the client other than its result. -/
inductive ClientError where
  | runPod (error : RunPodError)
  | assertion
  | typeError

structure PodState where
  id : String
  name : String
  desiredStatus : String
  image : String
  publicIp : PyValue
  portMappings : List (Int × Int)
  ports : List String
  costPerHr : Option (Int × Int)
  machineId : String
  gpuDisplayName : String
  lastStatusChange : String
  networkVolumeId : Option String
  raw : Mapping

/-- `retry.attempts`, and what the client uses of Python: `redact` with its key,
    `json.dumps`, and `str`, `int` and `float` of a JSON value (`none`: a `TypeError` or a
    `ValueError`). -/
structure RunPodClient where
  attempts : Int := 3
  redact : String → String
  dumps : PyValue → String
  str : PyValue → String
  int : PyValue → Option Int
  float : PyValue → Option (Int × Int)

/-- What a call returns or raises, and the attempts it made. -/
structure Exchange (α : Type) where
  made : List Attempt
  result : Except ClientError α

/-- The Pods that exist because of the call. -/
def Exchange.pods {α : Type} (exchange : Exchange α) : List String :=
  exchange.made.filterMap Attempt.created

namespace RunPodClient

variable {client : RunPodClient} {context resource : String} {world : Nat → Attempt}
  {attempt remaining : Nat} {lastError : Option RunPodError}

/-! ### Errors -/

/-- `text[:MAX_ERROR_CHARS]`. -/
def shortened (text : String) : String := String.ofList (text.toList.take 400)

def clean (client : RunPodClient) (text : String) : String := shortened (client.redact text)

/-- `part in text`. -/
def mentions (text part : String) : Bool := decide (part.toList <:+: text.toList)

/-- The first of the keys with something to say. -/
def firstMessage (client : RunPodClient) (items : Mapping) : List String → Option String
  | [] => none
  | key :: rest =>
    match Mapping.get items key .none with
    | .str "" => client.firstMessage items rest
    | .str value => some value
    | value => if value.truthy then some (client.dumps value) else client.firstMessage items rest

def bodyMessage (client : RunPodClient) (response : Response) : String :=
  match response.json with
  | .error _ => shortened response.text
  | .ok (.dict items) =>
    (client.firstMessage items ["error", "message", "detail", "errors"]).getD
      (shortened (client.dumps (.dict items)))
  | .ok payload => shortened (client.dumps payload)

def refusedRequest (failed detail : String) : RunPodError :=
  let lowered := detail.toLower
  if mentions lowered "volume" then
    ⟨.volumeNotFound, s!"{failed}: the network volume was refused. {detail}",
      some ("a volume only exists in one data center: the Pod must be created there, " ++
        "and that data center must have the GPU type free")⟩
  else if ["gpu", "instance", "capacity", "availab"].any (mentions lowered) then
    ⟨.gpuUnavailable, s!"{failed}: no machine matches the request. {detail}",
      some ("run `gpu-types` to see what is free, widen --gpu-type, or drop " ++
        "--data-center if no volume forces one")⟩
  else ⟨.api 400, s!"{failed}: {detail}", some "check the request body"⟩

def missingResource (failed detail resource : String) : RunPodError :=
  if resource = "volume" then
    ⟨.volumeNotFound, s!"{failed}: no such network volume. {detail}",
      some "check the id at https://console.runpod.io/user/storage"⟩
  else
    ⟨.podNotFound, s!"{failed}: no such Pod. {detail}",
      some "it may already be terminated; ids are not reused"⟩

def translate (client : RunPodClient) (context resource : String) (response : Response) :
    RunPodError :=
  let detail := client.clean (client.bodyMessage response)
  let status := response.statusCode
  let failed := s!"{context} failed with HTTP {status}"
  if status ∈ neverRetried then
    ⟨.authentication, s!"{failed}: RunPod rejected the credential. {detail}",
      some ("RUNPOD_API_KEY is set but invalid, revoked, or lacks write access. " ++
        "Re-issue it at https://console.runpod.io/user/settings.")⟩
  else if status = 400 then refusedRequest failed detail
  else if status = 404 then missingResource failed detail resource
  else if status = 402 then
    ⟨.quota, s!"{failed}: refused for billing reasons. {detail}",
      some "top up credit, or lower gpuCount / containerDiskInGb"⟩
  else if status = 429 then
    ⟨.quota, s!"{failed}: rate limited. {detail}",
      some "slow the polling down; this call was already retried"⟩
  else if 500 ≤ status then
    ⟨.service, s!"{failed}: RunPod is failing. {detail}",
      some "check https://uptime.runpod.io before retrying by hand"⟩
  else ⟨.api status, s!"{failed}: {detail}", none⟩

/-! ### The retry loop -/

/-- What `_send` does with the answer to an attempt. -/
inductive Verdict where
  | done (result : Except ClientError Response)
  | again (error : RunPodError)

def judge (client : RunPodClient) (context resource : String) : Except HttpError Response → Verdict
  | .error exc =>
    -- An httpx message can carry the full URL, credential included.
    .again ⟨.transport, s!"{context}: {exc.name}: {client.clean exc.text}",
      some "network or RunPod outage; the Pod may still have been created"⟩
  | .ok response =>
    if response.statusCode ∈ neverRetried then
      .done (.error (.runPod (client.translate context resource response)))
    else if response.statusCode ∉ retryableStatus then
      if response.isSuccess then .done (.ok response)
      else .done (.error (.runPod (client.translate context resource response)))
    else .again (client.translate context resource response)

/-- The loop of `_send` from one attempt on; `world` gives the attempts, numbered from 0. -/
def sendFrom (client : RunPodClient) (context resource : String) (world : Nat → Attempt)
    (attempt : Nat) : Nat → Option RunPodError → Exchange Response
  | 0, some lastError => ⟨[], .error (.runPod lastError)⟩
  | 0, none => ⟨[], .error .assertion⟩
  | remaining + 1, _ =>
    match client.judge context resource (world attempt).answer with
    | .done result => ⟨[world attempt], result⟩
    | .again error =>
      let rest := client.sendFrom context resource world (attempt + 1) remaining (some error)
      ⟨world attempt :: rest.made, rest.result⟩

def send (client : RunPodClient) (context resource : String) (world : Nat → Attempt) :
    Exchange Response :=
  client.sendFrom context resource world 0 client.attempts.toNat none

def decode (client : RunPodClient) (context : String) (response : Response) :
    Except ClientError PyValue :=
  match response.json with
  | .ok payload => .ok payload
  | .error text =>
    .error (.runPod ⟨.api response.statusCode,
      s!"{context}: response was not JSON ({client.clean text})", none⟩)

def request (client : RunPodClient) (context resource : String) (world : Nat → Attempt) :
    Exchange PyValue :=
  let sent := client.send context resource world
  ⟨sent.made, do
    let response ← sent.result
    if response.statusCode = 204 ∨ response.text = "" then pure .none
    else client.decode context response⟩

/-! ### The Pod of a payload -/

/-- `_port_mappings`; a later entry for a port replaces the earlier one. -/
def portMappings (client : RunPodClient) : PyValue → List (Int × Int)
  | .dict items =>
    items.foldl (fun mappings item =>
      match client.int (.str item.1), client.int item.2 with
      | some port, some mapped =>
        if mappings.any (·.1 = port) then
          mappings.map fun entry => if entry.1 = port then (port, mapped) else entry
        else mappings ++ [(port, mapped)]
      | _, _ => mappings) []
  | _ => []

/-- `_optional_float`. -/
def optionalFloat (client : RunPodClient) : PyValue → Option (Int × Int)
  | .none | .bool _ => none
  | value => client.float value

/-- `tuple(str(p) for p in (value or ()))`. -/
def texts (client : RunPodClient) (value : PyValue) : Except ClientError (List String) :=
  if value.truthy then
    match value with
    | .list items => .ok (items.map client.str)
    | .dict items => .ok (items.map fun item => item.1)
    | .str text => .ok (text.toList.map fun c => String.ofList [c])
    | _ => .error .typeError
  else .ok []

/-- `value.get(key)` of a value that may be no dictionary. -/
def getOf (value : PyValue) (key : String) : PyValue :=
  match value with
  | .dict items => Mapping.get items key .none
  | _ => .none

/-- `PodState.from_api`. -/
def podState (client : RunPodClient) (payload : Mapping) : Except ClientError PodState := do
  let text (key : String) : String := client.str (Mapping.get payload key (.str ""))
  let ports ← client.texts (Mapping.get payload "ports" .none)
  let publicIp := Mapping.get payload "publicIp" .none
  let gpuType := getOf (Mapping.get payload "machine" .none) "gpuType"
  let volumeId := getOf (Mapping.get payload "networkVolume" .none) "id"
  pure {
    id := text "id"
    name := text "name"
    desiredStatus := text "desiredStatus"
    image := text "image"
    publicIp := if publicIp.truthy then publicIp else .none
    portMappings := client.portMappings (Mapping.get payload "portMappings" .none)
    ports := ports
    costPerHr := client.optionalFloat (Mapping.get payload "costPerHr" .none)
    machineId := text "machineId"
    gpuDisplayName := match gpuType with
      | .dict items => client.str (Mapping.get items "displayName" (.str ""))
      | _ => ""
    lastStatusChange := text "lastStatusChange"
    networkVolumeId := if volumeId.truthy then some (client.str volumeId) else none
    raw := payload }

/-- `create_pod`. -/
def createPod (client : RunPodClient) (world : Nat → Attempt) : Exchange PodState :=
  let sent := client.request "create pod" "pod" world
  let nameless : ClientError := .runPod ⟨.api 201, "RunPod accepted the Pod but returned no id",
    some "check https://console.runpod.io/pods before creating another one"⟩
  ⟨sent.made, do
    match ← sent.result with
    | .dict payload =>
      if (Mapping.get payload "id" .none).truthy then client.podState payload else .error nameless
    | _ => .error nameless⟩

/-! ### The attempts of a call -/

/-- The client asks again after such an answer: none came, or one of `RETRYABLE_STATUS`. -/
def Retried : Except HttpError Response → Prop
  | .error _ => True
  | .ok response => response.statusCode ∈ retryableStatus

variable (client context resource) in
theorem judge_retried {answer : Except HttpError Response} (h : Retried answer) :
    ∃ error, client.judge context resource answer = .again error := by
  rcases answer with exc | response
  · exact ⟨_, rfl⟩
  · have hretryable : response.statusCode ∈ retryableStatus := h
    have hallowed : response.statusCode ∉ neverRetried := by
      intro hnever
      simp only [retryableStatus, neverRetried, List.mem_cons, List.not_mem_nil, or_false]
        at hretryable hnever
      omega
    simp only [judge, if_neg hallowed, if_neg (not_not.mpr hretryable)]
    exact ⟨_, rfl⟩

variable (client context resource) in
theorem judge_not_retried {answer : Except HttpError Response} (h : ¬ Retried answer) :
    ∃ result, client.judge context resource answer = .done result := by
  rcases answer with exc | response
  · exact absurd trivial h
  · have hfinal : response.statusCode ∉ retryableStatus := h
    simp only [judge, if_pos hfinal]
    split
    · exact ⟨_, rfl⟩
    · split
      · exact ⟨_, rfl⟩
      · exact ⟨_, rfl⟩

variable (client context resource world attempt remaining lastError) in
/-- The loop makes the attempts whose turn comes: every one before it was retried, and the
    budget lasts. -/
theorem sendFrom_made : ∃ n,
    (client.sendFrom context resource world attempt remaining lastError).made =
      (List.range' attempt n).map world ∧
    ∀ j, j < n ↔ j < remaining ∧ ∀ k < j, Retried (world (attempt + k)).answer := by
  induction remaining generalizing attempt lastError with
  | zero =>
    refine ⟨0, ?_, fun j => by simp⟩
    cases lastError <;> rfl
  | succ remaining ih =>
    by_cases hretried : Retried (world attempt).answer
    · rcases judge_retried client context resource hretried with ⟨error, hjudge⟩
      rcases ih (attempt + 1) (some error) with ⟨n, hmade, hn⟩
      refine ⟨n + 1, ?_, ?_⟩
      · simp only [sendFrom, hjudge]
        rw [hmade, List.range'_succ, List.map_cons]
      · intro j
        rcases j with - | j
        · simp
        · rw [Nat.add_lt_add_iff_right, hn j, Nat.add_lt_add_iff_right]
          refine and_congr_right fun _ => ⟨?_, ?_⟩
          · intro h k hk
            rcases k with - | k
            · exact hretried
            · have hk' := h k (by omega)
              rwa [Nat.add_assoc, Nat.add_comm 1 k] at hk'
          · intro h k hk
            rw [Nat.add_assoc, Nat.add_comm 1 k]
            exact h (k + 1) (by omega)
    · rcases judge_not_retried client context resource hretried with ⟨result, hjudge⟩
      refine ⟨1, ?_, ?_⟩
      · simp only [sendFrom, hjudge]
        rfl
      · intro j
        rcases j with - | j
        · simp
        · refine iff_of_false (by omega) ?_
          rintro ⟨-, hall⟩
          exact hretried (hall 0 (Nat.succ_pos j))

theorem createPod_made : (client.createPod world).made =
    (client.send "create pod" "pod" world).made := rfl

/-! ### The Pods of a call -/

theorem length_le_one_iff {α : Type} {l : List α} : l.length ≤ 1 ↔ l.Pairwise fun _ _ => False := by
  rcases l with - | ⟨a, - | ⟨b, l⟩⟩
  · simp
  · simp
  · refine iff_of_false (by simp) fun h => ?_
    exact List.rel_of_pairwise_cons h List.mem_cons_self

/-- No attempt whose turn comes after one that created a Pod creates another. -/
def Unrepeated (attempts : Int) (world : Nat → Attempt) : Prop :=
  ∀ i j : Nat, i < j → (j : Int) < attempts → (∀ k < j, Retried (world k).answer) →
    (world i).created ≠ none → (world j).created = none

/-- A call creates at most one Pod exactly if no attempt that created one was answered so
    that the client asks again, for an attempt that creates another. -/
theorem createPod_one_pod_iff (client : RunPodClient) (world : Nat → Attempt) :
    (client.createPod world).pods.length ≤ 1 ↔ Unrepeated client.attempts world := by
  rcases sendFrom_made client "create pod" "pod" world 0 client.attempts.toNat none with
    ⟨n, hmade, hn⟩
  have hpods : (client.createPod world).pods = ((List.range n).map world).filterMap Attempt.created := by
    rw [Exchange.pods, createPod_made, send, hmade, List.range_eq_range']
  have hpair : (client.createPod world).pods.length ≤ 1 ↔
      ∀ i j, i < j → j < n → (world i).created ≠ none → (world j).created = none := by
    rw [hpods, length_le_one_iff, List.pairwise_filterMap, List.pairwise_map, List.pairwise_iff_getElem]
    constructor
    · intro h i j hij hj hi
      by_contra hsecond
      rcases Option.ne_none_iff_exists'.mp hi with ⟨first, hfirst⟩
      rcases Option.ne_none_iff_exists'.mp hsecond with ⟨second, hsecond⟩
      refine h i j (by simp; omega) (by simpa using hj) hij first ?_ second ?_
      · simpa using hfirst
      · simpa using hsecond
    · intro h i j hi hj hij first hfirst second hsecond
      rw [List.getElem_range] at hfirst hsecond
      have hnone := h i j hij (by simpa using hj) (by rw [hfirst]; exact Option.some_ne_none first)
      rw [hnone] at hsecond
      cases hsecond
  rw [hpair]
  constructor
  · intro h i j hij hj hretried
    exact h i j hij ((hn j).mpr ⟨by omega, by simpa using hretried⟩)
  · intro h i j hij hj
    rcases (hn j).mp hj with ⟨hbudget, hretried⟩
    exact h i j hij (by omega) (by simpa using hretried)

/-- A client with the default budget, for texts that it can show as they are. -/
def sample : RunPodClient where
  redact text := text
  dumps _ := ""
  str value := match value with
    | .str text => text
    | _ => ""
  int _ := none
  float _ := none

/-- The first attempt's reply is lost after the server created a Pod. -/
def lostReply : Nat → Attempt
  | 0 => ⟨some "p1", .error ⟨"ReadTimeout", "The read operation timed out"⟩⟩
  | _ => ⟨some "p2", .ok ⟨201, "\x7b\"id\": \"p2\"\x7d", .ok (.dict [("id", .str "p2")])⟩⟩

/-- One call, two Pods: the first one runs, and nobody knows its id. -/
theorem lost_reply_rents_twice : ¬ (sample.createPod lostReply).pods.length ≤ 1 := by
  have hpods : (sample.createPod lostReply).pods = ["p1", "p2"] := by decide
  rw [hpods]
  decide

end RunPodClient

end AgenticPlatform
