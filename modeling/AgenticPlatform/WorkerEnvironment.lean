import AgenticPlatform.DecimalReading
import AgenticPlatform.WorkerConfig

/-!
# The environment of a worker

What `WorkerConfig.from_env` makes of environment variables: a missing or blank variable is
its default, others are stripped and read. `shlex.split` is a parameter.
-/

namespace AgenticPlatform

/-- Environment variables with their values. -/
abbrev Environ := List (String × String)

namespace Environ

variable {env : Environ} {name other value : String} {optionalValue : Option String}

/-! ### A dictionary of strings -/

/-- `env.get(name)`. -/
def get (env : Environ) (name : String) : Option String :=
  (env.find? fun entry => entry.1 == name).map Prod.snd

/-- `env[name] = value`. -/
def set (env : Environ) (name value : String) : Environ :=
  (env.filter fun entry => entry.1 != name) ++ [(name, value)]

/-- `env[name] = value`, if there is a value. -/
def setOptional (env : Environ) (name : String) : Option String → Environ
  | none => env
  | some value => env.set name value

@[simp] theorem get_nil (name : String) : get [] name = none := rfl

@[simp] theorem get_cons (value : String) (env : Environ) (name other : String) :
    get ((other, value) :: env) name = if other = name then some value else get env name := by
  rw [get, List.find?_cons]
  by_cases hname : other = name
  · rw [if_pos hname, beq_iff_eq.mpr hname, Option.map_some]
  · rw [if_neg hname, beq_eq_false_iff_ne.mpr hname]
    rfl

theorem get_filter_ne (h : name ≠ other) :
    get (env.filter fun entry => entry.1 != other) name = get env name := by
  induction env with
  | nil => rfl
  | cons entry rest ih =>
    rcases entry with ⟨key, value⟩
    rw [List.filter_cons, get_cons]
    by_cases hkey : key = other
    · have hremoved : (key != other) = false := by rw [bne_eq_false_iff_eq, hkey]
      have hdiffers : ¬ key = name := fun heq => h (heq.symm.trans hkey)
      rw [hremoved, if_neg hdiffers]
      exact ih
    · have hkept : (key != other) = true := by rw [bne_iff_ne]; exact hkey
      rw [hkept, if_pos rfl, get_cons, ih]

theorem get_filter_self : get (env.filter fun entry => entry.1 != name) name = none := by
  rw [get, Option.map_eq_none_iff, List.find?_eq_none]
  intro entry hentry
  have hkept := (List.mem_filter.mp hentry).2
  rw [bne_iff_ne] at hkept
  rw [beq_iff_eq]
  exact hkept

theorem get_append (first second : Environ) (name : String) :
    get (first ++ second) name = (get first name).or (get second name) := by
  rw [get, get, get, List.find?_append, Option.map_or]

theorem get_set (env : Environ) (name other value : String) :
    get (env.set name value) other = if name = other then some value else get env other := by
  rw [set, get_append, get_cons]
  by_cases hname : name = other
  · subst hname
    rw [get_filter_self, Option.none_or, if_pos rfl, if_pos rfl]
  · rw [if_neg hname, if_neg hname, get_filter_ne (Ne.symm hname)]
    exact Option.or_none

@[simp] theorem get_setOptional (env : Environ) (name other : String)
    (optionalValue : Option String) :
    get (env.setOptional name optionalValue) other =
      if name = other then optionalValue.or (get env other) else get env other := by
  rcases optionalValue with - | value
  · rw [setOptional, Option.none_or, ite_self]
  · rw [setOptional, get_set, Option.some_or]

/-! ### Reading variables -/

/-- `_text`. -/
def text (env : Environ) (name default : String) : String :=
  match env.get name with
  | none => default
  | some value => if strip value = "" then default else strip value

/-- `_optional`. -/
def optional (env : Environ) (name : String) : Option String :=
  match env.get name with
  | none => none
  | some value => if strip value = "" then none else some (strip value)

/-- `_integer`. -/
def integer (env : Environ) (name : String) (default : Int) : Except ConfigError Int :=
  match env.optional name with
  | none => .ok default
  | some raw =>
    match readInt raw with
    | some n => .ok n
    | none => .error ⟨name ++ " must be an integer, got " ++ quoted raw, some name, none⟩

/-- `_number`. -/
def number (env : Environ) (name : String) (default : Binary64) : Except ConfigError Binary64 :=
  match env.optional name with
  | none => .ok default
  | some raw =>
    match Binary64.parse raw with
    | some n => .ok n
    | none => .error ⟨name ++ " must be a number, got " ++ quoted raw, some name, none⟩

/-- `_optional_flag`. -/
def optionalFlag (env : Environ) (name : String) : Except ConfigError (Option Bool) :=
  match env.optional name with
  | none => .ok none
  | some raw =>
    if raw.toLower ∈ ["1", "true", "yes", "on"] then .ok (some true)
    else if raw.toLower ∈ ["0", "false", "no", "off"] then .ok (some false)
    else .error ⟨name ++ " must be a boolean, got " ++ quoted raw, some name,
      some "accepted: 1/0, true/false, yes/no, on/off"⟩

/-- `_flag`. -/
def flag (env : Environ) (name : String) (default : Bool) : Except ConfigError Bool :=
  (env.optionalFlag name).map fun result => result.getD default

/-- `_words`, with the message of the `ValueError` if `shlex.split` raises one. -/
def words (split : String → Except String (List String)) (env : Environ) (name : String) :
    Except ConfigError (List String) :=
  match env.optional name with
  | none => .ok []
  | some raw =>
    match split raw with
    | .ok arguments => .ok arguments
    | .error message => .error ⟨name ++ " is not a valid argument list: " ++ message, some name,
        some "quote values containing spaces, e.g. --foo \"a b\""⟩

/-- `env.get(first) or env.get(second)`, where no value is the empty one. -/
def secret (env : Environ) (first : String) (second : Option String) : String :=
  let value := (env.get first).getD ""
  if value = "" then (second.bind env.get).getD "" else value

/-! ### Variables that are set -/

/-- A text that is not blank and has no white space around it. -/
structure Trimmed (text : String) : Prop where
  strip_eq : strip text = text
  nonempty : text ≠ ""

theorem trimmed_of_plain (hplain : ∀ c ∈ value.toList, isSpace c = false) (hne : value ≠ "") :
    Trimmed value :=
  ⟨AgenticPlatform.strip_eq hplain, hne⟩

theorem text_of_get {default : String} (hget : env.get name = some value) (h : Trimmed value) :
    env.text name default = value := by
  rw [text, hget]
  simp only [h.strip_eq]
  exact if_neg h.nonempty

theorem optional_of_get (hget : env.get name = some value) (h : Trimmed value) :
    env.optional name = some value := by
  rw [optional, hget]
  simp only [h.strip_eq]
  exact if_neg h.nonempty

theorem text_unset {default : String} (hget : env.get name = none) :
    env.text name default = default := by
  rw [text, hget]

theorem optional_unset (hget : env.get name = none) : env.optional name = none := by
  rw [optional, hget]

/-- A variable that may be unset, and is trimmed otherwise, is read as it is. -/
theorem optional_eq (hget : env.get name = optionalValue)
    (h : ∀ value, optionalValue = some value → Trimmed value) :
    env.optional name = optionalValue := by
  rcases optionalValue with - | value
  · exact optional_unset hget
  · exact optional_of_get hget (h value rfl)

theorem integer_of_get {n default : Int} (hget : env.get name = some (toString n)) (hn : 0 ≤ n)
    (hshort : n.natAbs < 10 ^ maxStrDigits) : env.integer name default = .ok n := by
  obtain ⟨k, rfl⟩ := Int.eq_ofNat_of_zero_le hn
  rw [Int.natAbs_natCast] at hshort
  have htext : toString (k : Int) = toString k := rfl
  have hplain : ∀ c ∈ (toString k).toList, isSpace c = false :=
    (Number.allDigits_toString k).plain
  rw [htext] at hget
  rw [integer, optional_of_get hget (trimmed_of_plain hplain (toString_nonempty k))]
  simp only [readInt_toString hshort]

theorem integer_unset {default : Int} (hget : env.get name = none) :
    env.integer name default = .ok default := by
  rw [integer, optional_unset hget]

theorem trimmed_general (value : Binary64) : Trimmed value.general := by
  refine trimmed_of_plain (Binary64.general_plain value) fun hempty => ?_
  have hparse := Binary64.parse_general_eq value
  rw [hempty] at hparse
  cases hparse

theorem number_of_get {value default : Binary64} (hget : env.get name = some value.general) :
    env.number name default = .ok value.reread := by
  rw [number, optional_of_get hget (trimmed_general value)]
  simp only [Binary64.parse_general_eq]

theorem number_unset {default : Binary64} (hget : env.get name = none) :
    env.number name default = .ok default := by
  rw [number, optional_unset hget]

/-- `"1" if flag else "0"`. -/
def flagText : Bool → String
  | true => "1"
  | false => "0"

theorem optionalFlag_eq {choice : Option Bool} (hget : env.get name = choice.map flagText) :
    env.optionalFlag name = .ok choice := by
  have htrimmed : ∀ value, choice.map flagText = some value → Trimmed value := by
    intro value hvalue
    rcases choice with - | flag
    · cases hvalue
    · cases hvalue
      rcases flag with - | - <;> exact ⟨by decide +kernel, by decide⟩
  have hlower : ∀ flag, (flagText flag).toLower = flagText flag := by decide +kernel
  rw [optionalFlag, optional_eq hget htrimmed]
  rcases choice with - | flag
  · rfl
  · simp only [Option.map_some, hlower]
    rcases flag with - | - <;> rfl

end Environ

/-! ### The checks -/

namespace WorkerFields

variable {fields others : WorkerFields}

/-- What the checks ask for. -/
structure Valid (fields : WorkerFields) : Prop where
  modelId : strip fields.modelId ≠ ""
  gpuPositive : (Binary64.ofInt 0).lt fields.gpuMemoryUtilization = true
  gpuAtMostOne : fields.gpuMemoryUtilization.le (.ofInt 1) = true
  maxModelLen : minUsableModelLen ≤ fields.maxModelLen
  tensorParallelSize : 1 ≤ fields.tensorParallelSize
  port : 1 ≤ fields.port ∧ fields.port ≤ maxTcpPort
  minFreeDiskGb : fields.minFreeDiskGb.lt (.ofInt 0) = false
  timings : ∀ timing ∈ fields.timings, timing.2.2.1.below timing.2.2.2 = false
  persistentRoot : fields.persistentRoot.isAbsolute = true

theorem timingError_eq_none {name variableName : String} {value : Number} {floor : Int} :
    timingError name variableName value floor = none ↔ value.below floor = false := by
  rw [timingError]
  split
  · rename_i hlow
    rw [hlow]
    exact ⟨nofun, nofun⟩
  · rename_i hfloor
    exact ⟨fun _ => Bool.eq_false_iff.mpr hfloor, fun _ => rfl⟩

theorem refusal_eq_none_iff : fields.refusal = none ↔ fields.Valid := by
  have htimings : (fields.timings.findSome? fun timing =>
      timingError timing.1 timing.2.1 timing.2.2.1 timing.2.2.2) = none ↔
      ∀ timing ∈ fields.timings, timing.2.2.1.below timing.2.2.2 = false := by
    simp only [List.findSome?_eq_none_iff, timingError_eq_none]
  constructor
  · intro h
    rw [refusal] at h
    split_ifs at h with hmodel hgpu hlength hparallel hport hdisk hroot
    · split at h
      · cases h
      · rename_i hnone
        exact ⟨hmodel, hgpu.1, hgpu.2, not_lt.mp hlength, not_lt.mp hparallel, hport,
          Bool.eq_false_iff.mpr hdisk, htimings.mp hnone, hroot⟩
    · split at h <;> cases h
  · intro h
    rw [refusal, if_neg h.modelId, if_neg (not_not.mpr ⟨h.gpuPositive, h.gpuAtMostOne⟩),
      if_neg (not_lt.mpr h.maxModelLen), if_neg (not_lt.mpr h.tensorParallelSize),
      if_neg (not_not.mpr h.port), if_neg (Bool.eq_false_iff.mp h.minFreeDiskGb),
      htimings.mpr h.timings]
    exact if_neg (not_not.mpr h.persistentRoot)

/-- The same configuration, numbers compared by their value. -/
structure Same (fields others : WorkerFields) : Prop where
  modelId : fields.modelId = others.modelId
  modelRevision : fields.modelRevision = others.modelRevision
  servedModelName : fields.servedModelName = others.servedModelName
  persistentRoot : fields.persistentRoot = others.persistentRoot
  minFreeDiskGb : fields.minFreeDiskGb.Same others.minFreeDiskGb
  host : fields.host = others.host
  port : fields.port = others.port
  maxModelLen : fields.maxModelLen = others.maxModelLen
  gpuMemoryUtilization : fields.gpuMemoryUtilization.Same others.gpuMemoryUtilization
  tensorParallelSize : fields.tensorParallelSize = others.tensorParallelSize
  autoTensorParallel : fields.autoTensorParallel = others.autoTensorParallel
  extraArgs : fields.extraArgs = others.extraArgs
  readinessTimeoutSeconds : fields.readinessTimeoutSeconds.Same others.readinessTimeoutSeconds
  readinessPollSeconds : fields.readinessPollSeconds.Same others.readinessPollSeconds
  downloadMaxAttempts : fields.downloadMaxAttempts = others.downloadMaxAttempts
  downloadBackoffSeconds : fields.downloadBackoffSeconds.Same others.downloadBackoffSeconds
  lockTimeoutSeconds : fields.lockTimeoutSeconds.Same others.lockTimeoutSeconds
  hfHubDisableXet : fields.hfHubDisableXet = others.hfHubDisableXet
  hfToken : fields.hfToken = others.hfToken
  vllmApiKey : fields.vllmApiKey = others.vllmApiKey

/-- A configuration with other numbers is the same one if they have the same values. -/
theorem same_with_numbers {disk utilization timeout : Binary64} :
    { fields with
      minFreeDiskGb := disk
      gpuMemoryUtilization := utilization
      readinessTimeoutSeconds := timeout : WorkerFields }.Same fields ↔
    utilization.Same fields.gpuMemoryUtilization ∧ disk.Same fields.minFreeDiskGb ∧
      timeout.Same fields.readinessTimeoutSeconds := by
  constructor
  · intro hsame
    exact ⟨hsame.gpuMemoryUtilization, hsame.minFreeDiskGb, hsame.readinessTimeoutSeconds⟩
  · rintro ⟨hutilization, hdisk, htimeout⟩
    exact ⟨rfl, rfl, rfl, rfl, hdisk, rfl, rfl, rfl, hutilization, rfl, rfl, rfl, htimeout,
      .refl _, rfl, .refl _, .refl _, rfl, rfl, rfl⟩

theorem Valid.congr (hvalid : others.Valid) (h : fields.Same others) : fields.Valid where
  modelId := h.modelId ▸ hvalid.modelId
  gpuPositive := (Binary64.lt_congr_right h.gpuMemoryUtilization).trans hvalid.gpuPositive
  gpuAtMostOne := (Binary64.le_congr h.gpuMemoryUtilization).trans hvalid.gpuAtMostOne
  maxModelLen := h.maxModelLen ▸ hvalid.maxModelLen
  tensorParallelSize := h.tensorParallelSize ▸ hvalid.tensorParallelSize
  port := h.port ▸ hvalid.port
  minFreeDiskGb := (Binary64.lt_congr h.minFreeDiskGb).trans hvalid.minFreeDiskGb
  timings := by
    have htimings := hvalid.timings
    simp only [WorkerFields.timings, List.forall_mem_cons, h.downloadMaxAttempts,
      Number.below_congr h.downloadBackoffSeconds, Number.below_congr h.readinessTimeoutSeconds,
      Number.below_congr h.readinessPollSeconds, Number.below_congr h.lockTimeoutSeconds]
      at htimings ⊢
    exact htimings
  persistentRoot := h.persistentRoot ▸ hvalid.persistentRoot

end WorkerFields

namespace WorkerConfig

def defaultModelId : String := "Qwen/Qwen3-Coder-30B-A3B-Instruct-FP8"

def defaultPersistentRoot : String := "/runpod-volume"

/-- The fields that `from_env` reads. -/
def readFields (split : String → Except String (List String)) (env : Environ) :
    Except ConfigError WorkerFields := do
  let minFreeDiskGb ← env.number "MIN_FREE_DISK_GB" (.ofDecimal false 40 0)
  let port ← env.integer "PORT" 8000
  let maxModelLen ← env.integer "MAX_MODEL_LEN" 16384
  let gpuMemoryUtilization ← env.number "GPU_MEMORY_UTILIZATION" (.ofDecimal false 90 (-2))
  let tensorParallelSize ← env.integer "TENSOR_PARALLEL_SIZE" 1
  let autoTensorParallel ← env.flag "AUTO_TENSOR_PARALLEL" false
  let extraArgs ← env.words split "VLLM_EXTRA_ARGS"
  let readinessTimeoutSeconds ← env.number "READINESS_TIMEOUT_SECONDS" (.ofDecimal false 1800 0)
  let readinessPollSeconds ← env.number "READINESS_POLL_SECONDS" (.ofDecimal false 3 0)
  let downloadMaxAttempts ← env.integer "MODEL_DOWNLOAD_MAX_ATTEMPTS" 5
  let downloadBackoffSeconds ← env.number "MODEL_DOWNLOAD_BACKOFF_SECONDS" (.ofDecimal false 5 0)
  let lockTimeoutSeconds ← env.number "MODEL_LOCK_TIMEOUT_SECONDS" (.ofDecimal false 7200 0)
  let hfHubDisableXet ← env.optionalFlag "HF_HUB_DISABLE_XET"
  return {
    modelId := env.text "MODEL_ID" defaultModelId
    modelRevision := env.optional "MODEL_REVISION"
    servedModelName := env.optional "SERVED_MODEL_NAME"
    persistentRoot := .parse (env.text "PERSISTENT_ROOT" defaultPersistentRoot)
    minFreeDiskGb
    host := env.text "HOST" "0.0.0.0"
    port
    maxModelLen
    gpuMemoryUtilization
    tensorParallelSize
    autoTensorParallel
    extraArgs
    readinessTimeoutSeconds
    readinessPollSeconds
    downloadMaxAttempts
    downloadBackoffSeconds
    lockTimeoutSeconds
    hfHubDisableXet
    hfToken := env.secret "HF_TOKEN" (some "HUGGING_FACE_HUB_TOKEN")
    vllmApiKey := env.secret "VLLM_API_KEY" none }

/-- `WorkerConfig.from_env`. -/
def fromEnv (split : String → Except String (List String)) (env : Environ) :
    Except ConfigError WorkerConfig :=
  readFields split env >>= build

theorem build_eq_ok {fields : WorkerFields} {config : WorkerConfig} :
    build fields = .ok config ↔ config.toWorkerFields = fields := by
  constructor
  · intro h
    unfold build at h
    split at h
    · cases h
    · cases h
      rfl
  · rintro rfl
    unfold build
    split
    · rename_i error hrefusal
      rw [config.accepted] at hrefusal
      cases hrefusal
    · rfl

end WorkerConfig

end AgenticPlatform
