import AgenticPlatform.DecimalText
import AgenticPlatform.FilePaths

/-!
# The configuration of a GPU worker

What the worker reads from its environment, the checks that a configuration passes at boot,
and the command line it launches vLLM with. Extra arguments are words already, and go to the
end of the command line as they are.
-/

namespace AgenticPlatform

/-- `str(path)`. -/
def PosixPath.str (path : PosixPath) : String :=
  let names := path.parts.map fun step =>
    match step with
    | .up => ".."
    | .down name => name
  match path.anchor with
  | .root => "/" ++ "/".intercalate names
  | .doubled => "//" ++ "/".intercalate names
  | .relative => if names = [] then "." else "/".intercalate names

/-- Configuration that cannot work: what is wrong, where, and what to do. -/
structure ConfigError where
  message : String
  variableName : Option String
  hint : Option String
deriving DecidableEq, Repr

def minUsableModelLen : Int := 1024

def maxTcpPort : Int := 65535

/-- The fields of `WorkerConfig`. A secret is its value, empty where it is not set. -/
structure WorkerFields where
  modelId : String
  modelRevision : Option String
  servedModelName : Option String
  persistentRoot : PosixPath
  minFreeDiskGb : Binary64
  host : String
  port : Int
  maxModelLen : Int
  gpuMemoryUtilization : Binary64
  tensorParallelSize : Int
  autoTensorParallel : Bool
  extraArgs : List String
  readinessTimeoutSeconds : Binary64
  readinessPollSeconds : Binary64
  downloadMaxAttempts : Int
  downloadBackoffSeconds : Binary64
  lockTimeoutSeconds : Binary64
  hfHubDisableXet : Option Bool
  hfToken : String
  vllmApiKey : String

namespace WorkerFields

/-- One of the checks of the timing group. -/
def timingError (name variableName : String) (value : Number) (floor : Int) : Option ConfigError :=
  if value.below floor then
    some {
      message := variableName ++ " must be at least " ++ toString floor ++ ", got " ++ value.general
      variableName := some variableName
      hint := if name = "download_max_attempts" then
        some "a zero attempt budget means the worker never tries to download" else none }
  else none

def timings (fields : WorkerFields) : List (String × String × Number × Int) :=
  [("download_max_attempts", "MODEL_DOWNLOAD_MAX_ATTEMPTS", .int fields.downloadMaxAttempts, 1),
    ("download_backoff_seconds", "MODEL_DOWNLOAD_BACKOFF_SECONDS",
      .float fields.downloadBackoffSeconds, 0),
    ("readiness_timeout_seconds", "READINESS_TIMEOUT_SECONDS",
      .float fields.readinessTimeoutSeconds, 0),
    ("readiness_poll_seconds", "READINESS_POLL_SECONDS", .float fields.readinessPollSeconds, 0),
    ("lock_timeout_seconds", "MODEL_LOCK_TIMEOUT_SECONDS", .float fields.lockTimeoutSeconds, 0)]

/-- `__post_init__`: the first check that fails. -/
def refusal (fields : WorkerFields) : Option ConfigError :=
  if strip fields.modelId = "" then
    some ⟨"MODEL_ID must not be empty", some "MODEL_ID", none⟩
  else if ¬ ((Binary64.ofInt 0).lt fields.gpuMemoryUtilization = true ∧
      fields.gpuMemoryUtilization.le (.ofInt 1) = true) then
    some {
      message := "GPU_MEMORY_UTILIZATION must be within (0, 1], got " ++
        fields.gpuMemoryUtilization.str
      variableName := some "GPU_MEMORY_UTILIZATION"
      hint := some "0.90 leaves room for the CUDA context and activations" }
  else if fields.maxModelLen < minUsableModelLen then
    some ⟨"MAX_MODEL_LEN must be at least " ++ toString minUsableModelLen ++ ", got " ++
      toString fields.maxModelLen, some "MAX_MODEL_LEN", none⟩
  else if fields.tensorParallelSize < 1 then
    some ⟨"TENSOR_PARALLEL_SIZE must be at least 1", some "TENSOR_PARALLEL_SIZE", none⟩
  else if ¬ (1 ≤ fields.port ∧ fields.port ≤ maxTcpPort) then
    some ⟨"PORT must be a valid port, got " ++ toString fields.port, some "PORT", none⟩
  else if fields.minFreeDiskGb.lt (.ofInt 0) then
    some ⟨"MIN_FREE_DISK_GB must not be negative", some "MIN_FREE_DISK_GB", none⟩
  else
    match fields.timings.findSome? fun timing =>
      timingError timing.1 timing.2.1 timing.2.2.1 timing.2.2.2 with
    | some error => some error
    | none =>
        if ¬ fields.persistentRoot.isAbsolute then
          some {
            message := "PERSISTENT_ROOT must be an absolute path, got " ++
              fields.persistentRoot.str
            variableName := some "PERSISTENT_ROOT"
            hint := some "RunPod mounts network volumes at /runpod-volume" }
        else none

end WorkerFields

/-- A configuration is its fields, once the checks have passed. -/
structure WorkerConfig extends WorkerFields where
  accepted : toWorkerFields.refusal = none

namespace WorkerConfig

/-- `WorkerConfig(...)`. -/
def build (fields : WorkerFields) : Except ConfigError WorkerConfig :=
  match h : fields.refusal with
  | some error => .error error
  | none => .ok ⟨fields, h⟩

/-- What clients must send as `model`. -/
def publicModelName (config : WorkerConfig) : String :=
  if config.servedModelName.getD "" = "" then config.modelId else config.servedModelName.getD ""

/-- The exact argument vector used to launch vLLM. -/
def vllmArgv (config : WorkerConfig) (modelPath : Option String) : List String :=
  let target := modelPath.getD config.modelId
  let revision := config.modelRevision.getD ""
  ["vllm", "serve", target, "--host", config.host, "--port", toString config.port,
    "--served-model-name", config.publicModelName, "--max-model-len", toString config.maxModelLen,
    "--gpu-memory-utilization", config.gpuMemoryUtilization.general,
    "--tensor-parallel-size", toString config.tensorParallelSize] ++
  (if modelPath = none ∧ revision ≠ "" then ["--revision", revision] else []) ++
  config.extraArgs

end WorkerConfig

end AgenticPlatform
