import AgenticPlatform.WorkerEnvironment

/-!
# The settings of a pod, and what its worker reads

The deployer turns its settings into the environment of a pod, and the worker reads its
configuration from it. The two agree except about numbers: `'{:g}'` writes six significant
digits, and `str` writes no integer of more than 4300 digits.
-/

namespace AgenticPlatform

/-! ### Shell words -/

/-- The characters outside of `_find_unsafe`. -/
def isShellSafe (c : Char) : Bool :=
  c.isAlphanum || c == '_' || "@%+=:,./-".toList.contains c

/-- `shlex.quote`. -/
def shellQuote (word : String) : String :=
  if word = "" then "''"
  else if word.toList.all isShellSafe then word
  else String.ofList ('\'' :: word.toList.flatMap (fun c =>
    if c = '\'' then "'\"'\"'".toList else [c]) ++ ['\''])

/-- `shlex.join`. -/
def shellJoin (words : List String) : String := " ".intercalate (words.map shellQuote)

variable {chars more : List Char}

/-- The text begins and ends with what is no white space. -/
structure SolidEnds (chars : List Char) : Prop where
  first : ∃ c rest, chars = c :: rest ∧ isSpace c = false
  last : ∃ rest c, chars = rest ++ [c] ∧ isSpace c = false

theorem SolidEnds.append (h : SolidEnds chars) (hmore : SolidEnds more) (between : List Char) :
    SolidEnds (chars ++ between ++ more) := by
  rcases h.first with ⟨c, rest, rfl, hc⟩
  rcases hmore.last with ⟨rest', c', rfl, hc'⟩
  exact ⟨⟨c, rest ++ between ++ (rest' ++ [c']), rfl, hc⟩,
    ⟨c :: rest ++ between ++ rest', c', (List.append_assoc _ _ _).symm, hc'⟩⟩

theorem SolidEnds.of_plain (hne : chars ≠ []) (hplain : ∀ c ∈ chars, isSpace c = false) :
    SolidEnds chars := by
  constructor
  · obtain ⟨c, rest, rfl⟩ := List.exists_cons_of_ne_nil hne
    exact ⟨c, rest, rfl, hplain c List.mem_cons_self⟩
  · rcases List.eq_nil_or_concat chars with hnil | ⟨rest, c, rfl⟩
    · exact absurd hnil hne
    · rw [List.concat_eq_append] at hplain ⊢
      exact ⟨rest, c, rfl, hplain c (List.mem_append_right _ List.mem_cons_self)⟩

theorem SolidEnds.trimmed {text : String} (h : SolidEnds text.toList) : Environ.Trimmed text := by
  constructor
  · have hfirst : text.toList.dropWhile isSpace = text.toList := by
      rcases h.first with ⟨c, rest, hchars, hc⟩
      rw [hchars, List.dropWhile_cons_of_neg (by rw [hc]; exact Bool.false_ne_true)]
    have hlast : text.toList.reverse.dropWhile isSpace = text.toList.reverse := by
      rcases h.last with ⟨rest, c, hchars, hc⟩
      rw [hchars, List.reverse_append, List.reverse_singleton, List.singleton_append,
        List.dropWhile_cons_of_neg (by rw [hc]; exact Bool.false_ne_true)]
    rw [strip, hfirst, hlast, List.reverse_reverse, String.ofList_toList]
  · rintro rfl
    rcases h.first with ⟨c, rest, hchars, -⟩
    cases hchars

theorem isSpace_of_isShellSafe {c : Char} (h : isShellSafe c = true) : isSpace c = false := by
  rw [isShellSafe, Bool.or_eq_true, Bool.or_eq_true] at h
  rcases h with (halphanum | hline) | hother
  · exact isSpace_of_between (between_of_isAlphanum halphanum)
  · rw [beq_iff_eq.mp hline]
    rfl
  · have hall : "@%+=:,./-".toList.all (fun c => !isSpace c) = true := by decide +kernel
    exact Number.plain_of_all hall c (List.contains_iff_mem.mp hother)

theorem solidEnds_shellQuote (word : String) : SolidEnds (shellQuote word).toList := by
  rw [shellQuote]
  split
  · exact ⟨⟨'\'', _, rfl, rfl⟩, ⟨['\''], '\'', rfl, rfl⟩⟩
  · rename_i hne
    split
    · rename_i hsafe
      rw [List.all_eq_true] at hsafe
      refine .of_plain ?_ fun c hc => isSpace_of_isShellSafe (hsafe c hc)
      rwa [ne_eq, String.toList_eq_nil_iff]
    · rw [String.toList_ofList]
      exact ⟨⟨'\'', _, rfl, rfl⟩, ⟨_, '\'', rfl, rfl⟩⟩

theorem solidEnds_shellJoin {words : List String} (h : words ≠ []) :
    SolidEnds (shellJoin words).toList := by
  induction words with
  | nil => exact absurd rfl h
  | cons word rest ih =>
    rcases eq_or_ne rest [] with rfl | hrest
    · rw [shellJoin, List.map_singleton, String.intercalate_singleton]
      exact solidEnds_shellQuote word
    · rw [shellJoin, List.map_cons, String.intercalate_cons_of_ne_nil
        (by rwa [ne_eq, List.map_eq_nil_iff]), String.toList_append, String.toList_append]
      exact (solidEnds_shellQuote word).append (ih hrest) _

/-! ### What the deployer sends -/

/-- What the container reads from its environment. A secret is its value, empty where it is not
    set. -/
structure WorkerSettings where
  modelId : String
  modelRevision : Option String
  servedModelName : Option String
  persistentRoot : String
  minFreeDiskGb : Binary64
  port : Int
  maxModelLen : Int
  gpuMemoryUtilization : Binary64
  tensorParallelSize : Int
  autoTensorParallel : Bool
  extraArgs : List String
  readinessTimeoutSeconds : Binary64
  hfHubDisableXet : Option Bool
  hfToken : String
  vllmApiKey : String

/-- The environment of a pod, split by whether it may be shown. -/
structure PodEnvironment where
  shown : Environ
  secret : Environ

/-- `as_api_env`. -/
def PodEnvironment.asApiEnv (environment : PodEnvironment) : Environ :=
  environment.secret.foldl
    (fun merged entry => if entry.2 = "" then merged else merged.set entry.1 entry.2)
    environment.shown

/-- The text, unless it is missing or empty. -/
def truthyText (text : Option String) : Option String := text.filter fun text => text ≠ ""

/-- The variables that may be shown, with the texts of the three integers. -/
def shownVariables (settings : WorkerSettings) (port maxModelLen tensorParallelSize : String) :
    Environ :=
  let always : Environ :=
    [("MODEL_ID", settings.modelId),
      ("PERSISTENT_ROOT", settings.persistentRoot),
      ("PORT", port),
      ("MAX_MODEL_LEN", maxModelLen),
      ("GPU_MEMORY_UTILIZATION", settings.gpuMemoryUtilization.general),
      ("TENSOR_PARALLEL_SIZE", tensorParallelSize),
      ("MIN_FREE_DISK_GB", settings.minFreeDiskGb.general),
      ("READINESS_TIMEOUT_SECONDS", settings.readinessTimeoutSeconds.general)]
  let pinned := always.setOptional "MODEL_REVISION" (truthyText settings.modelRevision)
  let named := pinned.setOptional "SERVED_MODEL_NAME" (truthyText settings.servedModelName)
  let parallel := named.setOptional "AUTO_TENSOR_PARALLEL"
    (if settings.autoTensorParallel then some "1" else none)
  let extended := parallel.setOptional "VLLM_EXTRA_ARGS"
    (if settings.extraArgs = [] then none else some (shellJoin settings.extraArgs))
  extended.setOptional "HF_HUB_DISABLE_XET" (settings.hfHubDisableXet.map Environ.flagText)

/-- The variables that are never shown. -/
def secretVariables (settings : WorkerSettings) : Environ :=
  let secret : Environ := []
  (secret.setOptional "HF_TOKEN" (truthyText (some settings.hfToken))).setOptional
    "VLLM_API_KEY" (truthyText (some settings.vllmApiKey))

/-- `build_pod_environment`. -/
def buildPodEnvironment (settings : WorkerSettings) : Except PyError PodEnvironment := do
  let port ← strInt settings.port
  let maxModelLen ← strInt settings.maxModelLen
  let tensorParallelSize ← strInt settings.tensorParallelSize
  return {
    shown := shownVariables settings port maxModelLen tensorParallelSize
    secret := secretVariables settings }

namespace WorkerSettings

variable {settings : WorkerSettings} {split : String → Except String (List String)}

/-- The variables that the pod gets if the integers have texts. -/
def environ (settings : WorkerSettings) : Environ :=
  PodEnvironment.asApiEnv {
    shown := shownVariables settings (toString settings.port) (toString settings.maxModelLen)
      (toString settings.tensorParallelSize)
    secret := secretVariables settings }

/-- No integer is longer than what `str` writes. -/
structure Written (settings : WorkerSettings) : Prop where
  port : settings.port.natAbs < 10 ^ maxStrDigits
  maxModelLen : settings.maxModelLen.natAbs < 10 ^ maxStrDigits
  tensorParallelSize : settings.tensorParallelSize.natAbs < 10 ^ maxStrDigits

/-- Whether there is an environment at all depends on the integers alone. -/
theorem asApiEnv_of_build {env : Environ} :
    (buildPodEnvironment settings).map PodEnvironment.asApiEnv = .ok env ↔
      settings.Written ∧ env = settings.environ := by
  rw [buildPodEnvironment]
  rcases hport : strInt settings.port with error | port
  · refine ⟨nofun, fun h => ?_⟩
    rw [strInt_eq_ok.mpr ⟨h.1.port, rfl⟩] at hport
    cases hport
  obtain ⟨hshort, rfl⟩ := strInt_eq_ok.mp hport
  rcases hlength : strInt settings.maxModelLen with error | maxModelLen
  · refine ⟨nofun, fun h => ?_⟩
    rw [strInt_eq_ok.mpr ⟨h.1.maxModelLen, rfl⟩] at hlength
    cases hlength
  obtain ⟨hshort', rfl⟩ := strInt_eq_ok.mp hlength
  rcases hparallel : strInt settings.tensorParallelSize with error | tensorParallelSize
  · refine ⟨nofun, fun h => ?_⟩
    rw [strInt_eq_ok.mpr ⟨h.1.tensorParallelSize, rfl⟩] at hparallel
    cases hparallel
  obtain ⟨hshort'', rfl⟩ := strInt_eq_ok.mp hparallel
  constructor
  · intro h
    exact ⟨⟨hshort, hshort', hshort''⟩, (Except.ok.inj h).symm⟩
  · rintro ⟨-, rfl⟩
    rfl

/-- A worker configuration with these settings, and with the defaults of the worker where the
    deployer sets nothing. -/
def fields (settings : WorkerSettings) : WorkerFields where
  modelId := settings.modelId
  modelRevision := settings.modelRevision
  servedModelName := settings.servedModelName
  persistentRoot := .parse settings.persistentRoot
  minFreeDiskGb := settings.minFreeDiskGb
  host := "0.0.0.0"
  port := settings.port
  maxModelLen := settings.maxModelLen
  gpuMemoryUtilization := settings.gpuMemoryUtilization
  tensorParallelSize := settings.tensorParallelSize
  autoTensorParallel := settings.autoTensorParallel
  extraArgs := settings.extraArgs
  readinessTimeoutSeconds := settings.readinessTimeoutSeconds
  readinessPollSeconds := .ofDecimal false 3 0
  downloadMaxAttempts := 5
  downloadBackoffSeconds := .ofDecimal false 5 0
  lockTimeoutSeconds := .ofDecimal false 7200 0
  hfHubDisableXet := settings.hfHubDisableXet
  hfToken := settings.hfToken
  vllmApiKey := settings.vllmApiKey

/-! ### What the worker reads of it -/

theorem truthyText_empty : truthyText (some "") = none := rfl

theorem truthyText_some {text : String} (h : text ≠ "") : truthyText (some text) = some text := by
  rw [truthyText, Option.filter_some, if_pos (decide_eq_true h)]

/-- The secrets are merged into the other variables. -/
theorem asApiEnv_secrets (shown : Environ) (token key : String) :
    PodEnvironment.asApiEnv ⟨shown, (Environ.setOptional [] "HF_TOKEN"
        (truthyText (some token))).setOptional "VLLM_API_KEY" (truthyText (some key))⟩ =
      (shown.setOptional "HF_TOKEN" (truthyText (some token))).setOptional
        "VLLM_API_KEY" (truthyText (some key)) := by
  rw [PodEnvironment.asApiEnv]
  rcases eq_or_ne token "" with rfl | htoken <;> rcases eq_or_ne key "" with rfl | hkey
  · rfl
  · rw [truthyText_empty, truthyText_some hkey]
    exact if_neg hkey
  · rw [truthyText_empty, truthyText_some htoken]
    exact if_neg htoken
  · rw [truthyText_some htoken, truthyText_some hkey]
    exact (if_neg hkey).trans (congrArg (Environ.set · "VLLM_API_KEY" key) (if_neg htoken))

theorem environ_eq (settings : WorkerSettings) : settings.environ =
    ((shownVariables settings (toString settings.port) (toString settings.maxModelLen)
      (toString settings.tensorParallelSize)).setOptional "HF_TOKEN"
      (truthyText (some settings.hfToken))).setOptional
      "VLLM_API_KEY" (truthyText (some settings.vllmApiKey)) :=
  asApiEnv_secrets _ _ _

/-- A worker takes a missing secret for an empty one. -/
theorem secret_eq {env : Environ} {first value : String} {second : Option String}
    (hget : env.get first = truthyText (some value)) (hsecond : second.bind env.get = none) :
    env.secret first second = value := by
  rw [Environ.secret, hget, hsecond]
  rcases eq_or_ne value "" with rfl | hvalue
  · rfl
  · rw [truthyText_some hvalue]
    exact if_neg hvalue

/-- Quoted words are read as they were given. -/
theorem trimmed_shellJoin {words : List String} (h : words ≠ []) :
    Environ.Trimmed (shellJoin words) :=
  (solidEnds_shellJoin h).trimmed

/-- The worker's own validation: texts without white space around them, decimals, and no
    refusal. -/
structure Accepted (settings : WorkerSettings) : Prop where
  modelId : Environ.Trimmed settings.modelId
  modelRevision : ∀ text, settings.modelRevision = some text → Environ.Trimmed text
  servedModelName : ∀ text, settings.servedModelName = some text → Environ.Trimmed text
  persistentRoot : Environ.Trimmed settings.persistentRoot
  minFreeDiskGb : settings.minFreeDiskGb.IsDecimal
  gpuMemoryUtilization : settings.gpuMemoryUtilization.IsDecimal
  readinessTimeoutSeconds : settings.readinessTimeoutSeconds.IsDecimal
  unrefused : settings.fields.refusal = none

/-- The fields with the three numbers that `'{:g}'` writes as they are read again. -/
def rereadFields (settings : WorkerSettings) : WorkerFields :=
  { settings.fields with
    minFreeDiskGb := settings.minFreeDiskGb.reread
    gpuMemoryUtilization := settings.gpuMemoryUtilization.reread
    readinessTimeoutSeconds := settings.readinessTimeoutSeconds.reread }

theorem truthyText_eq {text : Option String}
    (h : ∀ value, text = some value → Environ.Trimmed value) :
    truthyText text = text := by
  rcases text with - | value
  · rfl
  · exact truthyText_some (h value rfl).nonempty

theorem get_words (settings : WorkerSettings) : settings.environ.get "VLLM_EXTRA_ARGS" =
    if settings.extraArgs = [] then none else some (shellJoin settings.extraArgs) := by
  simp [environ_eq, shownVariables]

theorem words_eq (hsplit : split (shellJoin settings.extraArgs) = .ok settings.extraArgs) :
    settings.environ.words split "VLLM_EXTRA_ARGS" = .ok settings.extraArgs := by
  have hget := get_words settings
  rw [Environ.words]
  rcases eq_or_ne settings.extraArgs [] with hnone | hsome
  · rw [if_pos hnone] at hget
    rw [Environ.optional_unset hget, hnone]
  · rw [if_neg hsome] at hget
    rw [Environ.optional_of_get hget (trimmed_shellJoin hsome)]
    simp only [hsplit]

theorem flag_eq (settings : WorkerSettings) :
    settings.environ.flag "AUTO_TENSOR_PARALLEL" false = .ok settings.autoTensorParallel := by
  have hget : settings.environ.get "AUTO_TENSOR_PARALLEL" =
      (if settings.autoTensorParallel then some true else none).map Environ.flagText := by
    rcases hparallel : settings.autoTensorParallel with - | - <;>
      simp [environ_eq, shownVariables, hparallel, Environ.flagText]
  rw [Environ.flag, Environ.optionalFlag_eq hget]
  rcases settings.autoTensorParallel with - | - <;> rfl

theorem integers_eq (h : settings.Accepted) (hwritten : settings.Written) :
    settings.environ.integer "PORT" 8000 = .ok settings.port ∧
    settings.environ.integer "MAX_MODEL_LEN" 16384 = .ok settings.maxModelLen ∧
    settings.environ.integer "TENSOR_PARALLEL_SIZE" 1 = .ok settings.tensorParallelSize := by
  have hvalid := WorkerFields.refusal_eq_none_iff.mp h.unrefused
  have hone : (0 : Int) ≤ 1 := by decide
  have hmin : 0 ≤ minUsableModelLen := by decide
  refine ⟨Environ.integer_of_get ?_ (hone.trans hvalid.port.1) hwritten.port,
    Environ.integer_of_get ?_ (hmin.trans hvalid.maxModelLen) hwritten.maxModelLen,
    Environ.integer_of_get ?_ (hone.trans hvalid.tensorParallelSize) hwritten.tensorParallelSize⟩
  all_goals simp [environ_eq, shownVariables]

theorem numbers_eq (settings : WorkerSettings) :
    settings.environ.number "MIN_FREE_DISK_GB" (.ofDecimal false 40 0) =
      .ok settings.minFreeDiskGb.reread ∧
    settings.environ.number "GPU_MEMORY_UTILIZATION" (.ofDecimal false 90 (-2)) =
      .ok settings.gpuMemoryUtilization.reread ∧
    settings.environ.number "READINESS_TIMEOUT_SECONDS" (.ofDecimal false 1800 0) =
      .ok settings.readinessTimeoutSeconds.reread := by
  refine ⟨Environ.number_of_get ?_, Environ.number_of_get ?_, Environ.number_of_get ?_⟩
  all_goals simp [environ_eq, shownVariables]

theorem texts_eq (h : settings.Accepted) :
    settings.environ.text "MODEL_ID" WorkerConfig.defaultModelId = settings.modelId ∧
    settings.environ.text "PERSISTENT_ROOT" WorkerConfig.defaultPersistentRoot =
      settings.persistentRoot ∧
    settings.environ.optional "MODEL_REVISION" = settings.modelRevision ∧
    settings.environ.optional "SERVED_MODEL_NAME" = settings.servedModelName := by
  refine ⟨Environ.text_of_get ?_ h.modelId, Environ.text_of_get ?_ h.persistentRoot,
    Environ.optional_eq ?_ h.modelRevision, Environ.optional_eq ?_ h.servedModelName⟩
  all_goals
    simp [environ_eq, shownVariables, truthyText_eq h.modelRevision,
      truthyText_eq h.servedModelName]

/-- The variables that the deployer sets, some of them only where it has a value. -/
def variableNames : List String :=
  ["MODEL_ID", "PERSISTENT_ROOT", "PORT", "MAX_MODEL_LEN", "GPU_MEMORY_UTILIZATION",
    "TENSOR_PARALLEL_SIZE", "MIN_FREE_DISK_GB", "READINESS_TIMEOUT_SECONDS", "MODEL_REVISION",
    "SERVED_MODEL_NAME", "AUTO_TENSOR_PARALLEL", "VLLM_EXTRA_ARGS", "HF_HUB_DISABLE_XET",
    "HF_TOKEN", "VLLM_API_KEY"]

/-- No other variable is set. -/
theorem get_unset {name : String} (h : name ∉ variableNames) :
    settings.environ.get name = none := by
  have hother : ∀ other ∈ variableNames, ¬ other = name := fun other hmem heq => h (heq ▸ hmem)
  simp only [variableNames, List.forall_mem_cons] at hother
  simp only [environ_eq, shownVariables, Environ.get_setOptional, Environ.get_cons,
    Environ.get_nil, hother, if_false]

theorem secrets_eq (settings : WorkerSettings) :
    settings.environ.secret "HF_TOKEN" (some "HUGGING_FACE_HUB_TOKEN") = settings.hfToken ∧
    settings.environ.secret "VLLM_API_KEY" none = settings.vllmApiKey := by
  refine ⟨secret_eq ?_ (get_unset (by decide)), secret_eq ?_ rfl⟩
  all_goals simp [environ_eq, shownVariables]

theorem xet_eq (settings : WorkerSettings) :
    settings.environ.optionalFlag "HF_HUB_DISABLE_XET" = .ok settings.hfHubDisableXet := by
  refine Environ.optionalFlag_eq ?_
  simp [environ_eq, shownVariables]

/-- **What the worker reads of the environment it is given.** -/
theorem readFields_environ (h : settings.Accepted) (hwritten : settings.Written)
    (hsplit : split (shellJoin settings.extraArgs) = .ok settings.extraArgs) :
    WorkerConfig.readFields split settings.environ = .ok settings.rereadFields := by
  obtain ⟨hport, hlength, hparallel⟩ := integers_eq h hwritten
  obtain ⟨hdisk, hutilization, htimeout⟩ := numbers_eq settings
  obtain ⟨hmodel, hroot, hrevision, hname⟩ := texts_eq h
  obtain ⟨htoken, hkey⟩ := secrets_eq settings
  have hunset : ∀ name, name ∉ variableNames → settings.environ.get name = none :=
    fun name hname => get_unset hname
  have hpoll := hunset "READINESS_POLL_SECONDS" (by decide)
  have hattempts := hunset "MODEL_DOWNLOAD_MAX_ATTEMPTS" (by decide)
  have hbackoff := hunset "MODEL_DOWNLOAD_BACKOFF_SECONDS" (by decide)
  have hlock := hunset "MODEL_LOCK_TIMEOUT_SECONDS" (by decide)
  have hhost := hunset "HOST" (by decide)
  rw [WorkerConfig.readFields, hport, hlength, hparallel, hdisk, hutilization, htimeout,
    xet_eq, words_eq hsplit, flag_eq, Environ.number_unset hpoll, Environ.integer_unset hattempts,
    Environ.number_unset hbackoff, Environ.number_unset hlock, Environ.text_unset hhost, hmodel,
    hroot, hrevision, hname, htoken, hkey]
  rfl

/-! ### Agreement -/

/-- There is an environment, and the worker that is given it has the settings of the deployer. -/
def Agrees (split : String → Except String (List String)) (settings : WorkerSettings) : Prop :=
  ∃ env config, (buildPodEnvironment settings).map PodEnvironment.asApiEnv = .ok env ∧
    WorkerConfig.fromEnv split env = .ok config ∧ config.toWorkerFields.Same settings.fields

theorem rereadFields_same_iff : settings.rereadFields.Same settings.fields ↔
    settings.gpuMemoryUtilization.reread.Same settings.gpuMemoryUtilization ∧
      settings.minFreeDiskGb.reread.Same settings.minFreeDiskGb ∧
      settings.readinessTimeoutSeconds.reread.Same settings.readinessTimeoutSeconds :=
  WorkerFields.same_with_numbers

theorem rereadFields_same (h : settings.Accepted) : settings.rereadFields.Same settings.fields ↔
    settings.gpuMemoryUtilization.Short ∧ settings.minFreeDiskGb.Short ∧
      settings.readinessTimeoutSeconds.Short := by
  rw [← Binary64.reread_same_iff h.gpuMemoryUtilization,
    ← Binary64.reread_same_iff h.minFreeDiskGb, ← Binary64.reread_same_iff h.readinessTimeoutSeconds]
  exact rereadFields_same_iff

theorem agrees_iff_same (h : settings.Accepted)
    (hsplit : split (shellJoin settings.extraArgs) = .ok settings.extraArgs) :
    Agrees split settings ↔ settings.Written ∧ settings.rereadFields.Same settings.fields := by
  have hread : settings.Written → WorkerConfig.fromEnv split settings.environ =
      WorkerConfig.build settings.rereadFields := by
    intro hwritten
    rw [WorkerConfig.fromEnv, readFields_environ h hwritten hsplit]
    rfl
  constructor
  · rintro ⟨env, config, hbuild, hconfig, hsame⟩
    obtain ⟨hwritten, rfl⟩ := asApiEnv_of_build.mp hbuild
    rw [hread hwritten, WorkerConfig.build_eq_ok] at hconfig
    refine ⟨hwritten, ?_⟩
    rwa [← hconfig]
  · rintro ⟨hwritten, hsame⟩
    -- the checks compare the numbers by value
    have hvalid := (WorkerFields.refusal_eq_none_iff.mp h.unrefused).congr hsame
    refine ⟨settings.environ,
      ⟨settings.rereadFields, WorkerFields.refusal_eq_none_iff.mpr hvalid⟩,
      asApiEnv_of_build.mpr ⟨hwritten, rfl⟩, ?_, hsame⟩
    rw [hread hwritten, WorkerConfig.build_eq_ok]

/-- **The worker has the settings of the deployer exactly if six significant digits are enough for
    the utilization, the disk floor and the timeout, and `str` writes the integers.** -/
theorem agrees_iff (h : settings.Accepted)
    (hsplit : split (shellJoin settings.extraArgs) = .ok settings.extraArgs) :
    Agrees split settings ↔ settings.Written ∧ settings.gpuMemoryUtilization.Short ∧
      settings.minFreeDiskGb.Short ∧ settings.readinessTimeoutSeconds.Short :=
  (agrees_iff_same h hsplit).trans (and_congr_right fun _ => rereadFields_same h)

end WorkerSettings

namespace Sample

/-- What `shlex.split` makes of plain words. -/
def plainWords (text : String) : Except String (List String) :=
  .ok (((text.toList.splitOn ' ').filter (· ≠ [])).map String.ofList)

def extraWords : List String := ["--enable-prefix-caching", "--max-num-seqs=8"]

def podSettings (gpuMemoryUtilization : Binary64) : WorkerSettings where
  modelId := WorkerConfig.defaultModelId
  modelRevision := some "main"
  servedModelName := none
  persistentRoot := WorkerConfig.defaultPersistentRoot
  minFreeDiskGb := .ofDecimal false 40 0
  port := 8000
  maxModelLen := 16384
  gpuMemoryUtilization
  tensorParallelSize := 1
  autoTensorParallel := true
  extraArgs := extraWords
  readinessTimeoutSeconds := .ofDecimal false 1800 0
  hfHubDisableXet := some false
  hfToken := ""
  vllmApiKey := "sk-live"

theorem trimmed_defaults : Environ.Trimmed WorkerConfig.defaultModelId ∧
    Environ.Trimmed WorkerConfig.defaultPersistentRoot ∧ Environ.Trimmed "main" :=
  ⟨⟨by decide +kernel, by decide⟩, ⟨by decide +kernel, by decide⟩,
    ⟨by decide +kernel, by decide⟩⟩

theorem podSettings_accepted {digits : Nat} {exponent : Int}
    (h : (podSettings (.ofDecimal false digits exponent)).fields.refusal = none) :
    (podSettings (.ofDecimal false digits exponent)).Accepted where
  modelId := trimmed_defaults.1
  modelRevision := by
    intro text htext
    cases htext
    exact trimmed_defaults.2.2
  servedModelName := by
    intro text htext
    cases htext
  persistentRoot := trimmed_defaults.2.1
  minFreeDiskGb := ⟨false, 40, 0, rfl⟩
  gpuMemoryUtilization := ⟨false, digits, exponent, rfl⟩
  readinessTimeoutSeconds := ⟨false, 1800, 0, rfl⟩
  unrefused := h

theorem podSettings_written (gpuMemoryUtilization : Binary64) :
    (podSettings gpuMemoryUtilization).Written := by
  have hsmall : ∀ n < 10 ^ 5, n < 10 ^ maxStrDigits := fun n hn =>
    Nat.lt_of_lt_of_le hn (Nat.pow_le_pow_right (by decide) (by decide))
  have hport : 8000 < 10 ^ 5 := by decide
  have hlength : 16384 < 10 ^ 5 := by decide
  have hparallel : 1 < 10 ^ 5 := by decide
  exact ⟨hsmall 8000 hport, hsmall 16384 hlength, hsmall 1 hparallel⟩

theorem plainWords_join : plainWords (shellJoin extraWords) = .ok extraWords := by
  decide +kernel

end Sample

namespace WorkerSettings

theorem agrees_iff_two_digits :
    Agrees Sample.plainWords (Sample.podSettings (.ofDecimal false 90 (-2))) :=
  (agrees_iff (Sample.podSettings_accepted (by decide +kernel)) Sample.plainWords_join).mpr
    ⟨Sample.podSettings_written _, ⟨false, 90, -2, by decide, .refl _⟩,
      ⟨false, 40, 0, by decide, .refl _⟩, ⟨false, 1800, 0, by decide, .refl _⟩⟩

/-- A utilization of 0.9123456 is sent as 0.912346. -/
theorem seven_digits_disagree :
    (Sample.podSettings (.ofDecimal false 9123456 (-7))).Accepted ∧
    Sample.plainWords (shellJoin Sample.extraWords) = .ok Sample.extraWords ∧
    ¬ Agrees Sample.plainWords (Sample.podSettings (.ofDecimal false 9123456 (-7))) := by
  have haccepted : (Sample.podSettings (.ofDecimal false 9123456 (-7))).Accepted :=
    Sample.podSettings_accepted (by decide +kernel)
  refine ⟨haccepted, Sample.plainWords_join, fun hagrees => ?_⟩
  have hfields := ((agrees_iff_same haccepted Sample.plainWords_join).mp hagrees).2
  have hsame := (rereadFields_same_iff.mp hfields).1
  have hsmaller : (Binary64.ofDecimal false 9123456 (-7)).lt
      (Binary64.ofDecimal false 9123456 (-7)).reread = true := by decide +kernel
  have hlt := @Binary64.lt_congr_right _ _ (Binary64.ofDecimal false 9123456 (-7)) hsame
  simp only [Sample.podSettings] at hlt
  rw [hsmaller] at hlt
  revert hlt
  decide +kernel

end WorkerSettings

end AgenticPlatform
