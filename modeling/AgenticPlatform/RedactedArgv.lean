import AgenticPlatform.WorkerConfig
import Mathlib.Algebra.Ring.Parity
import Mathlib.Tactic.IntervalCases

/-!
# The command line that is logged

The word after `--api-key` is masked in the list that is being gone through, so a second
`--api-key` in that place is a mask by the time its turn comes, and what follows it is
logged as it is.
-/

namespace AgenticPlatform

def keyOption : String := "--api-key"

/-- `word.startswith("--api-key=")`. -/
def setsKey (word : String) : Bool := "--api-key=".toList.isPrefixOf word.toList

/-- One turn of the loop over the words. -/
def maskAt (argv : List String) (index : Nat) : List String :=
  match argv[index]? with
  | none => argv
  | some word =>
      if word = keyOption ∧ index + 1 < argv.length then argv.set (index + 1) "***"
      else if setsKey word then argv.set index "--api-key=***"
      else argv

def maskAll (argv : List String) : List String := (List.range argv.length).foldl maskAt argv

/-- The vector, safe to log. -/
def WorkerConfig.redactedArgv (config : WorkerConfig) (modelPath : Option String) : List String :=
  maskAll (config.vllmArgv modelPath)

/-! ### What is asked of it -/

/-- The word at this place follows an `--api-key`. -/
def Follows (argv : List String) (index : Nat) : Prop :=
  ∃ before, before + 1 = index ∧ argv[before]? = some keyOption

def Masked (word : String) : Prop := word = "***" ∨ word = "--api-key=***"

/-- Every word that holds a key is masked, and no other word is touched. -/
structure Hides (argv logged : List String) : Prop where
  length : logged.length = argv.length
  masked : ∀ index word, argv[index]? = some word → Follows argv index ∨ setsKey word = true →
    ∃ mask, logged[index]? = some mask ∧ Masked mask
  kept : ∀ index word, argv[index]? = some word → ¬ Follows argv index → setsKey word = false →
    logged[index]? = some word

/-- Two vectors that differ at most in words after `--api-key`, and in what follows
    `--api-key=` in a word. -/
structure DifferInKeys (argv other : List String) : Prop where
  length : other.length = argv.length
  same : ∀ index word word', argv[index]? = some word → other[index]? = some word' →
    word = word' ∨ (Follows argv index ∧ Follows other index) ∨
      (setsKey word = true ∧ setsKey word' = true)

/-- The logged command line shows no key, and does not depend on one. -/
structure WorkerConfig.KeepsKeys (config : WorkerConfig) (modelPath : Option String) : Prop where
  hides : Hides (config.vllmArgv modelPath) (config.redactedArgv modelPath)
  independent : ∀ (other : WorkerConfig) (otherPath : Option String),
    DifferInKeys (config.vllmArgv modelPath) (other.vllmArgv otherPath) →
    other.redactedArgv otherPath = config.redactedArgv modelPath

/-- No two words `--api-key` in a row with a word after them. -/
def NoDoubledKey (argv : List String) : Prop :=
  ∀ index, argv[index]? = some keyOption → argv[index + 1]? = some keyOption →
    argv[index + 2]? = none

/-! ### The loop -/

/-- The word at this place is an `--api-key` that is still there when its turn comes. -/
def activeAt (argv : List String) : Nat → Bool
  | 0 => argv[0]? == some keyOption
  | index + 1 => argv[index + 1]? == some keyOption && !activeAt argv index

/-- The word at this place has been masked by the one before. -/
def hiddenAt (argv : List String) : Nat → Bool
  | 0 => false
  | index + 1 => activeAt argv index

/-- What has become of the word at `index` after `count` turns. -/
def shown (argv : List String) (count index : Nat) (word : String) : String :=
  if index ≤ count ∧ hiddenAt argv index = true then "***"
  else if index < count ∧ setsKey word = true then "--api-key=***"
  else word

theorem mask_quiet : ("***" : String) ≠ keyOption ∧ setsKey "***" = false := by decide

theorem keyOption_quiet : setsKey keyOption = false := by decide

section Loop

variable {argv other : List String} {index count : Nat}

theorem activeAt_eq : activeAt argv index =
    (argv[index]? == some keyOption && !hiddenAt argv index) := by
  cases index with
  | zero => simp [activeAt, hiddenAt]
  | succ index => rfl

theorem option_of_active (h : activeAt argv index = true) : argv[index]? = some keyOption := by
  rw [activeAt_eq, Bool.and_eq_true] at h
  simpa using h.1

@[simp] theorem maskAt_length : (maskAt argv index).length = argv.length := by
  unfold maskAt
  split
  · rfl
  · split
    · exact List.length_set
    · split
      · exact List.length_set
      · rfl

theorem getElem?_set_eq {words : List String} {place : Nat} {word : String} (index : Nat) :
    (words.set place word)[index]? =
      if index = place then (words[index]?).map fun _ => word else words[index]? := by
  rw [List.getElem?_set]
  by_cases hindex : index = place
  · subst hindex
    by_cases hlt : index < words.length
    · simp [hlt]
    · simp [hlt]
  · rw [if_neg (Ne.symm hindex), if_neg hindex]

/-- A turn concerns its own place and the next one. -/
theorem shown_other {word : String} (h : index ≠ count) (hnext : index ≠ count + 1) :
    shown argv (count + 1) index word = shown argv count index word := by
  have hle : index ≤ count + 1 ↔ index ≤ count := by omega
  have hlt : index < count + 1 ↔ index < count := by omega
  unfold shown
  simp only [hle, hlt]

theorem shown_next {word : String} : shown argv (count + 1) (count + 1) word =
    if activeAt argv count = true then "***" else word := by
  unfold shown hiddenAt
  simp

theorem shown_unreached {word : String} : shown argv count (count + 1) word = word := by
  unfold shown
  simp

theorem shown_own {word : String} : shown argv count count word =
    if hiddenAt argv count = true then "***" else word := by
  unfold shown
  simp

theorem shown_done {word : String} : shown argv (count + 1) count word =
    if hiddenAt argv count = true then "***"
    else if setsKey word = true then "--api-key=***" else word := by
  unfold shown
  simp

/-- A turn that masks nothing, where nothing is to be masked. -/
theorem shown_succ_of_quiet (h : ∀ word, argv[count]? = some word →
      shown argv (count + 1) count word = shown argv count count word)
    (hnext : argv[count + 1]? = none ∨ activeAt argv count = false) (index : Nat) :
    argv[index]?.map (shown argv count index) =
      argv[index]?.map (shown argv (count + 1) index) := by
  rcases hword : argv[index]? with - | word
  · rfl
  · by_cases hindex : index = count
    · subst hindex
      exact congrArg some (h word hword).symm
    · by_cases hlater : index = count + 1
      · subst hlater
        rcases hnext with hnone | hquiet
        · rw [hnone] at hword
          cases hword
        · rw [Option.map_some, Option.map_some, shown_next, shown_unreached, hquiet]
          simp
      · rw [Option.map_some, Option.map_some, shown_other hindex hlater]

/-- What one turn does to every place. -/
theorem shown_succ {words : List String} (hlength : words.length = argv.length)
    (hwords : ∀ index, words[index]? = argv[index]?.map (shown argv count index)) (index : Nat) :
    (maskAt words count)[index]? = argv[index]?.map (shown argv (count + 1) index) := by
  have hown := hwords count
  unfold maskAt
  rcases hword : argv[count]? with - | word
  · have hend : argv.length ≤ count := List.getElem?_eq_none_iff.mp hword
    rw [hword] at hown
    rw [hown]
    show words[index]? = _
    rw [hwords index]
    refine shown_succ_of_quiet ?_ (Or.inl (List.getElem?_eq_none (by omega))) index
    intro word hsome
    rw [hword] at hsome
    cases hsome
  · rw [hword, Option.map_some, shown_own] at hown
    cases hhidden : hiddenAt argv count with
    | true =>
      -- The mask itself is passed over.
      rw [hhidden, if_pos rfl] at hown
      rw [hown]
      dsimp only
      rw [if_neg (fun h => mask_quiet.1 h.1), if_neg (by simp [mask_quiet.2]), hwords index]
      refine shown_succ_of_quiet ?_ (Or.inr ?_) index
      · intro word _
        rw [shown_done, shown_own, hhidden]
        simp
      · rw [activeAt_eq, hhidden]
        simp
    | false =>
      rw [hhidden, if_neg (by simp)] at hown
      rw [hown]
      dsimp only
      by_cases hoption : word = keyOption
      · subst hoption
        have hactive : activeAt argv count = true := by
          rw [activeAt_eq, hhidden, hword]
          simp
        by_cases hnext : count + 1 < words.length
        · rw [if_pos ⟨rfl, hnext⟩, getElem?_set_eq, hwords index]
          by_cases hlater : index = count + 1
          · subst hlater
            rw [if_pos rfl, Option.map_map]
            congr 1
            funext later
            rw [Function.comp_apply, shown_next, hactive, if_pos rfl]
          · rw [if_neg hlater]
            rcases hplace : argv[index]? with - | later
            · rfl
            · by_cases hindex : index = count
              · subst hindex
                rw [hword] at hplace
                cases hplace
                rw [Option.map_some, Option.map_some, shown_done, shown_own, hhidden,
                  keyOption_quiet]
                simp
              · rw [Option.map_some, Option.map_some, shown_other hindex hlater]
        · rw [if_neg (fun h => hnext h.2), if_neg (by simp [keyOption_quiet]), hwords index]
          refine shown_succ_of_quiet ?_ (Or.inl (List.getElem?_eq_none (by omega))) index
          intro later hlater
          rw [hword] at hlater
          cases hlater
          rw [shown_done, shown_own, hhidden, keyOption_quiet]
          simp
      · have hquiet : activeAt argv count = false := by
          rw [activeAt_eq, hword]
          simp [hoption]
        rw [if_neg (fun h => hoption h.1)]
        by_cases hsets : setsKey word = true
        · rw [if_pos hsets, getElem?_set_eq, hwords index]
          by_cases hindex : index = count
          · subst hindex
            rw [if_pos rfl, hword, Option.map_some, Option.map_some, Option.map_some, shown_done,
              hhidden, hsets]
            simp
          · rw [if_neg hindex]
            rcases hplace : argv[index]? with - | later
            · rfl
            · by_cases hlater : index = count + 1
              · subst hlater
                rw [Option.map_some, Option.map_some, shown_next, shown_unreached, hquiet]
                simp
              · rw [Option.map_some, Option.map_some, shown_other hindex hlater]
        · rw [if_neg hsets, hwords index]
          refine shown_succ_of_quiet ?_ (Or.inr hquiet) index
          intro later hlater
          rw [hword] at hlater
          cases hlater
          rw [shown_done, shown_own, hhidden, if_neg hsets]

@[simp] theorem loop_length (count : Nat) :
    ((List.range count).foldl maskAt argv).length = argv.length := by
  induction count with
  | zero => rfl
  | succ count ih =>
    rw [List.range_succ, List.foldl_append]
    exact maskAt_length.trans ih

/-- After `count` turns every place is as `shown` says. -/
theorem loop_shown (count index : Nat) :
    ((List.range count).foldl maskAt argv)[index]? = argv[index]?.map (shown argv count index) := by
  induction count generalizing index with
  | zero =>
    have hshown : ∀ word, shown argv 0 index word = word := by
      intro word
      unfold shown
      cases index with
      | zero => simp [hiddenAt]
      | succ index => simp
    rw [List.range_zero, List.foldl_nil, funext hshown]
    simp
  | succ count ih =>
    rw [List.range_succ, List.foldl_append]
    exact shown_succ (loop_length count) ih index

/-- What is logged for the word at `index`. -/
theorem maskAll_eq (argv : List String) (index : Nat) : (maskAll argv)[index]? =
    argv[index]?.map fun word => if hiddenAt argv index = true then "***"
      else if setsKey word = true then "--api-key=***" else word := by
  unfold maskAll
  rw [loop_shown]
  rcases hword : argv[index]? with - | word
  · rfl
  · have hlt : index < argv.length := (List.getElem?_eq_some_iff.mp hword).1
    rw [Option.map_some, Option.map_some]
    unfold shown
    simp [hlt, hlt.le]

/-! ### Where no marker is hidden -/

theorem follows_of_hidden (h : hiddenAt argv index = true) : Follows argv index := by
  cases index with
  | zero => cases h
  | succ before => exact ⟨before, rfl, option_of_active h⟩

/-- Every word after an `--api-key` is masked if no `--api-key` is. -/
theorem NoDoubledKey.hidden (h : NoDoubledKey argv) (hfollows : Follows argv index)
    (hword : argv[index]? ≠ none) : hiddenAt argv index = true := by
  obtain ⟨before, rfl, hoption⟩ := hfollows
  show activeAt argv before = true
  rw [activeAt_eq, hoption]
  cases hhidden : hiddenAt argv before with
  | false => simp
  | true =>
    obtain ⟨first, rfl, hfirst⟩ := follows_of_hidden hhidden
    exact absurd (h first hfirst hoption) hword

theorem NoDoubledKey.hides (h : NoDoubledKey argv) : Hides argv (maskAll argv) := by
  refine ⟨loop_length _, ?_, ?_⟩
  · intro index word hword hkey
    refine ⟨_, by rw [maskAll_eq, hword, Option.map_some], ?_⟩
    split
    · exact Or.inl rfl
    · rename_i hshown
      rcases hkey with hfollows | hsets
      · exact absurd (h.hidden hfollows (by rw [hword]; simp)) hshown
      · rw [if_pos hsets]
        exact Or.inr rfl
  · intro index word hword hfollows hsets
    rw [maskAll_eq, hword, Option.map_some, if_neg (fun hhidden => hfollows (follows_of_hidden hhidden)),
      if_neg (by simp [hsets])]

/-- What is hidden does not depend on the words that are masked. -/
theorem NoDoubledKey.same_hidden (h : NoDoubledKey argv) (hdiffer : DifferInKeys argv other)
    (index : Nat) (hlt : index < argv.length) : hiddenAt other index = hiddenAt argv index := by
  induction index with
  | zero => rfl
  | succ index ih =>
    have hword := List.getElem?_eq_getElem (Nat.lt_of_succ_lt hlt)
    have hword' := List.getElem?_eq_getElem
      (show index < other.length by rw [hdiffer.length]; exact Nat.lt_of_succ_lt hlt)
    have hbefore := ih (Nat.lt_of_succ_lt hlt)
    show activeAt other index = activeAt argv index
    rw [activeAt_eq, activeAt_eq, hbefore]
    cases hhidden : hiddenAt argv index with
    | true => simp
    | false =>
      rcases hdiffer.same index _ _ hword hword' with hsame | ⟨hfollows, -⟩ | ⟨hsets, hsets'⟩
      · rw [hword, hword', hsame]
      · have hshown := h.hidden hfollows (by rw [hword]; simp)
        rw [hhidden] at hshown
        cases hshown
      · have hne : ∀ word, setsKey word = true → word ≠ keyOption := by
          rintro word hsets rfl
          rw [keyOption_quiet] at hsets
          cases hsets
        rw [hword, hword']
        simp [hne _ hsets, hne _ hsets']

/-- Vectors that differ in keys are logged alike. -/
theorem NoDoubledKey.independent (h : NoDoubledKey argv) (hdiffer : DifferInKeys argv other) :
    maskAll other = maskAll argv := by
  apply List.ext_getElem?
  intro index
  rw [maskAll_eq, maskAll_eq]
  by_cases hlt : index < argv.length
  · have hword := List.getElem?_eq_getElem hlt
    have hword' := List.getElem?_eq_getElem
      (show index < other.length by rw [hdiffer.length]; exact hlt)
    rw [h.same_hidden hdiffer index hlt, hword, hword', Option.map_some, Option.map_some]
    rcases hdiffer.same index _ _ hword hword' with hsame | ⟨hfollows, -⟩ | ⟨hsets, hsets'⟩
    · rw [hsame]
    · rw [if_pos (h.hidden hfollows (by rw [hword]; simp)),
        if_pos (h.hidden hfollows (by rw [hword]; simp))]
    · rw [if_pos hsets, if_pos hsets']
  · rw [List.getElem?_eq_none (Nat.le_of_not_lt hlt),
      List.getElem?_eq_none (by rw [hdiffer.length]; exact Nat.le_of_not_lt hlt)]
    rfl

/-! ### Where a marker is hidden -/

theorem activeAt_congr (h : ∀ place ≤ index, other[place]? = argv[place]?) :
    activeAt other index = activeAt argv index := by
  induction index with
  | zero =>
    unfold activeAt
    rw [h 0 (Nat.le_refl 0)]
  | succ index ih =>
    unfold activeAt
    rw [h (index + 1) (Nat.le_refl _), ih fun place hle => h place (Nat.le_succ_of_le hle)]

/-- Of two markers in a row, where all is masked, the first one is active. -/
theorem Hides.active (hides : Hides argv (maskAll argv)) (hfirst : argv[index]? = some keyOption)
    (hsecond : argv[index + 1]? = some keyOption) : activeAt argv index = true := by
  by_contra hidle
  have hshown : hiddenAt argv (index + 1) = false := by simpa [hiddenAt] using hidle
  obtain ⟨mask, hmask, hmasked⟩ :=
    hides.masked (index + 1) keyOption hsecond (Or.inl ⟨index, rfl, hfirst⟩)
  rw [maskAll_eq, hsecond, Option.map_some, hshown, keyOption_quiet] at hmask
  cases hmask
  rcases hmasked with h | h
  · exact absurd h (by decide)
  · exact absurd h (by decide)

/-- A doubled marker that something follows hides nothing: written otherwise, what follows is
    logged. -/
theorem exposed {word : String} (hfirst : argv[index]? = some keyOption)
    (hsecond : argv[index + 1]? = some keyOption) (hword : argv[index + 2]? = some word)
    (hides : Hides argv (maskAll argv)) :
    DifferInKeys argv (argv.set (index + 2) "sk-1") ∧
      maskAll (argv.set (index + 2) "sk-1") ≠ maskAll argv := by
  have hset := @getElem?_set_eq argv (index + 2) "sk-1"
  have hbefore : ∀ place ≤ index + 1, (argv.set (index + 2) "sk-1")[place]? = argv[place]? := by
    intro place hle
    rw [hset, if_neg (by omega)]
  have hactive : activeAt argv (index + 1) = false := by
    rw [activeAt_eq, show hiddenAt argv (index + 1) = true from hides.active hfirst hsecond]
    simp
  have hshown : hiddenAt argv (index + 2) = false := hactive
  have hshown' : hiddenAt (argv.set (index + 2) "sk-1") (index + 2) = false :=
    (activeAt_congr hbefore).trans hactive
  constructor
  · refine ⟨List.length_set, ?_⟩
    intro place old new hold hnew
    by_cases hplace : place = index + 2
    · subst hplace
      refine Or.inr (Or.inl ⟨⟨index + 1, rfl, hsecond⟩, ⟨index + 1, rfl, ?_⟩⟩)
      rw [hbefore (index + 1) (Nat.le_refl _), hsecond]
    · rw [hset, if_neg hplace, hold] at hnew
      exact Or.inl (Option.some.inj hnew)
  · intro hsame
    obtain ⟨mask, hmask, hmasked⟩ :=
      hides.masked (index + 2) word hword (Or.inl ⟨index + 1, rfl, hsecond⟩)
    have hlogged : (maskAll (argv.set (index + 2) "sk-1"))[index + 2]? = some "sk-1" := by
      have hquiet : setsKey "sk-1" = false := by decide
      rw [maskAll_eq, hset, if_pos rfl, hword, Option.map_some, Option.map_some, hshown', hquiet]
      rfl
    rw [hsame, hmask] at hlogged
    cases hlogged
    rcases hmasked with h | h
    · exact absurd h (by decide)
    · exact absurd h (by decide)

end Loop

/-! ### The command line -/

namespace WorkerConfig

variable {config : WorkerConfig} {modelPath : Option String}

/-- The words before the extra arguments. -/
def ownWords (config : WorkerConfig) (modelPath : Option String) : List String :=
  let target := modelPath.getD config.modelId
  let revision := config.modelRevision.getD ""
  ["vllm", "serve", target, "--host", config.host, "--port", toString config.port,
    "--served-model-name", config.publicModelName, "--max-model-len", toString config.maxModelLen,
    "--gpu-memory-utilization", config.gpuMemoryUtilization.general,
    "--tensor-parallel-size", toString config.tensorParallelSize] ++
  (if modelPath = none ∧ revision ≠ "" then ["--revision", revision] else [])

theorem vllmArgv_eq : config.vllmArgv modelPath = config.ownWords modelPath ++ config.extraArgs := rfl

/-- Every second word of the worker's own is fixed, and is another option. -/
theorem ownWords_fixed {place : Nat} (h : 2 * place + 1 < (config.ownWords modelPath).length) :
    (config.ownWords modelPath)[2 * place + 1]? ≠ some keyOption := by
  unfold ownWords at h ⊢
  dsimp only at h ⊢
  by_cases hrevision : modelPath = none ∧ config.modelRevision.getD "" ≠ ""
  · rw [if_pos hrevision] at h ⊢
    have hplace : place < 8 := by
      simp only [List.length_append, List.length_cons, List.length_nil] at h
      omega
    interval_cases place <;> simp [keyOption]
  · rw [if_neg hrevision] at h ⊢
    have hplace : place < 7 := by
      simp only [List.length_append, List.length_cons, List.length_nil] at h
      omega
    interval_cases place <;> simp [keyOption]

theorem ownWords_options {index : Nat} (h : index + 2 < (config.ownWords modelPath).length) :
    (config.ownWords modelPath)[index]? ≠ some keyOption ∨
      (config.ownWords modelPath)[index + 1]? ≠ some keyOption := by
  rcases Nat.even_or_odd' index with ⟨place, rfl | rfl⟩
  · exact Or.inr (ownWords_fixed (by omega))
  · exact Or.inl (ownWords_fixed (by omega))

/-- A configuration with other extra arguments. -/
def withExtraArgs (config : WorkerConfig) (extraArgs : List String) : WorkerConfig :=
  ⟨{ config.toWorkerFields with extraArgs := extraArgs }, config.accepted⟩

/-- The logged command line shows no key exactly where no word follows a doubled
    `--api-key`. -/
theorem keeps_keys_iff (config : WorkerConfig) (modelPath : Option String) :
    config.KeepsKeys modelPath ↔ NoDoubledKey (config.vllmArgv modelPath) := by
  constructor
  · intro hkeeps index hfirst hsecond
    rcases hword : (config.vllmArgv modelPath)[index + 2]? with - | word
    · rfl
    · exfalso
      have hown : (config.ownWords modelPath).length ≤ index + 2 := by
        by_contra hlt
        have hbound : index + 2 < (config.ownWords modelPath).length := Nat.lt_of_not_le hlt
        rw [vllmArgv_eq, List.getElem?_append_left (by omega)] at hfirst hsecond
        rcases ownWords_options hbound with hne | hne
        · exact hne hfirst
        · exact hne hsecond
      obtain ⟨hdiffer, hne⟩ := exposed hfirst hsecond hword hkeeps.hides
      have hset : (config.vllmArgv modelPath).set (index + 2) "sk-1" =
          (config.withExtraArgs (config.extraArgs.set
            (index + 2 - (config.ownWords modelPath).length) "sk-1")).vllmArgv modelPath := by
        rw [vllmArgv_eq, List.set_append_right _ _ hown]
        rfl
      rw [hset] at hdiffer hne
      exact hne (hkeeps.independent _ modelPath hdiffer)
  · intro h
    exact ⟨h.hides, fun other otherPath hdiffer => h.independent hdiffer⟩

end WorkerConfig

namespace Sample

def workerFields : WorkerFields where
  modelId := "Qwen/Qwen3-Coder-30B-A3B-Instruct-FP8"
  modelRevision := none
  servedModelName := none
  persistentRoot := .parse "/runpod-volume"
  minFreeDiskGb := .ofInt 40
  host := "0.0.0.0"
  port := 8000
  maxModelLen := 16384
  gpuMemoryUtilization := .ofDecimal false 90 (-2)
  tensorParallelSize := 1
  autoTensorParallel := false
  extraArgs := ["--api-key", "--api-key", "sk-live"]
  readinessTimeoutSeconds := .ofInt 1800
  readinessPollSeconds := .ofInt 3
  downloadMaxAttempts := 5
  downloadBackoffSeconds := .ofInt 5
  lockTimeoutSeconds := .ofInt 7200
  hfHubDisableXet := none
  hfToken := ""
  vllmApiKey := ""

theorem workerFields_accepted : workerFields.refusal = none := by decide +kernel

def doubledKey : WorkerConfig := ⟨workerFields, workerFields_accepted⟩

end Sample

/-- The key after a doubled `--api-key` is in the logged command line. -/
theorem WorkerConfig.doubled_key_logged : ¬ Sample.doubledKey.KeepsKeys none ∧
    "sk-live" ∈ Sample.doubledKey.redactedArgv none := by
  have hlogged : (Sample.doubledKey.redactedArgv none)[17]? = some "sk-live" := by decide +kernel
  refine ⟨?_, List.mem_of_getElem? hlogged⟩
  intro h
  obtain ⟨mask, hmask, hmasked⟩ := h.hides.masked 17 "sk-live" (by decide +kernel)
    (Or.inl ⟨16, rfl, by decide +kernel⟩)
  rw [hlogged] at hmask
  cases hmask
  rcases hmasked with h | h
  · exact absurd h (by decide)
  · exact absurd h (by decide)

end AgenticPlatform
