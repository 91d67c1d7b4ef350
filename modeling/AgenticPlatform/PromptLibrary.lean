import AgenticPlatform.PromptTemplates
import AgenticPlatform.Ranking
import AgenticPlatform.Runs
import Mathlib.Data.List.TakeWhile
import Mathlib.Data.Prod.Lex

/-!
# The prompt library

Templates are read from a directory that anybody may change. A template is kept by its role and
version when it is first read, so a version means one text for the whole life of the library.
-/

namespace AgenticPlatform.Prompts

/-- The prompt directory, as far as it is looked at. -/
structure PromptRoot where
  /-- The names in the directory of a role, if it is one. -/
  listing : AgentRole → Option (List String)
  /-- What reading `<role>/<version>.md` gives, if that is a file. -/
  file : AgentRole → String → Option (Except String String)

/-! ### Versions -/

section Versions

-- the value of a decimal digit, in any script
variable (digit : Char → Option Nat)

/-- `_VERSION_RE.match`, and the number; a line feed may stand at the end. -/
def versionNumber (version : String) : Option Nat :=
  match version.toList with
  | [] => none
  | letter :: text =>
    let behind := text.dropWhile fun c => (digit c).isSome
    let digits := (text.takeWhile fun c => (digit c).isSome).filterMap digit
    if letter = 'v' ∧ digits ≠ [] ∧ (behind = [] ∨ behind = ['\n']) then
      some (digits.foldl (fun number next => 10 * number + next) 0)
    else none

/-- Sort numerically, so that `v10` follows `v9` instead of preceding it. -/
def versionKey (version : String) : Int ×ₗ String :=
  match versionNumber digit version with
  | some number => toLex (number, "")
  | none => toLex (-1, version)

/-- The stem of a name that `*.md` matches; a name may be nothing but `.md`. -/
def stemOf (name : String) : Option String :=
  if ".md".toList <:+ name.toList then
    some (if name = ".md" then name else String.ofList (name.toList.take (name.toList.length - 3)))
  else none

def availableVersions (root : PromptRoot) (role : AgentRole) : List String :=
  match root.listing role with
  | none => []
  | some names => Ranking.ranked (versionKey digit) (names.filterMap stemOf)

def latestVersion (root : PromptRoot) (role : AgentRole) : Except PromptError String :=
  match (availableVersions digit root role).getLast? with
  | none => .error (.notFound role none)
  | some version => .ok version

variable {digit} {root : PromptRoot} {role : AgentRole} {version other : String} {number : Nat}

theorem mem_availableVersions : version ∈ availableVersions digit root role ↔
    ∃ names, root.listing role = some names ∧ ∃ name ∈ names, stemOf name = some version := by
  rw [availableVersions]
  rcases root.listing role with - | names
  · exact iff_of_false List.not_mem_nil nofun
  · dsimp only
    rw [(Ranking.ranked_perm _ _).mem_iff, List.mem_filterMap]
    exact ⟨fun h => ⟨names, rfl, h⟩, fun ⟨_, hnames, h⟩ => Option.some.inj hnames ▸ h⟩

theorem key_le_latest (h : latestVersion digit root role = .ok version)
    (hother : other ∈ availableVersions digit root role) :
    versionKey digit other ≤ versionKey digit version := by
  rw [latestVersion] at h
  split at h
  · cases h
  · rename_i last hlast
    cases h
    rw [availableVersions] at hlast hother
    rcases hlisting : root.listing role with - | names
    · rw [hlisting] at hother
      cases hother
    · rw [hlisting] at hlast hother
      exact Ranking.ranked_last_ge hlast ((Ranking.ranked_perm _ _).mem_iff.mp hother)

/-- While a numbered version is on disk, the newest is numbered, and no number is greater. -/
theorem latest_numbered (h : latestVersion digit root role = .ok version)
    (hother : other ∈ availableVersions digit root role) (hnumber : versionNumber digit other = some number) :
    ∃ newest, versionNumber digit version = some newest ∧ number ≤ newest := by
  have hle := key_le_latest h hother
  rw [versionKey, versionKey, hnumber] at hle
  rcases hversion : versionNumber digit version with - | newest
  · rw [hversion] at hle
    rcases Prod.Lex.toLex_le_toLex.mp hle with hlt | ⟨heq, -⟩
    · have hneg : (number : Int) < -1 := hlt
      omega
    · have hneg : (number : Int) = -1 := heq
      omega
  · rw [hversion] at hle
    refine ⟨newest, rfl, ?_⟩
    rcases Prod.Lex.toLex_le_toLex.mp hle with hlt | ⟨heq, -⟩
    · have hless : (number : Int) < newest := hlt
      omega
    · have hsame : (number : Int) = newest := heq
      omega

/-- A version that is written in plain digits. -/
theorem versionNumber_plain (hdigit : ∀ c, c.isDigit = true → digit c = some (c.toNat - 48)) (number : Nat) :
    versionNumber digit ("v" ++ String.ofList (Nat.toDigits 10 number)) = some number := by
  have hall : ∀ c ∈ Nat.toDigits 10 number, digit c = some (c.toNat - 48) :=
    fun c hc => hdigit c (Nat.isDigit_of_mem_toDigits (by decide) (by decide) hc)
  have hsome : ∀ c ∈ Nat.toDigits 10 number, (digit c).isSome = true :=
    fun c hc => Option.isSome_iff_exists.mpr ⟨_, hall c hc⟩
  have htake := List.takeWhile_eq_self_iff.mpr hsome
  have hdrop := List.dropWhile_eq_nil_iff.mpr hsome
  have hdigits : (Nat.toDigits 10 number).filterMap digit =
      (Nat.toDigits 10 number).map fun c => c.toNat - 48 := by
    rw [← List.filterMap_eq_map, List.filterMap_congr hall]
    rfl
  have htext : ("v" ++ String.ofList (Nat.toDigits 10 number)).toList =
      'v' :: Nat.toDigits 10 number := by
    simp only [String.toList_append, String.toList_ofList]
    rfl
  rw [versionNumber, htext]
  dsimp only
  have hne : (Nat.toDigits 10 number).map (fun c => c.toNat - 48) ≠ [] :=
    fun hnil => Nat.toDigits_ne_nil (List.map_eq_nil_iff.mp hnil)
  rw [hdrop, htake, hdigits, if_pos ⟨rfl, hne, .inl rfl⟩, List.foldl_map]
  exact congrArg some Nat.ofDigitChars_ten_toDigits

end Versions

/-! ### The library -/

structure PromptLibrary where
  defaultVersions : Dict AgentRole String
  cache : Dict (AgentRole × String) PromptTemplate
  /-- A template is kept by its own role and version. -/
  cache_key : ∀ key template, cache.lookup key = some template →
    (template.role, template.version) = key

namespace PromptLibrary

def create (defaultVersions : Dict AgentRole String) : PromptLibrary where
  defaultVersions := defaultVersions
  cache := ∅
  cache_key _ _ h := nomatch h

def keep (library : PromptLibrary) (template : PromptTemplate) : PromptLibrary where
  defaultVersions := library.defaultVersions
  cache := library.cache.insert (template.role, template.version) template
  cache_key key other h := by
    rw [Dict.lookup_insert_ite] at h
    split at h
    · rename_i hkey
      cases h
      exact hkey.symm
    · exact library.cache_key key other h

variable (digit : Char → Option Nat) (library : PromptLibrary) (root : PromptRoot)

/-- The pinned version when one is configured, else the newest on disk. -/
def defaultVersion (role : AgentRole) : Except PromptError String :=
  match library.defaultVersions.lookup role with
  | some version => if version ≠ "" then .ok version else latestVersion digit root role
  | none => latestVersion digit root role

/-- `version or self.default_version(role)`. -/
def resolve (role : AgentRole) (version : Option String) : Except PromptError String :=
  match version with
  | some version =>
    if version ≠ "" then .ok version else library.defaultVersion digit root role
  | none => library.defaultVersion digit root role

/-- What is read where nothing is kept. -/
def load (role : AgentRole) (resolved : String) : Except PromptError PromptTemplate :=
  match root.file role resolved with
  | none => .error (.notFound role (some resolved))
  | some (.error raised) => .error (.unreadable raised)
  | some (.ok text) => .ok (.fromText role resolved text)

def get (role : AgentRole) (version : Option String) :
    Except PromptError PromptTemplate × PromptLibrary :=
  match library.resolve digit root role version with
  | .error error => (.error error, library)
  | .ok resolved =>
    match library.cache.lookup (role, resolved) with
    | some cached => (.ok cached, library)
    | none =>
      match load root role resolved with
      | .error error => (.error error, library)
      | .ok template => (.ok template, library.keep template)

variable {digit library root} {role : AgentRole} {version : Option String} {resolved : String}
  {template : PromptTemplate} {error : PromptError}

theorem lookup_keep {key : AgentRole × String} : (library.keep template).cache.lookup key =
    if key = (template.role, template.version) then some template else library.cache.lookup key :=
  Dict.lookup_insert_ite ..

theorem load_ok (h : load root role resolved = .ok template) :
    ∃ text, root.file role resolved = some (.ok text) ∧ template = .fromText role resolved text := by
  rw [load] at h
  split at h
  · cases h
  · cases h
  · rename_i text hfile
    cases h
    exact ⟨text, hfile, rfl⟩

/-- What a library answers, and what it keeps then. -/
theorem get_cases (digit : Char → Option Nat) (library : PromptLibrary) (root : PromptRoot)
    (role : AgentRole) (version : Option String) :
    (∃ template, library.cache.lookup (role, template.version) = some template ∧
      library.resolve digit root role version = .ok template.version ∧
      library.get digit root role version = (.ok template, library)) ∨
    (∃ template, library.cache.lookup (role, template.version) = none ∧
      library.resolve digit root role version = .ok template.version ∧
      load root role template.version = .ok template ∧
      library.get digit root role version = (.ok template, library.keep template)) ∨
    ∃ error, library.get digit root role version = (.error error, library) ∧
      ∀ resolved, library.resolve digit root role version = .ok resolved →
        library.cache.lookup (role, resolved) = none ∧ load root role resolved = .error error := by
  rw [get]
  rcases hresolve : library.resolve digit root role version with error | resolved
  · exact .inr (.inr ⟨error, rfl, nofun⟩)
  · rcases hcache : library.cache.lookup (role, resolved) with - | cached
    · rcases hload : load root role resolved with error | template
      · refine .inr (.inr ⟨error, by simp only [hcache, hload], ?_⟩)
        intro other hother
        cases hother
        exact ⟨hcache, hload⟩
      · rcases load_ok hload with ⟨text, -, rfl⟩
        exact .inr (.inl ⟨.fromText role resolved text, hcache, rfl, hload,
          by simp only [hcache, hload]⟩)
    · have hkey := library.cache_key _ _ hcache
      cases hkey
      exact .inl ⟨cached, hcache, rfl, by simp only [hcache]⟩

end PromptLibrary

/-! ### A library in use -/

structure PromptWorld where
  library : PromptLibrary
  root : PromptRoot

inductive PromptMove where
  | change (root : PromptRoot)
  | get (role : AgentRole) (version : Option String)

namespace PromptWorld

variable (digit : Char → Option Nat)

def answer (world : PromptWorld) (role : AgentRole) (version : Option String) :
    Except PromptError PromptTemplate :=
  (world.library.get digit world.root role version).1

def step (world : PromptWorld) : PromptMove → PromptWorld
  | .change root => { world with root := root }
  | .get role version => { world with library := (world.library.get digit world.root role version).2 }

variable {digit} {world : PromptWorld} {role : AgentRole} {version : Option String}
  {template : PromptTemplate}

/-- What is kept stays as it is. -/
theorem cache_step {key : AgentRole × String} (move : PromptMove)
    (h : world.library.cache.lookup key = some template) :
    (world.step digit move).library.cache.lookup key = some template := by
  cases move with
  | change root => exact h
  | get role version =>
    rcases world.library.get_cases digit world.root role version with
      ⟨kept, -, -, hget⟩ | ⟨read, hnone, -, hload, hget⟩ | ⟨error, hget, -⟩
    · rw [step, hget]
      exact h
    · rw [step, hget, PromptLibrary.lookup_keep, if_neg]
      · exact h
      · rintro rfl
        rcases PromptLibrary.load_ok hload with ⟨text, -, hread⟩
        have hrole : read.role = role := congrArg PromptTemplate.role hread
        rw [hrole, hnone] at h
        cases h
    · rw [step, hget]
      exact h

theorem cache_after {key : AgentRole × String} (moves : List PromptMove)
    (h : world.library.cache.lookup key = some template) :
    (Runs.after (step digit) world moves).library.cache.lookup key = some template :=
  Runs.after_invariant (I := fun world : PromptWorld => world.library.cache.lookup key = some template)
    h fun _ move => cache_step move

/-- What was answered is kept. -/
theorem kept_of_answer (h : world.answer digit role version = .ok template) :
    template.role = role ∧
      world.library.resolve digit world.root role version = .ok template.version ∧
      (world.step digit (.get role version)).library.cache.lookup (role, template.version) =
        some template := by
  rw [answer] at h
  rcases world.library.get_cases digit world.root role version with
    ⟨kept, hkept, hresolve, hget⟩ | ⟨read, -, hresolve, hload, hget⟩ | ⟨error, hget, -⟩
  · rw [hget] at h
    cases h
    refine ⟨congrArg Prod.fst (world.library.cache_key _ _ hkept), hresolve, ?_⟩
    rw [step, hget]
    exact hkept
  · rw [hget] at h
    cases h
    rcases PromptLibrary.load_ok hload with ⟨text, -, hread⟩
    have hrole : template.role = role := congrArg PromptTemplate.role hread
    refine ⟨hrole, hresolve, ?_⟩
    rw [step, hget, PromptLibrary.lookup_keep, hrole, if_pos rfl]
  · rw [hget] at h
    cases h

theorem answer_of_kept (hkept : world.library.cache.lookup (role, template.version) = some template)
    (hresolve : world.library.resolve digit world.root role version = .ok template.version) :
    world.answer digit role version = .ok template := by
  rw [answer, PromptLibrary.get, hresolve]
  dsimp only
  rw [hkept]

/-! ### Every run -/

/-- Before anything was read. -/
def opened (defaultVersions : Dict AgentRole String) (root : PromptRoot) : PromptWorld :=
  ⟨.create defaultVersions, root⟩

variable {defaultVersions : Dict AgentRole String} {root : PromptRoot} {moves : List PromptMove}
  {key : AgentRole × String}

/-- After some of the moves the template was the text of the file. -/
def Shipped (digit : Char → Option Nat) (start : PromptWorld) (moves : List PromptMove)
    (template : PromptTemplate) : Prop :=
  ∃ earlier, earlier <+: moves ∧ (Runs.after (step digit) start earlier).root.file template.role
    template.version = some (.ok template.body)

theorem Shipped.append {start : PromptWorld} (h : Shipped digit start moves template)
    (later : List PromptMove) : Shipped digit start (moves ++ later) template := by
  rcases h with ⟨earlier, hprefix, hfile⟩
  exact ⟨earlier, hprefix.trans (List.prefix_append ..), hfile⟩

theorem shipped_of_load {resolved : String} {start : PromptWorld}
    (h : PromptLibrary.load (Runs.after (step digit) start moves).root role resolved = .ok template) :
    Shipped digit start moves template := by
  rcases PromptLibrary.load_ok h with ⟨text, hfile, rfl⟩
  exact ⟨moves, List.prefix_rfl, hfile⟩

/-- What is kept was on disk. -/
theorem shipped_of_kept (moves : List PromptMove)
    (h : (Runs.after (step digit) (opened defaultVersions root) moves).library.cache.lookup key =
      some template) : Shipped digit (opened defaultVersions root) moves template := by
  induction moves using List.reverseRecOn with
  | nil => cases h
  | append_singleton moves move ih =>
    rw [Runs.after_append, Runs.after_cons, Runs.after_nil] at h
    cases move with
    | change root => exact (ih h).append _
    | get role version =>
      rcases (Runs.after (step digit) (opened defaultVersions root) moves).library.get_cases digit
          (Runs.after (step digit) (opened defaultVersions root) moves).root role version with
        ⟨kept, -, -, hget⟩ | ⟨read, -, -, hload, hget⟩ | ⟨error, hget, -⟩
      · rw [step, hget] at h
        exact (ih h).append _
      · rw [step, hget, PromptLibrary.lookup_keep] at h
        split at h
        · cases h
          exact (shipped_of_load hload).append _
        · exact (ih h).append _
      · rw [step, hget] at h
        exact (ih h).append _

theorem shipped_of_answer
    (h : (Runs.after (step digit) (opened defaultVersions root) moves).answer digit role version =
      .ok template) : Shipped digit (opened defaultVersions root) moves template := by
  rw [answer] at h
  rcases (Runs.after (step digit) (opened defaultVersions root) moves).library.get_cases digit
      (Runs.after (step digit) (opened defaultVersions root) moves).root role version with
    ⟨kept, hkept, -, hget⟩ | ⟨read, -, -, hload, hget⟩ | ⟨error, hget, -⟩
  · rw [hget] at h
    cases h
    exact shipped_of_kept moves hkept
  · rw [hget] at h
    cases h
    exact shipped_of_load hload
  · rw [hget] at h
    cases h

/-- However the directory is changed while the library is in use: a template that was answered was
    the text of its file at some moment before, and from then on it is the answer to whoever asks
    for that version of it, or for a default that is that version. -/
theorem version_fixed (digit : Char → Option Nat) (defaultVersions : Dict AgentRole String)
    (root : PromptRoot) (before between : List PromptMove) (role : AgentRole)
    (version again : Option String) (template : PromptTemplate)
    (h : (Runs.after (step digit) (opened defaultVersions root) before).answer digit role version =
      .ok template)
    (later : PromptWorld) (hlater : later = Runs.after (step digit) (opened defaultVersions root)
      (before ++ .get role version :: between))
    (hagain : later.library.resolve digit later.root role again = .ok template.version) :
    later.answer digit role again = .ok template ∧ template.role = role ∧
      Shipped digit (opened defaultVersions root) before template := by
  rcases kept_of_answer h with ⟨hrole, -, hkept⟩
  refine ⟨?_, hrole, shipped_of_answer h⟩
  subst hlater
  rw [Runs.after_append, Runs.after_cons] at hagain ⊢
  exact answer_of_kept (cache_after between hkept) hagain

def plainDigit (c : Char) : Option Nat := if c.isDigit then some (c.toNat - 48) else none

/-- A directory with one planner template. -/
def oneTemplate (text : String) : PromptRoot where
  listing role := if role = .planner then some ["v1.md"] else none
  file role version := if role = .planner ∧ version = "v1" then some (.ok text) else none

theorem version_fixed_sample :
    (Runs.after (step plainDigit) (opened ∅ (oneTemplate "original"))
      [.get .planner none, .change (oneTemplate "edited on disk")]).answer plainDigit .planner
        (some "v1") = .ok (.fromText .planner "v1" "original") :=
  (version_fixed plainDigit ∅ (oneTemplate "original") [] [.change (oneTemplate "edited on disk")]
    .planner none (some "v1") (.fromText .planner "v1" "original") (by decide +kernel) _ rfl
    (by decide +kernel)).1

end PromptWorld

end AgenticPlatform.Prompts
