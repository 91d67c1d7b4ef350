import AgenticPlatform.Documents
import AgenticPlatform.JsonText
import AgenticPlatform.Memo
import AgenticPlatform.Validation

/-!
# The cache of tool registries

`ProjectToolExecutorFactory` keeps the registry that it builds for a role and a toolchain under a
summary of the toolchain, in which the environment is one text. Two environments may have the same
text: then the second project is given the tools of the first. Environments without `=` in a name
and without a null character never do.
-/

namespace AgenticPlatform.Tooling

/-! ### Tools -/

/-- One command the project declared. -/
structure ToolchainCommandTool where
  name : String
  kind : ToolKind
  description : String
  command : List String
  workingSubdirectory : Option String
  environment : List (String × String)

/-- A tool that every project has, or a command of the project's toolchain. -/
inductive Tool where
  | common (name : String) (kind : ToolKind)
  | toolchain (tool : ToolchainCommandTool)

namespace Tool

def name : Tool → String
  | .common name _ => name
  | .toolchain tool => tool.name

def kind : Tool → ToolKind
  | .common _ kind => kind
  | .toolchain tool => tool.kind

end Tool

/-- A tool that `build_toolchain_tools` may build. -/
structure Specification where
  name : String
  kind : ToolKind
  command : Option String
  description : String

def specifications (toolchain : ToolchainConfig) : List Specification :=
  [⟨"build", .build, toolchain.buildCommand, "Compile the project."⟩,
    ⟨"run_tests", .test, toolchain.testCommand, "Run the project's test suite."⟩,
    ⟨"static_analysis", .staticAnalysis, toolchain.staticAnalysisCommand,
      "Run the project's static analysis."⟩,
    ⟨"install_dependencies", .build, toolchain.installCommand,
      "Prepare the project (dependency install, CMake configure)."⟩]

variable (split : String → Except String (List String))

/-- `ToolchainCommandTool.__init__`; `split` is `shlex.split`, and an error the message of a
    `ValueError`. -/
def commandTool (toolchain : ToolchainConfig) (specification : Specification) :
    Except String Tool :=
  match split (specification.command.getD "") with
  | .error message => .error message
  | .ok [] =>
    .error ("tool " ++ quoted specification.name ++ " was configured with an empty command")
  | .ok argv =>
    .ok (.toolchain {
      name := specification.name
      kind := specification.kind
      description := specification.description
      command := argv
      workingSubdirectory := toolchain.workingSubdirectory
      environment := toolchain.environment })

/-- Builds the tools one after the other, up to the first that raises. -/
def buildAll (toolchain : ToolchainConfig) : List Specification → Except String (List Tool)
  | [] => .ok []
  | specification :: rest =>
    match commandTool split toolchain specification with
    | .error message => .error message
    | .ok tool => (buildAll toolchain rest).map (tool :: ·)

/-- `build_toolchain_tools`. -/
def buildToolchainTools (toolchain : ToolchainConfig) : Except String (List Tool) :=
  buildAll split toolchain
    ((specifications toolchain).filter fun specification => commandGiven specification.command)

/-! ### Registries -/

structure ToolRegistry where
  role : AgentRole
  tools : List Tool

def mutatingKinds : List ToolKind := [.edit, .patch]

def readOnlyRoles : List AgentRole := [.planner, .reviewer]

/-- `ROLE_TOOLS`. -/
def roleTools : AgentRole → List String
  | .planner => ["search_repository", "read_file", "search_symbol", "git_status", "git_diff"]
  | .coder => ["search_repository", "read_file", "search_symbol", "edit_file", "apply_patch",
      "run_command", "build", "run_tests", "static_analysis", "install_dependencies", "git_diff",
      "git_status"]
  | .reviewer => ["search_repository", "read_file", "search_symbol", "git_diff", "git_status",
      "build", "run_tests", "static_analysis"]

/-- The first name that occurs a second time. -/
def duplicate (seen : List String) : List String → Option String
  | [] => none
  | name :: rest => if name ∈ seen then some name else duplicate (name :: seen) rest

/-- `StaticToolRegistry.__init__`. -/
def staticToolRegistry (role : AgentRole) (tools : List Tool) : Except String ToolRegistry :=
  match duplicate [] (tools.map Tool.name) with
  | some name => .error ("duplicate tool name " ++ quoted name)
  | none => .ok ⟨role, tools⟩

/-- `StaticToolRegistry.for_role`. -/
def forRole (role : AgentRole) (tools : List Tool) : Except String ToolRegistry :=
  let selected := tools.filter fun tool => tool.name ∈ roleTools role
  let offending := (selected.filter fun tool => tool.kind ∈ mutatingKinds).map Tool.name
  if role ∈ readOnlyRoles ∧ offending ≠ [] then
    .error ("role " ++ role.value ++ " is read-only but was given mutating tools: " ++
      ", ".intercalate (sortedTexts offending))
  else staticToolRegistry role selected

def commonTools : List Tool :=
  [.common "search_repository" .search, .common "search_symbol" .search, .common "read_file" .read,
    .common "edit_file" .edit, .common "apply_patch" .patch, .common "git_diff" .vcs,
    .common "git_status" .vcs, .common "run_command" .command]

def buildToolRegistry (role : AgentRole) (toolchain : ToolchainConfig) :
    Except String ToolRegistry :=
  match buildToolchainTools split toolchain with
  | .error message => .error message
  | .ok tools => forRole role (commonTools ++ tools)

/-! ### The cache -/

/-- The order of `sorted(environment.items())`. -/
def itemLe (left right : String × String) : Bool :=
  decide (left.1 < right.1 ∨ left.1 = right.1 ∧ left.2 ≤ right.2)

def null : Char := '\x00'

/-- `f"{k}={v}"`. -/
def flattenItem (item : String × String) : List Char := item.1.toList ++ '=' :: item.2.toList

def flatten (environment : List (String × String)) : String :=
  String.ofList ([null].intercalate ((environment.mergeSort itemLe).map flattenItem))

/-- `_fingerprint`. -/
def fingerprint (toolchain : ToolchainConfig) : List (Option String) :=
  [some toolchain.language, toolchain.buildCommand, toolchain.testCommand,
    toolchain.staticAnalysisCommand, toolchain.installCommand, toolchain.workingSubdirectory,
    some (flatten toolchain.environment)]

/-- A call of `registry`. -/
structure RegistryCall where
  project : Project
  role : AgentRole

namespace RegistryCall

def key (call : RegistryCall) : AgentRole × List (Option String) :=
  (call.role, fingerprint call.project.toolchain)

/-- `build_tool_registry`, called afresh. -/
def build (call : RegistryCall) : Except String ToolRegistry :=
  buildToolRegistry split call.role call.project.toolchain

end RegistryCall

abbrev Cache := Dict (AgentRole × List (Option String)) ToolRegistry

/-- `registry`, with the cache after it. -/
def registry (cache : Cache) (call : RegistryCall) : Except String ToolRegistry × Cache :=
  Memo.fetch RegistryCall.key (RegistryCall.build split) cache call

/-! ### What a registry offers -/

/-- A tool as its callers see it: its environment is a mapping. -/
inductive Offered where
  | common (name : String) (kind : ToolKind)
  | toolchain (name : String) (kind : ToolKind) (description : String) (command : List String)
      (workingSubdirectory : Option String) (environment : String → Option String)

def mapping (environment : List (String × String)) (name : String) : Option String :=
  List.lookup name environment

def Tool.offered : Tool → Offered
  | .common name kind => .common name kind
  | .toolchain tool => .toolchain tool.name tool.kind tool.description tool.command
      tool.workingSubdirectory (mapping tool.environment)

def ToolRegistry.offers (registry : ToolRegistry) : AgentRole × List Offered :=
  (registry.role, registry.tools.map Tool.offered)

/-- The same tools with the same commands, directory and environment, or the same error. -/
def SameOffer (answer other : Except String ToolRegistry) : Prop :=
  answer.map ToolRegistry.offers = other.map ToolRegistry.offers

/-- Every call is answered by what `build_tool_registry` offers for it. -/
def Transparent (calls : List RegistryCall) : Prop :=
  Runs.Along (fun cache call => (registry split cache call).2)
    (fun cache call => SameOffer (registry split cache call).1 (call.build split)) ∅ calls

/-- Two calls that are offered different tools have different keys. -/
def Separate (calls : List RegistryCall) : Prop :=
  calls.Pairwise fun call other =>
    ¬SameOffer (call.build split) (other.build split) → call.key ≠ other.key

/-- The role is offered a command of the toolchain. -/
def OffersCommand (call : RegistryCall) : Prop :=
  ∃ registry, call.build split = .ok registry ∧ ∃ tool, Tool.toolchain tool ∈ registry.tools

/-- For one role and with equal texts otherwise, two environments differ and have one text. -/
structure Collide (call other : RegistryCall) : Prop where
  role : call.role = other.role
  language : call.project.toolchain.language = other.project.toolchain.language
  build : call.project.toolchain.buildCommand = other.project.toolchain.buildCommand
  test : call.project.toolchain.testCommand = other.project.toolchain.testCommand
  staticAnalysis : call.project.toolchain.staticAnalysisCommand =
    other.project.toolchain.staticAnalysisCommand
  install : call.project.toolchain.installCommand = other.project.toolchain.installCommand
  directory : call.project.toolchain.workingSubdirectory =
    other.project.toolchain.workingSubdirectory
  flatten : flatten call.project.toolchain.environment = flatten other.project.toolchain.environment
  environment : mapping call.project.toolchain.environment ≠
    mapping other.project.toolchain.environment
  command : OffersCommand split call

/-! ### The environment of the tools -/

def Tool.withEnvironment (environment : List (String × String)) : Tool → Tool
  | .common name kind => .common name kind
  | .toolchain tool => .toolchain { tool with environment }

def ToolRegistry.withEnvironment (environment : List (String × String)) (registry : ToolRegistry) :
    ToolRegistry :=
  { registry with tools := registry.tools.map (Tool.withEnvironment environment) }

variable {split} {toolchain : ToolchainConfig} {environment other : List (String × String)}
  {tools : List Tool} {tool : Tool} {call another : RegistryCall} {calls : List RegistryCall}

@[simp] theorem name_withEnvironment : (tool.withEnvironment environment).name = tool.name := by
  rcases tool with - | - <;> rfl

@[simp] theorem kind_withEnvironment : (tool.withEnvironment environment).kind = tool.kind := by
  rcases tool with - | - <;> rfl

theorem commandTool_withEnvironment (specification : Specification) :
    commandTool split { toolchain with environment } specification =
      (commandTool split toolchain specification).map (Tool.withEnvironment environment) := by
  rw [commandTool, commandTool]
  rcases split (specification.command.getD "") with message | - | ⟨first, rest⟩ <;> rfl

theorem buildAll_withEnvironment (specifications : List Specification) :
    buildAll split { toolchain with environment } specifications =
      (buildAll split toolchain specifications).map (List.map (Tool.withEnvironment environment)) := by
  induction specifications with
  | nil => rfl
  | cons specification rest ih =>
    rw [buildAll, buildAll, commandTool_withEnvironment, ih]
    rcases commandTool split toolchain specification with message | tool
    · rfl
    · rcases buildAll split toolchain rest with message | tools <;> rfl

/-- Which tools a role is given does not depend on the environment. -/
theorem forRole_withEnvironment (role : AgentRole) (tools : List Tool) :
    forRole role (tools.map (Tool.withEnvironment environment)) =
      (forRole role tools).map (ToolRegistry.withEnvironment environment) := by
  have hselected : (tools.map (Tool.withEnvironment environment)).filter
      (fun tool => tool.name ∈ roleTools role) =
        (tools.filter fun tool => tool.name ∈ roleTools role).map
          (Tool.withEnvironment environment) := by
    rw [List.filter_map]
    simp [Function.comp_def]
  rw [forRole, forRole, hselected]
  generalize tools.filter (fun tool => tool.name ∈ roleTools role) = selected
  have hnames : (selected.map (Tool.withEnvironment environment)).map Tool.name =
      selected.map Tool.name := by
    simp
  have hoffending : ((selected.map (Tool.withEnvironment environment)).filter
      fun tool => tool.kind ∈ mutatingKinds).map Tool.name =
        (selected.filter fun tool => tool.kind ∈ mutatingKinds).map Tool.name := by
    rw [List.filter_map]
    simp [Function.comp_def]
  rw [hoffending, staticToolRegistry, staticToolRegistry, hnames]
  split
  · rfl
  · rcases duplicate [] (selected.map Tool.name) with - | name <;> rfl

theorem map_commonTools : commonTools.map (Tool.withEnvironment environment) = commonTools := rfl

/-- Another environment changes that of the tools, and nothing else. -/
theorem buildToolRegistry_withEnvironment (role : AgentRole) :
    buildToolRegistry split role { toolchain with environment } =
      (buildToolRegistry split role toolchain).map (ToolRegistry.withEnvironment environment) := by
  have hspecifications : specifications { toolchain with environment } = specifications toolchain :=
    rfl
  rw [buildToolRegistry, buildToolRegistry, buildToolchainTools, buildToolchainTools,
    hspecifications, buildAll_withEnvironment]
  rcases buildAll split toolchain ((specifications toolchain).filter
    fun specification => commandGiven specification.command) with message | tools
  · rfl
  · rw [← forRole_withEnvironment, List.map_append, map_commonTools]
    rfl

theorem offered_withEnvironment (tool : ToolchainCommandTool) :
    (Tool.toolchain tool).offered = ((Tool.toolchain tool).withEnvironment environment).offered ↔
      mapping tool.environment = mapping environment := by
  simp only [Tool.withEnvironment, Tool.offered, Offered.toolchain.injEq, true_and]

/-- The tools of a registry have the environment that it was built with. -/
theorem environment_of_mem {registry : ToolRegistry} (h : call.build split = .ok registry)
    {tool : ToolchainCommandTool} (htool : Tool.toolchain tool ∈ registry.tools) :
    tool.environment = call.project.toolchain.environment := by
  have hsame : call.build split =
      (call.build split).map (.withEnvironment call.project.toolchain.environment) :=
    buildToolRegistry_withEnvironment call.role
  rw [h] at hsame
  have htools : registry.tools =
      registry.tools.map (Tool.withEnvironment call.project.toolchain.environment) :=
    congrArg ToolRegistry.tools (Except.ok.inj hsame)
  rw [htools] at htool
  rcases List.mem_map.mp htool with ⟨common | other, -, hother⟩
  · cases hother
  · rw [← Tool.toolchain.inj hother]

/-- With another environment a registry offers the same exactly if it has no command of the
    toolchain, or the mappings are equal. -/
theorem sameOffer_withEnvironment {registry : ToolRegistry}
    (h : call.build split = .ok registry) (environment : List (String × String)) :
    SameOffer (.ok registry) (.ok (registry.withEnvironment environment)) ↔
      ((∃ tool, Tool.toolchain tool ∈ registry.tools) →
        mapping call.project.toolchain.environment = mapping environment) := by
  have hoffers : SameOffer (.ok registry) (.ok (registry.withEnvironment environment)) ↔
      ∀ tool ∈ registry.tools, tool.offered = (tool.withEnvironment environment).offered := by
    rw [← List.map_inj_left, ← Function.comp_def, ← List.map_map]
    simp only [SameOffer, Except.map, Except.ok.injEq, ToolRegistry.offers, Prod.mk.injEq,
      ToolRegistry.withEnvironment, true_and]
  rw [hoffers]
  constructor
  · rintro hall ⟨tool, htool⟩
    rw [← environment_of_mem h htool]
    exact (offered_withEnvironment tool).mp (hall _ htool)
  · intro hmapping tool htool
    rcases tool with - | tool
    · rfl
    · rw [offered_withEnvironment, environment_of_mem h htool]
      exact hmapping ⟨tool, htool⟩

/-! ### Keys -/

theorem Collide.key_eq (h : Collide split call another) : call.key = another.key := by
  simp only [RegistryCall.key, fingerprint, h.role, h.language, h.build, h.test, h.staticAnalysis,
    h.install, h.directory, h.flatten]

/-- Toolchains with one fingerprint differ in the environment at most. -/
theorem eq_of_fingerprint {left right : ToolchainConfig} (h : fingerprint left = fingerprint right) :
    right = { left with environment := right.environment } := by
  rcases left with ⟨language, build, test, analysis, install, directory, environment⟩
  rcases right with ⟨language', build', test', analysis', install', directory', environment'⟩
  simp only [fingerprint, List.cons.injEq, Option.some.injEq] at h
  rcases h with ⟨rfl, rfl, rfl, rfl, rfl, rfl, -⟩
  rfl

theorem build_of_key (h : call.key = another.key) : another.build split =
    (call.build split).map (.withEnvironment another.project.toolchain.environment) := by
  rcases Prod.mk.inj h with ⟨hrole, hfingerprint⟩
  rw [RegistryCall.build, eq_of_fingerprint hfingerprint, ← hrole, buildToolRegistry_withEnvironment]
  rfl

/-- Two calls are answered alike unless they collide. -/
theorem agree_iff : Memo.Agree RegistryCall.key (RegistryCall.build split) SameOffer call another ↔
    ¬Collide split call another := by
  by_cases hkey : call.key = another.key
  · rw [Memo.Agree, imp_iff_right hkey, build_of_key hkey]
    rcases hbuild : call.build split with message | registry
    · refine iff_of_true rfl fun hcollide => ?_
      rcases hcollide.command with ⟨registry, hregistry, -⟩
      rw [hbuild] at hregistry
      cases hregistry
    · refine (sameOffer_withEnvironment hbuild _).trans ⟨fun hsame hcollide => ?_, fun h hcommand => ?_⟩
      · rcases hcollide.command with ⟨registry', hregistry, htool⟩
        rw [hbuild] at hregistry
        rw [← Except.ok.inj hregistry] at htool
        exact hcollide.environment (hsame htool)
      · by_contra henvironment
        simp only [RegistryCall.key, fingerprint, Prod.mk.injEq, List.cons.injEq,
          Option.some.injEq] at hkey
        rcases hkey with ⟨hrole, hlanguage, hcommand', htest, hanalysis, hinstall, hdirectory,
          hflatten, -⟩
        exact h ⟨hrole, hlanguage, hcommand', htest, hanalysis, hinstall, hdirectory, hflatten,
          henvironment, registry, hbuild, hcommand⟩
  · exact iff_of_true (fun h => absurd h hkey) fun h => hkey h.key_eq

theorem sameOffer_equivalence : Equivalence SameOffer :=
  ⟨fun _ => rfl, Eq.symm, Eq.trans⟩

/-- What raises depends on the key alone. -/
theorem build_raises (message : String) (hkey : call.key = another.key)
    (h : call.build split = .error message) : another.build split = .error message := by
  rw [build_of_key hkey, h]
  rfl

/-- The answers are those of a factory without a cache if and only if no two calls collide. -/
theorem answers_iff (calls : List RegistryCall) :
    Transparent split calls ↔ calls.Pairwise fun call other => ¬Collide split call other := by
  refine (Memo.transparent_iff_pairwise sameOffer_equivalence
    (fun call other message => build_raises message) calls).trans ?_
  exact ⟨fun h => h.imp agree_iff.mp, fun h => h.imp agree_iff.mpr⟩

theorem separate_iff (calls : List RegistryCall) :
    Separate split calls ↔ calls.Pairwise fun call other => ¬Collide split call other := by
  refine ⟨fun h => h.imp fun hcalls => agree_iff.mp fun hkey => ?_, fun h => h.imp fun hcalls hsame hkey =>
    hsame (agree_iff.mpr hcalls hkey)⟩
  by_contra hsame
  exact hcalls hsame hkey

/-! ### Plain environments -/

/-- No name holds an equals sign, and nothing a null character; names are distinct. -/
structure PlainEnvironment (environment : List (String × String)) : Prop where
  names : (environment.map Prod.fst).Nodup
  equals : ∀ item ∈ environment, '=' ∉ item.1.toList
  null : ∀ item ∈ environment, null ∉ flattenItem item

theorem flattenItem_ne_nil (item : String × String) : flattenItem item ≠ [] :=
  List.append_ne_nil_of_right_ne_nil _ (List.cons_ne_nil _ _)

/-- The name of an item is what stands before the first equals sign. -/
theorem flattenItem_inj {item item' : String × String} (h : '=' ∉ item.1.toList)
    (h' : '=' ∉ item'.1.toList) (hsame : flattenItem item = flattenItem item') : item = item' := by
  have hsplit := congrArg (List.splitOn '=') hsame
  rw [flattenItem, flattenItem, List.splitOn_append_cons_self_of_not_mem h,
    List.splitOn_append_cons_self_of_not_mem h', List.cons.injEq] at hsplit
  rw [flattenItem, flattenItem, hsplit.1] at hsame
  have hvalue := List.append_cancel_left hsame
  rw [List.cons.injEq] at hvalue
  exact Prod.ext (String.toList_inj.mp hsplit.1) (String.toList_inj.mp hvalue.2)

theorem map_flattenItem_inj (h : ∀ item ∈ environment, '=' ∉ item.1.toList)
    (h' : ∀ item ∈ other, '=' ∉ item.1.toList)
    (hsame : environment.map flattenItem = other.map flattenItem) : environment = other := by
  induction environment generalizing other with
  | nil => exact (List.map_eq_nil_iff.mp hsame.symm).symm
  | cons item rest ih =>
    rcases other with - | ⟨item', rest'⟩
    · cases hsame
    · rw [List.map_cons, List.map_cons, List.cons.injEq] at hsame
      rw [List.forall_mem_cons] at h h'
      rw [flattenItem_inj h.1 h'.1 hsame.1, ih h.2 h'.2 hsame.2]

/-- The parts between null characters. -/
theorem intercalate_inj {parts parts' : List (List Char)} (h : ∀ part ∈ parts, null ∉ part)
    (h' : ∀ part ∈ parts', null ∉ part) (hne : ∀ part ∈ parts, part ≠ [])
    (hne' : ∀ part ∈ parts', part ≠ [])
    (hsame : [null].intercalate parts = [null].intercalate parts') : parts = parts' := by
  have hempty : ∀ parts : List (List Char), (∀ part ∈ parts, part ≠ []) →
      [null].intercalate parts = [] → parts = [] := by
    rintro (- | ⟨part, - | ⟨other, rest⟩⟩) hparts hnil
    · rfl
    · exact absurd hnil (by rw [List.intercalate_singleton]; exact hparts part List.mem_cons_self)
    · rw [List.intercalate_cons_cons] at hnil
      simp at hnil
  rcases eq_or_ne parts [] with rfl | hparts
  · exact (hempty parts' hne' hsame.symm).symm
  · rcases eq_or_ne parts' [] with rfl | hparts'
    · exact hempty parts hne hsame
    · rw [← List.splitOn_intercalate null h hparts, hsame, List.splitOn_intercalate null h' hparts']

/-- Plain environments with one text are the same mapping. -/
theorem PlainEnvironment.mapping_eq (h : PlainEnvironment environment) (h' : PlainEnvironment other)
    (hsame : flatten environment = flatten other) : mapping environment = mapping other := by
  have hsorted (items : List (String × String)) : (items.mergeSort itemLe).Perm items :=
    List.mergeSort_perm items itemLe
  have hlists : environment.mergeSort itemLe = other.mergeSort itemLe := by
    refine map_flattenItem_inj (fun item hitem => h.equals item ((hsorted _).mem_iff.mp hitem))
      (fun item hitem => h'.equals item ((hsorted _).mem_iff.mp hitem)) ?_
    refine intercalate_inj ?_ ?_ ?_ ?_ (String.ofList_injective hsame)
    · intro part hpart
      rcases List.mem_map.mp hpart with ⟨item, hitem, rfl⟩
      exact h.null item ((hsorted _).mem_iff.mp hitem)
    · intro part hpart
      rcases List.mem_map.mp hpart with ⟨item, hitem, rfl⟩
      exact h'.null item ((hsorted _).mem_iff.mp hitem)
    · intro part hpart
      rcases List.mem_map.mp hpart with ⟨item, -, rfl⟩
      exact flattenItem_ne_nil item
    · intro part hpart
      rcases List.mem_map.mp hpart with ⟨item, -, rfl⟩
      exact flattenItem_ne_nil item
  have hperm : environment.Perm other := (hsorted environment).symm.trans (hlists ▸ hsorted other)
  funext name
  exact lookup_perm hperm h.names name

/-- With plain environments no call is given the tools of another project. -/
theorem transparent_of_plain
    (h : ∀ call ∈ calls, PlainEnvironment call.project.toolchain.environment) :
    Transparent split calls := by
  rw [answers_iff]
  refine List.pairwise_of_forall_mem_list fun call hcall another hanother hcollide => ?_
  exact hcollide.environment ((h call hcall).mapping_eq (h another hanother) hcollide.flatten)

/-! ### Transparency -/

/-- A registry is as `build_tool_registry` would build it, and calls that are offered different
    tools have different keys, if and only if no two calls collide. -/
theorem transparent_iff (split : String → Except String (List String))
    (calls : List RegistryCall) : Transparent split calls ∧ Separate split calls ↔
      calls.Pairwise fun call other => ¬Collide split call other := by
  rw [answers_iff, separate_iff, and_self_iff]

/-- A coder's call for a project that is built by `make`. -/
def makeCall (environment : List (String × String)) : RegistryCall where
  project := {
    id := ⟨1⟩
    name := "project"
    repositoryUrl := none
    defaultBranch := "main"
    createdAt := 0
    toolchain := { buildCommand := some "make", environment }
    localPath := none }
  role := .coder

/-- Its only toolchain command is the build. -/
theorem build_makeCall (environment : List (String × String)) :
    (makeCall environment).build (fun command => .ok [command]) = .ok ⟨.coder, commonTools ++
      [.toolchain ⟨"build", .build, "Compile the project.", ["make"], none, environment⟩]⟩ := rfl

theorem flatten_singleton (item : String × String) :
    flatten [item] = String.ofList (flattenItem item) := by
  rw [flatten, List.mergeSort_singleton, List.map_singleton, List.intercalate_singleton]

/-- `A=B` set to `C` and `A` set to `B=C`: the second project is built with the environment of the
    first. -/
theorem not_transparent : ¬Transparent (fun command => .ok [command])
    [makeCall [("A=B", "C")], makeCall [("A", "B=C")]] := by
  rw [answers_iff, List.pairwise_pair, not_not]
  refine ⟨rfl, rfl, rfl, rfl, rfl, rfl, rfl, ?_, ?_, _, build_makeCall _, _,
    List.mem_append_right _ List.mem_cons_self⟩
  · have hitems : flattenItem ("A=B", "C") = flattenItem ("A", "B=C") := by decide
    exact (flatten_singleton _).trans ((congrArg String.ofList hitems).trans
      (flatten_singleton _).symm)
  · intro hsame
    have hvalue := congrFun hsame "A"
    revert hvalue
    decide

end AgenticPlatform.Tooling
