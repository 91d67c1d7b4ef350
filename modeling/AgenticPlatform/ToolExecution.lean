import AgenticPlatform.ToolCache
import AgenticPlatform.WorkspaceTools

/-!
# Executing tools

An agent names the tools it wants to run. The executor runs those that the registry of its role
holds, one after the other, and stops at the first that cannot run. What a tool does to the world is
left open, so what is shown of a run holds for whatever tools there are.
-/

namespace AgenticPlatform.Tooling

/-- A `ToolExecutionError` with its details, or another exception. -/
inductive ToolFault where
  | toolExecution (tool message : String) (details : Mapping)
  | other (text : String)

/-- `exc.details["completed"] = count`, for a `ToolExecutionError`. -/
def ToolFault.completed (count : Nat) : ToolFault → ToolFault
  | .toolExecution tool message details =>
    .toolExecution tool message
      (details.filter (fun entry => entry.1 ≠ "completed") ++ [("completed", .int count)])
  | .other text => .other text

/-- A request to run one tool; the tool alone reads the arguments. -/
structure ToolInvocation (A : Type) where
  tool : String
  arguments : A

/-- A tool as the executor sees it; it may advertise no kind. -/
structure ExecutableTool (A R W : Type) where
  name : String
  kind : Option ToolKind
  execute : A → WorkspaceHandle → W → Except ToolFault R × W

variable {A R W : Type}

/-- `_kind_of(tool) in MUTATING_KINDS`. -/
def ExecutableTool.mutates (tool : ExecutableTool A R W) : Bool :=
  tool.kind.any fun kind => kind ∈ mutatingKinds

/-! ### Registries -/

theorem duplicate_eq_none {names seen : List String} :
    duplicate seen names = none ↔ names.Nodup ∧ ∀ name ∈ names, name ∉ seen := by
  induction names generalizing seen with
  | nil => exact iff_of_true rfl ⟨List.nodup_nil, nofun⟩
  | cons name rest ih =>
    rw [duplicate]
    split
    · rename_i hseen
      exact iff_of_false nofun fun h => h.2 name List.mem_cons_self hseen
    · rename_i hnew
      rw [ih, List.nodup_cons, List.forall_mem_cons]
      constructor
      · rintro ⟨hrest, hall⟩
        refine ⟨⟨fun hmem => hall name hmem List.mem_cons_self, hrest⟩, hnew, ?_⟩
        intro other hother hseen
        exact hall other hother (List.mem_cons_of_mem _ hseen)
      · rintro ⟨⟨hfresh, hrest⟩, -, hall⟩
        refine ⟨hrest, fun other hother hseen => ?_⟩
        rcases List.mem_cons.mp hseen with rfl | hlater
        · exact hfresh hother
        · exact hall other hother hlater

/-- `StaticToolRegistry`: no two tools have one name. -/
structure StaticToolRegistry (A R W : Type) where
  role : Option AgentRole
  tools : List (ExecutableTool A R W)
  names_nodup : (tools.map ExecutableTool.name).Nodup

namespace StaticToolRegistry

def create (role : Option AgentRole) (tools : List (ExecutableTool A R W)) :
    Except String (StaticToolRegistry A R W) :=
  match h : duplicate [] (tools.map ExecutableTool.name) with
  | some name => .error ("duplicate tool name " ++ quoted name)
  | none => .ok ⟨role, tools, (duplicate_eq_none.mp h).1⟩

def get (registry : StaticToolRegistry A R W) (name : String) : Option (ExecutableTool A R W) :=
  registry.tools.find? fun tool => tool.name = name

def names (registry : StaticToolRegistry A R W) : List String :=
  sortedTexts (registry.tools.map ExecutableTool.name)

/-- `for_role`: what the role is allowed, unless that would let a read-only role change files. -/
def forRole (role : AgentRole) (tools : List (ExecutableTool A R W)) :
    Except String (StaticToolRegistry A R W) :=
  let selected := tools.filter fun tool => tool.name ∈ roleTools role
  let offending := (selected.filter ExecutableTool.mutates).map ExecutableTool.name
  if role ∈ readOnlyRoles ∧ offending ≠ [] then
    .error ("role " ++ role.value ++ " is read-only but was given mutating tools: " ++
      ", ".intercalate (sortedTexts offending))
  else create (some role) selected

variable {registry : StaticToolRegistry A R W} {role : AgentRole} {name : String}
  {tools front back : List (ExecutableTool A R W)} {tool : ExecutableTool A R W}

theorem tools_of_create {given : Option AgentRole} (h : create given tools = .ok registry) :
    registry.tools = tools := by
  rw [create] at h
  split at h
  · cases h
  · cases h
    rfl

theorem tools_of_forRole (h : forRole role tools = .ok registry) :
    registry.tools = tools.filter fun tool => tool.name ∈ roleTools role := by
  rw [forRole] at h
  split at h
  · cases h
  · exact tools_of_create h

theorem mem_of_forRole (h : forRole role tools = .ok registry) (htool : tool ∈ registry.tools) :
    tool ∈ tools ∧ tool.name ∈ roleTools role := by
  rw [tools_of_forRole h, List.mem_filter, decide_eq_true_eq] at htool
  exact htool

/-- A read-only role holds no tool that changes files. -/
theorem not_mutates_of_forRole (h : forRole role tools = .ok registry) (hrole : role ∈ readOnlyRoles)
    (htool : tool ∈ registry.tools) : tool.mutates = false := by
  by_contra hmutates
  rw [tools_of_forRole h] at htool
  rw [forRole] at h
  rw [if_pos] at h
  · cases h
  · refine ⟨hrole, fun hnone => ?_⟩
    have hmem := List.mem_map_of_mem (f := ExecutableTool.name)
      (List.mem_filter.mpr ⟨htool, Bool.eq_true_of_not_eq_false hmutates⟩)
    rw [hnone] at hmem
    cases hmem

/-- Where some tools have every name that the role is allowed, no tool behind them is added. -/
theorem tools_of_complete (hnames : ∀ name ∈ roleTools role, ∃ tool ∈ front, tool.name = name)
    (h : forRole role (front ++ back) = .ok registry) :
    registry.tools = front.filter fun tool => tool.name ∈ roleTools role := by
  have htools := tools_of_forRole h
  rw [List.filter_append] at htools
  have hnodup := registry.names_nodup
  rw [htools, List.map_append] at hnodup
  have hnone : back.filter (fun tool => tool.name ∈ roleTools role) = [] := by
    rw [List.eq_nil_iff_forall_not_mem]
    intro later hlater
    have hallowed := of_decide_eq_true (List.mem_filter.mp hlater).2
    rcases hnames later.name hallowed with ⟨first, hfirst, hname⟩
    have hmem : first ∈ front.filter fun tool => tool.name ∈ roleTools role :=
      List.mem_filter.mpr ⟨hfirst, decide_eq_true (hname ▸ hallowed)⟩
    exact List.disjoint_of_nodup_append hnodup (List.mem_map_of_mem hmem)
      (hname ▸ List.mem_map_of_mem hlater)
  rw [htools, hnone, List.append_nil]

end StaticToolRegistry

/-! ### The registries that are kept -/

/-- A tool of a project, with what it does. -/
def executable (run : Tool → A → WorkspaceHandle → W → Except ToolFault R × W) (tool : Tool) :
    ExecutableTool A R W :=
  ⟨tool.name, some tool.kind, run tool⟩

variable (run : Tool → A → WorkspaceHandle → W → Except ToolFault R × W)

theorem create_executable (role : AgentRole) (selected : List Tool) :
    (StaticToolRegistry.create (some role) (selected.map (executable run))).map
      StaticToolRegistry.tools =
        (staticToolRegistry role selected).map fun registry => registry.tools.map (executable run) := by
  have hnames : (selected.map (executable run)).map ExecutableTool.name = selected.map Tool.name := by
    rw [List.map_map]
    rfl
  rw [StaticToolRegistry.create, staticToolRegistry]
  split
  · rename_i name hduplicate
    rw [hnames] at hduplicate
    rw [hduplicate]
    rfl
  · rename_i hduplicate
    rw [hnames] at hduplicate
    rw [hduplicate]
    rfl

/-- The registry that is kept for a role and a toolchain holds the same tools. -/
theorem forRole_executable (role : AgentRole) (tools : List Tool) :
    (StaticToolRegistry.forRole role (tools.map (executable run))).map StaticToolRegistry.tools =
      (forRole role tools).map fun registry => registry.tools.map (executable run) := by
  have hselected : (tools.map (executable run)).filter (fun tool => tool.name ∈ roleTools role) =
      (tools.filter fun tool => tool.name ∈ roleTools role).map (executable run) := by
    rw [List.filter_map]
    rfl
  rw [StaticToolRegistry.forRole, forRole, hselected]
  generalize tools.filter (fun tool => tool.name ∈ roleTools role) = selected
  have hoffending : ((selected.map (executable run)).filter ExecutableTool.mutates).map
      ExecutableTool.name =
        (selected.filter fun tool => tool.kind ∈ mutatingKinds).map Tool.name := by
    rw [List.filter_map, List.map_map]
    rfl
  rw [hoffending]
  split
  · rfl
  · exact create_executable run role selected

/-- The tools that every project has and that only read. -/
def readingTools : List Tool :=
  [.common "search_repository" .search, .common "search_symbol" .search, .common "read_file" .read,
    .common "git_diff" .vcs, .common "git_status" .vcs]

/-- A run that answers with the tool, to tell tools apart. -/
def itself (tool : Tool) (_ : Unit) (_ : WorkspaceHandle) (world : Unit) :
    Except ToolFault Tool × Unit :=
  (.ok tool, world)

theorem executable_injective (workspace : WorkspaceHandle) :
    Function.Injective (executable itself) := by
  intro left right heq
  have hanswer := congrArg (fun tool => (tool.execute () workspace ()).1) heq
  exact Except.ok.inj hanswer

/-- Whatever a project's toolchain is, the planner is given the tools that every project has and
    that only read. -/
theorem planner_tools (workspace : WorkspaceHandle) {split : String → Except String (List String)}
    {toolchain : ToolchainConfig} {registry : ToolRegistry}
    (h : buildToolRegistry split .planner toolchain = .ok registry) : registry.tools = readingTools := by
  rw [buildToolRegistry] at h
  split at h
  · cases h
  · rename_i tools _
    apply (executable_injective workspace).list_map
    have hsame := forRole_executable itself .planner (commonTools ++ tools)
    rw [h, List.map_append] at hsame
    rcases hbuilt : StaticToolRegistry.forRole .planner
        (commonTools.map (executable itself) ++ tools.map (executable itself)) with message | built
    · rw [hbuilt] at hsame
      cases hsame
    · -- the project's own tools stand behind five that have all the names
      rw [hbuilt] at hsame
      refine (Except.ok.inj hsame).symm.trans ?_
      have hnames : ∀ name ∈ roleTools .planner,
          ∃ tool ∈ commonTools.map (executable itself), tool.name = name := by
        decide
      rw [StaticToolRegistry.tools_of_complete hnames hbuilt]
      rfl

/-! ### The executor -/

structure AllowListToolExecutor (A R W : Type) where
  registry : StaticToolRegistry A R W
  role : Option AgentRole

namespace AllowListToolExecutor

def notAllowed (executor : AllowListToolExecutor A R W) (tool : String) : ToolFault :=
  .toolExecution tool "tool is not allowed for this role" [("tool", .str tool),
    ("role", ((executor.role.map AgentRole.value).map PyValue.str).getD .none),
    ("allowed", .list (executor.registry.names.map .str))]

def readOnlyWorkspace (tool : String) (workspace : WorkspaceHandle) : ToolFault :=
  .toolExecution tool "mutating tool refused on a read-only workspace" [("tool", .str tool),
    ("workspace_id", .str workspace.id.str), ("role", .str workspace.role.value)]

def execute (executor : AllowListToolExecutor A R W) (workspace : WorkspaceHandle)
    (invocation : ToolInvocation A) (world : W) : Except ToolFault R × W :=
  match executor.registry.get invocation.tool with
  | none => (.error (executor.notAllowed invocation.tool), world)
  | some tool =>
    if tool.mutates = true ∧ workspace.role.isWritable = false then
      (.error (readOnlyWorkspace invocation.tool workspace), world)
    else tool.execute invocation.arguments workspace world

/-- The loop of `execute_many`, with the results so far. -/
def executeFrom (executor : AllowListToolExecutor A R W) (workspace : WorkspaceHandle)
    (results : List R) : List (ToolInvocation A) → W → Except ToolFault (List R) × W
  | [], world => (.ok results, world)
  | invocation :: rest, world =>
    match executor.execute workspace invocation world with
    | (.ok result, world') => executeFrom executor workspace (results ++ [result]) rest world'
    | (.error fault, world') => (.error (fault.completed results.length), world')

def executeMany (executor : AllowListToolExecutor A R W) (workspace : WorkspaceHandle)
    (invocations : List (ToolInvocation A)) (world : W) : Except ToolFault (List R) × W :=
  executor.executeFrom workspace [] invocations world

/-! ### A batch -/

variable {executor : AllowListToolExecutor A R W} {workspace : WorkspaceHandle}
  {invocations done : List (ToolInvocation A)} {invocation : ToolInvocation A} {results : List R}
  {world world' : W}

/-- Every invocation ran, one after the other. -/
inductive Ran (executor : AllowListToolExecutor A R W) (workspace : WorkspaceHandle) :
    List (ToolInvocation A) → W → List R → W → Prop where
  | nil (world : W) : Ran executor workspace [] world [] world
  | cons {invocation : ToolInvocation A} {rest : List (ToolInvocation A)} {world middle last : W}
      {result : R} {results : List R}
      (first : executor.execute workspace invocation world = (.ok result, middle))
      (later : Ran executor workspace rest middle results last) :
      Ran executor workspace (invocation :: rest) world (result :: results) last

/-- One invocation cannot run, after the `count` before it ran. -/
def Stops (executor : AllowListToolExecutor A R W) (workspace : WorkspaceHandle)
    (invocations : List (ToolInvocation A)) (world : W) (count : Nat) (fault : ToolFault)
    (last : W) : Prop :=
  ∃ done invocation rest results middle, invocations = done ++ invocation :: rest ∧
    done.length = count ∧ Ran executor workspace done world results middle ∧
    executor.execute workspace invocation middle = (.error fault, last)

theorem Stops.cons {rest : List (ToolInvocation A)} {middle last : W} {result : R} {count : Nat}
    {fault : ToolFault}
    (first : executor.execute workspace invocation world = (.ok result, middle))
    (later : Stops executor workspace rest middle count fault last) :
    Stops executor workspace (invocation :: rest) world (count + 1) fault last := by
  rcases later with ⟨done, stopped, behind, results, state, rfl, hcount, hran, hstop⟩
  exact ⟨invocation :: done, stopped, behind, result :: results, state, rfl,
    by rw [List.length_cons, hcount], hran.cons first, hstop⟩

/-- What the loop does, by the results it starts with. -/
theorem executeFrom_cases (invocations : List (ToolInvocation A)) (before : List R) (world : W) :
    (∃ results last, Ran executor workspace invocations world results last ∧
      executor.executeFrom workspace before invocations world = (.ok (before ++ results), last)) ∨
    ∃ count fault last, Stops executor workspace invocations world count fault last ∧
      executor.executeFrom workspace before invocations world =
        (.error (fault.completed (before.length + count)), last) := by
  induction invocations generalizing before world with
  | nil => exact .inl ⟨[], world, .nil world, by rw [executeFrom, List.append_nil]⟩
  | cons invocation rest ih =>
    rcases hfirst : executor.execute workspace invocation world with ⟨fault | result, middle⟩
    · refine .inr ⟨0, fault, middle, ⟨[], invocation, rest, [], world, rfl, rfl, .nil world, hfirst⟩, ?_⟩
      rw [executeFrom, hfirst]
      rfl
    · rcases ih (before ++ [result]) middle with
        ⟨results, last, hran, hloop⟩ | ⟨count, fault, last, hstops, hloop⟩
      · refine .inl ⟨result :: results, last, hran.cons hfirst, ?_⟩
        rw [executeFrom, hfirst]
        dsimp only
        rw [hloop, List.append_assoc]
        rfl
      · refine .inr ⟨count + 1, fault, last, hstops.cons hfirst, ?_⟩
        rw [executeFrom, hfirst]
        dsimp only
        rw [hloop, List.length_append, List.length_singleton, Nat.add_assoc, Nat.add_comm 1]

theorem Ran.length_eq {last : W} (h : Ran executor workspace invocations world results last) :
    results.length = invocations.length := by
  induction h with
  | nil => rfl
  | cons _ _ ih => rw [List.length_cons, List.length_cons, ih]

/-- What ran is behind the loop. -/
theorem executeFrom_ran {middle : W} (h : Ran executor workspace done world results middle)
    (before : List R) (rest : List (ToolInvocation A)) :
    executor.executeFrom workspace before (done ++ rest) world =
      executor.executeFrom workspace (before ++ results) rest middle := by
  induction h generalizing before with
  | nil => rw [List.append_nil, List.nil_append]
  | cons first later ih =>
    rw [List.cons_append, executeFrom, first]
    dsimp only
    rw [ih, List.append_assoc, List.singleton_append]

/-- A batch succeeds exactly if every invocation ran, in order, with their results in order. It
    fails exactly if one invocation could not run after those before it ran: nothing behind it is
    tried, what was done stays done, and a `ToolExecutionError` is told how many were completed. -/
theorem batch_outcomes (executor : AllowListToolExecutor A R W) (workspace : WorkspaceHandle)
    (invocations : List (ToolInvocation A)) (world : W) :
    (∀ results last, executor.executeMany workspace invocations world = (.ok results, last) ↔
      Ran executor workspace invocations world results last) ∧
    ∀ error last, executor.executeMany workspace invocations world = (.error error, last) ↔
      ∃ count fault, Stops executor workspace invocations world count fault last ∧
        error = fault.completed count := by
  constructor
  · intro results last
    constructor
    · intro hbatch
      rcases executeFrom_cases invocations [] world with
        ⟨results', last', hran, hloop⟩ | ⟨count, fault, last', -, hloop⟩
      · rw [executeMany, hloop] at hbatch
        cases hbatch
        exact hran
      · rw [executeMany, hloop] at hbatch
        cases hbatch
    · intro hran
      have hloop := executeFrom_ran hran [] []
      rw [List.append_nil] at hloop
      exact hloop
  · intro error last
    constructor
    · intro hbatch
      rcases executeFrom_cases invocations [] world with
        ⟨results, last', -, hloop⟩ | ⟨count, fault, last', hstops, hloop⟩
      · rw [executeMany, hloop] at hbatch
        cases hbatch
      · rw [executeMany, hloop, List.length_nil, Nat.zero_add] at hbatch
        cases hbatch
        exact ⟨count, fault, hstops, rfl⟩
    · rintro ⟨count, fault, ⟨done, invocation, rest, results, middle, rfl, rfl, hran, hstop⟩, rfl⟩
      rw [executeMany, executeFrom_ran hran, executeFrom, hstop, List.nil_append, hran.length_eq]

/-! ### What may run -/

/-- The tool may run for the role in the workspace. -/
def Permitted (role : AgentRole) (workspace : WorkspaceHandle) (tool : ExecutableTool A R W) : Prop :=
  tool.name ∈ roleTools role ∧
    (tool.mutates = true → role ∉ readOnlyRoles ∧ workspace.role.isWritable = true)

variable {role : AgentRole} {tools : List (ExecutableTool A R W)}
  {registry : StaticToolRegistry A R W} {P : W → Prop}

/-- An invocation is refused and changes nothing, or a permitted tool of that name runs. -/
theorem execute_cases (h : StaticToolRegistry.forRole role tools = .ok registry)
    (workspace : WorkspaceHandle) (invocation : ToolInvocation A) (world : W) :
    (∃ fault, execute ⟨registry, some role⟩ workspace invocation world = (.error fault, world)) ∨
    ∃ tool ∈ tools, tool.name = invocation.tool ∧ Permitted role workspace tool ∧
      execute ⟨registry, some role⟩ workspace invocation world =
        tool.execute invocation.arguments workspace world := by
  rw [execute]
  rcases hget : registry.get invocation.tool with - | tool
  · exact .inl ⟨_, rfl⟩
  · rw [StaticToolRegistry.get] at hget
    have htool := List.mem_of_find?_eq_some hget
    have hfound := List.find?_some hget
    have hname : tool.name = invocation.tool := of_decide_eq_true hfound
    rcases StaticToolRegistry.mem_of_forRole h htool with ⟨hmem, hallowed⟩
    by_cases hrefused : tool.mutates = true ∧ workspace.role.isWritable = false
    · exact .inl ⟨_, if_pos hrefused⟩
    · refine .inr ⟨tool, hmem, hname, ⟨hallowed, fun hmutates => ⟨fun hrole => ?_, ?_⟩⟩,
        if_neg hrefused⟩
      · rw [StaticToolRegistry.not_mutates_of_forRole h hrole htool] at hmutates
        cases hmutates
      · exact Bool.eq_true_of_not_eq_false fun hreadOnly => hrefused ⟨hmutates, hreadOnly⟩

/-- What every permitted tool keeps, an invocation keeps. -/
theorem execute_keeps (h : StaticToolRegistry.forRole role tools = .ok registry)
    (hkeeps : ∀ tool ∈ tools, Permitted role workspace tool →
      ∀ arguments world, P world → P (tool.execute arguments workspace world).2)
    (invocation : ToolInvocation A) (hP : P world) :
    P (execute ⟨registry, some role⟩ workspace invocation world).2 := by
  rcases execute_cases h workspace invocation world with
    ⟨fault, hrefused⟩ | ⟨tool, hmem, -, hpermitted, hruns⟩
  · rw [hrefused]
    exact hP
  · rw [hruns]
    exact hkeeps tool hmem hpermitted _ _ hP

theorem executeMany_keeps (h : StaticToolRegistry.forRole role tools = .ok registry)
    (hkeeps : ∀ tool ∈ tools, Permitted role workspace tool →
      ∀ arguments world, P world → P (tool.execute arguments workspace world).2)
    (invocations : List (ToolInvocation A)) (before : List R) (hP : P world) :
    P (executeFrom ⟨registry, some role⟩ workspace before invocations world).2 := by
  induction invocations generalizing before world with
  | nil => exact hP
  | cons invocation rest ih =>
    have hfirst := execute_keeps h hkeeps invocation hP
    rw [executeFrom]
    rcases hresult : execute ⟨registry, some role⟩ workspace invocation world with
      ⟨fault | result, middle⟩
    · rw [hresult] at hfirst
      exact hfirst
    · rw [hresult] at hfirst
      exact ih _ hfirst

/-- Batch after batch, each in a workspace of its own choice. -/
def executeBatches (executor : AllowListToolExecutor A R W)
    (batches : List (WorkspaceHandle × List (ToolInvocation A))) (world : W) : W :=
  batches.foldl (fun world batch => (executor.executeMany batch.1 batch.2 world).2) world

/-- Whatever an agent asks for: what is kept by the tools that its role is allowed, and of those
    that change files only where the role is not read-only and the workspace is writable, is kept by
    every run. So a planner's or a reviewer's tools never change a file, nor anybody's in a read-only
    workspace. -/
theorem only_permitted (role : AgentRole) (tools : List (ExecutableTool A R W))
    (registry : StaticToolRegistry A R W) (P : W → Prop)
    (batches : List (WorkspaceHandle × List (ToolInvocation A))) (world : W)
    (h : StaticToolRegistry.forRole role tools = .ok registry)
    (hkeeps : ∀ batch ∈ batches, ∀ tool ∈ tools, Permitted role batch.1 tool →
      ∀ arguments world, P world → P (tool.execute arguments batch.1 world).2) (hP : P world) :
    P (executeBatches ⟨registry, some role⟩ batches world) := by
  induction batches generalizing world with
  | nil => exact hP
  | cons batch rest ih =>
    rcases List.forall_mem_cons.mp hkeeps with ⟨hbatch, hrest⟩
    exact ih _ hrest (executeMany_keeps h hbatch batch.2 [] hP)

/-- Reads, and leaves everything as it is. -/
def readOnlyTool : ExecutableTool Unit String Bool :=
  ⟨"read_file", some .read, fun _ _ changed => (.ok "text", changed)⟩

/-- Notes that a file was changed. -/
def editingTool : ExecutableTool Unit String Bool :=
  ⟨"edit_file", some .edit, fun _ _ _ => (.ok "edited", true)⟩

def plannerRegistry : StaticToolRegistry Unit String Bool :=
  ⟨some .planner, [readOnlyTool], List.nodup_singleton _⟩

def plannerWorkspace : WorkspaceHandle := ⟨⟨1⟩, .planner, "/workspaces/1", nofun⟩

/-- The planner reads a file, then asks for an edit. -/
theorem only_permitted_sample : executeBatches ⟨plannerRegistry, some .planner⟩
    [(plannerWorkspace, [⟨"read_file", ()⟩, ⟨"edit_file", ()⟩])] false = false := by
  refine only_permitted .planner [readOnlyTool, editingTool] plannerRegistry (· = false) _ false rfl
    ?_ rfl
  intro batch _ tool htool hpermitted _ world hworld
  rcases List.mem_pair.mp htool with rfl | rfl
  · exact hworld
  · exact absurd (List.mem_cons_self) (hpermitted.2 rfl).1

end AllowListToolExecutor

end AgenticPlatform.Tooling
