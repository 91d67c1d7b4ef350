import AgenticPlatform.FilePaths

/-!
# File tools in a workspace

`resolve_in_workspace` maps the path that a model gives to a path below the root of the
workspace, for the tools that read a file, edit one, or run in a directory. Two things it
does differently: a relative path is resolved, an absolute one is taken as it is written.
-/

namespace AgenticPlatform

open LinkedTree

inductive WorkspaceRole where
  | planner | candidate | reviewer | merge
deriving DecidableEq, Repr

def WorkspaceRole.value : WorkspaceRole → String
  | planner => "PLANNER"
  | candidate => "CANDIDATE"
  | reviewer => "REVIEWER"
  | merge => "MERGE"

def WorkspaceRole.isWritable (role : WorkspaceRole) : Bool := role ∈ [candidate, merge]

structure WorkspaceHandle where
  id : WorkspaceId
  role : WorkspaceRole
  path : String
  path_nonempty : path ≠ ""

/-- What a tool raises: a `ToolExecutionError` with its details, or what `resolve` raised. -/
inductive ToolError where
  | toolExecution (tool message : String) (details : Mapping)
  | path (error : PathError)

def ToolError.isToolExecution : ToolError → Bool
  | .toolExecution .. => true
  | .path _ => false

/-- `type(value).__name__`. -/
def PyValue.typeName : PyValue → String
  | .none => "NoneType"
  | .bool _ => "bool"
  | .int _ => "int"
  | .float .. => "float"
  | .str _ => "str"
  | .list _ => "list"
  | .dict _ => "dict"

/-! ### Arguments -/

def stringArgument (tool : String) (arguments : Mapping) (name : String)
    (default : Option String := none) : Except ToolError String :=
  match Mapping.get arguments name ((default.map PyValue.str).getD .none) with
  | .none => .error (.toolExecution tool s!"missing required argument '{name}'" [])
  | .str value => .ok value
  | value => .error (.toolExecution tool s!"argument '{name}' must be a string"
      [("got", .str value.typeName)])

def intArgument (tool : String) (arguments : Mapping) (name : String) (default : Int)
    (minimum : Int := 0) : Except ToolError Int :=
  match Mapping.get arguments name (.int default) with
  | .int value =>
    if value < minimum then
      .error (.toolExecution tool s!"argument '{name}' must be >= {minimum}" [("got", .int value)])
    else .ok value
  | value => .error (.toolExecution tool s!"argument '{name}' must be an integer"
      [("got", .str value.typeName)])

def boolArgument (tool : String) (arguments : Mapping) (name : String) (default : Bool := false) :
    Except ToolError Bool :=
  match Mapping.get arguments name (.bool default) with
  | .bool value => .ok value
  | value => .error (.toolExecution tool s!"argument '{name}' must be a boolean"
      [("got", .str value.typeName)])

/-! ### The tools -/

/-- `path.resolve()` in a tool. -/
def resolved (tree : FileTree) (path : PosixPath) : Except ToolError PosixPath :=
  match tree.resolve path with
  | .ok path => .ok path
  | .error error => .error (.path error)

/-- `candidate`: an absolute path stays as it is written. -/
def candidateOf (tree : FileTree) (root : PosixPath) (relative : String) : Except ToolError PosixPath :=
  if (PosixPath.parse relative).isAbsolute then pure (.parse relative)
  else resolved tree (root.join relative)

def resolveInWorkspace (tree : FileTree) (tool : String) (workspace : WorkspaceHandle)
    (relative : String) : Except ToolError PosixPath := do
  let root ← resolved tree (.parse workspace.path)
  let candidate ← candidateOf tree root relative
  if candidate.isRelativeTo root then pure candidate
  else .error (.toolExecution tool "path escapes the workspace"
    [("path", .str relative), ("workspace_id", .str workspace.id.str)])

/-- The file that `ReadFileTool.execute` opens. -/
def ReadFileTool.target (tree : FileTree) (workspace : WorkspaceHandle) (arguments : Mapping) :
    Except ToolError PosixPath := do
  let relative ← stringArgument "read_file" arguments "path"
  let target ← resolveInWorkspace tree "read_file" workspace relative
  let _ ← intArgument "read_file" arguments "start_line" 1 1
  let _ ← intArgument "read_file" arguments "max_lines" 0
  let _ ← intArgument "read_file" arguments "max_bytes" 0
  pure target

/-- The file that `EditFileTool.execute` replaces, creates or appends to. -/
def EditFileTool.target (tree : FileTree) (workspace : WorkspaceHandle) (arguments : Mapping) :
    Except ToolError PosixPath := do
  if workspace.role.isWritable = false then
    .error (.toolExecution "edit_file" "workspace is read-only"
      [("workspace_id", .str workspace.id.str), ("role", .str workspace.role.value)])
  else
    let relative ← stringArgument "edit_file" arguments "path"
    let target ← resolveInWorkspace tree "edit_file" workspace relative
    let mode ← stringArgument "edit_file" arguments "mode" (some "replace")
    if mode ∉ ["replace", "create", "append"] then
      .error (.toolExecution "edit_file" "unknown edit mode" [("mode", .str mode)])
    else if mode = "replace" then
      let old ← stringArgument "edit_file" arguments "old_string"
      let _ ← stringArgument "edit_file" arguments "new_string" (some "")
      if old = "" then .error (.toolExecution "edit_file" "old_string must not be empty" [])
      else pure target
    else
      let _ ← stringArgument "edit_file" arguments "content"
      if mode = "create" then
        let _ ← boolArgument "edit_file" arguments "overwrite"
        pure target
      else pure target

/-- The directory that `_working_directory` puts in the place of the workspace's own. -/
def workingDirectory (tree : FileTree) (tool : String) (workspace : WorkspaceHandle)
    (arguments : Mapping) : Except ToolError (Option PosixPath) :=
  match Mapping.get arguments "working_directory" .none with
  | .str requested =>
    if requested = "" then .ok none
    else (resolveInWorkspace tree tool workspace requested).map some
  | _ => .ok none

/-- A call of a tool that reaches for a path its caller gives. -/
inductive FileCall where
  | readFile (arguments : Mapping)
  | editFile (arguments : Mapping)
  | workingDirectory (tool : String) (arguments : Mapping)

namespace FileCall

/-- The path given. -/
def given : FileCall → PyValue
  | .readFile arguments | .editFile arguments => Mapping.get arguments "path" .none
  | .workingDirectory _ arguments => Mapping.get arguments "working_directory" .none

/-- The path the call goes to, if it goes to one. -/
def target (tree : FileTree) (workspace : WorkspaceHandle) : FileCall → Except ToolError (Option PosixPath)
  | .readFile arguments => (ReadFileTool.target tree workspace arguments).map some
  | .editFile arguments => (EditFileTool.target tree workspace arguments).map some
  | .workingDirectory tool arguments => AgenticPlatform.workingDirectory tree tool workspace arguments

end FileCall

variable {tree : FileTree} {workspace : WorkspaceHandle} {tool relative : String}
  {path candidate root : PosixPath} {place home : List String}

/-! ### What a tool gets -/

theorem resolved_eq_ok : resolved tree path = .ok candidate ↔ tree.resolve path = .ok candidate := by
  rw [resolved]
  split <;> rename_i hresolve <;> simp [hresolve]

theorem except_bind_eq_ok {α β : Type} {x : Except ToolError α} {f : α → Except ToolError β} {b : β} :
    (x >>= f) = .ok b ↔ ∃ a, x = .ok a ∧ f a = .ok b := by
  rcases x with error | a
  · exact iff_of_false (fun h => by cases h) (fun ⟨a, h, _⟩ => by cases h)
  · constructor
    · intro h
      exact ⟨a, rfl, h⟩
    · rintro ⟨a', hsame, h⟩
      cases hsame
      exact h

theorem resolveInWorkspace_eq_ok : resolveInWorkspace tree tool workspace relative = .ok path ↔
    ∃ root, tree.resolve (.parse workspace.path) = .ok root ∧
      candidateOf tree root relative = .ok path ∧ path.isRelativeTo root = true := by
  rw [resolveInWorkspace, except_bind_eq_ok]
  refine exists_congr fun root => ?_
  rw [resolved_eq_ok, except_bind_eq_ok]
  refine and_congr_right fun _ => ?_
  constructor
  · rintro ⟨candidate, hcandidate, h⟩
    split at h
    · cases h
      exact ⟨hcandidate, ‹_›⟩
    · cases h
  · rintro ⟨hcandidate, hrelative⟩
    refine ⟨path, hcandidate, ?_⟩
    rw [if_pos hrelative]
    rfl

theorem resolveInWorkspace_of_candidate (hroot : tree.resolve (.parse workspace.path) = .ok root)
    (hcandidate : candidateOf tree root relative = .ok candidate) :
    resolveInWorkspace tree tool workspace relative =
      if candidate.isRelativeTo root then .ok candidate
      else .error (.toolExecution tool "path escapes the workspace"
        [("path", .str relative), ("workspace_id", .str workspace.id.str)]) := by
  rw [resolveInWorkspace, resolved_eq_ok.mpr hroot]
  simp only [bind, Except.bind, hcandidate]
  rfl

theorem map_some_eq_ok {x : Except ToolError PosixPath} (h : x.map some = .ok (some path)) :
    x = .ok path := by
  rcases x with error | target
  · cases h
  · cases h
    rfl

theorem stringArgument_of_str {arguments : Mapping} {name value : String}
    (h : Mapping.get arguments name .none = .str value) :
    stringArgument tool arguments name = .ok value := by
  have hget : Mapping.get arguments name ((Option.map PyValue.str none).getD .none) = .str value := h
  simp only [stringArgument, hget]

theorem ReadFileTool.target_resolved {arguments : Mapping}
    (hgiven : Mapping.get arguments "path" .none = .str relative)
    (h : ReadFileTool.target tree workspace arguments = .ok path) :
    resolveInWorkspace tree "read_file" workspace relative = .ok path := by
  simp only [ReadFileTool.target, stringArgument_of_str hgiven] at h
  rcases except_bind_eq_ok.mp h with ⟨given, hsame, h⟩
  cases hsame
  rcases except_bind_eq_ok.mp h with ⟨target, htarget, h⟩
  rcases except_bind_eq_ok.mp h with ⟨-, -, h⟩
  rcases except_bind_eq_ok.mp h with ⟨-, -, h⟩
  rcases except_bind_eq_ok.mp h with ⟨-, -, h⟩
  cases h
  exact htarget

theorem EditFileTool.target_resolved {arguments : Mapping}
    (hgiven : Mapping.get arguments "path" .none = .str relative)
    (h : EditFileTool.target tree workspace arguments = .ok path) :
    resolveInWorkspace tree "edit_file" workspace relative = .ok path := by
  simp only [EditFileTool.target, stringArgument_of_str hgiven] at h
  split at h
  · cases h
  · rcases except_bind_eq_ok.mp h with ⟨given, hsame, h⟩
    cases hsame
    rcases except_bind_eq_ok.mp h with ⟨target, htarget, h⟩
    rcases except_bind_eq_ok.mp h with ⟨mode, -, h⟩
    -- What is left checks arguments, and returns the target or raises.
    have hsame : target = path := by
      split at h
      · cases h
      · split at h
        · rcases except_bind_eq_ok.mp h with ⟨old, -, h⟩
          rcases except_bind_eq_ok.mp h with ⟨-, -, h⟩
          split at h
          · cases h
          · cases h
            rfl
        · rcases except_bind_eq_ok.mp h with ⟨-, -, h⟩
          split at h
          · rcases except_bind_eq_ok.mp h with ⟨-, -, h⟩
            cases h
            rfl
          · cases h
            rfl
    rw [← hsame]
    exact htarget

theorem FileCall.target_resolved {call : FileCall} (hgiven : call.given = .str relative)
    (h : call.target tree workspace = .ok (some path)) :
    ∃ tool, resolveInWorkspace tree tool workspace relative = .ok path := by
  rcases call with arguments | arguments | ⟨tool, arguments⟩
  · exact ⟨"read_file", ReadFileTool.target_resolved hgiven (map_some_eq_ok h)⟩
  · exact ⟨"edit_file", EditFileTool.target_resolved hgiven (map_some_eq_ok h)⟩
  · refine ⟨tool, ?_⟩
    have hrequested : Mapping.get arguments "working_directory" .none = .str relative := hgiven
    simp only [FileCall.target, AgenticPlatform.workingDirectory, hrequested] at h
    split at h
    · cases h
    · exact map_some_eq_ok h

/-! ### Containment -/

/-- The place lies in the workspace. -/
def Within (tree : FileTree) (workspace : WorkspaceHandle) (place : List String) : Prop :=
  ∃ root, tree.Denotes (.parse workspace.path) root ∧ root <:+ place

/-- Given the text as a path, nothing leads out of the workspace: what is returned denotes
    a file in it, all else is refused with a `ToolExecutionError`, and no call of a tool
    goes to a file outside. -/
structure Contained (tree : FileTree) (workspace : WorkspaceHandle) (relative : String) : Prop where
  returned : ∀ tool path place, resolveInWorkspace tree tool workspace relative = .ok path →
    tree.Denotes path place → Within tree workspace place
  refused : ∀ tool error, resolveInWorkspace tree tool workspace relative = .error error →
    error.isToolExecution = true
  tools : ∀ call path place, FileCall.given call = .str relative →
    call.target tree workspace = .ok (some path) → tree.Denotes path place →
    Within tree workspace place

/-- Below which root the text leads where. A relative text leads somewhere; an absolute one
    that spells a path below the root leads nowhere else. -/
def Confined (tree : FileTree) (workspace : WorkspaceHandle) (relative : String) : Prop :=
  ∃ root, tree.Denotes (.parse workspace.path) root ∧
    if (PosixPath.parse relative).isAbsolute then
      (PosixPath.parse relative).isRelativeTo (.ofPlace root) = true →
        ∀ place, tree.Denotes (.parse relative) place → root <:+ place
    else ∃ place, tree.Denotes ((PosixPath.ofPlace root).join relative) place

theorem Confined.returned (h : Confined tree workspace relative)
    (hpath : resolveInWorkspace tree tool workspace relative = .ok path)
    (hplace : tree.Denotes path place) : Within tree workspace place := by
  rcases h with ⟨home, hhome, hconfined⟩
  refine ⟨home, hhome, ?_⟩
  rcases resolveInWorkspace_eq_ok.mp hpath with ⟨root, hroot, hcandidate, hbelow⟩
  rw [tree.resolve_of_denotes hhome] at hroot
  cases hroot
  rw [candidateOf] at hcandidate
  split at hcandidate
  · rename_i habsolute
    cases hcandidate
    rw [if_pos habsolute] at hconfined
    exact hconfined hbelow place hplace
  · rcases tree.denotes_of_resolve (resolved_eq_ok.mp hcandidate) with ⟨place', hdenotes, rfl⟩
    rw [tree.denotes_ofPlace hdenotes.plain hplace]
    exact PosixPath.isRelativeTo_ofPlace.mp hbelow

theorem Confined.refused (h : Confined tree workspace relative) {error : ToolError}
    (herror : resolveInWorkspace tree tool workspace relative = .error error) :
    error.isToolExecution = true := by
  rcases h with ⟨home, hhome, hconfined⟩
  have hcandidate : ∃ candidate, candidateOf tree (.ofPlace home) relative = .ok candidate := by
    rw [candidateOf]
    split
    · exact ⟨_, rfl⟩
    · rename_i hrelative
      rw [if_neg hrelative] at hconfined
      rcases hconfined with ⟨place, hplace⟩
      exact ⟨_, resolved_eq_ok.mpr (FileTree.resolve_of_denotes hplace)⟩
  rcases hcandidate with ⟨candidate, hcandidate⟩
  rw [resolveInWorkspace_of_candidate (FileTree.resolve_of_denotes hhome) hcandidate] at herror
  split at herror
  · cases herror
  · cases herror
    rfl

theorem Contained.confined (h : Contained tree workspace relative) : Confined tree workspace relative := by
  rcases hroot : tree.resolve (.parse workspace.path) with error | root
  · have herror : resolveInWorkspace tree "" workspace relative = .error (.path error) := by
      simp only [resolveInWorkspace, resolved, hroot]
      rfl
    cases h.refused "" _ herror
  · rcases FileTree.denotes_of_resolve hroot with ⟨home, hhome, rfl⟩
    refine ⟨home, hhome, ?_⟩
    split
    · rename_i habsolute
      intro hbelow place hplace
      have hreturned : resolveInWorkspace tree "" workspace relative = .ok (.parse relative) :=
        resolveInWorkspace_eq_ok.mpr ⟨_, hroot, if_pos habsolute, hbelow⟩
      rcases h.returned "" _ place hreturned hplace with ⟨home', hhome', hwithin⟩
      rw [hhome.unique hhome']
      exact hwithin
    · rename_i hrelative
      rcases hcandidate : tree.resolve ((PosixPath.ofPlace home).join relative) with error | candidate
      · have herror : resolveInWorkspace tree "" workspace relative = .error (.path error) := by
          simp only [resolveInWorkspace, resolved, hroot, candidateOf, if_neg hrelative, bind,
            Except.bind, hcandidate]
        cases h.refused "" _ herror
      · rcases FileTree.denotes_of_resolve hcandidate with ⟨place, hplace, -⟩
        exact ⟨place, hplace⟩

/-- A tree without links, and a workspace in it. -/
def linkless : FileTree where
  node place :=
    if place = ["passwd", "etc"] then some (.file "root:x:0:0")
    else if place ∈ [[], ["etc"], ["ws"]] then some .directory
    else none
  links := []
  cwd := []
  top := rfl
  rooted name place h := by
    split at h
    · rename_i hplace
      cases hplace
      rfl
    · split at h
      · rename_i hplace
        simp only [List.mem_cons, List.not_mem_nil, List.cons.injEq, reduceCtorEq, or_false,
          false_or] at hplace
        rcases hplace with ⟨-, rfl⟩ | ⟨-, rfl⟩
        · rfl
        · rfl
      · exact absurd rfl h
  listed place text h := by
    split at h
    · cases h
    · split at h <;> cases h
  cwd_plain := trivial

def candidateWorkspace : WorkspaceHandle := ⟨⟨1⟩, .candidate, "/ws", by decide⟩

end AgenticPlatform
