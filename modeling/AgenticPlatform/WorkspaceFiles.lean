import AgenticPlatform.CoderOutput
import AgenticPlatform.FileWrites
import AgenticPlatform.WorkspaceTools

/-!
# The coder's files on the disk

`write_files` resolves every path below the workspace before it writes any file. Together
with the schema layer before it, this decides what of a coder's answer reaches the disk.
-/

namespace AgenticPlatform

open LinkedTree

/-- The names of a path from the root, innermost first. -/
def PosixPath.place (path : PosixPath) : List String :=
  (path.parts.filterMap fun
    | .up => none
    | .down name => some name).reverse

theorem PosixPath.place_ofPlace (place : List String) : (ofPlace place).place = place := by
  rw [PosixPath.place, ofPlace, List.filterMap_map]
  have hid : (List.filterMap (fun name : String => some name) place.reverse) = place.reverse :=
    List.filterMap_some
  exact (congrArg List.reverse hid).trans (List.reverse_reverse place)

/-- What `write_files` raises. -/
inductive WriteError where
  | workspace (message path : String)
  | path (error : PathError)
  | os (error : OsError)

namespace GitWorktree

variable {tree tree' : FileTree} {workspace : WorkspaceHandle} {base : List String}
  {files : List (String × String)} {writes : List (List String × String)}

/-- The first pass of `_write_all`: every path is resolved and checked. -/
def resolveTargets (tree : FileTree) (root : String) (base : PosixPath) :
    List (String × String) → Except WriteError (List (List String × String))
  | [] => .ok []
  | (relative, content) :: rest =>
    match tree.resolve (base.join relative) with
    | .error error => .error (.path error)
    | .ok target =>
      -- `target != base and base not in target.parents`
      if target.isRelativeTo base = false then
        .error (.workspace ("refusing to write outside the workspace: " ++ quoted relative) root)
      else
        match resolveTargets tree root base rest with
        | .error error => .error error
        | .ok writes => .ok ((target.place, content) :: writes)

def writeAll (tree : FileTree) (root : String) (files : List (String × String)) :
    Except WriteError FileTree :=
  match tree.resolve (.parse root) with
  | .error error => .error (.path error)
  | .ok base =>
    match resolveTargets tree root base files with
    | .error error => .error error
    | .ok writes =>
      match tree.writeEach writes with
      | .error error => .error (.os error)
      | .ok tree' => .ok tree'

def writeFiles (tree : FileTree) (workspace : WorkspaceHandle) (files : List (String × String)) :
    Except WriteError FileTree :=
  if workspace.role.isWritable = false then
    .error (.workspace (workspace.role.value ++ " workspaces are read-only") workspace.path)
  else writeAll tree workspace.path files

/-! ### Where the files go -/

/-- The text leads from the base to the place, which lies in the base. -/
def Lands (tree : FileTree) (base : List String) (relative : String) (place : List String) : Prop :=
  tree.Denotes ((PosixPath.ofPlace base).join relative) place ∧ base <:+ place

/-- Each file with the place it lands at. -/
def Placed (tree : FileTree) (base : List String) (files : List (String × String))
    (writes : List (List String × String)) : Prop :=
  List.Forall₂ (fun file write => Lands tree base file.1 write.1 ∧ file.2 = write.2) files writes

theorem resolveTargets_eq_ok {root : String} :
    resolveTargets tree root (.ofPlace base) files = .ok writes ↔ Placed tree base files writes := by
  induction files generalizing writes with
  | nil =>
    rw [Placed, List.forall₂_nil_left_iff]
    constructor
    · intro h
      cases h
      rfl
    · rintro rfl
      rfl
  | cons file rest ih =>
    rcases file with ⟨relative, content⟩
    constructor
    · intro h
      rw [resolveTargets] at h
      split at h
      · cases h
      · rename_i target htarget
        rcases FileTree.denotes_of_resolve htarget with ⟨place, hplace, rfl⟩
        split at h
        · cases h
        · rename_i hinside
          rw [Bool.not_eq_false, PosixPath.isRelativeTo_ofPlace] at hinside
          split at h
          · cases h
          · rename_i later hlater
            cases h
            refine .cons ⟨?_, rfl⟩ (ih.mp hlater)
            rw [PosixPath.place_ofPlace]
            exact ⟨hplace, hinside⟩
    · intro h
      rcases h with - | ⟨⟨⟨hplace, hinside⟩, hcontent⟩, hrest⟩
      rename_i write later
      rcases write with ⟨place, written⟩
      cases hcontent
      have hrelative : (PosixPath.ofPlace place).isRelativeTo (.ofPlace base) = true :=
        PosixPath.isRelativeTo_ofPlace.mpr hinside
      rw [resolveTargets]
      simp only [FileTree.resolve_of_denotes hplace, hrelative, Bool.true_eq_false, if_false, ih.mpr hrest,
        PosixPath.place_ofPlace]

theorem writeFiles_eq_ok : writeFiles tree workspace files = .ok tree' ↔
    workspace.role.isWritable = true ∧ ∃ base, tree.Denotes (.parse workspace.path) base ∧
      ∃ writes, Placed tree base files writes ∧ tree.writeEach writes = .ok tree' := by
  rw [writeFiles]
  constructor
  · intro h
    split at h
    · cases h
    · rename_i hwritable
      rw [writeAll] at h
      split at h
      · cases h
      · rename_i root hroot
        rcases FileTree.denotes_of_resolve hroot with ⟨base, hbase, rfl⟩
        split at h
        · cases h
        · rename_i writes hwrites
          split at h
          · cases h
          · rename_i hwritten
            cases h
            exact ⟨Bool.of_not_eq_false hwritable, base, hbase, writes, resolveTargets_eq_ok.mp hwrites,
              hwritten⟩
  · rintro ⟨hwritable, base, hbase, writes, hplaced, hwritten⟩
    rw [if_neg (by simp [hwritable]), writeAll]
    simp only [FileTree.resolve_of_denotes hbase, resolveTargets_eq_ok.mpr hplaced, hwritten]

theorem Placed.write (h : Placed tree base files writes) {file : String × String} (hfile : file ∈ files) :
    ∃ write ∈ writes, Lands tree base file.1 write.1 ∧ file.2 = write.2 := by
  induction h with
  | nil => cases hfile
  | cons hfirst _ ih =>
    rcases List.mem_cons.mp hfile with rfl | hrest
    · exact ⟨_, List.mem_cons_self, hfirst⟩
    · rcases ih hrest with ⟨write, hwrite, hlands⟩
      exact ⟨write, List.mem_cons_of_mem _ hwrite, hlands⟩

theorem Placed.file (h : Placed tree base files writes) {write : List String × String}
    (hwrite : write ∈ writes) : ∃ file ∈ files, Lands tree base file.1 write.1 ∧ file.2 = write.2 := by
  induction h with
  | nil => cases hwrite
  | cons hfirst _ ih =>
    rcases List.mem_cons.mp hwrite with rfl | hrest
    · exact ⟨_, List.mem_cons_self, hfirst⟩
    · rcases ih hrest with ⟨file, hfile, hlands⟩
      exact ⟨file, List.mem_cons_of_mem _ hfile, hlands⟩

theorem exists_placed (h : ∀ file ∈ files, ∃ place, Lands tree base file.1 place) :
    ∃ writes, Placed tree base files writes := by
  induction files with
  | nil => exact ⟨[], .nil⟩
  | cons file rest ih =>
    rw [List.forall_mem_cons] at h
    rcases h.1 with ⟨place, hplace⟩
    rcases ih h.2 with ⟨writes, hwrites⟩
    exact ⟨(place, file.2) :: writes, .cons ⟨hplace, rfl⟩ hwrites⟩

theorem Lands.unique {relative : String} {place other : List String} (h : Lands tree base relative place)
    (hother : Lands tree base relative other) : place = other :=
  h.1.unique hother.1

/-! ### What reaches the disk -/

/-- The answer is parsed, its files are written, and each holds the content it was given. -/
def Delivered (blank : Char → Bool) (tree : FileTree) (workspace : WorkspaceHandle)
    (answer : CoderAnswer blank) : Prop :=
  ∃ draft tree' base, parseCode blank (some answer.asJson) = .ok draft ∧
    writeFiles tree workspace draft.contents = .ok tree' ∧
    tree.Denotes (.parse workspace.path) base ∧
    ∀ file ∈ answer.files, ∃ place, Lands tree' base file.path place ∧
      tree'.node place = some (.file file.content)

/-- The workspace can take the files: it may be written, each path leads to a place in it
    where a file can be written, and none of these places is above another one. Two paths
    that links lead to one place have one content. -/
def Roomy (tree : FileTree) (workspace : WorkspaceHandle) (files : List FileEdit) : Prop :=
  workspace.role.isWritable = true ∧ ∃ base, tree.Denotes (.parse workspace.path) base ∧
    (∀ file ∈ files, ∃ place, Lands tree base file.path place ∧ tree.Free place) ∧
    ∀ first ∈ files, ∀ second ∈ files, ∀ place other,
      Lands tree base first.path place → Lands tree base second.path other →
        ¬ FileTree.Above place other ∧ (place = other → first.content = second.content)

/-- Writing moves no path. -/
theorem lands_congr (h : tree'.target = tree.target) {relative : String} {place : List String} :
    Lands tree' base relative place ↔ Lands tree base relative place := by
  have habsolute : ((PosixPath.ofPlace base).join relative).isAbsolute = true := by
    rw [PosixPath.join]
    split
    · assumption
    · rfl
  have horigin : tree'.origin ((PosixPath.ofPlace base).join relative) =
      tree.origin ((PosixPath.ofPlace base).join relative) := by
    rw [FileTree.origin, FileTree.origin, if_pos habsolute, if_pos habsolute]
  rw [Lands, Lands, FileTree.Denotes, FileTree.Denotes, h, horigin]

variable {blank : Char → Bool} {answer : CoderAnswer blank}

/-- The file at a place holds one of the contents that were meant for the place. -/
theorem Placed.last (h : Placed tree base files writes) (hwritten : tree.writeEach writes = .ok tree')
    {file : String × String} (hfile : file ∈ files) {place : List String}
    (hplace : Lands tree base file.1 place) :
    ∃ last ∈ files, Lands tree base last.1 place ∧ tree'.node place = some (.file last.2) := by
  rcases h.write hfile with ⟨write, hwrite, hlands, -⟩
  rcases FileTree.writeEach_node hwritten hwrite with ⟨last, hlast, hsame, hnode⟩
  rcases h.file hlast with ⟨file', hfile', hlands', hcontent⟩
  rw [hsame] at hlands'
  rw [hlands.unique hplace] at hlands' hnode
  exact ⟨file', hfile', hlands', by rw [hnode, hcontent]⟩

theorem Delivered.necessary (h : Delivered blank tree workspace answer) :
    (∀ file ∈ answer.files, stripped blank file.content = file.content) ∧
      Roomy tree workspace answer.files := by
  rcases h with ⟨draft, tree', base, hparse, hwrite, hbase, hheld⟩
  rcases answer.parseCode_asJson with ⟨draft', hparse', hcontents⟩
  rw [hparse] at hparse'
  cases hparse'
  rcases writeFiles_eq_ok.mp hwrite with ⟨hwritable, base', hbase', writes, hplaced, hwritten⟩
  cases hbase.unique hbase'
  rw [hcontents] at hplaced
  have htarget : tree'.target = tree.target := FileTree.target_writeEach hwritten
  rcases FileTree.writeEach_ok_iff.mp ⟨tree', hwritten⟩ with ⟨hfree, hapart⟩
  -- What a file holds afterwards is its own content, and some file's stripped one.
  have hnode : ∀ file ∈ answer.files, ∀ place, Lands tree base file.path place →
      tree'.node place = some (.file file.content) := by
    intro file hfile place hplace
    rcases hheld file hfile with ⟨place', hplace', hnode⟩
    rw [lands_congr htarget] at hplace'
    rw [hplace.unique hplace']
    exact hnode
  have hlands : ∀ file ∈ answer.files, ∃ write ∈ writes, Lands tree base file.path write.1 := by
    intro file hfile
    rcases hplaced.write (List.mem_map_of_mem hfile) with ⟨write, hwrite, hlands, -⟩
    exact ⟨write, hwrite, hlands⟩
  refine ⟨?_, hwritable, base, hbase, ?_, ?_⟩
  · intro file hfile
    rcases hlands file hfile with ⟨write, -, hplace⟩
    rcases hplaced.last hwritten (List.mem_map_of_mem hfile) hplace with ⟨last, hlast, hplace', hlastnode⟩
    rcases List.mem_map.mp hlast with ⟨winner, hwinner, rfl⟩
    have hown := hnode file hfile _ hplace
    have hwins := hnode winner hwinner _ hplace'
    rw [hwins] at hown hlastnode
    have hsame : winner.content = file.content := by
      injection hown with hown
      injection hown
    have hstripped : winner.content = stripped blank winner.content := by
      injection hlastnode with hlastnode
      injection hlastnode
    rw [← hsame, ← hstripped]
  · intro file hfile
    rcases hlands file hfile with ⟨write, hwrite, hplace⟩
    exact ⟨write.1, hplace, hfree write hwrite⟩
  · intro first hfirst second hsecond place other hplace hother
    refine ⟨?_, ?_⟩
    · rcases hlands first hfirst with ⟨write, hwrite, hwriteplace⟩
      rcases hlands second hsecond with ⟨later, hlater, hlaterplace⟩
      rw [hplace.unique hwriteplace, hother.unique hlaterplace]
      exact hapart write hwrite later hlater
    · rintro rfl
      have hfirstnode := hnode first hfirst place hplace
      rw [hnode second hsecond place hother] at hfirstnode
      injection hfirstnode with hfirstnode
      injection hfirstnode with hfirstnode
      exact hfirstnode.symm

theorem delivered_of_room (hstripped : ∀ file ∈ answer.files, stripped blank file.content = file.content)
    (hroom : Roomy tree workspace answer.files) : Delivered blank tree workspace answer := by
  rcases hroom with ⟨hwritable, base, hbase, hfree, hapart⟩
  rcases answer.parseCode_asJson with ⟨draft, hparse, hcontents⟩
  have hplaces : ∀ file ∈ draft.contents, ∃ place, Lands tree base file.1 place := by
    rw [hcontents]
    intro file hfile
    rcases List.mem_map.mp hfile with ⟨given, hgiven, rfl⟩
    rcases hfree given hgiven with ⟨place, hplace, -⟩
    exact ⟨place, hplace⟩
  rcases exists_placed hplaces with ⟨writes, hplaced⟩
  have hgiven : ∀ write ∈ writes, ∃ file ∈ answer.files, Lands tree base file.path write.1 := by
    intro write hwrite
    rcases hplaced.file hwrite with ⟨file, hfile, hlands, -⟩
    rw [hcontents] at hfile
    rcases List.mem_map.mp hfile with ⟨given, hgiven, rfl⟩
    exact ⟨given, hgiven, hlands⟩
  have hwritten : ∃ tree', tree.writeEach writes = .ok tree' := by
    refine FileTree.writeEach_ok_iff.mpr ⟨?_, ?_⟩
    · intro write hwrite
      rcases hgiven write hwrite with ⟨file, hfile, hlands⟩
      rcases hfree file hfile with ⟨place, hplace, hroom⟩
      rw [hlands.unique hplace]
      exact hroom
    · intro first hfirst second hsecond
      rcases hgiven first hfirst with ⟨file, hfile, hlands⟩
      rcases hgiven second hsecond with ⟨other, hother, hlands'⟩
      exact (hapart file hfile other hother _ _ hlands hlands').1
  rcases hwritten with ⟨tree', hwritten⟩
  refine ⟨draft, tree', base, hparse, ?_, hbase, ?_⟩
  · exact writeFiles_eq_ok.mpr ⟨hwritable, base, hbase, writes, hplaced, hwritten⟩
  · intro file hfile
    rcases hfree file hfile with ⟨place, hplace, -⟩
    rw [hcontents] at hplaced
    rcases hplaced.last hwritten (List.mem_map_of_mem hfile) hplace with ⟨last, hlast, hlands, hnode⟩
    rcases List.mem_map.mp hlast with ⟨winner, hwinner, rfl⟩
    have hsame : winner.content = file.content :=
      (hapart winner hwinner file hfile _ _ hlands hplace).2 rfl
    refine ⟨place, (lands_congr (FileTree.target_writeEach hwritten)).mpr hplace, ?_⟩
    rw [hnode, hstripped winner hwinner, hsame]

/-- Every file reaches the disk as it was given exactly if stripping leaves its content
    alone and the workspace can take the files. -/
theorem files_delivered_iff (blank : Char → Bool) (tree : FileTree) (workspace : WorkspaceHandle)
    (answer : CoderAnswer blank) : Delivered blank tree workspace answer ↔
      (∀ file ∈ answer.files, stripped blank file.content = file.content) ∧
        Roomy tree workspace answer.files := by
  constructor
  · exact Delivered.necessary
  · rintro ⟨hstripped, hroom⟩
    exact delivered_of_room hstripped hroom

/-- The characters with the Unicode property `White_Space`. -/
def whiteSpace (c : Char) : Bool :=
  let n := c.toNat
  (9 ≤ n && n ≤ 13) || n == 32 || n == 133 || n == 160 || n == 5760 || (8192 ≤ n && n ≤ 8202) ||
    n == 8232 || n == 8233 || n == 8239 || n == 8287 || n == 12288

def oneFile (content : String) : CoderAnswer whiteSpace where
  taskKey := none
  summary := "set x"
  files := [⟨"main.py", content, by decide, by decide⟩]
  diff := ""
  filesChanged := []
  commandsRun := []
  uncertainties := []
  summary_given := by decide
  diff_shaped := by decide
  changes := .inl (List.cons_ne_nil _ _)
  paths_trimmed file hfile := by
    rw [List.mem_singleton] at hfile
    subst hfile
    have htrimmed : stripped whiteSpace "main.py" = "main.py" ∧ isBlank "main.py" = false := by decide
    exact htrimmed
  paths_apart := List.pairwise_singleton ..

/-- The newline at the end of the file is lost. -/
theorem final_newline_lost : ¬ Delivered whiteSpace linkless candidateWorkspace (oneFile "x = 1\n") := by
  intro h
  have hkept := h.necessary.1 _ (List.mem_singleton_self _)
  exact absurd hkept (by decide)

example : Delivered whiteSpace linkless candidateWorkspace (oneFile "x = 1") := by
  have hmain : Lands linkless ["ws"] "main.py" ["main.py", "ws"] :=
    ⟨⟨by decide, FileTree.walk_eq_some_iff.mp (by decide)⟩, by decide⟩
  refine delivered_of_room ?_ ⟨rfl, ["ws"], ⟨by decide, FileTree.walk_eq_some_iff.mp (by decide)⟩, ?_, ?_⟩
  · intro file hfile
    rw [List.mem_singleton.mp hfile]
    decide
  · intro file hfile
    rw [List.mem_singleton.mp hfile]
    refine ⟨_, hmain, by decide, by decide, .inl (by decide), ?_⟩
    exact FileTree.passable_of_directory rfl
  · intro first hfirst second hsecond place other hplace hother
    rw [List.mem_singleton.mp hfirst] at hplace ⊢
    rw [List.mem_singleton.mp hsecond] at hother ⊢
    rw [hplace.unique hmain, hother.unique hmain]
    exact ⟨FileTree.above_irrefl, fun _ => rfl⟩

end GitWorktree

end AgenticPlatform
