import AgenticPlatform.BatchWrites

/-!
# Texts and their bytes

`_write_all` on a tree whose files are texts, and on a drive whose files are bytes. Where the
bytes are the texts in UTF-8, a call on the drive raises what the call on the tree raises, and
what it leaves holds what that leaves.
-/

namespace AgenticPlatform

/-! ### A drive that holds a tree -/

/-- What sits at a place, without the text in it. -/
def Node.bare : Node → Node
  | .file _ => .file ""
  | .directory => .directory
  | .link text => .link text

theorem targetOf_bare (entry : Node) : targetOf entry.bare = targetOf entry := by
  cases entry <;> rfl

/-- The drive has the texts of the tree in UTF-8, and all else as the tree has it. -/
structure Drive.Encodes (drive : Drive) (tree : FileTree) : Prop where
  node : ∀ place, drive.tree.node place = (tree.node place).map Node.bare
  links : drive.tree.links = tree.links
  cwd : drive.tree.cwd = tree.cwd
  bytes : ∀ place content, tree.node place = some (.file content) →
    Utf8.encode (Utf8.codePoints content) = some (drive.bytes place)

namespace FileTree

variable {tree : FileTree} {place parent : List String} {child : String} {content text : String}

theorem top_bare (tree : FileTree) : (tree.node []).map Node.bare = some .directory := by
  rw [tree.top]
  rfl

theorem rooted_bare (h : (tree.node (child :: place)).map Node.bare ≠ none) :
    (tree.node place).map Node.bare = some .directory := by
  have hnode : tree.node (child :: place) ≠ none := fun hnone => h (by rw [hnone]; rfl)
  rw [tree.rooted child place hnode]
  rfl

theorem link_of_bare (h : (tree.node place).map Node.bare = some (.link text)) :
    tree.node place = some (.link text) := by
  rcases hnode : tree.node place with - | ⟨content | - | target⟩
  · rw [hnode] at h
    cases h
  · rw [hnode] at h
    cases h
  · rw [hnode] at h
    cases h
  · rw [hnode] at h
    cases h
    rfl

theorem file_of_bare (h : (tree.node place).map Node.bare = some (.file content)) :
    content = "" ∧ ∃ text, tree.node place = some (.file text) := by
  rcases hnode : tree.node place with - | ⟨text | - | target⟩
  · rw [hnode] at h
    cases h
  · rw [hnode] at h
    cases h
    exact ⟨rfl, text, rfl⟩
  · rw [hnode] at h
    cases h
  · rw [hnode] at h
    cases h

theorem target_bare (tree : FileTree) :
    (fun place => ((tree.node place).map Node.bare).bind targetOf) =
      fun place => (tree.node place).bind targetOf := by
  funext place
  cases tree.node place with
  | none => rfl
  | some entry => exact targetOf_bare entry

/-- The tree with its files empty. -/
def bare (tree : FileTree) : FileTree where
  node place := (tree.node place).map Node.bare
  links := tree.links
  cwd := tree.cwd
  top := top_bare tree
  rooted _ _ h := rooted_bare h
  listed place text h := tree.listed place text (link_of_bare h)
  cwd_plain := (target_bare tree).symm ▸ tree.cwd_plain

/-- The bytes of the text at a place. -/
def bytesAt (tree : FileTree) (place : List String) : List UInt8 :=
  match tree.node place with
  | some (.file content) => (Utf8.codePoints content).flatMap Utf8.bytesOf
  | _ => []

theorem bytesAt_of_file (h : tree.node place = some (.file content)) :
    tree.bytesAt place = (Utf8.codePoints content).flatMap Utf8.bytesOf := by
  simp only [bytesAt, h]

theorem bytesAt_of_no_file (h : (tree.node place).map Node.bare ≠ some (.file "")) :
    tree.bytesAt place = [] := by
  rcases hnode : tree.node place with - | ⟨text | - | target⟩
  · simp only [bytesAt, hnode]
  · exact absurd (by rw [hnode]; rfl) h
  · simp only [bytesAt, hnode]
  · simp only [bytesAt, hnode]

end FileTree

/-- The drive with the texts of a tree in UTF-8. -/
def Drive.ofTree (tree : FileTree) : Drive where
  tree := tree.bare
  bytes := tree.bytesAt
  hollow _ _ h := (FileTree.file_of_bare h).1
  empty _ h := FileTree.bytesAt_of_no_file h

/-- Every tree is held by a drive. -/
theorem Drive.encodes_ofTree (tree : FileTree) : (Drive.ofTree tree).Encodes tree where
  node _ := rfl
  links := rfl
  cwd := rfl
  bytes place content h := by
    rw [Utf8.encode, if_pos (Utf8.hasEncoding_codePoints content)]
    exact congrArg some (FileTree.bytesAt_of_file h).symm

namespace FileTree

variable {tree tree' : FileTree} {place parent : List String} {name content : String} {error : OsError}

/-- What `mkdir` raises tells whether the place itself is taken. -/
theorem mkdir_eq_error (h : tree.mkdir place = .error error) :
    error = if tree.node place = none then .notADirectory else .fileExists := by
  rcases place with - | ⟨name, parent⟩
  · cases h
  · rw [mkdir] at h
    split at h
    · cases h
    · rename_i hentry hnode
      cases h
      rw [if_neg (by rw [hnode]; exact Option.some_ne_none _)]
    · rename_i hnode
      split at h
      · cases h
        rw [if_pos hnode]
      · cases h

theorem writeText_eq_error {hparent : tree.node parent = some .directory}
    (h : tree.writeText name parent content hparent = .error error) :
    error = if tree.node (name :: parent) = some .directory then .isADirectory else .fileExists := by
  rw [writeText] at h
  split at h
  · rename_i hnode
    cases h
    rw [if_pos hnode]
  · rename_i hnode
    cases h
    rw [if_neg (by rw [hnode]; simp)]
  · cases h
  · cases h

end FileTree

namespace Drive.Encodes

variable {drive : Drive} {tree : FileTree} {place parent : List String} {name content : String}

theorem target (h : drive.Encodes tree) : drive.tree.target = tree.target := by
  funext place
  rw [FileTree.target, FileTree.target, h.node]
  cases tree.node place with
  | none => rfl
  | some entry => exact targetOf_bare entry

theorem resolve (h : drive.Encodes tree) (path : PosixPath) :
    drive.tree.resolve path = tree.resolve path := by
  rw [FileTree.resolve, FileTree.resolve, FileTree.origin, FileTree.origin, h.target, h.links, h.cwd]

theorem node_eq_none (h : drive.Encodes tree) : drive.tree.node place = none ↔ tree.node place = none := by
  rw [h.node, Option.map_eq_none_iff]

theorem node_eq_directory (h : drive.Encodes tree) :
    drive.tree.node place = some .directory ↔ tree.node place = some .directory := by
  rw [h.node]
  rcases tree.node place with - | ⟨content | - | text⟩
  · simp
  · simp [Node.bare]
  · simp [Node.bare]
  · simp [Node.bare]

theorem node_eq_file (h : drive.Encodes tree) :
    (∃ text, drive.tree.node place = some (.file text)) ↔ ∃ text, tree.node place = some (.file text) := by
  rw [h.node]
  rcases tree.node place with - | ⟨content | - | text⟩
  · simp
  · simp [Node.bare]
  · simp [Node.bare]
  · simp [Node.bare]

theorem passable (h : drive.Encodes tree) : drive.tree.Passable place ↔ tree.Passable place := by
  simp only [FileTree.Passable, h.node_eq_none, h.node_eq_directory]

/-! ### One file -/

/-- `mkdir` raises the same on both, or the drive still holds the tree. -/
theorem mkdir_cases (h : drive.Encodes tree) (place : List String) :
    (∃ error, tree.mkdir place = .error error ∧ drive.mkdir place = .error error) ∨
      ∃ made made', tree.mkdir place = .ok made ∧ drive.mkdir place = .ok made' ∧
        made'.1.Encodes made.1 := by
  cases htree : tree.mkdir place with
  | error error =>
    cases hdrive : drive.mkdir place with
    | ok made =>
      have hpassable : drive.tree.Passable place :=
        FileTree.mkdir_ok_iff.mp ⟨_, (mkdir_eq_ok hdrive).2⟩
      obtain ⟨made', hmade⟩ := FileTree.mkdir_ok_iff.mpr (h.passable.mp hpassable)
      rw [hmade] at htree
      cases htree
    | error other =>
      have hother : other = _ := FileTree.mkdir_eq_error (mkdir_eq_error hdrive)
      simp only [h.node_eq_none] at hother
      rw [hother, FileTree.mkdir_eq_error htree]
      exact .inl ⟨_, rfl, rfl⟩
  | ok made =>
    cases hdrive : drive.mkdir place with
    | error error =>
      have hpassable : tree.Passable place := FileTree.mkdir_ok_iff.mp ⟨_, htree⟩
      obtain ⟨made', hmade⟩ := FileTree.mkdir_ok_iff.mpr (h.passable.mpr hpassable)
      rw [mkdir_eq_error hdrive] at hmade
      cases hmade
    | ok made' =>
      obtain ⟨hbytes, hmkdir⟩ := mkdir_eq_ok hdrive
      have hframe := FileTree.mkdir_frame htree
      have hframe' := FileTree.mkdir_frame hmkdir
      refine .inr ⟨made, made', rfl, rfl, ?_, ?_, ?_, ?_⟩
      · intro other
        have hnode : made'.1.tree.node other = _ := FileTree.mkdir_node hmkdir
        rw [hnode, FileTree.mkdir_node htree, h.node]
        split
        · rfl
        · rfl
      · exact hframe'.1.trans (h.links.trans hframe.1.symm)
      · exact hframe'.2.trans (h.cwd.trans hframe.2.symm)
      · intro other content hfile
        rw [hbytes]
        exact h.bytes other content ((FileTree.mkdir_file htree).mp hfile)

theorem refusal (h : drive.Encodes tree) (place : List String) :
    drive.tree.refusal place = tree.refusal place := by
  rcases h.mkdir_cases (leftover place) with ⟨error, htree, hdrive⟩ | ⟨made, made', htree, hdrive, -⟩
  · rw [FileTree.refusal, FileTree.refusal, htree, mkdir_eq_error hdrive]
  · rw [FileTree.refusal, FileTree.refusal, htree, (mkdir_eq_ok hdrive).2]

variable {hparent : tree.node parent = some .directory} {hparent' : drive.tree.node parent = some .directory}

theorem writeText_ok_iff (h : drive.Encodes tree) :
    (∃ opened, drive.tree.writeText name parent "" hparent' = .ok opened) ↔
      ∃ tree', tree.writeText name parent content hparent = .ok tree' := by
  rw [FileTree.writeText_ok_iff, FileTree.writeText_ok_iff, h.node_eq_none, h.node_eq_file]

/-- A text is refused on both, or written to both. -/
theorem writeText_cases (h : drive.Encodes tree) :
    (∃ error, tree.writeText name parent content hparent = .error error ∧
        (drive.writeText name parent hparent' (Utf8.codePoints content)).2 = some (.os error)) ∨
      ∃ tree' drive', tree.writeText name parent content hparent = .ok tree' ∧
        drive.writeText name parent hparent' (Utf8.codePoints content) = (drive', none) ∧
        drive'.Encodes tree' := by
  have hroom : (∃ opened, drive.tree.writeText name parent "" hparent' = .ok opened) ↔
      ∃ tree', tree.writeText name parent content hparent = .ok tree' := h.writeText_ok_iff
  cases htree : tree.writeText name parent content hparent with
  | error error =>
    cases hopen : drive.openText name parent hparent' with
    | ok opened =>
      obtain ⟨tree', hwritten⟩ := hroom.mp ⟨_, (openText_eq_ok hopen).1⟩
      rw [hwritten] at htree
      cases htree
    | error other =>
      have hother : other = _ := FileTree.writeText_eq_error (openText_eq_error hopen)
      simp only [h.node_eq_directory] at hother
      refine .inl ⟨error, rfl, ?_⟩
      rw [writeText, hopen, hother, FileTree.writeText_eq_error htree]
  | ok tree' =>
    cases hopen : drive.openText name parent hparent' with
    | error error =>
      obtain ⟨opened, hopened⟩ := hroom.mpr ⟨tree', htree⟩
      rw [openText_eq_error hopen] at hopened
      cases hopened
    | ok opened =>
      obtain ⟨hopened, hemptied⟩ := openText_eq_ok hopen
      have hencoded := Utf8.hasEncoding_codePoints content
      have hframe := FileTree.writeText_frame htree
      have hframe' := FileTree.writeText_frame hopened
      refine .inr ⟨tree', opened.1.fill (name :: parent) opened.2
        ((Utf8.codePoints content).flatMap Utf8.bytesOf), rfl, ?_, ?_, ?_, ?_, ?_⟩
      · simp only [writeText, hopen, Utf8.encode, if_pos hencoded]
      · intro other
        rw [fill, FileTree.writeText_node hopened, FileTree.writeText_node htree]
        by_cases hsame : other = name :: parent
        · rw [hsame, Function.update_self, Function.update_self]
          rfl
        · rw [Function.update_of_ne hsame, Function.update_of_ne hsame, h.node]
      · exact hframe'.1.trans (h.links.trans hframe.1.symm)
      · exact hframe'.2.trans (h.cwd.trans hframe.2.symm)
      · intro other text hfile
        have hbytes : (opened.1.fill (name :: parent) opened.2
            ((Utf8.codePoints content).flatMap Utf8.bytesOf)).bytes =
            Function.update drive.bytes (name :: parent)
              ((Utf8.codePoints content).flatMap Utf8.bytesOf) := by
          simp only [fill, hemptied, Function.update_idem]
        rw [FileTree.writeText_node htree] at hfile
        rw [hbytes]
        by_cases hsame : other = name :: parent
        · rw [hsame, Function.update_self] at hfile
          cases hfile
          rw [hsame, Function.update_self, Utf8.encode, if_pos hencoded]
        · rw [Function.update_of_ne hsame] at hfile
          rw [Function.update_of_ne hsame]
          exact h.bytes other text hfile

/-- What a write of a text does on both. -/
theorem writeFile_cases (h : drive.Encodes tree) (place : List String) (content : String) :
    (∃ error, tree.writeFile place content = .error error ∧
        (drive.writeFile place (Utf8.codePoints content)).2 = some (.os error)) ∨
      ∃ tree' drive', tree.writeFile place content = .ok tree' ∧
        drive.writeFile place (Utf8.codePoints content) = (drive', none) ∧ drive'.Encodes tree' := by
  rcases place with - | ⟨name, parent⟩
  · exact .inl ⟨_, rfl, rfl⟩
  by_cases hspelled : Spelled (name :: parent)
  swap
  · refine .inl ⟨_, if_neg hspelled, ?_⟩
    rw [writeFile, if_neg hspelled, h.refusal]
  rcases h.mkdir_cases parent with ⟨error, htree, hdrive⟩ | ⟨made, made', htree, hdrive, hmade⟩
  · refine .inl ⟨error, ?_, ?_⟩
    · simp only [FileTree.writeFile, if_pos hspelled, htree]
    · simp only [writeFile, if_pos hspelled, hdrive]
  · simp only [FileTree.writeFile, writeFile, if_pos hspelled, htree, hdrive]
    exact hmade.writeText_cases

/-! ### A batch of files -/

/-- One text after the other, until one fails. -/
theorem writeEach_cases (h : drive.Encodes tree) (writes : List (List String × String)) :
    (∃ error, tree.writeEach writes = .error error ∧
        (drive.writeEach (writes.map fun write => (write.1, Utf8.codePoints write.2))).2 =
          some (.os error)) ∨
      ∃ tree' drive', tree.writeEach writes = .ok tree' ∧
        drive.writeEach (writes.map fun write => (write.1, Utf8.codePoints write.2)) =
          (drive', none) ∧ drive'.Encodes tree' := by
  induction writes generalizing drive tree with
  | nil => exact .inr ⟨tree, drive, rfl, rfl, h⟩
  | cons write rest ih =>
    rcases write with ⟨place, content⟩
    simp only [List.map_cons, FileTree.writeEach, writeEach]
    rcases h.writeFile_cases place content with
      ⟨error, htree, hdrive⟩ | ⟨tree', drive', htree, hdrive, hnext⟩
    · simp only [htree, hdrive]
      exact .inl ⟨error, rfl, rfl⟩
    · simp only [htree, hdrive]
      exact ih hnext

end Drive.Encodes

namespace BatchWrites

open GitWorktree

variable {drive : Drive} {tree : FileTree}

/-- The files of a batch with their contents as code points. -/
def ofTexts (files : List (String × String)) : List (String × List Utf8.CodePoint) :=
  files.map fun file => (file.1, Utf8.codePoints file.2)

/-- The first pass leaves the contents as they are. -/
theorem resolveTargets_contents {root : String} {base : PosixPath} {files : List (String × String)}
    {writes : List (List String × String)} (h : resolveTargets tree root base files = .ok writes) :
    writes.map Prod.snd = files.map Prod.snd := by
  induction files generalizing writes with
  | nil =>
    cases h
    rfl
  | cons file rest ih =>
    rw [resolveTargets] at h
    split at h
    · cases h
    · split at h
      · cases h
      · split at h
        · cases h
        · rename_i hrest
          cases h
          rw [List.map_cons, List.map_cons, ih hrest]

/-- The first pass looks at the paths only. -/
theorem resolveTargets_bare (h : drive.Encodes tree) (root : String) (base : PosixPath)
    (files : List (String × String)) :
    resolveTargets drive.tree root base (files.map fun file => (file.1, "")) =
      (resolveTargets tree root base files).map fun writes => writes.map fun write => (write.1, "") := by
  induction files with
  | nil => rfl
  | cons file rest ih =>
    rcases file with ⟨relative, content⟩
    simp only [List.map_cons, resolveTargets, h.resolve, ih]
    cases tree.resolve (base.join relative) with
    | error error => rfl
    | ok target =>
      by_cases hinside : target.isRelativeTo base = false
      · simp only [hinside, if_true]
        rfl
      · simp only [if_neg hinside]
        cases resolveTargets tree root base rest with
        | error error => rfl
        | ok writes => rfl

theorem checkTargets_ofTexts (h : drive.Encodes tree) (root : String) (base : PosixPath)
    (files : List (String × String)) :
    checkTargets drive.tree root base (ofTexts files) =
      (resolveTargets tree root base files).map fun writes =>
        writes.map fun write => (write.1, Utf8.codePoints write.2) := by
  have hbare : (ofTexts files).map (fun file => (file.1, "")) = files.map fun file => (file.1, "") := by
    rw [ofTexts, List.map_map]
    rfl
  have hcontents : (ofTexts files).map Prod.snd = (files.map Prod.snd).map Utf8.codePoints := by
    rw [ofTexts, List.map_map, List.map_map]
    rfl
  rw [checkTargets, hbare, resolveTargets_bare h, hcontents]
  cases hwrites : resolveTargets tree root base files with
  | error error => rfl
  | ok writes =>
    rw [← resolveTargets_contents hwrites]
    simp only [Except.map, List.map_map]
    rw [List.zip_map']
    rfl

/-- What a call on texts raises, raised by the call on their bytes. -/
def errorOf : WriteError → BatchError
  | .os error => .failed (.os error)
  | error => .refused error

/-- The first pass raises no error of the operating system. -/
theorem errorOf_refused {root : String} {base : PosixPath} {files : List (String × String)}
    {error : WriteError} (h : resolveTargets tree root base files = .error error) :
    errorOf error = .refused error := by
  induction files with
  | nil => cases h
  | cons file rest ih =>
    rw [resolveTargets] at h
    split at h
    · cases h
      rfl
    · split at h
      · cases h
        rfl
      · split at h
        · rename_i hrest
          cases h
          exact ih hrest
        · cases h

/-- **A drive that holds the texts of a tree keeps holding them**: `_write_all` raises the same on
    both, or writes to both. -/
theorem writeAll_encodes (h : drive.Encodes tree) (root : String) (files : List (String × String)) :
    (∃ error, GitWorktree.writeAll tree root files = .error error ∧
        (writeAll drive root (ofTexts files)).2 = .error (errorOf error)) ∨
      ∃ tree' drive', GitWorktree.writeAll tree root files = .ok tree' ∧
        writeAll drive root (ofTexts files) = (drive', .ok (files.map Prod.fst)) ∧
        drive'.Encodes tree' := by
  rw [GitWorktree.writeAll, writeAll, h.resolve]
  cases tree.resolve (.parse root) with
  | error error => exact .inl ⟨_, rfl, rfl⟩
  | ok base =>
    simp only [checkTargets_ofTexts h]
    cases hwrites : resolveTargets tree root base files with
    | error error => exact .inl ⟨error, rfl, congrArg Except.error (errorOf_refused hwrites).symm⟩
    | ok writes =>
      have hpaths : (ofTexts files).map Prod.fst = files.map Prod.fst := by
        rw [ofTexts, List.map_map]
        rfl
      simp only [Except.map, hpaths]
      rcases h.writeEach_cases writes with ⟨error, htree, hdrive⟩ | ⟨tree', drive', htree, hdrive, hnext⟩
      · refine .inl ⟨.os error, ?_, ?_⟩
        · rw [htree]
        · simp only [hdrive]
          rfl
      · refine .inr ⟨tree', drive', ?_, ?_, hnext⟩
        · rw [htree]
        · rw [hdrive]

end BatchWrites

end AgenticPlatform
