import AgenticPlatform.FilePaths
import Mathlib.Data.List.Infix
import Mathlib.Data.List.Pairwise
import Mathlib.Logic.Function.Basic

/-!
# Writing files

`Path.mkdir` with its parents and `Path.write_text`, at places that no link leads through.
A list of files is written one after the other; each makes the directories above it. A path
may be too long for the kernel, or one name in it: the write fails then, though every check
before it passed.
-/

namespace AgenticPlatform

open LinkedTree

/-- The `OSError`s of a write. -/
inductive OsError where
  | fileExists
  | notADirectory
  | isADirectory
  | nameTooLong
deriving DecidableEq, Repr

/-! ### What the kernel can be told -/

/-- `NAME_MAX`, in bytes. -/
def nameMax : Nat := 255

/-- `PATH_MAX`, without the null character that ends a path. -/
def pathMax : Nat := 4095

/-- The bytes of the absolute path of a place. -/
def pathBytes (place : List String) : Nat :=
  (place.map fun name => name.utf8ByteSize + 1).foldr (· + ·) 0

/-- The kernel takes the path of the place. -/
structure Spelled (place : List String) : Prop where
  names : ∀ name ∈ place, name.utf8ByteSize ≤ nameMax
  path : pathBytes place ≤ pathMax

instance (place : List String) : Decidable (Spelled place) :=
  decidable_of_iff ((∀ name ∈ place, name.utf8ByteSize ≤ nameMax) ∧ pathBytes place ≤ pathMax)
    ⟨fun h => ⟨h.1, h.2⟩, fun h => ⟨h.names, h.path⟩⟩

/-- The outer part of a place, down to the first name that is too long. -/
def fitting : List String → List String
  | [] => []
  | name :: parent =>
    if fitting parent = parent ∧ name.utf8ByteSize ≤ nameMax then name :: parent else fitting parent

theorem fitting_suffix (place : List String) : fitting place <:+ place := by
  induction place with
  | nil => exact List.suffix_refl _
  | cons name parent ih =>
    rw [fitting]
    split
    · exact List.suffix_refl _
    · exact ih.trans (List.suffix_cons _ _)

/-- The directories that a write makes before it finds out that the path is too long. -/
def leftover (place : List String) : List String :=
  if Spelled place ∨ pathMax < pathBytes place.tail then [] else fitting place.tail

theorem leftover_spelled {place : List String} (h : Spelled place) : leftover place = [] :=
  if_pos (.inl h)

theorem leftover_suffix (place : List String) : leftover place <:+ place.tail := by
  rw [leftover]
  split
  · exact List.nil_suffix
  · exact fitting_suffix _

namespace FileTree

variable {tree tree' : FileTree} {place other parent : List String} {name content text : String}
  {entry : Node}

theorem plain_update {node : List String → Option Node} {entry : Node} (hentry : targetOf entry = none)
    (h : Plain (fun place => (node place).bind targetOf) other) :
    Plain (fun place => (Function.update node parent (some entry) place).bind targetOf) other := by
  induction other with
  | nil => exact trivial
  | cons name place ih =>
    refine ⟨?_, ih h.2⟩
    by_cases hplace : name :: place = parent
    · simp only [hplace, Function.update_self, Option.bind_some, hentry]
    · simp only [Function.update_of_ne hplace]
      exact h.1

/-- A file or a directory is put into a directory; a directory is not put out of the way. -/
def put (tree : FileTree) (name : String) (parent : List String) (entry : Node)
    (hentry : targetOf entry = none) (hparent : tree.node parent = some .directory)
    (hkeep : entry = .directory ∨ tree.node (name :: parent) ≠ some .directory) : FileTree where
  node := Function.update tree.node (name :: parent) (some entry)
  links := tree.links
  cwd := tree.cwd
  top := by rw [Function.update_of_ne (List.cons_ne_nil name parent).symm, tree.top]
  rooted child place h := by
    have hplace : tree.node place = some .directory := by
      by_cases hnew : child :: place = name :: parent
      · cases hnew
        exact hparent
      · rw [Function.update_of_ne hnew] at h
        exact tree.rooted child place h
    by_cases hsame : place = name :: parent
    · subst hsame
      rcases hkeep with rfl | hfree
      · rw [Function.update_self]
      · exact absurd hplace hfree
    · rw [Function.update_of_ne hsame, hplace]
  listed place text h := by
    by_cases hsame : place = name :: parent
    · subst hsame
      rw [Function.update_self] at h
      cases h
      cases hentry
    · rw [Function.update_of_ne hsame] at h
      exact tree.listed place text h
  cwd_plain := plain_update hentry tree.cwd_plain

/-- `path.mkdir(parents=True, exist_ok=True)`; the directory is there afterwards. -/
def mkdir (tree : FileTree) : (place : List String) →
    Except OsError { tree' : FileTree // tree'.node place = some .directory }
  | [] => .ok ⟨tree, tree.top⟩
  | name :: parent =>
    match hnode : tree.node (name :: parent) with
    | some .directory => .ok ⟨tree, hnode⟩
    | some _ => .error .fileExists
    | none =>
      match tree.mkdir parent with
      | .error _ => .error .notADirectory
      | .ok ⟨tree', hparent⟩ =>
        .ok ⟨tree'.put name parent .directory rfl hparent (.inl rfl), Function.update_self ..⟩

/-- `path.write_text(content)` in a directory that is there. A resolved path ends in no link. -/
def writeText (tree : FileTree) (name : String) (parent : List String) (content : String)
    (hparent : tree.node parent = some .directory) : Except OsError FileTree :=
  match hnode : tree.node (name :: parent) with
  | some .directory => .error .isADirectory
  | some (.link _) => .error .fileExists
  | some (.file _) => .ok (tree.put name parent (.file content) rfl hparent (.inr (by simp [hnode])))
  | none => .ok (tree.put name parent (.file content) rfl hparent (.inr (by simp [hnode])))

/-- What is raised where a path is too long: a file may be met before the name that is. -/
def refusal (tree : FileTree) (place : List String) : OsError :=
  match tree.mkdir (leftover place) with
  | .error error => if leftover place = place.tail then error else .notADirectory
  | .ok _ => .nameTooLong

/-- One file: its directory, then its content. The root of the tree is a directory. -/
def writeFile (tree : FileTree) (place : List String) (content : String) : Except OsError FileTree :=
  match place with
  | [] => .error .isADirectory
  | name :: parent =>
    if Spelled (name :: parent) then
      match tree.mkdir parent with
      | .error error => .error error
      | .ok ⟨tree', hparent⟩ => tree'.writeText name parent content hparent
    else .error (tree.refusal (name :: parent))

def writeEach (tree : FileTree) : List (List String × String) → Except OsError FileTree
  | [] => .ok tree
  | (place, content) :: rest =>
    match tree.writeFile place content with
    | .error error => .error error
    | .ok tree' => tree'.writeEach rest

/-! ### The directories above a file -/

/-- Nothing but directories at the place and above it, as far as there is anything. -/
def Passable (tree : FileTree) (place : List String) : Prop :=
  ∀ above, above <:+ place → tree.node above = none ∨ tree.node above = some .directory

theorem node_above (h : tree.node place ≠ none) (habove : other <:+ place) (hne : other ≠ place) :
    tree.node other = some .directory := by
  induction place with
  | nil => exact absurd (List.suffix_nil.mp habove) hne
  | cons name parent ih =>
    rcases List.suffix_cons_iff.mp habove with rfl | hparent
    · exact absurd rfl hne
    · have hdirectory := tree.rooted name parent h
      by_cases hsame : other = parent
      · rw [hsame]
        exact hdirectory
      · exact ih (by rw [hdirectory]; exact Option.some_ne_none _) hparent hsame

theorem passable_of_directory (h : tree.node place = some .directory) : tree.Passable place := by
  intro above habove
  by_cases hsame : above = place
  · rw [hsame]
    exact .inr h
  · exact .inr (node_above (by rw [h]; exact Option.some_ne_none _) habove hsame)

theorem passable_cons : tree.Passable (name :: parent) ↔
    (tree.node (name :: parent) = none ∨ tree.node (name :: parent) = some .directory) ∧
      tree.Passable parent := by
  constructor
  · intro h
    exact ⟨h _ (List.suffix_refl _), fun above habove => h above (habove.trans (List.suffix_cons ..))⟩
  · rintro ⟨hplace, hparent⟩ above habove
    rcases List.suffix_cons_iff.mp habove with rfl | hsuffix
    · exact hplace
    · exact hparent above hsuffix

/-- `mkdir` returns where it meets nothing but directories. -/
theorem mkdir_ok_iff : (∃ made, tree.mkdir place = .ok made) ↔ tree.Passable place := by
  induction place with
  | nil => exact iff_of_true ⟨_, rfl⟩ (passable_of_directory tree.top)
  | cons name parent ih =>
    constructor
    · rintro ⟨made, h⟩
      rw [mkdir] at h
      split at h
      · rename_i hnode
        exact passable_of_directory hnode
      · cases h
      · rename_i hnode
        split at h
        · cases h
        · rename_i hmade
          exact passable_cons.mpr ⟨.inl hnode, ih.mp ⟨_, hmade⟩⟩
    · intro h
      rcases passable_cons.mp h with ⟨hnode, hparent⟩
      rcases ih.mpr hparent with ⟨made, hmade⟩
      rw [mkdir]
      split
      · exact ⟨_, rfl⟩
      · rename_i entry hentry hnode'
        rcases hnode with hnone | hdirectory
        · rw [hnone] at hnode'
          cases hnode'
        · rw [hdirectory] at hnode'
          cases hnode'
          exact absurd rfl hentry
      · split
        · rename_i herror
          rw [hmade] at herror
          cases herror
        · exact ⟨_, rfl⟩

/-- The directories are made, and nothing else changes. -/
theorem mkdir_node {made : { tree' : FileTree // tree'.node place = some .directory }}
    (h : tree.mkdir place = .ok made) :
    made.1.node other = if other <:+ place then some .directory else tree.node other := by
  induction place with
  | nil =>
    cases h
    by_cases hother : other <:+ []
    · rw [if_pos hother, List.suffix_nil.mp hother, tree.top]
    · rw [if_neg hother]
  | cons name parent ih =>
    rw [mkdir] at h
    split at h
    · rename_i hnode
      cases h
      by_cases hother : other <:+ name :: parent
      · rw [if_pos hother]
        by_cases hsame : other = name :: parent
        · rw [hsame, hnode]
        · exact node_above (by rw [hnode]; exact Option.some_ne_none _) hother hsame
      · rw [if_neg hother]
    · cases h
    · split at h
      · cases h
      · rename_i hmade
        cases h
        have hbefore := ih hmade
        by_cases hsame : other = name :: parent
        · rw [hsame, if_pos (List.suffix_refl _)]
          exact Function.update_self ..
        · refine (Function.update_of_ne hsame ..).trans (hbefore.trans ?_)
          simp only [List.suffix_cons_iff, hsame, false_or]

/-! ### One file -/

/-- A file can be written: nothing or a file is there, below nothing but directories, and its
    path is not too long. -/
structure Free (tree : FileTree) (place : List String) : Prop where
  below : place ≠ []
  spelled : Spelled place
  vacant : tree.node place = none ∨ ∃ content, tree.node place = some (.file content)
  passable : tree.Passable place.tail

theorem writeText_node {hparent : tree.node parent = some .directory}
    (h : tree.writeText name parent content hparent = .ok tree') :
    tree'.node = Function.update tree.node (name :: parent) (some (.file content)) := by
  rw [writeText] at h
  split at h
  · cases h
  · cases h
  · cases h
    rfl
  · cases h
    rfl

theorem writeText_ok_iff {hparent : tree.node parent = some .directory} :
    (∃ tree', tree.writeText name parent content hparent = .ok tree') ↔
      tree.node (name :: parent) = none ∨ ∃ content, tree.node (name :: parent) = some (.file content) := by
  rw [writeText]
  split
  · rename_i hnode
    refine iff_of_false (fun ⟨_, h⟩ => by cases h) ?_
    simp [hnode]
  · rename_i hnode
    refine iff_of_false (fun ⟨_, h⟩ => by cases h) ?_
    simp [hnode]
  · rename_i hnode
    exact iff_of_true ⟨_, rfl⟩ (.inr ⟨_, hnode⟩)
  · rename_i hnode
    exact iff_of_true ⟨_, rfl⟩ (.inl hnode)

theorem not_suffix_tail : ¬ name :: parent <:+ parent := by
  intro h
  have hlength := h.length_le
  rw [List.length_cons] at hlength
  omega

theorem writeFile_ok_iff : (∃ tree', tree.writeFile place content = .ok tree') ↔ tree.Free place := by
  rcases place with - | ⟨name, parent⟩
  · exact iff_of_false (fun ⟨_, h⟩ => by cases h) fun h => h.below rfl
  · by_cases hspelled : Spelled (name :: parent)
    swap
    · refine iff_of_false ?_ fun h => hspelled h.spelled
      rintro ⟨tree', h⟩
      rw [writeFile, if_neg hspelled] at h
      cases h
    rcases hmkdir : tree.mkdir parent with error | made
    · refine iff_of_false ?_ ?_
      · rintro ⟨tree', h⟩
        simp only [writeFile, if_pos hspelled, hmkdir] at h
        cases h
      · intro h
        have hpassable : tree.Passable parent := h.passable
        rcases mkdir_ok_iff.mpr hpassable with ⟨made, hmade⟩
        rw [hmkdir] at hmade
        cases hmade
    · have hnode : made.1.node (name :: parent) = tree.node (name :: parent) :=
        (mkdir_node hmkdir).trans (if_neg not_suffix_tail)
      have hpassable : tree.Passable parent := mkdir_ok_iff.mp ⟨made, hmkdir⟩
      simp only [writeFile, if_pos hspelled, hmkdir]
      rw [writeText_ok_iff, hnode]
      constructor
      · intro h
        exact ⟨List.cons_ne_nil name parent, hspelled, h, hpassable⟩
      · exact Free.vacant

theorem writeFile_node (h : tree.writeFile place content = .ok tree') :
    tree'.node other = if other = place then some (.file content)
      else if other <:+ place.tail then some .directory else tree.node other := by
  rcases place with - | ⟨name, parent⟩
  · cases h
  · rw [writeFile] at h
    split at h
    swap
    · cases h
    split at h
    · cases h
    · rename_i hmade
      rw [writeText_node h]
      by_cases hsame : other = name :: parent
      · rw [if_pos hsame, hsame, Function.update_self]
      · rw [if_neg hsame, Function.update_of_ne hsame, List.tail_cons]
        exact mkdir_node hmade

/-! ### One file after the other -/

/-- A place above another one. -/
def Above (place other : List String) : Prop := place <:+ other.tail ∧ other ≠ []

theorem not_suffix_own_tail (h : place ≠ []) : ¬ place <:+ place.tail := by
  rcases place with - | ⟨name, parent⟩
  · exact absurd rfl h
  · exact not_suffix_tail

theorem writeFile_node_self (h : tree.writeFile place content = .ok tree') :
    tree'.node place = some (.file content) := by
  rw [writeFile_node h, if_pos rfl]

/-- A place that is neither written nor above the written one keeps what it has. -/
theorem writeFile_node_other (h : tree.writeFile place content = .ok tree') (hne : other ≠ place)
    (habove : ¬ other <:+ place.tail) : tree'.node other = tree.node other := by
  rw [writeFile_node h, if_neg hne, if_neg habove]

theorem writeFile_node_above (h : tree.writeFile place content = .ok tree')
    (habove : other <:+ place.tail) (hplace : place ≠ []) : tree'.node other = some .directory := by
  rw [writeFile_node h, if_neg, if_pos habove]
  rintro rfl
  exact not_suffix_own_tail hplace habove

theorem Free.after (hfree : tree.Free place) (h : tree.writeFile place content = .ok tree')
    (hother : tree.Free other) (hplace : ¬ Above place other) (hbelow : ¬ Above other place) :
    tree'.Free other := by
  refine ⟨hother.below, hother.spelled, ?_, ?_⟩
  · by_cases hsame : other = place
    · rw [hsame]
      exact .inr ⟨content, writeFile_node_self h⟩
    · rw [writeFile_node_other h hsame fun habove => hbelow ⟨habove, hfree.below⟩]
      exact hother.vacant
  · intro above habove
    by_cases hsuffix : above <:+ place.tail
    · exact .inr (writeFile_node_above h hsuffix hfree.below)
    · rw [writeFile_node_other h ?_ hsuffix]
      · exact hother.passable above habove
      · rintro rfl
        exact hplace ⟨habove, hother.below⟩

theorem Free.before (hfree : tree.Free place) (h : tree.writeFile place content = .ok tree')
    (hother : tree'.Free other) : tree.Free other ∧ ¬ Above place other ∧ ¬ Above other place := by
  have hplace : ¬ Above place other := by
    rintro ⟨habove, -⟩
    have hfile := writeFile_node_self h
    rcases hother.passable place habove with hnone | hdirectory
    · rw [hnone] at hfile
      cases hfile
    · rw [hdirectory] at hfile
      cases hfile
  have hbelow : ¬ Above other place := by
    rintro ⟨habove, -⟩
    have hdirectory := writeFile_node_above h habove hfree.below
    rcases hother.vacant with hnone | ⟨text, hfile⟩
    · rw [hnone] at hdirectory
      cases hdirectory
    · rw [hfile] at hdirectory
      cases hdirectory
  refine ⟨⟨hother.below, hother.spelled, ?_, ?_⟩, hplace, hbelow⟩
  · by_cases hsame : other = place
    · rw [hsame]
      exact hfree.vacant
    · rw [← writeFile_node_other h hsame fun habove => hbelow ⟨habove, hfree.below⟩]
      exact hother.vacant
  · intro above habove
    by_cases hsuffix : above <:+ place.tail
    · exact hfree.passable above hsuffix
    · rw [← writeFile_node_other h ?_ hsuffix]
      · exact hother.passable above habove
      · rintro rfl
        exact hplace ⟨habove, hother.below⟩

/-- Writing one file leaves room for another one exactly if neither is above the other. -/
theorem free_after (hfree : tree.Free place) (h : tree.writeFile place content = .ok tree') :
    tree'.Free other ↔ tree.Free other ∧ ¬ Above place other ∧ ¬ Above other place := by
  constructor
  · exact hfree.before h
  · rintro ⟨hother, hplace, hbelow⟩
    exact hfree.after h hother hplace hbelow

/-- A file stays what it is while others are written. -/
theorem writeFile_file (h : tree.writeFile place content = .ok tree')
    (hother : tree.node other = some (.file text)) (hne : other ≠ place) :
    tree'.node other = some (.file text) := by
  have hfree : tree.Free place := writeFile_ok_iff.mp ⟨tree', h⟩
  rw [writeFile_node h, if_neg hne, if_neg, hother]
  intro habove
  rcases hfree.passable other habove with hnone | hdirectory
  · rw [hother] at hnone
    cases hnone
  · rw [hother] at hdirectory
    cases hdirectory

variable {writes : List (List String × String)}

theorem above_irrefl : ¬ Above place place := fun h => not_suffix_own_tail h.2 h.1

theorem pairwise_apart_iff :
    (writes.Pairwise fun first second => ¬ Above first.1 second.1 ∧ ¬ Above second.1 first.1) ↔
      ∀ first ∈ writes, ∀ second ∈ writes, ¬ Above first.1 second.1 := by
  constructor
  · intro h first hfirst second hsecond
    have : Std.Symm fun first second : List String × String =>
        ¬ Above first.1 second.1 ∧ ¬ Above second.1 first.1 := ⟨fun _ _ hapart => ⟨hapart.2, hapart.1⟩⟩
    have hall := h.forall_of_forall fun write _ => ⟨above_irrefl, above_irrefl⟩
    exact (hall hfirst hsecond).1
  · intro h
    exact List.pairwise_of_forall_mem_list fun first hfirst second hsecond =>
      ⟨h first hfirst second hsecond, h second hsecond first hfirst⟩

/-- All files are written exactly if there is room for each, and none is above another one. -/
theorem writeEach_ok_iff_pairwise : (∃ tree', tree.writeEach writes = .ok tree') ↔
    (∀ write ∈ writes, tree.Free write.1) ∧
      writes.Pairwise fun first second => ¬ Above first.1 second.1 ∧ ¬ Above second.1 first.1 := by
  induction writes generalizing tree with
  | nil => exact iff_of_true ⟨tree, rfl⟩ ⟨(fun write h => by cases h), List.Pairwise.nil⟩
  | cons write rest ih =>
    rcases write with ⟨place, content⟩
    rcases hwrite : tree.writeFile place content with error | next
    · refine iff_of_false ?_ ?_
      · rintro ⟨tree', h⟩
        simp only [writeEach, hwrite] at h
        cases h
      · rintro ⟨hfree, -⟩
        rcases writeFile_ok_iff.mpr (hfree _ List.mem_cons_self) with ⟨next, hnext⟩
        rw [hwrite] at hnext
        cases hnext
    · have hplace : tree.Free place := writeFile_ok_iff.mp ⟨next, hwrite⟩
      simp only [writeEach, hwrite]
      rw [ih, List.forall_mem_cons, List.pairwise_cons]
      constructor
      · rintro ⟨hrest, hpair⟩
        refine ⟨⟨hplace, fun write hwrites => ?_⟩, fun write hwrites => ?_, hpair⟩
        · exact ((free_after hplace hwrite).mp (hrest write hwrites)).1
        · exact ((free_after hplace hwrite).mp (hrest write hwrites)).2
      · rintro ⟨⟨-, hrest⟩, hfirst, hpair⟩
        exact ⟨fun write hwrites => (free_after hplace hwrite).mpr ⟨hrest write hwrites, hfirst write hwrites⟩,
          hpair⟩

theorem writeEach_ok_iff : (∃ tree', tree.writeEach writes = .ok tree') ↔
    (∀ write ∈ writes, tree.Free write.1) ∧
      ∀ first ∈ writes, ∀ second ∈ writes, ¬ Above first.1 second.1 := by
  rw [writeEach_ok_iff_pairwise, pairwise_apart_iff]

theorem writeEach_file (h : tree.writeEach writes = .ok tree')
    (hother : tree.node other = some (.file text)) (hne : ∀ write ∈ writes, other ≠ write.1) :
    tree'.node other = some (.file text) := by
  induction writes generalizing tree with
  | nil =>
    cases h
    exact hother
  | cons write rest ih =>
    rw [writeEach] at h
    split at h
    · cases h
    · rename_i hwrite
      rw [List.forall_mem_cons] at hne
      exact ih h (writeFile_file hwrite hother hne.1) hne.2

/-- A written place ends up with the content of one of the writes to it. -/
theorem writeEach_node (h : tree.writeEach writes = .ok tree') {write : List String × String}
    (hwrite : write ∈ writes) :
    ∃ last ∈ writes, last.1 = write.1 ∧ tree'.node write.1 = some (.file last.2) := by
  induction writes generalizing tree write with
  | nil => cases hwrite
  | cons first rest ih =>
    rw [writeEach] at h
    split at h
    · cases h
    · rename_i next hfirst
      by_cases hlater : ∃ later ∈ rest, later.1 = write.1
      · rcases hlater with ⟨later, hmem, hsame⟩
        rcases ih h hmem with ⟨last, hlast, hplace, hnode⟩
        rw [hsame] at hplace hnode
        exact ⟨last, List.mem_cons_of_mem _ hlast, hplace, hnode⟩
      · -- Nothing is written there again, so `write` is the first one.
        have hsame : write = first := by
          rcases List.mem_cons.mp hwrite with hsame | hmem
          · exact hsame
          · exact absurd ⟨write, hmem, rfl⟩ hlater
        subst hsame
        refine ⟨write, List.mem_cons_self, rfl, ?_⟩
        refine writeEach_file h (writeFile_node_self hfirst) ?_
        intro later hmem hplace
        exact hlater ⟨later, hmem, hplace.symm⟩

/-! ### Links stay as they are -/

theorem target_writeFile (h : tree.writeFile place content = .ok tree') :
    tree'.target = tree.target := by
  have hfree : tree.Free place := writeFile_ok_iff.mp ⟨tree', h⟩
  funext other
  by_cases hsame : other = place
  · rw [hsame, target, target, writeFile_node_self h]
    rcases hfree.vacant with hnone | ⟨text, hfile⟩
    · rw [hnone]
      rfl
    · rw [hfile]
      rfl
  · by_cases habove : other <:+ place.tail
    · rw [target, target, writeFile_node_above h habove hfree.below]
      rcases hfree.passable other habove with hnone | hdirectory
      · rw [hnone]
        rfl
      · rw [hdirectory]
    · rw [target, target, writeFile_node_other h hsame habove]

theorem target_writeEach (h : tree.writeEach writes = .ok tree') : tree'.target = tree.target := by
  induction writes generalizing tree with
  | nil =>
    cases h
    rfl
  | cons write rest ih =>
    rw [writeEach] at h
    split at h
    · cases h
    · rename_i hwrite
      exact (ih h).trans (target_writeFile hwrite)

end FileTree

end AgenticPlatform
