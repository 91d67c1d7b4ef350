import AgenticPlatform.FileWrites
import AgenticPlatform.Utf8

/-!
# What is in the files

A drive is a file tree and the bytes in its files. `Path.write_text` opens a file, which
empties it, before it encodes the text, so a text that has no encoding leaves an empty
file behind. Files are written one after the other until one fails.
-/

namespace AgenticPlatform

/-- Why a text is not written. -/
inductive TextError where
  | os (error : OsError)
  | unicodeEncode
deriving DecidableEq, Repr

/-- A file tree and the bytes in its files. The tree itself has its files empty. -/
structure Drive where
  tree : FileTree
  bytes : List String → List UInt8
  hollow : ∀ place content, tree.node place = some (.file content) → content = ""
  empty : ∀ place, tree.node place ≠ some (.file "") → bytes place = []

namespace FileTree

variable {tree tree' : FileTree} {place other parent : List String} {name content : String}

/-- Making directories puts no file out of the way. -/
theorem mkdir_file {made : { tree' : FileTree // tree'.node place = some .directory }}
    (h : tree.mkdir place = .ok made) :
    made.1.node other = some (.file content) ↔ tree.node other = some (.file content) := by
  rw [mkdir_node h]
  split
  · rename_i habove
    rcases mkdir_ok_iff.mp ⟨made, h⟩ other habove with hnone | hdirectory
    · simp [hnone]
    · simp [hdirectory]
  · rfl

/-- A directory that is there is not made. -/
theorem mkdir_of_directory {made : { tree' : FileTree // tree'.node place = some .directory }}
    (hplace : tree.node place = some .directory) (h : tree.mkdir place = .ok made) :
    made.1 = tree := by
  rcases place with - | ⟨name, parent⟩
  · cases h
    rfl
  · rw [mkdir] at h
    split at h
    · cases h
      rfl
    · cases h
    · rename_i hnone
      rw [hplace] at hnone
      cases hnone

theorem writeText_frame {hparent : tree.node parent = some .directory}
    (h : tree.writeText name parent content hparent = .ok tree') :
    tree'.links = tree.links ∧ tree'.cwd = tree.cwd := by
  rw [writeText] at h
  split at h
  · cases h
  · cases h
  · cases h
    exact ⟨rfl, rfl⟩
  · cases h
    exact ⟨rfl, rfl⟩

theorem mkdir_frame {made : { tree' : FileTree // tree'.node place = some .directory }}
    (h : tree.mkdir place = .ok made) : made.1.links = tree.links ∧ made.1.cwd = tree.cwd := by
  induction place with
  | nil =>
    cases h
    exact ⟨rfl, rfl⟩
  | cons name parent ih =>
    rw [mkdir] at h
    split at h
    · cases h
      exact ⟨rfl, rfl⟩
    · cases h
    · split at h
      · cases h
      · rename_i hmade
        cases h
        exact ih hmade

theorem writeFile_frame (h : tree.writeFile place content = .ok tree') :
    tree'.links = tree.links ∧ tree'.cwd = tree.cwd := by
  rcases place with - | ⟨name, parent⟩
  · cases h
  · rw [writeFile] at h
    split at h
    swap
    · cases h
    split at h
    · cases h
    · rename_i hmade
      have hwritten := writeText_frame h
      have hdirectories := mkdir_frame hmade
      exact ⟨hwritten.1.trans hdirectories.1, hwritten.2.trans hdirectories.2⟩

/-- Two trees of one process with the same nodes are the same tree. -/
theorem ext_node (hnode : tree'.node = tree.node)
    (hframe : tree'.links = tree.links ∧ tree'.cwd = tree.cwd) : tree' = tree := by
  cases tree
  cases tree'
  obtain ⟨hlinks, hcwd⟩ := hframe
  cases hnode
  cases hlinks
  cases hcwd
  rfl

end FileTree

namespace Drive

variable {drive drive' mid : Drive} {place other parent : List String} {name : String}
  {content : List Utf8.CodePoint} {bytes : List UInt8}

theorem ext_parts (htree : drive'.tree = drive.tree) (hbytes : drive'.bytes = drive.bytes) :
    drive' = drive := by
  cases drive
  cases drive'
  cases htree
  cases hbytes
  rfl

/-- The place is a file with these bytes. -/
def Has (drive : Drive) (place : List String) (bytes : List UInt8) : Prop :=
  drive.tree.node place = some (.file "") ∧ drive.bytes place = bytes

/-! ### One file -/

theorem hollow_mkdir {made : { tree' : FileTree // tree'.node place = some .directory }}
    (drive : Drive) (h : drive.tree.mkdir place = .ok made) :
    ∀ other content, made.1.node other = some (.file content) → content = "" :=
  fun other content hfile => drive.hollow other content ((FileTree.mkdir_file h).mp hfile)

theorem empty_mkdir {made : { tree' : FileTree // tree'.node place = some .directory }}
    (drive : Drive) (h : drive.tree.mkdir place = .ok made) :
    ∀ other, made.1.node other ≠ some (.file "") → drive.bytes other = [] :=
  fun other hnot => drive.empty other fun hfile => hnot ((FileTree.mkdir_file h).mpr hfile)

/-- `path.mkdir(parents=True, exist_ok=True)`. -/
def mkdir (drive : Drive) (place : List String) :
    Except OsError { made : Drive // made.tree.node place = some .directory } :=
  match h : drive.tree.mkdir place with
  | .error error => .error error
  | .ok made =>
    .ok ⟨⟨made.1, drive.bytes, drive.hollow_mkdir h, drive.empty_mkdir h⟩, made.2⟩

theorem hollow_open {tree' : FileTree} {hparent : drive.tree.node parent = some .directory}
    (h : drive.tree.writeText name parent "" hparent = .ok tree') :
    ∀ other content, tree'.node other = some (.file content) → content = "" := by
  intro other content hfile
  rw [FileTree.writeText_node h] at hfile
  by_cases hsame : other = name :: parent
  · rw [hsame, Function.update_self] at hfile
    cases hfile
    rfl
  · rw [Function.update_of_ne hsame] at hfile
    exact drive.hollow other content hfile

theorem empty_open {tree' : FileTree} {hparent : drive.tree.node parent = some .directory}
    (h : drive.tree.writeText name parent "" hparent = .ok tree') :
    ∀ other, tree'.node other ≠ some (.file "") →
      Function.update drive.bytes (name :: parent) [] other = [] := by
  intro other hnot
  by_cases hsame : other = name :: parent
  · rw [hsame, Function.update_self]
  · rw [FileTree.writeText_node h, Function.update_of_ne hsame] at hnot
    rw [Function.update_of_ne hsame]
    exact drive.empty other hnot

theorem node_open {tree' : FileTree} {hparent : drive.tree.node parent = some .directory}
    (h : drive.tree.writeText name parent "" hparent = .ok tree') :
    tree'.node (name :: parent) = some (.file "") := by
  rw [FileTree.writeText_node h, Function.update_self]

/-- `open(path, "w")` in a directory that is there: the file is made, or emptied. -/
def openText (drive : Drive) (name : String) (parent : List String)
    (hparent : drive.tree.node parent = some .directory) :
    Except OsError { opened : Drive // opened.tree.node (name :: parent) = some (.file "") } :=
  match h : drive.tree.writeText name parent "" hparent with
  | .error error => .error error
  | .ok tree' =>
    .ok ⟨⟨tree', Function.update drive.bytes (name :: parent) [], hollow_open h, empty_open h⟩,
      node_open h⟩

theorem empty_fill (hfile : drive.tree.node place = some (.file "")) (bytes : List UInt8) :
    ∀ other, drive.tree.node other ≠ some (.file "") →
      Function.update drive.bytes place bytes other = [] := by
  intro other hnot
  have hne : other ≠ place := by
    rintro rfl
    exact hnot hfile
  rw [Function.update_of_ne hne]
  exact drive.empty other hnot

/-- The bytes are written to an open file. -/
def fill (drive : Drive) (place : List String) (hfile : drive.tree.node place = some (.file ""))
    (bytes : List UInt8) : Drive :=
  { drive with bytes := Function.update drive.bytes place bytes, empty := empty_fill hfile bytes }

/-- `path.write_text(content, encoding="utf-8")` in a directory that is there. -/
def writeText (drive : Drive) (name : String) (parent : List String)
    (hparent : drive.tree.node parent = some .directory) (content : List Utf8.CodePoint) :
    Drive × Option TextError :=
  match drive.openText name parent hparent with
  | .error error => (drive, some (.os error))
  | .ok opened =>
    match Utf8.encode content with
    | none => (opened.1, some .unicodeEncode)
    | some bytes => (opened.1.fill (name :: parent) opened.2 bytes, none)

/-- The drive after a path that was too long: directories above it may have been made. -/
def afterRefusal (drive : Drive) (place : List String) : Drive :=
  match drive.mkdir (leftover place) with
  | .error _ => drive
  | .ok made => made.1

/-- One file: its directory, then its content. The root of the tree is a directory. -/
def writeFile (drive : Drive) (place : List String) (content : List Utf8.CodePoint) :
    Drive × Option TextError :=
  match place with
  | [] => (drive, some (.os .isADirectory))
  | name :: parent =>
    if Spelled (name :: parent) then
      match drive.mkdir parent with
      | .error error => (drive, some (.os error))
      | .ok made => made.1.writeText name parent made.2 content
    else (drive.afterRefusal (name :: parent), some (.os (drive.tree.refusal (name :: parent))))

/-- One file after the other, until one fails. -/
def writeEach (drive : Drive) : List (List String × List Utf8.CodePoint) → Drive × Option TextError
  | [] => (drive, none)
  | (place, content) :: rest =>
    let (next, failure) := drive.writeFile place content
    match failure with
    | some error => (next, some error)
    | none => next.writeEach rest

/-! ### What writing a file does -/

/-- The place became a file with these bytes, below directories that were made for it. -/
structure Wrote (drive : Drive) (place : List String) (bytes : List UInt8) (drive' : Drive) : Prop where
  tree : drive.tree.writeFile place "" = .ok drive'.tree
  bytes_eq : drive'.bytes = Function.update drive.bytes place bytes

/-- What a file holds once its text was written, or was found to have no encoding. -/
def left (content : List Utf8.CodePoint) : List UInt8 := (Utf8.encode content).getD []

theorem mkdir_eq_ok {made : { made : Drive // made.tree.node place = some .directory }}
    (h : drive.mkdir place = .ok made) : made.1.bytes = drive.bytes ∧
      drive.tree.mkdir place = .ok ⟨made.1.tree, made.2⟩ := by
  rw [mkdir] at h
  split at h
  · cases h
  · rename_i hmade
    cases h
    exact ⟨rfl, hmade⟩

theorem mkdir_eq_error {error : OsError} (h : drive.mkdir place = .error error) :
    drive.tree.mkdir place = .error error := by
  rw [mkdir] at h
  split at h
  · rename_i herror
    cases h
    exact herror
  · cases h

variable {hparent : drive.tree.node parent = some .directory}

theorem openText_eq_ok {opened : { opened : Drive // opened.tree.node (name :: parent) = some (.file "") }}
    (h : drive.openText name parent hparent = .ok opened) :
    drive.tree.writeText name parent "" hparent = .ok opened.1.tree ∧
      opened.1.bytes = Function.update drive.bytes (name :: parent) [] := by
  rw [openText] at h
  split at h
  · cases h
  · rename_i hopen
    cases h
    exact ⟨hopen, rfl⟩

theorem openText_eq_error {error : OsError} (h : drive.openText name parent hparent = .error error) :
    drive.tree.writeText name parent "" hparent = .error error := by
  rw [openText] at h
  split at h
  · rename_i herror
    cases h
    exact herror
  · cases h

/-- Where a file cannot be opened, its directory was there already. -/
theorem mkdir_of_refused {made : { made : Drive // made.tree.node parent = some .directory }}
    {error : OsError} (hmade : drive.mkdir parent = .ok made)
    (hopen : made.1.openText name parent made.2 = .error error) : made.1 = drive := by
  obtain ⟨hbytes, hmkdir⟩ := mkdir_eq_ok hmade
  have hrefused : ¬ (made.1.tree.node (name :: parent) = none ∨
      ∃ content, made.1.tree.node (name :: parent) = some (.file content)) := by
    intro hroom
    have hwritten : ∃ tree', made.1.tree.writeText name parent "" made.2 = .ok tree' :=
      FileTree.writeText_ok_iff.mpr hroom
    obtain ⟨tree', htree'⟩ := hwritten
    rw [openText_eq_error hopen] at htree'
    cases htree'
  have hsame : made.1.tree.node (name :: parent) = drive.tree.node (name :: parent) :=
    (FileTree.mkdir_node hmkdir).trans (if_neg FileTree.not_suffix_tail)
  have hparent : drive.tree.node parent = some .directory := by
    apply drive.tree.rooted name
    intro hnone
    exact hrefused (.inl (hsame.trans hnone))
  exact ext_parts (FileTree.mkdir_of_directory hparent hmkdir) hbytes

/-! ### A path that is too long -/

/-- The failed write leaves nothing: something is in its way, or the directories are there. -/
def Settled (tree : FileTree) (place : List String) : Prop :=
  ¬ tree.Passable (leftover place) ∨ tree.node (leftover place) = some .directory

theorem afterRefusal_bytes : (drive.afterRefusal place).bytes = drive.bytes := by
  rw [afterRefusal]
  split
  · rfl
  · rename_i hmade
    exact (mkdir_eq_ok hmade).1

theorem afterRefusal_node (h : (drive.afterRefusal place).tree.node other ≠ drive.tree.node other) :
    other <:+ leftover place ∧ drive.tree.node other = none ∧
      (drive.afterRefusal place).tree.node other = some .directory := by
  cases hmade : drive.mkdir (leftover place) with
  | error error =>
    simp only [afterRefusal, hmade] at h
    exact absurd rfl h
  | ok made =>
    obtain ⟨-, hmkdir⟩ := mkdir_eq_ok hmade
    simp only [afterRefusal, hmade] at h ⊢
    have hnode : made.1.tree.node other = _ := FileTree.mkdir_node hmkdir
    rw [hnode] at h ⊢
    by_cases habove : other <:+ leftover place
    · rw [if_pos habove] at h ⊢
      have hpassable : drive.tree.Passable (leftover place) := FileTree.mkdir_ok_iff.mp ⟨_, hmkdir⟩
      rcases hpassable other habove with hnone | hdirectory
      · exact ⟨habove, hnone, rfl⟩
      · exact absurd hdirectory.symm h
    · rw [if_neg habove] at h
      exact absurd rfl h

theorem afterRefusal_has {content : List UInt8} (h : drive.Has other content) :
    (drive.afterRefusal place).Has other content := by
  refine ⟨?_, ?_⟩
  · by_cases hsame : (drive.afterRefusal place).tree.node other = drive.tree.node other
    · exact hsame.trans h.1
    · have hnone := (afterRefusal_node hsame).2.1
      rw [h.1] at hnone
      cases hnone
  · rw [afterRefusal_bytes]
    exact h.2

theorem afterRefusal_eq_iff : drive.afterRefusal place = drive ↔ Settled drive.tree place := by
  rw [afterRefusal]
  split
  · rename_i error hmade
    refine iff_of_true rfl (.inl fun hpassable => ?_)
    obtain ⟨made, hok⟩ := FileTree.mkdir_ok_iff.mpr hpassable
    rw [mkdir_eq_error hmade] at hok
    cases hok
  · rename_i made hmade
    obtain ⟨hbytes, hmkdir⟩ := mkdir_eq_ok hmade
    constructor
    · intro hsame
      have hdirectory := made.2
      rw [hsame] at hdirectory
      exact .inr hdirectory
    · rintro (hblocked | hdirectory)
      · exact absurd (FileTree.mkdir_ok_iff.mp ⟨_, hmkdir⟩) hblocked
      · exact ext_parts (FileTree.mkdir_of_directory hdirectory hmkdir) hbytes

theorem afterRefusal_spelled (h : Spelled place) : drive.afterRefusal place = drive := by
  refine afterRefusal_eq_iff.mpr (.inr ?_)
  rw [leftover_spelled h]
  exact drive.tree.top

/-- A text is written exactly where there is room; elsewhere directories are all that is
    left. -/
theorem writeFile_cases (drive : Drive) (place : List String) (content : List Utf8.CodePoint) :
    (¬ drive.tree.Free place ∧
        ∃ error, drive.writeFile place content = (drive.afterRefusal place, some (.os error))) ∨
      (drive.tree.Free place ∧ ∃ drive', drive.Wrote place (left content) drive' ∧
        drive.writeFile place content =
          (drive', if Utf8.HasEncoding content then none else some .unicodeEncode)) := by
  rcases place with - | ⟨name, parent⟩
  · exact .inl ⟨fun hfree => hfree.below rfl, _, by
      rw [afterRefusal_spelled (by decide)]
      rfl⟩
  by_cases hspelled : Spelled (name :: parent)
  swap
  · refine .inl ⟨fun hfree => hspelled hfree.spelled, drive.tree.refusal (name :: parent), ?_⟩
    rw [writeFile, if_neg hspelled]
  have hroom : (∃ tree', drive.tree.writeFile (name :: parent) "" = .ok tree') ↔
      drive.tree.Free (name :: parent) := FileTree.writeFile_ok_iff
  rw [← hroom, afterRefusal_spelled hspelled]
  cases hmade : drive.mkdir parent with
  | error error =>
    refine .inl ⟨?_, error, ?_⟩
    · rintro ⟨tree', htree'⟩
      simp only [FileTree.writeFile, if_pos hspelled, mkdir_eq_error hmade] at htree'
      cases htree'
    · simp only [writeFile, if_pos hspelled, hmade]
  | ok made =>
    obtain ⟨hbytes, hmkdir⟩ := mkdir_eq_ok hmade
    cases hopen : made.1.openText name parent made.2 with
    | error error =>
      refine .inl ⟨?_, error, ?_⟩
      · rintro ⟨tree', htree'⟩
        simp only [FileTree.writeFile, if_pos hspelled, hmkdir, openText_eq_error hopen]
          at htree'
        cases htree'
      · have hsame := mkdir_of_refused hmade hopen
        simp only [writeFile, if_pos hspelled, hmade, writeText, hopen, Prod.mk.injEq, and_true]
        exact hsame
    | ok opened =>
      obtain ⟨htree, hemptied⟩ := openText_eq_ok hopen
      have hwritten : drive.tree.writeFile (name :: parent) "" = .ok opened.1.tree := by
        simp only [FileTree.writeFile, if_pos hspelled, hmkdir, htree]
      rw [hbytes] at hemptied
      refine .inr ⟨⟨_, hwritten⟩, ?_⟩
      by_cases hencoding : Utf8.HasEncoding content
      · refine ⟨opened.1.fill (name :: parent) opened.2 (content.flatMap Utf8.bytesOf),
          ⟨hwritten, ?_⟩, ?_⟩
        · simp only [fill, left, Utf8.encode, if_pos hencoding, Option.getD_some, hemptied,
            Function.update_idem]
        · simp only [writeFile, if_pos hspelled, hmade, writeText, hopen, Utf8.encode,
            if_pos hencoding]
      · refine ⟨opened.1, ⟨hwritten, ?_⟩, ?_⟩
        · simp only [left, Utf8.encode, if_neg hencoding, Option.getD_none, hemptied]
        · simp only [writeFile, if_pos hspelled, hmade, writeText, hopen, Utf8.encode,
            if_neg hencoding]

/-! ### Files that were written one after the other -/

/-- The drive after a list of writes. -/
inductive WroteAll : Drive → List (List String × List UInt8) → Drive → Prop where
  | nil (drive : Drive) : WroteAll drive [] drive
  | cons {drive next drive' : Drive} {place : List String} {bytes : List UInt8}
      {rest : List (List String × List UInt8)} :
      drive.Wrote place bytes next → WroteAll next rest drive' → WroteAll drive ((place, bytes) :: rest) drive'

variable {before rest writes : List (List String × List UInt8)}

theorem WroteAll.append (h : WroteAll drive before mid) (hrest : WroteAll mid rest drive') :
    WroteAll drive (before ++ rest) drive' := by
  induction h with
  | nil _ => exact hrest
  | cons hfirst _ ih => exact .cons hfirst (ih hrest)

/-- What the last of the writes to a place wrote. -/
def lastBytes (writes : List (List String × List UInt8)) (place : List String) :
    Option (List UInt8) :=
  ((writes.filter fun write => write.1 = place).getLast?).map Prod.snd

/-- The writes as a tree without bytes sees them. -/
def hollowed (writes : List (List String × List UInt8)) : List (List String × String) :=
  writes.map fun write => (write.1, "")

theorem WroteAll.tree (h : WroteAll drive writes drive') :
    drive.tree.writeEach (hollowed writes) = .ok drive'.tree := by
  induction h with
  | nil _ => rfl
  | cons hfirst _ ih =>
    simp only [hollowed, List.map_cons, FileTree.writeEach, hfirst.tree]
    exact ih

theorem lastBytes_cons (place other : List String) (bytes : List UInt8)
    (rest : List (List String × List UInt8)) :
    lastBytes ((place, bytes) :: rest) other =
      (lastBytes rest other).orElse fun _ => if place = other then some bytes else none := by
  unfold lastBytes
  by_cases hplace : place = other
  · rw [List.filter_cons_of_pos (by simpa using hplace), List.getLast?_cons, if_pos hplace]
    cases hlast : (rest.filter fun write => write.1 = other).getLast? with
    | none => rfl
    | some last => rfl
  · rw [List.filter_cons_of_neg (by simpa using hplace), if_neg hplace]
    cases (rest.filter fun write => write.1 = other).getLast? with
    | none => rfl
    | some last => rfl

/-- A place holds what was written there last, or what it held before. -/
theorem WroteAll.bytes_eq (h : WroteAll drive writes drive') (other : List String) :
    drive'.bytes other = (lastBytes writes other).getD (drive.bytes other) := by
  induction h with
  | nil _ => rfl
  | @cons drive next drive' place bytes rest hfirst _ ih =>
    rw [ih, lastBytes_cons, hfirst.bytes_eq]
    cases lastBytes rest other with
    | some last => rfl
    | none =>
      by_cases hplace : place = other
      · subst hplace
        simp
      · simp [hplace, Function.update_of_ne (Ne.symm hplace)]

/-- Every file written has, on this drive, what is written there last. -/
def Holds (drive : Drive) (writes : List (List String × List UInt8)) : Prop :=
  ∀ write ∈ writes, ∃ bytes, lastBytes writes write.1 = some bytes ∧ drive.Has write.1 bytes

theorem lastBytes_of_mem {write : List String × List UInt8} (h : write ∈ writes) :
    ∃ bytes, lastBytes writes write.1 = some bytes := by
  have hmem : write ∈ writes.filter fun other => other.1 = write.1 :=
    List.mem_filter.mpr ⟨h, by simp⟩
  cases hlast : (writes.filter fun other => other.1 = write.1).getLast? with
  | none =>
    rw [List.getLast?_eq_none_iff.mp hlast] at hmem
    cases hmem
  | some last => exact ⟨last.2, by rw [lastBytes, hlast]; rfl⟩

theorem lastBytes_eq_none (h : ∀ write ∈ writes, write.1 ≠ place) : lastBytes writes place = none := by
  have hnone : (writes.filter fun write => write.1 = place) = [] := by
    rw [List.filter_eq_nil_iff]
    intro write hmem
    simpa using h write hmem
  rw [lastBytes, hnone]
  rfl

/-- The written places are files with the bytes written last. -/
theorem WroteAll.holds (h : WroteAll drive writes drive') : drive'.Holds writes := by
  intro write hmem
  obtain ⟨bytes, hlast⟩ := lastBytes_of_mem hmem
  have hhollow : (write.1, "") ∈ hollowed writes := List.mem_map.mpr ⟨write, hmem, rfl⟩
  obtain ⟨last, hlastmem, -, hnode⟩ := FileTree.writeEach_node h.tree hhollow
  obtain ⟨other, -, rfl⟩ := List.mem_map.mp hlastmem
  exact ⟨bytes, hlast, hnode, by rw [h.bytes_eq, hlast, Option.getD_some]⟩

/-- Writing files that are there changes no node. -/
theorem writeEach_of_files {tree tree' : FileTree} {files : List (List String × String)}
    (h : tree.writeEach files = .ok tree')
    (hfiles : ∀ file ∈ files, file.2 = "" ∧ tree.node file.1 = some (.file "")) : tree' = tree := by
  induction files generalizing tree with
  | nil =>
    cases h
    rfl
  | cons file rest ih =>
    rw [FileTree.writeEach] at h
    split at h
    · cases h
    · rename_i next hnext
      obtain ⟨⟨hempty, hfile⟩, hrest⟩ := List.forall_mem_cons.mp hfiles
      have hsame : next = tree := by
        refine FileTree.ext_node ?_ (FileTree.writeFile_frame hnext)
        funext other
        rw [FileTree.writeFile_node hnext]
        split
        · rename_i hplace
          rw [hplace, hfile, hempty]
        · split
          · rename_i hother habove
            -- what is above a file is a directory
            have hplaced : tree.node file.1 ≠ none := by
              rw [hfile]
              exact Option.some_ne_none _
            exact (FileTree.node_above hplaced (habove.trans (List.tail_suffix _)) hother).symm
          · rfl
      subst hsame
      exact ih h hrest

/-- **The drive is as before exactly if every file written had what was written there
    last.** -/
theorem WroteAll.unchanged_iff (h : WroteAll drive writes drive') : drive' = drive ↔ drive.Holds writes := by
  constructor
  · intro hsame
    have hholds := h.holds
    rw [hsame] at hholds
    exact hholds
  · intro hholds
    have htree : drive'.tree = drive.tree := by
      apply writeEach_of_files h.tree
      intro file hmem
      obtain ⟨write, hwrite, rfl⟩ := List.mem_map.mp hmem
      obtain ⟨bytes, -, hhas⟩ := hholds write hwrite
      exact ⟨rfl, hhas.1⟩
    refine ext_parts htree ?_
    funext other
    rw [h.bytes_eq]
    by_cases hwritten : ∃ write ∈ writes, write.1 = other
    · obtain ⟨write, hwrite, rfl⟩ := hwritten
      obtain ⟨bytes, hlast, hhas⟩ := hholds write hwrite
      rw [hlast, Option.getD_some, hhas.2]
    · rw [lastBytes_eq_none, Option.getD_none]
      intro write hwrite heq
      exact hwritten ⟨write, hwrite, heq⟩

/-- The same, where the file after them was refused. -/
theorem WroteAll.refused_unchanged_iff (h : WroteAll drive writes mid) :
    mid.afterRefusal place = drive ↔ drive.Holds writes ∧ Settled drive.tree place := by
  constructor
  · intro hsame
    have hholds : drive.Holds writes := by
      intro write hwrite
      obtain ⟨bytes, hlast, hhas⟩ := h.holds write hwrite
      exact ⟨bytes, hlast, hsame ▸ afterRefusal_has hhas⟩
    have hmid := h.unchanged_iff.mpr hholds
    rw [hmid] at hsame
    exact ⟨hholds, afterRefusal_eq_iff.mp hsame⟩
  · rintro ⟨hholds, hsettled⟩
    rw [h.unchanged_iff.mpr hholds]
    exact afterRefusal_eq_iff.mpr hsettled

/-! ### The batch -/

/-- There is room for each of the files, and none lies below another one. -/
def Fits (tree : FileTree) (places : List (List String)) : Prop :=
  (∀ place ∈ places, tree.Free place) ∧
    ∀ first ∈ places, ∀ second ∈ places, ¬ FileTree.Above first second

theorem fits_iff {tree : FileTree} : (∃ tree', tree.writeEach (hollowed writes) = .ok tree') ↔
    Fits tree (writes.map Prod.fst) := by
  have hplaces : writes.map Prod.fst = (hollowed writes).map Prod.fst := by
    rw [hollowed, List.map_map]
    rfl
  rw [FileTree.writeEach_ok_iff, hplaces]
  simp only [Fits, List.forall_mem_map]

theorem WroteAll.fits (h : WroteAll drive writes drive') : Fits drive.tree (writes.map Prod.fst) :=
  fits_iff.mp ⟨_, h.tree⟩

theorem exists_wrote (h : drive.tree.Free place) (bytes : List UInt8) :
    ∃ drive', drive.Wrote place bytes drive' := by
  rcases writeFile_cases drive place [] with ⟨hnot, -⟩ | ⟨-, drive', hwrote, -⟩
  · exact absurd h hnot
  · have hfile : drive'.tree.node place = some (.file "") := FileTree.writeFile_node_self hwrote.tree
    refine ⟨drive'.fill place hfile bytes, hwrote.tree, ?_⟩
    simp only [fill, hwrote.bytes_eq, Function.update_idem]

/-- After some writes there is room for one more exactly if all of them fit. -/
theorem WroteAll.free_iff (h : WroteAll drive before mid) (bytes : List UInt8) :
    mid.tree.Free place ↔ Fits drive.tree ((before ++ [(place, bytes)]).map Prod.fst) := by
  constructor
  · intro hfree
    obtain ⟨drive', hlast⟩ := exists_wrote hfree bytes
    exact (h.append (.cons hlast (.nil drive'))).fits
  · intro hfits
    obtain ⟨tree', htree'⟩ := fits_iff.mpr hfits
    have hsplit : ∀ {tree : FileTree} {first second : List (List String × String)},
        tree.writeEach (first ++ second) = .ok tree' → ∃ next, tree.writeEach first = .ok next ∧
          next.writeEach second = .ok tree' := by
      intro tree first second hall
      induction first generalizing tree with
      | nil => exact ⟨tree, rfl, hall⟩
      | cons file rest ih =>
        rw [List.cons_append, FileTree.writeEach] at hall
        split at hall
        · cases hall
        · rename_i next hnext
          obtain ⟨last, hlast, hrest⟩ := ih hall
          refine ⟨last, ?_, hrest⟩
          simp only [FileTree.writeEach, hnext, hlast]
    rw [hollowed, List.map_append] at htree'
    obtain ⟨next, hnext, hlast⟩ := hsplit htree'
    have hsame : drive.tree.writeEach (before.map fun write => (write.1, "")) = .ok mid.tree := h.tree
    rw [hsame, Except.ok.injEq] at hnext
    subst hnext
    simp only [List.map_cons, List.map_nil] at hlast
    rw [FileTree.writeEach] at hlast
    split at hlast
    · cases hlast
    · rename_i final hfinal
      exact FileTree.writeFile_ok_iff.mp ⟨final, hfinal⟩

end Drive

end AgenticPlatform
