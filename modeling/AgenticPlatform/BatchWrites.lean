import AgenticPlatform.FileContents
import AgenticPlatform.WorkspaceFiles

/-!
# A batch of files is not all or nothing

`_write_all` checks every path before it writes the first file, and what it checks is
where the path leads. That two paths of one batch exclude each other, that a path is a
directory or too long, or that a content has no encoding shows only when the write fails,
and the files before it stay written.
-/

namespace AgenticPlatform.BatchWrites

open GitWorktree Utf8

/-- What `_write_all` raises. -/
inductive BatchError where
  | refused (error : WriteError)
  | failed (error : TextError)

/-- The first pass, which looks at the paths only: each path with the place it leads to. The
    contents follow in the order of the paths. -/
def checkTargets (tree : FileTree) (root : String) (base : PosixPath)
    (files : List (String × List CodePoint)) :
    Except WriteError (List (List String × List CodePoint)) :=
  match resolveTargets tree root base (files.map fun file => (file.1, "")) with
  | .error error => .error error
  | .ok targets => .ok ((targets.map Prod.fst).zip (files.map Prod.snd))

/-- `_write_all`: the drive afterwards, and what is returned or raised. -/
def writeAll (drive : Drive) (root : String) (files : List (String × List CodePoint)) :
    Drive × Except BatchError (List String) :=
  match drive.tree.resolve (.parse root) with
  | .error error => (drive, .error (.refused (.path error)))
  | .ok base =>
    match checkTargets drive.tree root base files with
    | .error error => (drive, .error (.refused error))
    | .ok writes =>
      let (drive', failure) := drive.writeEach writes
      match failure with
      | some error => (drive', .error (.failed error))
      | none => (drive', .ok (files.map Prod.fst))

/-! ### What is asked of a batch -/

/-- Outside the base nothing changes, but for directories made on the way to it. -/
def Contained (base : List String) (drive drive' : Drive) : Prop :=
  ∀ place, ¬ base <:+ place → drive'.bytes place = drive.bytes place ∧
    (drive'.tree.node place = drive.tree.node place ∨
      (place <:+ base ∧ drive.tree.node place = none ∧
        drive'.tree.node place = some .directory))

/-- The batch writes below the base only, and is undone if it fails. -/
structure AllOrNothing (drive : Drive) (root : String) (files : List (String × List CodePoint)) :
    Prop where
  contained : ∀ base, drive.tree.Denotes (.parse root) base →
    Contained base drive (writeAll drive root files).1
  undone : ∀ error, (writeAll drive root files).2 = .error error →
    (writeAll drive root files).1 = drive

/-- Each file with the place that its path leads to in the base. -/
def Aimed (tree : FileTree) (base : List String) (files : List (String × List CodePoint))
    (writes : List (List String × List CodePoint)) : Prop :=
  List.Forall₂ (fun file write => Lands tree base file.1 write.1 ∧ file.2 = write.2) files writes

/-- What the writes leave in the files: a content without an encoding leaves nothing. -/
def effects (writes : List (List String × List CodePoint)) : List (List String × List UInt8) :=
  writes.map fun write => (write.1, Drive.left write.2)

/-- There is room for every file, none lies below another one, and each has an encoding. -/
def GoesThrough (drive : Drive) (writes : List (List String × List CodePoint)) : Prop :=
  Drive.Fits drive.tree (writes.map Prod.fst) ∧ ∀ write ∈ writes, HasEncoding write.2

/-- Some file fails, and every file written by then has, before the batch, what was written
    to it last: for a file without room these are the ones before it, and a file whose content
    has no encoding is emptied as well. A path that is too long makes no directories. -/
def FailsUnnoticed (drive : Drive) (writes : List (List String × List CodePoint)) : Prop :=
  ∃ before write after, writes = before ++ write :: after ∧ GoesThrough drive before ∧
    ((¬ Drive.Fits drive.tree ((before ++ [write]).map Prod.fst) ∧ drive.Holds (effects before) ∧
        Drive.Settled drive.tree write.1) ∨
      (Drive.Fits drive.tree ((before ++ [write]).map Prod.fst) ∧ ¬ HasEncoding write.2 ∧
        drive.Holds (effects (before ++ [write]))))

/-- Where every path is let through, the files go through or fail unnoticed. -/
def Harmless (drive : Drive) (root : String) (files : List (String × List CodePoint)) : Prop :=
  ∀ base, drive.tree.Denotes (.parse root) base → ∀ writes, Aimed drive.tree base files writes →
    GoesThrough drive writes ∨ FailsUnnoticed drive writes

/-! ### The first pass -/

section Targets

variable {tree : FileTree} {base : List String} {root : String}
  {files : List (String × List CodePoint)} {writes : List (List String × List CodePoint)}

theorem aimed_of_placed {targets : List (List String × String)}
    (h : Placed tree base (files.map fun file => (file.1, "")) targets) :
    Aimed tree base files ((targets.map Prod.fst).zip (files.map Prod.snd)) := by
  rw [Placed, List.forall₂_map_left_iff] at h
  induction h with
  | nil => exact .nil
  | cons hfirst _ ih => exact .cons ⟨hfirst.1, rfl⟩ ih

theorem Aimed.placed (h : Aimed tree base files writes) :
    Placed tree base (files.map fun file => (file.1, "")) (writes.map fun write => (write.1, "")) := by
  rw [Placed, List.forall₂_map_left_iff, List.forall₂_map_right_iff]
  exact h.imp fun _ _ hlands => ⟨hlands.1, rfl⟩

theorem Aimed.zip_eq (h : Aimed tree base files writes) :
    (writes.map Prod.fst).zip (files.map Prod.snd) = writes := by
  induction h with
  | nil => rfl
  | cons hfirst _ ih =>
    rw [List.map_cons, List.map_cons, List.zip_cons_cons, ih, hfirst.2]

theorem checkTargets_eq_ok :
    checkTargets tree root (.ofPlace base) files = .ok writes ↔ Aimed tree base files writes := by
  constructor
  · intro h
    rw [checkTargets] at h
    split at h
    · cases h
    · rename_i targets htargets
      cases h
      exact aimed_of_placed (resolveTargets_eq_ok.mp htargets)
  · intro h
    have hplaces : (writes.map fun write => (write.1, "")).map Prod.fst = writes.map Prod.fst := by
      rw [List.map_map]
      rfl
    rw [checkTargets, resolveTargets_eq_ok.mpr h.placed]
    simp only [hplaces, h.zip_eq]

theorem Aimed.inside (h : Aimed tree base files writes) : ∀ write ∈ writes, base <:+ write.1 := by
  induction h with
  | nil => exact List.forall_mem_nil _
  | cons hfirst _ ih => exact List.forall_mem_cons.mpr ⟨hfirst.1.2, ih⟩

end Targets

/-! ### The second pass -/

section Writes

variable {drive drive' mid : Drive} {before after writes rest done : List (List String × List CodePoint)}
  {write : List String × List CodePoint}

theorem map_fst_effects : (effects writes).map Prod.fst = writes.map Prod.fst := by
  rw [effects, List.map_map]
  rfl

theorem effects_append : effects (before ++ after) = effects before ++ effects after :=
  List.map_append

theorem GoesThrough.prefix_of (h : GoesThrough drive (before ++ after)) : GoesThrough drive before := by
  obtain ⟨⟨hfree, hapart⟩, hencoding⟩ := h
  rw [List.map_append] at hfree hapart
  refine ⟨⟨?_, ?_⟩, ?_⟩
  · intro place hplace
    exact hfree place (List.mem_append_left _ hplace)
  · intro first hfirst second hsecond
    exact hapart first (List.mem_append_left _ hfirst) second (List.mem_append_left _ hsecond)
  · intro write hwrite
    exact hencoding write (List.mem_append_left _ hwrite)

/-- How the second pass ends. -/
inductive Ends (drive : Drive) (writes : List (List String × List CodePoint)) :
    Drive × Option TextError → Prop where
  | through {drive' : Drive} : GoesThrough drive writes → drive.WroteAll (effects writes) drive' →
      Ends drive writes (drive', none)
  | noRoom {drive' : Drive} {before after : List (List String × List CodePoint)}
      {write : List String × List CodePoint} {error : OsError} :
      writes = before ++ write :: after → GoesThrough drive before →
      ¬ Drive.Fits drive.tree ((before ++ [write]).map Prod.fst) →
      drive.WroteAll (effects before) drive' →
      Ends drive writes (drive'.afterRefusal write.1, some (.os error))
  | noEncoding {drive' : Drive} {before after : List (List String × List CodePoint)}
      {write : List String × List CodePoint} :
      writes = before ++ write :: after → GoesThrough drive before →
      Drive.Fits drive.tree ((before ++ [write]).map Prod.fst) → ¬ HasEncoding write.2 →
      drive.WroteAll (effects (before ++ [write])) drive' →
      Ends drive writes (drive', some .unicodeEncode)

/-- The rest of a batch, after the files that are done. -/
theorem ends_of_done (hdone : drive.WroteAll (effects done) mid) (hgoes : GoesThrough drive done) :
    Ends drive (done ++ rest) (mid.writeEach rest) := by
  induction rest generalizing done mid with
  | nil =>
    rw [List.append_nil]
    exact .through hgoes hdone
  | cons write rest ih =>
    obtain ⟨place, content⟩ := write
    have hroom : mid.tree.Free place ↔
        Drive.Fits drive.tree ((done ++ [(place, content)]).map Prod.fst) := by
      have hplaces : (effects done ++ [(place, Drive.left content)]).map Prod.fst =
          (done ++ [(place, content)]).map Prod.fst := by
        rw [List.map_append, map_fst_effects, List.map_append]
        rfl
      rw [hdone.free_iff (Drive.left content), hplaces]
    rw [Drive.writeEach]
    rcases Drive.writeFile_cases mid place content with ⟨hfull, error, hfailed⟩ | ⟨hfree, next, hwrote, hresult⟩
    · rw [hfailed]
      exact .noRoom rfl hgoes (fun hfits => hfull (hroom.mpr hfits)) hdone
    · have hnext : drive.WroteAll (effects (done ++ [(place, content)])) next := by
        rw [effects_append]
        exact hdone.append (.cons hwrote (.nil next))
      rw [hresult]
      by_cases hencoding : HasEncoding content
      · rw [if_pos hencoding]
        have hthrough : GoesThrough drive (done ++ [(place, content)]) := by
          refine ⟨hroom.mp hfree, ?_⟩
          rw [List.forall_mem_append]
          exact ⟨hgoes.2, List.forall_mem_singleton.mpr hencoding⟩
        have hends := ih hnext hthrough
        rw [List.append_assoc] at hends
        exact hends
      · rw [if_neg hencoding]
        exact .noEncoding rfl hgoes (hroom.mp hfree) hencoding hnext

/-- **Each file of the second pass is written, until one has no room or no encoding.** -/
theorem writeEach_ends (drive : Drive) (writes : List (List String × List CodePoint)) :
    Ends drive writes (drive.writeEach writes) := by
  have hnothing : GoesThrough drive [] :=
    ⟨⟨List.forall_mem_nil _, List.forall_mem_nil _⟩, List.forall_mem_nil _⟩
  have hends : Ends drive ([] ++ writes) (drive.writeEach writes) := ends_of_done (.nil drive) hnothing
  exact hends

theorem GoesThrough.stops (h : GoesThrough drive (before ++ rest)) (hrest : write :: after = rest ++ done)
    (hwrite : ¬ GoesThrough drive (before ++ [write])) : rest = [] := by
  rcases rest with - | ⟨first, rest⟩
  · rfl
  · rw [List.cons_append, List.cons.injEq] at hrest
    rw [← hrest.1, List.append_cons] at h
    exact absurd h.prefix_of hwrite

/-- The file that ends a batch is the first one that does not go through. -/
theorem split_unique {other : List String × List CodePoint}
    (hwrites : before ++ write :: after = done ++ other :: rest) (hbefore : GoesThrough drive before)
    (hdone : GoesThrough drive done) (hwrite : ¬ GoesThrough drive (before ++ [write]))
    (hother : ¬ GoesThrough drive (done ++ [other])) : before = done ∧ write = other := by
  rcases List.append_eq_append_iff.mp hwrites with ⟨between, rfl, hrest⟩ | ⟨between, rfl, hrest⟩
  · have hnone : between = [] := hdone.stops hrest hwrite
    subst hnone
    rw [List.nil_append, List.cons.injEq] at hrest
    exact ⟨(List.append_nil _).symm, hrest.1⟩
  · have hnone : between = [] := hbefore.stops hrest hother
    subst hnone
    rw [List.nil_append, List.cons.injEq] at hrest
    exact ⟨List.append_nil _, hrest.1.symm⟩

theorem not_goesThrough_of_full (h : ¬ Drive.Fits drive.tree (writes.map Prod.fst)) :
    ¬ GoesThrough drive writes :=
  fun hgoes => h hgoes.1

theorem not_goesThrough_of_encoding (h : ¬ HasEncoding write.2) :
    ¬ GoesThrough drive (before ++ [write]) := by
  intro hgoes
  exact h (hgoes.2 write (List.mem_append_right _ (List.mem_singleton_self _)))

theorem GoesThrough.of_split (h : GoesThrough drive writes) (hwrites : writes = before ++ write :: after) :
    GoesThrough drive (before ++ [write]) := by
  rw [hwrites, List.append_cons] at h
  exact h.prefix_of

/-- A batch that ended with an error has changed nothing exactly if it failed unnoticed. -/
theorem Ends.unchanged_iff {error : TextError} (h : Ends drive writes (drive', some error)) :
    drive' = drive ↔ GoesThrough drive writes ∨ FailsUnnoticed drive writes := by
  rcases h with - | ⟨hwrites, hbefore, hfull, hwrote⟩ | ⟨hwrites, hbefore, hfits, hencoding, hwrote⟩
  · rw [hwrote.refused_unchanged_iff]
    constructor
    · rintro ⟨hholds, hsettled⟩
      exact .inr ⟨_, _, _, hwrites, hbefore, .inl ⟨hfull, hholds, hsettled⟩⟩
    · rintro (hgoes | ⟨done, other, rest, hsplit, hdone, hfails⟩)
      · exact absurd (hgoes.of_split hwrites) (not_goesThrough_of_full hfull)
      · rcases hfails with ⟨hfull', hholds, hsettled⟩ | ⟨hfits, hencoding, -⟩
        · obtain ⟨rfl, rfl⟩ := split_unique (hwrites.symm.trans hsplit) hbefore hdone
            (not_goesThrough_of_full hfull) (not_goesThrough_of_full hfull')
          exact ⟨hholds, hsettled⟩
        · obtain ⟨rfl, rfl⟩ := split_unique (hwrites.symm.trans hsplit) hbefore hdone
            (not_goesThrough_of_full hfull) (not_goesThrough_of_encoding hencoding)
          exact absurd hfits hfull
  · rw [hwrote.unchanged_iff]
    constructor
    · intro hholds
      exact .inr ⟨_, _, _, hwrites, hbefore, .inr ⟨hfits, hencoding, hholds⟩⟩
    · rintro (hgoes | ⟨done, other, rest, hsplit, hdone, hfails⟩)
      · exact absurd (hgoes.of_split hwrites) (not_goesThrough_of_encoding hencoding)
      · rcases hfails with ⟨hfull, -⟩ | ⟨-, hencoding', hholds⟩
        · obtain ⟨rfl, rfl⟩ := split_unique (hwrites.symm.trans hsplit) hbefore hdone
            (not_goesThrough_of_encoding hencoding) (not_goesThrough_of_full hfull)
          exact absurd hfits hfull
        · obtain ⟨rfl, rfl⟩ := split_unique (hwrites.symm.trans hsplit) hbefore hdone
            (not_goesThrough_of_encoding hencoding) (not_goesThrough_of_encoding hencoding')
          exact hholds

/-- Some of the files were written, and perhaps another one was refused. -/
theorem Ends.wroteAll {result : Drive × Option TextError} (h : Ends drive writes result) :
    ∃ done reached, (∀ write ∈ done, write ∈ writes) ∧ drive.WroteAll (effects done) reached ∧
      (result.1 = reached ∨ ∃ write ∈ writes, result.1 = reached.afterRefusal write.1) := by
  rcases h with ⟨-, hwrote⟩ | ⟨hwrites, -, -, hwrote⟩ | ⟨hwrites, -, -, -, hwrote⟩
  · exact ⟨writes, _, fun write hwrite => hwrite, hwrote, .inl rfl⟩
  · refine ⟨_, _, ?_, hwrote, .inr ⟨_, ?_, rfl⟩⟩
    · intro write hwrite
      rw [hwrites]
      exact List.mem_append_left _ hwrite
    · rw [hwrites]
      exact List.mem_append_right _ List.mem_cons_self
  · refine ⟨_, _, ?_, hwrote, .inl rfl⟩
    intro write hwrite
    rw [hwrites, List.append_cons]
    exact List.mem_append_left _ hwrite

end Writes

/-! ### Where a batch writes -/

section Containment

variable {drive drive' next : Drive} {base : List String} {writes : List (List String × List UInt8)}

theorem contained_refl (base : List String) (drive : Drive) : Contained base drive drive :=
  fun _ _ => ⟨rfl, .inl rfl⟩

theorem Contained.trans (h : Contained base drive next) (hnext : Contained base next drive') :
    Contained base drive drive' := by
  intro place hplace
  obtain ⟨hbytes, hnode⟩ := h place hplace
  obtain ⟨hbytes', hnode'⟩ := hnext place hplace
  refine ⟨hbytes'.trans hbytes, ?_⟩
  rcases hnode with hsame | ⟨habove, hnone, hmade⟩
  · rw [hsame] at hnode'
    exact hnode'
  · rcases hnode' with hsame | ⟨-, hnone', -⟩
    · exact .inr ⟨habove, hnone, hsame.trans hmade⟩
    · rw [hmade] at hnone'
      cases hnone'

/-- A file below the base, and the directories above it. -/
theorem contained_of_wrote {place : List String} {bytes : List UInt8} (h : drive.Wrote place bytes drive')
    (hinside : base <:+ place) : Contained base drive drive' := by
  intro other hother
  have hne : other ≠ place := by
    rintro rfl
    exact hother hinside
  refine ⟨by rw [h.bytes_eq, Function.update_of_ne hne], ?_⟩
  rw [FileTree.writeFile_node h.tree, if_neg hne]
  split
  · rename_i habove
    have hfree : drive.tree.Free place := FileTree.writeFile_ok_iff.mp ⟨_, h.tree⟩
    rcases hfree.passable other habove with hnone | hdirectory
    · -- both are above the file, and the base is not above the other one
      rcases List.suffix_or_suffix_of_suffix hinside (habove.trans (List.tail_suffix _)) with hbelow | hbelow
      · exact absurd hbelow hother
      · exact .inr ⟨hbelow, hnone, rfl⟩
    · exact .inl hdirectory.symm
  · exact .inl rfl

/-- Directories on the way to a place below the base. -/
theorem contained_afterRefusal {place : List String} (hinside : base <:+ place) :
    Contained base drive (drive.afterRefusal place) := by
  intro other hother
  refine ⟨by rw [Drive.afterRefusal_bytes], ?_⟩
  by_cases hsame : (drive.afterRefusal place).tree.node other = drive.tree.node other
  · exact .inl hsame
  · obtain ⟨habove, hnone, hmade⟩ := Drive.afterRefusal_node hsame
    have hplace := (habove.trans (leftover_suffix place)).trans (List.tail_suffix place)
    rcases List.suffix_or_suffix_of_suffix hinside hplace with hbelow | hbelow
    · exact absurd hbelow hother
    · exact .inr ⟨hbelow, hnone, hmade⟩

theorem contained_of_wroteAll (h : drive.WroteAll writes drive') (hinside : ∀ write ∈ writes, base <:+ write.1) :
    Contained base drive drive' := by
  induction h with
  | nil drive => exact contained_refl base drive
  | cons hfirst _ ih =>
    rw [List.forall_mem_cons] at hinside
    exact (contained_of_wrote hfirst hinside.1).trans (ih hinside.2)

end Containment

/-! ### The whole batch -/

section Batch

variable {drive : Drive} {root : String} {base : List String} {files : List (String × List CodePoint)}
  {writes : List (List String × List CodePoint)}

/-- A batch whose paths are let through does what its second pass does. -/
theorem writeAll_of_aimed (hbase : drive.tree.Denotes (.parse root) base)
    (haimed : Aimed drive.tree base files writes) :
    (writeAll drive root files).1 = (drive.writeEach writes).1 ∧
      ((∃ error, (writeAll drive root files).2 = .error error) ↔
        ∃ failure, (drive.writeEach writes).2 = some failure) := by
  rw [writeAll]
  simp only [FileTree.resolve_of_denotes hbase, checkTargets_eq_ok.mpr haimed]
  split
  · rename_i failure hfailure
    refine ⟨rfl, iff_of_true ⟨_, rfl⟩ ⟨failure, hfailure⟩⟩
  · rename_i hnone
    refine ⟨rfl, iff_of_false ?_ ?_⟩
    · rintro ⟨error, herror⟩
      cases herror
    · rintro ⟨failure, hfailure⟩
      rw [hnone] at hfailure
      cases hfailure

/-- A batch that is refused leaves the drive alone. -/
theorem writeAll_of_refused
    (h : ∀ base, drive.tree.Denotes (.parse root) base → ∀ writes, ¬ Aimed drive.tree base files writes) :
    (writeAll drive root files).1 = drive := by
  rw [writeAll]
  split
  · rfl
  · rename_i root' hroot
    obtain ⟨base, hbase, rfl⟩ := FileTree.denotes_of_resolve hroot
    split
    · rfl
    · rename_i writes hwrites
      exact absurd (checkTargets_eq_ok.mp hwrites) (h base hbase writes)

/-- What is written lies in the base, whatever the batch is. -/
theorem writeAll_contained (hbase : drive.tree.Denotes (.parse root) base) :
    Contained base drive (writeAll drive root files).1 := by
  by_cases haimed : ∃ writes, Aimed drive.tree base files writes
  · obtain ⟨writes, haimed⟩ := haimed
    rw [(writeAll_of_aimed hbase haimed).1]
    obtain ⟨done, reached, hdone, hwrote, hresult⟩ := (writeEach_ends drive writes).wroteAll
    have hreached : Contained base drive reached := by
      refine contained_of_wroteAll hwrote ?_
      intro write hwrite
      obtain ⟨given, hgiven, rfl⟩ := List.mem_map.mp hwrite
      exact haimed.inside given (hdone given hgiven)
    rcases hresult with hsame | ⟨write, hwrite, hrefused⟩
    · rw [hsame]
      exact hreached
    · rw [hrefused]
      exact hreached.trans (contained_afterRefusal (haimed.inside write hwrite))
  · have hrefused : (writeAll drive root files).1 = drive := by
      apply writeAll_of_refused
      intro other hother writes hwrites
      rw [hother.unique hbase] at hwrites
      exact haimed ⟨writes, hwrites⟩
    rw [hrefused]
    exact contained_refl base drive

/-- The second pass is undone if it fails, exactly if the files go through or fail
    unnoticed. -/
theorem writeEach_undone_iff (drive : Drive) (writes : List (List String × List CodePoint)) :
    ((∃ failure, (drive.writeEach writes).2 = some failure) → (drive.writeEach writes).1 = drive) ↔
      GoesThrough drive writes ∨ FailsUnnoticed drive writes := by
  have hends := writeEach_ends drive writes
  rcases hresult : drive.writeEach writes with ⟨drive', _ | failure⟩
  · rw [hresult] at hends
    refine iff_of_true ?_ ?_
    · rintro ⟨failure, hfailure⟩
      cases hfailure
    · rcases hends with ⟨hgoes, -⟩
      exact .inl hgoes
  · rw [hresult] at hends
    rw [← hends.unchanged_iff]
    exact forall_prop_of_true ⟨failure, rfl⟩

/-- The directories of an empty workspace. -/
def emptyNode (place : List String) : Option Node :=
  match place with
  | [] => some .directory
  | name :: above => if name = "ws" ∧ above = [] then some .directory else none

theorem emptyNode_rooted (name : String) (place : List String) (h : emptyNode (name :: place) ≠ none) :
    emptyNode place = some .directory := by
  rw [emptyNode] at h
  split at h
  · rename_i hplace
    rw [hplace.2]
    rfl
  · exact absurd rfl h

theorem emptyNode_directory {place : List String} {entry : Node} (h : emptyNode place = some entry) :
    entry = .directory := by
  rcases place with - | ⟨name, above⟩
  · cases h
    rfl
  · rw [emptyNode] at h
    split at h
    · cases h
      rfl
    · cases h

theorem emptyNode_listed (place : List String) (text : String) (h : emptyNode place = some (.link text)) :
    place ∈ ([] : List (List String)) := by
  cases emptyNode_directory h

theorem emptyNode_hollow (place : List String) (content : String)
    (h : emptyNode place = some (.file content)) : content = "" := by
  cases emptyNode_directory h

theorem emptyNode_top : emptyNode [] = some .directory := rfl

def emptyTree : FileTree where
  node := emptyNode
  links := []
  cwd := []
  top := emptyNode_top
  rooted := emptyNode_rooted
  listed := emptyNode_listed
  cwd_plain := trivial

def emptyWorkspace : Drive where
  tree := emptyTree
  bytes _ := []
  hollow := emptyNode_hollow
  empty _ _ := rfl

end Batch

end AgenticPlatform.BatchWrites
