import AgenticPlatform.WarmRestart

/-!
# Who says how long a file is

What a preparation downloads is compared with the sizes that the hub reports. Where the hub
has none, the sizes of the marker that was there before stand in for them, whatever model and
revision that marker is of. Files that differ are discarded, and where such a file is a link
the blob behind it goes too, with whatever else is linked to it.
-/

namespace AgenticPlatform.PrepareModel

/-! ### The sizes -/

/-- The ends of `ALLOW_PATTERNS`, each of which begins with a star. -/
def ALLOW_PATTERNS : List String := [".safetensors", ".json", ".txt", ".model", ".jinja"]

/-- `_wanted`. -/
def wanted (name : String) : Bool :=
  ALLOW_PATTERNS.any fun pattern => pattern.toList.isSuffixOf name.toList

/-- What the hub knows of the requested model at the requested revision, whose files have the
    given sizes. -/
structure ModelInfo (sizeOf : String → Option Int) where
  siblings : List (String × Option Int)
  honest : ∀ name size, (name, some size) ∈ siblings → sizeOf name = some size

variable {sizeOf : String → Option Int}

/-- One entry of `hub_file_sizes`. -/
def hubFileSize (sibling : String × Option Int) : Option (String × Int) :=
  match sibling.2 with
  | none => none
  | some size => if size ≠ 0 && wanted sibling.1 then some (sibling.1, size) else none

/-- `hub_file_sizes`, for what the hub answers if it can be reached. -/
def hubFileSizes (info : Option (ModelInfo sizeOf)) : Option (List (String × Int)) :=
  match info with
  | none => none
  | some info =>
    match info.siblings.filterMap hubFileSize with
    | [] => none
    | sizes => some sizes

/-- `authoritative_sizes`. -/
def authoritativeSizes (info : Option (ModelInfo sizeOf)) (previous : Option ModelState) :
    Option (List (String × Int)) :=
  match hubFileSizes info, previous with
  | some sizes, _ => some sizes
  | none, some marker => if marker.verified && marker.files ≠ [] then some marker.files else none
  | none, none => none

/-! ### What is discarded -/

/-- The next step of the process removes the file of the given name and size from the snapshot:
    a name that differs leads to it, and `_discard` unlinks the name and what it leads to. -/
def Discards (s : State) (file : String × Int) : Prop :=
  match s.phase 0 with
  | .comparing (some expected) snapshot _ false =>
      s.disk.stat snapshot file.1 = some file.2 ∧ ∃ name ∈ mismatches s.disk snapshot expected,
        s.disk.place snapshot name = s.disk.place snapshot file.1
  | _ => False

/-- No file that has the size it has in the requested model shares its place with another name
    that differs. -/
def Unshared (sizeOf : String → Option Int) (s : State) : Prop :=
  match s.phase 0 with
  | .comparing (some expected) snapshot _ false =>
      ∀ name ∈ mismatches s.disk snapshot expected, ∀ file : String × Int, file.1 ≠ name →
        s.disk.place snapshot name = s.disk.place snapshot file.1 →
          s.disk.stat snapshot file.1 = some file.2 → sizeOf file.1 ≠ some file.2
  | _ => True

/-- `prepare_model` with the sizes from `authoritative_sizes`. -/
def prepareSized (json : JsonCodec) (builtins : Conversions) (config : PreparationConfig)
    (info : Option (ModelInfo sizeOf)) (marker : Option String) (disk : Disk)
    (answers : List Answer) : State :=
  prepareAlone json builtins config marker disk
    (answers.map fun answer => { answer with sizes := authoritativeSizes info })

/-- Whatever is in the volume and whatever the downloads leave there, a file that is removed
    has not the size it has in the requested model, unless it shares its place with one that
    differs; and sizes that were recorded for another model or revision remove nothing. -/
structure OnlyCorrupt (json : JsonCodec) (builtins : Conversions) (config : PreparationConfig)
    (info : Option (ModelInfo sizeOf)) (marker : Option String) : Prop where
  differs : ∀ disk answers,
    Unshared sizeOf (prepareSized json builtins config info marker disk answers) →
      ∀ file, Discards (prepareSized json builtins config info marker disk answers) file →
        sizeOf file.1 ≠ some file.2
  own : ∀ m, readMarker json builtins marker = .ok (some m) → hubFileSizes info = none →
    m.matches config.modelId config.modelRevision = false →
      ∀ disk answers file, ¬ Discards (prepareSized json builtins config info marker disk answers) file

variable {json : JsonCodec} {builtins : Conversions} {config : PreparationConfig} {s : State}
  {info : Option (ModelInfo sizeOf)} {marker : Option String} {disk : Disk} {snapshot : String}
  {expected : List (String × Int)} {previous : Option ModelState} {m : ModelState}
  {answer : Answer} {answers : List Answer} {file : String × Int}

theorem mem_mismatches {name : String} : name ∈ mismatches disk snapshot expected ↔
    ∃ size, (name, size) ∈ expected ∧ disk.stat snapshot name ≠ some size := by
  simp [mismatches]

/-- What the hub reports is right. -/
theorem hubFileSizes_honest (h : hubFileSizes info = some expected) (hfile : file ∈ expected) :
    sizeOf file.1 = some file.2 := by
  rcases info with - | info
  · cases h
  · have hsizes : info.siblings.filterMap hubFileSize = expected := by
      rw [hubFileSizes] at h
      split at h
      · cases h
      · exact Option.some.inj h
    rw [← hsizes, List.mem_filterMap] at hfile
    rcases hfile with ⟨⟨name, size⟩, hmem, hsize⟩
    rcases size with - | size
    · cases hsize
    · simp only [hubFileSize] at hsize
      split at hsize
      · cases hsize
        exact info.honest name size hmem
      · cases hsize

theorem authoritativeSizes_hub (h : hubFileSizes info = some expected) :
    authoritativeSizes info previous = some expected := by
  simp only [authoritativeSizes, h]

/-- Without the hub, sizes come from a verified marker that lists files. -/
theorem authoritativeSizes_eq_some (hhub : hubFileSizes info = none) :
    authoritativeSizes info previous = some expected ↔
      ∃ m, previous = some m ∧ m.verified = true ∧ m.files ≠ [] ∧ m.files = expected := by
  rcases previous with - | m
  · simp [authoritativeSizes, hhub]
  · simp [authoritativeSizes, hhub, and_assoc]

/-! ### Where the sizes of a run come from -/

/-- The marker that a process goes by was read when it began, and the sizes follow from it. -/
def Follows (json : JsonCodec) (builtins : Conversions) (info : Option (ModelInfo sizeOf))
    (marker : Option String) (s : State) : Phase → Prop
  | .ready => s.marker = marker
  | .checking _ previous | .probing _ previous _ | .verifying _ previous _ _ _ | .waiting previous
  | .measuring previous | .sizing previous => readMarker json builtins marker = .ok previous
  | .fetching expected _ _ _ | .comparing expected _ _ _ =>
      ∃ previous, readMarker json builtins marker = .ok previous ∧
        authoritativeSizes info previous = expected
  | .discarding expected _ =>
      ∃ previous, readMarker json builtins marker = .ok previous ∧
        authoritativeSizes info previous = some expected
  | .listing _ _ _ | .marking _ _ | .leaving _ | .returned _ | .dead => True

theorem follows_declined (locked : Bool) (h : readMarker json builtins marker = .ok previous) :
    Follows json builtins info marker s (declined locked previous) := by
  rcases locked with - | - <;> exact h

theorem follows_finished (locked : Bool) (result : Except PreparationError PreparationOutcome) :
    Follows json builtins info marker s (finished locked result) := by
  rcases locked with - | - <;> exact trivial

theorem follows_step (h : Follows json builtins info marker s (s.phase 0))
    (hsizes : answer.sizes = authoritativeSizes info) :
    Follows json builtins info marker (advance json builtins config s 0 answer)
      ((advance json builtins config s 0 answer).phase 0) := by
  rcases hphase : s.phase 0 with - | ⟨locked, previous⟩ | ⟨locked, previous, found⟩ |
    ⟨locked, previous, found, rest, ok⟩ | previous | previous | previous |
    ⟨expected, attempt, spent, repairing⟩ | ⟨expected, snapshot, attempts, repairing⟩ |
    ⟨expected, attempts⟩ | ⟨snapshot, attempts, verified⟩ | ⟨state, attempts⟩ | result | result | -
  all_goals rw [hphase] at h
  · have hmarker : s.marker = marker := h
    simp only [advance, hphase]
    split
    · rw [set_phase_self]
      exact trivial
    · rename_i hread
      rw [set_phase_self, ← hmarker]
      exact hread
  · simp only [advance, hphase]
    split
    · rw [set_phase_self]
      exact follows_finished locked _
    · rw [set_phase_self]
      exact follows_declined locked h
    · split
      · rw [set_phase_self]
        exact h
      · rw [set_phase_self]
        exact follows_declined locked h
  · simp only [advance, hphase]
    split
    · rw [set_phase_self]
      exact h
    · rw [set_phase_self]
      exact follows_declined locked h
  · rcases rest with - | ⟨file, rest⟩
    · simp only [advance, hphase]
      split
      · rw [set_phase_self]
        exact follows_finished locked _
      · rw [set_phase_self]
        exact follows_declined locked h
    · simp only [advance, hphase, set_phase_self]
      exact h
  · simp only [advance, hphase]
    split
    · rw [set_phase_self]
      exact h
    · split
      · rw [set_phase_self]
        exact trivial
      · rw [opens_phase, hphase]
        exact h
  · simp only [advance, hphase]
    split
    · rw [set_phase_self]
      exact h
    · rw [set_phase_self]
      exact trivial
  · simp only [advance, hphase, set_phase_self]
    exact ⟨previous, h, by rw [hsizes]⟩
  · simp only [advance, hphase]
    split
    · rw [set_phase_self]
      exact h
    · rw [set_phase_self]
      exact h
    · rw [set_phase_self]
      exact trivial
    · split
      · rw [set_phase_self]
        exact trivial
      · rw [set_phase_self]
        exact h
  · simp only [advance, hphase]
    split
    · rw [set_phase_self]
      exact trivial
    · split
      · rw [set_phase_self]
        exact trivial
      · split
        · rw [set_phase_self]
          exact trivial
        · rw [set_phase_self]
          exact h
  · simp only [advance, hphase, set_phase_self]
    exact h
  · simp only [advance, hphase, set_phase_self]
    exact trivial
  · simp only [advance, hphase, set_phase_self]
    exact trivial
  · simp only [advance, hphase, set_phase_self]
    exact trivial
  · simp only [advance, hphase]
    exact trivial
  · simp only [advance, hphase]
    exact trivial

theorem follows_prepareSized (disk : Disk) (answers : List Answer) :
    Follows json builtins info marker (prepareSized json builtins config info marker disk answers)
      ((prepareSized json builtins config info marker disk answers).phase 0) := by
  have hrun : ∀ sized : List Answer, (∀ answer ∈ sized, answer.sizes = authoritativeSizes info) →
      ∀ s : State, Follows json builtins info marker s (s.phase 0) →
        Follows json builtins info marker (Runs.after (step json builtins config) s (alone 0 sized))
          ((Runs.after (step json builtins config) s (alone 0 sized)).phase 0) := by
    intro sized
    induction sized with
    | nil => exact fun _ _ h => h
    | cons answer rest ih =>
      intro hsized s h
      rw [List.forall_mem_cons] at hsized
      exact ih hsized.2 _ (follows_step h hsized.1)
  refine hrun _ ?_ { marker := marker, disk := disk } rfl
  intro sized hsized
  obtain ⟨answer, -, rfl⟩ := List.mem_map.mp hsized
  rfl

/-- What is removed has another size than the sizes of the run say, or shares its place with
    another name that has. -/
theorem of_discards
    (h : Discards (prepareSized json builtins config info marker disk answers) file) :
    ∃ previous expected, readMarker json builtins marker = .ok previous ∧
      authoritativeSizes info previous = some expected ∧
      ((∃ size, (file.1, size) ∈ expected ∧ file.2 ≠ size) ∨
        (Unshared sizeOf (prepareSized json builtins config info marker disk answers) →
          sizeOf file.1 ≠ some file.2)) := by
  have hfollows : Follows json builtins info marker
      (prepareSized json builtins config info marker disk answers)
      ((prepareSized json builtins config info marker disk answers).phase 0) :=
    follows_prepareSized disk answers
  unfold Discards at h
  split at h
  · rename_i expected snapshot attempts hphase
    rw [hphase] at hfollows
    rcases hfollows with ⟨previous, hread, hsizes⟩
    rcases h with ⟨hstat, name, hname, hplace⟩
    refine ⟨previous, expected, hread, hsizes, ?_⟩
    by_cases hself : file.1 = name
    · subst hself
      rcases mem_mismatches.mp hname with ⟨size, hmem, hne⟩
      refine .inl ⟨size, hmem, fun heq => hne ?_⟩
      rw [hstat, heq]
    · right
      intro hunshared
      unfold Unshared at hunshared
      rw [hphase] at hunshared
      exact hunshared name hname file hself hplace hstat
  · exact h.elim

/-! ### When the sizes can be relied on -/

/-- Where the sizes of the marker stand in, they are those of the requested model and revision,
    and they are right. -/
def Reliable (json : JsonCodec) (builtins : Conversions) (config : PreparationConfig)
    (info : Option (ModelInfo sizeOf)) (marker : Option String) : Prop :=
  ∀ m, readMarker json builtins marker = .ok (some m) → hubFileSizes info = none →
    m.verified = true → m.files ≠ [] → m.matches config.modelId config.modelRevision = true ∧
      ∀ file ∈ m.files, ∀ size, sizeOf file.1 = some size → size = file.2

theorem Reliable.onlyCorrupt (h : Reliable json builtins config info marker) :
    OnlyCorrupt json builtins config info marker where
  differs disk answers hunshared file hfile := by
    rcases of_discards hfile with ⟨previous, expected, hread, hsizes, ⟨size, hmem, hne⟩ | hshared⟩
    · intro htrue
      rcases hhub : hubFileSizes info with - | sizes
      · rw [authoritativeSizes_eq_some hhub] at hsizes
        rcases hsizes with ⟨m, rfl, hverified, hfiles, rfl⟩
        exact hne ((h m hread hhub hverified hfiles).2 (file.1, size) hmem file.2 htrue)
      · rw [authoritativeSizes_hub hhub, Option.some.injEq] at hsizes
        have hhonest := hubFileSizes_honest hhub (hsizes ▸ hmem)
        rw [htrue, Option.some.injEq] at hhonest
        exact hne hhonest
    · exact hshared hunshared
  own m hread hhub hfits disk answers file hfile := by
    rcases of_discards hfile with ⟨previous, expected, hread', hsizes, -⟩
    rw [authoritativeSizes_eq_some hhub] at hsizes
    rcases hsizes with ⟨m', rfl, hverified, hfiles, rfl⟩
    rw [hread, Except.ok.injEq, Option.some.injEq] at hread'
    subst hread'
    have hmatches := (h m hread hhub hverified hfiles).1
    rw [hfits] at hmatches
    cases hmatches

/-- A volume without the snapshot, and a download that leaves the file there, with the size. -/
def leftover (name : String) (size : Int) : Disk where
  isDir _ := false
  stat _ other := if other = name then some size else none
  walk _ := [name]

def leaving (name : String) (size : Int) : Answer where
  fetched := some (.ok "snapshot")
  disk := leftover name size

theorem exists_comparing (config : PreparationConfig)
    (hread : readMarker json builtins marker = .ok (some m))
    (hsizes : authoritativeSizes info (some m) = some m.files) (hverified : m.verified = true)
    (name : String) (size : Int) :
    ∃ count, ∀ s, s = prepareSized json builtins config info marker (leftover name size)
      (List.replicate count (leaving name size)) →
        s.phase 0 = .comparing (some m.files) "snapshot" 1 false ∧ s.disk = leftover name size := by
  rcases hfits : m.matches config.modelId config.modelRevision with - | -
  · refine ⟨7, ?_⟩
    rintro s rfl
    simp [prepareSized, prepareAlone, alone, List.replicate, step, advance, hread, hfits, declined,
      State.set, leaving, hsizes]
  · -- the marker is looked into twice, and its snapshot is not there
    refine ⟨9, ?_⟩
    rintro s rfl
    simp [prepareSized, prepareAlone, alone, List.replicate, step, advance, hread, hfits, hverified,
      declined, State.set, leaving, leftover, hsizes]

/-- A process that has to go by the marker comes to discard the file, which shares its place with
    no other. -/
theorem exists_discards (config : PreparationConfig)
    (hread : readMarker json builtins marker = .ok (some m))
    (hhub : hubFileSizes info = none) (hverified : m.verified = true) (hmem : file ∈ m.files)
    {actual : Int} (hne : actual ≠ file.2) :
    ∃ answers, Discards (prepareSized json builtins config info marker (leftover file.1 actual) answers)
        (file.1, actual) ∧
      Unshared sizeOf (prepareSized json builtins config info marker (leftover file.1 actual) answers) := by
  have hsizes : authoritativeSizes info (some m) = some m.files :=
    (authoritativeSizes_eq_some hhub).mpr ⟨m, rfl, hverified, List.ne_nil_of_mem hmem, rfl⟩
  obtain ⟨count, hrun⟩ := exists_comparing config hread hsizes hverified file.1 actual
  refine ⟨List.replicate count (leaving file.1 actual), ?_, ?_⟩
  · rw [Discards, (hrun _ rfl).1, (hrun _ rfl).2]
    refine ⟨if_pos rfl, file.1, mem_mismatches.mpr ⟨file.2, hmem, ?_⟩, rfl⟩
    have hstat : (leftover file.1 actual).stat "snapshot" file.1 = some actual := if_pos rfl
    rw [hstat]
    exact fun heq => hne (Option.some.inj heq)
  · rw [Unshared, (hrun _ rfl).1, (hrun _ rfl).2]
    intro name hname other hother hplace
    exact absurd hplace.symm hother

theorem OnlyCorrupt.reliable (h : OnlyCorrupt json builtins config info marker) :
    Reliable json builtins config info marker := by
  intro m hread hhub hverified hfiles
  constructor
  · obtain ⟨file, hfile⟩ := List.exists_mem_of_ne_nil m.files hfiles
    have hne : file.2 + 1 ≠ file.2 := by omega
    obtain ⟨answers, hremoved, -⟩ := exists_discards config hread hhub hverified hfile hne
    by_contra hfits
    rw [Bool.not_eq_true] at hfits
    exact h.own m hread hhub hfits _ answers _ hremoved
  · intro file hfile size htrue
    by_contra hne
    obtain ⟨answers, hremoved, hunshared⟩ := exists_discards config hread hhub hverified hfile hne
    exact h.differs _ answers hunshared _ hremoved htrue

/-- Only corrupt files are removed, whatever the volume holds but for intact files in the place of
    one that differs, exactly if the marker need not stand in for the hub, or it is of what is
    requested and right about it. -/
theorem only_corrupt_iff (json : JsonCodec) (builtins : Conversions) (config : PreparationConfig)
    (info : Option (ModelInfo sizeOf)) (marker : Option String) :
    OnlyCorrupt json builtins config info marker ↔ Reliable json builtins config info marker :=
  ⟨OnlyCorrupt.reliable, Reliable.onlyCorrupt⟩

/-! ### A marker of another model -/

namespace Sample

/-- A worker that asks for the model `n`. -/
def changedModel : PreparationConfig := ⟨"n", none, 5, lockPath, five_attempts⟩

/-- The file `w` of the model `n` has four bytes. -/
def changedSizes (name : String) : Option Int := if name = "w" then some 4 else none

end Sample

/-- The marker is of the model `m`, whose file `w` has three bytes, and the hub cannot be
    reached: the worker removes the intact `w` of `n` that it has just downloaded. -/
theorem other_models_sizes_remove : ¬ OnlyCorrupt Sample.json Sample.builtins Sample.changedModel
    (none : Option (ModelInfo Sample.changedSizes)) (some "\x7b\x7d\n") := by
  intro h
  have hread : readMarker Sample.json Sample.builtins (some "\x7b\x7d\n") =
      .ok (some Sample.state.canonical) :=
    readMarker_toJson rfl (PyValue.canonical_ofText none) rfl
  have hfile : ("w", 3) ∈ Sample.state.canonical.files := by
    rw [ModelState.canonical, List.mem_mergeSort]
    decide
  have hhub : hubFileSizes (none : Option (ModelInfo Sample.changedSizes)) = none := rfl
  have hne : (4 : Int) ≠ 3 := by decide
  obtain ⟨answers, hremoved, hunshared⟩ := exists_discards Sample.changedModel hread hhub rfl hfile hne
  exact h.differs _ answers hunshared _ hremoved rfl

namespace Sample

/-- The files `a.json` and `b.json` of the model `n` have five and four bytes. -/
def pairedSizes (name : String) : Option Int :=
  if name = "a.json" then some 5 else if name = "b.json" then some 4 else none

theorem paired_honest (name : String) (size : Int)
    (h : (name, some size) ∈ [("a.json", some 5), ("b.json", some 4)]) :
    pairedSizes name = some size := by
  rcases List.mem_pair.mp h with heq | heq <;> cases heq <;> rfl

def paired : ModelInfo pairedSizes := ⟨[("a.json", some 5), ("b.json", some 4)], paired_honest⟩

/-- Both names are links to one blob of four bytes. -/
def linked : Answer where
  fetched := some (.ok "snapshot")
  disk :=
    { isDir := fun _ => false
      stat := fun _ _ => some 4
      walk := fun _ => ["a.json", "b.json"]
      place := fun _ _ => "blob" }

end Sample

/-- An intact file that is linked to the blob of one that differs is removed with it. -/
theorem shared_blob_removed : ∃ answers,
    Discards (prepareSized Sample.json Sample.builtins Sample.changedModel (some Sample.paired) none
      Sample.linked.disk answers) ("b.json", 4) ∧ Sample.pairedSizes "b.json" = some 4 := by
  have hphase : (prepareSized Sample.json Sample.builtins Sample.changedModel (some Sample.paired)
      none Sample.linked.disk (List.replicate 7 Sample.linked)).phase 0 =
        .comparing (some [("a.json", 5), ("b.json", 4)]) "snapshot" 1 false := rfl
  refine ⟨List.replicate 7 Sample.linked, ?_, rfl⟩
  rw [Discards, hphase]
  refine ⟨rfl, "a.json", ?_, rfl⟩
  exact mem_mismatches.mpr ⟨5, List.mem_cons_self, by decide⟩

end AgenticPlatform.PrepareModel
