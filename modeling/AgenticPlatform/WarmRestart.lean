import AgenticPlatform.ModelPreparation

/-!
# Warm restarts

One process prepares the model, and later another one asks for the same on the volume it
left. The marker records the commit that the snapshot stands for, whatever was asked for,
so the second process finds what it needs exactly if the request names no revision or a
commit.
-/

namespace AgenticPlatform

namespace PrepareModel

section Alone

variable {json : JsonCodec} {builtins : Conversions} {config : PreparationConfig} {s : State}
  {p n : Nat} {answer : Answer} {answers : List Answer} {m : ModelState} {locked : Bool}

/-- The steps of one process with nobody else about. -/
def alone (p : Nat) (answers : List Answer) : List Move := answers.map (.run p)

/-- A volume after one process has taken its steps there, with nobody else about. -/
def prepareAlone (json : JsonCodec) (builtins : Conversions) (config : PreparationConfig)
    (marker : Option String) (disk : Disk) (answers : List Answer) : State :=
  Runs.after (step json builtins config) { marker := marker, disk := disk } (alone 0 answers)

/-- The snapshot's directory is named after the revision, if one is asked for. -/
def Named (config : PreparationConfig) (snapshot : String) : Prop :=
  ∀ revision, config.modelRevision = some revision → pathName snapshot = revision

/-- A download that ends leaves a snapshot directory, and one of a commit is named after it. -/
def Placed (config : PreparationConfig) (answer : Answer) : Prop :=
  ∀ snapshot, answer.fetched = some (.ok snapshot) →
    answer.disk.isDir snapshot = true ∧ Named config snapshot

/-- What the volume holds of a verified outcome: the marker that was read or written, and
    its files. -/
structure Resident (json : JsonCodec) (builtins : Conversions) (config : PreparationConfig) (s : State)
    (state : ModelState) : Prop where
  marker : readMarker json builtins s.marker = .ok (some state) ∨
    (s.marker = some (state.toJson json) ∧ state.version = markerVersion ∧
      state.vllmImage.canonical = state.vllmImage)
  fits : state.matches config.modelId config.modelRevision = true
  intact : s.disk.Intact state.snapshotPath state.files

/-- What a process knows of the volume while nobody else changes it. -/
def Knows (json : JsonCodec) (builtins : Conversions) (config : PreparationConfig) (s : State) :
    Phase → Prop
  | .probing _ _ marker => Vouched json builtins config marker s
  | .verifying _ _ marker rest ok => Vouched json builtins config marker s ∧
      s.disk.isDir marker.snapshotPath = true ∧
      (ok = true → ∀ file ∈ marker.files, file ∈ rest ∨
        s.disk.stat marker.snapshotPath file.1 = some file.2)
  | .comparing _ snapshot _ _ | .listing snapshot _ _ =>
      s.disk.isDir snapshot = true ∧ Named config snapshot
  | .marking state _ => state.version = markerVersion ∧
      state.vllmImage.canonical = state.vllmImage ∧
      state.matches config.modelId config.modelRevision = true ∧
      s.disk.Intact state.snapshotPath state.files
  | .leaving (.ok outcome) | .returned (.ok outcome) =>
      Resident json builtins config s outcome.state
  | _ => True

theorem matches_newState {disk : Disk} {snapshot : String} {verified : Bool}
    (h : Named config snapshot) :
    (newState config disk snapshot verified answer).matches config.modelId config.modelRevision = true := by
  simp only [ModelState.matches, newState, if_true]
  rcases hrevision : config.modelRevision with - | revision
  · rfl
  · rw [h revision hrevision]
    simp

theorem knows_step (h : Knows json builtins config s (s.phase p)) (hplaced : Placed config answer) :
    Knows json builtins config (advance json builtins config s p answer)
      ((advance json builtins config s p answer).phase p) := by
  rcases hphase : s.phase p with - | ⟨locked, previous⟩ | ⟨locked, previous, marker⟩ |
    ⟨locked, previous, marker, rest, ok⟩ | previous | previous | previous |
    ⟨expected, attempt, spent, repairing⟩ | ⟨expected, snapshot, attempts, repairing⟩ |
    ⟨expected, attempts⟩ | ⟨snapshot, attempts, verified⟩ | ⟨state, attempts⟩ | result | result | -
  all_goals rw [hphase] at h
  · simp only [advance, hphase]
    split <;> rw [set_phase_self] <;> exact trivial
  · simp only [advance, hphase]
    split
    · rw [set_phase_self]
      cases locked <;> exact trivial
    · rw [set_phase_self]
      cases locked <;> exact trivial
    · rename_i marker hread
      split
      · rename_i hfits
        rw [Bool.and_eq_true] at hfits
        rw [set_phase_self]
        exact ⟨hread, hfits.1, hfits.2⟩
      · rw [set_phase_self]
        cases locked <;> exact trivial
  · simp only [advance, hphase]
    split
    · rename_i hdir
      rw [set_phase_self]
      exact ⟨h, hdir, fun _ file hfile => .inl hfile⟩
    · rw [set_phase_self]
      cases locked <;> exact trivial
  · rcases h with ⟨hvouched, hdir, hchecked⟩
    rcases rest with - | ⟨file, rest⟩
    · simp only [advance, hphase]
      split
      · rename_i hok
        rw [set_phase_self]
        have hfiles : ∀ file ∈ marker.files, s.disk.stat marker.snapshotPath file.1 = some file.2 := by
          intro file hfile
          rcases hchecked hok file hfile with hnone | hsame
          · cases hnone
          · exact hsame
        cases locked <;> exact ⟨.inl hvouched.1, hvouched.2.1, hdir, hfiles⟩
      · rw [set_phase_self]
        cases locked <;> exact trivial
    · simp only [advance, hphase, set_phase_self]
      refine ⟨hvouched, hdir, fun hok other hother => ?_⟩
      rw [Bool.and_eq_true, beq_iff_eq] at hok
      rcases hchecked hok.1 other hother with hrest | hsame
      · rcases List.mem_cons.mp hrest with rfl | hrest
        · exact .inr hok.2
        · exact .inl hrest
      · exact .inr hsame
  · simp only [advance, hphase]
    split
    · rw [set_phase_self]
      exact trivial
    · split
      · rw [set_phase_self]
        exact trivial
      · rw [opens_phase, hphase]
        exact trivial
  · simp only [advance, hphase]
    split <;> rw [set_phase_self] <;> exact trivial
  · simp only [advance, hphase, set_phase_self]
    exact trivial
  · simp only [advance, hphase]
    split
    · rw [set_phase_self]
      exact trivial
    · rename_i snapshot hfetched
      rw [set_phase_self]
      exact hplaced snapshot hfetched
    · rw [set_phase_self]
      exact trivial
    · split <;> rw [set_phase_self] <;> exact trivial
  · simp only [advance, hphase]
    split
    · rw [set_phase_self]
      exact h
    · split
      · rw [set_phase_self]
        exact h
      · split <;> rw [set_phase_self] <;> exact trivial
  · simp only [advance, hphase, set_phase_self]
    exact trivial
  · simp only [advance, hphase, set_phase_self]
    exact ⟨rfl, PyValue.canonical_ofText answer.image, matches_newState h.2, h.1,
      fun _ hfile => stat_of_mem_snapshotFiles hfile⟩
  · simp only [advance, hphase, set_phase_self]
    rcases h with ⟨hversion, himage, hfits, hintact⟩
    exact ⟨.inr ⟨rfl, hversion, himage⟩, hfits, hintact⟩
  · simp only [advance, hphase, set_phase_self]
    rcases result with error | outcome
    · exact trivial
    · exact ⟨h.marker, h.fits, h.intact⟩
  · simp only [advance, hphase]
    exact h
  · simp only [advance, hphase]
    exact trivial

theorem knows_alone (h : Knows json builtins config s (s.phase p))
    (hplaced : ∀ answer ∈ answers, Placed config answer) :
    Knows json builtins config (Runs.after (step json builtins config) s (alone p answers))
      ((Runs.after (step json builtins config) s (alone p answers)).phase p) := by
  induction answers generalizing s with
  | nil => exact h
  | cons answer rest ih =>
    rw [List.forall_mem_cons] at hplaced
    exact ih (knows_step h hplaced.1) hplaced.2

/-- What the volume holds is read back, up to the order of the files. -/
theorem Resident.vouched {state : ModelState} (h : Resident json builtins config s state)
    (hverified : state.verified = true)
    (hjson : json.loads (state.toJson json) = .ok (.dict state.asDict.canonical)) :
    ∃ m, Vouched json builtins config m s ∧ s.disk.Intact m.snapshotPath m.files ∧
      (m = state ∨ m = state.canonical) := by
  rcases h.marker with hread | ⟨hmarker, hversion, himage⟩
  · exact ⟨state, ⟨hread, h.fits, hverified⟩, h.intact, .inl rfl⟩
  · refine ⟨state.canonical, ⟨?_, h.fits, hverified⟩, ⟨h.intact.1, fun file hfile => ?_⟩, .inr rfl⟩
    · rw [hmarker]
      exact readMarker_toJson hjson himage hversion
    · exact h.intact.2 file (List.mem_mergeSort.mp hfile)

/-- A process alone on a volume that holds what it asks for. -/
theorem Restoring.alone (h : Restoring m locked n (s.phase p)) (hvouched : Vouched json builtins config m s)
    (hintact : s.disk.Intact m.snapshotPath m.files) (answers : List Answer) :
    Restoring m locked (n - answers.length)
      ((Runs.after (PrepareModel.step json builtins config) s (PrepareModel.alone p answers)).phase p) := by
  induction answers generalizing s n with
  | nil => exact h
  | cons answer rest ih =>
    rcases h.step answer hvouched hintact with ⟨hnext, hmarker, hdisk⟩
    have hend := ih hnext (by simpa only [Vouched, hmarker] using hvouched) (by rwa [hdisk])
    rw [Nat.sub_sub, Nat.add_comm] at hend
    exact hend

/-- A process that starts on a volume that holds what it asks for. -/
theorem prepareAlone_vouched {marker : Option String} {disk : Disk}
    (hvouched : Vouched json builtins config m { marker := marker, disk := disk })
    (hintact : disk.Intact m.snapshotPath m.files) (answers : List Answer) :
    (∀ expected attempt spent repairing, (prepareAlone json builtins config marker disk answers).phase 0 ≠
      .fetching expected attempt spent repairing) ∧
    (m.files.length + 4 ≤ answers.length →
      (prepareAlone json builtins config marker disk answers).phase 0 = .returned (.ok ⟨m, false, 0⟩)) := by
  cases answers with
  | nil =>
    refine ⟨fun _ _ _ _ => Phase.noConfusion, fun hsteps => ?_⟩
    rw [List.length_nil] at hsteps
    omega
  | cons answer rest =>
    have hstart : step json builtins config { marker := marker, disk := disk } (.run 0 answer) =
        ({ marker := marker, disk := disk } : State).set 0 (.checking false (some m)) := by
      simp only [step, advance, hvouched.1]
    have hchecking : Restoring m false (m.files.length + 3 + false.toNat)
        ((({ marker := marker, disk := disk } : State).set 0 (.checking false (some m))).phase 0) := by
      rw [set_phase_self]
      exact .checking (some m)
    have hend := hchecking.alone hvouched hintact rest
    rw [← hstart] at hend
    refine ⟨hend.ne_fetching, fun hsteps => hend.done ?_⟩
    rw [List.length_cons] at hsteps
    rw [Bool.toNat_false]
    omega

/-- A process that finds a marker of another revision and nobody about goes on to a download. -/
theorem prepareAlone_unmatched {marker : Option String} {disk : Disk}
    (hread : readMarker json builtins marker = .ok (some m))
    (hfits : m.matches config.modelId config.modelRevision = false) (hspace : answer.enough = true) :
    (prepareAlone json builtins config marker disk (List.replicate 6 answer)).phase 0 =
      .fetching (answer.sizes (some m)) 1 0 false := by
  simp [prepareAlone, PrepareModel.alone, List.replicate, step, advance, hread, hfits, hspace, declined,
    State.set]

end Alone

/-! ### What the marker records -/

/-- The marker of the volume, if it can be read, is of a commit. -/
def Recorded (json : JsonCodec) (builtins : Conversions) (commits : String → Prop)
    (marker : Option String) : Prop :=
  ∀ m, readMarker json builtins marker = .ok (some m) → commits m.revision

/-- Until it replaces the marker, a process finds the marker of a commit, and what it is about
    to record or returns is of a commit too. -/
def Sourced (json : JsonCodec) (builtins : Conversions) (commits : String → Prop) (s : State) :
    Phase → Prop
  | .probing _ _ marker | .verifying _ _ marker _ _ =>
      Recorded json builtins commits s.marker ∧ readMarker json builtins s.marker = .ok (some marker)
  | .comparing _ snapshot _ _ | .listing snapshot _ _ =>
      Recorded json builtins commits s.marker ∧ commits (pathName snapshot)
  | .marking state _ => commits state.revision ∧ state.version = markerVersion ∧
      state.vllmImage.canonical = state.vllmImage
  | .leaving (.ok outcome) | .returned (.ok outcome) => commits outcome.state.revision ∧
      (readMarker json builtins s.marker = .ok (some outcome.state) ∨
        (s.marker = some (outcome.state.toJson json) ∧ outcome.state.version = markerVersion ∧
          outcome.state.vllmImage.canonical = outcome.state.vllmImage))
  | .leaving (.error _) | .returned (.error _) | .dead => True
  | _ => Recorded json builtins commits s.marker

section Sources

variable {json : JsonCodec} {builtins : Conversions} {config : PreparationConfig} {s : State}
  {p : Nat} {answer : Answer} {answers : List Answer} {commits : String → Prop}

theorem sourced_declined (locked : Bool) (previous : Option ModelState)
    (h : Recorded json builtins commits s.marker) :
    Sourced json builtins commits s (declined locked previous) := by
  cases locked <;> exact h

theorem sourced_step (h : Sourced json builtins commits s (s.phase p))
    (hplaced : ∀ snapshot, answer.fetched = some (.ok snapshot) → commits (pathName snapshot)) :
    Sourced json builtins commits (advance json builtins config s p answer)
      ((advance json builtins config s p answer).phase p) := by
  rcases hphase : s.phase p with - | ⟨locked, previous⟩ | ⟨locked, previous, marker⟩ |
    ⟨locked, previous, marker, rest, ok⟩ | previous | previous | previous |
    ⟨expected, attempt, spent, repairing⟩ | ⟨expected, snapshot, attempts, repairing⟩ |
    ⟨expected, attempts⟩ | ⟨snapshot, attempts, verified⟩ | ⟨state, attempts⟩ | result | result | -
  all_goals rw [hphase] at h
  · simp only [advance, hphase]
    split
    · rw [set_phase_self]
      exact trivial
    · rw [set_phase_self]
      exact h
  · simp only [advance, hphase]
    split
    · rw [set_phase_self]
      cases locked <;> exact trivial
    · rw [set_phase_self]
      exact sourced_declined locked previous h
    · rename_i marker hread
      split
      · rw [set_phase_self]
        exact ⟨h, hread⟩
      · rw [set_phase_self]
        exact sourced_declined locked previous h
  · simp only [advance, hphase]
    split
    · rw [set_phase_self]
      exact h
    · rw [set_phase_self]
      exact sourced_declined locked previous h.1
  · rcases rest with - | ⟨file, rest⟩
    · simp only [advance, hphase]
      split
      · rw [set_phase_self]
        have hfound := h.1 marker h.2
        cases locked <;> exact ⟨hfound, .inl h.2⟩
      · rw [set_phase_self]
        exact sourced_declined locked previous h.1
    · simp only [advance, hphase, set_phase_self]
      exact h
  · simp only [advance, hphase]
    split
    · rw [set_phase_self]
      exact h
    · split
      · rw [set_phase_self]
        exact trivial
      · rw [opens_phase, hphase]
        exact h
  · simp only [advance, hphase]
    split
    · rw [set_phase_self]
      exact h
    · rw [set_phase_self]
      exact trivial
  · simp only [advance, hphase, set_phase_self]
    exact h
  · simp only [advance, hphase]
    split
    · rw [set_phase_self]
      exact h
    · rename_i snapshot hfetched
      rw [set_phase_self]
      exact ⟨h, hplaced snapshot hfetched⟩
    · rw [set_phase_self]
      exact trivial
    · split
      · rw [set_phase_self]
        exact trivial
      · rw [set_phase_self]
        exact h
  · simp only [advance, hphase]
    split
    · rw [set_phase_self]
      exact h
    · split
      · rw [set_phase_self]
        exact h
      · split
        · rw [set_phase_self]
          exact trivial
        · rw [set_phase_self]
          show Recorded json builtins commits (s.discarded config snapshot _).marker
          rw [discarded_marker]
          exact h.1
  · simp only [advance, hphase, set_phase_self]
    exact h
  · simp only [advance, hphase, set_phase_self]
    exact ⟨h.2, rfl, PyValue.canonical_ofText answer.image⟩
  · simp only [advance, hphase, set_phase_self]
    exact ⟨h.1, .inr ⟨rfl, h.2⟩⟩
  · simp only [advance, hphase, set_phase_self]
    rcases result with error | outcome
    · exact trivial
    · exact h
  · simp only [advance, hphase]
    exact h
  · simp only [advance, hphase]
    exact trivial

theorem sourced_alone (h : Sourced json builtins commits s (s.phase p))
    (hplaced : ∀ answer ∈ answers, ∀ snapshot, answer.fetched = some (.ok snapshot) →
      commits (pathName snapshot)) :
    Sourced json builtins commits (Runs.after (step json builtins config) s (alone p answers))
      ((Runs.after (step json builtins config) s (alone p answers)).phase p) := by
  induction answers generalizing s with
  | nil => exact h
  | cons answer rest ih =>
    rw [List.forall_mem_cons] at hplaced
    exact ih (sourced_step h hplaced.1) hplaced.2

/-- The marker that a process leaves is of the commit it returns. -/
theorem left_recorded {marker : Option String} {disk : Disk} {outcome : PreparationOutcome}
    (hmarker : Recorded json builtins commits marker)
    (hplaced : ∀ answer ∈ answers, ∀ snapshot, answer.fetched = some (.ok snapshot) →
      commits (pathName snapshot))
    (hfirst : (prepareAlone json builtins config marker disk answers).phase 0 = .returned (.ok outcome))
    (hjson : json.loads (outcome.state.toJson json) = .ok (.dict outcome.state.asDict.canonical)) :
    ∃ m, readMarker json builtins (prepareAlone json builtins config marker disk answers).marker =
      .ok (some m) ∧ commits m.revision := by
  have hsourced : Sourced json builtins commits (prepareAlone json builtins config marker disk answers)
      ((prepareAlone json builtins config marker disk answers).phase 0) :=
    @sourced_alone json builtins config { marker := marker, disk := disk } 0 answers commits hmarker hplaced
  rw [hfirst] at hsourced
  obtain ⟨hcommit, hread | ⟨hwrote, hversion, himage⟩⟩ := hsourced
  · exact ⟨outcome.state, hread, hcommit⟩
  · refine ⟨outcome.state.canonical, ?_, hcommit⟩
    rw [hwrote]
    exact readMarker_toJson hjson himage hversion

end Sources

/-- A process that starts on the volume never comes to a download, and returns a state that
    matches, the one of the first process up to the order of its files. -/
def Restarts (json : JsonCodec) (builtins : Conversions) (config : PreparationConfig) (left : State)
    (first : ModelState) : Prop :=
  ∃ state : ModelState, state.matches config.modelId config.modelRevision = true ∧
    state.verified = true ∧ state.revision = first.revision ∧
    state.snapshotPath = first.snapshotPath ∧ state.files.Perm first.files ∧
    ∀ again : List Answer,
      (∀ expected attempt spent repairing,
        (prepareAlone json builtins config left.marker left.disk again).phase 0 ≠
          .fetching expected attempt spent repairing) ∧
      (state.files.length + 4 ≤ again.length →
        (prepareAlone json builtins config left.marker left.disk again).phase 0 =
          .returned (.ok ⟨state, false, 0⟩))

/-- A second `prepare_model` on the volume that the first one left, with the same
    configuration: where the first returned a verified state, the second returns it again
    without a download exactly if the revision is unset or names a commit. The hub client
    places a snapshot in a directory named after its commit, and a marker that the first
    one found is of a commit, as every marker is that `prepare_model` wrote. -/
theorem warm_restart_iff (json : JsonCodec) (builtins : Conversions) (config : PreparationConfig)
    (commits : String → Prop) (marker : Option String) (disk : Disk) (answers : List Answer)
    (outcome : PreparationOutcome) (hmarker : Recorded json builtins commits marker)
    (hplaced : ∀ answer ∈ answers, ∀ snapshot, answer.fetched = some (.ok snapshot) →
      answer.disk.isDir snapshot = true ∧ commits (pathName snapshot) ∧
        ∀ commit, config.modelRevision = some commit → commits commit → pathName snapshot = commit)
    (hfirst : (prepareAlone json builtins config marker disk answers).phase 0 = .returned (.ok outcome))
    (hverified : outcome.state.verified = true)
    (hjson : json.loads (outcome.state.toJson json) = .ok (.dict outcome.state.asDict.canonical)) :
    Restarts json builtins config (prepareAlone json builtins config marker disk answers) outcome.state ↔
      ∀ revision, config.modelRevision = some revision → commits revision := by
  let left := prepareAlone json builtins config marker disk answers
  constructor
  · rintro ⟨_, -, -, -, -, -, hagain⟩ revision hasked
    by_contra hmoving
    obtain ⟨m, hread, hcommit⟩ := left_recorded hmarker
      (fun answer hanswer snapshot hfetched => (hplaced answer hanswer snapshot hfetched).2.1) hfirst hjson
    -- the marker is of a commit, and the request is not
    have hfits : m.matches config.modelId config.modelRevision = false := by
      have hne : m.revision ≠ revision := by
        rintro rfl
        exact hmoving hcommit
      rw [ModelState.matches, hasked]
      split
      · exact beq_eq_false_iff_ne.mpr fun hsame => hne (Option.some.inj hsame).symm
      · rfl
    exact (hagain (List.replicate 6 { disk := left.disk })).1 _ 1 0 false
      (prepareAlone_unmatched hread hfits rfl)
  · intro hrevision
    have hknows : Knows json builtins config left (left.phase 0) := by
      refine knows_alone trivial fun answer hanswer snapshot hfetched => ?_
      rcases hplaced answer hanswer snapshot hfetched with ⟨hdir, -, hnamed⟩
      exact ⟨hdir, fun revision hasked => hnamed revision hasked (hrevision revision hasked)⟩
    have hresident : Resident json builtins config left outcome.state := by
      rw [show left.phase 0 = .returned (.ok outcome) from hfirst] at hknows
      exact hknows
    rcases hresident.vouched hverified hjson with ⟨state, hvouched, hintact, hsame⟩
    refine ⟨state, hvouched.2.1, hvouched.2.2, ?_, ?_, ?_, prepareAlone_vouched hvouched hintact⟩
    · rcases hsame with rfl | rfl <;> rfl
    · rcases hsame with rfl | rfl <;> rfl
    · rcases hsame with rfl | rfl
      · exact .refl _
      · exact List.mergeSort_perm ..

/-! ### A volume with one file -/

namespace Sample

/-- The model `m` at the given revision. -/
def config (revision : Option String) : PreparationConfig := ⟨"m", revision, 5, lockPath, five_attempts⟩

/-- `main` and the commit `abc` stand for one snapshot, of one file with three bytes. -/
def disk : Disk where
  isDir path := path == "/hub/snapshots/abc"
  stat _ name := if name = "w" then some 3 else none
  walk _ := ["w"]

def answer : Answer where
  sizes _ := some [("w", 3)]
  fetched := some (.ok "/hub/snapshots/abc")
  disk := disk
  now := "2026-01-01T00:00:00+00:00"

def state : ModelState := newState (config none) disk "/hub/snapshots/abc" true answer

def json : JsonCodec where
  dumps _ := "\x7b\x7d"
  loads text :=
    if text = "\x7b\x7d\n" then .ok (.dict state.asDict.canonical) else .error jsonDecodeError

/-- The volume after the first run. -/
def left (revision : Option String) : State :=
  prepareAlone json builtins (config revision) none disk (List.replicate 11 answer)

theorem left_phase (revision : Option String) :
    (left revision).phase 0 = .returned (.ok ⟨state, true, 1⟩) := rfl

theorem left_read (revision : Option String) :
    readMarker json builtins (left revision).marker = .ok (some state.canonical) :=
  readMarker_toJson rfl (PyValue.canonical_ofText none) rfl

end Sample

/-- The marker of a worker that follows `main` records the commit, which is not what the
    worker asks for when it starts again: on the unchanged volume it comes to a download. -/
theorem moving_revision_downloads_again :
    ∃ outcome, (Sample.left (some "main")).phase 0 = .returned (.ok outcome) ∧
      outcome.state.verified = true ∧
      (prepareAlone Sample.json Sample.builtins (Sample.config (some "main"))
        (Sample.left (some "main")).marker (Sample.left (some "main")).disk
        (List.replicate 6 Sample.answer)).phase 0 = .fetching (some [("w", 3)]) 1 0 false :=
  ⟨_, Sample.left_phase (some "main"), rfl,
    prepareAlone_unmatched (Sample.left_read (some "main")) (by decide) rfl⟩

/-- A worker that asks for the commit `abc` finds it again. -/
theorem warm_restart_pinned :
    Restarts Sample.json Sample.builtins (Sample.config (some "abc")) (Sample.left (some "abc")) Sample.state := by
  refine (warm_restart_iff Sample.json Sample.builtins (Sample.config (some "abc")) (· = "abc") none Sample.disk
    (List.replicate 11 Sample.answer) ⟨Sample.state, true, 1⟩ (fun m hread => by cases hread) ?_
    (Sample.left_phase (some "abc")) rfl rfl).mpr ?_
  · intro answer hanswer snapshot hfetched
    rw [List.eq_of_mem_replicate hanswer] at hfetched ⊢
    cases hfetched
    refine ⟨rfl, by decide, fun commit _ hcommit => ?_⟩
    subst hcommit
    decide
  · intro revision hrevision
    cases hrevision
    rfl

end PrepareModel

end AgenticPlatform
