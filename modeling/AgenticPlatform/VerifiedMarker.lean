import AgenticPlatform.WarmRestart

/-!
# Verified means verified

`prepare_model` alone on a volume, with any downloader and any source of sizes. What it does
next is what a process of `PrepareModel` does; what becomes of the volume is what the file
system does when files are unlinked and the marker is replaced. The names of a size table are
joined to the snapshot as they are, so one of them may lead to the marker itself.
-/

namespace AgenticPlatform.PrepareModel

variable {W C : Type}

/-- What is used of a file system: what the marker holds, if it can be opened, and the text of
    that, if it can be decoded; what is found in snapshots, what `_discard` unlinks for a name,
    and `write_marker`. -/
structure FileSystem (W C : Type) where
  content : W → Option C
  decode : C → Option String
  disk : W → Disk
  unlink : (snapshot name : String) → W → W
  replace : String → W → W

/-- The text of the marker. -/
def FileSystem.read (fs : FileSystem W C) (world : W) : Option String :=
  (fs.content world).bind fs.decode

/-- `_discard`: one name after the other. -/
def FileSystem.discard (fs : FileSystem W C) (snapshot : String) : List String → W → W
  | [], world => world
  | name :: rest, world => fs.discard snapshot rest (fs.unlink snapshot name world)

/-- What the world answers to a step: whether somebody else has the lock and the deadline has
    passed, whether there is space, what the source of sizes returns unless it raises, how a
    download attempt ends unless it raises what is not caught, the volume after it or after a
    marker that could not be written, whether the lines that the step logs are taken, with the
    number of files discarded before one that is not, and the clock and the environment. -/
structure Reply (W : Type) where
  busy : Bool := false
  expired : Bool := false
  enough : Bool := true
  sizes : Option ModelState → Option (Option (List (String × Int))) := fun _ => some none
  fetched : Option (Except FetchError String) := none
  world : W
  written : Bool := true
  logged : Bool := true
  reached : Nat := 0
  now : String := ""
  image : Option String := none

/-- A call of `prepare_model`; `table` is what the source of sizes returned. -/
structure Site (W : Type) where
  world : W
  phase : Phase := .ready
  table : Option (List (String × Int)) := none
  failed : Bool := false

def Reply.answer (fs : FileSystem W C) (reply : Reply W) : Answer where
  expired := reply.expired
  enough := reply.enough
  sizes previous := (reply.sizes previous).getD none
  fetched := reply.fetched
  disk := fs.disk reply.world
  now := reply.now
  image := reply.image

/-- The volume and the call as one of the processes sees them. -/
def Site.view (fs : FileSystem W C) (s : Site W) (busy : Bool) : State where
  marker := fs.read s.world
  disk := fs.disk s.world
  locks _ := if busy then some 1 else none
  phase _ := s.phase

section Call

variable (fs : FileSystem W C) (json : JsonCodec) (builtins : Conversions)
  (config : PreparationConfig)

/-- What the call does next. -/
def Site.next (s : Site W) (reply : Reply W) : Phase :=
  (advance json builtins config (s.view fs reply.busy) 0 (reply.answer fs)).phase 0

/-- The next step of the call, if what it logs is taken. -/
def Site.proceed (s : Site W) (reply : Reply W) : Site W :=
  match s.phase with
  | .sizing previous =>
    match reply.sizes previous with
    | none => { s with failed := true }
    | some table => { s with phase := s.next fs json builtins config reply, table := table }
  | .fetching _ _ _ _ =>
    match reply.fetched with
    | none => { s with failed := true, world := reply.world }
    | some _ => { s with phase := s.next fs json builtins config reply, world := reply.world }
  | .comparing (some sizes) snapshot _ false =>
    { s with
      phase := s.next fs json builtins config reply
      world := fs.discard snapshot (mismatches (fs.disk s.world) snapshot sizes) s.world }
  | .marking state _ =>
    if reply.written then
      { s with
        phase := s.next fs json builtins config reply
        world := fs.replace (state.toJson json) s.world }
    else { s with failed := true, world := reply.world }
  | _ => { s with phase := s.next fs json builtins config reply }

/-- The steps that log a line. -/
def logs : Phase → Bool
  | .ready | .listing _ _ _ | .leaving _ | .returned _ | .dead => false
  | _ => true

/-- The volume when a line that the step logs raises. A file is unlinked before that is logged,
    and the line that the model is ready follows the marker. -/
def Site.interrupted (s : Site W) (reply : Reply W) : W :=
  match s.phase with
  | .fetching _ _ _ _ => reply.world
  | .comparing (some sizes) snapshot _ false =>
    fs.discard snapshot ((mismatches (fs.disk s.world) snapshot sizes).take reply.reached) s.world
  | .marking state _ =>
    if reply.written then fs.replace (state.toJson json) s.world else reply.world
  | _ => s.world

/-- The next step of the call, unless an exception has left it. -/
def Site.step (s : Site W) (reply : Reply W) : Site W :=
  if s.failed then s
  else if logs s.phase && !reply.logged then
    { s with failed := true, world := s.interrupted fs json reply }
  else s.proceed fs json builtins config reply

end Call

/-! ### The promise -/

/-- Every file of the table is in the snapshot with exactly its size. -/
def Exact (disk : Disk) (snapshot : String) (sizes : List (String × Int)) : Prop :=
  ∀ file ∈ sizes, disk.stat snapshot file.1 = some file.2

/-- A snapshot that counts as verified was held against a table; another one had none. -/
def Checked (fs : FileSystem W C) (s : Site W) (snapshot : String) (verified : Bool) : Prop :=
  (verified = true → ∃ sizes, s.table = some sizes ∧ Exact (fs.disk s.world) snapshot sizes) ∧
    (verified = false → s.table = none)

def Raised (s : Site W) : Prop := s.failed = true ∨ ∃ error, s.phase = .returned (.error error)

/-- What holds of a call that began on the volume `start` and has come to `s`. -/
structure Promise (fs : FileSystem W C) (start : W) (s : Site W) : Prop where
  verified : ∀ state attempts, s.phase = .returned (.ok ⟨state, true, attempts⟩) →
    state.verified = true →
      ∃ sizes, s.table = some sizes ∧ Exact (fs.disk s.world) state.snapshotPath sizes
  checked : ∀ state attempts, s.failed = false → s.phase = .marking state attempts →
    Checked fs s state.snapshotPath state.verified
  raised : Raised s → fs.content s.world = fs.content start

/-! ### Names that lead elsewhere -/

/-- No unlink changes what the marker reads. -/
def Spares (fs : FileSystem W C) (snapshot : String) : List String → W → Prop
  | [], _ => True
  | name :: rest, world => fs.content (fs.unlink snapshot name world) = fs.content world ∧
      Spares fs snapshot rest (fs.unlink snapshot name world)

/-- A step at which the names of the size table stay away from the marker: what is unlinked is
    not the marker, and what the marker's replacement touches is no file of the table. The
    downloader, and a marker that could not be written, leave the one that is there, and the
    line logged after the marker is taken. -/
def Apart (fs : FileSystem W C) (json : JsonCodec) (s : Site W) (reply : Reply W) : Prop :=
  match s.phase with
  | .fetching _ _ _ _ => fs.content reply.world = fs.content s.world
  | .comparing (some sizes) snapshot _ false =>
    Spares fs snapshot (mismatches (fs.disk s.world) snapshot sizes) s.world
  | .marking state _ =>
    if reply.written then
      reply.logged = true ∧ ∀ file ∈ s.table.getD [],
        (fs.disk (fs.replace (state.toJson json) s.world)).stat state.snapshotPath file.1 =
          (fs.disk s.world).stat state.snapshotPath file.1
    else fs.content reply.world = fs.content s.world
  | _ => True

variable {fs : FileSystem W C} {json : JsonCodec} {builtins : Conversions}
  {config : PreparationConfig} {s : Site W} {reply : Reply W} {start world : W}
  {snapshot : String} {names : List String}
  {sizes : List (String × Int)} {replies : List (Reply W)}

theorem Spares.read_discard (h : Spares fs snapshot names world) :
    fs.content (fs.discard snapshot names world) = fs.content world := by
  induction names generalizing world with
  | nil => rfl
  | cons name rest ih => exact (ih h.2).trans h.1

theorem Spares.take (h : Spares fs snapshot names world) (count : Nat) :
    Spares fs snapshot (names.take count) world := by
  induction names generalizing world count with
  | nil =>
    rw [List.take_nil]
    exact h
  | cons name rest ih =>
    cases count with
    | zero => exact trivial
    | succ count => exact ⟨h.1, ih h.2 count⟩

/-- Without a mismatch every file of the table is there. -/
theorem exact_of_mismatches {disk : Disk} (h : mismatches disk snapshot sizes = []) :
    Exact disk snapshot sizes := by
  intro file hfile
  rw [mismatches, List.map_eq_nil_iff, List.filter_eq_nil_iff] at h
  have hsame := h file hfile
  rw [Bool.not_eq_true, bne_eq_false_iff_eq] at hsame
  exact hsame

/-! ### Along a call -/

/-- The call has not replaced the marker. -/
def Unmarked : Phase → Prop
  | .leaving (.ok outcome) | .returned (.ok outcome) => outcome.downloaded = false
  | _ => True

/-- What a call knows of the size table and of the snapshot. -/
def Sound (fs : FileSystem W C) (s : Site W) : Phase → Prop
  | .fetching expected _ _ _ | .comparing expected _ _ _ => s.table = expected
  | .discarding expected _ => s.table = some expected
  | .listing snapshot _ verified => Checked fs s snapshot verified
  | .marking state _ => Checked fs s state.snapshotPath state.verified
  | .leaving (.ok outcome) | .returned (.ok outcome) =>
      outcome.downloaded = true → Checked fs s outcome.state.snapshotPath outcome.state.verified
  | _ => True

/-- The invariant of a call. -/
structure Steady (fs : FileSystem W C) (start : W) (s : Site W) : Prop where
  reads : Unmarked s.phase → fs.content s.world = fs.content start
  sound : s.failed = false → Sound fs s s.phase
  failed : s.failed = true → Unmarked s.phase

theorem Steady.promise (h : Steady fs start s) : Promise fs start s where
  verified state attempts hphase hverified := by
    rcases hgoing : s.failed with - | -
    · have hsound := h.sound hgoing
      rw [hphase] at hsound
      exact (hsound rfl).1 hverified
    · have hunmarked := h.failed hgoing
      rw [hphase] at hunmarked
      cases hunmarked
  checked state attempts hgoing hphase := by
    have hsound := h.sound hgoing
    rw [hphase] at hsound
    exact hsound
  raised hraised := by
    rcases hraised with hraised | ⟨error, hphase⟩
    · exact h.reads (h.failed hraised)
    · refine h.reads ?_
      rw [hphase]
      exact trivial

theorem sound_declined (locked : Bool) (previous : Option ModelState) :
    Sound fs s (declined locked previous) := by
  rcases locked with - | - <;> exact trivial

theorem sound_finished {result : Except PreparationError PreparationOutcome} (locked : Bool)
    (hresult : ∀ outcome, result = .ok outcome → outcome.downloaded = false) :
    Sound fs s (finished locked result) := by
  rcases locked with - | - <;> rcases result with error | outcome
  · exact trivial
  · intro hdownloaded
    rw [hresult outcome rfl] at hdownloaded
    cases hdownloaded
  · exact trivial
  · intro hdownloaded
    rw [hresult outcome rfl] at hdownloaded
    cases hdownloaded

theorem checked_of_exact (htable : s.table = some sizes)
    (hexact : Exact (fs.disk s.world) snapshot sizes) : Checked fs s snapshot true :=
  ⟨fun _ => ⟨sizes, htable, hexact⟩, fun hfalse => Bool.noConfusion hfalse⟩

theorem checked_of_none (htable : s.table = none) : Checked fs s snapshot false :=
  ⟨fun htrue => Bool.noConfusion htrue, fun _ => htable⟩

/-- A step from such a phase changes nothing but the phase. -/
def Quiet : Phase → Prop
  | .sizing _ | .fetching _ _ _ _ | .comparing (some _) _ _ false | .marking _ _ => False
  | _ => True

theorem of_not_quiet {phase : Phase} (h : ¬ Quiet phase) : (∃ previous, phase = .sizing previous) ∨
    (∃ expected attempt spent repairing, phase = .fetching expected attempt spent repairing) ∨
    (∃ sizes snapshot attempts, phase = .comparing (some sizes) snapshot attempts false) ∨
    ∃ state attempts, phase = .marking state attempts := by
  rcases phase with _ | _ | _ | _ | _ | _ | previous | ⟨expected, attempt, spent, repairing⟩ |
    ⟨_ | sizes, snapshot, attempts, _ | _⟩ | _ | _ | ⟨state, attempts⟩ | _ | _ | _
  case sizing => exact .inl ⟨previous, rfl⟩
  case fetching => exact .inr (.inl ⟨expected, attempt, spent, repairing, rfl⟩)
  case comparing.some.false => exact .inr (.inr (.inl ⟨sizes, snapshot, attempts, rfl⟩))
  case marking => exact .inr (.inr (.inr ⟨state, attempts, rfl⟩))
  all_goals exact absurd trivial h

theorem sound_next (h : Sound fs s s.phase) (hquiet : Quiet s.phase) :
    Sound fs s (s.next fs json builtins config reply) := by
  rcases hphase : s.phase with - | ⟨locked, previous⟩ | ⟨locked, previous, found⟩ |
    ⟨locked, previous, found, - | ⟨file, rest⟩, ok⟩ | previous | previous | previous |
    ⟨expected, attempt, spent, repairing⟩ | ⟨- | sizes, snapshot, attempts, - | -⟩ |
    ⟨expected, attempts⟩ | ⟨snapshot, attempts, verified⟩ | ⟨state, attempts⟩ |
    (error | outcome) | result | -
  all_goals
    rw [hphase] at h hquiet
    simp only [Site.next, advance, Site.view, hphase]
  · split <;> rw [set_phase_self] <;> exact trivial
  · split
    · rw [set_phase_self]
      exact sound_finished locked fun outcome hresult => by cases hresult
    · rw [set_phase_self]
      exact sound_declined locked previous
    · split
      · rw [set_phase_self]
        exact trivial
      · rw [set_phase_self]
        exact sound_declined locked previous
  · split
    · rw [set_phase_self]
      exact trivial
    · rw [set_phase_self]
      exact sound_declined locked previous
  · split
    · rw [set_phase_self]
      exact sound_finished locked fun outcome hresult => by cases hresult; rfl
    · rw [set_phase_self]
      exact sound_declined locked previous
  · rw [set_phase_self]
    exact trivial
  · rcases reply.busy with - | -
    · exact trivial
    · simp only [if_true, Option.isNone_some, Bool.false_eq_true, if_false]
      split
      · rw [set_phase_self]
        exact trivial
      · exact trivial
  · split <;> rw [set_phase_self] <;> exact trivial
  · cases hquiet
  · cases hquiet
  · rw [set_phase_self]
    exact checked_of_none h
  · rw [set_phase_self]
    exact checked_of_none h
  · cases hquiet
  · split
    · rename_i hmismatches
      rw [set_phase_self]
      exact checked_of_exact h (exact_of_mismatches hmismatches)
    · rw [if_pos trivial, set_phase_self]
      exact trivial
  · rw [set_phase_self]
    exact h
  · rw [set_phase_self]
    exact h
  · cases hquiet
  · rw [set_phase_self]
    exact trivial
  · rw [set_phase_self]
    exact h
  · exact h
  · exact trivial

theorem proceed_quiet (hquiet : Quiet s.phase) :
    s.proceed fs json builtins config reply =
      { s with phase := s.next fs json builtins config reply } := by
  unfold Site.proceed
  split
  · rename_i hphase
    rw [hphase] at hquiet
    cases hquiet
  · rename_i hphase
    rw [hphase] at hquiet
    cases hquiet
  · rename_i hphase
    rw [hphase] at hquiet
    cases hquiet
  · rename_i hphase
    rw [hphase] at hquiet
    cases hquiet
  · rfl

/-- Whoever is done with a marker stays so. -/
theorem unmarked_of_next (h : Unmarked (s.next fs json builtins config reply)) :
    Unmarked s.phase := by
  rcases hphase : s.phase with - | - | - | - | - | - | - | - | - | - | - | - | (error | outcome) |
    (error | outcome) | -
  case leaving.ok | returned.ok =>
    simp only [Site.next, advance, Site.view, hphase] at h
    exact h
  all_goals exact trivial

/-! One lemma for each kind of step: the sizes are asked for, a download attempt ends, the
snapshot is compared for the first time, and the marker is replaced. -/

theorem Steady.quiet (h : Steady fs start s) (hgoing : s.failed = false) (hquiet : Quiet s.phase) :
    Steady fs start (s.proceed fs json builtins config reply) := by
  rw [proceed_quiet hquiet]
  refine ⟨fun hunmarked => h.reads (unmarked_of_next hunmarked),
    fun _ => sound_next (h.sound hgoing) hquiet, fun hfailed => ?_⟩
  rw [hgoing] at hfailed
  cases hfailed

theorem Steady.sizing {previous : Option ModelState} (h : Steady fs start s)
    (hgoing : s.failed = false) (hphase : s.phase = .sizing previous) :
    Steady fs start (s.proceed fs json builtins config reply) := by
  have hread : fs.content s.world = fs.content start := h.reads (by rw [hphase]; exact trivial)
  simp only [Site.proceed, hphase, Site.next, advance, Site.view]
  split
  · exact ⟨fun _ => hread, fun _ => trivial, fun _ => trivial⟩
  · rename_i table hsizes
    simp only [set_phase_self, Reply.answer, hsizes, Option.getD_some]
    exact ⟨fun _ => hread, fun _ => rfl, fun hfailed => Bool.noConfusion (hgoing.symm.trans hfailed)⟩

theorem Steady.fetching {expected : Option (List (String × Int))} {attempt spent : Nat}
    {repairing : Bool} (h : Steady fs start s) (hgoing : s.failed = false)
    (hphase : s.phase = .fetching expected attempt spent repairing)
    (hapart : fs.content reply.world = fs.content s.world) :
    Steady fs start (s.proceed fs json builtins config reply) := by
  have hread : fs.content reply.world = fs.content start :=
    hapart.trans (h.reads (by rw [hphase]; exact trivial))
  have htable : s.table = expected := by
    have hsound := h.sound hgoing
    rw [hphase] at hsound
    exact hsound
  simp only [Site.proceed, hphase, Site.next, advance, Site.view]
  split
  · exact ⟨fun _ => hread, fun _ => htable, fun _ => trivial⟩
  · rename_i outcome hfetched
    refine ⟨fun _ => hread, fun _ => ?_, fun hfailed => Bool.noConfusion (hgoing.symm.trans hfailed)⟩
    simp only [Reply.answer, hfetched]
    rcases outcome with (- | -) | path
    · rw [set_phase_self]
      exact trivial
    · simp only
      split
      · rw [set_phase_self]
        exact trivial
      · rw [set_phase_self]
        exact htable
    · rw [set_phase_self]
      exact htable

theorem Steady.comparing {attempts : Nat} (h : Steady fs start s) (hgoing : s.failed = false)
    (hphase : s.phase = .comparing (some sizes) snapshot attempts false)
    (hapart : Spares fs snapshot (mismatches (fs.disk s.world) snapshot sizes) s.world) :
    Steady fs start (s.proceed fs json builtins config reply) := by
  have hread := hapart.read_discard.trans (h.reads (by rw [hphase]; exact trivial))
  have htable : s.table = some sizes := by
    have hsound := h.sound hgoing
    rw [hphase] at hsound
    exact hsound
  simp only [Site.proceed, hphase, Site.next, advance, Site.view, Bool.false_eq_true, if_false]
  refine ⟨fun _ => hread, fun _ => ?_, fun hfailed => Bool.noConfusion (hgoing.symm.trans hfailed)⟩
  simp only
  split
  · rename_i hmismatches
    rw [set_phase_self, hmismatches]
    exact checked_of_exact htable (exact_of_mismatches hmismatches)
  · rw [set_phase_self]
    exact htable

theorem Steady.marking {state : ModelState} {attempts : Nat} (h : Steady fs start s)
    (hgoing : s.failed = false) (hphase : s.phase = .marking state attempts)
    (hapart : Apart fs json s reply) : Steady fs start (s.proceed fs json builtins config reply) := by
  have hread : fs.content s.world = fs.content start := h.reads (by rw [hphase]; exact trivial)
  have hchecked : Checked fs s state.snapshotPath state.verified := by
    have hsound := h.sound hgoing
    rw [hphase] at hsound
    exact hsound
  rw [Apart, hphase] at hapart
  simp only [Site.proceed, hphase, Site.next, advance, Site.view]
  split
  · rename_i hwritten
    simp only [hwritten, if_true] at hapart
    simp only [set_phase_self]
    refine ⟨fun hunmarked => Bool.noConfusion hunmarked,
      fun _ _ => ⟨fun hverified => ?_, hchecked.2⟩, fun hfailed => Bool.noConfusion (hgoing.symm.trans hfailed)⟩
    obtain ⟨sizes, htable, hexact⟩ := hchecked.1 hverified
    refine ⟨sizes, htable, fun file hfile => ?_⟩
    rw [htable] at hapart
    exact (hapart.2 file hfile).trans (hexact file hfile)
  · rename_i hwritten
    simp only [hwritten, if_false, Bool.false_eq_true] at hapart
    exact ⟨fun _ => hapart.trans hread, fun htrue => Bool.noConfusion htrue, fun _ => trivial⟩

/-- A line that raises ends the call, before the marker is replaced. -/
theorem Steady.interrupted (h : Steady fs start s) (hlogs : logs s.phase = true)
    (hlogged : reply.logged = false) (hapart : Apart fs json s reply) :
    Steady fs start { s with failed := true, world := s.interrupted fs json reply } := by
  have hunmarked : Unmarked s.phase := by
    rcases hphase : s.phase with - | - | - | - | - | - | - | - | - | - | - | - | result | result | -
    case leaving | returned =>
      rw [hphase] at hlogs
      cases hlogs
    all_goals exact trivial
  have hread := h.reads hunmarked
  refine ⟨fun _ => ?_, fun hfalse => Bool.noConfusion hfalse, fun _ => hunmarked⟩
  unfold Apart at hapart
  unfold Site.interrupted
  dsimp only
  split
  · rename_i hphase
    rw [hphase] at hapart
    exact hapart.trans hread
  · rename_i hphase
    rw [hphase] at hapart
    exact (hapart.take reply.reached).read_discard.trans hread
  · rename_i hphase
    rw [hphase] at hapart
    dsimp only at hapart
    split
    · rename_i hwritten
      rw [if_pos hwritten, hlogged] at hapart
      cases hapart.1
    · rename_i hwritten
      rw [if_neg hwritten] at hapart
      exact hapart.trans hread
  · exact hread

theorem Steady.proceed (h : Steady fs start s) (hgoing : s.failed = false)
    (hapart : Apart fs json s reply) :
    Steady fs start (s.proceed fs json builtins config reply) := by
  by_cases hquiet : Quiet s.phase
  · exact h.quiet hgoing hquiet
  have hmeets := hapart
  rw [Apart] at hmeets
  rcases of_not_quiet hquiet with ⟨previous, hphase⟩ |
    ⟨expected, attempt, spent, repairing, hphase⟩ | ⟨sizes, snapshot, attempts, hphase⟩ |
    ⟨state, attempts, hphase⟩
  all_goals rw [hphase] at hmeets
  · exact h.sizing hgoing hphase
  · exact h.fetching hgoing hphase hmeets
  · exact h.comparing hgoing hphase hmeets
  · exact h.marking hgoing hphase hapart

theorem Steady.step (h : Steady fs start s) (hapart : Apart fs json s reply) :
    Steady fs start (s.step fs json builtins config reply) := by
  unfold Site.step
  split
  · exact h
  · rename_i hfailed
    split
    · rename_i hraises
      rw [Bool.and_eq_true, Bool.not_eq_true'] at hraises
      exact h.interrupted hraises.1 hraises.2 hapart
    · exact h.proceed (Bool.not_eq_true _ ▸ hfailed) hapart

namespace Sample

/-- The texts of the files by their absolute paths. -/
abbrev Files := List (String × String)

def markerPath : String := "/ws/state/model-ready.json"

/-- `snapshot / name`: an absolute name replaces the snapshot. -/
def under (snapshot name : String) : String :=
  if name.toList.head? = some '/' then name else snapshot ++ "/" ++ name

def files : FileSystem Files String where
  content world := world.lookup markerPath
  decode := some
  disk world :=
    { isDir := fun path => world.any fun file => (path ++ "/").toList.isPrefixOf file.1.toList
      stat := fun snapshot name =>
        (world.lookup (under snapshot name)).map fun text => text.utf8ByteSize
      walk := fun snapshot => (world.filter fun file =>
        (snapshot ++ "/").toList.isPrefixOf file.1.toList).map fun file =>
          String.ofList (file.1.toList.drop (snapshot.length + 1)) }
  unlink snapshot name world := world.filter fun file => file.1 ≠ under snapshot name
  replace text world := (markerPath, text) :: world.filter fun file => file.1 ≠ markerPath

/-- The source of sizes knows the file `w`, and the download brings it. -/
def brought : Reply Files where
  sizes _ := some (some [("w", 3)])
  fetched := some (.ok "/ws/hub/abc")
  world := [("/ws/hub/abc/w", "abc")]

/-- A marker that is no JSON. -/
def unreadable : Files := [(markerPath, "?")]

/-- The source of sizes lists the marker by its absolute path. The download leaves the volume
    as it is. -/
def listed : Reply Files where
  sizes _ := some (some [(markerPath, 2)])
  fetched := some (.ok "/ws/hub/abc")
  world := unreadable

/-- The second download fails, and leaves the volume as it is. -/
def lost : Reply Files where
  fetched := some (.error .transient)
  world := []

end Sample

end AgenticPlatform.PrepareModel
