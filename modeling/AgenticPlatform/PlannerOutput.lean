import Mathlib.Data.Finset.SDiff
import AgenticPlatform.Execute
import AgenticPlatform.PlanGraph

/-!
# The planner's answer

The schema check repeats the graph check of the plan, on dependency sets that shrink
instead of a set of satisfied keys that grows. Both peel the same graph, so they accept
the same graphs and agree on the layers. The plan asks one thing more, that `str.strip`
leaves something of each title: the schema takes off less.
-/

namespace AgenticPlatform

open Layering

def isAsciiAlphanumeric (c : Char) : Bool :=
  ('a' ≤ c && c ≤ 'z') || ('A' ≤ c && c ≤ 'Z') || ('0' ≤ c && c ≤ '9')

/-- `re.fullmatch(r"[a-zA-Z0-9][a-zA-Z0-9_.-]*", value)`. -/
def isSlug (text : String) : Bool :=
  match text.toList with
  | [] => false
  | first :: rest => isAsciiAlphanumeric first &&
      rest.all fun c => isAsciiAlphanumeric c || c == '_' || c == '.' || c == '-'

/-- White space as the schema takes it off the ends of a text: the separators U+001C to
    U+001F, which `str.strip` takes off, are not part of it. -/
def isUnicodeSpace (c : Char) : Bool := isSpace c && !(28 ≤ c.toNat && c.toNat ≤ 31)

/-- One unit of work; the checks of its fields are the proof fields. -/
structure PlannedTask where
  key : String
  title : String
  description : String
  targetPaths : List String
  dependsOn : List String
  validation : List String
  key_short : key.length ≤ 64
  key_is_slug : isSlug key = true
  title_nonempty : title ≠ ""
  title_trimmed : (title.toList.head?.all fun c => !isUnicodeSpace c) = true ∧
    (title.toList.getLast?.all fun c => !isUnicodeSpace c) = true

/-- What `parse_plan` makes of it. -/
def PlannedTask.draft (task : PlannedTask) : TaskDraft where
  key := task.key
  title := task.title
  description := task.description
  dependsOn := task.dependsOn
  targetPaths := task.targetPaths
  validation := task.validation

namespace PlannerOutput

/-- `{task.key: set(task.depends_on) for task in self.tasks}`, for distinct keys. -/
def dependencies (tasks : List PlannedTask) : List (String × Finset String) :=
  tasks.map fun task => (task.key, task.dependsOn.toFinset)

/-- Keys without open dependencies. -/
def readyKeys (remaining : List (String × Finset String)) : List String :=
  (remaining.filter fun entry => decide (entry.2 = ∅)).map Prod.fst

/-- Drop the keys that are ready, here and from the dependencies of the others. -/
def discharge (remaining : List (String × Finset String)) (ready : List String) :
    List (String × Finset String) :=
  (remaining.filter fun entry => decide (entry.1 ∉ ready)).map fun entry =>
    (entry.1, entry.2 \ ready.toFinset)

/-- The first loop of `_graph_is_usable`. -/
def checkDependencies (known : List String) : List PlannedTask → Except PyError Unit
  | [] => .ok ()
  | task :: rest =>
      if task.key ∈ task.dependsOn then
        .error (.valueError ("task " ++ quoted task.key ++ " depends on itself"))
      else
        let unknown := task.dependsOn.eraseDups.filter fun dep => decide (dep ∉ known)
        if unknown ≠ [] then
          .error (.valueError ("task " ++ quoted task.key ++ " depends on unknown tasks: " ++
            quotedList (sortedTexts unknown)))
        else checkDependencies known rest

/-- The second loop. Each round drops at least one task, so the number of tasks bounds
    the rounds. -/
def checkCycles : Nat → List (String × Finset String) → Except PyError Unit
  | _, [] => .ok ()
  | 0, _ :: _ => .ok ()
  | rounds + 1, entry :: rest =>
      let remaining := entry :: rest
      let ready := readyKeys remaining
      if ready.isEmpty then
        .error (.valueError ("task dependencies contain a cycle: " ++
          quotedList (sortedTexts (remaining.map Prod.fst))))
      else checkCycles rounds (discharge remaining ready)

/-- `_graph_is_usable`. -/
def graphIsUsable (tasks : List PlannedTask) : Except PyError Unit := do
  let keys := tasks.map PlannedTask.key
  let duplicates := keys.eraseDups.filter fun key => decide (1 < keys.count key)
  if duplicates ≠ [] then
    .error (.valueError ("duplicate task keys: " ++ quotedList (sortedTexts duplicates)))
  else
    checkDependencies keys tasks
    checkCycles tasks.length (dependencies tasks)

/-- The loop of `execution_layers`. It has no check for cycles: `none` is a loop that is
    still running after that many rounds. -/
def layersOf : Nat → List (String × Finset String) → Option (List (List String))
  | _, [] => some []
  | 0, _ :: _ => none
  | rounds + 1, entry :: rest =>
      let remaining := entry :: rest
      let ready := readyKeys remaining
      (layersOf rounds (discharge remaining ready)).map (ready :: ·)

/-- `PlannerOutput.execution_layers`. -/
def executionLayers (tasks : List PlannedTask) : Option (List (List String)) :=
  layersOf tasks.length (dependencies tasks)

/-! ### Shrinking sets against a growing one -/

/-- The loop's dictionary, where the tasks in it and the satisfied keys are given. -/
def entries (remaining : List PlannedTask) (satisfied : List String) :
    List (String × Finset String) :=
  remaining.map fun task => (task.key, task.dependsOn.toFinset \ satisfied.toFinset)

variable {tasks remaining : List PlannedTask} {satisfied : List String}
  {layers : List (List PlannedTask)} {rounds : Nat}

theorem dependencies_eq_entries (tasks : List PlannedTask) : dependencies tasks = entries tasks [] := by
  simp [dependencies, entries]

theorem empty_iff_ready (task : PlannedTask) (satisfied : List String) :
    decide (task.dependsOn.toFinset \ satisfied.toFinset = ∅) =
      isReady PlannedTask.dependsOn satisfied task := by
  rw [Bool.eq_iff_iff, decide_eq_true_iff, isReady_iff, Finset.sdiff_eq_empty_iff_subset]
  simp [Finset.subset_iff]

/-- The keys that are ready are those of the tasks that are. -/
theorem readyKeys_entries (remaining : List PlannedTask) (satisfied : List String) :
    readyKeys (entries remaining satisfied) =
    (remaining.filter (isReady PlannedTask.dependsOn satisfied)).map PlannedTask.key := by
  simp only [readyKeys, entries, List.filter_map, List.map_map, Function.comp_def, empty_iff_ready]

/-- A round on the sets is a round of peeling. -/
theorem discharge_entries (hnodup : (remaining.map PlannedTask.key).Nodup) :
    discharge (entries remaining satisfied) (readyKeys (entries remaining satisfied)) =
      entries (remaining.filter fun task => !isReady PlannedTask.dependsOn satisfied task)
        (satisfied ++ (remaining.filter (isReady PlannedTask.dependsOn satisfied)).map
          PlannedTask.key) := by
  rw [readyKeys_entries]
  generalize hready : (remaining.filter (isReady PlannedTask.dependsOn satisfied)).map
    PlannedTask.key = ready
  have hkept : ∀ task ∈ remaining, decide (task.key ∉ ready) =
      !isReady PlannedTask.dependsOn satisfied task := by
    intro task htask
    rw [← hready, Bool.eq_iff_iff, decide_eq_true_iff, Bool.not_eq_true']
    constructor
    · intro hout
      cases htaken : isReady PlannedTask.dependsOn satisfied task with
      | false => rfl
      | true =>
        exact absurd (List.mem_map_of_mem (List.mem_filter.mpr ⟨htask, htaken⟩)) hout
    · intro hwaits hin
      obtain ⟨other, hother, hkey⟩ := List.mem_map.mp hin
      obtain ⟨hmem, htaken⟩ := List.mem_filter.mp hother
      rw [List.inj_on_of_nodup_map hnodup hmem htask hkey, hwaits] at htaken
      cases htaken
  simp only [discharge, entries, List.filter_map, List.map_map, Function.comp_def,
    List.toFinset_append, sdiff_sdiff_left, Finset.sup_eq_union]
  rw [List.filter_congr hkept]

theorem filter_nodup (hnodup : (remaining.map PlannedTask.key).Nodup) (p : PlannedTask → Bool) :
    ((remaining.filter p).map PlannedTask.key).Nodup :=
  hnodup.sublist (List.filter_sublist.map PlannedTask.key)

/-- `execution_layers` returns the keys of the layers. -/
theorem layersOf_entries (h : Peels PlannedTask.key PlannedTask.dependsOn remaining satisfied layers)
    (hnodup : (remaining.map PlannedTask.key).Nodup) (hrounds : layers.length ≤ rounds) :
    layersOf rounds (entries remaining satisfied) =
      some (layers.map (List.map PlannedTask.key)) := by
  induction h generalizing rounds with
  | done satisfied => simp [entries, layersOf]
  | @round remaining satisfied layers hready _ ih =>
    cases rounds with
    | zero => simp at hrounds
    | succ rounds =>
      have hround : layersOf (rounds + 1) (entries remaining satisfied) =
          (layersOf rounds (discharge (entries remaining satisfied)
            (readyKeys (entries remaining satisfied)))).map
              (readyKeys (entries remaining satisfied) :: ·) := by
        cases remaining with
        | nil => simp at hready
        | cons task rest => rfl
      rw [hround, discharge_entries hnodup, ih (filter_nodup hnodup _)
        (Nat.le_of_succ_le_succ hrounds), readyKeys_entries]
      rfl

/-- The second loop accepts what can be peeled. -/
theorem checkCycles_eq_ok (hnodup : (remaining.map PlannedTask.key).Nodup)
    (hrounds : remaining.length ≤ rounds) :
    checkCycles rounds (entries remaining satisfied) = .ok () ↔
      ∃ layers, Peels PlannedTask.key PlannedTask.dependsOn remaining satisfied layers := by
  induction rounds generalizing remaining satisfied with
  | zero =>
    obtain rfl : remaining = [] := List.length_eq_zero_iff.mp (Nat.le_zero.mp hrounds)
    exact ⟨fun _ => ⟨[], .done satisfied⟩, fun _ => rfl⟩
  | succ rounds ih =>
    cases remaining with
    | nil => exact ⟨fun _ => ⟨[], .done satisfied⟩, fun _ => rfl⟩
    | cons task rest =>
      have hkeys := readyKeys_entries (task :: rest) satisfied
      by_cases hempty : (task :: rest).filter (isReady PlannedTask.dependsOn satisfied) = []
      · have hraise : ∃ e, checkCycles (rounds + 1) (entries (task :: rest) satisfied) = .error e :=
          ⟨_, if_pos (by rw [List.isEmpty_iff]; exact hkeys.trans (by rw [hempty]; rfl))⟩
        obtain ⟨e, hraise⟩ := hraise
        rw [hraise]
        constructor
        · intro h
          cases h
        · rintro ⟨layers, h⟩
          cases h with
          | round hready => exact absurd hempty hready
      · have hround : checkCycles (rounds + 1) (entries (task :: rest) satisfied) =
            checkCycles rounds (discharge (entries (task :: rest) satisfied)
              (readyKeys (entries (task :: rest) satisfied))) := by
          refine if_neg ?_
          rw [List.isEmpty_iff]
          exact fun hnone => hempty (List.map_eq_nil_iff.mp (hkeys.symm.trans hnone))
        have hless : ((task :: rest).filter fun task =>
            !isReady PlannedTask.dependsOn satisfied task).length ≤ rounds := by
          have hsplit := (List.filter_append_perm (isReady PlannedTask.dependsOn satisfied)
            (task :: rest)).length_eq
          have hpos := List.length_pos_of_ne_nil hempty
          rw [List.length_append] at hsplit
          omega
        rw [hround, discharge_entries hnodup, ih (filter_nodup hnodup _) hless]
        constructor
        · rintro ⟨layers, h⟩
          exact ⟨_, .round hempty h⟩
        · rintro ⟨layers, h⟩
          cases h with
          | round _ hlater => exact ⟨_, hlater⟩

theorem checkDependencies_eq_ok {known : List String} : checkDependencies known tasks = .ok () ↔
    ∀ task ∈ tasks, task.key ∉ task.dependsOn ∧ ∀ dep ∈ task.dependsOn, dep ∈ known := by
  induction tasks with
  | nil => simp [checkDependencies]
  | cons task rest ih =>
    have hknown : (task.dependsOn.eraseDups.filter fun dep => decide (dep ∉ known)) = [] ↔
        ∀ dep ∈ task.dependsOn, dep ∈ known := by
      simp [List.filter_eq_nil_iff]
    simp only [checkDependencies, List.forall_mem_cons]
    by_cases hself : task.key ∈ task.dependsOn
    · simp [hself]
    · rw [if_neg hself]
      by_cases hall : ∀ dep ∈ task.dependsOn, dep ∈ known
      · rw [if_neg (not_not.mpr (hknown.mpr hall)), ih]
        exact ⟨fun h => ⟨⟨hself, hall⟩, h⟩, fun h => h.2⟩
      · rw [if_pos fun h => hall (hknown.mp h)]
        simp only [reduceCtorEq, false_iff]
        exact fun h => hall h.1.2

/-- What the schema check accepts. -/
theorem graphIsUsable_eq_ok : graphIsUsable tasks = .ok () ↔
    (∀ task ∈ tasks, task.key ∉ task.dependsOn) ∧
      Closed PlannedTask.key PlannedTask.dependsOn tasks ∧
      ∃ layers, Peels PlannedTask.key PlannedTask.dependsOn tasks [] layers := by
  unfold graphIsUsable
  dsimp only
  by_cases hnodup : (tasks.map PlannedTask.key).Nodup
  · rw [if_neg (not_not.mpr (duplicates_eq_nil.mpr hnodup)), bind_eq_ok, dependencies_eq_entries]
    constructor
    · rintro ⟨⟨⟩, hdeps, hcycles⟩
      have hchecked := checkDependencies_eq_ok.mp hdeps
      exact ⟨fun task htask => (hchecked task htask).1,
        ⟨hnodup, fun task htask => (hchecked task htask).2⟩,
        (checkCycles_eq_ok hnodup (Nat.le_refl _)).mp hcycles⟩
    · rintro ⟨hself, hclosed, hpeels⟩
      exact ⟨(), checkDependencies_eq_ok.mpr fun task htask =>
        ⟨hself task htask, hclosed.closed task htask⟩,
        (checkCycles_eq_ok hnodup (Nat.le_refl _)).mpr hpeels⟩
  · rw [if_pos fun h => hnodup (duplicates_eq_nil.mp h)]
    simp only [reduceCtorEq, false_iff]
    rintro ⟨-, hclosed, -⟩
    exact hnodup hclosed.nodup

/-! ### From the answer to the plan -/

theorem slug_nonblank {text : String} (h : isSlug text = true) : isBlank text = false := by
  unfold isSlug at h
  unfold isBlank
  cases hchars : text.toList with
  | nil =>
    rw [hchars] at h
    cases h
  | cons first rest =>
    rw [hchars] at h
    simp only [Bool.and_eq_true] at h
    have hnot : isSpace first = false := by
      have hrange := h.1
      simp only [isAsciiAlphanumeric, Bool.or_eq_true, Bool.and_eq_true, decide_eq_true_eq,
        Char.le_def, UInt32.le_iff_toNat_le] at hrange
      have hn : 48 ≤ first.toNat ∧ first.toNat ≤ 122 := by
        rcases hrange with (⟨hlow, hhigh⟩ | ⟨hlow, hhigh⟩) | ⟨hlow, hhigh⟩ <;>
          exact ⟨Nat.le_trans (by decide) hlow, Nat.le_trans hhigh (by decide)⟩
      unfold isSpace
      simp
      omega
    rw [List.all_cons, hnot, Bool.false_and]

/-- Only a task with a blank title or one that depends on itself is refused one by one. -/
theorem build_eq_ok (id : TaskId) {task : PlannedTask} :
    (∃ built, PlanTask.build id task.draft = .ok built) ↔
      task.key ∉ task.dependsOn ∧ isBlank task.title = false := by
  have hkey : isBlank task.draft.key ≠ true := by simp [PlannedTask.draft, slug_nonblank task.key_is_slug]
  unfold PlanTask.build
  rw [dif_neg hkey]
  by_cases htitle : isBlank task.draft.title = true
  · rw [dif_pos htitle]
    refine ⟨fun ⟨_, h⟩ => (by cases h), fun h => ?_⟩
    have hnot : isBlank task.draft.title = false := h.2
    rw [htitle] at hnot
    cases hnot
  · rw [dif_neg htitle]
    have htext : isBlank task.title = false := Bool.eq_false_iff.mpr htitle
    by_cases hself : task.draft.key ∈ task.draft.dependsOn
    · rw [dif_pos hself]
      exact ⟨fun ⟨_, h⟩ => (by cases h), fun h => absurd hself h.1⟩
    · rw [dif_neg hself]
      exact ⟨fun _ => ⟨hself, htext⟩, fun _ => ⟨_, rfl⟩⟩

theorem build_node {id : TaskId} {draft : TaskDraft} {built : PlanTask}
    (h : PlanTask.build id draft = .ok built) :
    built.key = draft.key ∧ built.dependsOn = draft.dependsOn := by
  unfold PlanTask.build at h
  split at h
  · cases h
  · split at h
    · cases h
    · split at h
      · cases h
      · cases h
        exact ⟨rfl, rfl⟩

/-- The tasks of the plan are built unless one has a blank title or depends on itself. -/
theorem planTasks_eq_ok (o : Orchestrator) (issued : Nat) :
    (∃ built, o.planTasks issued (tasks.map PlannedTask.draft) = .ok built) ↔
      ∀ task ∈ tasks, task.key ∉ task.dependsOn ∧ isBlank task.title = false := by
  induction tasks generalizing issued with
  | nil => exact ⟨fun _ _ h => absurd h List.not_mem_nil, fun _ => ⟨[], rfl⟩⟩
  | cons task rest ih =>
    rw [List.forall_mem_cons, ← build_eq_ok ⟨o.ids.draw issued⟩, ← ih (issued + 1)]
    constructor
    · rintro ⟨built, h⟩
      simp only [List.map_cons, Orchestrator.planTasks, bind_eq_ok] at h
      obtain ⟨first, hfirst, others, hothers, -⟩ := h
      exact ⟨⟨first, hfirst⟩, others, hothers⟩
    · rintro ⟨⟨first, hfirst⟩, others, hothers⟩
      exact ⟨first :: others, by
        simp [Orchestrator.planTasks, hfirst, hothers]⟩

/-- They span the same graph. -/
theorem planTasks_nodes {o : Orchestrator} {issued : Nat} {built : List PlanTask}
    (h : o.planTasks issued (tasks.map PlannedTask.draft) = .ok built) :
    tasks.map (node PlannedTask.key PlannedTask.dependsOn) =
      built.map (node PlanTask.key PlanTask.dependsOn) := by
  induction tasks generalizing issued built with
  | nil =>
    cases h
    rfl
  | cons task rest ih =>
    simp only [List.map_cons, Orchestrator.planTasks, bind_eq_ok, pure_eq_ok] at h
    obtain ⟨first, hfirst, others, hothers, hbuilt⟩ := h
    cases hbuilt
    obtain ⟨hkey, hdeps⟩ := build_node hfirst
    rw [List.map_cons, List.map_cons, ih hothers, node, node, hkey, hdeps]
    rfl

/-- No task depends on itself, keys are distinct, dependencies are keys, and there is no
    cycle. -/
structure UsableGraph (tasks : List PlannedTask) : Prop where
  no_loop : ∀ task ∈ tasks, task.key ∉ task.dependsOn
  closed : Closed PlannedTask.key PlannedTask.dependsOn tasks
  acyclic : Acyclic (Needs PlannedTask.key PlannedTask.dependsOn tasks)

theorem graphIsUsable_iff : graphIsUsable tasks = .ok () ↔ UsableGraph tasks := by
  rw [graphIsUsable_eq_ok]
  constructor
  · rintro ⟨hself, hclosed, hpeels⟩
    exact ⟨hself, hclosed, (peels_iff_acyclic hclosed).mp hpeels⟩
  · intro h
    exact ⟨h.no_loop, h.closed, (peels_iff_acyclic h.closed).mpr h.acyclic⟩

section Planned

variable {o : Orchestrator} {now : Instant} {issued : Nat} {run : Run} {outcome : PlanOutcome}
  {plan : Plan}

theorem planFromDraft_of_built {built : List PlanTask}
    (hbuilt : o.planTasks (issued + 1) outcome.draft.tasks = .ok built) :
    o.planFromDraft now issued run outcome = Plan.create ⟨o.ids.draw issued⟩ run.id
      run.planRevisions (if outcome.draft.objective = "" then run.objective
        else outcome.draft.objective) built now outcome.draft outcome.promptVersion := by
  simp [Orchestrator.planFromDraft, hbuilt]

theorem built_of_planned (hdraft : outcome.draft.tasks = tasks.map PlannedTask.draft)
    (h : o.planFromDraft now issued run outcome = .ok plan) :
    ∃ built, o.planTasks (issued + 1) (tasks.map PlannedTask.draft) = .ok built := by
  simp only [Orchestrator.planFromDraft, bind_eq_ok] at h
  obtain ⟨built, hbuilt, -⟩ := h
  exact ⟨built, hdraft ▸ hbuilt⟩

/-- Where no title is blank, a usable graph becomes a plan. -/
theorem planned_of_usable (hrevision : 1 ≤ run.planRevisions) (htasks : tasks ≠ [])
    (hdraft : outcome.draft.tasks = tasks.map PlannedTask.draft)
    (htitles : ∀ task ∈ tasks, isBlank task.title = false) (h : UsableGraph tasks) :
    ∃ plan, o.planFromDraft now issued run outcome = .ok plan := by
  obtain ⟨layers, hpeels⟩ := (peels_iff_acyclic h.closed).mpr h.acyclic
  obtain ⟨built, hbuilt⟩ := (planTasks_eq_ok o (issued + 1)).mpr fun task htask =>
    ⟨h.no_loop task htask, htitles task htask⟩
  have hnodes := planTasks_nodes hbuilt
  obtain ⟨layers', hpeels', -⟩ := hpeels.transport hnodes
  have hclosed' := h.closed.transport hnodes
  rw [planFromDraft_of_built (hdraft ▸ hbuilt), Plan.create_eq_ok hrevision, validateGraph_eq_ok]
  refine ⟨?_, hclosed', hpeels'.acyclic hclosed'⟩
  rintro rfl
  exact htasks (List.map_eq_nil_iff.mp hnodes)

/-- A plan is made of tasks with titles, and of a usable graph. -/
theorem usable_of_planned (hrevision : 1 ≤ run.planRevisions)
    (hdraft : outcome.draft.tasks = tasks.map PlannedTask.draft)
    (h : o.planFromDraft now issued run outcome = .ok plan) :
    (∀ task ∈ tasks, isBlank task.title = false) ∧ UsableGraph tasks := by
  obtain ⟨built, hbuilt⟩ := built_of_planned hdraft h
  have hnodes := planTasks_nodes hbuilt
  rw [planFromDraft_of_built (hdraft ▸ hbuilt)] at h
  obtain ⟨-, hgraph⟩ := (Plan.create_eq_ok hrevision).mp ⟨plan, h⟩
  obtain ⟨hclosed, hacyclic⟩ := validateGraph_eq_ok.mp hgraph
  obtain ⟨layers, hpeels⟩ := (peels_iff_acyclic hclosed).mpr hacyclic
  obtain ⟨layers', hpeels', -⟩ := hpeels.transport hnodes.symm
  have hclosed' := hclosed.transport hnodes.symm
  have htasks := (planTasks_eq_ok o (issued + 1)).mp ⟨built, hbuilt⟩
  exact ⟨fun task htask => (htasks task htask).2,
    ⟨fun task htask => (htasks task htask).1, hclosed', hpeels'.acyclic hclosed'⟩⟩

/-- The layers of a plan are those of the answer. -/
theorem layers_of_planned (hdraft : outcome.draft.tasks = tasks.map PlannedTask.draft)
    (h : o.planFromDraft now issued run outcome = .ok plan) :
    ∃ layers, plan.executionLayers = .ok layers ∧
      executionLayers tasks = some (layers.map (List.map PlanTask.key)) := by
  obtain ⟨built, hbuilt⟩ := built_of_planned hdraft h
  have hnodes := planTasks_nodes hbuilt
  rw [planFromDraft_of_built (hdraft ▸ hbuilt)] at h
  obtain ⟨layers, hlayers, hpeels⟩ := plan.executionLayers_peels
  have hclosed := plan.closed
  rw [Plan.create_tasks h] at hpeels hclosed
  obtain ⟨layers', hpeels', hkeys⟩ := hpeels.transport hnodes.symm
  refine ⟨layers, hlayers, ?_⟩
  have hnodup := (hclosed.transport hnodes.symm).nodup
  unfold executionLayers
  rw [dependencies_eq_entries, layersOf_entries hpeels' hnodup hpeels'.length_le, hkeys]

end Planned

/-- The schema accepts the tasks if and only if they become a plan, and then the layers are
    the same. -/
def AgreesWithPlan (o : Orchestrator) (now : Instant) (issued : Nat) (run : Run)
    (outcome : PlanOutcome) (tasks : List PlannedTask) : Prop :=
  (graphIsUsable tasks = .ok () ↔ ∃ plan, o.planFromDraft now issued run outcome = .ok plan) ∧
  ∀ plan, o.planFromDraft now issued run outcome = .ok plan →
    ∃ layers, plan.executionLayers = .ok layers ∧
      executionLayers tasks = some (layers.map (List.map PlanTask.key))

/-- **The two graph checks agree** unless a title of a usable graph is blank for `str.strip`. -/
theorem usable_iff_planned (o : Orchestrator) (now : Instant) (issued : Nat) (run : Run)
    (hrevision : 1 ≤ run.planRevisions) (outcome : PlanOutcome) (tasks : List PlannedTask)
    (htasks : tasks ≠ []) (hdraft : outcome.draft.tasks = tasks.map PlannedTask.draft) :
    AgreesWithPlan o now issued run outcome tasks ↔
      (∀ task ∈ tasks, isBlank task.title = false) ∨ ¬ UsableGraph tasks := by
  have hlayers : ∀ plan, o.planFromDraft now issued run outcome = .ok plan →
      ∃ layers, plan.executionLayers = .ok layers ∧
        executionLayers tasks = some (layers.map (List.map PlanTask.key)) :=
    fun plan h => layers_of_planned hdraft h
  unfold AgreesWithPlan
  rw [graphIsUsable_iff]
  constructor
  · rintro ⟨hiff, -⟩
    by_cases husable : UsableGraph tasks
    · obtain ⟨plan, hplan⟩ := hiff.mp husable
      exact .inl (usable_of_planned hrevision hdraft hplan).1
    · exact .inr husable
  · intro hcondition
    refine ⟨⟨fun husable => ?_, fun ⟨plan, hplan⟩ => (usable_of_planned hrevision hdraft hplan).2⟩,
      hlayers⟩
    exact planned_of_usable hrevision htasks hdraft (hcondition.resolve_right (not_not.mpr husable)) husable

end PlannerOutput

namespace Sample

theorem no_edge_space : ("Use it".toList.head?.all fun c => !isUnicodeSpace c) = true ∧
    ("Use it".toList.getLast?.all fun c => !isUnicodeSpace c) = true := by decide

theorem separator_kept : ("\x1c".toList.head?.all fun c => !isUnicodeSpace c) = true ∧
    ("\x1c".toList.getLast?.all fun c => !isUnicodeSpace c) = true := by decide

theorem use_it_nonempty : "Use it" ≠ "" := by decide

theorem separator_nonempty : "\x1c" ≠ "" := by decide

theorem ship_it_nonblank : isBlank "Ship it" = false := by decide

theorem key_b_short : "b".length ≤ 64 := by decide

/-- Two tasks, the first of which needs the second. -/
def plannedTasks : List PlannedTask :=
  [⟨"b", "Use it", "", [], ["a", "a"], [], key_b_short, rfl, use_it_nonempty, no_edge_space⟩,
   ⟨"a", "Use it", "", [], [], [], key_b_short, rfl, use_it_nonempty, no_edge_space⟩]

/-- A task whose title is one file separator. -/
def separatorTasks : List PlannedTask :=
  [⟨"a", "\x1c", "", [], [], [], key_b_short, rfl, separator_nonempty, separator_kept⟩]

def plannedRun : Run :=
  { Run.create ⟨1⟩ ⟨2⟩ "Ship it" 0 2 {} none [] ship_it_nonblank count_two two_within with
    planRevisions := 1 }

def plannedOutcome (tasks : List PlannedTask) : PlanOutcome :=
  ⟨⟨"Ship it", tasks.map PlannedTask.draft, [], [], [], []⟩, {}, "v1", 0, ⟨5⟩⟩

end Sample

namespace PlannerOutput

/-- An answer of two tasks, one needing the other, becomes a plan. -/
theorem usable_iff_planned_sample : AgreesWithPlan ⟨{}, {}, ⟨id, fun _ _ h => h⟩⟩ 0 0
    Sample.plannedRun (Sample.plannedOutcome Sample.plannedTasks) Sample.plannedTasks :=
  (usable_iff_planned _ 0 0 Sample.plannedRun (Nat.le_refl 1)
    (Sample.plannedOutcome Sample.plannedTasks) Sample.plannedTasks (List.cons_ne_nil _ _) rfl).mpr
    (.inl (by decide))

/-- The schema takes the separator for a title, and the plan is refused. -/
theorem separator_title_refused : ¬ AgreesWithPlan ⟨{}, {}, ⟨id, fun _ _ h => h⟩⟩ 0 0
    Sample.plannedRun (Sample.plannedOutcome Sample.separatorTasks) Sample.separatorTasks := by
  rintro ⟨hiff, -⟩
  obtain ⟨plan, hplan⟩ := hiff.mp (by decide)
  have htitle := (usable_of_planned (Nat.le_refl 1) rfl hplan).1 _ List.mem_cons_self
  exact absurd htitle (by decide)

end PlannerOutput

end AgenticPlatform
