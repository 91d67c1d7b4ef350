import AgenticPlatform.Documents
import AgenticPlatform.Layering

/-!
# The dependency graph of a plan

`execution_layers` peels the graph of the tasks, so a plan can be built from exactly the
closed acyclic graphs, and a task is in the layer its longest chain of dependencies asks
for.
-/

namespace AgenticPlatform

open Layering

/-- `Plan.execution_layers`. -/
def Plan.executionLayers (plan : Plan) : Except PyError (List (List PlanTask)) :=
  AgenticPlatform.executionLayers plan.tasks.length plan.tasks []

variable {tasks remaining : List PlanTask} {satisfied : List String}
  {layers : List (List PlanTask)} {rounds : Nat}

/-- Without tasks there are no layers. -/
theorem executionLayers_nil : executionLayers rounds [] satisfied = .ok layers ↔
    Peels PlanTask.key PlanTask.dependsOn [] satisfied layers := by
  have hempty : executionLayers rounds [] satisfied = .ok [] := by
    cases rounds <;> rfl
  rw [hempty]
  constructor
  · intro h
    cases h
    exact .done satisfied
  · intro h
    cases h with
    | done => rfl
    | round hready => simp at hready

/-- The loop returns what peeling yields; as many rounds as tasks are enough. -/
theorem executionLayers_eq_ok (hrounds : remaining.length ≤ rounds) :
    executionLayers rounds remaining satisfied = .ok layers ↔
      Peels PlanTask.key PlanTask.dependsOn remaining satisfied layers := by
  induction rounds generalizing remaining satisfied layers with
  | zero =>
    obtain rfl : remaining = [] := List.length_eq_zero_iff.mp (Nat.le_zero.mp hrounds)
    exact executionLayers_nil
  | succ rounds ih =>
    cases remaining with
    | nil => exact executionLayers_nil
    | cons task rest =>
      by_cases hempty : (task :: rest).filter (isReady PlanTask.dependsOn satisfied) = []
      · have hraise : ∃ e, executionLayers (rounds + 1) (task :: rest) satisfied = .error e :=
          ⟨_, if_pos (by rw [List.isEmpty_iff]; exact hempty)⟩
        obtain ⟨e, hraise⟩ := hraise
        rw [hraise]
        constructor
        · intro h
          cases h
        · intro h
          cases h with
          | round hready => exact absurd hempty hready
      · have hround : executionLayers (rounds + 1) (task :: rest) satisfied =
            (executionLayers rounds
              ((task :: rest).filter fun task => !isReady PlanTask.dependsOn satisfied task)
              (satisfied ++ ((task :: rest).filter (isReady PlanTask.dependsOn satisfied)).map
                PlanTask.key)).map
              ((task :: rest).filter (isReady PlanTask.dependsOn satisfied) :: ·) :=
          if_neg (by rw [List.isEmpty_iff]; exact hempty)
        have hless : ((task :: rest).filter fun task =>
            !isReady PlanTask.dependsOn satisfied task).length ≤ rounds := by
          have hsplit := (List.filter_append_perm (isReady PlanTask.dependsOn satisfied)
            (task :: rest)).length_eq
          have hpos := List.length_pos_of_ne_nil hempty
          rw [List.length_append] at hsplit
          omega
        rw [hround]
        constructor
        · intro h
          cases hlater : executionLayers rounds
              ((task :: rest).filter fun task => !isReady PlanTask.dependsOn satisfied task)
              (satisfied ++ ((task :: rest).filter (isReady PlanTask.dependsOn satisfied)).map
                PlanTask.key) with
          | error e =>
            rw [hlater] at h
            cases h
          | ok later =>
            rw [hlater] at h
            cases h
            exact .round hempty ((ih hless).mp hlater)
        · intro h
          cases h with
          | round _ hlater =>
            rw [(ih hless).mpr hlater]
            rfl

/-- No key occurs twice. -/
theorem duplicates_eq_nil {keys : List String} :
    (keys.eraseDups.filter fun key => decide (1 < keys.count key)) = [] ↔ keys.Nodup := by
  rw [List.filter_eq_nil_iff, List.nodup_iff_count_le_one]
  constructor
  · intro h key
    by_cases hkey : key ∈ keys
    · simpa using h key (List.mem_eraseDups.mpr hkey)
    · rw [List.count_eq_zero_of_not_mem hkey]
      exact Nat.zero_le 1
  · intro h key _
    simpa using h key

/-- What `_validate_graph` accepts. -/
theorem validateGraph_eq_ok : validateGraph tasks = .ok () ↔
    Closed PlanTask.key PlanTask.dependsOn tasks ∧
      Acyclic (Needs PlanTask.key PlanTask.dependsOn tasks) := by
  have hknown : (tasks.find? fun task => task.dependsOn.any fun dep =>
      decide (dep ∉ tasks.map PlanTask.key)) = none ↔
      ∀ task ∈ tasks, ∀ dep ∈ task.dependsOn, dep ∈ tasks.map PlanTask.key := by
    rw [List.find?_eq_none]
    simp
  unfold validateGraph
  dsimp only
  by_cases hnodup : (tasks.map PlanTask.key).Nodup
  · rw [if_neg (not_not.mpr (duplicates_eq_nil.mpr hnodup))]
    cases hfind : tasks.find? fun task => task.dependsOn.any fun dep =>
        decide (dep ∉ tasks.map PlanTask.key) with
    | some task =>
      simp only [reduceCtorEq, false_iff]
      rintro ⟨hclosed, -⟩
      have := hknown.mpr hclosed.closed
      rw [hfind] at this
      cases this
    | none =>
      have hclosed : Closed PlanTask.key PlanTask.dependsOn tasks := ⟨hnodup, hknown.mp hfind⟩
      have hpeels : (executionLayers tasks.length tasks []).map (fun _ => ()) = .ok () ↔
          ∃ layers, Peels PlanTask.key PlanTask.dependsOn tasks [] layers := by
        cases hlayers : executionLayers tasks.length tasks [] with
        | error e =>
          simp only [Except.map, reduceCtorEq, false_iff]
          rintro ⟨layers, hpeels⟩
          rw [(executionLayers_eq_ok (Nat.le_refl _)).mpr hpeels] at hlayers
          cases hlayers
        | ok layers =>
          exact ⟨fun _ => ⟨layers, (executionLayers_eq_ok (Nat.le_refl _)).mp hlayers⟩, fun _ => rfl⟩
      exact hpeels.trans ((peels_iff_acyclic hclosed).trans
        ⟨fun h => ⟨hclosed, h⟩, fun h => h.2⟩)
  · rw [if_pos fun h => hnodup (duplicates_eq_nil.mp h)]
    simp only [reduceCtorEq, false_iff]
    rintro ⟨hclosed, -⟩
    exact hnodup hclosed.nodup

namespace Plan

/-- Which plans can be built. -/
theorem create_eq_ok {planId : PlanId} {runId : RunId} {revision : Nat} {objective : String}
    {now : Instant} {draft : PlanDraft} {promptVersion : String} (hrevision : 1 ≤ revision) :
    (∃ plan, create planId runId revision objective tasks now draft promptVersion = .ok plan) ↔
      tasks ≠ [] ∧ validateGraph tasks = .ok () := by
  unfold create
  rw [dif_pos hrevision]
  by_cases htasks : tasks = []
  · simp [htasks]
  · rw [dif_neg htasks]
    split
    · rename_i e hgraph
      simp [hgraph]
    · rename_i hgraph
      exact ⟨fun _ => ⟨htasks, hgraph⟩, fun _ => ⟨_, rfl⟩⟩

theorem create_tasks {planId : PlanId} {runId : RunId} {revision : Nat} {objective : String}
    {now : Instant} {draft : PlanDraft} {promptVersion : String} {plan : Plan}
    (h : create planId runId revision objective tasks now draft promptVersion = .ok plan) :
    plan.tasks = tasks := by
  unfold create at h
  split at h
  · split at h
    · cases h
    · split at h
      · cases h
      · cases h
        rfl
  · cases h

theorem closed (plan : Plan) : Closed PlanTask.key PlanTask.dependsOn plan.tasks :=
  (validateGraph_eq_ok.mp plan.graph_valid).1

/-- The layers of a plan. -/
theorem executionLayers_peels (plan : Plan) : ∃ layers, plan.executionLayers = .ok layers ∧
    Peels PlanTask.key PlanTask.dependsOn plan.tasks [] layers := by
  obtain ⟨hclosed, hacyclic⟩ := validateGraph_eq_ok.mp plan.graph_valid
  obtain ⟨layers, hpeels⟩ := (peels_iff_acyclic hclosed).mpr hacyclic
  exact ⟨layers, (executionLayers_eq_ok (Nat.le_refl _)).mpr hpeels, hpeels⟩

/-- **Which plans are accepted, and how they are layered.** -/
theorem create_layered (planId : PlanId) (runId : RunId) {revision : Nat} (hrevision : 1 ≤ revision)
    (objective : String) (tasks : List PlanTask) (now : Instant) (draft : PlanDraft)
    (promptVersion : String) :
    ((∃ plan, create planId runId revision objective tasks now draft promptVersion = .ok plan) ↔
      tasks ≠ [] ∧ (tasks.map PlanTask.key).Nodup ∧
        (∀ task ∈ tasks, ∀ dep ∈ task.dependsOn, ∃ other ∈ tasks, other.key = dep) ∧
        Acyclic (Needs PlanTask.key PlanTask.dependsOn tasks)) ∧
    ∀ plan, create planId runId revision objective tasks now draft promptVersion = .ok plan →
      ∃ layers, plan.executionLayers = .ok layers ∧ layers.flatten.Perm tasks ∧
        (∀ layer ∈ layers, layer ≠ []) ∧
        ∀ i layer task, layers[i]? = some layer → task ∈ layer →
          IsGreatest {n | Chain (Needs PlanTask.key PlanTask.dependsOn tasks) n task.key} i ∧
            ∀ dep ∈ task.dependsOn, ∃ j < i, ∃ earlier other, layers[j]? = some earlier ∧
              other ∈ earlier ∧ other.key = dep := by
  constructor
  · rw [create_eq_ok hrevision, validateGraph_eq_ok]
    constructor
    · rintro ⟨htasks, ⟨hnodup, hclosed⟩, hacyclic⟩
      refine ⟨htasks, hnodup, fun task htask dep hdep => ?_, hacyclic⟩
      exact List.mem_map.mp (hclosed task htask dep hdep)
    · rintro ⟨htasks, hnodup, hknown, hacyclic⟩
      refine ⟨htasks, ⟨hnodup, fun task htask dep hdep => ?_⟩, hacyclic⟩
      exact List.mem_map.mpr (hknown task htask dep hdep)
  · intro plan hplan
    obtain ⟨layers, hlayers, hpeels⟩ := plan.executionLayers_peels
    have hclosed := plan.closed
    rw [create_tasks hplan] at hpeels hclosed
    refine ⟨layers, hlayers, hpeels.perm, hpeels.nonempty, fun i layer task hi htask => ?_⟩
    have hgreatest := hpeels.layer_greatest hclosed (.start tasks) hi htask
    rw [Nat.zero_add] at hgreatest
    exact ⟨hgreatest, fun dep hdep => hpeels.dependency_earlier hclosed hi htask hdep⟩

/-- Two tasks, of which the first named needs the other. -/
theorem create_layered_sample :
    let tasks : List PlanTask := [⟨⟨1⟩, "b", "Use it", "", [], ["a", "a"], [], rfl, rfl, by decide⟩,
      ⟨⟨2⟩, "a", "Build it", "", [], [], [], rfl, rfl, by decide⟩]
    Acyclic (Needs PlanTask.key PlanTask.dependsOn tasks) :=
  ((create_layered ⟨3⟩ ⟨4⟩ (Nat.le_refl 1) "Ship it" _ 0 ⟨"Ship it", [], [], [], [], []⟩ "v1").1.mp
    ((create_eq_ok (Nat.le_refl 1)).mpr ⟨by simp, rfl⟩)).2.2.2

end Plan

end AgenticPlatform
