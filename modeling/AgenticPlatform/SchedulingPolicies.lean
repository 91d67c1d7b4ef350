import AgenticPlatform.NumberText
import AgenticPlatform.Ranking
import AgenticPlatform.Worker
import Mathlib.Data.List.Lex
import Mathlib.Data.Prod.Lex

/-!
# Which worker a policy chooses

The default policy ranks by a key of four parts. The first is a quotient in floating point,
so two workers whose loads differ by less than the rounding count as equally loaded, and the
tie is broken by their slots, contexts and ids. The policy that takes turns reduces its
cursor by whatever the number of eligible workers is at that call, and from any cursor it
gives each of them the same number of jobs.
-/

namespace AgenticPlatform

open Ranking OrderDual

namespace WorkerScheduler

/-- Different workers, each under a UUID. -/
structure Identified (ids : List WorkerId) : Prop where
  distinct : ids.Nodup
  uuids : ∀ id ∈ ids, IsUuid id.value

theorem Identified.chars_inj {ids : List WorkerId} (h : Identified ids) :
    Set.InjOn EntityId.chars {id | id ∈ ids} := by
  intro left hleft right hright heq
  exact EntityId.chars_inj (h.uuids left hleft) (h.uuids right hright) heq

/-! ### The keys -/

/-- The share of its slots that is taken. -/
def load (worker : Worker) : ℚ := worker.load.activeJobs / worker.capabilities.maxConcurrency

/-- What decides between workers of one load: more free slots, then the longer context, then
    the id. -/
def tieKey (worker : Worker) : ℕᵒᵈ ×ₗ ℕᵒᵈ ×ₗ List Char :=
  toLex (toDual worker.availableSlots,
    toLex (toDual worker.capabilities.contextLength, worker.id.chars))

/-- The key with the load as it is. -/
def headroomKey (worker : Worker) : ℚ ×ₗ ℕᵒᵈ ×ₗ ℕᵒᵈ ×ₗ List Char :=
  toLex (load worker, tieKey worker)

/-- The key with the load as it is computed. -/
def rankKey (worker : Worker) : ℚ ×ₗ ℕᵒᵈ ×ₗ ℕᵒᵈ ×ₗ List Char :=
  toLex (dyadic (utilization worker), tieKey worker)

theorem doubleLt_iff (left right : Nat × Int) :
    doubleLt left right = true ↔ dyadic left < dyadic right := by
  have hscale : ∀ number : Nat × Int, min left.2 right.2 ≤ number.2 → dyadic number =
      (number.1 * 2 ^ (number.2 - min left.2 right.2).toNat : Nat) * 2 ^ min left.2 right.2 := by
    intro number hle
    have hexp : (((number.2 - min left.2 right.2).toNat : Nat) : Int) + min left.2 right.2 =
        number.2 := by omega
    unfold dyadic
    push_cast
    rw [mul_assoc, ← zpow_natCast, ← zpow_add₀ (by norm_num), hexp]
  have hpos : (0 : ℚ) < 2 ^ min left.2 right.2 := zpow_pos (by norm_num) _
  rw [hscale left (min_le_left ..), hscale right (min_le_right ..),
    mul_lt_mul_iff_of_pos_right hpos, Nat.cast_lt]
  unfold doubleLt
  rw [decide_eq_true_eq]

/-- The comparison of the source compares the keys. -/
theorem rankLt_iff (left right : Worker) :
    rankLt left right = true ↔ rankKey left < rankKey right := by
  have hleft := doubleLt_iff (utilization left) (utilization right)
  have hright := doubleLt_iff (utilization right) (utilization left)
  unfold rankKey tieKey
  rw [Prod.Lex.toLex_lt_toLex, Prod.Lex.toLex_lt_toLex, Prod.Lex.toLex_lt_toLex, toDual_lt_toDual,
    toDual_lt_toDual, toDual_inj, toDual_inj]
  unfold rankLt
  rcases lt_trichotomy (dyadic (utilization left)) (dyadic (utilization right)) with
    hlt | heq | hgt
  · rw [if_pos (hleft.mpr hlt)]
    exact iff_of_true rfl (Or.inl hlt)
  · rw [if_neg (fun h => (hleft.mp h).ne heq), if_neg (fun h => (hright.mp h).ne heq.symm)]
    by_cases hslots : left.availableSlots = right.availableSlots
    · by_cases hcontext : left.capabilities.contextLength = right.capabilities.contextLength
      · simp [heq, hslots, hcontext]
      · simp [heq, hslots, hcontext]
    · simp [heq, hslots]
  · rw [if_neg (fun h => (hleft.mp h).asymm hgt), if_pos (hright.mpr hgt)]
    simp [hgt.ne', hgt.not_gt]

theorem sortedBy_rankLt (workers : List Worker) : sortedBy rankLt workers = ranked rankKey workers := by
  apply insertionSort_eq_ranked
  intro left right
  rw [← not_lt, ← rankLt_iff, Bool.not_eq_true]

/-! ### The default policy -/

section LeastLoaded

variable {workers : List Worker} {requirements : JobRequirements}

/-- What the default policy picks. -/
def choice (workers : List Worker) (requirements : JobRequirements) : Option Worker :=
  (leastLoaded.select () workers requirements).2

/-- The pick is the eligible worker with the most headroom, however the pool is listed. -/
structure LeastChosen (workers : List Worker) (requirements : JobRequirements) : Prop where
  none_iff : choice workers requirements = none ↔
    ∀ worker ∈ workers, worker.canAccept requirements = false
  least : ∀ chosen, choice workers requirements = some chosen →
    chosen ∈ workers ∧ chosen.canAccept requirements = true ∧
      ∀ other ∈ workers, other.canAccept requirements = true →
        headroomKey chosen ≤ headroomKey other
  any_order : ∀ shuffled : List Worker, shuffled.Perm workers →
    choice shuffled requirements = choice workers requirements

/-- No worker that is more loaded than the one with the most headroom, but by less than the
    rounding shows, precedes it in slots, context and id. -/
def LoadsTold (workers : List Worker) (requirements : JobRequirements) : Prop :=
  ∀ least ∈ eligibleWorkers workers requirements,
    (∀ other ∈ eligibleWorkers workers requirements, headroomKey least ≤ headroomKey other) →
    ∀ other ∈ eligibleWorkers workers requirements, load least < load other →
      dyadic (utilization other) = dyadic (utilization least) → tieKey least ≤ tieKey other

theorem choice_eq : choice workers requirements =
    (ranked rankKey (eligibleWorkers workers requirements)).head? := by
  unfold choice leastLoaded
  dsimp only
  rw [sortedBy_rankLt]

/-- Different workers differ in what breaks ties. -/
theorem tieKey_injOn (h : Identified (workers.map (·.id))) :
    Set.InjOn tieKey {worker | worker ∈ workers} := by
  intro left hleft right hright heq
  have hchars : left.id.chars = right.id.chars :=
    congrArg (fun key => (ofLex (ofLex key).2).2) heq
  have hid : left.id = right.id :=
    h.chars_inj (List.mem_map_of_mem hleft) (List.mem_map_of_mem hright) hchars
  exact List.inj_on_of_nodup_map h.distinct hleft hright hid

/-- Different workers have different keys, whichever way the load is computed. -/
theorem key_injOn (h : Identified (workers.map (·.id))) (first : Worker → ℚ) :
    Set.InjOn (fun worker => toLex (first worker, tieKey worker))
      {worker | worker ∈ eligibleWorkers workers requirements} := by
  intro left hleft right hright heq
  have htie : tieKey left = tieKey right := congrArg (fun key => (ofLex key).2) heq
  exact tieKey_injOn h (mem_eligibleWorkers.mp hleft).1 (mem_eligibleWorkers.mp hright).1 htie

/-- The rounded quotients do not turn two loads round. -/
theorem dyadic_utilization_mono {left right : Worker} (h : load left ≤ load right) :
    dyadic (utilization left) ≤ dyadic (utilization right) :=
  trueDivide_mono left.capabilities.concurrency_pos right.capabilities.concurrency_pos h

theorem choice_eq_none : choice workers requirements = none ↔
    ∀ worker ∈ workers, worker.canAccept requirements = false := by
  rw [choice_eq, ranked_head_none, eligibleWorkers, List.filter_eq_nil_iff]
  simp

theorem choice_of_perm (h : Identified (workers.map (·.id))) {shuffled : List Worker}
    (hperm : shuffled.Perm workers) :
    choice shuffled requirements = choice workers requirements := by
  have heligible : (eligibleWorkers shuffled requirements).Perm
      (eligibleWorkers workers requirements) := hperm.filter _
  have hinj : Set.InjOn rankKey {worker | worker ∈ eligibleWorkers workers requirements} :=
    key_injOn h fun worker => dyadic (utilization worker)
  rw [choice_eq, choice_eq, ranked_of_perm hinj heligible]

/-- Some eligible worker has the most headroom. -/
theorem exists_least (h : ∃ worker, worker ∈ eligibleWorkers workers requirements) :
    ∃ least ∈ eligibleWorkers workers requirements,
      ∀ other ∈ eligibleWorkers workers requirements, headroomKey least ≤ headroomKey other := by
  obtain ⟨worker, hworker⟩ := h
  rcases hhead : (ranked headroomKey (eligibleWorkers workers requirements)).head? with - | least
  · rw [ranked_head_none.mp hhead] at hworker
    exact absurd hworker List.not_mem_nil
  · exact ⟨least, ranked_head_le hhead⟩

/-- Where the loads are told apart, the pick has the most headroom. -/
theorem LoadsTold.least (htold : LoadsTold workers requirements)
    (h : Identified (workers.map (·.id))) {chosen : Worker}
    (hchosen : choice workers requirements = some chosen) :
    ∀ other ∈ eligibleWorkers workers requirements, headroomKey chosen ≤ headroomKey other := by
  rw [choice_eq] at hchosen
  obtain ⟨hmem, hrank⟩ := ranked_head_le hchosen
  obtain ⟨least, hleast, hheadroom⟩ := exists_least ⟨chosen, hmem⟩
  have htie : tieKey chosen ≤ tieKey least ∧ tieKey least ≤ tieKey chosen := by
    rcases Prod.Lex.toLex_le_toLex.mp (hheadroom chosen hmem) with hless | ⟨hsame, htie⟩
    · have hmono := dyadic_utilization_mono hless.le
      rcases Prod.Lex.toLex_le_toLex.mp (hrank least hleast) with hfar | ⟨hnear, hfirst⟩
      · exact absurd hfar (not_lt.mpr hmono)
      · exact ⟨hfirst, htold least hleast hheadroom chosen hmem hless hnear⟩
    · have hmono := dyadic_utilization_mono hsame.le
      rcases Prod.Lex.toLex_le_toLex.mp (hrank least hleast) with hfar | ⟨-, hfirst⟩
      · exact absurd hfar (not_lt.mpr hmono)
      · exact ⟨hfirst, htie⟩
  have hsame : chosen = least :=
    tieKey_injOn h (mem_eligibleWorkers.mp hmem).1 (mem_eligibleWorkers.mp hleast).1
      (le_antisymm htie.1 htie.2)
  rw [hsame]
  exact hheadroom

/-- Where the pick has the most headroom, the loads are told apart. -/
theorem loadsTold_of_least (h : Identified (workers.map (·.id)))
    (hleast : ∀ chosen, choice workers requirements = some chosen →
      ∀ other ∈ eligibleWorkers workers requirements, headroomKey chosen ≤ headroomKey other) :
    LoadsTold workers requirements := by
  intro least hmem hheadroom other hother _ hnear
  rcases hchoice : choice workers requirements with - | chosen
  · rw [choice_eq, ranked_head_none] at hchoice
    rw [hchoice] at hmem
    exact absurd hmem List.not_mem_nil
  · have hchosen := hleast chosen hchoice
    rw [choice_eq] at hchoice
    obtain ⟨hpicked, hrank⟩ := ranked_head_le hchoice
    have hsame : chosen = least :=
      key_injOn h load hpicked hmem (le_antisymm (hchosen least hmem) (hheadroom chosen hpicked))
    rw [hsame] at hrank
    rcases Prod.Lex.toLex_le_toLex.mp (hrank other hother) with hless | ⟨-, htie⟩
    · exact absurd hnear hless.ne'
    · exact htie

/-- The default policy picks the worker with the most headroom exactly where no more loaded
    worker passes for it by the rounding. -/
theorem least_chosen_iff (workers : List Worker) (requirements : JobRequirements)
    (h : Identified (workers.map (·.id))) :
    LeastChosen workers requirements ↔ LoadsTold workers requirements := by
  constructor
  · intro hleast
    apply loadsTold_of_least h
    intro chosen hchosen other hother
    obtain ⟨hmem, haccepts⟩ := mem_eligibleWorkers.mp hother
    exact (hleast.least chosen hchosen).2.2 other hmem haccepts
  · intro htold
    refine ⟨choice_eq_none, ?_, fun shuffled hperm => choice_of_perm h hperm⟩
    intro chosen hchosen
    obtain ⟨hmem, haccepts⟩ := leastLoaded.selects hchosen
    refine ⟨hmem, haccepts, ?_⟩
    intro other hother haccepts'
    exact htold.least h hchosen other (mem_eligibleWorkers.mpr ⟨hother, haccepts'⟩)

/-- Loads of workers with up to `2 ** 26` slots are told apart. -/
theorem LoadsTold.of_slots (h : ∀ worker ∈ workers, worker.capabilities.maxConcurrency ≤ 2 ^ 26) :
    LoadsTold workers requirements := by
  intro least hleast _ other hother hless hsame
  obtain ⟨hmem, haccepts⟩ := mem_eligibleWorkers.mp hleast
  obtain ⟨hmem', haccepts'⟩ := mem_eligibleWorkers.mp hother
  have hsize : least.capabilities.maxConcurrency * other.capabilities.maxConcurrency < 2 ^ 53 := by
    have hprod := Nat.mul_le_mul (h least hmem) (h other hmem')
    omega
  have hlt : dyadic (utilization least) < dyadic (utilization other) :=
    trueDivide_lt (Worker.free_of_canAccept haccepts).2 (Worker.free_of_canAccept haccepts').2
      hsize hless
  exact absurd hsame hlt.ne'

end LeastLoaded

end WorkerScheduler

namespace Sample

theorem roles_given : ({.coder} : Finset AgentRole) ≠ ∅ := Finset.singleton_ne_empty _

def capable (slots context : Nat) (concurrency_pos : 1 ≤ slots) (context_pos : 0 < context) :
    WorkerCapabilities where
  modelId := "qwen"
  contextLength := context
  maxConcurrency := slots
  supportedRoles := {.coder}
  supportsTools := true
  supportsJsonSchema := true
  model_given := model_named
  context_pos := context_pos
  concurrency_pos := concurrency_pos
  roles_given := roles_given

def loaded (id active : Nat) (capabilities : WorkerCapabilities) : Worker where
  id := ⟨id⟩
  endpoint := "http://gpu"
  capabilities := capabilities
  registeredAt := 0
  status := .ready
  load := ⟨active, 0⟩
  lastHeartbeatAt := 0
  events := []

def coding : JobRequirements := ⟨.coder, none, 10, false, true⟩

theorem short_context : 0 < 1000 := by decide

theorem long_context : 0 < 2000 := by decide

theorem many_slots : 1 ≤ 134217728 := by decide

theorem more_slots : 1 ≤ 134217729 := by decide

def halfFull : Worker := loaded 1 1 (capable 2 1000 count_two short_context)

def thirdFull : Worker := loaded 2 1 (capable 3 1000 count_three short_context)

/-- One slot is free of `2 ** 27`. -/
def nearlyFull : Worker := loaded 1 134217727 (capable 134217728 1000 many_slots short_context)

/-- One slot is free of `2 ** 27 + 1`, and the context is longer. -/
def fuller : Worker := loaded 2 134217728 (capable 134217729 2000 more_slots long_context)

end Sample

namespace WorkerScheduler

theorem least_chosen_iff_sample :
    LeastChosen [Sample.halfFull, Sample.thirdFull] Sample.coding := by
  refine (least_chosen_iff [Sample.halfFull, Sample.thirdFull] Sample.coding ?_).mpr ?_
  · exact ⟨by decide, by decide⟩
  · apply LoadsTold.of_slots
    decide

/-- The fuller of two workers is picked: their loads have one quotient in floating point, and
    its context is longer. -/
theorem fuller_chosen : ¬ LeastChosen [Sample.nearlyFull, Sample.fuller] Sample.coding := by
  intro h
  have hid : (choice [Sample.nearlyFull, Sample.fuller] Sample.coding).map (·.id) =
      some Sample.fuller.id := by decide +kernel
  obtain ⟨chosen, hchosen, hfuller⟩ := Option.map_eq_some_iff.mp hid
  obtain ⟨hmem, -, hleast⟩ := h.least chosen hchosen
  have hload : load chosen = 134217728 / 134217729 := by
    rcases List.mem_pair.mp hmem with rfl | rfl
    · exact absurd hfuller (by decide)
    · norm_num [load, Sample.fuller, Sample.loaded, Sample.capable]
  have hbetter : load Sample.nearlyFull = 134217727 / 134217728 := by
    norm_num [load, Sample.nearlyFull, Sample.loaded, Sample.capable]
  have hle := hleast Sample.nearlyFull (List.mem_cons_self ..) (by decide)
  rcases Prod.Lex.toLex_le_toLex.mp hle with hlt | ⟨heq, -⟩
  · rw [hload, hbetter] at hlt
    norm_num at hlt
  · rw [hload, hbetter] at heq
    norm_num at heq

/-! ### The policy that takes turns -/

section RoundRobin

/-- What one call of a policy is given. -/
abbrev Selection := List Worker × JobRequirements

/-- The ids that a policy picks in a row of calls, from a state that earlier calls left. -/
def picks (scheduler : WorkerScheduler) : scheduler.State → List Selection → List (Option WorkerId)
  | _, [] => []
  | state, (workers, requirements) :: calls =>
      (scheduler.select state workers requirements).2.map (·.id) ::
        picks scheduler (scheduler.select state workers requirements).1 calls

variable {ids : List WorkerId} {workers : List Worker} {requirements : JobRequirements}

/-- Sorted by id, the eligible workers are always in the same order. -/
theorem sortedBy_id (h : Identified ids)
    (hsame : ((eligibleWorkers workers requirements).map (·.id)).Perm ids) :
    (sortedBy (fun left right => decide (left.id.chars < right.id.chars))
      (eligibleWorkers workers requirements)).map (·.id) = ranked EntityId.chars ids := by
  have hsort : sortedBy (fun left right => decide (left.id.chars < right.id.chars))
      (eligibleWorkers workers requirements) =
        ranked (fun worker => worker.id.chars) (eligibleWorkers workers requirements) := by
    apply insertionSort_eq_ranked
    intro left right
    rw [decide_eq_false_iff_not, not_lt]
  rw [hsort]
  have hperm := ((ranked_perm (fun worker : Worker => worker.id.chars)
    (eligibleWorkers workers requirements)).map (·.id)).trans hsame
  refine eq_of_sorted ?_ (hperm.trans (ranked_perm _ ids).symm) ?_ (ranked_pairwise _ ids)
  · intro left hleft right hright heq
    exact h.chars_inj (hperm.mem_iff.mp hleft) (hperm.mem_iff.mp hright) heq
  · exact List.pairwise_map.mpr (ranked_pairwise _ _)

/-- One call: the pick, and the cursor it leaves. -/
theorem roundRobin_select (h : Identified ids) (hsome : ids ≠ [])
    (hsame : ((eligibleWorkers workers requirements).map (·.id)).Perm ids) (cursor : Nat) :
    (roundRobin.select cursor workers requirements).2.map (·.id) =
        (ranked EntityId.chars ids)[cursor % (ranked EntityId.chars ids).length]? ∧
      (roundRobin.select cursor workers requirements).1 =
        (cursor + 1) % (ranked EntityId.chars ids).length := by
  have hsorted := sortedBy_id h hsame
  unfold roundRobin
  dsimp only
  generalize sortedBy (fun left right => decide (left.id.chars < right.id.chars))
    (eligibleWorkers workers requirements) = sorted at hsorted ⊢
  have hlength : sorted.length = (ranked EntityId.chars ids).length := by
    rw [← hsorted, List.length_map]
  have hranked : (ranked EntityId.chars ids).length = ids.length :=
    (ranked_perm EntityId.chars ids).length_eq
  have hfull : sorted.isEmpty = false := by
    rw [List.isEmpty_eq_false_iff]
    rintro rfl
    rw [List.length_nil] at hlength
    exact hsome (List.length_eq_zero_iff.mp (by omega))
  rw [if_neg (by simp [hfull])]
  rw [← hsorted, List.getElem?_map, List.length_map]
  exact ⟨rfl, rfl⟩

/-- A row of calls goes through the sorted ids in turn. -/
theorem picks_eq_turns (h : Identified ids) (hsome : ids ≠ []) (calls : List Selection)
    (hsame : ∀ call ∈ calls, ((eligibleWorkers call.1 call.2).map (·.id)).Perm ids)
    (cursor : Nat) :
    picks roundRobin cursor calls = turns (ranked EntityId.chars ids) cursor calls.length := by
  induction calls generalizing cursor with
  | nil => rfl
  | cons call calls ih =>
    obtain ⟨hpick, hcursor⟩ :=
      roundRobin_select h hsome (hsame call (List.mem_cons_self ..)) cursor
    rw [List.length_cons, turns_succ, ← hpick]
    have hrest := ih (fun later hlater => hsame later (List.mem_cons_of_mem _ hlater))
      ((cursor + 1) % (ranked EntityId.chars ids).length)
    rw [← hrest, ← hcursor]
    rfl

/-- Over `k` rounds of calls that find the same workers eligible, each of them is picked `k`
    times, from whatever cursor the rounds begin. -/
theorem round_robin_fair (ids : List WorkerId) (h : Identified ids) (k : Nat)
    (calls : List Selection) (hlength : calls.length = ids.length * k)
    (hsame : ∀ call ∈ calls, ((eligibleWorkers call.1 call.2).map (·.id)).Perm ids)
    (cursor : Nat) :
    ∀ id ∈ ids, (picks roundRobin cursor calls).count (some id) = k := by
  intro id hid
  have hranked := ranked_perm EntityId.chars ids
  rw [picks_eq_turns h (List.ne_nil_of_mem hid) calls hsame, hlength, ← hranked.length_eq,
    count_turns, hranked.count_eq, List.count_eq_one_of_mem h.distinct hid, Nat.mul_one]

/-- Two rounds over two workers, listed either way, from a cursor beyond their number. -/
theorem round_robin_fair_sample :
    (picks roundRobin (5 : Nat)
      [([Sample.halfFull, Sample.thirdFull], Sample.coding),
        ([Sample.thirdFull, Sample.halfFull], Sample.coding),
        ([Sample.halfFull, Sample.thirdFull], Sample.coding),
        ([Sample.thirdFull, Sample.halfFull], Sample.coding)]).count (some ⟨2⟩) = 2 := by
  refine round_robin_fair [⟨1⟩, ⟨2⟩] ⟨by decide, by decide⟩ 2 _ rfl ?_ 5 ⟨2⟩ (by decide)
  simp only [List.forall_mem_cons]
  refine ⟨by decide, by decide, by decide, by decide, ?_⟩
  intro call hcall
  exact absurd hcall List.not_mem_nil

end RoundRobin

end WorkerScheduler

end AgenticPlatform
