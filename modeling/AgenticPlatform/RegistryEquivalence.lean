import AgenticPlatform.RedisWorkerRegistry

/-!
# The two worker registries agree

One adapter stores whole workers, the other writes partial field sets through the codec.
`Mirrors` ties them together: for every id, the fields of the hash are those that the
stored worker encodes to, and the index holds the registered ids. Every call keeps it and
gets the same answer, up to the order of the entries of dictionaries.
-/

namespace AgenticPlatform

open Dict

/-! ### Methods and the order of dictionaries -/

namespace Worker

variable (worker : Worker) (now : Instant)

theorem record_canonical (event : WorkerEvent) :
    (worker.record now event).canonical = worker.canonical.record now event := rfl

theorem transition_canonical (target : WorkerStatus) :
    (worker.transition target now).canonical = worker.canonical.transition target now := by
  unfold transition
  by_cases h : worker.status = target
  · rw [if_pos h, if_pos (show worker.canonical.status = target from h)]
  · rw [if_neg h, if_neg (show worker.canonical.status ≠ target from h)]
    rfl

theorem syncBusy_canonical : worker.syncBusy.canonical = worker.canonical.syncBusy := by
  unfold syncBusy
  by_cases h : worker.status.acceptsNewJobs = true
  · rw [if_pos h, if_pos (show worker.canonical.status.acceptsNewJobs = true from h)]
    rfl
  · rw [if_neg h, if_neg (show ¬ worker.canonical.status.acceptsNewJobs = true from h)]

theorem heartbeat_canonical (load : WorkerLoad) :
    (worker.heartbeat now none (some load) none).canonical =
      worker.canonical.heartbeat now none (some load) none := by
  have hsynced : ∀ admitted : Worker, (admitted.syncBusy.record now
      (.workerHeartbeatReceived worker.id admitted.syncBusy.status admitted.syncBusy.load.activeJobs)).canonical =
        admitted.canonical.syncBusy.record now (.workerHeartbeatReceived worker.id
          admitted.canonical.syncBusy.status admitted.canonical.syncBusy.load.activeJobs) := by
    intro admitted
    rw [record_canonical, ← syncBusy_canonical]
    rfl
  unfold heartbeat
  dsimp only
  rw [hsynced]
  by_cases h : worker.status.isLive = true
  · have hlive : ¬ (!worker.status.isLive) = true := by simp [h]
    rw [if_neg hlive, if_neg (show ¬ (!worker.canonical.status.isLive) = true from hlive)]
    rfl
  · have hlive : (!worker.status.isLive) = true := by simpa using h
    rw [if_pos hlive, if_pos (show (!worker.canonical.status.isLive) = true from hlive),
      transition_canonical]
    rfl

theorem markUnavailable_canonical (reason : String) :
    (worker.markUnavailable now reason).canonical = worker.canonical.markUnavailable now reason := by
  unfold markUnavailable
  by_cases h : worker.status = .offline
  · rw [if_pos h, if_pos (show worker.canonical.status = .offline from h)]
  · rw [if_neg h, if_neg (show worker.canonical.status ≠ .offline from h), record_canonical,
      transition_canonical]
    rfl

/-- What only a registration or an update writes. -/
def profile : WorkerId × String × Instant × WorkerCapabilities × Mapping :=
  (worker.id, worker.endpoint, worker.registeredAt, worker.capabilities, worker.metadata)

theorem transition_profile (target : WorkerStatus) :
    (worker.transition target now).profile = worker.profile := by
  unfold transition
  split <;> rfl

theorem syncBusy_profile : worker.syncBusy.profile = worker.profile := by
  unfold syncBusy
  split <;> rfl

theorem heartbeat_profile (load : WorkerLoad) :
    (worker.heartbeat now none (some load) none).profile = worker.profile := by
  have hrecord : ∀ (worker : Worker) event, (worker.record now event).profile = worker.profile :=
    fun _ _ => rfl
  unfold heartbeat
  dsimp only
  rw [hrecord, syncBusy_profile]
  split
  · rw [transition_profile]
    rfl
  · rfl

/-- Reaping touches the status alone, but for the buffer. -/
theorem markUnavailable_copy (reason : String) :
    (worker.markUnavailable now reason).copy = { worker with status := .offline }.copy := by
  unfold markUnavailable
  by_cases h : worker.status = .offline
  · rw [if_pos h, ← h]
  · rw [if_neg h, transition, if_neg h]
    rfl

end Worker

/-! ### Hashes -/

theorem lookup_hset {fields : List (String × String)} (h : (fields.map Prod.fst).Nodup)
    (hash : Dict String String) (field : String) :
    (hset hash fields).lookup field = (List.lookup field fields).or (hash.lookup field) := by
  induction fields generalizing hash with
  | nil => rfl
  | cons entry rest ih =>
    obtain ⟨key, value⟩ := entry
    rw [List.map_cons, List.nodup_cons] at h
    have hrest : hset hash ((key, value) :: rest) = hset (hash.insert key value) rest := rfl
    rw [hrest, ih h.2, lookup_insert_ite, List.lookup_cons]
    by_cases hkey : field = key
    · subst hkey
      have hnone : List.lookup field rest = none := by
        rw [List.lookup_eq_none_iff]
        intro entry hentry
        rw [bne_iff_ne]
        rintro rfl
        exact h.1 (List.mem_map.mpr ⟨entry, hentry, rfl⟩)
      simp [hnone]
    · have hbeq : (field == key) = false := by simpa using hkey
      simp [hkey, hbeq]

theorem EntityId.str_inj {kind : IdKind} {left right : EntityId kind} (hleft : IsUuid left.value)
    (hright : IsUuid right.value) (h : left.str = right.str) : left = right :=
  EntityId.chars_inj hleft hright (String.ofList_injective h)

namespace RedisWorkers

variable (json : JsonCodec) (iso : IsoCodec)

/-- The hash is the record of the worker. -/
def Holds (hash : Dict String String) (worker : Worker) : Prop :=
  ∀ field, hash.lookup field = List.lookup field (RedisCodecs.workerToMapping json iso worker)

/-- The keyspace holds the records of the registered workers, and no others. -/
structure Mirrors (db : RedisWorkers) (registry : WorkerRegistry) : Prop where
  stored : ∀ id worker, registry.lookup id = some worker →
    worker.id = id ∧ worker.events = [] ∧ RedisCodecs.WorkerEncodable json worker
  hash : ∀ id worker, registry.lookup id = some worker →
    ∃ hash, db.hashes.lookup id.str = some hash ∧ Holds json iso hash worker
  absent : ∀ id : WorkerId, IsUuid id.value → registry.lookup id = none →
    db.hashes.lookup id.str = none
  index : ∀ text, text ∈ db.index ↔ ∃ id worker, registry.lookup id = some worker ∧ id.str = text

variable {json iso}

theorem keys_nodup (worker : Worker) :
    ((RedisCodecs.workerToMapping json iso worker).map Prod.fst).Nodup := by
  simp [RedisCodecs.workerToMapping]

/-- What the codec asks of a worker is about its profile. -/
theorem encodable_of_profile {worker worker' : Worker} (hsame : worker'.profile = worker.profile)
    (h : RedisCodecs.WorkerEncodable json worker) : RedisCodecs.WorkerEncodable json worker' := by
  simp only [Worker.profile, Prod.mk.injEq] at hsame
  obtain ⟨hid, hendpoint, -, hcapabilities, hmetadata⟩ := hsame
  obtain ⟨huuid, hvalid, hrepresentable, hdictionary⟩ := h
  constructor
  · rwa [hid]
  · rwa [hendpoint]
  · rwa [hcapabilities]
  · rwa [hmetadata]

/-- A full record replaces every field. -/
theorem Holds.overwrite {old : Dict String String} {previous worker : Worker}
    (hold : Holds json iso old previous) :
    Holds json iso (hset old (RedisCodecs.workerToMapping json iso worker)) worker := by
  intro field
  rw [lookup_hset (keys_nodup worker), hold field]
  cases hnew : List.lookup field (RedisCodecs.workerToMapping json iso worker) with
  | some value => rfl
  | none =>
    rw [Option.none_or, List.lookup_eq_none_iff]
    rw [List.lookup_eq_none_iff] at hnew
    -- Every record has the same fields.
    intro entry hentry
    have hkeys : (RedisCodecs.workerToMapping json iso previous).map Prod.fst =
        (RedisCodecs.workerToMapping json iso worker).map Prod.fst := by
      simp only [RedisCodecs.workerToMapping, List.map_cons, List.map_nil]
    have hkey : entry.1 ∈ (RedisCodecs.workerToMapping json iso worker).map Prod.fst := by
      rw [← hkeys]
      exact List.mem_map.mpr ⟨entry, hentry, rfl⟩
    obtain ⟨entry', hentry', hsame⟩ := List.mem_map.mp hkey
    rw [← hsame]
    exact hnew entry' hentry'

theorem holds_new (worker : Worker) :
    Holds json iso (hset ∅ (RedisCodecs.workerToMapping json iso worker)) worker := by
  intro field
  rw [lookup_hset (keys_nodup worker)]
  simp

/-- A heartbeat rewrites all that it changed. -/
theorem Holds.heartbeat {hash : Dict String String} {worker reported : Worker}
    (hold : Holds json iso hash worker) (hprofile : reported.profile = worker.profile) :
    Holds json iso (hset hash (heartbeatFields iso reported)) reported := by
  simp only [Worker.profile, Prod.mk.injEq] at hprofile
  obtain ⟨hid, hendpoint, hregistered, hcapabilities, hmetadata⟩ := hprofile
  intro field
  rw [lookup_hset (by simp [heartbeatFields]), hold field]
  simp only [RedisCodecs.workerToMapping, heartbeatFields, hid, hendpoint, hregistered, hcapabilities,
    hmetadata]
  by_cases hstatus : field = "status"
  · subst hstatus
    simp [List.lookup_cons]
  · by_cases htime : field = "last_heartbeat_at"
    · subst htime
      simp [List.lookup_cons]
    · by_cases hactive : field = "active_jobs"
      · subst hactive
        simp [List.lookup_cons]
      · by_cases hqueued : field = "queued_jobs"
        · subst hqueued
          simp [List.lookup_cons]
        · have hne : (field == "status") = false ∧ (field == "last_heartbeat_at") = false ∧
              (field == "active_jobs") = false ∧ (field == "queued_jobs") = false := by
            simp [hstatus, htime, hactive, hqueued]
          simp only [List.lookup_cons, List.lookup_nil, hne, Option.none_or]

/-- Reaping rewrites the status, the only field that it changed. -/
theorem Holds.reaped {hash : Dict String String} {worker : Worker} (hold : Holds json iso hash worker)
    (status : WorkerStatus) :
    Holds json iso (hset hash [("status", status.value)]) { worker with status := status } := by
  intro field
  rw [lookup_hset (by simp), hold field]
  simp only [RedisCodecs.workerToMapping]
  by_cases hstatus : field = "status"
  · subst hstatus
    simp [List.lookup_cons]
  · have hne : (field == "status") = false := by simp [hstatus]
    simp only [List.lookup_cons, List.lookup_nil, hne, Option.none_or]

/-- A record decodes to the worker it holds. -/
theorem Holds.decode {hash : Dict String String} {worker : Worker} (hold : Holds json iso hash worker)
    (hencodable : RedisCodecs.WorkerEncodable json worker) (hevents : worker.events = []) :
    decode json iso hash = .ok worker.canonical := by
  unfold RedisWorkers.decode
  rw [funext hold, RedisCodecs.workerFromMapping_workerToMapping hencodable, ← hevents]
  rfl

/-! ### What a write does to the mirror -/

/-- A record written under a worker's id, with the id in the index. -/
theorem Mirrors.set {db : RedisWorkers} {registry : WorkerRegistry} (h : Mirrors json iso db registry)
    {worker : Worker} {hash : Dict String String} {index : Finset String}
    (hold : Holds json iso hash worker) (hencodable : RedisCodecs.WorkerEncodable json worker)
    (hevents : worker.events = [])
    (hindex : ∀ text, text ∈ index ↔ text = worker.id.str ∨ text ∈ db.index) :
    Mirrors json iso ⟨db.hashes.insert worker.id.str hash, index⟩ (registry.insert worker.id worker) := by
  have huuid : ∀ id stored, registry.lookup id = some stored → IsUuid id.value := by
    intro id stored hstored
    obtain ⟨hid, -, hencodable⟩ := h.stored id stored hstored
    rw [← hid]
    exact hencodable.id_uuid
  constructor
  · intro id stored hstored
    rw [lookup_insert_ite] at hstored
    split at hstored
    · rename_i hid
      cases hstored
      exact ⟨hid.symm, hevents, hencodable⟩
    · exact h.stored id stored hstored
  · intro id stored hstored
    rw [lookup_insert_ite] at hstored
    split at hstored
    · rename_i hid
      cases hstored
      refine ⟨hash, ?_, hold⟩
      rw [hid, lookup_insert_ite, if_pos rfl]
    · rename_i hid
      obtain ⟨old, hold, hfields⟩ := h.hash id stored hstored
      refine ⟨old, ?_, hfields⟩
      have hne : id.str ≠ worker.id.str := fun hsame =>
        hid (EntityId.str_inj (huuid id stored hstored) hencodable.id_uuid hsame)
      rw [lookup_insert_ite, if_neg hne, hold]
  · intro id hid hnone
    rw [lookup_insert_ite] at hnone
    split at hnone
    · cases hnone
    · rename_i hother
      have hne : id.str ≠ worker.id.str := fun hsame =>
        hother (EntityId.str_inj hid hencodable.id_uuid hsame)
      rw [lookup_insert_ite, if_neg hne, h.absent id hid hnone]
  · intro text
    rw [hindex, h.index]
    constructor
    · rintro (rfl | ⟨id, stored, hstored, rfl⟩)
      · exact ⟨worker.id, worker, by rw [lookup_insert_ite, if_pos rfl], rfl⟩
      · by_cases hid : id = worker.id
        · exact ⟨worker.id, worker, by rw [lookup_insert_ite, if_pos rfl], by rw [hid]⟩
        · exact ⟨id, stored, by rw [lookup_insert_ite, if_neg hid, hstored], rfl⟩
    · rintro ⟨id, stored, hstored, rfl⟩
      rw [lookup_insert_ite] at hstored
      split at hstored
      · rename_i hid
        exact .inl (by rw [hid])
      · exact .inr ⟨id, stored, hstored, rfl⟩

/-- A registered worker's id is in the index already. -/
theorem Mirrors.rewrite {db : RedisWorkers} {registry : WorkerRegistry} (h : Mirrors json iso db registry)
    {stored worker : Worker} {hash : Dict String String} (hstored : registry.lookup worker.id = some stored)
    (hold : Holds json iso hash worker) (hencodable : RedisCodecs.WorkerEncodable json worker)
    (hevents : worker.events = []) :
    Mirrors json iso { db with hashes := db.hashes.insert worker.id.str hash }
      (registry.insert worker.id worker) := by
  apply h.set hold hencodable hevents
  intro text
  constructor
  · exact .inr
  · rintro (rfl | hmem)
    · exact (h.index _).mpr ⟨worker.id, stored, hstored, rfl⟩
    · exact hmem

theorem Mirrors.register {db : RedisWorkers} {registry : WorkerRegistry} (h : Mirrors json iso db registry)
    {worker : Worker} (hencodable : RedisCodecs.WorkerEncodable json worker) :
    Mirrors json iso (db.register json iso worker) (registry.register worker) := by
  have hsame : worker.copy.profile = worker.profile := rfl
  have hcopy := encodable_of_profile hsame hencodable
  suffices hold : Holds json iso (hset ((db.hashes.lookup worker.id.str).getD ∅)
      (RedisCodecs.workerToMapping json iso worker)) worker.copy from
    h.set hold hcopy rfl fun text => Finset.mem_insert
  cases hstored : registry.lookup worker.id with
  | none =>
    rw [h.absent worker.id hencodable.id_uuid hstored]
    exact holds_new worker
  | some previous =>
    obtain ⟨old, hlookup, hold⟩ := h.hash worker.id previous hstored
    rw [hlookup]
    exact hold.overwrite

theorem Mirrors.update {db : RedisWorkers} {registry : WorkerRegistry} (h : Mirrors json iso db registry)
    {worker : Worker} (hencodable : RedisCodecs.WorkerEncodable json worker) :
    Mirrors json iso (db.update json iso worker) (registry.update worker) := by
  have hsame : worker.copy.profile = worker.profile := rfl
  have hcopy := encodable_of_profile hsame hencodable
  unfold RedisWorkers.update write workerUpdate WorkerRegistry.update
  cases hstored : registry.lookup worker.id with
  | none =>
    rw [h.absent worker.id hencodable.id_uuid hstored, if_neg (AList.lookup_eq_none.mp hstored)]
    exact h
  | some previous =>
    obtain ⟨old, hlookup, hold⟩ := h.hash worker.id previous hstored
    rw [hlookup, if_pos (AList.lookup_isSome.mp (by rw [hstored]; rfl))]
    have hfull : Holds json iso (hset old (RedisCodecs.workerToMapping json iso worker)) worker.copy :=
      hold.overwrite
    have hkey : registry.lookup worker.copy.id = some previous := hstored
    exact h.rewrite hkey hfull hcopy rfl

theorem Mirrors.heartbeat {db : RedisWorkers} {registry : WorkerRegistry}
    (h : Mirrors json iso db registry) {workerId : WorkerId} (huuid : IsUuid workerId.value)
    (load : WorkerLoad) (reportedAt : Instant) :
    Mirrors json iso (db.heartbeat json iso workerId load reportedAt).self
      (registry.heartbeat workerId load reportedAt).1 ∧
    (db.heartbeat json iso workerId load reportedAt).result =
      .ok (registry.heartbeat workerId load reportedAt).2 := by
  unfold RedisWorkers.heartbeat WorkerRegistry.heartbeat
  cases hstored : registry.lookup workerId with
  | none =>
    rw [h.absent workerId huuid hstored]
    refine ⟨⟨h.stored, h.hash, h.absent, ?_⟩, rfl⟩
    -- The id that is dropped from the index was not in it.
    intro text
    have hnot : workerId.str ∉ db.index := by
      intro hmem
      obtain ⟨id, worker, hworker, hsame⟩ := (h.index _).mp hmem
      obtain ⟨hid, -, hencodable⟩ := h.stored id worker hworker
      have huuid' : IsUuid id.value := by
        rw [← hid]
        exact hencodable.id_uuid
      rw [EntityId.str_inj huuid' huuid hsame, hstored] at hworker
      cases hworker
    rw [Call.self_returned, Finset.erase_eq_of_notMem hnot]
    exact h.index text
  | some worker =>
    obtain ⟨hash, hlookup, hold⟩ := h.hash workerId worker hstored
    obtain ⟨hid, hevents, hencodable⟩ := h.stored workerId worker hstored
    subst hid
    have hprofile := worker.heartbeat_profile reportedAt load
    have hreported : Worker.profile (worker.heartbeat reportedAt none (some load) none).copy =
        worker.profile := hprofile
    have hfields : heartbeatFields iso (worker.canonical.heartbeat reportedAt none (some load) none) =
        heartbeatFields iso (worker.heartbeat reportedAt none (some load) none).copy := by
      rw [← Worker.heartbeat_canonical]
      rfl
    have hid : (worker.heartbeat reportedAt none (some load) none).copy.id = worker.id :=
      congrArg Prod.fst hreported
    rw [hlookup]
    dsimp only
    rw [hold.decode hencodable hevents]
    dsimp only [write, workerUpdate]
    rw [hlookup, hfields]
    refine ⟨?_, rfl⟩
    have hkey : registry.lookup (worker.heartbeat reportedAt none (some load) none).copy.id =
        some worker := by
      rw [hid]
      exact hstored
    have hrewrite := h.rewrite hkey (hold.heartbeat hreported) (encodable_of_profile hreported hencodable) rfl
    rw [hid] at hrewrite
    exact hrewrite

theorem Mirrors.deregister {db : RedisWorkers} {registry : WorkerRegistry}
    (h : Mirrors json iso db registry) {workerId : WorkerId} (huuid : IsUuid workerId.value) :
    Mirrors json iso (db.deregister workerId) (registry.deregister workerId) := by
  have hne : ∀ id worker, registry.lookup id = some worker → id ≠ workerId → id.str ≠ workerId.str := by
    intro id worker hworker hother hsame
    obtain ⟨hid, -, hencodable⟩ := h.stored id worker hworker
    have huuid' : IsUuid id.value := by
      rw [← hid]
      exact hencodable.id_uuid
    exact hother (EntityId.str_inj huuid' huuid hsame)
  unfold RedisWorkers.deregister WorkerRegistry.deregister
  constructor
  · intro id worker hworker
    rw [lookup_erase_ite] at hworker
    split at hworker
    · cases hworker
    · exact h.stored id worker hworker
  · intro id worker hworker
    rw [lookup_erase_ite] at hworker
    split at hworker
    · cases hworker
    · rename_i hother
      obtain ⟨hash, hlookup, hold⟩ := h.hash id worker hworker
      refine ⟨hash, ?_, hold⟩
      rw [lookup_erase_ite, if_neg (hne id worker hworker hother), hlookup]
  · intro id hid hnone
    rw [lookup_erase_ite]
    split
    · rfl
    · rename_i hother
      apply h.absent id hid
      rw [lookup_erase_ite, if_neg] at hnone
      · exact hnone
      · rintro rfl
        exact hother rfl
  · intro text
    rw [Finset.mem_erase, h.index]
    constructor
    · rintro ⟨hother, id, worker, hworker, rfl⟩
      refine ⟨id, worker, ?_, rfl⟩
      rw [lookup_erase_ite, if_neg, hworker]
      rintro rfl
      exact hother rfl
    · rintro ⟨id, worker, hworker, rfl⟩
      rw [lookup_erase_ite] at hworker
      split at hworker
      · cases hworker
      · rename_i hother
        exact ⟨hne id worker hworker hother, id, worker, hworker, rfl⟩

theorem Mirrors.get {db : RedisWorkers} {registry : WorkerRegistry} (h : Mirrors json iso db registry)
    {workerId : WorkerId} (huuid : IsUuid workerId.value) :
    db.get json iso workerId = .ok ((registry.get workerId).map Worker.canonical) := by
  unfold RedisWorkers.get WorkerRegistry.get
  cases hstored : registry.lookup workerId with
  | none =>
    rw [h.absent workerId huuid hstored]
    rfl
  | some worker =>
    obtain ⟨hash, hlookup, hold⟩ := h.hash workerId worker hstored
    obtain ⟨-, hevents, hencodable⟩ := h.stored workerId worker hstored
    rw [hlookup]
    dsimp only
    rw [hold.decode hencodable hevents, Option.map_some, Option.map_some, Worker.copy, ← hevents]
    rfl

/-! ### Listing the pool -/

theorem Mirrors.uuid {db : RedisWorkers} {registry : WorkerRegistry} (h : Mirrors json iso db registry)
    {id : WorkerId} {worker : Worker} (hstored : registry.lookup id = some worker) : IsUuid id.value := by
  obtain ⟨hid, -, hencodable⟩ := h.stored id worker hstored
  rw [← hid]
  exact hencodable.id_uuid

/-- A worker of the sorted list is registered under its own id. -/
theorem Mirrors.sorted_stored {db : RedisWorkers} {registry : WorkerRegistry}
    (h : Mirrors json iso db registry) {worker : Worker} (hmem : worker ∈ registry.sorted) :
    registry.lookup worker.id = some worker := by
  obtain ⟨id, hstored⟩ := WorkerRegistry.mem_sorted.mp hmem
  rw [(h.stored id worker hstored).1]
  exact hstored

/-- Sorting the index gives the order of the in-memory registry. -/
theorem Mirrors.sort_index {db : RedisWorkers} {registry : WorkerRegistry}
    (h : Mirrors json iso db registry) :
    db.index.sort (· ≤ ·) = registry.sorted.map fun worker => worker.id.str := by
  have htotal : Std.Total fun left right : Sigma fun _ : WorkerId => Worker =>
      ¬ right.1.chars < left.1.chars :=
    ⟨fun left right => by rw [not_lt, not_lt]; exact le_total _ _⟩
  have htrans : IsTrans (Sigma fun _ : WorkerId => Worker) fun left right =>
      ¬ right.1.chars < left.1.chars :=
    ⟨fun a b c hab hbc => by rw [not_lt] at hab hbc ⊢; exact hab.trans hbc⟩
  have hperm := List.perm_insertionSort
    (fun left right : Sigma fun _ : WorkerId => Worker => ¬ right.1.chars < left.1.chars) registry.entries
  have hpairwise := List.pairwise_insertionSort
    (fun left right : Sigma fun _ : WorkerId => Worker => ¬ right.1.chars < left.1.chars) registry.entries
  have htexts : (registry.sorted.map fun worker => worker.id.str) = (registry.entries.insertionSort
      fun left right => ¬ right.1.chars < left.1.chars).map fun entry => entry.1.str := by
    unfold WorkerRegistry.sorted
    rw [List.map_map]
    apply List.map_congr_left
    intro entry hentry
    have hstored := AList.mem_lookup_iff.mpr (hperm.mem_iff.mp hentry)
    rw [Function.comp_apply, (h.stored entry.1 entry.2 hstored).1]
  have hsorted : (registry.sorted.map fun worker => worker.id.str).Pairwise (· ≤ ·) := by
    rw [htexts, List.pairwise_map]
    refine hpairwise.imp ?_
    intro left right hle
    rw [String.le_iff_toList_le, EntityId.str, EntityId.str, String.toList_ofList, String.toList_ofList]
    exact not_lt.mp hle
  have hnodup : (registry.sorted.map fun worker => worker.id.str).Nodup := by
    rw [htexts]
    have hkeys : (registry.entries.map Sigma.fst).Nodup := registry.nodupKeys
    have hkeys' := (hperm.map Sigma.fst).nodup_iff.mpr hkeys
    rw [List.Nodup, List.pairwise_map] at hkeys' ⊢
    refine hkeys'.imp_of_mem ?_
    intro left right hleft hright hne hsame
    have hstored := AList.mem_lookup_iff.mpr (hperm.mem_iff.mp hleft)
    have hstored' := AList.mem_lookup_iff.mpr (hperm.mem_iff.mp hright)
    exact hne (EntityId.str_inj (h.uuid hstored) (h.uuid hstored') hsame)
  have hmem : ∀ text, text ∈ db.index.sort (· ≤ ·) ↔
      text ∈ registry.sorted.map fun worker => worker.id.str := by
    intro text
    rw [Finset.mem_sort, h.index, List.mem_map]
    constructor
    · rintro ⟨id, worker, hstored, rfl⟩
      exact ⟨worker, WorkerRegistry.mem_sorted.mpr ⟨id, hstored⟩, by rw [(h.stored id worker hstored).1]⟩
    · rintro ⟨worker, hworker, rfl⟩
      exact ⟨worker.id, worker, h.sorted_stored hworker, rfl⟩
  have hsame := (List.perm_ext_iff_of_nodup (Finset.sort_nodup _ _) hnodup).mpr hmem
  exact hsame.eq_of_pairwise' (Finset.pairwise_sort _ _) hsorted

/-- The records of registered workers, decoded one after the other. -/
theorem Mirrors.decode_records {db : RedisWorkers} {registry : WorkerRegistry}
    (h : Mirrors json iso db registry) {workers : List Worker}
    (hworkers : ∀ worker ∈ workers, registry.lookup worker.id = some worker) :
    ((workers.map fun worker => worker.id.str).filterMap fun id => db.hashes.lookup id).mapM
      (decode json iso) = .ok (workers.map Worker.canonical) := by
  induction workers with
  | nil => rfl
  | cons worker rest ih =>
    rw [List.forall_mem_cons] at hworkers
    obtain ⟨hash, hlookup, hold⟩ := h.hash worker.id worker hworkers.1
    obtain ⟨-, hevents, hencodable⟩ := h.stored worker.id worker hworkers.1
    rw [List.map_cons, List.filterMap_cons_some (f := fun id => db.hashes.lookup id) hlookup, List.mapM_cons, hold.decode hencodable hevents,
      ok_bind, ih hworkers.2]
    rfl

/-- The index loses nothing: every id in it has a record. -/
theorem Mirrors.listAll {db : RedisWorkers} {registry : WorkerRegistry}
    (h : Mirrors json iso db registry) :
    db.listAll json iso = .returned db (registry.sorted.map Worker.canonical) := by
  have hrecords := h.decode_records fun worker hworker => h.sorted_stored hworker
  have hindex : (db.index.filter fun id => id ∈ db.hashes) = db.index := by
    rw [Finset.filter_eq_self]
    intro text hmem
    obtain ⟨id, worker, hstored, rfl⟩ := (h.index text).mp hmem
    obtain ⟨hash, hlookup, -⟩ := h.hash id worker hstored
    exact AList.lookup_isSome.mp (by rw [hlookup]; rfl)
  unfold RedisWorkers.listAll
  dsimp only
  rw [h.sort_index, hrecords]
  dsimp only
  rw [hindex]

theorem Mirrors.sorted_copy {db : RedisWorkers} {registry : WorkerRegistry}
    (h : Mirrors json iso db registry) {workers : List Worker}
    (hsorted : ∀ worker ∈ workers, worker ∈ registry.sorted) : workers.map Worker.copy = workers := by
  have hself : ∀ worker ∈ workers, worker.copy = id worker := by
    intro worker hworker
    have hevents := (h.stored _ _ (h.sorted_stored (hsorted worker hworker))).2.1
    rw [Worker.copy, ← hevents]
    rfl
  rw [List.map_congr_left hself, List.map_id]

/-! ### Reaping -/

/-- One turn for a stale worker, on both sides. -/
theorem Mirrors.reapTurn {db : RedisWorkers} {registry : WorkerRegistry} (h : Mirrors json iso db registry)
    {worker : Worker} (hstored : registry.lookup worker.id = some worker) {now : Instant}
    {timeout : Duration} (hstale : ¬ (!worker.status.isLive || !worker.isStale now timeout) = true)
    (reaped : List Worker) :
    ∃ db' offline, Mirrors json iso db' (registry.insert worker.id offline.copy) ∧
      reapTurn now timeout (db, reaped.map Worker.canonical) worker.canonical =
        (db', (reaped ++ [offline]).map Worker.canonical) ∧
      WorkerRegistry.reapTurn now timeout (registry, reaped) worker =
        (registry.insert worker.id offline.copy, reaped ++ [offline]) := by
  obtain ⟨hash, hlookup, hold⟩ := h.hash worker.id worker hstored
  obtain ⟨-, hevents, hencodable⟩ := h.stored worker.id worker hstored
  have hself : worker.copy = worker := by
    rw [Worker.copy, ← hevents]
  have hcopy := worker.markUnavailable_copy now "heartbeat timeout"
  have hid : (worker.markUnavailable now "heartbeat timeout").id = worker.id := by
    have hsame := congrArg Worker.id hcopy
    exact hsame
  have hstatus : (worker.canonical.markUnavailable now "heartbeat timeout").status = .offline := by
    rw [← Worker.markUnavailable_canonical]
    have hsame := congrArg Worker.status hcopy
    exact hsame
  have hcanonicalId : (worker.canonical.markUnavailable now "heartbeat timeout").id = worker.id := by
    rw [← Worker.markUnavailable_canonical]
    exact hid
  refine ⟨⟨db.hashes.insert worker.id.str (hset hash [("status", WorkerStatus.offline.value)]), db.index⟩,
    worker.markUnavailable now "heartbeat timeout", ?_, ?_, ?_⟩
  · rw [hcopy]
    have hprofile : Worker.profile { worker with status := .offline }.copy = worker.profile := rfl
    have hkey : registry.lookup ({ worker with status := .offline }.copy : Worker).id = some worker :=
      hstored
    have hfields : Holds json iso (hset hash [("status", WorkerStatus.offline.value)])
        { worker with status := .offline }.copy := hold.reaped .offline
    exact h.rewrite hkey hfields (encodable_of_profile hprofile hencodable) rfl
  · unfold RedisWorkers.reapTurn
    rw [if_neg (show ¬ (!worker.canonical.status.isLive || !worker.canonical.isStale now timeout) = true
      from hstale)]
    dsimp only [write, workerUpdate]
    rw [hcanonicalId, hlookup, hstatus, List.map_append, ← Worker.markUnavailable_canonical]
    rfl
  · unfold WorkerRegistry.reapTurn
    rw [if_neg hstale, hself]
    dsimp only
    rw [hid]

/-- The two loops, over workers that are still as they were listed. -/
theorem Mirrors.reap {db : RedisWorkers} {registry : WorkerRegistry} (h : Mirrors json iso db registry)
    {workers : List Worker} (hstored : ∀ worker ∈ workers, registry.lookup worker.id = some worker)
    (hnodup : (workers.map Worker.id).Nodup) (now : Instant) (timeout : Duration)
    (reaped : List Worker) :
    Mirrors json iso
      ((workers.map Worker.canonical).foldl (RedisWorkers.reapTurn now timeout)
        (db, reaped.map Worker.canonical)).1
      (workers.foldl (WorkerRegistry.reapTurn now timeout) (registry, reaped)).1 ∧
    ((workers.map Worker.canonical).foldl (RedisWorkers.reapTurn now timeout)
        (db, reaped.map Worker.canonical)).2 =
      (workers.foldl (WorkerRegistry.reapTurn now timeout) (registry, reaped)).2.map Worker.canonical := by
  induction workers generalizing db registry reaped with
  | nil => exact ⟨h, rfl⟩
  | cons worker rest ih =>
    rw [List.forall_mem_cons] at hstored
    rw [List.map_cons, List.nodup_cons] at hnodup
    rw [List.map_cons, List.foldl_cons, List.foldl_cons]
    by_cases hskip : (!worker.status.isLive || !worker.isStale now timeout) = true
    · have hredis : RedisWorkers.reapTurn now timeout (db, reaped.map Worker.canonical) worker.canonical =
          (db, reaped.map Worker.canonical) := if_pos hskip
      have hmemory : WorkerRegistry.reapTurn now timeout (registry, reaped) worker = (registry, reaped) :=
        if_pos hskip
      rw [hredis, hmemory]
      exact ih h hstored.2 hnodup.2 reaped
    · obtain ⟨db', offline, hnext, hredis, hmemory⟩ := h.reapTurn hstored.1 hskip reaped
      rw [hmemory, hredis]
      refine ih hnext ?_ hnodup.2 _
      -- The later workers of the list have other ids.
      intro later hlater
      have hother : later.id ≠ worker.id := by
        intro hsame
        exact hnodup.1 (List.mem_map.mpr ⟨later, hlater, hsame⟩)
      rw [lookup_insert_ite, if_neg hother]
      exact hstored.2 later hlater

/-- A reaped worker leaves with its events; the registry keeps it without. -/
theorem Mirrors.reapStale {db : RedisWorkers} {registry : WorkerRegistry}
    (h : Mirrors json iso db registry) (now : Instant) (timeout : Duration) :
    Mirrors json iso (db.reapStale json iso now timeout).self (registry.reap now timeout).1 ∧
    (db.reapStale json iso now timeout).result =
      .ok ((registry.reap now timeout).2.map Worker.canonical) := by
  have hnodup : (registry.sorted.map Worker.id).Nodup := by
    have hsort := Finset.sort_nodup db.index (· ≤ ·)
    rw [h.sort_index] at hsort
    have htexts : (registry.sorted.map fun worker => worker.id.str) =
        (registry.sorted.map Worker.id).map EntityId.str := by
      rw [List.map_map]
      rfl
    rw [htexts] at hsort
    exact hsort.of_map
  have hreap := h.reap (fun worker hworker => h.sorted_stored hworker) hnodup now timeout []
  unfold RedisWorkers.reapStale
  dsimp only
  rw [h.listAll]
  exact ⟨hreap.1, congrArg Except.ok hreap.2⟩

theorem Mirrors.listAvailable {db : RedisWorkers} {registry : WorkerRegistry}
    (h : Mirrors json iso db registry) :
    db.listAvailable json iso = .returned db (registry.listAvailable.map Worker.canonical) := by
  have hcopy : registry.listAvailable = registry.sorted.filter fun worker =>
      worker.status.acceptsNewJobs && decide (0 < worker.availableSlots) :=
    h.sorted_copy fun worker hworker => (List.mem_filter.mp hworker).1
  unfold RedisWorkers.listAvailable
  rw [h.listAll, hcopy]
  dsimp only [Call.returned, Except.map]
  rw [List.filter_map]
  rfl

theorem mirrors_empty : Mirrors json iso empty ∅ where
  stored := fun _ _ hstored => nomatch hstored
  hash := fun _ _ hstored => nomatch hstored
  absent := fun _ _ _ => rfl
  index := by simp [empty]

end RedisWorkers

/-! ### Histories -/

/-- The answer with the dictionaries of its workers as they compare. -/
def RegistryReply.canonical : RegistryReply → RegistryReply
  | .found worker => .found (worker.map Worker.canonical)
  | .workers listed => .workers (listed.map Worker.canonical)
  | reply => reply

/-- The arguments of a call are ones that Redis can hold. -/
def RegistryCall.Encodable (json : JsonCodec) : RegistryCall → Prop
  | .register worker | .update worker => RedisCodecs.WorkerEncodable json worker
  | .heartbeat workerId _ _ | .deregister workerId | .get workerId => IsUuid workerId.value
  | .listAll | .listAvailable | .reapStale _ _ => True

/-- The two registries, called alike. -/
structure Registries where
  redis : RedisWorkers
  memory : WorkerRegistry

namespace Registries

def empty : Registries := ⟨RedisWorkers.empty, ∅⟩

def step (json : JsonCodec) (iso : IsoCodec) (registries : Registries) (call : RegistryCall) : Registries :=
  ⟨(registries.redis.apply json iso call).self, (registries.memory.apply call).1⟩

/-- The Redis registry returns, and what it returns equals the in-memory answer. -/
def Agree (json : JsonCodec) (iso : IsoCodec) (registries : Registries) (call : RegistryCall) : Prop :=
  (registries.redis.apply json iso call).result = .ok (registries.memory.apply call).2.canonical

/-- One call: the keyspace stays a mirror and the answers are equal. -/
theorem step_mirrors {json : JsonCodec} {iso : IsoCodec} {registries : Registries}
    (h : RedisWorkers.Mirrors json iso registries.redis registries.memory) {call : RegistryCall}
    (hcall : call.Encodable json) :
    RedisWorkers.Mirrors json iso (registries.step json iso call).redis
      (registries.step json iso call).memory ∧ registries.Agree json iso call := by
  unfold Agree step
  cases call with
  | register worker => exact ⟨h.register hcall, rfl⟩
  | heartbeat workerId load reportedAt =>
    obtain ⟨hnext, hresult⟩ := h.heartbeat hcall load reportedAt
    refine ⟨hnext, ?_⟩
    simp only [RedisWorkers.apply, WorkerRegistry.apply, hresult]
    rfl
  | update worker => exact ⟨h.update hcall, rfl⟩
  | deregister workerId => exact ⟨h.deregister hcall, rfl⟩
  | get workerId =>
    refine ⟨h, ?_⟩
    simp only [RedisWorkers.apply, WorkerRegistry.apply, h.get hcall]
    rfl
  | listAll =>
    have hcopy : registries.memory.listAll = registries.memory.sorted :=
      h.sorted_copy fun worker hworker => hworker
    simp only [RedisWorkers.apply, WorkerRegistry.apply, h.listAll, hcopy]
    exact ⟨h, rfl⟩
  | listAvailable =>
    simp only [RedisWorkers.apply, WorkerRegistry.apply, h.listAvailable]
    exact ⟨h, rfl⟩
  | reapStale now timeout =>
    obtain ⟨hnext, hresult⟩ := h.reapStale now timeout
    refine ⟨hnext, ?_⟩
    simp only [RedisWorkers.apply, WorkerRegistry.apply, hresult]
    rfl

end Registries

end AgenticPlatform
