import AgenticPlatform.EventCodecs
import AgenticPlatform.ModelState
import AgenticPlatform.RedisCodecs
import AgenticPlatform.StandardJson
import AgenticPlatform.WarmRestart

/-!
# Records and markers in the standard library's JSON

The records of jobs and workers, the events on the live stream, and the readiness marker, with the
text that `json.dumps` writes: what the codecs ask of it follows from what the values are made of.
-/

namespace AgenticPlatform

open Json (maxDigits compact indented)

section Parts

variable {repr : Binary64 → List Char} {d : Nat}

theorem storable_requirements {requirements : JobRequirements} (h : FewDigits requirements.estimatedPromptTokens) :
    ∀ mapping ∈ dumpRequirements (some requirements), (PyValue.dict mapping).Storable repr (d + 1) := by
  rintro mapping ⟨rfl⟩
  rw [storable_dict]
  refine ⟨by simp, ?_⟩
  simp only [List.forall_mem_cons]
  exact ⟨storable_str _, storable_ofText _, storable_int h, storable_bool _, storable_bool _,
    List.forall_mem_nil _⟩

theorem storable_ofFloat {value : Option (Int × Int)}
    (h : ∀ number ∈ value, (PyValue.float number.1 number.2).Storable repr d) :
    (PyValue.ofFloat value).Storable repr d := by
  cases value with
  | none => exact storable_none
  | some number => exact h number rfl

/-- What JSON asks of the capabilities of a worker. -/
structure CapabilitiesStorable (repr : Binary64 → List Char) (d : Nat) (capabilities : WorkerCapabilities) :
    Prop where
  context_digits : FewDigits capabilities.contextLength
  concurrency_digits : FewDigits capabilities.maxConcurrency
  count_digits : FewDigits capabilities.gpu.gpuCount
  parallel_digits : FewDigits capabilities.gpu.tensorParallelSize
  memory_storable : ∀ memory ∈ capabilities.gpu.memoryGb, (PyValue.float memory.1 memory.2).Storable repr 0
  metadata_storable : (PyValue.dict capabilities.metadata).Storable repr (d + 1)

theorem PyValue.Storable.mono {value : PyValue} {d larger : Nat} (h : value.Storable repr d) (hle : d ≤ larger) :
    value.Storable repr larger :=
  ⟨h.1, Nat.le_trans h.2 hle⟩

theorem storable_gpu {capabilities : WorkerCapabilities} (h : CapabilitiesStorable repr d capabilities) :
    (PyValue.dict (dumpGpu capabilities.gpu)).Storable repr (d + 1) := by
  rw [storable_dict]
  refine ⟨by simp [dumpGpu], ?_⟩
  simp only [dumpGpu, List.forall_mem_cons]
  refine ⟨storable_ofText _, storable_int h.count_digits, storable_ofFloat ?_, storable_int h.parallel_digits,
    List.forall_mem_nil _⟩
  intro memory hmemory
  exact (h.memory_storable memory hmemory).mono (Nat.zero_le d)

theorem storable_capabilities {capabilities : WorkerCapabilities}
    (h : CapabilitiesStorable repr d capabilities) :
    (PyValue.dict (dumpCapabilities capabilities)).Storable repr (d + 2) := by
  rw [storable_dict]
  refine ⟨by simp [dumpCapabilities], ?_⟩
  simp only [dumpCapabilities, List.forall_mem_cons]
  exact ⟨storable_str _, storable_int h.context_digits, storable_int h.concurrency_digits, storable_ofTexts _,
    storable_gpu h, storable_bool _, storable_bool _, h.metadata_storable, List.forall_mem_nil _⟩

end Parts

/-! ### Records -/

namespace RedisCodecs

/-- What is asked of a job that is stored. -/
structure JobStorable (repr : Binary64 → List Char) (limit : Nat) (job : Job) : Prop where
  constructed : job.Constructed
  ids : JobIds job
  reason_nonempty : job.failureReason ≠ some ""
  payload_storable : (PyValue.dict job.payload).Storable repr limit
  result_storable : ∀ result ∈ job.result, (PyValue.dict result).Storable repr limit
  tokens_digits : ∀ requirements ∈ job.requirements, FewDigits requirements.estimatedPromptTokens

/-- What is asked of a worker that is stored. -/
structure WorkerStorable (repr : Binary64 → List Char) (d : Nat) (worker : Worker) : Prop where
  id_uuid : IsUuid worker.id.value
  endpoint_valid : isHttpUrl worker.endpoint = true
  capabilities_storable : CapabilitiesStorable repr d worker.capabilities
  metadata_storable : (PyValue.dict worker.metadata).Storable repr (d + 2)

variable {repr : Binary64 → List Char} {d : Nat}

theorem JobStorable.encodable {job : Job} (h : JobStorable repr (d + 2) job) :
    JobEncodable (standardJson compact repr (d + 2)) job where
  constructed := h.constructed
  ids := h.ids
  reason_nonempty := h.reason_nonempty
  payload_representable := representable_of_storable h.payload_storable
  result_representable := fun result hresult => representable_of_storable (h.result_storable result hresult)
  requirements_representable := by
    intro mapping hmapping
    apply representable_of_storable
    cases hrequirements : job.requirements with
    | none =>
      rw [hrequirements] at hmapping
      cases hmapping
    | some requirements =>
      rw [hrequirements] at hmapping
      exact storable_requirements (h.tokens_digits requirements hrequirements) mapping hmapping

theorem WorkerStorable.encodable {worker : Worker} (h : WorkerStorable repr d worker) :
    WorkerEncodable (standardJson compact repr (d + 2)) worker where
  id_uuid := h.id_uuid
  endpoint_valid := h.endpoint_valid
  capabilities_representable := representable_of_storable (storable_capabilities h.capabilities_storable)
  metadata_representable := representable_of_storable h.metadata_storable

end RedisCodecs

/-- The payload of an event, from the values of its fields. -/
theorem storable_payload {repr : Binary64 → List Char} {d : Nat} {iso : IsoCodec} {event : Event}
    (hexported : event.type ∈ EventClass.exported) (h : event.Admissible)
    (hfields : ∀ entry ∈ event.fields, (entry.2.render iso).Storable repr d) :
    (PyValue.dict (event.payload iso)).Storable repr (d + 1) := by
  rw [storable_dict, Event.payload, List.map_map, List.forall_mem_map]
  refine ⟨?_, hfields⟩
  have hnodup : (event.fields.map Prod.fst).Nodup := by
    rw [h.typed.names]
    exact EventClass.exported_names.2 event.type hexported
  exact hnodup

/-! ### The readiness marker -/

namespace ModelState

variable {repr : Binary64 → List Char} {d : Nat} {state : ModelState} {builtins : Conversions}

/-- What is asked of the contents of the marker. -/
structure Storable (state : ModelState) : Prop where
  version : state.version = markerVersion
  image : ∃ image : Option String, state.vllmImage = .ofText image
  names_nodup : (state.files.map Prod.fst).Nodup
  total_digits : FewDigits state.totalBytes
  sizes_digits : ∀ file ∈ state.files, FewDigits file.2

theorem Storable.asDict (h : state.Storable) : (PyValue.dict state.asDict).Storable repr (d + 2) := by
  obtain ⟨image, himage⟩ := h.image
  have hfiles : (PyValue.dict (filesDict state.files)).Storable repr (d + 1) := by
    rw [storable_dict, filesDict, List.map_map, List.forall_mem_map]
    exact ⟨h.names_nodup, fun file hfile => storable_int (h.sizes_digits file hfile)⟩
  rw [storable_dict]
  refine ⟨by simp [ModelState.asDict], ?_⟩
  simp only [ModelState.asDict, List.forall_mem_cons, himage, h.version]
  exact ⟨storable_str _, storable_str _, storable_str _, storable_str _, storable_int h.total_digits, hfiles,
    storable_bool _, storable_int (show FewDigits markerVersion by decide), storable_ofText image,
    List.forall_mem_nil _⟩

/-- **The marker that was written is read**, with the line feed behind it or without. -/
theorem Storable.read_written (h : state.Storable) {blanks : List Char} (hblanks : Json.Blank blanks) :
    readMarker (standardJson (indented 2) repr (d + 2)) builtins
      (some ((standardJson (indented 2) repr (d + 2)).dumps state.asDict ++ String.ofList blanks)) =
        .ok (some state.canonical) := by
  have hread := @loads_dumps (indented 2) repr (d + 2) state.asDict h.asDict [] blanks
    (List.forall_mem_nil _) hblanks
  rw [String.ofList_nil, String.empty_append] at hread
  have himage : state.vllmImage.canonical = state.vllmImage := by
    obtain ⟨image, himage⟩ := h.image
    rw [himage, PyValue.canonical_ofText]
  have hversion : state.canonical.version = markerVersion := h.version
  simp only [readMarker, Option.map_some, hread, fromMapping_asDict himage, hversion, if_true]

end ModelState

/-- What stands before a place in the marker's text is a part of the object, or all of it. -/
theorem marker_split {json : JsonCodec} {state : ModelState} {front back : String}
    (hsplit : front ++ back = state.toJson json) :
    (∃ missing, missing ≠ "" ∧ front ++ missing = json.dumps state.asDict ∧ back = missing ++ "\n") ∨
      (∃ blanks, Json.Blank blanks ∧ front = json.dumps state.asDict ++ String.ofList blanks) ∧
        (back = "" ∨ back = "\n") := by
  have hchars := congrArg String.toList hsplit
  rw [ModelState.toJson, String.toList_append, String.toList_append] at hchars
  rcases List.append_eq_append_iff.mp hchars with ⟨missing, hwritten, hback⟩ | ⟨extra, hfront, hback⟩
  · by_cases hmissing : missing = []
    · right
      rw [hmissing, List.append_nil] at hwritten
      rw [hmissing, List.nil_append] at hback
      refine ⟨⟨[], List.forall_mem_nil _, ?_⟩, .inr (String.toList_injective hback)⟩
      rw [String.ofList_nil, String.append_empty]
      exact String.toList_injective hwritten.symm
    · left
      refine ⟨String.ofList missing, ?_, String.toList_injective ?_, String.toList_injective ?_⟩
      · intro hempty
        have hnil := congrArg String.toList hempty
        rw [String.toList_ofList] at hnil
        exact hmissing hnil
      · rw [String.toList_append, String.toList_ofList, hwritten]
      · rw [String.toList_append, String.toList_ofList, hback]
  · right
    have hfeed : extra ++ back.toList = ['\n'] := hback.symm
    rcases List.append_eq_singleton_iff.mp hfeed with ⟨hextra, hrest⟩ | ⟨hextra, hrest⟩
    · refine ⟨⟨[], List.forall_mem_nil _, String.toList_injective ?_⟩, .inr (String.toList_injective hrest)⟩
      rw [hfront, hextra, String.toList_append, String.toList_ofList]
    · refine ⟨⟨['\n'], List.forall_mem_singleton.mpr rfl, String.toList_injective ?_⟩,
        .inl (String.toList_injective hrest)⟩
      rw [hfront, hextra, String.toList_append, String.toList_ofList]

/-! ### A worker with 24 GB, a job, an event and a marker -/

namespace StandardSample

/-- The double 24.0. -/
def memory : Int × Int := (6755399441055744, -48)

/-- How 24.0 is written. -/
def repr (_ : Binary64) : List Char := "24.0".toList

theorem memory_decimal : Binary64.ofDecimal false 240 (-1) = .finite false (6755399441055744, -48) := by
  decide +kernel

theorem memory_readsBack : Json.ReadsBack repr (.finite false (6755399441055744, -48)) where
  begins := ⟨'2', ['4', '.', '0'], rfl, rfl, by decide⟩
  reads := by
    intro rest hrest
    have hdigits : (['0'] ++ rest).takeWhile Char.isDigit = ['0'] ∧ (['0'] ++ rest).dropWhile Char.isDigit = rest :=
      Json.takeWhile_digits (List.forall_mem_singleton.mpr rfl) hrest
    have hfraction : Json.scanFraction ('.' :: '0' :: rest) = (some ['0'], rest) := by
      rw [Json.scanFraction_cons, if_pos rfl, ← List.singleton_append, hdigits.1, hdigits.2,
        if_neg (List.cons_ne_nil _ _)]
    have hnumber : Json.scanNumber ('2' :: '4' :: '.' :: '0' :: rest) =
        .ok (.float (.finite false (6755399441055744, -48)), rest) := by
      have hwhole : Json.scanWhole (Json.scanMinus ('2' :: '4' :: '.' :: '0' :: rest)).2 =
          (['2', '4'], '.' :: '0' :: rest) := rfl
      rw [Json.scanNumber]
      simp only [hwhole, if_neg (List.cons_ne_nil _ _), hfraction, Json.scanExponent_of_ends hrest]
      exact congrArg (fun number => Except.ok (Json.float number, rest)) memory_decimal
    have hwords := @Json.find_words_none ('2' :: '4' :: '.' :: '0' :: rest) '2' _ rfl (.inl rfl)
    show Json.scanAtom ('2' :: '4' :: '.' :: '0' :: rest) = _
    rw [Json.scanAtom, hwords]
    exact hnumber

theorem short : Json.Short repr := fun _ => show 4 ≤ maxDigits by decide

theorem memory_storable : (PyValue.float memory.1 memory.2).Storable repr 0 :=
  ⟨memory_readsBack, Nat.le_refl 0⟩

def worker : Worker :=
  { RedisCodecs.Sample.worker with
    capabilities := { RedisCodecs.Sample.capabilities with gpu := { memoryGb := some memory } } }

theorem empty_storable {d : Nat} : (PyValue.dict []).Storable repr (d + 1) := by
  rw [storable_dict]
  exact ⟨List.nodup_nil, List.forall_mem_nil _⟩

theorem worker_storable : RedisCodecs.WorkerStorable repr 0 worker where
  id_uuid := by decide
  endpoint_valid := by decide
  capabilities_storable :=
    { context_digits := by decide
      concurrency_digits := by decide
      count_digits := by decide
      parallel_digits := by decide
      memory_storable := by
        rintro _ ⟨rfl⟩
        exact memory_storable
      metadata_storable := empty_storable }
  metadata_storable := empty_storable

theorem job_storable : RedisCodecs.JobStorable repr 2 RedisCodecs.Sample.job where
  constructed := RedisCodecs.Sample.job_encodable.constructed
  ids := RedisCodecs.Sample.job_encodable.ids
  reason_nonempty := RedisCodecs.Sample.job_encodable.reason_nonempty
  payload_storable := by
    rw [storable_dict]
    exact ⟨List.nodup_singleton _, List.forall_mem_singleton.mpr (storable_str "fix")⟩
  result_storable := by
    rintro _ ⟨rfl⟩
    exact empty_storable
  tokens_digits := by
    rintro _ ⟨rfl⟩
    decide

theorem event_storable : ∀ entry ∈ EventSample.started.fields, (entry.2.render .sample).Storable repr 1 := by
  simp only [EventSample.started, List.forall_mem_cons]
  exact ⟨storable_str _, storable_str _, storable_int (show FewDigits 0 by decide), storable_none,
    List.forall_mem_nil _⟩

def state : ModelState where
  modelId := "m"
  revision := "abc"
  snapshotPath := "/hub/snapshots/abc"
  preparedAt := "2026-01-01T00:00:00+00:00"
  totalBytes := 3
  files := [("w", 3)]
  verified := true
  version := markerVersion
  vllmImage := .ofText none

theorem state_storable : state.Storable where
  version := rfl
  image := ⟨none, rfl⟩
  names_nodup := List.nodup_singleton _
  total_digits := by decide
  sizes_digits := List.forall_mem_singleton.mpr (by decide)

end StandardSample

/-! ### Both ways -/

/-- **A marker that breaks off is none**: of a marker's text, however it is cut, all that is read as
    a marker is the whole, with its last line feed or without, and what else is left of it raises
    nothing but the error that is caught. -/
theorem marker_cut (repr : Binary64 → List Char) (d : Nat) (builtins : Conversions) (hshort : Json.Short repr)
    (state : ModelState) (h : state.Storable) (front back : String)
    (hsplit : front ++ back = state.toJson (standardJson (indented 2) repr (d + 2))) :
    readMarker (standardJson (indented 2) repr (d + 2)) builtins (some front) =
        .ok (if back = "" ∨ back = "\n" then some state.canonical else none) ∧
      (¬ (back = "" ∨ back = "\n") → Json.loads (d + 2) front.toList = .error .decode) := by
  rcases marker_split hsplit with ⟨missing, hne, hobject, hback⟩ | ⟨⟨blanks, hblanks, hfront⟩, hback⟩
  · have hcut := loads_of_cut hshort h.asDict hne hobject
    have hlong : ¬ (back = "" ∨ back = "\n") := by
      have hsome : 0 < missing.length := Nat.pos_of_ne_zero fun hzero => hne (String.length_eq_zero_iff.mp hzero)
      have hlength := congrArg String.length hback
      rw [String.length_append] at hlength
      have hfeed : "\n".length = 1 := rfl
      rintro (hempty | hempty) <;> rw [hempty] at hlength
      · have hzero : "".length = 0 := rfl
        omega
      · omega
    refine ⟨?_, fun _ => hcut⟩
    rw [if_neg hlong]
    simp only [readMarker, Option.map_some, standardJson, hcut, loadedValue, jsonDecodeError, if_true]
  · refine ⟨?_, fun hlong => absurd hback hlong⟩
    rw [if_pos hback, hfront]
    exact h.read_written hblanks

open StandardSample in
theorem marker_cut_sample :
    readMarker (standardJson (indented 2) repr 2) PrepareModel.Sample.builtins
        (some ((standardJson (indented 2) repr 2).dumps state.asDict)) = .ok (some state.canonical) ∧
      Json.loads 2 [] = .error .decode := by
  have hnonempty := @dumps_nonempty (indented 2) repr 2 state.asDict state_storable.asDict
  have hlong : ¬ (state.toJson (standardJson (indented 2) repr 2) = "" ∨
      state.toJson (standardJson (indented 2) repr 2) = "\n") := by
    have hlength : 0 < ((standardJson (indented 2) repr 2).dumps state.asDict).length :=
      Nat.pos_of_ne_zero fun hzero => hnonempty (String.length_eq_zero_iff.mp hzero)
    have hfeed : "\n".length = 1 := rfl
    rw [ModelState.toJson]
    rintro (hempty | hfeed')
    · exact hnonempty (String.append_eq_empty_iff.mp hempty).1
    · have hlengths := congrArg String.length hfeed'
      rw [String.length_append] at hlengths
      omega
  exact ⟨(marker_cut repr 0 _ short state state_storable _ "\n" rfl).1,
    (marker_cut repr 0 PrepareModel.Sample.builtins short state state_storable "" _ String.empty_append).2 hlong⟩

/-- **Stored records come back**: a job, a worker and an event survive the text that the standard
    library writes for them. -/
theorem records_survive (repr : Binary64 → List Char) (d : Nat) (iso : IsoCodec) :
    (∀ job : Job, RedisCodecs.JobStorable repr (d + 2) job →
      RedisCodecs.jobFromMapping (standardJson compact repr (d + 2)) iso
          (fun field => List.lookup field (RedisCodecs.jobToMapping (standardJson compact repr (d + 2)) iso job)) =
        .ok { job.canonical with events := [] }) ∧
    (∀ worker : Worker, RedisCodecs.WorkerStorable repr d worker →
      RedisCodecs.workerFromMapping (standardJson compact repr (d + 2)) iso
          (fun field => List.lookup field (RedisCodecs.workerToMapping (standardJson compact repr (d + 2)) iso worker)) =
        .ok { worker.canonical with events := [] }) ∧
    ∀ event : Event, event.type ∈ EventClass.exported → event.Admissible →
      (∀ entry ∈ event.fields, (entry.2.render iso).Storable repr (d + 1)) →
      decodeEvent (standardJson compact repr (d + 2)) iso
          (fun field => List.lookup field (encodeEvent (standardJson compact repr (d + 2)) iso event)) =
        .ok (some event) := by
  refine ⟨?_, ?_, ?_⟩
  · intro job h
    exact RedisCodecs.jobFromMapping_jobToMapping h.encodable
  · intro worker h
    exact RedisCodecs.workerFromMapping_workerToMapping h.encodable
  · intro event hexported hadmissible hfields
    exact decodeEvent_encodeEvent _ iso hexported hadmissible
      (representable_of_storable (storable_payload hexported hadmissible hfields))

open StandardSample in
theorem records_survive_sample :
    RedisCodecs.jobFromMapping (standardJson compact repr 2) .sample (fun field => List.lookup field
        (RedisCodecs.jobToMapping (standardJson compact repr 2) .sample RedisCodecs.Sample.job)) =
      .ok { RedisCodecs.Sample.job.canonical with events := [] } ∧
    RedisCodecs.workerFromMapping (standardJson compact repr 2) .sample (fun field => List.lookup field
        (RedisCodecs.workerToMapping (standardJson compact repr 2) .sample worker)) =
      .ok { worker.canonical with events := [] } ∧
    decodeEvent (standardJson compact repr 2) .sample (fun field => List.lookup field
        (encodeEvent (standardJson compact repr 2) .sample EventSample.started)) =
      .ok (some EventSample.started) :=
  ⟨(records_survive repr 0 .sample).1 RedisCodecs.Sample.job job_storable,
    (records_survive repr 0 .sample).2.1 worker worker_storable,
    (records_survive repr 0 .sample).2.2 EventSample.started (by simp [EventSample.started, EventClass.exported])
      EventSample.started_admissible event_storable⟩

end AgenticPlatform
