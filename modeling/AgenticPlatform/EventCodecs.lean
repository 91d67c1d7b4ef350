import AgenticPlatform.EventClasses
import AgenticPlatform.RedisCodecs
import Mathlib.Data.List.Perm.Basic

/-!
# The two event codecs

The live stream decodes an event with `_coerce`, the durable log with a converter for each
field. Both rebuild typed fields from the annotations of the event class, by different
rules: only the stream rebuilds collections, keys and UUIDs, and only the log takes every
class but `DomainEvent` itself. On the annotations that the event classes use they agree.
-/

namespace AgenticPlatform

variable (json : JsonCodec) (iso : IsoCodec)

/-! ### Fields -/

/-- `annotation.parse(value)`. -/
def parseEntityId (kind : IdKind) : PyValue → Except PyError FieldValue
  | .str text => (EntityId.parse kind text).map (.entityId kind)
  | _ => .error (.other ("TypeError: cannot build " ++ kind.className))

/-- `annotation(value)` of an enumeration. -/
def parseMember (type : EventEnum) : PyValue → Except PyError FieldValue
  | .str text => (StrEnum.parse type.Member text).map (.member type)
  | _ => .error (.valueError ("not a valid " ++ StrEnum.className type.Member))

/-- `datetime.fromisoformat(value)`. -/
def parseMoment (value : PyValue) : Except PyError FieldValue := do
  return .moment (← iso.fromisoformat (← value.readText))

/-- `_coerce_class`. -/
def coerceClass (hint : Annotation) (value : PyValue) : Except PyError FieldValue :=
  match hint with
  | .entityId kind => parseEntityId kind value
  | .enum type => parseMember type value
  | .idempotencyKey => do
      match ← loadIdempotencyKey (some (← value.readText)) with
      | some key => return .idempotencyKey key
      | none => .error (.valueError "idempotency key must not be blank")
  | .datetime => parseMoment iso value
  | .uuid => do return .uuid (← parseUuid (← value.readText))
  | .bool => .ok (.json (.bool value.truthy))
  | .int => value.readInt.map fun n => .json (.int n)
  | .float => value.readFloat.map fun x => .json (.float x.1 x.2)
  | .str => value.readText.map fun text => .json (.str text)
  | .optional _ | .sequence _ | .any => .ok (.json value)

/-- `_coerce`: rebuild a typed field from the value that the payload has. -/
def coerce (hint : Annotation) (value : PyValue) : Except PyError FieldValue :=
  match hint, value with
  | _, .none => .ok (.json .none)
  | .optional hint, value => coerce hint value
  | .sequence item, .list items => (items.mapM (coerce item)).map .sequence
  | hint, value => coerceClass iso hint value

/-- `_optional`: keep `None` as `None`. -/
def keepNone (convert : PyValue → Except PyError FieldValue) : PyValue → Except PyError FieldValue
  | .none => .ok (.json .none)
  | value => convert value

/-- `_unwrap_optional`. -/
def unwrapOptional : Annotation → Annotation
  | .optional hint => hint
  | hint => hint

/-- `_converter_for`. -/
def converterFor (hint : Annotation) : PyValue → Except PyError FieldValue :=
  match unwrapOptional hint with
  | .entityId kind => keepNone fun value => do
      return .entityId kind ⟨← parseUuid (← value.readText)⟩
  | .enum type => keepNone (parseMember type)
  | .datetime => keepNone (parseMoment iso)
  | _ => fun value => .ok (.json value)

/-! ### The live stream -/

/-- `event_registry`: wire name to event class. -/
def eventRegistry (name : String) : Option EventClass :=
  EventClass.exported.find? fun type => type.name == name

/-- `encode_event`. -/
def encodeEvent (event : Event) : List (String × String) :=
  [("name", event.type.name),
    ("event_id", uuidText event.eventId),
    ("occurred_at", iso.isoformat event.occurredAt),
    ("payload", json.dumps (event.payload iso))]

/-- `decode_event`: `None` when the name is unknown here. -/
def decodeEvent (raw : String → Option String) : Except PyError (Option Event) :=
  match eventRegistry ((raw "name").getD "") with
  | none => .ok none
  | some type => do
      let payload := (← RedisCodecs.jsonObject json raw "payload").getD []
      let body ← (type.fields.filter fun field => (List.lookup field.name payload).isSome).mapM
        fun field => do return (field.name, ← coerce iso field.hint
          (Mapping.get payload field.name .none))
      let occurredAt ← iso.fromisoformat (← RedisCodecs.require raw "occurred_at")
      let eventId ← parseUuid (← RedisCodecs.require raw "event_id")
      return some (← type.construct occurredAt eventId body)

/-! ### The durable log -/

/-- `EVENT_TYPES`: the base class itself is left out. -/
def eventTypes (name : String) : Option EventClass :=
  (EventClass.exported.filter fun type => type.className ≠ "DomainEvent").find? fun type =>
    type.name == name

/-- `_converters`, of one field. -/
def converter (type : EventClass) (key : String) : PyValue → Except PyError FieldValue :=
  match type.fields.find? fun field => field.name == key with
  | some field => converterFor iso field.hint
  | none => fun value => .ok (.json value)

/-- `load_event`: rebuild a typed event from its stored row. -/
def loadEvent (name : String) (payload : Mapping) (occurredAt : Instant) (eventId : Nat) :
    Except PyError Event :=
  match eventTypes name with
  | none => .error (.other
      ("UnknownDomainEventError: no domain event class registered for " ++ quoted name))
  | some type => do
      let body ← payload.mapM fun entry => do return (entry.1, ← converter iso type entry.1 entry.2)
      type.construct occurredAt eventId body

/-! ### What the decoders agree on -/

/-- The values that a field of this annotation may carry. -/
def Annotation.Admits : Annotation → FieldValue → Prop
  | .entityId kind, .entityId kind' id => kind' = kind ∧ IsUuid id.value
  | .enum type, .member type' _ => type' = type
  | .idempotencyKey, .idempotencyKey text => isIdempotencyKey text = true
  | .datetime, .moment _ => True
  | .uuid, .uuid value => IsUuid value
  | .bool, .json (.bool _) => True
  | .int, .json (.int _) => True
  | .float, .json (.float _ _) => True
  | .str, .json (.str _) => True
  | .optional hint, value => value = .json .none ∨ hint.Admits value
  | .sequence item, .sequence items => ∀ value ∈ items, item.Admits value
  | .any, .json _ => True
  | _, _ => False

/-- The classes that both decoders read in one way. -/
def Annotation.isScalar : Annotation → Bool
  | .entityId _ | .enum _ | .datetime | .bool | .int | .float | .str => true
  | _ => false

/-- Both decoders read a field of this annotation in one way. -/
def Annotation.isShared : Annotation → Bool
  | .optional hint => hint.isScalar
  | hint => hint.isScalar

/-- Every field of every exported class is one that the decoders agree on. -/
theorem exported_shared : ∀ type ∈ EventClass.exported, ∀ field ∈ type.fields,
    field.hint.isShared = true := by
  decide

section Fields

variable {hint : Annotation} {value : FieldValue}

/-- A scalar is rendered as text, a number or a truth value, never as `None`. -/
theorem scalar_round_trip (hscalar : hint.isScalar = true) (h : hint.Admits value) :
    (value.render iso).canonical = value.render iso ∧ value.render iso ≠ .none ∧
      coerceClass iso hint (value.render iso) = .ok value ∧
      converterFor iso hint (value.render iso) = .ok value := by
  cases hint with
  | entityId kind =>
    cases value with
    | entityId kind' id =>
      obtain ⟨rfl, huuid⟩ := h
      have hparse : parseUuid id.str = .ok id.value := parseUuid_str huuid
      have hid : EntityId.parse kind' id.str = .ok id := EntityId.parse_str huuid
      simp [FieldValue.render, coerceClass, parseEntityId, hid, converterFor, unwrapOptional, keepNone,
        hparse, Except.map]
    | _ => exact h.elim
  | enum type =>
    cases value with
    | member type' m =>
      cases h
      simp [FieldValue.render, coerceClass, parseMember, converterFor, unwrapOptional, keepNone, Except.map]
    | _ => exact h.elim
  | datetime =>
    cases value with
    | moment instant =>
      simp [FieldValue.render, coerceClass, parseMoment, converterFor, unwrapOptional, keepNone, iso.inverse]
    | _ => exact h.elim
  | bool =>
    cases value with
    | json value =>
      cases value with
      | bool b => simp [FieldValue.render, coerceClass, converterFor, unwrapOptional, PyValue.truthy]
      | _ => exact h.elim
    | _ => exact h.elim
  | int =>
    cases value with
    | json value =>
      cases value with
      | int n => simp [FieldValue.render, coerceClass, converterFor, unwrapOptional, Except.map]
      | _ => exact h.elim
    | _ => exact h.elim
  | float =>
    cases value with
    | json value =>
      cases value with
      | float mantissa exponent => simp [FieldValue.render, coerceClass, converterFor, unwrapOptional, Except.map, PyValue.readFloat, PyValue.canonical]
      | _ => exact h.elim
    | _ => exact h.elim
  | str =>
    cases value with
    | json value =>
      cases value with
      | str text => simp [FieldValue.render, coerceClass, converterFor, unwrapOptional, Except.map]
      | _ => exact h.elim
    | _ => exact h.elim
  | _ => cases hscalar

theorem shared_cases (h : hint.isShared = true) :
    hint.isScalar = true ∨ ∃ inner, hint = .optional inner ∧ inner.isScalar = true := by
  cases hint with
  | optional inner => exact .inr ⟨inner, rfl, h⟩
  | _ => exact .inl h

theorem coerce_optional (value : PyValue) :
    coerce iso (.optional hint) value = coerce iso hint value := by
  cases value with
  | none => cases hint <;> simp [coerce]
  | _ =>
    rw [coerce]
    exact nofun

theorem coerce_scalar (hscalar : hint.isScalar = true) {value : PyValue} (hnone : value ≠ .none) :
    coerce iso hint value = coerceClass iso hint value := by
  unfold coerce
  split
  · exact absurd rfl hnone
  · cases hscalar
  · cases hscalar
  · rfl

/-- The stream restores a field that JSON has carried. -/
theorem coerce_render (hshared : hint.isShared = true) (h : hint.Admits value) :
    coerce iso hint (value.render iso).canonical = .ok value := by
  have hread : ∀ hint : Annotation, hint.isScalar = true → hint.Admits value →
      coerce iso hint (value.render iso).canonical = .ok value := by
    intro hint hscalar h
    obtain ⟨hcanonical, hnone, hcoerce, -⟩ := scalar_round_trip iso hscalar h
    rw [hcanonical, coerce_scalar iso hscalar hnone, hcoerce]
  rcases shared_cases hshared with hscalar | ⟨inner, rfl, hscalar⟩
  · exact hread hint hscalar h
  · rw [coerce_optional]
    rcases h with rfl | h
    · cases inner <;> simp [FieldValue.render, coerce]
    · exact hread inner hscalar h

/-- The log restores a field as it was rendered. -/
theorem converterFor_render (hshared : hint.isShared = true) (h : hint.Admits value) :
    converterFor iso hint (value.render iso) = .ok value := by
  rcases shared_cases hshared with hscalar | ⟨inner, rfl, hscalar⟩
  · exact (scalar_round_trip iso hscalar h).2.2.2
  · rcases h with rfl | h
    · cases inner <;> simp [FieldValue.render, converterFor, unwrapOptional, keepNone]
    · have hsame : converterFor iso (.optional inner) = converterFor iso inner := by
        cases inner with
        | optional inner => cases hscalar
        | _ => rfl
      rw [hsame]
      exact (scalar_round_trip iso hscalar h).2.2.2

end Fields

/-! ### Events -/

/-- A value of the right type for every field, in the order of the class. -/
def Typed (entries : List (String × FieldValue)) (fields : List EventField) : Prop :=
  List.Forall₂ (fun entry field => entry.1 = field.name ∧ field.hint.Admits entry.2) entries fields

/-- An instance that its class could have built. -/
structure Event.Admissible (event : Event) : Prop where
  typed : Typed event.fields event.type.fields
  id_uuid : IsUuid event.eventId

section Events

variable {entries : List (String × FieldValue)} {fields : List EventField}

theorem Typed.names (h : Typed entries fields) :
    entries.map Prod.fst = fields.map EventField.name := by
  induction h with
  | nil => rfl
  | cons hentry _ ih => rw [List.map_cons, List.map_cons, hentry.1, ih]

/-- What is computed field by field, when each field gives its entry. -/
theorem Typed.mapM_eq (h : Typed entries fields)
    {compute : EventField → Except PyError (String × FieldValue)}
    (hcompute : ∀ entry ∈ entries, ∀ field ∈ fields, entry.1 = field.name →
      field.hint.Admits entry.2 → compute field = .ok entry) :
    fields.mapM compute = .ok entries := by
  induction h with
  | nil => rfl
  | @cons entry field rest fields hentry hrest ih =>
    rw [List.mapM_cons, hcompute entry (by simp) field (by simp) hentry.1 hentry.2, ok_bind,
      ih fun entry hmem field hfield => hcompute entry (by simp [hmem]) field (by simp [hfield])]
    rfl

/-- The keyword arguments may come in any order. -/
theorem EventClass.construct_perm {event : Event} (h : event.Admissible)
    (hnames : (event.type.fields.map EventField.name).Nodup) {body : List (String × FieldValue)}
    (hbody : body.Perm event.fields) :
    event.type.construct event.occurredAt event.eventId body = .ok event := by
  have hkeys := h.typed.names
  have hnodup : (event.fields.map Prod.fst).Nodup := by
    rw [hkeys]
    exact hnames
  have hknown : (body.find? fun entry => entry.1 ∉ event.type.fields.map EventField.name) = none := by
    rw [List.find?_eq_none]
    intro entry hentry
    rw [← hkeys]
    simpa using ⟨entry.2, hbody.mem_iff.mp hentry⟩
  have hfields : event.type.fields.mapM (event.type.argument body) = .ok event.fields := by
    apply h.typed.mapM_eq
    intro entry hentry field _ hname _
    have hlookup : List.lookup field.name body = some entry.2 := by
      rw [lookup_perm hbody (((hbody.map Prod.fst).nodup_iff).mpr hnodup), ← hname,
        lookup_of_mem hnodup hentry]
    rw [EventClass.argument, hlookup, Option.some_or, ← hname]
  unfold EventClass.construct
  rw [hknown, hfields]
  rfl

theorem find_named {α : Type} {name : α → String} {values : List α} (hnodup : (values.map name).Nodup)
    {value : α} (hmem : value ∈ values) :
    (values.find? fun other => name other == name value) = some value := by
  induction values with
  | nil => cases hmem
  | cons first rest ih =>
    rw [List.map_cons, List.nodup_cons] at hnodup
    rcases List.mem_cons.mp hmem with rfl | hrest
    · simp
    · have hne : (name first == name value) = false := by
        rw [beq_eq_false_iff_ne]
        intro hsame
        exact hnodup.1 (List.mem_map.mpr ⟨value, hrest, hsame.symm⟩)
      rw [List.find?_cons, hne]
      exact ih hnodup.2 hrest

theorem Typed.field_of_mem (h : Typed entries fields) {entry : String × FieldValue}
    (hmem : entry ∈ entries) :
    ∃ field ∈ fields, entry.1 = field.name ∧ field.hint.Admits entry.2 := by
  induction h with
  | nil => cases hmem
  | cons hentry _ ih =>
    rcases List.mem_cons.mp hmem with rfl | hrest
    · exact ⟨_, by simp, hentry⟩
    · obtain ⟨field, hfield, hadmits⟩ := ih hrest
      exact ⟨field, List.mem_cons_of_mem _ hfield, hadmits⟩

/-- A list of calls that all return. -/
theorem mapM_eq_map {α β : Type} {f : α → Except PyError β} {g : α → β} {values : List α}
    (h : ∀ value ∈ values, f value = .ok (g value)) : values.mapM f = .ok (values.map g) := by
  induction values with
  | nil => rfl
  | cons value rest ih =>
    rw [List.forall_mem_cons] at h
    rw [List.mapM_cons, h.1, ok_bind, ih h.2]
    rfl

/-- **The live stream**: `decode_event` undoes `encode_event`. -/
theorem decodeEvent_encodeEvent {event : Event} (hexported : event.type ∈ EventClass.exported)
    (h : event.Admissible) (hjson : json.Representable (event.payload iso)) :
    decodeEvent json iso (fun field => List.lookup field (encodeEvent json iso event)) =
      .ok (some event) := by
  have hnames := EventClass.exported_names.2 event.type hexported
  have hnodup : (event.fields.map Prod.fst).Nodup := by
    rw [h.typed.names]
    exact hnames
  have hkeys : ((event.payload iso).map Prod.fst).Nodup := by
    rw [Event.payload, List.map_map]
    exact hnodup
  have hlookup : ∀ entry ∈ event.fields, List.lookup entry.1 (event.payload iso).canonical =
      some (entry.2.render iso).canonical := by
    intro entry hentry
    rw [Mapping.lookup_canonical hkeys, Event.payload, lookup_map_values, lookup_of_mem hnodup hentry]
    rfl
  generalize hraw : (fun field => List.lookup field (encodeEvent json iso event)) = raw
  have hfield : ∀ field, raw field = List.lookup field (encodeEvent json iso event) :=
    fun field => by rw [← hraw]
  have hname : raw "name" = some event.type.name := by
    rw [hfield]
    simp [encodeEvent]
  have hpayload : RedisCodecs.jsonObject json raw "payload" = .ok (some (event.payload iso).canonical) :=
    RedisCodecs.jsonObject_optional (some (event.payload iso))
      (by rw [hfield]; simp [encodeEvent, List.lookup_cons]) (by rintro _ ⟨rfl⟩; exact hjson)
  have hoccurred : RedisCodecs.require raw "occurred_at" = .ok (iso.isoformat event.occurredAt) :=
    RedisCodecs.require_eq (by rw [hfield]; simp [encodeEvent, List.lookup_cons]) (iso.nonempty _)
  have hid : RedisCodecs.require raw "event_id" = .ok (uuidText event.eventId) :=
    RedisCodecs.require_eq (by rw [hfield]; simp [encodeEvent, List.lookup_cons])
      (EntityId.str_nonempty _)
  have hpresent : (event.type.fields.filter fun field =>
      (List.lookup field.name (event.payload iso).canonical).isSome) = event.type.fields := by
    rw [List.filter_eq_self]
    intro field hmem
    have hkey : field.name ∈ event.fields.map Prod.fst := by
      rw [h.typed.names]
      exact List.mem_map_of_mem hmem
    obtain ⟨entry, hentry, hsame⟩ := List.mem_map.mp hkey
    rw [← hsame, hlookup entry hentry]
    rfl
  have hbody : (event.type.fields.mapM fun field => do
      return (field.name, ← coerce iso field.hint
        (Mapping.get (event.payload iso).canonical field.name .none)) :
        Except PyError (List (String × FieldValue))) = .ok event.fields := by
    apply h.typed.mapM_eq
    intro entry hentry field hmem hsame hadmits
    have hshared := exported_shared event.type hexported field hmem
    rw [Mapping.get, ← hsame, hlookup entry hentry, Option.getD_some, coerce_render iso hshared hadmits]
    rfl
  unfold decodeEvent
  rw [hname, Option.getD_some, eventRegistry, find_named EventClass.exported_names.1 hexported]
  simp only [hpayload, ok_bind, Option.getD_some, hpresent, hbody, hoccurred, iso.inverse, hid,
    parseUuid_uuidText h.id_uuid, EventClass.construct_perm h hnames (.refl _)]
  rfl

/-- **The durable log**: `load_event` undoes `payload`, whatever the order of the entries. -/
theorem loadEvent_payload {event : Event} (hexported : event.type ∈ EventClass.exported)
    (hconcrete : event.type.className ≠ "DomainEvent") (h : event.Admissible) {payload : Mapping}
    (hpayload : payload.Perm (event.payload iso)) :
    loadEvent iso event.type.name payload event.occurredAt event.eventId = .ok event := by
  have hnames := EventClass.exported_names.2 event.type hexported
  have hnodup : (event.fields.map Prod.fst).Nodup := by
    rw [h.typed.names]
    exact hnames
  -- Every entry of the payload is converted back to the field it was rendered from.
  have hconvert : ∀ entry ∈ event.fields,
      converter iso event.type entry.1 (entry.2.render iso) = .ok entry.2 := by
    intro entry hentry
    obtain ⟨field, hfield, hsame, hadmits⟩ := h.typed.field_of_mem hentry
    have hshared := exported_shared event.type hexported field hfield
    unfold converter
    rw [hsame, find_named hnames hfield]
    exact converterFor_render iso hshared hadmits
  obtain ⟨original, horiginal, hrendered⟩ : ∃ original : List (String × FieldValue),
      original.Perm event.fields ∧ payload = original.map fun entry => (entry.1, entry.2.render iso) := by
    have hcomp := congrFun (congrFun (List.eq_map_comp_perm
      fun entry : String × FieldValue => (entry.1, entry.2.render iso)) payload) event.fields
    obtain ⟨original, hrendered, hperm⟩ := hcomp.mpr hpayload
    exact ⟨original, hperm, hrendered⟩
  have hbody : (payload.mapM fun entry => do
      return (entry.1, ← converter iso event.type entry.1 entry.2) :
        Except PyError (List (String × FieldValue))) = .ok original := by
    rw [hrendered, List.mapM_map]
    have hid : original.mapM (fun entry => (do
        return (entry.1, ← converter iso event.type entry.1 (entry.2.render iso)) :
          Except PyError (String × FieldValue))) = .ok (original.map id) := by
      apply mapM_eq_map
      intro entry hentry
      rw [hconvert entry (horiginal.mem_iff.mp hentry)]
      rfl
    rw [List.map_id] at hid
    exact hid
  have htypes : eventTypes event.type.name = some event.type := by
    unfold eventTypes
    have hsub : ((EventClass.exported.filter fun type => type.className ≠ "DomainEvent").map
        EventClass.name).Nodup :=
      EventClass.exported_names.1.sublist (List.filter_sublist.map EventClass.name)
    exact find_named hsub (List.mem_filter.mpr ⟨hexported, by simpa using hconcrete⟩)
  unfold loadEvent
  rw [htypes]
  simp only [hbody, ok_bind]
  exact EventClass.construct_perm h hnames horiginal

end Events

/-! ### Both codecs -/

/-- **Both codecs restore the event** of every exported class but `DomainEvent` itself. -/
theorem event_codecs_restore (event : Event) (hexported : event.type ∈ EventClass.exported)
    (hconcrete : event.type.className ≠ "DomainEvent") (h : event.Admissible)
    (hjson : json.Representable (event.payload iso)) :
    decodeEvent json iso (fun field => List.lookup field (encodeEvent json iso event)) =
        .ok (some event) ∧
      loadEvent iso event.type.name (event.payload iso) event.occurredAt event.eventId = .ok event :=
  ⟨decodeEvent_encodeEvent json iso hexported h hjson,
    loadEvent_payload iso hexported hconcrete h (.refl _)⟩

namespace EventSample

def started : Event where
  type := .candidateStarted
  fields := [("run_id", .entityId .run ⟨2⟩), ("candidate_id", .entityId .candidate ⟨4⟩),
    ("index", .json (.int 0)), ("job_id", .json .none)]
  occurredAt := IsoCodec.sampleStart
  eventId := 7

/-- An instance of the base class. -/
def base : Event := ⟨.domainEvent, [], IsoCodec.sampleStart, 8⟩

def startedText : String :=
  "\x7b\"candidate_id\":\"00000000-0000-0000-0000-000000000004\",\"index\":0,\"job_id\":null," ++
    "\"run_id\":\"00000000-0000-0000-0000-000000000002\"\x7d"

/-- The JSON text of the payloads of the two events. -/
def codec : JsonCodec where
  dumps mapping := if (List.lookup "index" mapping).isSome then startedText else "\x7b\x7d"
  loads text :=
    if text = startedText then .ok (.dict (Mapping.canonical (started.payload .sample)))
    else .ok (.dict (Mapping.canonical []))

theorem started_admissible : started.Admissible where
  typed := .cons ⟨rfl, rfl, by decide⟩ (.cons ⟨rfl, rfl, by decide⟩ (.cons ⟨rfl, trivial⟩
    (.cons ⟨rfl, .inl rfl⟩ .nil)))
  id_uuid := by decide

end EventSample

theorem event_codecs_restore_sample :
    decodeEvent EventSample.codec .sample (fun field =>
        List.lookup field (encodeEvent EventSample.codec .sample EventSample.started)) =
        .ok (some EventSample.started) ∧
      loadEvent .sample "candidate.started" (EventSample.started.payload .sample) IsoCodec.sampleStart 7 =
        .ok EventSample.started :=
  event_codecs_restore EventSample.codec .sample EventSample.started
    (by simp [EventSample.started, EventClass.exported]) (by decide) EventSample.started_admissible
    ⟨rfl, by decide⟩

/-- The log does not know the name of the base class, which is exported too. -/
theorem base_event_not_loaded :
    ¬ ∀ (json : JsonCodec) (iso : IsoCodec) (event : Event), event.type ∈ EventClass.exported →
      event.Admissible → json.Representable (event.payload iso) →
      decodeEvent json iso (fun field => List.lookup field (encodeEvent json iso event)) =
          .ok (some event) ∧
        loadEvent iso event.type.name (event.payload iso) event.occurredAt event.eventId = .ok event := by
  intro h
  have hrestored := (h EventSample.codec .sample EventSample.base
    (by simp [EventSample.base, EventClass.exported]) ⟨.nil, by decide⟩ ⟨rfl, by decide⟩).2
  have hraised : loadEvent .sample EventSample.base.type.name (EventSample.base.payload .sample)
      EventSample.base.occurredAt EventSample.base.eventId = .error (.other
        "UnknownDomainEventError: no domain event class registered for 'domain.event'") := rfl
  rw [hraised] at hrestored
  cases hrestored

end AgenticPlatform
