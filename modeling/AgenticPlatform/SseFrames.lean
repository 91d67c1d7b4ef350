import AgenticPlatform.EventClasses
import AgenticPlatform.PublicPayload
import AgenticPlatform.StandardJson

/-!
# Server-sent events

A frame is one line of JSON around the public payload of an event. Only a replayed event has an
identifier: the number that a client resumes from.
-/

namespace AgenticPlatform.Sse

open Json (compact Printable)
open PublicPayload

/-- What `sse_starlette` is handed. -/
structure ServerSentEvent where
  id : Option String := none
  event : String
  data : String

/-- One entry of a run's event stream. -/
structure EventView where
  sequence : Nat
  name : String
  occurredAt : Instant
  payload : Mapping

/-- The number of a frame, if it has one. -/
def sequenceValue (sequence : Option Nat) : PyValue :=
  match sequence with
  | some n => .int n
  | none => .none

/-- The object in a frame. -/
def frameObject (sequence : Option Nat) (name occurredAt : String) (payload : Mapping) : Mapping :=
  [("sequence", sequenceValue sequence), ("name", .str name), ("occurred_at", .str occurredAt),
    ("payload", .dict payload)]

section Frames

variable (repr : Binary64 → List Char) (iso : IsoCodec) (lower : String → String)

/-- `_frame`. -/
def frame (sequence : Option Nat) (name occurredAt : String) (payload : Mapping) : String :=
  String.ofList (Json.write compact repr 0 (PyValue.dict (frameObject sequence name occurredAt payload)).toJson)

/-- `replayed_event`. -/
def replayedEvent (view : EventView) : ServerSentEvent where
  id := some (toString view.sequence)
  event := view.name
  data := frame repr (some view.sequence) view.name (iso.isoformat view.occurredAt)
    (publicPayload lower view.payload)

/-- `live_event`. -/
def liveEvent (event : Event) : ServerSentEvent where
  event := event.type.name
  data := frame repr none event.type.name (iso.isoformat event.occurredAt)
    (publicPayload lower (event.payload iso))

end Frames

/-! ### A public payload can be written -/

section Bounded

variable {repr : Binary64 → List Char} {lower : String → String} {d : Nat}

mutual

/-- Nothing that is dropped or cut makes a value harder to write. -/
theorem storable_bound : ∀ (value : PyValue) (d : Nat), value.Storable repr d →
    (bound lower value).Storable repr d
  | .none, _, h | .bool _, _, h | .int _, _, h | .float _ _, _, h => h
  | .str _, _, _ => storable_str _
  | .list items, 0, h => by
    have hdepth := h.2
    rw [PyValue.toJson, Json.depth] at hdepth
    omega
  | .list items, d + 1, h => by
    rw [bound, storable_list]
    exact storable_boundItems items d (storable_list.mp h)
  | .dict items, 0, h => by
    have hdepth := h.2
    rw [PyValue.toJson, Json.depth] at hdepth
    omega
  | .dict items, d + 1, h => by
    rw [storable_dict] at h
    rw [bound, storable_dict]
    refine ⟨?_, storable_boundEntries items d h.2⟩
    rw [boundEntries_eq, publicPayload, List.map_map]
    exact h.1.sublist (List.filter_sublist.map Prod.fst)

theorem storable_boundItems : ∀ (items : List PyValue) (d : Nat), (∀ item ∈ items, item.Storable repr d) →
    ∀ item ∈ boundItems lower items, item.Storable repr d
  | [], _, _, _, h => by cases h
  | first :: rest, d, hitems, item, h => by
    rw [List.forall_mem_cons] at hitems
    rcases List.mem_cons.mp h with rfl | hrest
    · exact storable_bound first d hitems.1
    · exact storable_boundItems rest d hitems.2 item hrest

theorem storable_boundEntries : ∀ (items : Mapping) (d : Nat), (∀ entry ∈ items, entry.2.Storable repr d) →
    ∀ entry ∈ boundEntries lower items, entry.2.Storable repr d
  | [], _, _, _, h => by cases h
  | (name, value) :: rest, d, hitems, entry, h => by
    rw [List.forall_mem_cons] at hitems
    rw [boundEntries] at h
    split at h
    · exact storable_boundEntries rest d hitems.2 entry h
    · rcases List.mem_cons.mp h with rfl | hrest
      · exact storable_bound value d hitems.1
      · exact storable_boundEntries rest d hitems.2 entry hrest

end

end Bounded

/-! ### What a client reads -/

/-- A frame is one line, it has an identifier exactly if it has a number, and at a path into the
    payload a client finds the bounded part, unless a key on the way is hidden. -/
structure Framed (lower : String → String) (limit : Nat) (sequence : Option Nat) (name occurredAt : String)
    (payload : Mapping) (sse : ServerSentEvent) : Prop where
  id : sse.id = sequence.map toString
  event : sse.event = name
  line : Printable sse.data.toList
  reads : ∃ shown, loadedValue (Json.loads limit sse.data.toList) =
      .ok (.dict (frameObject sequence name occurredAt shown)) ∧
    ∀ path part, (PyValue.dict shown).at? path = some part ↔ Visible lower path ∧
      ∃ before, (PyValue.dict payload).at? path = some before ∧ part = bound lower before ∧
        ∀ text, part = .str text → text.length ≤ maxStringLength + truncationSuffix.length

section Reading

variable {repr : Binary64 → List Char} {lower : String → String} {d : Nat} {sequence : Option Nat} {payload : Mapping}

/-- A number of a frame has few digits, if there is one. -/
def SequenceFits (sequence : Option Nat) : Prop :=
  ∀ n ∈ sequence, (Nat.toDigits 10 n).length ≤ Json.maxDigits

theorem storable_frameObject (hsequence : SequenceFits sequence) (name occurredAt : String)
    (h : (PyValue.dict payload).Storable repr (d + 1)) :
    (PyValue.dict (frameObject sequence name occurredAt payload)).Storable repr (d + 2) := by
  rw [storable_dict]
  refine ⟨by simp [frameObject], ?_⟩
  simp only [frameObject, List.forall_mem_cons]
  refine ⟨?_, storable_str _, storable_str _, h, List.forall_mem_nil _⟩
  cases sequence with
  | none => exact storable_none
  | some n => exact storable_int (hsequence n rfl)

theorem text_of_bound {before part : PyValue} (h : part = bound lower before) (text : String)
    (htext : part = .str text) : text.length ≤ maxStringLength + truncationSuffix.length := by
  have hwithin : Within lower (maxStringLength + truncationSuffix.length) part := by
    rw [h]
    exact within_bound before
  rw [htext] at hwithin
  cases hwithin with
  | str hlength => exact hlength

theorem framed_frame (hrepr : ∀ x, Printable (repr x)) (hsequence : SequenceFits sequence)
    (hpayload : (PyValue.dict payload).Storable repr (d + 1)) (name occurredAt : String) :
    Framed lower (d + 2) sequence name occurredAt payload
      ⟨sequence.map toString, name, frame repr sequence name occurredAt (publicPayload lower payload)⟩ where
  id := rfl
  event := rfl
  line := by
    rw [frame, String.toList_ofList]
    exact Json.printable_write hrepr _ 0
  reads := by
    have hpublic := @storable_bound repr lower _ _ hpayload
    rw [bound_dict] at hpublic
    have hframe := storable_frameObject hsequence name occurredAt hpublic
    have hread : Json.loads (d + 2) (frame repr sequence name occurredAt (publicPayload lower payload)).toList =
        .ok (PyValue.dict (frameObject sequence name occurredAt (publicPayload lower payload))).toJson := by
      have hloads := @Json.loads_write compact repr (d + 2) _ hframe.1 hframe.2 0 [] [] (List.forall_mem_nil _)
        (List.forall_mem_nil _)
      rw [List.nil_append, List.append_nil] at hloads
      rw [frame, String.toList_ofList, hloads]
    refine ⟨publicPayload lower payload, ?_, ?_⟩
    · simp only [hread, loadedValue, PyValue.ofJson_toJson]
    · intro path part
      rw [← bound_dict, at?_bound_iff]
      apply and_congr_right
      intro _
      apply exists_congr
      intro before
      apply and_congr_right
      intro _
      exact (and_iff_left_of_imp fun h => text_of_bound h).symm

end Reading

/-- **Every frame is one line that shows what is public**, live or replayed. -/
theorem frames_show (repr : Binary64 → List Char) (iso : IsoCodec) (lower : String → String) (d : Nat)
    (hrepr : ∀ x, Printable (repr x)) :
    (∀ view : EventView, SequenceFits (some view.sequence) →
      (PyValue.dict view.payload).Storable repr (d + 1) →
      Framed lower (d + 2) (some view.sequence) view.name (iso.isoformat view.occurredAt) view.payload
        (replayedEvent repr iso lower view)) ∧
    ∀ event : Event, (PyValue.dict (event.payload iso)).Storable repr (d + 1) →
      Framed lower (d + 2) none event.type.name (iso.isoformat event.occurredAt) (event.payload iso)
        (liveEvent repr iso lower event) := by
  constructor
  · intro view hsequence hpayload
    exact framed_frame hrepr hsequence hpayload view.name (iso.isoformat view.occurredAt)
  · intro event hpayload
    exact framed_frame hrepr (fun _ hn => by cases hn) hpayload event.type.name (iso.isoformat event.occurredAt)

/-! ### A plan with a thought in it -/

namespace Sample

def view : EventView where
  sequence := 7
  name := "planning.completed"
  occurredAt := IsoCodec.sampleStart
  payload := [("steps", .int 2), ("detail", .dict [("thought", .str "…"), ("title", .str "a\nb")])]

def repr (_ : Binary64) : List Char := ['0', '.', '5']

theorem repr_printable : ∀ x, Printable (repr x) := fun _ => show Printable ['0', '.', '5'] by decide

theorem view_storable : (PyValue.dict view.payload).Storable repr 2 := by
  rw [storable_dict]
  refine ⟨by decide, ?_⟩
  simp only [view, List.forall_mem_cons]
  refine ⟨storable_int (by decide), ?_, List.forall_mem_nil _⟩
  rw [storable_dict]
  refine ⟨by decide, ?_⟩
  simp only [List.forall_mem_cons]
  exact ⟨storable_str _, storable_str _, List.forall_mem_nil _⟩

end Sample

theorem frames_show_sample : Framed id 3 (some 7) "planning.completed" "2026-01-01T00:00:00+00:00"
    Sample.view.payload (replayedEvent Sample.repr .sample id Sample.view) :=
  (frames_show Sample.repr .sample id 1 Sample.repr_printable).1 Sample.view
    (by rintro n ⟨rfl⟩; decide) Sample.view_storable

end AgenticPlatform.Sse
