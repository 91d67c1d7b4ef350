import AgenticPlatform.JsonTexts
import AgenticPlatform.ModelState
import AgenticPlatform.StandardJson
import AgenticPlatform.TextReading

/-!
# The readiness marker in bytes

`read_marker` and `write_marker` from the bytes of the file on, and which bytes stop the reader. The
texts of a state are code points, since JSON names surrogates.
-/

namespace AgenticPlatform

open Json (LoadsError loads)
open Utf8 (CodePoint)

/-! ### The file -/

namespace Utf8

/-- `path.read_text("utf-8")`, none where it raises `UnicodeDecodeError`: no code point may be
    broken. -/
def readStrict (bytes : List UInt8) : Option (List CodePoint) :=
  if (pieces bytes).all fun piece => bytesOf piece.char == piece.bytes then some (readText bytes) else none

end Utf8

/-- The characters of a text without surrogates. -/
def charsOf (text : List CodePoint) : List Char := text.map fun c => Char.ofNat c.val

/-! ### The built-in functions -/

/-- `str(value)`, none where it raises `RecursionError`, and `int(text)`, none where it raises
    `ValueError`. What `str` writes for other values names no surrogate. -/
structure MarkerBuiltins where
  str : Json → Option (List CodePoint)
  int : List CodePoint → Option Int
  str_text : ∀ text, str (.str text) = some text
  str_unpaired : ∀ value text, Json.PairFree value → str value = some text → Json.Unpaired text

namespace MarkerBuiltins

variable (builtins : MarkerBuiltins)

/-- `str(value)`. -/
def textOf (value : Json) : Except MarkerError (List CodePoint) :=
  match builtins.str value with
  | some text => .ok text
  | none => .error (.uncaught "RecursionError: maximum recursion depth exceeded")

/-- `int(value)`. -/
def intOf : Json → Except MarkerError Int
  | .int n => .ok n
  | .bool b => .ok (if b then 1 else 0)
  | .float value =>
    match value.toInt with
    | .ok n => .ok n
    | .error .value => .error .conversion
    | .error .overflow => .error (.uncaught "OverflowError: cannot convert float infinity to integer")
  | .str text => (builtins.int text).elim (.error .conversion) .ok
  | _ => .error .conversion

end MarkerBuiltins

/-! ### Reading -/

/-- A state as it is read: `vllm_image` is what the document has there. -/
abbrev ReadState := ModelStateOf (List CodePoint) Json

namespace ReadState

variable (builtins : MarkerBuiltins) (payload : List (List CodePoint × Json))

/-- `str(payload[key])`. -/
def textAt (key : String) : Except MarkerError (List CodePoint) :=
  match Json.get payload key with
  | some value => builtins.textOf value
  | none => .error (.keyError key)

/-- `int(payload.get(key, 0))`. -/
def intAt (key : String) : Except MarkerError Int := builtins.intOf ((Json.get payload key).getD (.int 0))

/-- `payload.get("files") or {}`, where it has items. -/
def filesOf : Except MarkerError (List (List CodePoint × Json)) :=
  match Json.get payload "files" with
  | none => .ok []
  | some value =>
    if value.truthy then
      match value with
      | .obj entries => .ok entries
      | _ => .error (.uncaught "AttributeError: object has no attribute 'items'")
    else .ok []

def readFiles : List (List CodePoint × Json) → Except MarkerError (List (List CodePoint × Int))
  | [] => .ok []
  | (name, value) :: rest => do
    let size ← builtins.intOf value
    return (name, size) :: (← readFiles rest)

/-- `ModelState.from_mapping`; only an object has values by name. -/
def fromMapping : Json → Except MarkerError ReadState
  | .obj payload => do
    let modelId ← textAt builtins payload "model_id"
    let revision ← textAt builtins payload "revision"
    let snapshotPath ← textAt builtins payload "snapshot_path"
    let preparedAt ← textAt builtins payload "prepared_at"
    let totalBytes ← intAt builtins payload "total_bytes"
    let entries ← filesOf payload
    let files ← readFiles builtins entries
    let version ← intAt builtins payload "marker_version"
    return {
      modelId, revision, snapshotPath, preparedAt, totalBytes, files
      verified := ((Json.get payload "verified").getD (.bool true)).truthy
      version
      vllmImage := (Json.get payload "vllm_image").getD .null }
  | _ => .error .conversion

end ReadState

/-- `read_marker`, given the bytes of the file if there is one that can be read. -/
def readMarkerBytes (builtins : MarkerBuiltins) (limit : Nat) (content : Option (List UInt8)) :
    Except MarkerError (Option ReadState) :=
  match content.bind Utf8.readStrict with
  | none => .ok none
  | some text =>
    match loads limit (charsOf text) with
    | .error .decode => .ok none
    | .error .digits => .error (.uncaught "ValueError: Exceeds the limit for integer string conversion")
    | .error .recursion => .error (.uncaught "RecursionError: maximum recursion depth exceeded")
    | .ok document =>
      match ReadState.fromMapping builtins document with
      | .ok state => .ok (if state.version = markerVersion then some state else none)
      | .error (.uncaught text) => .error (.uncaught text)
      | .error _ => .ok none

/-! ### Writing -/

/-- `json.dumps(document, indent=2) + "\n"`, where no double is to be written. -/
def markerText (document : Json) : String :=
  String.ofList (Json.write (Json.indented 2) (fun _ => []) 0 document ++ ['\n'])

/-- A state as the code makes it: `vllm_image` is a text or `None`. -/
abbrev WrittenState := ModelStateOf (List CodePoint) (Option (List CodePoint))

namespace WrittenState

variable (state : WrittenState)

/-- `sort_keys=True`. -/
def sorted {α : Type} (entries : List (List CodePoint × α)) : List (List CodePoint × α) :=
  entries.mergeSort fun left right => decide (left.1 ≤ right.1)

/-- `asdict`. -/
def asDict : List (String × Json) :=
  [("model_id", .str state.modelId), ("revision", .str state.revision),
    ("snapshot_path", .str state.snapshotPath), ("prepared_at", .str state.preparedAt),
    ("total_bytes", .int state.totalBytes),
    ("files", .obj (sorted (state.files.map fun file => (file.1, .int file.2)))),
    ("verified", .bool state.verified), ("marker_version", .int state.version),
    ("vllm_image", state.vllmImage.elim .null .str)]

/-- The document that `json.dumps` writes. -/
def document : Json := .obj (sorted (state.asDict.map fun entry => (Json.key entry.1, entry.2)))

/-- Every number has few enough digits for `json.dumps`. -/
def Numbered : Prop :=
  FewDigits state.totalBytes ∧ FewDigits state.version ∧ ∀ file ∈ state.files, FewDigits file.2

instance : Decidable state.Numbered := inferInstanceAs (Decidable (_ ∧ _ ∧ _))

/-- `to_json`, none where `json.dumps` raises `ValueError`. -/
def toJson : Option String := if state.Numbered then some (markerText state.document) else none

/-- The bytes that `write_marker` leaves in the file. -/
def toBytes : Option (List UInt8) := state.toJson.bind fun text => Utf8.encode (Utf8.codePoints text)

/-- The state as it is read back: the same sizes, in the order of their names. -/
def asRead : ReadState :=
  { state with files := sorted state.files, vllmImage := state.vllmImage.elim .null .str }

end WrittenState

/-! ### What stops the reader -/

/-- How reading a part of the marker ends: with a value, with an error that `read_marker` catches, or
    with another one. -/
inductive Reading where
  | taken
  | refused
  | raised
deriving DecidableEq

/-- The first part that gives no value decides. -/
def firstTrouble : List Reading → Reading
  | [] => .taken
  | .taken :: rest => firstTrouble rest
  | reading :: _ => reading

namespace Reading

variable (builtins : MarkerBuiltins) (payload : List (List CodePoint × Json))

/-- A text has to be there, and `str` must not run out of stack. -/
def ofText : Option Json → Reading
  | some value => if (builtins.str value).isSome then .taken else .raised
  | none => .refused

/-- A number must not be infinite, and has to be one. -/
def ofNumber : Json → Reading
  | .int _ | .bool _ => .taken
  | .float (.finite _ _) => .taken
  | .float (.infinite _) => .raised
  | .float .nan => .refused
  | .str text => if (builtins.int text).isSome then .taken else .refused
  | _ => .refused

/-- `files` is nothing, or an object of numbers. -/
def ofFiles : Option Json → List Reading
  | some (.obj entries) => entries.map fun entry => ofNumber builtins entry.2
  | some value => if value.truthy then [.raised] else []
  | none => []

/-- The parts of the marker in the order in which they are read. -/
def parts : List Reading :=
  (["model_id", "revision", "snapshot_path", "prepared_at"].map fun key =>
      ofText builtins (Json.get payload key)) ++
    ofNumber builtins ((Json.get payload "total_bytes").getD (.int 0)) ::
      (ofFiles builtins (Json.get payload "files") ++
        [ofNumber builtins ((Json.get payload "marker_version").getD (.int 0))])

/-- How a step of the reader ended. -/
def ofStep {α : Type} : Except MarkerError α → Reading
  | .ok _ => .taken
  | .error (.uncaught _) => .raised
  | .error _ => .refused

end Reading

/-- The document stops the boot: it is an object, and the first of its parts that gives no value is
    one that raises what is not caught. -/
def Stumbles (builtins : MarkerBuiltins) (document : Json) : Prop :=
  ∃ payload, document = .obj payload ∧ firstTrouble (Reading.parts builtins payload) = .raised

/-- What the file may hold: nothing that is decoded, or a document of few digits and few brackets
    around each other whose parts can be taken, or are refused. -/
def Tame (builtins : MarkerBuiltins) (limit : Nat) (content : Option (List UInt8)) : Prop :=
  ∀ text, content.bind Utf8.readStrict = some text →
    loads limit (charsOf text) ≠ .error .digits ∧ loads limit (charsOf text) ≠ .error .recursion ∧
      ∀ document, loads limit (charsOf text) = .ok document → ¬ Stumbles builtins document

section Totality

variable {α β : Type} {builtins : MarkerBuiltins} {payload : List (List CodePoint × Json)} {limit : Nat}
  {content : Option (List UInt8)} {first rest : List Reading}

open Reading

theorem firstTrouble_append (first rest : List Reading) : firstTrouble (first ++ rest) =
    if firstTrouble first = .taken then firstTrouble rest else firstTrouble first := by
  induction first with
  | nil => rfl
  | cons reading first ih =>
    cases reading with
    | taken => exact ih
    | refused => rfl
    | raised => rfl

/-- Steps one after the other end as the first that gives no value. -/
theorem ofStep_bind {x : Except MarkerError α} {f : α → Except MarkerError β} (hx : ofStep x = firstTrouble first)
    (hf : ∀ a, ofStep (f a) = firstTrouble rest) : ofStep (x >>= f) = firstTrouble (first ++ rest) := by
  rw [firstTrouble_append, ← hx]
  cases x with
  | ok a => exact hf a
  | error error => cases error <;> rfl

theorem ofStep_textAt (key : String) :
    ofStep (ReadState.textAt builtins payload key) = firstTrouble [ofText builtins (Json.get payload key)] := by
  rw [ReadState.textAt]
  cases Json.get payload key with
  | none => rfl
  | some value =>
    simp only [MarkerBuiltins.textOf, ofText]
    cases builtins.str value with
    | none => rfl
    | some text => rfl

theorem ofStep_intOf (value : Json) : ofStep (builtins.intOf value) = ofNumber builtins value := by
  cases value with
  | float x => cases x <;> rfl
  | str text =>
    simp only [MarkerBuiltins.intOf, ofNumber]
    cases builtins.int text with
    | none => rfl
    | some n => rfl
  | null | bool | int | arr | obj => rfl

theorem firstTrouble_singleton (reading : Reading) : firstTrouble [reading] = reading := by
  cases reading <;> rfl

theorem ofStep_readFiles (entries : List (List CodePoint × Json)) :
    ofStep (ReadState.readFiles builtins entries) =
      firstTrouble (entries.map fun entry => ofNumber builtins entry.2) := by
  induction entries with
  | nil => rfl
  | cons entry entries ih =>
    obtain ⟨name, value⟩ := entry
    rw [ReadState.readFiles, List.map_cons, ← List.singleton_append]
    refine ofStep_bind ((ofStep_intOf value).trans (firstTrouble_singleton _).symm) fun size => ?_
    rw [← List.append_nil (entries.map _)]
    exact ofStep_bind ih fun files => rfl

theorem ofStep_files {f : List (List CodePoint × Int) → Except MarkerError β}
    (hf : ∀ files, ofStep (f files) = firstTrouble rest) :
    ofStep (ReadState.filesOf payload >>= fun entries => ReadState.readFiles builtins entries >>= f) =
      firstTrouble (ofFiles builtins (Json.get payload "files") ++ rest) := by
  have hentries : ∀ entries, ofStep (ReadState.readFiles builtins entries >>= f) =
      firstTrouble ((entries.map fun entry => ofNumber builtins entry.2) ++ rest) :=
    fun entries => ofStep_bind (ofStep_readFiles entries) hf
  have hnothing : ofStep (ReadState.readFiles builtins [] >>= f) = firstTrouble ([] ++ rest) := hentries []
  -- A value that is no object is none at all, or it has no items.
  have hother : ∀ value : Json, (∀ entries, value ≠ .obj entries) →
      ofStep ((if value.truthy then
          match value with
          | .obj entries => .ok entries
          | _ => .error (.uncaught "AttributeError: object has no attribute 'items'")
        else .ok []) >>= fun entries => ReadState.readFiles builtins entries >>= f) =
        firstTrouble ((if value.truthy then [.raised] else []) ++ rest) := by
    intro value hvalue
    split
    · cases value with
      | obj entries => exact absurd rfl (hvalue entries)
      | null | bool | int | float | str | arr => rfl
    · exact hnothing
  rw [ReadState.filesOf]
  cases Json.get payload "files" with
  | none => exact hnothing
  | some value =>
    cases value with
    | obj entries =>
      cases entries with
      | nil => exact hnothing
      | cons entry entries => exact hentries (entry :: entries)
    | null => exact hother .null nofun
    | bool b => exact hother (.bool b) nofun
    | int n => exact hother (.int n) nofun
    | float x => exact hother (.float x) nofun
    | str text => exact hother (.str text) nofun
    | arr items => exact hother (.arr items) nofun

/-- **The reader ends as the first part of the marker that gives no value.** -/
theorem ofStep_fromMapping (payload : List (List CodePoint × Json)) :
    ofStep (ReadState.fromMapping builtins (.obj payload)) = firstTrouble (parts builtins payload) := by
  have hnumber : ∀ key, ofStep (ReadState.intAt builtins payload key) =
      firstTrouble [ofNumber builtins ((Json.get payload key).getD (.int 0))] :=
    fun key => (ofStep_intOf _).trans (firstTrouble_singleton _).symm
  have hparts : parts builtins payload =
      [ofText builtins (Json.get payload "model_id")] ++ ([ofText builtins (Json.get payload "revision")] ++
        ([ofText builtins (Json.get payload "snapshot_path")] ++ ([ofText builtins (Json.get payload "prepared_at")] ++
          ([ofNumber builtins ((Json.get payload "total_bytes").getD (.int 0))] ++
            (ofFiles builtins (Json.get payload "files") ++
              ([ofNumber builtins ((Json.get payload "marker_version").getD (.int 0))] ++ [])))))) := rfl
  rw [hparts, ReadState.fromMapping]
  refine ofStep_bind (ofStep_textAt "model_id") fun modelId => ?_
  refine ofStep_bind (ofStep_textAt "revision") fun revision => ?_
  refine ofStep_bind (ofStep_textAt "snapshot_path") fun snapshotPath => ?_
  refine ofStep_bind (ofStep_textAt "prepared_at") fun preparedAt => ?_
  refine ofStep_bind (hnumber "total_bytes") fun totalBytes => ?_
  refine ofStep_files fun files => ?_
  exact ofStep_bind (hnumber "marker_version") fun version => rfl

theorem raised_iff (document : Json) :
    ofStep (ReadState.fromMapping builtins document) = .raised ↔ Stumbles builtins document := by
  cases document with
  | obj payload =>
    rw [ofStep_fromMapping]
    constructor
    · exact fun hraised => ⟨payload, rfl, hraised⟩
    · rintro ⟨other, heq, hraised⟩
      cases heq
      exact hraised
  | null | bool | int | float | str | arr =>
    refine iff_of_false nofun ?_
    rintro ⟨payload, heq, -⟩
    cases heq

/-- **The reader raises nothing for what the file may hold**, and raises for everything else. -/
theorem readMarkerBytes_iff (builtins : MarkerBuiltins) (limit : Nat) (content : Option (List UInt8)) :
    (∃ found, readMarkerBytes builtins limit content = .ok found) ↔ Tame builtins limit content := by
  rw [readMarkerBytes, Tame]
  cases hread : content.bind Utf8.readStrict with
  | none => exact iff_of_true ⟨none, rfl⟩ nofun
  | some text =>
    have hsome : ∀ {P : List CodePoint → Prop}, (∀ other, some text = some other → P other) ↔ P text := by
      intro P
      exact ⟨fun h => h text rfl, by rintro h other ⟨⟩; exact h⟩
    rw [hsome]
    dsimp only
    cases hloads : loads limit (charsOf text) with
    | error error =>
      cases error with
      | decode => exact iff_of_true ⟨none, rfl⟩ ⟨nofun, nofun, nofun⟩
      | digits => exact iff_of_false nofun fun h => h.1 rfl
      | recursion => exact iff_of_false nofun fun h => h.2.1 rfl
    | ok document =>
      have hstumbles := @raised_iff builtins document
      have hdocument : ((.ok document : Except LoadsError Json) ≠ .error .digits ∧
          (.ok document : Except LoadsError Json) ≠ .error .recursion ∧
          ∀ other, (.ok document : Except LoadsError Json) = .ok other → ¬ Stumbles builtins other) ↔
            ¬ Stumbles builtins document := by
        constructor
        · exact fun h => h.2.2 document rfl
        · refine fun h => ⟨nofun, nofun, ?_⟩
          rintro other ⟨⟩
          exact h
      rw [hdocument, ← hstumbles]
      dsimp only
      cases ReadState.fromMapping builtins document with
      | ok state => exact iff_of_true ⟨_, rfl⟩ nofun
      | error error =>
        cases error with
        | uncaught text => exact iff_of_false nofun fun h => h rfl
        | keyError key => exact iff_of_true ⟨none, rfl⟩ nofun
        | conversion => exact iff_of_true ⟨none, rfl⟩ nofun

end Totality

/-! ### A file of characters -/

/-- A text without carriage returns is read as it was encoded. -/
theorem Utf8.readStrict_codePoints {text : String} {bytes : List UInt8} (hreturn : '\r' ∉ text.toList)
    (h : Utf8.encode (codePoints text) = some bytes) : Utf8.readStrict bytes = some (codePoints text) := by
  obtain ⟨hencoding, rfl⟩ := Utf8.encode_eq_some.mp h
  have hplain : Utf8.carriageReturn ∉ codePoints text := by
    rw [codePoints, List.mem_map]
    rintro ⟨c, hc, heq⟩
    have hvalue := congrArg Fin.val heq
    rw [Utf8.val_ofNat_toNat] at hvalue
    have hchar : c = '\r' := Char.toNat_inj.mp hvalue
    exact hreturn (hchar ▸ hc)
  have hpieces := @Utf8.pieces_encoded _ [] hencoding
  have htext := Utf8.textPieces_encoded hencoding hplain []
  rw [List.append_nil] at hpieces htext
  have hwhole : (Utf8.pieces ((codePoints text).flatMap Utf8.bytesOf)).all
      (fun piece => Utf8.bytesOf piece.char == piece.bytes) = true := by
    rw [hpieces, List.all_eq_true]
    intro piece hpiece
    rw [Utf8.pieces, Utf8.piecesFrom, List.append_nil] at hpiece
    rw [beq_iff_eq, (Utf8.whole_pieceOf hencoding piece hpiece).bytes_eq]
  rw [Utf8.readStrict, if_pos hwhole, Utf8.readText, htext, List.map_append, List.map_map]
  simp [Function.comp_def, Utf8.pieceOf, Utf8.textPieces, Utf8.pieces, Utf8.piecesFrom, Utf8.newlines]

theorem charsOf_codePoints (text : String) : charsOf (Utf8.codePoints text) = text.toList := by
  rw [charsOf, Utf8.codePoints, List.map_map]
  refine List.map_congr_left (g := id) ?_ |>.trans (List.map_id text.toList)
  intro c _
  rw [Function.comp_apply, Utf8.val_ofNat_toNat, Char.ofNat_toNat]
  rfl

/-! ### The texts of the marker

Where no surrogate and no infinite number is met, `readMarker` reads the same from the text. -/

/-- The built-in functions of the texts are those of the code points. -/
structure MarkerBuiltins.Extend (builtins : MarkerBuiltins) (conversions : Conversions) : Prop where
  str : ∀ value : PyValue, builtins.str value.toJson = some (Utf8.codePoints (conversions.str value))
  int : ∀ value : PyValue, builtins.intOf value.toJson = conversions.int value

/-- A state, with its texts as code points. -/
def ModelState.asFound (state : ModelState) : ReadState where
  modelId := Utf8.codePoints state.modelId
  revision := Utf8.codePoints state.revision
  snapshotPath := Utf8.codePoints state.snapshotPath
  preparedAt := Utf8.codePoints state.preparedAt
  totalBytes := state.totalBytes
  files := state.files.map fun file => (Utf8.codePoints file.1, file.2)
  verified := state.verified
  version := state.version
  vllmImage := state.vllmImage.toJson

section Texts

variable {α β γ δ : Type} {builtins : MarkerBuiltins} {conversions : Conversions} {payload : Mapping} {limit : Nat}

theorem bind_mapped {x : Except MarkerError α} {f : α → β} {g : α → Except MarkerError γ} {h : γ → δ}
    {g' : β → Except MarkerError δ} (hstep : ∀ a, g' (f a) = (g a).map h) : x.map f >>= g' = (x >>= g).map h := by
  cases x with
  | error error => rfl
  | ok a => exact hstep a

theorem bind_kept {x : Except MarkerError α} {g : α → Except MarkerError γ} {h : γ → δ}
    {g' : α → Except MarkerError δ} (hstep : ∀ a, g' a = (g a).map h) : x >>= g' = (x >>= g).map h := by
  cases x with
  | error error => rfl
  | ok a => exact hstep a

theorem PyValue.truthy_toJson (value : PyValue) : value.toJson.truthy = value.truthy := by
  cases value with
  | none | bool | int => rw [toJson]; rfl
  | float mantissa exponent =>
    rw [toJson, Bool.eq_iff_iff]
    simp [Json.truthy, truthy]
  | str text =>
    rw [toJson, Bool.eq_iff_iff]
    simp [Json.truthy, truthy, Utf8.codePoints]
  | list items =>
    rw [toJson]
    cases items <;> rfl
  | dict items =>
    rw [toJson]
    rcases items with - | ⟨⟨key, value⟩, rest⟩ <;> rfl

/-- A key stands for its name. -/
theorem get_keys (f : α → Json) (entries : List (String × α)) (name : String) :
    Json.get (entries.map fun entry => (Json.key entry.1, f entry.2)) name = (List.lookup name entries).map f := by
  rw [Json.get]
  induction entries with
  | nil => rfl
  | cons entry entries ih =>
    obtain ⟨key, value⟩ := entry
    have hsame : (Json.key name == Json.key key) = (name == key) := by
      rw [Bool.eq_iff_iff, beq_iff_eq, beq_iff_eq]
      exact codePoints_injective.eq_iff
    rw [List.map_cons, List.lookup_cons, List.lookup_cons, hsame, ih]
    cases name == key <;> rfl

theorem get_entriesToJson (payload : Mapping) (name : String) :
    Json.get (entriesToJson payload) name = (List.lookup name payload).map PyValue.toJson := by
  rw [entriesToJson_eq]
  exact get_keys PyValue.toJson payload name

theorem textAt_toJson (h : builtins.Extend conversions) (key : String) :
    ReadState.textAt builtins (entriesToJson payload) key =
      (ModelState.field payload key).map fun value => Utf8.codePoints (conversions.str value) := by
  rw [ReadState.textAt, ModelState.field, get_entriesToJson]
  cases List.lookup key payload with
  | none => rfl
  | some value =>
    simp only [Option.map_some, MarkerBuiltins.textOf, h.str]
    rfl

theorem intAt_toJson (h : builtins.Extend conversions) (key : String) :
    ReadState.intAt builtins (entriesToJson payload) key = conversions.int (payload.get key (.int 0)) := by
  rw [ReadState.intAt, get_entriesToJson, ← h.int, Mapping.get]
  cases List.lookup key payload with
  | none => rw [Option.map_none, Option.getD_none, Option.getD_none, PyValue.toJson]
  | some value => rfl

theorem filesOf_toJson (payload : Mapping) :
    ReadState.filesOf (entriesToJson payload) = (ModelState.filesOf payload).map entriesToJson := by
  rw [ReadState.filesOf, ModelState.filesOf, get_entriesToJson, Mapping.get]
  cases List.lookup "files" payload with
  | none => rfl
  | some value =>
    simp only [Option.map_some, Option.getD_some, PyValue.truthy_toJson]
    split
    · cases value with
      | none | bool | int | float | str | list | dict => rw [PyValue.toJson]; rfl
    · rfl

theorem readFiles_toJson (h : builtins.Extend conversions) (entries : Mapping) :
    ReadState.readFiles builtins (entriesToJson entries) =
      (ModelState.readFiles conversions entries).map (List.map fun file => (Utf8.codePoints file.1, file.2)) := by
  induction entries with
  | nil => rfl
  | cons entry entries ih =>
    obtain ⟨name, value⟩ := entry
    rw [entriesToJson, ReadState.readFiles, ModelState.readFiles, h.int, ih]
    cases conversions.int value with
    | error error => rfl
    | ok size =>
      cases ModelState.readFiles conversions entries with
      | error error => rfl
      | ok files => rfl

/-- **The same mapping is the same state.** -/
theorem fromMapping_toJson (h : builtins.Extend conversions) (payload : Mapping) :
    ReadState.fromMapping builtins (.obj (entriesToJson payload)) =
      (ModelState.fromMapping conversions payload).map ModelState.asFound := by
  have hverified : ((Json.get (entriesToJson payload) "verified").getD (.bool true)).truthy =
      (payload.get "verified" (.bool true)).truthy := by
    rw [get_entriesToJson, Mapping.get, ← PyValue.truthy_toJson]
    cases List.lookup "verified" payload with
    | none => rfl
    | some value => rfl
  have himage : (Json.get (entriesToJson payload) "vllm_image").getD .null =
      (payload.get "vllm_image" .none).toJson := by
    rw [get_entriesToJson, Mapping.get]
    cases List.lookup "vllm_image" payload with
    | none => rfl
    | some value => rfl
  rw [ReadState.fromMapping, ModelState.fromMapping, hverified, himage, filesOf_toJson]
  simp only [textAt_toJson h, intAt_toJson h]
  refine bind_mapped fun modelId => ?_
  refine bind_mapped fun revision => ?_
  refine bind_mapped fun snapshotPath => ?_
  refine bind_mapped fun preparedAt => ?_
  refine bind_kept fun totalBytes => ?_
  refine bind_mapped fun entries => ?_
  rw [readFiles_toJson h]
  refine bind_mapped fun files => ?_
  exact bind_kept fun version => rfl

/-- A state that can be written, with the image it is for. -/
def ModelState.asWritten (state : ModelState) (image : Option String) : WrittenState where
  modelId := Utf8.codePoints state.modelId
  revision := Utf8.codePoints state.revision
  snapshotPath := Utf8.codePoints state.snapshotPath
  preparedAt := Utf8.codePoints state.preparedAt
  totalBytes := state.totalBytes
  files := state.files.map fun file => (Utf8.codePoints file.1, file.2)
  verified := state.verified
  version := state.version
  vllmImage := image.map Utf8.codePoints

/-- Texts are sorted as their code points are. -/
theorem codePoints_le {left right : String} : Utf8.codePoints left ≤ Utf8.codePoints right ↔ left ≤ right := by
  have hmono : ∀ {left right : String}, left < right → Utf8.codePoints left < Utf8.codePoints right := by
    intro left right h
    refine List.map_lt ?_ (String.lt_iff.mp h)
    intro c d hcd
    rw [Fin.lt_def, Utf8.val_ofNat_toNat, Utf8.val_ofNat_toNat]
    exact hcd
  constructor
  · intro h
    by_contra hle
    exact absurd (hmono (not_le.mp hle)) (not_lt.mpr h)
  · intro h
    rcases h.eq_or_lt with rfl | hlt
    · exact le_refl _
    · exact (hmono hlt).le

theorem entriesToJson_canonical (mapping : Mapping) :
    entriesToJson mapping.canonical =
      WrittenState.sorted (mapping.map fun entry => (Utf8.codePoints entry.1, entry.2.canonical.toJson)) := by
  have hsorted : ((canonicalEntries mapping).mergeSort keyLe).map
      (fun entry => (Utf8.codePoints entry.1, entry.2.toJson)) =
        WrittenState.sorted ((canonicalEntries mapping).map fun entry => (Utf8.codePoints entry.1, entry.2.toJson)) :=
    List.map_mergeSort fun _ _ _ _ => decide_eq_decide.mpr codePoints_le.symm
  rw [entriesToJson_eq, Mapping.canonical, hsorted, canonicalEntries_eq, List.map_map]
  rfl

/-- **The text that is written is that of `ModelState.toJson`.** -/
theorem toJson_asWritten {state : ModelState} {image : Option String} (himage : state.vllmImage = .ofText image)
    (hnumbers : (state.asWritten image).Numbered) :
    (state.asWritten image).toJson =
      some (state.toJson (standardJson (Json.indented 2) (fun _ => []) limit)) := by
  have hfiles : (PyValue.dict (ModelState.filesDict state.files)).canonical.toJson =
      .obj (WrittenState.sorted ((state.asWritten image).files.map fun file => (file.1, .int file.2))) := by
    rw [PyValue.canonical_dict, PyValue.toJson, entriesToJson_canonical, ModelState.filesDict, List.map_map,
      ModelState.asWritten, List.map_map]
    simp [Function.comp_def, PyValue.toJson]
  have hvllmImage : (PyValue.ofText image).toJson = (image.map Utf8.codePoints).elim .null .str := by
    cases image <;> simp [PyValue.ofText, PyValue.toJson]
  have hdocument : (PyValue.dict state.asDict.canonical).toJson = (state.asWritten image).document := by
    rw [PyValue.toJson, entriesToJson_canonical, WrittenState.document, WrittenState.asDict, ← hfiles]
    simp [ModelState.asDict, himage, PyValue.toJson, hvllmImage, ModelState.asWritten, Json.key]
  have hdumps : (standardJson (Json.indented 2) (fun _ => []) limit).dumps state.asDict =
      String.ofList (Json.write (Json.indented 2) (fun _ => []) 0 (state.asWritten image).document) := by
    rw [← hdocument]
    rfl
  rw [WrittenState.toJson, if_pos hnumbers, ModelState.toJson, hdumps, markerText, String.ofList_append]

/-- **What is found in the bytes of a text is what `readMarker` finds in the text.** -/
theorem readMarkerBytes_text (h : builtins.Extend conversions) (layout : Json.Layout) (repr : Binary64 → List Char)
    {text : String} (hreturn : '\r' ∉ text.toList) {value : PyValue}
    (hloads : loads limit text.toList = .ok value.toJson) :
    readMarkerBytes builtins limit (Utf8.encode (Utf8.codePoints text)) =
      (readMarker (standardJson layout repr limit) conversions (some text)).map (Option.map ModelState.asFound) := by
  have hencode := Utf8.encode_eq_some.mpr ⟨Utf8.hasEncoding_codePoints text, rfl⟩
  have hread : (Utf8.encode (Utf8.codePoints text)).bind Utf8.readStrict = some (Utf8.codePoints text) := by
    rw [hencode, Option.bind_some]
    exact Utf8.readStrict_codePoints hreturn hencode
  rw [readMarkerBytes, hread]
  simp only [charsOf_codePoints, hloads, readMarker, Option.map_some, standardJson, loadedValue, PyValue.ofJson_toJson]
  cases value with
  | dict payload =>
    simp only [PyValue.toJson, fromMapping_toJson h]
    cases ModelState.fromMapping conversions payload with
    | ok state =>
      simp only [Except.map, ModelState.asFound]
      split <;> rfl
    | error error => cases error <;> rfl
  | none | bool | int | float | str | list => rw [PyValue.toJson]; rfl

end Texts

end AgenticPlatform
