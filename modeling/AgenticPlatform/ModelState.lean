import AgenticPlatform.JsonText

/-!
# The model on the volume

The readiness marker `model-ready.json` and the check of a snapshot against it. The marker
is JSON that anybody may have left on the volume: what cannot be read as a marker of this
version counts as absent.
-/

namespace AgenticPlatform

/-- `MARKER_VERSION`. -/
def markerVersion : Int := 2

/-- The contents of the marker, from its texts and what `vllm_image` holds; `files` gives sizes by
    name. -/
structure ModelStateOf (Text Value : Type) where
  modelId : Text
  revision : Text
  snapshotPath : Text
  preparedAt : Text
  totalBytes : Int
  files : List (Text × Int)
  verified : Bool
  version : Int
  vllmImage : Value

abbrev ModelState := ModelStateOf String PyValue

/-- Why a mapping is no marker: a missing key, a value of the wrong kind, or an exception
    that `read_marker` does not catch. -/
inductive MarkerError where
  | keyError (key : String)
  | conversion
  | uncaught (text : String)

/-- `str(value)` and `int(value)`. -/
structure Conversions where
  str : PyValue → String
  int : PyValue → Except MarkerError Int
  str_text : ∀ text, str (.str text) = text
  int_int : ∀ n, int (.int n) = .ok n

namespace ModelState

/-- An unpinned request matches any resident revision. -/
def «matches» (state : ModelState) (modelId : String) (revision : Option String) : Bool :=
  if state.modelId = modelId then revision.isNone || revision == some state.revision else false

def filesDict (files : List (String × Int)) : Mapping :=
  files.map fun file => (file.1, .int file.2)

/-- `asdict`. -/
def asDict (state : ModelState) : Mapping :=
  [("model_id", .str state.modelId), ("revision", .str state.revision),
    ("snapshot_path", .str state.snapshotPath), ("prepared_at", .str state.preparedAt),
    ("total_bytes", .int state.totalBytes), ("files", .dict (filesDict state.files)),
    ("verified", .bool state.verified), ("marker_version", .int state.version),
    ("vllm_image", state.vllmImage)]

def toJson (json : JsonCodec) (state : ModelState) : String := json.dumps state.asDict ++ "\n"

/-- `payload[key]`. -/
def field (payload : Mapping) (key : String) : Except MarkerError PyValue :=
  match List.lookup key payload with
  | some value => .ok value
  | none => .error (.keyError key)

/-- The entries of `payload.get("files")`, or none where that is no truthy value. -/
def filesOf (payload : Mapping) : Except MarkerError Mapping :=
  let value := payload.get "files" .none
  if value.truthy then
    match value with
    | .dict items => .ok items
    | _ => .error (.uncaught "AttributeError: object has no attribute 'items'")
  else .ok []

def readFiles (builtins : Conversions) : Mapping → Except MarkerError (List (String × Int))
  | [] => .ok []
  | (name, value) :: rest => do
      let size ← builtins.int value
      return (name, size) :: (← readFiles builtins rest)

def fromMapping (builtins : Conversions) (payload : Mapping) : Except MarkerError ModelState := do
  let modelId ← field payload "model_id"
  let revision ← field payload "revision"
  let snapshotPath ← field payload "snapshot_path"
  let preparedAt ← field payload "prepared_at"
  let totalBytes ← builtins.int (payload.get "total_bytes" (.int 0))
  let files ← readFiles builtins (← filesOf payload)
  let version ← builtins.int (payload.get "marker_version" (.int 0))
  return {
    modelId := builtins.str modelId
    revision := builtins.str revision
    snapshotPath := builtins.str snapshotPath
    preparedAt := builtins.str preparedAt
    totalBytes
    files
    verified := (payload.get "verified" (.bool true)).truthy
    version
    vllmImage := payload.get "vllm_image" .none }

end ModelState

/-- `read_marker`, given the text of the file if there is one. Of what `json.loads` raises it
    catches `JSONDecodeError` alone. -/
def readMarker (json : JsonCodec) (builtins : Conversions) (marker : Option String) :
    Except MarkerError (Option ModelState) :=
  match marker.map json.loads with
  | none => .ok none
  | some (.error e) => if e = jsonDecodeError then .ok none else .error (.uncaught e.str)
  | some (.ok (.dict payload)) =>
      match ModelState.fromMapping builtins payload with
      | .ok state => .ok (if state.version = markerVersion then some state else none)
      | .error (.uncaught text) => .error (.uncaught text)
      | .error _ => .ok none
  | some (.ok _) => .ok none

/-! ### The marker's round trip -/

namespace ModelState

variable {json : JsonCodec} {builtins : Conversions} {state : ModelState}

def nameLe (left right : String × Int) : Bool := decide (left.1 ≤ right.1)

/-- The state as its JSON text gives it back. -/
def canonical (state : ModelState) : ModelState :=
  { state with files := state.files.mergeSort nameLe }

theorem canonical_filesDict (files : List (String × Int)) :
    (PyValue.dict (filesDict files)).canonical = .dict (filesDict (files.mergeSort nameLe)) := by
  have hentries : canonicalEntries (filesDict files) = filesDict files := by
    rw [canonicalEntries_eq, filesDict, List.map_map]
    refine List.map_congr_left fun file _ => ?_
    rw [Function.comp_apply, PyValue.canonical_int]
  rw [PyValue.canonical_dict, Mapping.canonical, hentries, filesDict, filesDict,
    List.map_mergeSort (r := nameLe) (s := keyLe) (f := fun file : String × Int => (file.1, PyValue.int file.2))
      (fun _ _ _ _ => rfl)]

theorem readFiles_filesDict (files : List (String × Int)) :
    readFiles builtins (filesDict files) = .ok files := by
  induction files with
  | nil => rfl
  | cons file rest ih =>
    have hrest : readFiles builtins (rest.map fun file => (file.1, .int file.2)) = .ok rest := ih
    simp only [filesDict, List.map_cons, readFiles, builtins.int_int, hrest]
    rfl

theorem lookup_asDict (key : String) : List.lookup key state.asDict.canonical =
    (List.lookup key state.asDict).map PyValue.canonical :=
  Mapping.lookup_canonical (by simp [asDict]) key

theorem filesOf_asDict : filesOf state.asDict.canonical =
    .ok (filesDict (state.files.mergeSort nameLe)) := by
  have hfound : List.lookup "files" state.asDict.canonical =
      some (.dict (filesDict (state.files.mergeSort nameLe))) := by
    rw [lookup_asDict, ← canonical_filesDict]
    simp [asDict, List.lookup_cons]
  simp only [filesOf, Mapping.get, hfound, Option.getD_some, PyValue.truthy]
  split
  · rfl
  · rename_i hempty
    have hnil : filesDict (state.files.mergeSort nameLe) = [] := by simpa using hempty
    rw [hnil]

/-- What is written is read back. -/
theorem fromMapping_asDict (himage : state.vllmImage.canonical = state.vllmImage) :
    fromMapping builtins state.asDict.canonical = .ok state.canonical := by
  simp only [fromMapping, filesOf_asDict, field, Mapping.get, lookup_asDict]
  simp [asDict, List.lookup_cons, builtins.str_text, builtins.int_int, readFiles_filesDict, himage,
    canonical, PyValue.truthy, bind, Except.bind, pure, Except.pure]

end ModelState

/-- The marker that was written is the one that is read. -/
theorem readMarker_toJson {json : JsonCodec} {builtins : Conversions} {state : ModelState}
    (hjson : json.loads (state.toJson json) = .ok (.dict state.asDict.canonical))
    (himage : state.vllmImage.canonical = state.vllmImage) (hversion : state.version = markerVersion) :
    readMarker json builtins (some (state.toJson json)) = .ok (some state.canonical) := by
  have hcanonical : state.canonical.version = markerVersion := hversion
  simp only [readMarker, Option.map_some, hjson, ModelState.fromMapping_asDict himage, hcanonical,
    if_true]

/-! ### Snapshots -/

/-- What the volume answers about the directories of snapshots and the files in them; a
    file that cannot be stated has no size. Names may be links, and `place` is where the file of
    a name really is: two names of one place are one file. -/
structure Disk where
  isDir : String → Bool
  stat : String → String → Option Int
  walk : String → List String
  place : String → String → String := fun _ name => name

/-- `snapshot_files`. -/
def snapshotFiles (disk : Disk) (snapshot : String) : List (String × Int) :=
  (disk.walk snapshot).filterMap fun name => (disk.stat snapshot name).map fun size => (name, size)

/-- `_mismatches`. -/
def mismatches (disk : Disk) (snapshot : String) (expected : List (String × Int)) : List String :=
  (expected.filter fun file => disk.stat snapshot file.1 != some file.2).map Prod.fst

/-- What `verify_snapshot` asks for: the directory, and every file at its recorded size. -/
def Disk.Intact (disk : Disk) (snapshot : String) (files : List (String × Int)) : Prop :=
  disk.isDir snapshot = true ∧ ∀ file ∈ files, disk.stat snapshot file.1 = some file.2

/-- `snapshot.name`, the last part of a path. -/
def pathName (path : String) : String :=
  String.ofList (path.toList.reverse.takeWhile fun c => c ≠ '/').reverse

/-- Whatever is found in a snapshot is found there at its size. -/
theorem stat_of_mem_snapshotFiles {disk : Disk} {snapshot : String} {file : String × Int}
    (h : file ∈ snapshotFiles disk snapshot) : disk.stat snapshot file.1 = some file.2 := by
  rw [snapshotFiles, List.mem_filterMap] at h
  rcases h with ⟨name, -, hfile⟩
  rw [Option.map_eq_some_iff] at hfile
  rcases hfile with ⟨size, hsize, rfl⟩
  exact hsize

end AgenticPlatform
