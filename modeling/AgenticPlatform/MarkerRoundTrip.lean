import AgenticPlatform.MarkerBytes

/-!
# The readiness marker, written and read back

Every state of this version: what comes back of it, and what does not.
-/

namespace AgenticPlatform

open Json (loads)
open Utf8 (CodePoint)

/-! ### What is written is read back -/

namespace WrittenState

variable {builtins : MarkerBuiltins} {limit : Nat} {state : WrittenState} {α β : Type}

/-- No text of the state has a surrogate pair. -/
def PairFree (state : WrittenState) : Prop :=
  (∀ text ∈ [state.modelId, state.revision, state.snapshotPath, state.preparedAt], Json.Unpaired text) ∧
    (∀ text ∈ state.vllmImage, Json.Unpaired text) ∧ ∀ file ∈ state.files, Json.Unpaired file.1

theorem sorted_perm (entries : List (List CodePoint × α)) : (sorted entries).Perm entries :=
  List.mergeSort_perm _ _

theorem mem_sorted {entries : List (List CodePoint × α)} {entry : List CodePoint × α} :
    entry ∈ sorted entries ↔ entry ∈ entries :=
  (sorted_perm entries).mem_iff

theorem nodup_sorted {entries : List (List CodePoint × α)} (h : (entries.map Prod.fst).Nodup) :
    ((sorted entries).map Prod.fst).Nodup :=
  (((sorted_perm entries).map Prod.fst).nodup_iff).mpr h

theorem sorted_map (f : α → β) (entries : List (List CodePoint × α)) :
    sorted (entries.map fun entry => (entry.1, f entry.2)) = (sorted entries).map fun entry => (entry.1, f entry.2) :=
  (List.map_mergeSort (f := fun entry : List CodePoint × α => (entry.1, f entry.2)) fun _ _ _ _ => rfl).symm

/-- Where the value of a name stands does not matter. -/
theorem get_document (name : String) {entries : List (String × Json)} (h : (entries.map Prod.fst).Nodup) :
    Json.get (sorted (entries.map fun entry => (Json.key entry.1, entry.2))) name = List.lookup name entries := by
  have hkeys : ((entries.map fun entry => (Json.key entry.1, entry.2)).map Prod.fst).Nodup := by
    have hmap := (List.nodup_map_iff codePoints_injective).mpr h
    rw [List.map_map] at hmap ⊢
    exact hmap
  rw [Json.get, lookup_perm (sorted_perm _) (nodup_sorted hkeys)]
  exact (get_keys id entries name).trans (Option.map_id_apply)

/-! The text has line feeds alone. -/

theorem returnless_newLine (n : Nat) : '\r' ∉ Json.newLine n := by
  rw [Json.newLine, List.mem_cons, List.mem_replicate]
  rintro (h | h)
  · revert h
    decide
  · exact absurd h.2 (by decide)

theorem returnless_pieces : Json.Pieces (Json.indented 2) (fun _ => []) ('\r' ∉ ·) where
  append hfront hback hmem := (List.mem_append.mp hmem).elim hfront hback
  sign := by
    intro c hc
    rw [List.mem_singleton]
    rintro rfl
    revert hc
    decide
  opening _ := returnless_newLine _
  between _ := returnless_newLine _
  closing _ := returnless_newLine _
  colon := by decide
  word := by
    intro word hword
    simp only [Json.words, List.mem_cons, List.not_mem_nil, or_false] at hword
    rcases hword with rfl | rfl | rfl | rfl | rfl | rfl <;> decide
  int n hmem := absurd (Json.printable_writeInt n _ hmem).1 (by decide)
  float _ := List.not_mem_nil
  text text hmem := absurd (Json.printable_writeText text _ hmem).1 (by decide)

theorem asDict_nodup (state : WrittenState) : (state.asDict.map Prod.fst).Nodup := by
  have hnames : state.asDict.map Prod.fst = ["model_id", "revision", "snapshot_path", "prepared_at", "total_bytes",
      "files", "verified", "marker_version", "vllm_image"] := rfl
  rw [hnames]
  decide

/-- The sizes in the document. -/
theorem files_writable (hnames : (state.files.map Prod.fst).Nodup) (hnumbers : state.Numbered)
    (hpairs : state.PairFree) :
    Json.Writable (fun _ => []) (.obj (sorted (state.files.map fun file => (file.1, .int file.2)))) ∧
      Json.depth (.obj (sorted (state.files.map fun file => (file.1, .int file.2)))) ≤ 1 := by
  have hmem : ∀ {P : List CodePoint × Json → Prop}, (∀ file ∈ state.files, P (file.1, .int file.2)) →
      ∀ entry ∈ sorted (state.files.map fun file => (file.1, Json.int file.2)), P entry := by
    intro P h entry hentry
    obtain ⟨file, hfile, rfl⟩ := List.mem_map.mp (mem_sorted.mp hentry)
    exact h file hfile
  have hkeys : ((state.files.map fun file => (file.1, Json.int file.2)).map Prod.fst).Nodup := by
    rw [List.map_map]
    exact hnames
  constructor
  · rw [Json.Writable, Json.writableEntries_iff]
    refine ⟨nodup_sorted hkeys, hmem fun file hfile => ⟨hpairs.2.2 file hfile, ?_⟩⟩
    rw [Json.Writable]
    exact hnumbers.2.2 file hfile
  · rw [Json.depth, Nat.add_le_add_iff_right, Json.depthEntries_le]
    refine hmem fun file _ => ?_
    simp [Json.depth]

theorem document_writable (hnames : (state.files.map Prod.fst).Nodup) (hnumbers : state.Numbered)
    (hpairs : state.PairFree) : Json.Writable (fun _ => []) state.document ∧ Json.depth state.document ≤ 2 := by
  obtain ⟨hfiles, hdepth⟩ := files_writable hnames hnumbers hpairs
  have htext : ∀ {text}, text ∈ [state.modelId, state.revision, state.snapshotPath, state.preparedAt] →
      Json.Writable (fun _ => []) (.str text) ∧ Json.depth (.str text) ≤ 1 := by
    intro text hmem
    simp only [Json.Writable, Json.depth]
    exact ⟨hpairs.1 text hmem, Nat.zero_le 1⟩
  have hnumber : ∀ {n}, FewDigits n → Json.Writable (fun _ => []) (.int n) ∧ Json.depth (.int n) ≤ 1 := by
    intro n hn
    simp only [Json.Writable, Json.depth]
    exact ⟨hn, Nat.zero_le 1⟩
  have himage : Json.Writable (fun _ => []) (state.vllmImage.elim .null .str) ∧
      Json.depth (state.vllmImage.elim .null .str) ≤ 1 := by
    cases himage : state.vllmImage with
    | none => simp [Json.Writable, Json.depth]
    | some text =>
      simp only [Option.elim_some, Json.Writable, Json.depth]
      exact ⟨hpairs.2.1 text himage, Nat.zero_le 1⟩
  have hentries : ∀ entry ∈ state.asDict, Json.Writable (fun _ => []) entry.2 ∧ Json.depth entry.2 ≤ 1 := by
    simp only [asDict, List.forall_mem_cons]
    exact ⟨htext (by simp), htext (by simp), htext (by simp), htext (by simp), hnumber hnumbers.1, ⟨hfiles, hdepth⟩,
      by simp [Json.Writable, Json.depth], hnumber hnumbers.2.1, himage, List.forall_mem_nil _⟩
  have hmem : ∀ {P : List CodePoint × Json → Prop}, (∀ entry ∈ state.asDict, P (Json.key entry.1, entry.2)) →
      ∀ entry ∈ sorted (state.asDict.map fun entry => (Json.key entry.1, entry.2)), P entry := by
    intro P h entry hentry
    obtain ⟨named, hnamed, rfl⟩ := List.mem_map.mp (mem_sorted.mp hentry)
    exact h named hnamed
  have hkeys : ((state.asDict.map fun entry => (Json.key entry.1, entry.2)).map Prod.fst).Nodup := by
    have hmap := (List.nodup_map_iff codePoints_injective).mpr state.asDict_nodup
    rw [List.map_map] at hmap ⊢
    exact hmap
  constructor
  · rw [document, Json.Writable, Json.writableEntries_iff]
    exact ⟨nodup_sorted hkeys, hmem fun entry hentry => ⟨unpaired_codePoints entry.1, (hentries entry hentry).1⟩⟩
  · rw [document, Json.depth, Nat.add_le_add_iff_right, Json.depthEntries_le]
    exact hmem fun entry hentry => (hentries entry hentry).2

theorem readFiles_ints (files : List (List CodePoint × Int)) :
    ReadState.readFiles builtins (files.map fun file => (file.1, .int file.2)) = .ok files := by
  induction files with
  | nil => rfl
  | cons file files ih =>
    obtain ⟨name, size⟩ := file
    rw [List.map_cons, ReadState.readFiles, ih]
    rfl

theorem filesOf_document :
    ReadState.filesOf (sorted (state.asDict.map fun entry => (Json.key entry.1, entry.2))) =
      .ok (sorted (state.files.map fun file => (file.1, .int file.2))) := by
  have hfound : List.lookup "files" state.asDict =
      some (.obj (sorted (state.files.map fun file => (file.1, .int file.2)))) := by
    simp [asDict, List.lookup_cons]
  rw [ReadState.filesOf, get_document "files" state.asDict_nodup, hfound]
  cases hsorted : sorted (state.files.map fun file => (file.1, Json.int file.2)) with
  | nil => rfl
  | cons entry entries => rfl

/-- What stands in the document is what the state has. -/
theorem fromMapping_document : ReadState.fromMapping builtins state.document = .ok state.asRead := by
  have hget := fun name => get_document name state.asDict_nodup
  have hread : ReadState.readFiles builtins (sorted (state.files.map fun file => (file.1, .int file.2))) =
      .ok (sorted state.files) := by
    rw [sorted_map, readFiles_ints]
  rw [document, ReadState.fromMapping]
  simp only [ReadState.textAt, ReadState.intAt, hget, filesOf_document]
  simp [asDict, List.lookup_cons, MarkerBuiltins.textOf, MarkerBuiltins.intOf, builtins.str_text, hread, asRead,
    Json.truthy, bind, Except.bind, pure, Except.pure]

/-- What a document is written as is decoded, and loaded, as the document. -/
theorem loads_written {document : Json} (hwritable : Json.Writable (fun _ => []) document)
    (hdepth : Json.depth document ≤ limit) :
    ∃ bytes text, Utf8.encode (Utf8.codePoints (markerText document)) = some bytes ∧
      Utf8.readStrict bytes = some text ∧ loads limit (charsOf text) = .ok document := by
  have hchars : (markerText document).toList = Json.write (Json.indented 2) (fun _ => []) 0 document ++ ['\n'] := by
    rw [markerText, String.toList_ofList]
  have hencode := Utf8.encode_eq_some.mpr ⟨Utf8.hasEncoding_codePoints (markerText document), rfl⟩
  have hreturn : '\r' ∉ (markerText document).toList := by
    rw [hchars, List.mem_append]
    rintro (hmem | hmem)
    · exact returnless_pieces.write document 0 hmem
    · exact absurd (List.mem_singleton.mp hmem) (by decide)
  have hblank : Json.Blank ['\n'] := by
    intro c hc
    rw [List.mem_singleton.mp hc]
    rfl
  refine ⟨_, _, hencode, Utf8.readStrict_codePoints hreturn hencode, ?_⟩
  rw [charsOf_codePoints, hchars]
  exact Json.loads_write hwritable hdepth 0 (List.forall_mem_nil _) hblank

/-- **The marker is read back as it was written**, up to the order of its sizes. -/
theorem read_written (hlimit : 2 ≤ limit) (hversion : state.version = markerVersion)
    (hnames : (state.files.map Prod.fst).Nodup) (hnumbers : state.Numbered) (hpairs : state.PairFree) :
    ∃ bytes, state.toBytes = some bytes ∧
      readMarkerBytes builtins limit (some bytes) = .ok (some state.asRead) := by
  obtain ⟨hwritable, hdepth⟩ := document_writable hnames hnumbers hpairs
  obtain ⟨bytes, text, hencode, hread, hloads⟩ := loads_written hwritable (hdepth.trans hlimit)
  refine ⟨bytes, ?_, ?_⟩
  · rw [toBytes, toJson, if_pos hnumbers]
    exact hencode
  · rw [readMarkerBytes, Option.bind_some, hread]
    dsimp only
    rw [hloads]
    dsimp only
    rw [fromMapping_document]
    exact congrArg Except.ok (if_pos hversion)

end WrittenState

namespace ReadState

variable {builtins : MarkerBuiltins} {limit : Nat} {content : Option (List UInt8)} {state : ReadState}
  {payload : List (List CodePoint × Json)}

/-- No text of the state has a surrogate pair. -/
structure PairFree (state : ReadState) : Prop where
  texts : ∀ text ∈ [state.modelId, state.revision, state.snapshotPath, state.preparedAt], Json.Unpaired text
  vllmImage : Json.PairFree state.vllmImage
  files : ∀ file ∈ state.files, Json.Unpaired file.1

theorem pairFree_get {key : String} {value : Json} (h : Json.PairFree (.obj payload))
    (hget : Json.get payload key = some value) : Json.PairFree value := by
  rw [Json.PairFree, Json.pairFreeEntries_iff] at h
  obtain ⟨front, back, rfl, -⟩ := List.lookup_eq_some_iff.mp hget
  exact (h (Json.key key, value) (List.mem_append_right front List.mem_cons_self)).2

theorem unpaired_textAt {key : String} {text : List CodePoint} (h : Json.PairFree (.obj payload))
    (htext : textAt builtins payload key = .ok text) : Json.Unpaired text := by
  rw [textAt] at htext
  cases hget : Json.get payload key with
  | none =>
    rw [hget] at htext
    cases htext
  | some value =>
    rw [hget] at htext
    simp only [MarkerBuiltins.textOf] at htext
    cases hstr : builtins.str value with
    | none =>
      rw [hstr] at htext
      cases htext
    | some written =>
      rw [hstr] at htext
      cases htext
      exact builtins.str_unpaired value text (pairFree_get h hget) hstr

/-- The items of `files`, if there are any, stand in an object. -/
theorem unpaired_filesOf {entries : List (List CodePoint × Json)} (h : Json.PairFree (.obj payload))
    (hentries : filesOf payload = .ok entries) : ∀ entry ∈ entries, Json.Unpaired entry.1 := by
  rw [filesOf] at hentries
  cases hget : Json.get payload "files" with
  | none =>
    rw [hget] at hentries
    cases hentries
    exact List.forall_mem_nil _
  | some value =>
    have hvalue := pairFree_get h hget
    rw [hget] at hentries
    dsimp only at hentries
    split at hentries
    · cases value with
      | obj items =>
        cases hentries
        rw [Json.PairFree, Json.pairFreeEntries_iff] at hvalue
        exact fun entry hentry => (hvalue entry hentry).1
      | null | bool | int | float | str | arr => cases hentries
    · cases hentries
      exact List.forall_mem_nil _

theorem names_readFiles {entries : List (List CodePoint × Json)} {files : List (List CodePoint × Int)}
    (h : readFiles builtins entries = .ok files) : files.map Prod.fst = entries.map Prod.fst := by
  induction entries generalizing files with
  | nil =>
    cases h
    rfl
  | cons entry entries ih =>
    obtain ⟨name, value⟩ := entry
    rw [readFiles] at h
    obtain ⟨size, -, h⟩ := bind_eq_ok.mp h
    obtain ⟨rest, hrest, h⟩ := bind_eq_ok.mp h
    cases h
    rw [List.map_cons, List.map_cons, ih hrest]

theorem pairFree_fromMapping (h : Json.PairFree (.obj payload))
    (hread : fromMapping builtins (.obj payload) = .ok state) : state.PairFree := by
  rw [fromMapping] at hread
  obtain ⟨modelId, hmodelId, hread⟩ := bind_eq_ok.mp hread
  obtain ⟨revision, hrevision, hread⟩ := bind_eq_ok.mp hread
  obtain ⟨snapshotPath, hsnapshotPath, hread⟩ := bind_eq_ok.mp hread
  obtain ⟨preparedAt, hpreparedAt, hread⟩ := bind_eq_ok.mp hread
  obtain ⟨totalBytes, -, hread⟩ := bind_eq_ok.mp hread
  obtain ⟨entries, hentries, hread⟩ := bind_eq_ok.mp hread
  obtain ⟨files, hfiles, hread⟩ := bind_eq_ok.mp hread
  obtain ⟨version, -, hread⟩ := bind_eq_ok.mp hread
  cases hread
  constructor
  · simp only [List.forall_mem_cons]
    exact ⟨unpaired_textAt h hmodelId, unpaired_textAt h hrevision, unpaired_textAt h hsnapshotPath,
      unpaired_textAt h hpreparedAt, List.forall_mem_nil _⟩
  · dsimp only
    cases hget : Json.get payload "vllm_image" with
    | none => simp [Json.PairFree]
    | some value => exact pairFree_get h hget
  · intro file hfile
    have hname : file.1 ∈ files.map Prod.fst := List.mem_map_of_mem hfile
    rw [names_readFiles hfiles] at hname
    obtain ⟨entry, hentry, hsame⟩ := List.mem_map.mp hname
    exact hsame ▸ unpaired_filesOf h hentries entry hentry

/-- **No state that is read has a surrogate pair in it.** -/
theorem pairFree_of_read (h : readMarkerBytes builtins limit content = .ok (some state)) : state.PairFree := by
  rw [readMarkerBytes] at h
  cases hcontent : content.bind Utf8.readStrict with
  | none =>
    rw [hcontent] at h
    cases h
  | some text =>
    rw [hcontent] at h
    dsimp only at h
    cases hloads : loads limit (charsOf text) with
    | error error =>
      rw [hloads] at h
      cases error <;> cases h
    | ok document =>
      rw [hloads] at h
      dsimp only at h
      have hdocument := (Json.read_of_loads hloads).pairFree
      cases hread : fromMapping builtins document with
      | error error =>
        rw [hread] at h
        cases error <;> cases h
      | ok found =>
        rw [hread] at h
        dsimp only at h
        split at h
        · cases h
          cases document with
          | obj payload => exact pairFree_fromMapping hdocument hread
          | null | bool | int | float | str | arr => cases hread
        · cases h

/-- It is the state that was written: `files` is a dictionary, and equal in any order. -/
structure Is (found : ReadState) (state : WrittenState) : Prop where
  modelId : found.modelId = state.modelId
  revision : found.revision = state.revision
  snapshotPath : found.snapshotPath = state.snapshotPath
  preparedAt : found.preparedAt = state.preparedAt
  totalBytes : found.totalBytes = state.totalBytes
  files : found.files.Perm state.files
  verified : found.verified = state.verified
  version : found.version = state.version
  vllmImage : found.vllmImage = state.vllmImage.elim .null .str

theorem is_asRead (state : WrittenState) : state.asRead.Is state :=
  ⟨rfl, rfl, rfl, rfl, rfl, WrittenState.sorted_perm _, rfl, rfl, rfl⟩

/-- A state that is read as itself has no surrogate pair in it. -/
theorem Is.pairFree {found : ReadState} {state : WrittenState} (h : found.Is state) (hfound : found.PairFree) :
    state.PairFree := by
  refine ⟨?_, ?_, ?_⟩
  · rw [← h.modelId, ← h.revision, ← h.snapshotPath, ← h.preparedAt]
    exact hfound.texts
  · intro text htext
    have himage := hfound.vllmImage
    rw [h.vllmImage, htext, Option.elim_some, Json.PairFree] at himage
    exact himage
  · exact fun file hfile => hfound.files file (h.files.mem_iff.mpr hfile)

end ReadState

/-- A state is written and read back exactly if its numbers are short and its texts have no
    surrogate pair. -/
theorem WrittenState.read_written_iff {builtins : MarkerBuiltins} {limit : Nat} {state : WrittenState}
    (hlimit : 2 ≤ limit) (hversion : state.version = markerVersion) (hnames : (state.files.map Prod.fst).Nodup) :
    (∃ bytes found, state.toBytes = some bytes ∧
        readMarkerBytes builtins limit (some bytes) = .ok (some found) ∧ found.Is state) ↔
      state.Numbered ∧ state.PairFree := by
  constructor
  · rintro ⟨bytes, found, hbytes, hread, his⟩
    refine ⟨?_, his.pairFree (ReadState.pairFree_of_read hread)⟩
    by_contra hnumbers
    rw [toBytes, toJson, if_neg hnumbers] at hbytes
    cases hbytes
  · rintro ⟨hnumbers, hpairs⟩
    obtain ⟨bytes, hbytes, hread⟩ := read_written hlimit hversion hnames hnumbers hpairs
    exact ⟨bytes, state.asRead, hbytes, hread, ReadState.is_asRead state⟩

/-- **The marker is total and faithful for tame contents alone**: the reader raises nothing exactly
    if the bytes are tame, and a state of this version is read back exactly if its numbers are short
    and its texts have no surrogate pair. -/
theorem marker_total_faithful_iff (builtins : MarkerBuiltins) (limit : Nat) (hlimit : 2 ≤ limit) :
    (∀ content, (∃ found, readMarkerBytes builtins limit content = .ok found) ↔ Tame builtins limit content) ∧
      ∀ state : WrittenState, state.version = markerVersion → (state.files.map Prod.fst).Nodup →
        ((∃ bytes found, state.toBytes = some bytes ∧
            readMarkerBytes builtins limit (some bytes) = .ok (some found) ∧ found.Is state) ↔
          state.Numbered ∧ state.PairFree) :=
  ⟨readMarkerBytes_iff builtins limit, fun _ hversion hnames => WrittenState.read_written_iff hlimit hversion hnames⟩

/-! ### Two markers -/

namespace MarkerSample

/-- `str(value)` of a text and of what needs no container. -/
def str : Json → Option (List CodePoint)
  | .str text => some text
  | .null => some (Json.key "None")
  | .bool b => some (Json.key (if b then "True" else "False"))
  | .int n => some (Json.key (toString n))
  | _ => none

theorem unpaired_str (value : Json) (text : List CodePoint) (h : Json.PairFree value) (hstr : str value = some text) :
    Json.Unpaired text := by
  cases value with
  | str written =>
    cases hstr
    rwa [Json.PairFree] at h
  | null | bool | int =>
    cases hstr
    exact unpaired_codePoints _
  | float | arr | obj => cases hstr

def builtins : MarkerBuiltins := ⟨str, fun text => (textOf text).bind String.toInt?, fun _ => rfl, unpaired_str⟩

def state : WrittenState where
  modelId := Json.key "m"
  revision := Json.key "abc"
  snapshotPath := Json.key "/hub/snapshots/abc"
  preparedAt := Json.key "2026-01-01T00:00:00+00:00"
  totalBytes := 3
  files := [(Json.key "w", 3)]
  verified := true
  version := markerVersion
  vllmImage := none

theorem state_pairFree : state.PairFree := by
  refine ⟨?_, nofun, List.forall_mem_singleton.mpr (unpaired_codePoints _)⟩
  simp only [List.forall_mem_cons]
  exact ⟨unpaired_codePoints _, unpaired_codePoints _, unpaired_codePoints _, unpaired_codePoints _,
    List.forall_mem_nil _⟩

/-- A pair of surrogates is another text than the character it stands for. -/
def paired : WrittenState := { state with modelId := [Json.codePoint 0xD83D, Json.codePoint 0xDE00] }

theorem paired_not_pairFree : ¬ paired.PairFree := by
  intro h
  have hpair := h.1 [Json.codePoint 0xD83D, Json.codePoint 0xDE00] List.mem_cons_self
  rw [Json.Unpaired] at hpair
  exact absurd hpair (by decide)

/-- `files` is a list with an item. -/
def stumbling : List (List CodePoint × Json) :=
  ["model_id", "revision", "snapshot_path", "prepared_at"].map (fun name => (Json.key name, .str [])) ++
    [(Json.key "files", .arr [.int 1])]

/-- The bytes of such a marker. -/
def stumblingFile : Option (List UInt8) := Utf8.encode (Utf8.codePoints (markerText (.obj stumbling)))

theorem stumbling_writable : Json.Writable (fun _ => []) (.obj stumbling) := by
  have hkeys : (stumbling.map Prod.fst).Nodup :=
    (List.nodup_map_iff codePoints_injective (l :=
      ["model_id", "revision", "snapshot_path", "prepared_at", "files"])).mpr (by decide)
  rw [Json.Writable, Json.writableEntries_iff]
  refine ⟨hkeys, ?_⟩
  simp only [stumbling, List.map_cons, List.map_nil, List.cons_append, List.nil_append, List.forall_mem_cons,
    Json.Writable, Json.WritableItems]
  exact ⟨⟨unpaired_codePoints _, List.isChain_nil⟩, ⟨unpaired_codePoints _, List.isChain_nil⟩,
    ⟨unpaired_codePoints _, List.isChain_nil⟩, ⟨unpaired_codePoints _, List.isChain_nil⟩,
    ⟨unpaired_codePoints _, by decide, trivial⟩, List.forall_mem_nil _⟩

theorem stumbling_depth : Json.depth (.obj stumbling) ≤ 2 := by
  simp [stumbling, Json.depth, Json.depthEntries, Json.depthItems]

theorem stumbling_stumbles : Stumbles builtins (.obj stumbling) :=
  ⟨stumbling, rfl, by decide +kernel⟩

end MarkerSample

open MarkerSample in
/-- A small marker comes back, and an empty file is no marker. -/
theorem marker_total_faithful_sample :
    (∃ bytes found, state.toBytes = some bytes ∧
        readMarkerBytes builtins 2 (some bytes) = .ok (some found) ∧ found.Is state) ∧
      ∃ found, readMarkerBytes builtins 2 (some []) = .ok found := by
  have h := marker_total_faithful_iff builtins 2 (Nat.le_refl 2)
  refine ⟨(h.2 state rfl (List.nodup_singleton _)).mpr ⟨by decide, state_pairFree⟩, (h.1 (some [])).mpr ?_⟩
  rintro text ⟨⟩
  exact ⟨nofun, nofun, nofun⟩

open MarkerSample in
/-- The reader raises where `files` is a list with an item, and a text with a surrogate pair does not
    come back. -/
theorem marker_stumbles :
    (stumblingFile.isSome ∧ ¬ ∃ found, readMarkerBytes builtins 2 stumblingFile = .ok found) ∧
      ¬ ∃ bytes found, paired.toBytes = some bytes ∧
        readMarkerBytes builtins 2 (some bytes) = .ok (some found) ∧ found.Is paired := by
  obtain ⟨bytes, text, hbytes, hread, hloads⟩ := WrittenState.loads_written stumbling_writable stumbling_depth
  refine ⟨?_, ?_⟩
  · rw [show stumblingFile = some bytes from hbytes, readMarkerBytes_iff]
    exact ⟨rfl, fun h => (h text hread).2.2 _ hloads stumbling_stumbles⟩
  · intro hread
    have hpairs := (@WrittenState.read_written_iff builtins 2 paired (Nat.le_refl 2) rfl
      (List.nodup_singleton _)).mp hread
    exact paired_not_pairFree hpairs.2

end AgenticPlatform
