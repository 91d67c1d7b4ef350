import AgenticPlatform.Occurrences
import AgenticPlatform.TextReading
import AgenticPlatform.Validation

/-!
# Editing a file

The tool that replaces a snippet in a file, creates a file or appends to one. A snippet is
counted without overlaps, so the rule that it must occur once lets one through that occurs
several times.
-/

namespace AgenticPlatform

open Occurrences Utf8

/-- What the path of an edit leads to. What is absent has a directory to be put into, an
    orphan has none yet, and what is blocked lies below a file. -/
inductive Entry where
  | file (bytes : List UInt8)
  | directory
  | absent
  | orphan
  | blocked
deriving DecidableEq, Repr

/-- The arguments of an edit. -/
inductive EditRequest where
  | replace (old new : List CodePoint)
  | create (content : List CodePoint) (overwrite : Bool)
  | append (content : List CodePoint)
deriving DecidableEq, Repr

def EditRequest.mode : EditRequest → String
  | replace .. => "replace"
  | create .. => "create"
  | append _ => "append"

/-- What a write raises: an `OSError`, or a `UnicodeEncodeError`, which is none. -/
inductive AtomicWriteError where
  | osError
  | unicodeEncode
deriving DecidableEq, Repr

/-- What the tool raises. -/
inductive EditError where
  | toolExecution (message : String) (details : Mapping)
  | unicodeEncode

namespace EditFileTool

/-- `_MISSING`. -/
def missing : Int := -1

/-- `_atomic_write`: the temporary file takes the place of what is there, if that is no
    directory. -/
def atomicWrite (entry : Entry) (content : List CodePoint) : Except AtomicWriteError (List UInt8) :=
  match entry with
  | .orphan | .blocked => .error .osError
  | .directory => if HasEncoding content then .error .osError else .error .unicodeEncode
  | .file _ | .absent =>
    match encode content with
    | some bytes => .ok bytes
    | none => .error .unicodeEncode

/-- `_substitute`. -/
def substitute (entry : Entry) (old new : List CodePoint) : Entry × Except AtomicWriteError (Int × Nat) :=
  match entry with
  | .absent | .orphan | .directory => (entry, .ok (missing, 0))
  | .blocked => (entry, .error .osError)
  | .file bytes =>
    let original := readText bytes
    let occurrences := count old original
    if occurrences ≠ 1 then (entry, .ok (occurrences, 0))
    else
      match atomicWrite entry (replaceFirst old new original) with
      | .ok updated => (.file updated, .ok (1, updated.length))
      | .error error => (entry, .error error)

/-- `path.exists()`. -/
def pathExists (entry : Entry) : Bool :=
  match entry with
  | .file _ | .directory => true
  | .absent | .orphan | .blocked => false

/-- `path.parent.mkdir(0o755, parents=True, exist_ok=True)`. -/
def mkdirParent (entry : Entry) : Except AtomicWriteError Entry :=
  match entry with
  | .orphan => .ok .absent
  | .blocked => .error .osError
  | .file _ | .directory | .absent => .ok entry

/-- `_create`; `none` means that it already existed and was left alone. -/
def create (entry : Entry) (content : List CodePoint) (overwrite : Bool) :
    Entry × Except AtomicWriteError (Option Nat) :=
  if pathExists entry = true ∧ overwrite = false then (entry, .ok none)
  else
    match mkdirParent entry with
    | .error error => (entry, .error error)
    | .ok entry' =>
      match atomicWrite entry' content with
      | .ok bytes => (.file bytes, .ok (some bytes.length))
      | .error error => (entry', .error error)

/-- `_append`. -/
def append (entry : Entry) (content : List CodePoint) : Entry × Except AtomicWriteError Nat :=
  let existing := match entry with
    | .file bytes => readText bytes
    | _ => []
  match atomicWrite entry (existing ++ content) with
  | .ok bytes => (.file bytes, .ok bytes.length)
  | .error error => (entry, .error error)

def localResult (command : String) (exitCode : Int) (elapsedMs : Int) (stdout stderr : String)
    (metadata : Mapping) : ToolResult where
  tool := "edit_file"
  kind := .edit
  command := command
  exitCode := exitCode
  stdout := stdout
  stderr := stderr
  durationMs := elapsedMs
  truncated := false
  artifacts := []
  metadata := metadata

def failed (command : String) (elapsedMs : Int) (message : String) (metadata : Mapping := []) : ToolResult :=
  localResult command 1 elapsedMs "" message metadata

/-- An `OSError` becomes a `ToolExecutionError`; a `UnicodeEncodeError` passes. -/
def raised (relative : String) : AtomicWriteError → EditError
  | .osError => .toolExecution "file could not be written" [("path", .str relative)]
  | .unicodeEncode => .unicodeEncode

def ambiguous (occurrences : Int) (relative command : String) (elapsedMs : Int) : ToolResult :=
  failed command elapsedMs s!"{relative}: old_string occurs {occurrences} times, expected exactly 1"
    [("occurrences", .int occurrences)]

def replaced (written : Nat) (relative command : String) (elapsedMs : Int) : ToolResult :=
  localResult command 0 elapsedMs s!"{relative}: replaced 1 occurrence" ""
    [("path", .str relative), ("bytes_written", .int written)]

/-- `_replace`. -/
def replace (entry : Entry) (old new : List CodePoint) (relative command : String) (elapsedMs : Int) :
    Entry × Except EditError ToolResult :=
  if old = [] then (entry, .error (.toolExecution "old_string must not be empty" []))
  else
    match substitute entry old new with
    | (entry', .error error) => (entry', .error (raised relative error))
    | (entry', .ok (occurrences, written)) =>
      if occurrences = missing then
        (entry', .ok (failed command elapsedMs s!"{relative}: no such file"))
      else if occurrences ≠ 1 then (entry', .ok (ambiguous occurrences relative command elapsedMs))
      else (entry', .ok (replaced written relative command elapsedMs))

def command (request : EditRequest) (relative : String) : String :=
  s!"edit_file --mode {request.mode} {relative}"

/-- What `_write` returns. -/
def wrote (written : Nat) (mode relative command : String) (elapsedMs : Int) : ToolResult :=
  localResult command 0 elapsedMs s!"{relative}: wrote {written} bytes" ""
    [("path", .str relative), ("bytes_written", .int written), ("mode", .str mode)]

/-- `execute`, on what the path leads to. -/
def execute (entry : Entry) (request : EditRequest) (relative : String) (elapsedMs : Int) :
    Entry × Except EditError ToolResult :=
  let command := command request relative
  match request with
  | .replace old new => replace entry old new relative command elapsedMs
  | .create content overwrite =>
    match create entry content overwrite with
    | (entry', .error error) => (entry', .error (raised relative error))
    | (entry', .ok none) =>
      (entry', .ok (failed command elapsedMs s!"{relative}: already exists (pass overwrite=true)"))
    | (entry', .ok (some written)) => (entry', .ok (wrote written "create" relative command elapsedMs))
  | .append content =>
    match append entry content with
    | (entry', .error error) => (entry', .error (raised relative error))
    | (entry', .ok written) => (entry', .ok (wrote written "append" relative command elapsedMs))

variable {entry : Entry} {bytes : List UInt8} {old new content text before after : List CodePoint}
  {relative : String} {elapsedMs : Int}

/-! ### What a replacement does -/

theorem atomicWrite_file : atomicWrite (.file bytes) text =
    if HasEncoding text then .ok (text.flatMap bytesOf) else .error .unicodeEncode := by
  rw [atomicWrite, encode]
  split
  · rename_i h
    split at h
    · cases h
      rw [if_pos ‹_›]
    · cases h
  · rename_i h
    split at h
    · cases h
    · rw [if_neg ‹_›]

/-- The text that a replacement writes, where it writes one. -/
theorem hasEncoding_replaceFirst (hcount : count old text = 1) (htext : HasEncoding text) :
    HasEncoding (replaceFirst old new text) ↔ HasEncoding new := by
  rcases hsplit : split old text with - | ⟨before, after⟩
  · rw [count_of_split_none hsplit] at hcount
    cases hcount
  · rw [split_eq_append hsplit, hasEncoding_append, hasEncoding_append] at htext
    simp only [replaceFirst, hsplit]
    rw [hasEncoding_append, hasEncoding_append, and_iff_right htext.1.1, and_iff_left htext.2]

/-- Where not one occurrence is counted, the call fails and leaves the file alone. -/
theorem replace_refused (hold : old ≠ []) (hcount : count old (readText bytes) ≠ 1) :
    execute (.file bytes) (.replace old new) relative elapsedMs = (.file bytes, .ok
      (ambiguous (count old (readText bytes)) relative (command (.replace old new) relative) elapsedMs)) := by
  have hmissing : (count old (readText bytes) : Int) ≠ missing := by
    rw [missing]
    omega
  have hone : (count old (readText bytes) : Int) ≠ 1 := by omega
  simp only [execute, replace, if_neg hold, substitute, if_pos hcount, if_neg hmissing, if_pos hone]

theorem replace_made (hold : old ≠ []) (hcount : count old (readText bytes) = 1)
    (hnew : HasEncoding new) (relative : String) (elapsedMs : Int) :
    ∃ written, execute (.file bytes) (.replace old new) relative elapsedMs =
      (.file ((replaceFirst old new (readText bytes)).flatMap bytesOf),
        .ok (replaced written relative (command (.replace old new) relative) elapsedMs)) := by
  have hwrite := (hasEncoding_replaceFirst hcount hasEncoding_readText).mpr hnew
  have hmissing : (1 : Int) ≠ missing := by
    rw [missing]
    omega
  refine ⟨((replaceFirst old new (readText bytes)).flatMap bytesOf).length, ?_⟩
  simp only [execute, replace, if_neg hold, substitute, hcount, atomicWrite_file, if_pos hwrite,
    ne_eq, not_true_eq_false, if_false, if_neg hmissing]

theorem replace_raised (hold : old ≠ []) (hcount : count old (readText bytes) = 1)
    (hnew : ¬ HasEncoding new) (relative : String) (elapsedMs : Int) : execute (.file bytes) (.replace old new) relative elapsedMs =
      (.file bytes, .error .unicodeEncode) := by
  have hwrite := (hasEncoding_replaceFirst hcount hasEncoding_readText).not.mpr hnew
  simp only [execute, replace, if_neg hold, substitute, hcount, atomicWrite_file, if_neg hwrite,
    ne_eq, not_true_eq_false, if_false, raised]

/-! ### Only what occurs once is replaced -/

/-- A snippet that occurs once, overlaps counted, is replaced; any other is refused, and the
    file stays as it is. -/
structure OnceOnly (bytes : List UInt8) (old new : List CodePoint) (relative : String)
    (elapsedMs : Int) : Prop where
  replaced : (∃! position, OccursAt old (readText bytes) position) →
    ∃ bytes' result, execute (.file bytes) (.replace old new) relative elapsedMs =
      (.file bytes', .ok result) ∧ result.succeeded = true ∧
        ∀ before after, readText bytes = before ++ old ++ after →
          encode (before ++ new ++ after) = some bytes'
  refused : (¬ ∃! position, OccursAt old (readText bytes) position) →
    (execute (.file bytes) (.replace old new) relative elapsedMs).1 = .file bytes ∧
      ∀ result, (execute (.file bytes) (.replace old new) relative elapsedMs).2 = .ok result →
        result.succeeded = false

theorem onceOnly_of_refused (hold : old ≠ []) (hcount : count old (readText bytes) ≠ 1) :
    OnceOnly bytes old new relative elapsedMs := by
  constructor
  · intro hunique
    exact absurd (count_of_existsUnique hold hunique) hcount
  · intro _
    rw [replace_refused hold hcount]
    refine ⟨rfl, ?_⟩
    intro result hresult
    cases hresult
    rfl

theorem onceOnly_of_made (hold : old ≠ []) (hcount : count old (readText bytes) = 1)
    (hnew : HasEncoding new) : OnceOnly bytes old new relative elapsedMs ↔
      ∃! position, OccursAt old (readText bytes) position := by
  rcases replace_made hold hcount hnew relative elapsedMs with
    ⟨written, hexecute⟩
  constructor
  · intro h
    by_contra hunique
    rcases h.refused hunique with ⟨-, hfailed⟩
    rw [hexecute] at hfailed
    exact Bool.noConfusion (hfailed _ rfl)
  · intro hunique
    refine ⟨fun _ => ⟨_, _, hexecute, rfl, ?_⟩, fun hmany => absurd hunique hmany⟩
    intro before after htext
    rw [← replaceFirst_of_existsUnique hold hunique htext]
    exact encode_eq_some.mpr ⟨(hasEncoding_replaceFirst hcount hasEncoding_readText).mpr hnew, rfl⟩

theorem onceOnly_of_raised (hold : old ≠ []) (hcount : count old (readText bytes) = 1)
    (hnew : ¬ HasEncoding new) : OnceOnly bytes old new relative elapsedMs ↔
      ¬ ∃! position, OccursAt old (readText bytes) position := by
  have hexecute := replace_raised hold hcount hnew relative elapsedMs
  constructor
  · intro h hunique
    rcases h.replaced hunique with ⟨bytes', result, hmade, -⟩
    rw [hexecute] at hmade
    cases hmade
  · intro hmany
    refine ⟨fun hunique => absurd hunique hmany, fun _ => ?_⟩
    rw [hexecute]
    refine ⟨rfl, ?_⟩
    intro result hresult
    cases hresult

/-- The rule is kept exactly if the snippet does not occur several times with any two of its
    occurrences overlapping; where the new text has no encoding, exactly if there is no
    occurrence to be replaced by it. -/
theorem onceOnly_iff (bytes : List UInt8) (old new : List CodePoint) (relative : String) (elapsedMs : Int)
    (hold : old ≠ []) : OnceOnly bytes old new relative elapsedMs ↔
      if HasEncoding new then ¬ Tangled old (readText bytes)
      else ¬ ∃! position, OccursAt old (readText bytes) position := by
  by_cases hcount : count old (readText bytes) = 1
  · split
    · rename_i hnew
      rw [onceOnly_of_made hold hcount hnew, existsUnique_iff_not_tangled hold hcount]
    · rename_i hnew
      exact onceOnly_of_raised hold hcount hnew
  · refine iff_of_true (onceOnly_of_refused hold hcount) ?_
    split
    · exact fun htangled => hcount (htangled.count hold)
    · exact fun hunique => hcount (count_of_existsUnique hold hunique)

/-- `b` in `aba`. -/
theorem onceOnly_iff_sample : OnceOnly [0x61, 0x62, 0x61] [0x62] [0x63] "a.txt" 0 := by
  refine (onceOnly_iff [0x61, 0x62, 0x61] [0x62] [0x63] "a.txt" 0 (by decide)).mpr ?_
  rw [if_pos (by decide)]
  rintro ⟨⟨position, other, hbefore, hposition, hother⟩, -⟩
  have hlength := hother.length_le (by decide)
  have hread : (readText [0x61, 0x62, 0x61]).length = 3 := by decide
  rw [hread, List.length_singleton] at hlength
  have honly : ∀ position < 3, OccursAt [0x62] (readText [0x61, 0x62, 0x61]) position → position = 1 := by
    decide
  rw [honly position (by omega) hposition, honly other (by omega) hother] at hbefore
  omega

/-- `aXa` in `aXaXa`. -/
theorem overlapping_replaced : ¬ OnceOnly [0x61, 0x58, 0x61, 0x58, 0x61] [0x61, 0x58, 0x61] [0x62] "a.txt" 0 := by
  intro h
  have hmade := (onceOnly_of_made (by decide) (by decide) (by decide)).mp h
  have hsame : 0 = 2 := hmade.unique (by decide) (by decide)
  omega

end EditFileTool

end AgenticPlatform
