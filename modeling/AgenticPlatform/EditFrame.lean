import AgenticPlatform.FileEdits

/-!
# What an edit leaves alone

An edit writes back the text that it has read. The bytes around what it replaces stay what
they are exactly if they encode a text without carriage returns; any other line end, and any
byte that is not part of a character, is rewritten.
-/

namespace AgenticPlatform

open Occurrences Utf8

def Entry.bytes : Entry → List UInt8
  | .file bytes => bytes
  | .directory | .absent | .orphan | .blocked => []

namespace EditRequest

/-- The text that an edit puts into the file. -/
def inserted : EditRequest → List CodePoint
  | replace _ new => new
  | create content _ => content
  | append content => content

/-- The pieces of a file before what an edit replaces, and those after it. A new file
    replaces all there is. -/
def around (bytes : List UInt8) : EditRequest → List Piece × List Piece
  | replace old _ =>
    match split old (readText bytes) with
    | some (before, _) =>
      ((textPieces bytes).take before.length, (textPieces bytes).drop (before.length + old.length))
    | none => (textPieces bytes, [])
  | create .. => ([], [])
  | append _ => (textPieces bytes, [])

/-- The bytes before what an edit replaces. -/
def before (bytes : List UInt8) (request : EditRequest) : List UInt8 := joined (request.around bytes).1

def after (bytes : List UInt8) (request : EditRequest) : List UInt8 := joined (request.around bytes).2

end EditRequest

/-- The new file is the old one with the text of the edit in the place of what is replaced. -/
def RestKept (bytes bytes' : List UInt8) (request : EditRequest) : Prop :=
  ∃ middle, encode request.inserted = some middle ∧
    bytes' = request.before bytes ++ middle ++ request.after bytes

namespace EditFileTool

variable {entry : Entry} {request : EditRequest} {bytes bytes' : List UInt8} {parts rest : List Piece}
  {old new content text : List CodePoint} {relative : String} {elapsedMs : Int} {result : ToolResult}

theorem written_eq_flatMap : written parts = (parts.map Piece.char).flatMap bytesOf := by
  rw [written, List.flatMap_map]

theorem written_append : written (parts ++ rest) = written parts ++ written rest := List.flatMap_append

theorem atomicWrite_eq_ok (h : atomicWrite entry text = .ok bytes') :
    HasEncoding text ∧ bytes' = text.flatMap bytesOf := by
  have hencode : encode text = some bytes' := by
    rcases entry with _ | _ | _ | _ | _
    · simp only [atomicWrite] at h
      split at h
      · cases h
        assumption
      · cases h
    · simp only [atomicWrite] at h
      split at h
      · cases h
      · cases h
    · simp only [atomicWrite] at h
      split at h
      · cases h
        assumption
      · cases h
    · cases h
    · cases h
  exact (encode_eq_some.mp hencode).imp_right Eq.symm

/-- The pieces before the first occurrence, and those after it. -/
theorem around_replace {first last : List CodePoint}
    (h : split old (readText bytes) = some (first, last)) (new : List CodePoint) :
    ((EditRequest.replace old new).around bytes).1.map Piece.char = first ∧
      ((EditRequest.replace old new).around bytes).2.map Piece.char = last := by
  have htext : (textPieces bytes).map Piece.char = first ++ old ++ last := split_eq_append h
  simp only [EditRequest.around, h, List.map_take, List.map_drop, htext]
  constructor
  · rw [List.append_assoc, List.take_left]
  · rw [← List.length_append, List.drop_left]

theorem written_replace (hcount : count old (readText bytes) = 1) :
    (replaceFirst old new (readText bytes)).flatMap bytesOf =
      written ((EditRequest.replace old new).around bytes).1 ++ new.flatMap bytesOf ++
        written ((EditRequest.replace old new).around bytes).2 := by
  rcases hsplit : split old (readText bytes) with - | ⟨first, last⟩
  · rw [count_of_split_none hsplit] at hcount
    cases hcount
  · rcases around_replace hsplit new with ⟨hfirst, hlast⟩
    simp only [replaceFirst, hsplit, written_eq_flatMap, hfirst, hlast, List.flatMap_append]

theorem create_eq_some {overwrite : Bool} {length : Nat}
    (h : create entry content overwrite = (.file bytes', .ok (some length))) :
    HasEncoding content ∧ bytes' = content.flatMap bytesOf := by
  rw [create] at h
  split at h
  · cases h
  · split at h
    · cases h
    · split at h
      · rename_i hwrite
        cases h
        exact atomicWrite_eq_ok hwrite
      · cases h

theorem append_eq_ok {length : Nat} (h : append entry content = (.file bytes', .ok length)) :
    HasEncoding (readText entry.bytes ++ content) ∧
      bytes' = (readText entry.bytes ++ content).flatMap bytesOf := by
  have hwritten : ∃ bytes, atomicWrite entry (readText entry.bytes ++ content) = .ok bytes ∧
      bytes = bytes' := by
    rcases entry with _ | _ | _ | _ | _
    all_goals
      simp only [append] at h
      split at h
      · rename_i bytes hwrite
        cases h
        exact ⟨_, hwrite, rfl⟩
      · cases h
  rcases hwritten with ⟨bytes, hwrite, rfl⟩
  exact atomicWrite_eq_ok hwrite

/-- What an edit writes: the code points around what it replaces, and its own text. -/
theorem execute_written (h : execute entry request relative elapsedMs = (.file bytes', .ok result))
    (hsuccess : result.succeeded = true) :
    HasEncoding request.inserted ∧ bytes' = written (request.around entry.bytes).1 ++
      request.inserted.flatMap bytesOf ++ written (request.around entry.bytes).2 := by
  rcases request with ⟨old, new⟩ | ⟨content, overwrite⟩ | content
  · have hold : old ≠ [] := by
      rintro rfl
      cases h
    rcases entry with bytes | - | - | - | -
    · by_cases hcount : count old (readText bytes) = 1
      · by_cases hnew : HasEncoding new
        · rcases replace_made hold hcount hnew relative elapsedMs with
            ⟨length, hmade⟩
          rw [hmade] at h
          cases h
          exact ⟨hnew, written_replace hcount⟩
        · rw [replace_raised hold hcount hnew] at h
          cases h
      · rw [replace_refused hold hcount] at h
        cases h
        cases hsuccess
    all_goals
      simp only [execute, replace, if_neg hold, substitute] at h
      cases h
  · simp only [EditRequest.around, EditRequest.inserted, written, List.flatMap_nil, List.nil_append,
      List.append_nil]
    simp only [execute] at h
    split at h
    · cases h
    · cases h
      cases hsuccess
    · rename_i hcreate
      cases h
      exact create_eq_some hcreate
  · simp only [execute] at h
    split at h
    · cases h
    · rename_i happend
      cases h
      rcases append_eq_ok happend with ⟨hencoding, hbytes⟩
      refine ⟨(hasEncoding_append.mp hencoding).2, ?_⟩
      rw [hbytes, List.flatMap_append, readText, ← written_eq_flatMap]
      exact (List.append_nil _).symm

/-- What an edit replaces lies between the pieces around it. -/
theorem around_append (request : EditRequest) (bytes : List UInt8) : ∃ middle, textPieces bytes =
    (request.around bytes).1 ++ middle ++ (request.around bytes).2 := by
  rcases request with ⟨old, new⟩ | ⟨content, overwrite⟩ | content
  · rcases hsplit : split old (readText bytes) with - | ⟨first, last⟩
    · refine ⟨[], ?_⟩
      simp only [EditRequest.around, hsplit, List.append_nil]
    · refine ⟨((textPieces bytes).drop first.length).take old.length, ?_⟩
      simp only [EditRequest.around, hsplit]
      rw [List.append_assoc, ← List.drop_drop, List.take_append_drop, List.take_append_drop]
  · exact ⟨textPieces bytes, (List.append_nil _).symm⟩
  · exact ⟨[], by simp only [EditRequest.around, List.append_nil]⟩

theorem written_map_pieceOf : written (text.map pieceOf) = text.flatMap bytesOf := by
  rw [written, List.flatMap_map]
  rfl

/-- What is written around a text is what was read there exactly if every piece comes back as
    it was: no two changes make up for each other. -/
theorem written_around_iff (hfirst : ∀ piece ∈ parts, Read piece) (hlast : ∀ piece ∈ rest, Read piece)
    (h : HasEncoding text) :
    written parts ++ text.flatMap bytesOf ++ written rest =
        joined parts ++ text.flatMap bytesOf ++ joined rest ↔
      (∀ piece ∈ parts, Whole piece) ∧ ∀ piece ∈ rest, Whole piece := by
  have hwhole := whole_pieceOf h
  have hread : ∀ piece ∈ parts ++ text.map pieceOf ++ rest, Read piece := by
    intro piece hpiece
    rcases List.mem_append.mp hpiece with hfront | hpiece
    · rcases List.mem_append.mp hfront with hpiece | hpiece
      · exact hfirst piece hpiece
      · exact .inl (hwhole piece hpiece)
    · exact hlast piece hpiece
  have hsame := written_eq_joined_iff hread
  rw [written_append, written_append, joined_append, joined_append, written_map_pieceOf,
    joined_map_pieceOf, List.forall_mem_append, List.forall_mem_append, and_iff_left hwhole] at hsame
  exact hsame

theorem restKept_iff (h : HasEncoding request.inserted) :
    RestKept bytes (written (request.around bytes).1 ++ request.inserted.flatMap bytesOf ++
        written (request.around bytes).2) request ↔
      Clean (request.before bytes) ∧ Clean (request.after bytes) := by
  rcases around_append request bytes with ⟨middle, hpieces⟩
  have hread := read_textPieces bytes
  rw [hpieces, List.forall_mem_append, List.forall_mem_append] at hread
  have hkept : RestKept bytes (written (request.around bytes).1 ++ request.inserted.flatMap bytesOf ++
        written (request.around bytes).2) request ↔
      written (request.around bytes).1 ++ request.inserted.flatMap bytesOf ++
          written (request.around bytes).2 =
        joined (request.around bytes).1 ++ request.inserted.flatMap bytesOf ++
          joined (request.around bytes).2 := by
    constructor
    · rintro ⟨inserted, hencode, hbytes⟩
      rw [← (encode_eq_some.mp hencode).2] at hbytes
      exact hbytes
    · intro hbytes
      exact ⟨_, encode_eq_some.mpr ⟨h, rfl⟩, hbytes⟩
  rw [hkept, written_around_iff hread.1.1 hread.2 h]
  have hfirst := clean_before_iff (hpieces.trans (List.append_assoc ..))
  have hlast := clean_after_iff hpieces
  rw [EditRequest.before, EditRequest.after, hfirst, hlast]

/-- A successful edit leaves the bytes around what it replaces alone exactly if they encode
    texts without carriage returns. -/
theorem rest_kept_iff (entry : Entry) (request : EditRequest) (relative : String) (elapsedMs : Int)
    (bytes' : List UInt8) (result : ToolResult)
    (h : execute entry request relative elapsedMs = (.file bytes', .ok result))
    (hsuccess : result.succeeded = true) : RestKept entry.bytes bytes' request ↔
      Clean (request.before entry.bytes) ∧ Clean (request.after entry.bytes) := by
  rcases execute_written h hsuccess with ⟨hencoding, rfl⟩
  exact restKept_iff hencoding

/-- `b` becomes `c` in a file of two lines. -/
theorem rest_kept_iff_sample :
    RestKept [0x61, 0x0A, 0x62, 0x0A] [0x61, 0x0A, 0x63, 0x0A] (.replace [0x62] [0x63]) := by
  refine (rest_kept_iff (.file [0x61, 0x0A, 0x62, 0x0A]) (.replace [0x62] [0x63]) "a.txt" 0
    [0x61, 0x0A, 0x63, 0x0A] (replaced 4 "a.txt" "edit_file --mode replace a.txt" 0) ?_ ?_).mpr ⟨?_, ?_⟩
  · rfl
  · rfl
  · exact ⟨[0x61, 0x0A], by decide, by decide⟩
  · exact ⟨[0x0A], by decide, by decide⟩

/-- The line end before `b` was `\r\n`. -/
theorem line_end_rewritten : execute (.file [0x61, 0x0D, 0x0A, 0x62]) (.replace [0x62] [0x63]) "a.txt" 0 =
      (.file [0x61, 0x0A, 0x63], .ok (replaced 3 "a.txt" "edit_file --mode replace a.txt" 0)) ∧
    ¬ RestKept [0x61, 0x0D, 0x0A, 0x62] [0x61, 0x0A, 0x63] (.replace [0x62] [0x63]) := by
  refine ⟨rfl, ?_⟩
  rintro ⟨middle, hencode, hbytes⟩
  have hmiddle : encode (EditRequest.inserted (.replace [0x62] [0x63])) = some [0x63] := by decide
  rw [hmiddle] at hencode
  cases hencode
  revert hbytes
  decide

end EditFileTool

end AgenticPlatform
