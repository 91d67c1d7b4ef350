import AgenticPlatform.SearchMatches
import AgenticPlatform.TextReading

/-!
# Excerpts of files

An excerpt shows the lines of a file around a match. The line number comes from a search of the
whole file, which ends a line at a line feed; the excerpt is cut from the first bytes of the file,
with `str.splitlines`. The excerpts of a file show the matches in it exactly if both read the same
lines.
-/

namespace AgenticPlatform.Excerpts

open Utf8 Lines

/-! ### Reading -/

/-- The bytes that `_excerpt` reads of a file. -/
def maxBytes : Nat := 400000

/-- `bytes.decode("utf-8", errors="replace")`. -/
def decode (bytes : List UInt8) : List CodePoint := (pieces bytes).map Piece.char

/-- `_read_text`: the file is missing or taken for binary, or this is its text. -/
def readText (file : Option (List UInt8)) (maxBytes : Nat) : Option (List CodePoint) :=
  match file with
  | none => none
  | some bytes =>
    let raw := bytes.take maxBytes
    if 0 ∈ raw.take 8192 then none else some (decode raw)

/-- `text.splitlines()`. -/
def splitlines (text : List CodePoint) : List (List CodePoint) :=
  lines (fun c => isLineEnd c.val) (dropReturns carriageReturn lineFeed text)

/-- `"\n".join(lines)`. -/
def joinLines (lines : List (List CodePoint)) : List CodePoint := [lineFeed].intercalate lines

/-! ### Excerpts -/

structure FileExcerpt where
  path : String
  content : List CodePoint
  startLine : Nat := 1
  endLine : Option Nat := none
  reason : String := ""
deriving DecidableEq, Repr

/-- The settings of the provider that an excerpt depends on. -/
structure Window where
  matchContextLines : Nat := 40
  maxExcerptLines : Nat := 200

/-- `_excerpt`. -/
def excerpt (window : Window) (file : Option (List UInt8)) (path : String) (line : Nat)
    (reason : String) : Option FileExcerpt :=
  match readText file maxBytes with
  | none => none
  | some text =>
    let lines := splitlines text
    if lines.length ≤ window.maxExcerptLines then
      some { path, content := text, startLine := 1, endLine := some lines.length, reason }
    else
      let half := window.matchContextLines / 2
      let start := max 1 (line - half)
      let stop := min lines.length (start + window.maxExcerptLines - 1)
      some { path, content := joinLines ((lines.take stop).drop (start - 1)), startLine := start,
             endLine := some stop,
             reason := reason ++ " (excerpt of a " ++ toString lines.length ++ "-line file)" }

/-! ### What an excerpt is to show -/

/-- The lines of a text for a search: they end at line feeds, with a carriage return before or
    without. -/
def fileLines (text : List CodePoint) : List (List CodePoint) :=
  lines (fun c => c == lineFeed) (dropReturns carriageReturn lineFeed text)

/-- The excerpt has the match in it, keeps to the limit, and is exactly those lines of the file,
    joined or as the file has them. -/
structure Shows (window : Window) (bytes : List UInt8) (line : Nat) (shown : FileExcerpt)
    (stop : Nat) : Prop where
  end_line : shown.endLine = some stop
  start_pos : 1 ≤ shown.startLine
  ordered : shown.startLine ≤ stop
  contains : shown.startLine ≤ line ∧ line ≤ stop
  bounded : window.maxExcerptLines < (fileLines (decode bytes)).length →
    stop - shown.startLine + 1 ≤ window.maxExcerptLines
  within : stop ≤ (fileLines (decode bytes)).length
  content : shown.content =
      joinLines (((fileLines (decode bytes)).take stop).drop (shown.startLine - 1)) ∨
    (shown.startLine = 1 ∧ stop = (fileLines (decode bytes)).length ∧
      shown.content = decode bytes)

/-- Every excerpt of the file shows the match that it was made for. -/
def ExcerptsShow (bytes : List UInt8) : Prop :=
  ∀ (window : Window) (path : String) (line : Nat) (reason : String) (shown : FileExcerpt),
    0 < window.matchContextLines → window.matchContextLines ≤ window.maxExcerptLines →
    1 ≤ line → line ≤ (fileLines (decode bytes)).length →
    excerpt window (some bytes) path line reason = some shown →
    ∃ stop, Shows window bytes line shown stop

/-! ### The files whose excerpts do -/

/-- The file has a zero byte near its beginning. -/
def Binary (bytes : List UInt8) : Prop := 0 ∈ (bytes.take maxBytes).take 8192

/-- What is read of a file. -/
def head (bytes : List UInt8) : List CodePoint := decode (bytes.take maxBytes)

/-- All of the file is read, or all but the end of its last line. -/
def Complete (bytes : List UInt8) : Prop :=
  head bytes = decode bytes ∨ head bytes = joinLines (fileLines (decode bytes))

/-- No line ends at anything but a line feed, with a carriage return before it or without. -/
def Regular (text : List CodePoint) : Prop :=
  ∀ c ∈ dropReturns carriageReturn lineFeed text, isLineEnd c.val = true → (c == lineFeed) = true

/-- The lines are those of the file, or there is only one. -/
def SameLines (bytes : List UInt8) : Prop :=
  (Regular (head bytes) ∧ fileLines (head bytes) = fileLines (decode bytes)) ∨
    ((splitlines (head bytes)).length = 1 ∧ (fileLines (decode bytes)).length = 1)

variable {window : Window} {bytes : List UInt8} {text : List CodePoint} {path reason : String}
  {line : Nat}

theorem isLineEnd_lineFeed (c : CodePoint) (h : (c == lineFeed) = true) :
    isLineEnd c.val = true := by
  rw [beq_iff_eq.mp h]
  rfl

theorem splitlines_eq_fileLines_iff : splitlines text = fileLines text ↔ Regular text :=
  lines_eq_lines_iff isLineEnd_lineFeed

/-- Without a zero byte, what is read is all that counts. -/
theorem readText_of_not_binary (h : ¬Binary bytes) :
    readText (some bytes) maxBytes = some (head bytes) := if_neg h

theorem excerpt_binary (h : Binary bytes) :
    excerpt window (some bytes) path line reason = none := by
  have hread : readText (some bytes) maxBytes = none := if_pos h
  rw [excerpt, hread]

/-- A file that is short enough is shown as it was read. -/
theorem excerpt_short (h : ¬Binary bytes)
    (hlength : (splitlines (head bytes)).length ≤ window.maxExcerptLines) :
    excerpt window (some bytes) path line reason = some
      { path, content := head bytes, startLine := 1,
        endLine := some (splitlines (head bytes)).length, reason } := by
  rw [excerpt, readText_of_not_binary h]
  exact if_pos hlength

/-- Of any other file a window of lines is shown. -/
theorem excerpt_long (h : ¬Binary bytes) (path reason : String) {start stop : Nat}
    (hlength : window.maxExcerptLines < (splitlines (head bytes)).length)
    (hstart : start = max 1 (line - window.matchContextLines / 2))
    (hstop : stop = min (splitlines (head bytes)).length (start + window.maxExcerptLines - 1)) :
    excerpt window (some bytes) path line reason = some
      { path, content := joinLines (((splitlines (head bytes)).take stop).drop (start - 1)),
        startLine := start, endLine := some stop,
        reason := reason ++ " (excerpt of a " ++ toString (splitlines (head bytes)).length ++
          "-line file)" } := by
  rw [excerpt, readText_of_not_binary h, hstop, hstart]
  exact if_neg (Nat.not_le.mpr hlength)

/-- If what is read has the lines of the file, its excerpts show the matches. -/
theorem excerptsShow_of_same (h : ¬Binary bytes) (hcomplete : Complete bytes)
    (hsame : splitlines (head bytes) = fileLines (decode bytes) ∨
      ((splitlines (head bytes)).length = 1 ∧ (fileLines (decode bytes)).length = 1)) :
    ExcerptsShow bytes := by
  intro window path line reason shown hcontext hwindow hline hlines hshown
  have hcount : (splitlines (head bytes)).length = (fileLines (decode bytes)).length := by
    rcases hsame with hsame | ⟨hleft, hright⟩
    · rw [hsame]
    · rw [hleft, hright]
  by_cases hshort : (splitlines (head bytes)).length ≤ window.maxExcerptLines
  · rw [excerpt_short h hshort, Option.some.injEq] at hshown
    subst hshown
    have hfew : (fileLines (decode bytes)).length ≤ window.maxExcerptLines := hcount ▸ hshort
    refine ⟨_, rfl, le_rfl, hcount ▸ hline.trans hlines, ⟨hline, hcount ▸ hlines⟩, ?_,
      Nat.le_of_eq hcount, ?_⟩
    · intro hlong
      exact absurd hfew (Nat.not_le.mpr hlong)
    · rcases hcomplete with hall | hjoined
      · exact .inr ⟨rfl, hcount, hall⟩
      · refine .inl ?_
        rw [hcount, List.take_length]
        exact hjoined
  · have hlong : window.maxExcerptLines < (splitlines (head bytes)).length := Nat.not_le.mp hshort
    rw [excerpt_long h _ _ hlong rfl rfl, Option.some.injEq] at hshown
    subst hshown
    have heq : splitlines (head bytes) = fileLines (decode bytes) := by
      rcases hsame with hsame | ⟨hone, -⟩
      · exact hsame
      · omega
    have hhalf : window.matchContextLines / 2 < window.maxExcerptLines := by omega
    rw [heq]
    refine ⟨_, rfl, Nat.le_max_left _ _, ?_, ⟨?_, ?_⟩, fun _ => ?_, Nat.min_le_left _ _, .inl rfl⟩
    · dsimp only
      omega
    · dsimp only
      omega
    · omega
    · dsimp only
      omega

theorem mem_joinLines {lines : List (List CodePoint)} {c : CodePoint} (h : c ∈ joinLines lines) :
    c = lineFeed ∨ ∃ line ∈ lines, c ∈ line := by
  induction lines with
  | nil => cases h
  | cons line lines ih =>
    rcases lines with - | ⟨next, lines⟩
    · have hmem : c ∈ line := by simpa [joinLines, List.intercalate] using h
      exact .inr ⟨line, List.mem_cons_self, hmem⟩
    · have hparts : joinLines (line :: next :: lines) =
          line ++ ([lineFeed] ++ joinLines (next :: lines)) := by
        simp [joinLines, List.intercalate]
      rw [hparts, List.mem_append, List.mem_append, List.mem_singleton] at h
      rcases h with hmem | rfl | hmem
      · exact .inr ⟨line, List.mem_cons_self, hmem⟩
      · exact .inl rfl
      · exact (ih hmem).imp_right fun hlater => by
          rcases hlater with ⟨later, hlater, hc⟩
          exact ⟨later, List.mem_cons_of_mem line hlater, hc⟩

/-- What is read has the lines of the file exactly if its lines end at line feeds only and are
    those of the file. -/
theorem splitlines_head_eq_iff (h : Complete bytes) :
    splitlines (head bytes) = fileLines (decode bytes) ↔
      Regular (head bytes) ∧ fileLines (head bytes) = fileLines (decode bytes) := by
  constructor
  · intro heq
    have hregular : Regular (head bytes) := by
      rcases h with hall | hjoined
      · rw [← splitlines_eq_fileLines_iff, heq, hall]
      · intro c hc hend
        have hmem := mem_of_mem_dropReturns hc
        rw [hjoined, ← heq] at hmem
        rcases mem_joinLines hmem with rfl | ⟨line, hline, hc⟩
        · exact beq_self_eq_true lineFeed
        · have hplain : isLineEnd c.val = false := plain_of_mem_lines hline c hc
          rw [hplain] at hend
          cases hend
    exact ⟨hregular, (splitlines_eq_fileLines_iff.mpr hregular).symm.trans heq⟩
  · rintro ⟨hregular, hsame⟩
    exact (splitlines_eq_fileLines_iff.mpr hregular).trans hsame

/-- A wide window shows all that was read. -/
theorem complete_of_excerptsShow (h : ¬Binary bytes) (hne : fileLines (decode bytes) ≠ [])
    (hshow : ExcerptsShow bytes) :
    (splitlines (head bytes)).length = (fileLines (decode bytes)).length ∧ Complete bytes := by
  have hpos : 1 ≤ (fileLines (decode bytes)).length := List.length_pos_iff.mpr hne
  let wide : Window := ⟨1, (splitlines (head bytes)).length + 1⟩
  have hshort : (splitlines (head bytes)).length ≤ wide.maxExcerptLines := Nat.le_succ _
  rcases hshow wide "" (fileLines (decode bytes)).length "" _ Nat.one_pos (Nat.succ_pos _) hpos le_rfl
    (excerpt_short h hshort) with ⟨stop, hend, -, -, hcontains, -, hwithin, hcontent⟩
  have hstop : (splitlines (head bytes)).length = stop := Option.some.inj hend
  have hcount : (splitlines (head bytes)).length = (fileLines (decode bytes)).length := by
    rw [hstop]
    exact Nat.le_antisymm hwithin hcontains.2
  refine ⟨hcount, ?_⟩
  rcases hcontent with hjoined | ⟨-, -, hall⟩
  · rw [← hstop, hcount, List.take_length] at hjoined
    exact .inr hjoined
  · exact .inl hall

/-- A window of one line shows that line. -/
theorem sameLines_of_excerptsShow (h : ¬Binary bytes) (hne : fileLines (decode bytes) ≠ [])
    (hshow : ExcerptsShow bytes) (hmany : 1 < (fileLines (decode bytes)).length) :
    splitlines (head bytes) = fileLines (decode bytes) := by
  have hcount := (complete_of_excerptsShow h hne hshow).1
  refine List.ext_getElem hcount fun i hi hi' => ?_
  let narrow : Window := ⟨1, 1⟩
  have hlong : narrow.maxExcerptLines < (splitlines (head bytes)).length := hcount ▸ hmany
  have hstart : i + 1 = max 1 (i + 1 - narrow.matchContextLines / 2) := by
    dsimp only [narrow]
    omega
  have hwindow : i + 1 =
      min (splitlines (head bytes)).length (i + 1 + narrow.maxExcerptLines - 1) := by
    dsimp only [narrow]
    omega
  have hexcerpt := excerpt_long h "" "" hlong hstart hwindow
  rcases hshow narrow "" (i + 1) "" _ Nat.one_pos le_rfl (Nat.succ_pos i) hi' hexcerpt with
    ⟨stop, hend, -, -, -, -, -, hcontent⟩
  have hstop : i + 1 = stop := Option.some.inj hend
  have hone (lines : List (List CodePoint)) (hlines : i < lines.length) :
      joinLines ((lines.take (i + 1)).drop (i + 1 - 1)) = lines[i] := by
    have hslice : (lines.take (i + 1)).drop (i + 1 - 1) = [lines[i]] := by
      rw [Nat.add_sub_cancel, List.take_add_one, List.drop_append_of_le_length (by
        rw [List.length_take]; omega), List.drop_of_length_le (by
        rw [List.length_take]; omega), List.getElem?_eq_getElem hlines]
      rfl
    rw [hslice, joinLines, List.intercalate]
    simp
  rcases hcontent with hjoined | ⟨hstart, hall, -⟩
  · dsimp only at hjoined
    rw [← hstop, hone _ hi, hone _ hi'] at hjoined
    exact hjoined
  · dsimp only at hstart
    omega

/-- The excerpts of a file show the matches in it if and only if it is taken for binary, or has no
    lines, or all of it is read and its lines end at line feeds only or there is just one. -/
theorem excerptsShow_iff (bytes : List UInt8) :
    ExcerptsShow bytes ↔ Binary bytes ∨ fileLines (decode bytes) = [] ∨
      (Complete bytes ∧ SameLines bytes) := by
  by_cases hbinary : Binary bytes
  · refine iff_of_true ?_ (.inl hbinary)
    intro window path line reason shown _ _ _ _ hshown
    rw [excerpt_binary hbinary] at hshown
    cases hshown
  rw [or_iff_right hbinary]
  by_cases hne : fileLines (decode bytes) = []
  · refine iff_of_true ?_ (.inl hne)
    intro window path line reason shown _ _ hline hlines
    rw [hne] at hlines
    exact absurd (hline.trans hlines) (Nat.not_succ_le_zero 0)
  rw [or_iff_right hne]
  constructor
  · intro hshow
    rcases complete_of_excerptsShow hbinary hne hshow with ⟨hcount, hcomplete⟩
    refine ⟨hcomplete, ?_⟩
    rcases Nat.lt_or_ge 1 (fileLines (decode bytes)).length with hmany | hone
    · exact .inl ((splitlines_head_eq_iff hcomplete).mp
        (sameLines_of_excerptsShow hbinary hne hshow hmany))
    · have hpos : 1 ≤ (fileLines (decode bytes)).length := List.length_pos_iff.mpr hne
      exact .inr ⟨by omega, by omega⟩
  · rintro ⟨hcomplete, hsame⟩
    exact excerptsShow_of_same hbinary hcomplete
      (hsame.imp_left (splitlines_head_eq_iff hcomplete).mpr)

/-- A form feed in the first line. -/
def formFeed : List UInt8 := [97, 12, 98, 10, 99, 10]

/-- The excerpt of the second line then shows a part of the first one. -/
theorem not_excerptsShow_formFeed :
    excerpt ⟨1, 1⟩ (some formFeed) "notes.txt" 2 "1 match(es) for 'c'" = some
      { path := "notes.txt", content := [98], startLine := 2, endLine := some 2,
        reason := "1 match(es) for 'c' (excerpt of a 3-line file)" } ∧
      fileLines (decode formFeed) = [[97, 12, 98], [99]] ∧ ¬ExcerptsShow formFeed := by
  have hexcerpt : excerpt ⟨1, 1⟩ (some formFeed) "notes.txt" 2 "1 match(es) for 'c'" = some
      { path := "notes.txt", content := [98], startLine := 2, endLine := some 2,
        reason := "1 match(es) for 'c' (excerpt of a 3-line file)" } := by decide +kernel
  have hlines : fileLines (decode formFeed) = [[97, 12, 98], [99]] := by decide +kernel
  refine ⟨hexcerpt, hlines, fun hshow => ?_⟩
  rcases hshow ⟨1, 1⟩ "notes.txt" 2 "1 match(es) for 'c'" _ Nat.one_pos le_rfl (Nat.succ_pos 1)
    (by rw [hlines]; exact le_rfl) hexcerpt with ⟨stop, hend, -, -, -, -, -, hcontent⟩
  have hstop : 2 = stop := Option.some.inj hend
  rw [← hstop, hlines] at hcontent
  rcases hcontent with hjoined | ⟨hstart, -⟩
  · revert hjoined
    decide +kernel
  · cases hstart

end AgenticPlatform.Excerpts
