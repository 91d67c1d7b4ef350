import AgenticPlatform.SearchMatches
import AgenticPlatform.Validation
import Mathlib.Data.List.TakeWhile

/-!
# The statistics of a diff

`Patch.from_unified_diff` tells the headers of a diff from its content by how a line begins,
and its lines are those of `str.splitlines`. A removed line `-- x` is printed as `--- x`, which
begins like a header and is not counted, and a form feed in a line starts a new one.
-/

namespace AgenticPlatform.Patch

def startsWith (word : String) (line : List Char) : Bool := word.toList.isPrefixOf line

/-! ### Reading a diff -/

/-- What follows the shortest first name: a name has at least one character, and so has what
    stands after the ` b/`. -/
def secondName : List Char → Option (List Char)
  | [] => none
  | _ :: rest =>
    match " b/".toList.isPrefixOf? rest with
    | some (c :: name) => some (c :: name)
    | _ => secondName rest

/-- `_DIFF_GIT_RE.match(line)`: the group `b`. A line holds no line feed. -/
def headerPath (line : List Char) : Option (List Char) :=
  ("diff --git a/".toList.isPrefixOf? line).bind secondName

structure Scan where
  changes : List FileChange
  currentPath : Option String
  added : Nat
  removed : Nat

namespace Scan

def flush (scan : Scan) : Scan :=
  match scan.currentPath with
  | some path => ⟨scan.changes ++ [⟨path, scan.added, scan.removed⟩], none, 0, 0⟩
  | none => ⟨scan.changes, none, 0, 0⟩

def read (scan : Scan) (line : List Char) : Scan :=
  match headerPath line with
  | some path => { scan.flush with currentPath := some (String.ofList path) }
  | none =>
    if scan.currentPath = none ∨
        (startsWith "---" line || startsWith "+++" line || startsWith "@@" line) = true then scan
    else if startsWith "+" line then { scan with added := scan.added + 1 }
    else if startsWith "-" line then { scan with removed := scan.removed + 1 }
    else scan

end Scan

def parseStats (diff : String) : List FileChange :=
  ((splitLines diff.toList).foldl Scan.read ⟨[], none, 0, 0⟩).flush.changes

def fromUnifiedDiff (diff : String) (baseRevision : Option String) : Patch :=
  ⟨diff, baseRevision, parseStats diff⟩

/-! ### The diffs that git writes -/

inductive Marker where
  | context
  | added
  | removed
  /-- Before `No newline at end of file`. -/
  | noNewline
deriving DecidableEq, Repr

def Marker.char : Marker → Char
  | .context => ' '
  | .added => '+'
  | .removed => '-'
  | .noNewline => '\\'

structure HunkLine where
  marker : Marker
  content : List Char
  one_line : '\n' ∉ content

def HunkLine.text (line : HunkLine) : List Char := line.marker.char :: line.content

structure Hunk where
  oldStart : Nat
  newStart : Nat
  /-- What stands after the second `@@`, such as the function that the hunk is in. -/
  heading : List Char
  lines : List HunkLine
  one_line : '\n' ∉ heading

namespace Hunk

def count (hunk : Hunk) (marker : Marker) : Nat :=
  hunk.lines.countP fun line => line.marker = marker

/-- A range of one line goes without its length. -/
def range (start length : Nat) : String :=
  if length = 1 then toString start else toString start ++ "," ++ toString length

def header (hunk : Hunk) : List Char :=
  ("@@ -" ++ range hunk.oldStart (hunk.count .context + hunk.count .removed) ++
    " +" ++ range hunk.newStart (hunk.count .context + hunk.count .added) ++ " @@").toList ++
    hunk.heading

def texts (hunk : Hunk) : List (List Char) := hunk.header :: hunk.lines.map HunkLine.text

end Hunk

/-- A name as it is printed: in quotes, and escaped, if it has an unusual character. -/
structure PrintedName where
  quoted : Bool
  text : List Char
  one_line : '\n' ∉ text

def PrintedName.print (name : PrintedName) (side : Char) : List Char :=
  if name.quoted then '"' :: side :: '/' :: name.text ++ ['"'] else side :: '/' :: name.text

/-- A line between the header of a file and its first hunk: modes, similarity, renames, the
    two names, or what stands for binary content. -/
structure Extended (text : List Char) : Prop where
  one_line : '\n' ∉ text
  unsigned : ∀ sign ∈ ['+', '-'], [sign] <+: text → [sign, sign, sign] <+: text
  no_header : ¬ "diff --git ".toList <+: text

abbrev ExtendedLine := { text : List Char // Extended text }

structure Section where
  oldName : PrintedName
  newName : PrintedName
  extended : List ExtendedLine
  hunks : List Hunk

namespace Section

def header (file : Section) : List Char :=
  "diff --git ".toList ++ file.oldName.print 'a' ++ ' ' :: file.newName.print 'b'

/-- The lines after the header. -/
def body (file : Section) : List (List Char) :=
  file.extended.map Subtype.val ++ file.hunks.flatMap Hunk.texts

def texts (file : Section) : List (List Char) := file.header :: file.body

/-- How many lines of the hunks have the marker. -/
def count (file : Section) (marker : Marker) : Nat := (file.hunks.map fun hunk => hunk.count marker).sum

end Section

def diffText (files : List Section) : String :=
  String.ofList ((files.flatMap Section.texts).flatMap fun line => line ++ ['\n'])

/-- One change for each file, with the numbers of added and removed lines of its hunks. -/
def Exact (files : List Section) (base : Option String) : Prop :=
  (fromUnifiedDiff (diffText files) base).files.map (fun change => (change.addedLines, change.removedLines)) =
    files.map fun file => (file.count .added, file.count .removed)

instance (files : List Section) (base : Option String) : Decidable (Exact files base) :=
  inferInstanceAs (Decidable (_ = _))

/-! ### What goes wrong -/

/-- The line up to the first character that `str.splitlines` ends it at. -/
def firstPiece (line : List Char) : List Char := line.takeWhile fun c => !isLineEnd c.toNat

/-- What `str.splitlines` makes of the rest of the line. -/
def laterPieces (line : List Char) : List (List Char) := (splitLines (line ++ ['\n'])).tail

/-- The line is taken for one that was added, or removed. -/
def counted (sign : Char) (line : List Char) : Bool :=
  [sign].isPrefixOf line && !(startsWith "---" line || startsWith "+++" line || startsWith "@@" line)

/-- The lines of the hunks that look like the header of a file: their content begins with the
    sign twice. -/
def missed (file : Section) (marker : Marker) : Nat :=
  ((file.hunks.flatMap Hunk.lines).filter fun line => line.marker = marker).countP fun line =>
    [marker.char, marker.char].isPrefixOf line.content

/-- The pieces inside a line that look like an added line, or a removed one. -/
def stray (file : Section) (marker : Marker) : Nat :=
  (file.texts.flatMap laterPieces).countP (counted marker.char)

/-- The header of each file is matched, and no piece inside a line is. -/
def Headed (files : List Section) : Prop :=
  ∀ file ∈ files, headerPath (firstPiece file.header) ≠ none ∧
    ∀ piece ∈ file.texts.flatMap laterPieces, headerPath piece = none

/-- In each file, as many pieces inside a line are counted as lines are missed. -/
def Balanced (files : List Section) : Prop :=
  ∀ file ∈ files, ∀ marker ∈ [Marker.added, Marker.removed], missed file marker = stray file marker

/-! ### Pieces of a line -/

section Pieces

variable {line text : List Char} {word : String}

/-- A line with its line feed, and what comes after it. -/
theorem splitLines_append (line rest : List Char) :
    splitLines (line ++ '\n' :: rest) = splitLines (line ++ ['\n']) ++ splitLines rest := by
  rw [splitLines, splitLines, splitLines]
  apply Lines.lines_dropReturns_append
  · exact EngineMatch.isLineEnd_lf
  · decide

theorem not_lineEnd {word : List Char} (h : Lines.Plain (fun c => isLineEnd c.toNat) word) :
    ∀ c ∈ word, (!isLineEnd c.toNat) = true := by
  intro c hc
  have hno : isLineEnd c.toNat = false := h c hc
  rw [hno]
  rfl

theorem splitLines_cons (line : List Char) :
    splitLines (line ++ ['\n']) = firstPiece line :: laterPieces line := by
  have hfirst : ∃ later, splitLines (line ++ ['\n']) = firstPiece line :: later := by
    rcases Lines.plain_or_split (fun c => isLineEnd c.toNat) line with hplain |
      ⟨piece, e, rest, rfl, hplain, he⟩
    · have hwhole : firstPiece line = line := by
        rw [firstPiece, List.takeWhile_eq_self_iff]
        exact not_lineEnd hplain
      rw [hwhole]
      exact Lines.lines_dropReturns_split hplain EngineMatch.isLineEnd_lf EngineMatch.isLineEnd_cr EngineMatch.isLineEnd_lf (by decide) []
    · have hpiece : firstPiece (piece ++ e :: rest) = piece := by
        rw [firstPiece, List.takeWhile_append_of_pos (not_lineEnd hplain), List.takeWhile_cons_of_neg,
          List.append_nil]
        rw [he]
        exact Bool.false_ne_true
      rw [hpiece, List.append_assoc, List.cons_append]
      exact Lines.lines_dropReturns_split hplain he EngineMatch.isLineEnd_cr EngineMatch.isLineEnd_lf (by decide) (rest ++ ['\n'])
  rcases hfirst with ⟨later, hlater⟩
  rw [laterPieces, hlater, List.tail_cons]

theorem splitLines_flatMap (lines : List (List Char)) :
    splitLines (lines.flatMap fun line => line ++ ['\n']) =
      lines.flatMap fun line => firstPiece line :: laterPieces line := by
  induction lines with
  | nil => rfl
  | cons line lines ih =>
    rw [List.flatMap_cons, List.flatMap_cons, List.append_assoc, List.cons_append, List.nil_append,
      splitLines_append, splitLines_cons, ih]

/-- A word without the end of a line begins the first piece exactly if it begins the line. -/
theorem prefix_firstPiece {word : List Char} (h : Lines.Plain (fun c => isLineEnd c.toNat) word) :
    word <+: firstPiece line ↔ word <+: line := by
  constructor
  · intro hprefix
    exact hprefix.trans (List.takeWhile_prefix _)
  · rintro ⟨rest, rfl⟩
    rw [firstPiece, List.takeWhile_append_of_pos (not_lineEnd h)]
    exact List.prefix_append word _

theorem startsWith_iff : startsWith word line = true ↔ word.toList <+: line :=
  List.isPrefixOf_iff_prefix

theorem starts_of_headerPath {path : List Char} (h : headerPath line = some path) :
    "diff --git ".toList <+: line := by
  rw [headerPath, Option.bind_eq_some_iff] at h
  rcases h with ⟨rest, hrest, -⟩
  rw [List.isPrefixOf?_eq_some_iff_append_eq] at hrest
  rw [← hrest]
  exact (by decide +kernel : "diff --git ".toList <+: "diff --git a/".toList).trans (List.prefix_append _ _)

end Pieces

/-! ### Reading the lines of a file -/

namespace Scan

variable {scan : Scan} {line : List Char} {lines : List (List Char)} {path : String}

theorem counted_iff {sign : Char} : counted sign line = true ↔ [sign] <+: line ∧
    ¬ ("---".toList <+: line ∨ "+++".toList <+: line ∨ "@@".toList <+: line) := by
  simp only [counted, Bool.and_eq_true, Bool.not_eq_true', ← Bool.not_eq_true, Bool.or_eq_true,
    startsWith_iff, List.isPrefixOf_iff_prefix, or_assoc]

/-- What a line that is no header adds to the numbers. -/
def after (scan : Scan) (lines : List (List Char)) : Scan :=
  { scan with
    added := scan.added + lines.countP (counted '+'),
    removed := scan.removed + lines.countP (counted '-') }

theorem read_body (hpath : scan.currentPath = some path) (h : headerPath line = none) :
    scan.read line = scan.after [line] := by
  have hopen : scan.currentPath ≠ none := by
    rw [hpath]
    exact Option.some_ne_none path
  rw [read, h]
  dsimp only
  rw [after, List.countP_singleton, List.countP_singleton]
  split
  · rename_i hskipped
    have hno : ∀ sign, counted sign line = false := by
      intro sign
      rw [counted, hskipped.resolve_left hopen, Bool.not_true, Bool.and_false]
    rw [hno, hno]
    rfl
  · rename_i hread
    have hunskipped : (startsWith "---" line || startsWith "+++" line || startsWith "@@" line) = false := by
      rw [← Bool.not_eq_true]
      exact fun hskipped => hread (.inr hskipped)
    have hcounted : ∀ sign, counted sign line = [sign].isPrefixOf line := by
      intro sign
      rw [counted, hunskipped, Bool.not_false, Bool.and_true]
    have hplus : startsWith "+" line = ['+'].isPrefixOf line := rfl
    have hminus : startsWith "-" line = ['-'].isPrefixOf line := rfl
    rw [hcounted, hcounted, hplus, hminus]
    rcases line with - | ⟨c, rest⟩
    · rfl
    · by_cases hadded : '+' = c
      · subst hadded
        rfl
      · by_cases hremoved : '-' = c
        · subst hremoved
          rfl
        · simp [hadded, hremoved]

theorem foldl_body (hpath : scan.currentPath = some path) (h : ∀ line ∈ lines, headerPath line = none) :
    lines.foldl read scan = scan.after lines := by
  induction lines generalizing scan with
  | nil => rfl
  | cons line lines ih =>
    rcases List.forall_mem_cons.mp h with ⟨hline, hlines⟩
    have hnext : (scan.after [line]).currentPath = some path := hpath
    rw [List.foldl_cons, read_body hpath hline, ih hnext hlines, after, after, after]
    simp only [List.countP_cons, List.countP_nil]
    congr 1
    · omega
    · omega

end Scan

/-! ### Counting -/

section Counting

variable {marker : Marker} {lines : List (List Char)}

theorem countP_pieces (test : List Char → Bool) (lines : List (List Char)) :
    (lines.flatMap fun line => firstPiece line :: laterPieces line).countP test =
      (lines.map firstPiece).countP test + (lines.flatMap laterPieces).countP test := by
  induction lines with
  | nil => rfl
  | cons line lines ih =>
    rw [List.flatMap_cons, List.map_cons, List.flatMap_cons, List.countP_append, ih, List.countP_cons,
      List.countP_cons, List.countP_append]
    omega

/-- The sign of a line, and the signs that begin a header, are in its first piece. -/
theorem counted_firstPiece (marker : Marker) (line : List Char) :
    counted marker.char (firstPiece line) = counted marker.char line := by
  have hsign : [marker.char] <+: firstPiece line ↔ [marker.char] <+: line := by
    apply prefix_firstPiece
    rw [Lines.Plain, List.forall_mem_singleton]
    cases marker <;> rfl
  have hword : ∀ word ∈ ["---", "+++", "@@"],
      (word.toList <+: firstPiece line ↔ word.toList <+: line) := by
    have hplain : ∀ word ∈ ["---", "+++", "@@"], word.toList.all (fun c => !isLineEnd c.toNat) = true := by
      decide
    intro word hword
    apply prefix_firstPiece
    intro c hc
    have hno : (!isLineEnd c.toNat) = true := List.all_eq_true.mp (hplain word hword) c hc
    rw [Bool.not_eq_true'] at hno
    exact hno
  rw [Bool.eq_iff_iff, Scan.counted_iff, Scan.counted_iff, hsign, hword "---" (by decide),
    hword "+++" (by decide), hword "@@" (by decide)]

theorem counted_extended (line : ExtendedLine) (h : marker = .added ∨ marker = .removed) :
    counted marker.char line.1 = false := by
  rw [← Bool.not_eq_true, Scan.counted_iff]
  rintro ⟨hsign, hword⟩
  rcases h with rfl | rfl
  · exact hword (.inr (.inl (line.2.unsigned '+' (by decide) hsign)))
  · exact hword (.inl (line.2.unsigned '-' (by decide) hsign))

theorem Hunk.exists_header (hunk : Hunk) : ∃ rest, hunk.header = '@' :: '@' :: rest := by
  rw [header, String.append_assoc, String.append_assoc, String.append_assoc, String.toList_append]
  exact ⟨_, rfl⟩

theorem counted_hunkHeader (hunk : Hunk) (h : marker = .added ∨ marker = .removed) :
    counted marker.char hunk.header = false := by
  rcases hunk.exists_header with ⟨rest, hrest⟩
  rw [hrest]
  rcases h with rfl | rfl <;> rfl

/-- A line of a hunk is counted unless its content makes it look like a header. -/
theorem counted_hunkLine (line : HunkLine) (h : marker = .added ∨ marker = .removed) :
    counted marker.char line.text = (decide (line.marker = marker) &&
      !([marker.char, marker.char].isPrefixOf line.content)) := by
  have hminus : "---".toList = ['-', '-', '-'] := rfl
  have hplus : "+++".toList = ['+', '+', '+'] := rfl
  have hat : "@@".toList = ['@', '@'] := rfl
  rw [Bool.eq_iff_iff, Scan.counted_iff, HunkLine.text, Bool.and_eq_true, decide_eq_true_iff,
    Bool.not_eq_true', ← Bool.not_eq_true, List.isPrefixOf_iff_prefix]
  rcases line with ⟨other, content, _⟩
  dsimp only
  rcases h with rfl | rfl
  · cases other <;> simp [Marker.char, List.cons_prefix_cons, hminus, hplus, hat]
  · cases other <;> simp [Marker.char, List.cons_prefix_cons, hminus, hplus, hat]

theorem countP_hunk (hunk : Hunk) (h : marker = .added ∨ marker = .removed) :
    hunk.texts.countP (counted marker.char) =
      hunk.lines.countP fun line => counted marker.char line.text := by
  rw [Hunk.texts, List.countP_cons_of_neg (by rw [counted_hunkHeader hunk h]; exact Bool.false_ne_true),
    List.countP_map]
  rfl

theorem countP_body (file : Section) (h : marker = .added ∨ marker = .removed) :
    file.body.countP (counted marker.char) =
      (file.hunks.flatMap Hunk.lines).countP fun line => counted marker.char line.text := by
  have hextended : (file.extended.map Subtype.val).countP (counted marker.char) = 0 := by
    rw [List.countP_eq_zero]
    intro text htext
    rcases List.mem_map.mp htext with ⟨line, -, rfl⟩
    rw [counted_extended line h]
    exact Bool.false_ne_true
  rw [Section.body, List.countP_append, hextended, Nat.zero_add, List.countP_flatMap, List.countP_flatMap]
  congr 1
  apply List.map_congr_left
  intro hunk _
  exact countP_hunk hunk h

theorem count_eq (file : Section) (marker : Marker) : file.count marker =
    (file.hunks.flatMap Hunk.lines).countP fun line => line.marker = marker := by
  rw [List.countP_flatMap]
  rfl

/-- A line with the marker is counted or missed. -/
theorem countP_body_add_missed (file : Section) (h : marker = .added ∨ marker = .removed) :
    file.body.countP (counted marker.char) + missed file marker = file.count marker := by
  rw [countP_body file h, count_eq, missed]
  induction file.hunks.flatMap Hunk.lines with
  | nil => rfl
  | cons line lines ih =>
    rw [List.countP_cons, List.countP_cons, List.filter_cons, counted_hunkLine line h, ← ih]
    by_cases hmarker : line.marker = marker
    · rw [decide_eq_true hmarker, if_pos rfl, if_pos rfl, List.countP_cons, Bool.true_and]
      cases [marker.char, marker.char].isPrefixOf line.content
      · simp only [Bool.not_false, if_true, Bool.false_eq_true, if_false]
        omega
      · simp only [Bool.not_true, if_true, Bool.false_eq_true, if_false]
        omega
    · rw [decide_eq_false hmarker, if_neg Bool.false_ne_true, if_neg Bool.false_ne_true, Bool.false_and,
        if_neg Bool.false_ne_true]
      omega

/-- What the pieces after the header of a file count. -/
def seen (file : Section) (marker : Marker) : Nat :=
  (laterPieces file.header ++ file.body.flatMap fun line => firstPiece line :: laterPieces line).countP
    (counted marker.char)

/-- **What is counted is what should be, less what is missed, and what strays.** -/
theorem seen_add_missed (file : Section) (h : marker = .added ∨ marker = .removed) :
    seen file marker + missed file marker = file.count marker + stray file marker := by
  have hfirst : (file.body.map firstPiece).countP (counted marker.char) =
      file.body.countP (counted marker.char) := by
    rw [List.countP_map]
    congr 1
    funext line
    exact counted_firstPiece marker line
  rw [← countP_body_add_missed file h, seen, List.countP_append, countP_pieces, hfirst, stray, Section.texts,
    List.flatMap_cons, List.countP_append]
  omega

end Counting

/-! ### Files -/

section Files

variable {scan : Scan} {file : Section} {files : List Section} {path : List Char}

theorem not_header_of_mem_body {line : List Char} (h : line ∈ file.body) : ¬ "diff --git ".toList <+: line := by
  rw [Section.body, List.mem_append] at h
  rcases h with hextended | hhunk
  · rcases List.mem_map.mp hextended with ⟨extended, -, rfl⟩
    exact extended.2.no_header
  · rcases List.mem_flatMap.mp hhunk with ⟨hunk, -, htext⟩
    rw [Hunk.texts] at htext
    rcases List.mem_cons.mp htext with rfl | hline
    · rcases hunk.exists_header with ⟨rest, hrest⟩
      rw [hrest]
      exact fun hprefix => absurd (List.cons_prefix_cons.mp hprefix).1 (by decide)
    · rcases List.mem_map.mp hline with ⟨other, -, rfl⟩
      rw [HunkLine.text]
      intro hprefix
      have hchar : 'd' = other.marker.char := (List.cons_prefix_cons.mp hprefix).1
      revert hchar
      cases other.marker <;> decide

/-- Behind the header of a file, only a piece inside a line can be taken for a header. -/
theorem not_header_of_later (h : ∀ piece ∈ file.texts.flatMap laterPieces, headerPath piece = none) :
    ∀ piece ∈ laterPieces file.header ++ file.body.flatMap fun line => firstPiece line :: laterPieces line,
      headerPath piece = none := by
  rw [Section.texts, List.flatMap_cons, List.forall_mem_append] at h
  rw [List.forall_mem_append]
  refine ⟨h.1, ?_⟩
  intro piece hpiece
  rcases List.mem_flatMap.mp hpiece with ⟨line, hline, hmem⟩
  rcases List.mem_cons.mp hmem with rfl | hlater
  · rcases hpath : headerPath (firstPiece line) with - | path
    · rfl
    · exact absurd ((starts_of_headerPath hpath).trans (List.takeWhile_prefix _)) (not_header_of_mem_body hline)
  · exact h.2 piece (List.mem_flatMap.mpr ⟨line, hline, hlater⟩)

theorem foldl_file (hpath : headerPath (firstPiece file.header) = some path)
    (h : ∀ piece ∈ file.texts.flatMap laterPieces, headerPath piece = none) :
    (file.texts.flatMap fun line => firstPiece line :: laterPieces line).foldl Scan.read scan =
      ⟨scan.flush.changes, some (String.ofList path), seen file .added, seen file .removed⟩ := by
  have hflushed : scan.flush = ⟨scan.flush.changes, none, 0, 0⟩ := by
    rw [Scan.flush]
    split <;> rfl
  have hread : scan.read (firstPiece file.header) =
      ⟨scan.flush.changes, some (String.ofList path), 0, 0⟩ := by
    rw [Scan.read, hpath]
    dsimp only
    rw [hflushed]
  rw [Section.texts, List.flatMap_cons, List.cons_append, List.foldl_cons, hread,
    Scan.foldl_body rfl (not_header_of_later h), Scan.after]
  simp only [Nat.zero_add]
  rfl

/-- The numbers of each file, if its header is read and nothing else is taken for one. -/
theorem foldl_files (h : Headed files) :
    ((files.flatMap fun file => file.texts.flatMap fun line => firstPiece line :: laterPieces line).foldl
      Scan.read scan).flush.changes.map (fun change => (change.addedLines, change.removedLines)) =
    scan.flush.changes.map (fun change => (change.addedLines, change.removedLines)) ++
      files.map fun file => (seen file .added, seen file .removed) := by
  induction files generalizing scan with
  | nil => rw [List.flatMap_nil, List.foldl_nil, List.map_nil, List.append_nil]
  | cons file files ih =>
    rcases List.forall_mem_cons.mp h with ⟨⟨hheader, hlater⟩, hfiles⟩
    rcases Option.ne_none_iff_exists'.mp hheader with ⟨path, hpath⟩
    rw [List.flatMap_cons, List.foldl_append, foldl_file hpath hlater, ih hfiles, Scan.flush, List.map_append,
      List.append_assoc]
    rfl

theorem exact_iff_seen (h : Headed files) (base : Option String) : Exact files base ↔
    ∀ file ∈ files, seen file .added = file.count .added ∧ seen file .removed = file.count .removed := by
  have hlines : splitLines (diffText files).toList =
      files.flatMap fun file => file.texts.flatMap fun line => firstPiece line :: laterPieces line := by
    rw [diffText, String.toList_ofList, splitLines_flatMap, List.flatMap_assoc]
  rw [Exact, fromUnifiedDiff, parseStats, hlines, foldl_files h]
  simp only [Scan.flush, List.map_nil, List.nil_append, List.map_inj_left, Prod.mk.injEq]

/-- **If each header is read and nothing else is taken for one, the statistics are exact
    exactly if the lines that are missed are as many as the pieces that stray.** -/
theorem exact_iff_of_headed (h : Headed files) (base : Option String) :
    Exact files base ↔ Balanced files := by
  rw [exact_iff_seen h]
  refine forall₂_congr fun file hfile => ?_
  have hadded := seen_add_missed file (.inl (Eq.refl Marker.added))
  have hremoved := seen_add_missed file (.inr (Eq.refl Marker.removed))
  rw [List.forall_mem_cons, List.forall_mem_singleton]
  omega

/-- A change is made of every line that the header's pattern matches. -/
theorem length_read (scan : Scan) (line : List Char) : (scan.read line).flush.changes.length =
    scan.flush.changes.length + if (headerPath line).isSome then 1 else 0 := by
  have hlength : ∀ scan : Scan, scan.flush.changes.length =
      scan.changes.length + if scan.currentPath = none then 0 else 1 := by
    intro scan
    rw [Scan.flush]
    split
    · rename_i path hpath
      rw [List.length_append, hpath, if_neg (Option.some_ne_none path), List.length_singleton]
    · rename_i hnone
      rw [if_pos hnone, Nat.add_zero]
  rcases hpath : headerPath line with - | path
  · have hkept : (scan.read line).changes = scan.changes ∧ (scan.read line).currentPath = scan.currentPath := by
      rw [Scan.read, hpath]
      dsimp only
      split_ifs <;> exact ⟨rfl, rfl⟩
    rw [hlength, hlength, hkept.1, hkept.2]
    rfl
  · have hread : scan.read line = { scan.flush with currentPath := some (String.ofList path) } := by
      rw [Scan.read, hpath]
    rw [hread, hlength, if_neg (Option.some_ne_none _)]
    rfl

theorem length_foldl (scan : Scan) (lines : List (List Char)) :
    (lines.foldl Scan.read scan).flush.changes.length =
      scan.flush.changes.length + lines.countP fun line => (headerPath line).isSome := by
  induction lines generalizing scan with
  | nil => rfl
  | cons line lines ih =>
    rw [List.foldl_cons, ih, length_read, List.countP_cons]
    omega

/-- Where the statistics are exact, there are as many matched lines as files. -/
theorem Exact.matched {base : Option String} (h : Exact files base) :
    ((splitLines (diffText files).toList).countP fun line => (headerPath line).isSome) = files.length := by
  have hlength := congrArg List.length h
  rw [List.length_map, List.length_map, fromUnifiedDiff, parseStats, length_foldl] at hlength
  rw [← hlength]
  exact (Nat.zero_add _).symm

/-- **The statistics are exact if each header is matched and nothing else is, and as many
    pieces stray as lines are missed. Where the headers are so, this is needed, and in any case
    there must be as many matched lines as files.** -/
theorem statistics_exact (files : List Section) (base : Option String) :
    (Headed files ∧ Balanced files → Exact files base) ∧
      (Headed files ∧ Exact files base → Balanced files) ∧
      (Exact files base → ((splitLines (diffText files).toList).countP fun line =>
        (headerPath line).isSome) = files.length) := by
  refine ⟨?_, ?_, Exact.matched⟩
  · rintro ⟨hheaded, hbalanced⟩
    exact (exact_iff_of_headed hheaded base).mpr hbalanced
  · rintro ⟨hheaded, hexact⟩
    exact (exact_iff_of_headed hheaded base).mp hexact

theorem unsigned_of_both {text : List Char} (hplus : ['+'] <+: text → ['+', '+', '+'] <+: text)
    (hminus : ['-'] <+: text → ['-', '-', '-'] <+: text) :
    ∀ sign ∈ ['+', '-'], [sign] <+: text → [sign, sign, sign] <+: text :=
  List.forall_mem_cons.mpr ⟨hplus, List.forall_mem_singleton.mpr hminus⟩

theorem extended_lines : Extended "index 64dd5b3..e0ac49d 100644".toList ∧
    Extended "--- a/query.sql".toList ∧ Extended "+++ b/query.sql".toList :=
  ⟨⟨by decide, unsigned_of_both (by decide) (by decide), by decide⟩,
    ⟨by decide, unsigned_of_both (by decide) (by decide), by decide⟩,
    ⟨by decide, unsigned_of_both (by decide) (by decide), by decide⟩⟩

theorem one_lines : '\n' ∉ "query.sql".toList ∧ '\n' ∉ "-- all of it".toList ∧
    '\n' ∉ "select 1;".toList := by
  decide +kernel

/-- A comment is taken out of a file. -/
def commentRemoved : List Section :=
  let name : PrintedName := ⟨false, "query.sql".toList, one_lines.1⟩
  let removed : HunkLine := ⟨.removed, "-- all of it".toList, one_lines.2.1⟩
  let kept : HunkLine := ⟨.context, "select 1;".toList, one_lines.2.2⟩
  [⟨name, name, [⟨_, extended_lines.1⟩, ⟨_, extended_lines.2.1⟩, ⟨_, extended_lines.2.2⟩],
    [⟨1, 1, [], [removed, kept], List.not_mem_nil⟩]⟩]

/-- Its line looks like the header with the old name. -/
theorem comment_not_counted : ¬ Exact commentRemoved none := by decide +kernel

end Files

end AgenticPlatform.Patch
