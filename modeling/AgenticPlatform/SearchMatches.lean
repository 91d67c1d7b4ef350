import AgenticPlatform.Lines
import AgenticPlatform.NumberText

/-!
# The output of a search

Both engines write `path:line:text` and end a record with a line feed. `parse_matches` cuts
their output with `str.splitlines`, which knows other ends of lines, and takes everything for a
number that `str.isdigit` holds of, which `int` may not read.
-/

namespace AgenticPlatform

/-- The characters that `str.splitlines` ends a line at, by their code point. -/
def isLineEnd (code : Nat) : Bool :=
  (10 ≤ code && code ≤ 13) || (28 ≤ code && code ≤ 30) || code == 133 || code == 8232 ||
    code == 8233

/-- `text.splitlines()`. -/
def splitLines (text : List Char) : List (List Char) :=
  Lines.lines (fun c => isLineEnd c.toNat) (Lines.dropReturns '\r' '\n' text)

/-! ### Digits -/

/-- The code points of the digits zero. -/
def decimalZeros : List Nat :=
  [0x30, 0x660, 0x6f0, 0x7c0, 0x966, 0x9e6, 0xa66, 0xae6, 0xb66, 0xbe6, 0xc66, 0xce6, 0xd66,
    0xde6, 0xe50, 0xed0, 0xf20, 0x1040, 0x1090, 0x17e0, 0x1810, 0x1946, 0x19d0, 0x1a80, 0x1a90,
    0x1b50, 0x1bb0, 0x1c40, 0x1c50, 0xa620, 0xa8d0, 0xa900, 0xa9d0, 0xa9f0, 0xaa50, 0xabf0,
    0xff10, 0x104a0, 0x10d30, 0x11066, 0x110f0, 0x11136, 0x111d0, 0x112f0, 0x11450, 0x114d0,
    0x11650, 0x116c0, 0x11730, 0x118e0, 0x11950, 0x11c50, 0x11d50, 0x11da0, 0x11f50, 0x16a60,
    0x16ac0, 0x16b50, 0x1d7ce, 0x1d7d8, 0x1d7e2, 0x1d7ec, 0x1d7f6, 0x1e140, 0x1e2f0, 0x1e4f0,
    0x1e950, 0x1fbf0]

/-- Where the digits are that are not decimal ones, such as those of a superscript. -/
def otherDigits : List (Nat × Nat) :=
  [(0xb2, 0xb3), (0xb9, 0xb9), (0x1369, 0x1371), (0x19da, 0x19da), (0x2070, 0x2070),
    (0x2074, 0x2079), (0x2080, 0x2089), (0x2460, 0x2468), (0x2474, 0x247c), (0x2488, 0x2490),
    (0x24ea, 0x24ea), (0x24f5, 0x24fd), (0x24ff, 0x24ff), (0x2776, 0x277e), (0x2780, 0x2788),
    (0x278a, 0x2792), (0x10a40, 0x10a43), (0x10e60, 0x10e68), (0x11052, 0x1105a),
    (0x1f100, 0x1f10a)]

/-- The value of a decimal digit. -/
def decimal (c : Char) : Option Nat :=
  decimalZeros.findSome? fun start =>
    if start ≤ c.toNat ∧ c.toNat < start + 10 then some (c.toNat - start) else none

/-- `str.isdigit` for one character. -/
def isDigit (c : Char) : Bool :=
  (decimal c).isSome || otherDigits.any fun range => range.1 ≤ c.toNat && c.toNat ≤ range.2

/-- `int(text)`, for a text of digits. -/
def readDecimals (text : List Char) : Option Nat :=
  if text.length ≤ maxStrDigits then (text.mapM decimal).map (foldDigits 10 0) else none

theorem decimal_ascii {c : Char} (h : c.isDigit = true) : decimal c = some (c.toNat - 48) := by
  have hle : '0' ≤ c ∧ c ≤ '9' := by
    simpa [Char.isDigit, Char.le_def] using h
  have hlow : 48 ≤ c.toNat := hle.1
  have hhigh : c.toNat ≤ 57 := hle.2
  have hrange : 0x30 ≤ c.toNat ∧ c.toNat < 0x30 + 10 := by omega
  rw [decimal, decimalZeros, List.findSome?_cons, if_pos hrange]

theorem mapM_decimal {text : List Char} (h : ∀ c ∈ text, c.isDigit = true) :
    text.mapM decimal = some (text.map fun c => c.toNat - 48) := by
  induction text with
  | nil => rfl
  | cons c text ih =>
    rcases List.forall_mem_cons.mp h with ⟨hc, htext⟩
    rw [List.mapM_cons, decimal_ascii hc, ih htext]
    rfl

theorem readDecimals_toString {n : Nat} (h : (toString n).toList.length ≤ maxStrDigits) :
    readDecimals (toString n).toList = some n := by
  have hchars : (toString n).toList = Nat.toDigits 10 n := Nat.toList_repr
  have hdigit : ∀ c ∈ Nat.toDigits 10 n, c.isDigit = true := fun c hc =>
    Nat.isDigit_of_mem_toDigits (by decide) (by decide) hc
  rw [readDecimals, if_pos h, hchars, mapM_decimal hdigit, Option.map_some, foldDigits_chars,
    Nat.ofDigitChars_ten_toDigits]

/-! ### Records -/

/-- One matching line. -/
structure SearchMatch where
  path : List Char
  lineNumber : Nat
  line : List Char
deriving DecidableEq, Repr

/-- What stands before and after the first colon. -/
def splitColon : List Char → Option (List Char × List Char)
  | [] => none
  | c :: text =>
    if c = ':' then some ([], text)
    else (splitColon text).map fun parts => (c :: parts.1, parts.2)

/-- `path.removeprefix("./")`. -/
def removeHere (path : List Char) : List Char :=
  if "./".toList.isPrefixOf path then path.drop 2 else path

/-- What a line of the output is taken for. -/
inductive SearchRecord where
  | skipped
  | unreadable (number : List Char)
  | found (found : SearchMatch)

/-- `raw.split(":", 2)`, and the number in the middle. -/
def readRecord (raw : List Char) : SearchRecord :=
  match splitColon raw with
  | none => .skipped
  | some (path, rest) =>
    match splitColon rest with
    | none => .skipped
    | some (number, line) =>
      if number ≠ [] ∧ number.all isDigit = true then
        match readDecimals number with
        | some lineNumber => .found ⟨removeHere path, lineNumber, line⟩
        | none => .unreadable number
      else .skipped

/-- What `int` raises for a text of digits that it does not read: it counts the digits up to the
    first that is not decimal. -/
def unreadableError (number : List Char) : PyError :=
  let count := (number.takeWhile fun c => (decimal c).isSome).length
  if count ≤ maxStrDigits then
    .valueError (String.ofList
      ("invalid literal for int() with base 10: ".toList ++
        (quoted (String.ofList number)).toList.take 200))
  else .valueError ("Exceeds the limit (" ++ toString maxStrDigits ++
    " digits) for integer string conversion: value has " ++ toString count ++
    " digits; use sys.set_int_max_str_digits() to increase the limit")

/-- The loop of `parse_matches`, from the matches that were found. -/
def collect (limit : Int) (results : List SearchMatch) :
    List (List Char) → Except PyError (List SearchMatch)
  | [] => .ok results
  | raw :: rest =>
    match readRecord raw with
    | .skipped => collect limit results rest
    | .unreadable number => .error (unreadableError number)
    | .found found =>
      if (results.length + 1 : Int) ≥ limit then .ok (results ++ [found])
      else collect limit (results ++ [found]) rest

/-- `parse_matches`. -/
def parseMatches (stdout : List Char) (limit : Int) : Except PyError (List SearchMatch) :=
  collect limit [] (splitLines stdout)

/-- A match as the engines write it: no colon and no line end in the path, and the line is cut
    at line feeds. -/
structure EngineMatch extends SearchMatch where
  path_colon : ':' ∉ path
  path_line : Lines.Plain (fun c => isLineEnd c.toNat) path
  line_feed : '\n' ∉ line

namespace EngineMatch

/-- `path:line:text`. -/
def record (found : EngineMatch) : List Char :=
  found.path ++ ':' :: (toString found.lineNumber).toList ++ ':' :: found.line

/-- The output of an engine. -/
def render (all : List EngineMatch) : List Char := all.flatMap fun found => found.record ++ ['\n']

/-- The match as it is to be returned. -/
def returned (found : EngineMatch) : SearchMatch :=
  { found.toSearchMatch with path := removeHere found.path }

/-- The line has no end of a line in it but for line feeds, and the number is one that `int`
    reads. -/
structure Legible (found : EngineMatch) : Prop where
  line : Lines.Plain (fun c => isLineEnd c.toNat) found.line
  number : (toString found.lineNumber).toList.length ≤ maxStrDigits

variable {found : EngineMatch} {all : List EngineMatch} {limit : Int}

theorem splitColon_append {before after : List Char} (h : ':' ∉ before) :
    splitColon (before ++ ':' :: after) = some (before, after) := by
  induction before with
  | nil => rfl
  | cons c before ih =>
    rw [List.mem_cons, not_or] at h
    rw [List.cons_append, splitColon, if_neg (Ne.symm h.1), ih h.2]
    rfl

theorem isDigit_of_ascii {c : Char} (h : c.isDigit = true) : isDigit c = true := by
  rw [isDigit, decimal_ascii h]
  rfl

theorem colon_not_mem_number (n : Nat) : ':' ∉ (toString n).toList := by
  intro hmem
  have hchars : (toString n).toList = Nat.toDigits 10 n := Nat.toList_repr
  rw [hchars] at hmem
  have hdigit := Nat.isDigit_of_mem_toDigits (b := 10) (by decide) (by decide) hmem
  revert hdigit
  decide

/-- A record whose line may be cut short, read again. -/
theorem readRecord_record (found : EngineMatch) (line : List Char) :
    readRecord (found.path ++ ':' :: (toString found.lineNumber).toList ++ ':' :: line) =
      if (toString found.lineNumber).toList.length ≤ maxStrDigits then
        .found ⟨removeHere found.path, found.lineNumber, line⟩
      else .unreadable (toString found.lineNumber).toList := by
  have hnumber : (toString found.lineNumber).toList ≠ [] ∧
      (toString found.lineNumber).toList.all isDigit = true := by
    have hchars : (toString found.lineNumber).toList = Nat.toDigits 10 found.lineNumber :=
      Nat.toList_repr
    rw [hchars]
    refine ⟨Nat.toDigits_ne_nil, List.all_eq_true.mpr fun c hc => ?_⟩
    exact isDigit_of_ascii (Nat.isDigit_of_mem_toDigits (by decide) (by decide) hc)
  rw [readRecord, List.append_assoc, List.cons_append, splitColon_append found.path_colon]
  dsimp only
  rw [splitColon_append (colon_not_mem_number found.lineNumber)]
  dsimp only
  rw [if_pos hnumber]
  by_cases hshort : (toString found.lineNumber).toList.length ≤ maxStrDigits
  · rw [if_pos hshort, readDecimals_toString hshort]
  · have hlong : readDecimals (toString found.lineNumber).toList = none := if_neg hshort
    rw [if_neg hshort, hlong]

/-- What is found stays found. -/
theorem prefix_of_collect {lines : List (List Char)} {results out : List SearchMatch}
    (h : collect limit results lines = .ok out) : results <+: out := by
  induction lines generalizing results with
  | nil =>
    rw [collect, Except.ok.injEq] at h
    exact h ▸ List.prefix_rfl
  | cons raw lines ih =>
    rw [collect] at h
    split at h
    · exact ih h
    · cases h
    · rename_i found _
      split at h
      · rw [Except.ok.injEq] at h
        rw [← h]
        exact List.prefix_append results [found]
      · exact (List.prefix_append results [found]).trans (ih h)

theorem isLineEnd_cr : isLineEnd '\r'.toNat = true := rfl

theorem isLineEnd_lf : isLineEnd '\n'.toNat = true := rfl

/-- Digits end no line. -/
theorem plain_number (n : Nat) :
    Lines.Plain (fun c => isLineEnd c.toNat) (toString n).toList := by
  intro c hc
  have hchars : (toString n).toList = Nat.toDigits 10 n := Nat.toList_repr
  rw [hchars] at hc
  have hdigit : c.isDigit = true := Nat.isDigit_of_mem_toDigits (by decide) (by decide) hc
  have hle : '0' ≤ c ∧ c ≤ '9' := by simpa [Char.isDigit, Char.le_def] using hdigit
  have hlow : 48 ≤ c.toNat := hle.1
  have hhigh : c.toNat ≤ 57 := hle.2
  have hrange : ¬c.toNat ≤ 13 ∧ ¬c.toNat ≤ 30 ∧ c.toNat ≠ 133 ∧ c.toNat ≠ 8232 ∧
      c.toNat ≠ 8233 := by omega
  rcases hrange with ⟨h13, h30, h133, h8232, h8233⟩
  simp [isLineEnd, h13, h30, h133, h8232, h8233]

/-- A part of a record that has the path and the number in it ends no line when the part of the
    line ends none. -/
theorem plain_record {line : List Char} (h : Lines.Plain (fun c => isLineEnd c.toNat) line) :
    Lines.Plain (fun c => isLineEnd c.toNat)
      (found.path ++ ':' :: (toString found.lineNumber).toList ++ ':' :: line) := by
  intro c hc
  rw [List.append_assoc, List.mem_append, List.cons_append, List.mem_cons, List.mem_append,
    List.mem_cons] at hc
  rcases hc with hc | rfl | hc | rfl | hc
  · exact found.path_line c hc
  · rfl
  · exact plain_number found.lineNumber c hc
  · rfl
  · exact h c hc

theorem render_cons : render (found :: all) =
    found.path ++ ':' :: (toString found.lineNumber).toList ++ ':' :: found.line ++
      '\n' :: render all := by
  rw [render, List.flatMap_cons, record, List.append_assoc, ← render]
  rfl

/-- A record whose line has no other end in it is one line. -/
theorem splitLines_render (h : Lines.Plain (fun c => isLineEnd c.toNat) found.line) :
    splitLines (render (found :: all)) = found.record :: splitLines (render all) := by
  have hplain := @plain_record found _ h
  have hcr : '\r' ∉ found.path ++ ':' :: (toString found.lineNumber).toList ++
      ':' :: found.line := by
    intro hmem
    have hno : isLineEnd '\r'.toNat = false := hplain '\r' hmem
    rw [isLineEnd_cr] at hno
    cases hno
  rw [render_cons, splitLines, Lines.dropReturns_append hcr,
    Lines.dropReturns_cons_of_ne (by decide), Lines.lines_append_end hplain isLineEnd_lf]
  rfl

/-- Any other record is cut short. -/
theorem splitLines_render_cut (h : ¬Lines.Plain (fun c => isLineEnd c.toNat) found.line)
    (all : List EngineMatch) :
    ∃ line later, line ≠ found.line ∧ splitLines (render (found :: all)) =
      (found.path ++ ':' :: (toString found.lineNumber).toList ++ ':' :: line) :: later := by
  rcases Lines.plain_or_split (fun c => isLineEnd c.toNat) found.line with hplain |
    ⟨line, e, rest, hline, hplain, he⟩
  · exact absurd hplain h
  rcases Lines.lines_dropReturns_split (plain_record hplain) he
    isLineEnd_cr isLineEnd_lf (by decide) (rest ++ '\n' :: render all) with ⟨later, hlater⟩
  refine ⟨line, later, ?_, ?_⟩
  · intro heq
    have hlength : line.length = (line ++ e :: rest).length := by rw [← hline, ← heq]
    rw [List.length_append, List.length_cons] at hlength
    omega
  · rw [render_cons, hline, splitLines, ← hlater]
    simp only [List.append_assoc, List.cons_append]

/-- What is read of a legible record. -/
theorem readRecord_legible (h : found.Legible) : readRecord found.record = .found found.returned :=
  (readRecord_record found found.line).trans (if_pos h.number)

/-- The first record is found as it was, or something else happens at its place. -/
theorem collect_cut {results : List SearchMatch} (h : ¬found.Legible) (later : List SearchMatch) :
    collect limit results (splitLines (render (found :: all))) ≠
      .ok (results ++ found.returned :: later) := by
  intro hcollect
  by_cases hplain : Lines.Plain (fun c => isLineEnd c.toNat) found.line
  · have hlong : ¬(toString found.lineNumber).toList.length ≤ maxStrDigits := fun hnumber =>
      h ⟨hplain, hnumber⟩
    have hread : readRecord found.record = .unreadable (toString found.lineNumber).toList :=
      (readRecord_record found found.line).trans (if_neg hlong)
    rw [splitLines_render hplain, collect, hread] at hcollect
    cases hcollect
  · rcases splitLines_render_cut hplain all with ⟨line, rest, hne, hsplit⟩
    rw [hsplit, collect, readRecord_record] at hcollect
    split at hcollect
    · rename_i hskipped
      split at hskipped <;> cases hskipped
    · cases hcollect
    · rename_i other hother
      have hother' : other = ⟨removeHere found.path, found.lineNumber, line⟩ := by
        split at hother
        · cases hother
          rfl
        · cases hother
      have hprefix : results ++ [other] <+: results ++ found.returned :: later := by
        split at hcollect
        · rw [Except.ok.injEq] at hcollect
          exact hcollect ▸ List.prefix_rfl
        · exact prefix_of_collect hcollect
      rw [List.prefix_append_right_inj] at hprefix
      rcases hprefix with ⟨rest, hrest⟩
      rw [List.singleton_append, List.cons.injEq] at hrest
      have hline : line = found.line := by
        rw [hother'] at hrest
        exact congrArg SearchMatch.line hrest.1
      exact hne hline

/-- From `results` on, the next `count` matches are found if and only if they are legible. -/
theorem collect_render (results : List SearchMatch) {count : Nat}
    (hlimit : limit = (results.length : Int) + count) (hcount : 0 < count) :
    collect limit results (splitLines (render all)) =
        .ok (results ++ (all.take count).map returned) ↔
      ∀ found ∈ all.take count, found.Legible := by
  induction all generalizing results count with
  | nil => simp [render, splitLines, Lines.dropReturns, Lines.lines, collect]
  | cons found all ih =>
    rcases count with - | count
    · exact absurd hcount (lt_irrefl 0)
    rw [List.take_succ_cons, List.map_cons, List.forall_mem_cons]
    by_cases hlegible : found.Legible
    · rw [and_iff_right hlegible, splitLines_render hlegible.line, collect,
        readRecord_legible hlegible]
      dsimp only
      rcases count with - | count
      · rw [if_pos (by omega)]
        simp
      · have hlength : ((results ++ [found.returned]).length : Int) = results.length + 1 := by
          rw [List.length_append]
          rfl
        rw [if_neg (by omega), ← ih (results ++ [found.returned]) (by omega)
          (Nat.succ_pos count), List.append_assoc, List.singleton_append]
    · exact iff_of_false (collect_cut hlegible _) fun hall => hlegible hall.1

end EngineMatch

/-! ### Output of any kind -/

/-- A line of the form `path:number:text` with a number that `str.isdigit` takes for one. -/
structure NumberedLine (raw path number line : List Char) : Prop where
  parts : raw = path ++ ':' :: number ++ ':' :: line
  path_colon : ':' ∉ path
  number_colon : ':' ∉ number
  nonempty : number ≠ []
  digits : number.all isDigit = true

/-- The number is one that `int` does not read: too long, or with a digit that is no decimal
    one. -/
def Unreadable (number : List Char) : Prop :=
  maxStrDigits < number.length ∨ ∃ c ∈ number, decimal c = none

/-- The line counts as a match. -/
def isMatch (raw : List Char) : Bool :=
  match readRecord raw with
  | .found _ => true
  | _ => false

/-- The loop gets to a line with a number that `int` does not read: it has found less than the
    limit before it, or nothing. -/
def MeetsUnreadable (limit : Int) (lines : List (List Char)) : Prop :=
  ∃ before raw after path number line, lines = before ++ raw :: after ∧
    NumberedLine raw path number line ∧ Unreadable number ∧
    (before.countP isMatch = 0 ∨ (before.countP isMatch : Int) < limit)

theorem splitColon_eq_some {text before after : List Char} :
    splitColon text = some (before, after) ↔ text = before ++ ':' :: after ∧ ':' ∉ before := by
  refine ⟨fun h => ?_, fun h => h.1 ▸ EngineMatch.splitColon_append h.2⟩
  induction text generalizing before with
  | nil => cases h
  | cons c text ih =>
    rw [splitColon] at h
    split at h
    · rename_i hc
      cases h
      exact ⟨by rw [hc, List.nil_append], List.not_mem_nil⟩
    · rename_i hc
      rw [Option.map_eq_some_iff] at h
      rcases h with ⟨⟨start, rest⟩, hsplit, heq⟩
      cases heq
      rcases ih hsplit with ⟨htext, hcolon⟩
      refine ⟨by rw [htext, List.cons_append], ?_⟩
      rw [List.mem_cons, not_or]
      exact ⟨Ne.symm hc, hcolon⟩

theorem mapM_decimal_eq_none {text : List Char} :
    text.mapM decimal = none ↔ ∃ c ∈ text, decimal c = none := by
  induction text with
  | nil => simp
  | cons c text ih =>
    rcases hc : decimal c with - | value
    · simp [List.mapM_cons, hc]
    · rcases htext : text.mapM decimal with - | values
      · rcases ih.mp htext with ⟨bad, hmem, hbad⟩
        exact iff_of_true (by simp [List.mapM_cons, hc, htext])
          ⟨bad, List.mem_cons_of_mem c hmem, hbad⟩
      · refine iff_of_false (by simp [List.mapM_cons, hc, htext]) ?_
        rintro ⟨bad, hmem, hbad⟩
        rcases List.mem_cons.mp hmem with rfl | hmem
        · rw [hc] at hbad
          cases hbad
        · rw [ih.mpr ⟨bad, hmem, hbad⟩] at htext
          cases htext

theorem readDecimals_eq_none {number : List Char} :
    readDecimals number = none ↔ Unreadable number := by
  rw [readDecimals, Unreadable]
  split
  · rename_i hshort
    rw [Option.map_eq_none_iff, mapM_decimal_eq_none, or_iff_right (not_lt.mpr hshort)]
  · rename_i hlong
    exact iff_of_true rfl (.inl (not_le.mp hlong))

theorem readRecord_eq_unreadable {raw number : List Char} :
    readRecord raw = .unreadable number ↔
      ∃ path line, NumberedLine raw path number line ∧ Unreadable number := by
  constructor
  · intro h
    rw [readRecord] at h
    split at h
    · cases h
    rename_i path rest hpath
    split at h
    · cases h
    rename_i number' line hnumber
    split at h
    · rename_i hdigits
      split at h
      · cases h
      · rename_i hnone
        cases h
        rw [splitColon_eq_some] at hpath hnumber
        refine ⟨path, line, ⟨?_, hpath.2, hnumber.2, hdigits.1, hdigits.2⟩,
          readDecimals_eq_none.mp hnone⟩
        rw [hpath.1, hnumber.1, List.append_assoc, List.cons_append]
    · cases h
  · rintro ⟨path, line, hraw, hnumber⟩
    have hnone := readDecimals_eq_none.mpr hnumber
    rw [readRecord, hraw.parts, List.append_assoc, List.cons_append,
      EngineMatch.splitColon_append hraw.path_colon]
    dsimp only
    rw [EngineMatch.splitColon_append hraw.number_colon]
    dsimp only
    rw [if_pos ⟨hraw.nonempty, hraw.digits⟩, hnone]

theorem MeetsUnreadable.here {limit : Int} {raw path number line : List Char}
    {rest : List (List Char)} (hraw : NumberedLine raw path number line)
    (hnumber : Unreadable number) : MeetsUnreadable limit (raw :: rest) :=
  ⟨[], raw, rest, path, number, line, rfl, hraw, hnumber, .inl rfl⟩

/-- A line that is skipped changes nothing. -/
theorem meetsUnreadable_skipped {limit : Int} {raw : List Char} {rest : List (List Char)}
    (hraw : readRecord raw = .skipped) :
    MeetsUnreadable limit (raw :: rest) ↔ MeetsUnreadable limit rest := by
  have hfound : isMatch raw = false := by rw [isMatch, hraw]
  constructor
  · rintro ⟨before, bad, after, path, number, line, hlines, hbad, hnumber, hcount⟩
    rcases before with - | ⟨first, before⟩
    · rw [List.nil_append, List.cons.injEq] at hlines
      have hread := readRecord_eq_unreadable.mpr ⟨path, line, hbad, hnumber⟩
      rw [← hlines.1, hraw] at hread
      cases hread
    · rw [List.cons_append, List.cons.injEq] at hlines
      rw [← hlines.1, List.countP_cons_of_neg (by rw [hfound]; exact Bool.false_ne_true)] at hcount
      exact ⟨before, bad, after, path, number, line, hlines.2, hbad, hnumber, hcount⟩
  · rintro ⟨before, bad, after, path, number, line, rfl, hbad, hnumber, hcount⟩
    refine ⟨raw :: before, bad, after, path, number, line, rfl, hbad, hnumber, ?_⟩
    rwa [List.countP_cons_of_neg (by rw [hfound]; exact Bool.false_ne_true)]

/-- A line that is a match takes one from the limit, and the last one ends the search. -/
theorem meetsUnreadable_found {limit : Int} {raw : List Char} {rest : List (List Char)}
    {found : SearchMatch} (hraw : readRecord raw = .found found) :
    MeetsUnreadable limit (raw :: rest) ↔ 1 < limit ∧ MeetsUnreadable (limit - 1) rest := by
  have hfound : isMatch raw = true := by rw [isMatch, hraw]
  constructor
  · rintro ⟨before, bad, after, path, number, line, hlines, hbad, hnumber, hcount⟩
    rcases before with - | ⟨first, before⟩
    · rw [List.nil_append, List.cons.injEq] at hlines
      have hread := readRecord_eq_unreadable.mpr ⟨path, line, hbad, hnumber⟩
      rw [← hlines.1, hraw] at hread
      cases hread
    · rw [List.cons_append, List.cons.injEq] at hlines
      rw [← hlines.1, List.countP_cons_of_pos hfound] at hcount
      refine ⟨by omega, before, bad, after, path, number, line, hlines.2, hbad, hnumber, ?_⟩
      omega
  · rintro ⟨hlimit, before, bad, after, path, number, line, rfl, hbad, hnumber, hcount⟩
    refine ⟨raw :: before, bad, after, path, number, line, rfl, hbad, hnumber, ?_⟩
    rw [List.countP_cons_of_pos hfound]
    omega

/-- The loop raises if and only if it gets to a line with a number that `int` does not read. -/
theorem collect_raises_iff {limit : Int} {results : List SearchMatch}
    {lines : List (List Char)} :
    (∃ error, collect limit results lines = .error error) ↔
      MeetsUnreadable (limit - results.length) lines := by
  induction lines generalizing results with
  | nil =>
    refine iff_of_false nofun ?_
    rintro ⟨before, bad, after, path, number, line, hlines, -⟩
    exact List.append_ne_nil_of_right_ne_nil before (List.cons_ne_nil bad after) hlines.symm
  | cons raw rest ih =>
    rw [collect]
    split
    · rename_i hskipped
      rw [ih, meetsUnreadable_skipped hskipped]
    · rename_i number hunreadable
      rcases readRecord_eq_unreadable.mp hunreadable with ⟨path, line, hraw, hnumber⟩
      exact iff_of_true ⟨_, rfl⟩ (.here hraw hnumber)
    · rename_i found hfound
      rw [meetsUnreadable_found hfound]
      split
      · rename_i hlast
        exact iff_of_false nofun fun hmeets => by omega
      · rename_i hmore
        have hlength : limit - ((results ++ [found]).length : Int) =
            limit - results.length - 1 := by
          rw [List.length_append, List.length_singleton]
          omega
        rw [ih, hlength, and_iff_right (by omega)]

/-- Without a limit of at least one, a match is found all the same. -/
theorem collect_cons_ne_nil {limit : Int} {lines : List (List Char)} {raw : List Char}
    (h : readRecord raw ≠ .skipped) : collect limit [] (raw :: lines) ≠ .ok [] := by
  intro hcollect
  rw [collect] at hcollect
  split at hcollect
  · rename_i hskipped
    exact h hskipped
  · cases hcollect
  · rename_i found _
    split at hcollect
    · cases hcollect
    · have hprefix := EngineMatch.prefix_of_collect hcollect
      rw [List.nil_append, List.prefix_nil] at hprefix
      cases hprefix

namespace EngineMatch

/-- The first line of a rendered match is not skipped. -/
theorem parseMatches_render_ne_nil {found : EngineMatch} {all : List EngineMatch} {limit : Int} :
    parseMatches (render (found :: all)) limit ≠ .ok [] := by
  have hread (line : List Char) : readRecord
      (found.path ++ ':' :: (toString found.lineNumber).toList ++ ':' :: line) ≠ .skipped := by
    rw [readRecord_record]
    split <;> nofun
  rw [parseMatches]
  by_cases hplain : Lines.Plain (fun c => isLineEnd c.toNat) found.line
  · rw [splitLines_render hplain]
    exact collect_cons_ne_nil (hread found.line)
  · rcases splitLines_render_cut hplain all with ⟨line, later, -, hsplit⟩
    rw [hsplit]
    exact collect_cons_ne_nil (hread line)

/-- What the engines write is parsed back if and only if the first matches are legible, and output
    of any kind is parsed if and only if the loop gets to no number that `int` does not read. -/
theorem parseMatches_exact_iff (all : List EngineMatch) (limit : Int) (output : List Char) :
    (parseMatches (render all) limit = .ok ((all.take limit.toNat).map returned) ↔
      (1 ≤ limit ∨ all = []) ∧ ∀ found ∈ all.take limit.toNat, found.Legible) ∧
    ((∃ found, parseMatches output limit = .ok found) ↔
      ¬MeetsUnreadable limit (splitLines output)) := by
  constructor
  · rcases lt_or_ge limit 1 with hlimit | hlimit
    · have hzero : limit.toNat = 0 := by omega
      rw [hzero, List.take_zero, List.map_nil]
      rcases all with - | ⟨found, all⟩
      · exact iff_of_true rfl ⟨.inr rfl, nofun⟩
      · refine iff_of_false parseMatches_render_ne_nil ?_
        rintro ⟨hlimit' | hnil, -⟩
        · omega
        · cases hnil
    · rw [and_iff_right (.inl hlimit), parseMatches, ← collect_render []
        (show limit = _ by rw [List.length_nil]; omega) (by omega), List.nil_append]
  · have hlimit : limit - (([] : List SearchMatch).length : Int) = limit := by
      rw [List.length_nil]
      omega
    rw [← hlimit, ← collect_raises_iff, hlimit, parseMatches]
    rcases collect limit [] (splitLines output) with error | found
    · exact iff_of_false nofun fun h => h ⟨error, rfl⟩
    · exact iff_of_true ⟨found, rfl⟩ nofun

theorem cut_path_colon : ':' ∉ "a".toList := by decide

theorem cut_path_line : Lines.Plain (fun c => isLineEnd c.toNat) "a".toList :=
  List.forall_mem_singleton.mpr rfl

theorem cut_line_feed : '\n' ∉ "x\x0cy".toList := by decide

/-- A match with a form feed in its text. -/
def cut : EngineMatch :=
  ⟨⟨"a".toList, 1, "x\x0cy".toList⟩, cut_path_colon, cut_path_line, cut_line_feed⟩

/-- A form feed in the text cuts it short, and a superscript two is no line number. -/
theorem parseMatches_not_exact :
    parseMatches (render [cut]) 10 = .ok [⟨"a".toList, 1, "x".toList⟩] ∧
    [cut.returned] ≠ [⟨"a".toList, 1, "x".toList⟩] ∧
    parseMatches "a:²:b".toList 10 =
      .error (.valueError "invalid literal for int() with base 10: '²'") := by
  decide +kernel

end EngineMatch

end AgenticPlatform
