import AgenticPlatform.JsonTruncation
import AgenticPlatform.Occurrences
import AgenticPlatform.ReasoningTags
import Mathlib.Data.List.TakeWhile

/-!
# The JSON object in a model's answer

`extract_json_object` tries the whole answer, the blocks between fences, and what stands between
braces that match. A text is one without surrogates.
-/

namespace AgenticPlatform.Extraction

open Json (Layout LoadsError Writable Short loads write)
open Utf8 (CodePoint)

/-! ### Candidates -/

/-- `text.strip()`. -/
def strip (text : List Char) : List Char :=
  ((text.dropWhile isSpace).reverse.dropWhile isSpace).reverse

/-- `[a-zA-Z0-9_+-]`. -/
def isLanguage (c : Char) : Bool := c.isAlphanum || c == '_' || c == '+' || c == '-'

def fence : List Char := ['`', '`', '`']

/-- The text after the line that opens a fence: white space before the line feed may hold line
    feeds itself, and the last of them counts. -/
def fenceBody (text : List Char) : Option (List Char) :=
  if fence <+: text then
    let rest := (text.drop fence.length).dropWhile isLanguage
    let blanks := rest.takeWhile isSpace
    if '\n' ∈ blanks then
      some ((blanks.reverse.takeWhile fun c => c != '\n').reverse ++ rest.dropWhile isSpace)
    else none
  else none

/-- A block and the text after it: up to the next fence, or to the end. -/
def fenceBlock (body : List Char) : List Char × List Char :=
  (Occurrences.split fence body).getD (body, [])

/-- `_FENCE_RE.finditer(text)`, from after what is skipped. -/
def blocksFrom : (skip : Nat) → List Char → List (List Char)
  | _, [] => []
  | skip + 1, _ :: text => blocksFrom skip text
  | 0, c :: text =>
    match fenceBody (c :: text) with
    | some body => (fenceBlock body).1 :: blocksFrom (text.length - (fenceBlock body).2.length) text
    | none => blocksFrom 0 text

/-- Where the scan for braces stands; `span` is the text from the outermost open brace on. -/
structure Braces where
  depth : Nat := 0
  inString : Bool := false
  escaped : Bool := false
  span : List Char := []

/-- One character of the scan: the braces after it, and the span that it closes. -/
def Braces.step (braces : Braces) (c : Char) : Braces × Option (List Char) :=
  let read := { braces with span := braces.span ++ [c] }
  if braces.inString then
    if braces.escaped then ({ read with escaped := false }, none)
    else if c = '\\' then ({ read with escaped := true }, none)
    else if c = '"' then ({ read with inString := false }, none)
    else (read, none)
  else if c = '"' then ({ read with inString := true }, none)
  else if c = '{' then
    ({ read with depth := braces.depth + 1, span := if braces.depth = 0 then [c] else read.span }, none)
  else if c = '}' ∧ braces.depth ≠ 0 then
    ({ read with depth := braces.depth - 1 }, if braces.depth = 1 then some read.span else none)
  else (read, none)

/-- `_balanced_spans`. -/
def balancedSpans : Braces → List Char → List (List Char)
  | _, [] => []
  | braces, c :: text => (braces.step c).2.toList ++ balancedSpans (braces.step c).1 text

/-- `_iter_candidates`. -/
def candidates (text : List Char) : List (List Char) :=
  ((strip text :: (blocksFrom 0 text).map strip).filter fun candidate => !candidate.isEmpty) ++
    balancedSpans {} text

/-- The first candidate that is an object; a `RecursionError` is not caught. -/
def firstObject (limit : Nat) : List (List Char) → Except LoadsError (Option (List (List CodePoint × Json)))
  | [] => .ok none
  | candidate :: rest =>
    match loads limit candidate with
    | .error .recursion => .error .recursion
    | .error _ => firstObject limit rest
    | .ok (.obj entries) => .ok (some entries)
    | .ok _ => firstObject limit rest

/-- `extract_json_object`. -/
def extractJsonObject (limit : Nat) (text : List Char) :
    Except LoadsError (Option (List (List CodePoint × Json))) :=
  firstObject limit (candidates (stripReasoning text))

/-! ### Stripping -/

section Strip

variable {text front back : List Char} {c : Char}

theorem rstrip_begins (text : List Char) : (text.reverse.dropWhile isSpace).reverse <+: text := by
  rw [← List.reverse_suffix, List.reverse_reverse]
  exact List.dropWhile_suffix isSpace

theorem strip_cons (h : isSpace c = false) (text : List Char) : ∃ more, strip (c :: text) = c :: more := by
  have hkept : (c :: text).dropWhile isSpace = c :: text :=
    List.dropWhile_cons_of_neg (by rw [h]; exact Bool.false_ne_true)
  rw [strip, hkept, List.reverse_cons, List.dropWhile_append]
  split
  · refine ⟨[], ?_⟩
    rw [List.dropWhile_cons_of_neg (by rw [h]; exact Bool.false_ne_true)]
    rfl
  · exact ⟨_, List.reverse_append⟩

theorem strip_append_blank (h : ∀ c ∈ front, isSpace c = true) (back : List Char) :
    strip (front ++ back) = strip back := by
  rw [strip, strip, List.dropWhile_append_of_pos h]

/-- All in front is white space, or something that is none comes first. -/
theorem strip_cases (front back : List Char) : (∀ c ∈ front, isSpace c = true) ∨
    ∃ c ∈ front, ∃ more, isSpace c = false ∧ strip (front ++ back) = c :: more := by
  induction front with
  | nil => exact .inl (List.forall_mem_nil _)
  | cons c front ih =>
    rcases hc : isSpace c with - | -
    · obtain ⟨more, hmore⟩ := strip_cons hc (front ++ back)
      exact .inr ⟨c, List.mem_cons_self, more, hc, hmore⟩
    · have hdrop : strip (c :: front ++ back) = strip (front ++ back) :=
        @strip_append_blank [c] (List.forall_mem_singleton.mpr hc) (front ++ back)
      rw [hdrop]
      rcases ih with hspace | ⟨d, hd, more, hspace, hmore⟩
      · exact .inl (List.forall_mem_cons.mpr ⟨hc, hspace⟩)
      · exact .inr ⟨d, List.mem_cons_of_mem c hd, more, hspace, hmore⟩

/-- White space in front is taken away. -/
theorem strip_append (front back : List Char) :
    strip (front ++ back) = strip back ∨ ∃ c ∈ front, ∃ more, isSpace c = false ∧ strip (front ++ back) = c :: more :=
  (strip_cases front back).imp_left fun hspace => strip_append_blank hspace back

theorem strip_begins (h : ∀ c ∈ text.head?, isSpace c = false) : strip text <+: text := by
  rcases text with - | ⟨c, text⟩
  · exact List.nil_prefix
  · rw [strip, List.dropWhile_cons_of_neg (by rw [h c rfl]; exact Bool.false_ne_true)]
    exact rstrip_begins _

end Strip

/-! ### Candidates that are passed over -/

theorem decode_caught : LoadsError.decode ≠ .recursion := by decide

theorem digits_caught : LoadsError.digits ≠ .recursion := by decide

/-- The candidate is no object, and reading it raises nothing but what is caught. -/
def Harmless (limit : Nat) (candidate : List Char) : Prop :=
  (∃ error, loads limit candidate = .error error ∧ error ≠ .recursion) ∨
    ∃ value, loads limit candidate = .ok value ∧ ∀ entries, value ≠ .obj entries

section Passing

variable {limit : Nat} {candidate text more : List Char} {others : List (List Char)}
  {entries : List (List CodePoint × Json)}

theorem firstObject_harmless (h : Harmless limit candidate) (others : List (List Char)) :
    firstObject limit (candidate :: others) = firstObject limit others := by
  rw [firstObject]
  rcases h with ⟨error, herror, hcaught⟩ | ⟨value, hvalue, hother⟩
  · rw [herror]
    cases error with
    | decode => rfl
    | digits => rfl
    | recursion => exact absurd rfl hcaught
  · rw [hvalue]
    cases value with
    | obj entries => exact absurd rfl (hother entries)
    | null | bool | int | float | str | arr => rfl

theorem firstObject_found (h : loads limit candidate = .ok (.obj entries)) (others : List (List Char)) :
    firstObject limit (candidate :: others) = .ok (some entries) := by
  rw [firstObject, h]

theorem firstObject_none (h : ∀ candidate ∈ others, Harmless limit candidate) :
    firstObject limit others = .ok none := by
  induction others with
  | nil => rfl
  | cons candidate others ih =>
    rw [List.forall_mem_cons] at h
    rw [firstObject_harmless h.1, ih h.2]

/-- Candidates that are passed over or are the object, and then the object. -/
theorem firstObject_append
    (h : ∀ candidate ∈ others, Harmless limit candidate ∨ loads limit candidate = .ok (.obj entries))
    {last : List Char} (hlast : loads limit last = .ok (.obj entries)) (rest : List (List Char)) :
    firstObject limit (others ++ last :: rest) = .ok (some entries) := by
  induction others with
  | nil => exact firstObject_found hlast rest
  | cons candidate others ih =>
    rw [List.forall_mem_cons] at h
    rcases h.1 with hharmless | hfound
    · rw [List.cons_append, firstObject_harmless hharmless, ih h.2]
    · exact firstObject_found hfound _

theorem scanAtom_caught {error : LoadsError} (h : Json.scanAtom text = .error error) : error ≠ .recursion := by
  rw [Json.scanAtom] at h
  split at h
  · cases h
  · rw [Json.scanNumber] at h
    dsimp only at h
    split at h
    · cases h
      exact decode_caught
    · rw [Json.numberOf] at h
      split at h
      · split at h
        · cases h
          exact digits_caught
        · cases h
      · cases h

theorem scanNumber_atom {value : Json} {rest : List Char} (h : Json.scanNumber text = .ok (value, rest)) :
    ∀ entries, value ≠ .obj entries := by
  rw [Json.scanNumber] at h
  dsimp only at h
  split at h
  · cases h
  · obtain ⟨number, hnumber, hresult⟩ := Json.map_eq_ok h
    rw [Prod.mk.injEq] at hresult
    rw [hresult.1]
    rw [Json.numberOf] at hnumber
    split at hnumber
    · split at hnumber
      · cases hnumber
      · cases hnumber
        intro entries heq
        cases heq
    · cases hnumber
      intro entries heq
      cases heq

theorem scanAtom_atom {value : Json} {rest : List Char} (h : Json.scanAtom text = .ok (value, rest)) :
    ∀ entries, value ≠ .obj entries := by
  rw [Json.scanAtom] at h
  split at h
  · rename_i word hfound
    rw [Except.ok.injEq, Prod.mk.injEq] at h
    have hword := List.mem_of_find?_eq_some hfound
    simp only [Json.words, List.mem_cons, List.not_mem_nil, or_false] at hword
    rw [← h.1]
    rcases hword with rfl | rfl | rfl | rfl | rfl | rfl <;> intro entries heq <;> cases heq
  · exact scanNumber_atom h

/-- A value that begins with no bracket and no brace is no container. -/
theorem scanValue_harmless {c : Char} (hc : c ∉ ['{', '[']) (more : List Char) (inner : Option (Json.Scanner Json)) :
    (∃ error, Json.scanValue inner (c :: more) = .error error ∧ error ≠ .recursion) ∨
      ∃ value rest, Json.scanValue inner (c :: more) = .ok (value, rest) ∧ ∀ entries, value ≠ .obj entries := by
  rw [List.mem_cons, List.mem_singleton, not_or] at hc
  rw [Json.scanValue]
  split
  · cases hread : Json.scanText more with
    | error error =>
      refine .inl ⟨error, rfl, ?_⟩
      rw [Json.scanText_error hread]
      exact decode_caught
    | ok read =>
      refine .inr ⟨_, _, rfl, ?_⟩
      intro entries heq
      cases heq
  · rw [if_neg hc.1, if_neg hc.2]
    cases hread : Json.scanAtom (c :: more) with
    | error error => exact .inl ⟨error, rfl, scanAtom_caught hread⟩
    | ok read => exact .inr ⟨read.1, read.2, rfl, scanAtom_atom hread⟩

theorem isBlank_of_isSpace {c : Char} (h : isSpace c = false) : Json.isBlank c = false := by
  rw [Bool.eq_false_iff]
  intro hblank
  rw [Json.isBlank, Bool.or_eq_true, Bool.or_eq_true, Bool.or_eq_true, beq_iff_eq, beq_iff_eq, beq_iff_eq,
    beq_iff_eq] at hblank
  rcases hblank with ((rfl | rfl) | rfl) | rfl <;> revert h <;> decide

/-- A candidate that begins with no bracket and no brace. -/
theorem harmless_of_head {c : Char} (hspace : isSpace c = false) (hc : c ∉ ['{', '[']) (more : List Char)
    (limit : Nat) : Harmless limit (c :: more) := by
  have hscan : (∃ error, Json.scan limit (c :: more) = .error error ∧ error ≠ .recursion) ∨
      ∃ value rest, Json.scan limit (c :: more) = .ok (value, rest) ∧ ∀ entries, value ≠ .obj entries := by
    cases limit with
    | zero => exact scanValue_harmless hc more none
    | succ limit => exact scanValue_harmless hc more _
  rw [Harmless, loads]
  split
  · exact .inl ⟨.decode, rfl, decode_caught⟩
  · rw [Json.skip_cons (isBlank_of_isSpace hspace)]
    rcases hscan with ⟨error, herror, hcaught⟩ | ⟨value, rest, hvalue, hother⟩
    · rw [herror]
      exact .inl ⟨error, rfl, hcaught⟩
    · rw [hvalue]
      dsimp only
      split
      · exact .inr ⟨value, rfl, hother⟩
      · exact .inl ⟨.decode, rfl, decode_caught⟩

theorem harmless_nil (limit : Nat) : Harmless limit [] := by
  rcases limit with - | limit <;> exact .inl ⟨.decode, rfl, decode_caught⟩

/-- What no bracket and no brace is in, apart from white space in front. -/
theorem harmless_of_plain (h : ∀ c ∈ text, c ∉ ['{', '[']) (limit : Nat) : Harmless limit (strip text) := by
  rcases strip_append text [] with hsame | ⟨c, hc, more, hspace, hmore⟩
  · rw [List.append_nil] at hsame
    rw [hsame]
    exact harmless_nil limit
  · rw [List.append_nil] at hmore
    rw [hmore]
    exact harmless_of_head hspace (h c hc) more limit

/-- What is put in front of a text makes it no object, or is white space. -/
theorem harmless_or_strip {front : List Char} (h : ∀ c ∈ front, c ∉ ['{', '[']) (text : List Char) (limit : Nat) :
    Harmless limit (strip (front ++ text)) ∨ strip (front ++ text) = strip text := by
  rcases strip_append front text with hsame | ⟨c, hc, more, hspace, hmore⟩
  · exact .inr hsame
  · rw [hmore]
    exact .inl (harmless_of_head hspace (h c hc) more limit)

end Passing

/-! ### The object itself -/

section Object

variable {layout : Layout} {repr : Binary64 → List Char} {limit : Nat} {front back text after : List Char}
  {entries : List (List CodePoint × Json)}

/-- The object, with something behind it: it is read, or nothing is. -/
theorem loads_longer (h : Writable repr (.obj entries)) (hdepth : Json.depth (.obj entries) ≤ limit)
    (after : List Char) :
    Harmless limit (write layout repr 0 (.obj entries) ++ after) ∨
      loads limit (write layout repr 0 (.obj entries) ++ after) = .ok (.obj entries) := by
  have hread : Json.scan limit (write layout repr 0 (.obj entries) ++ after) = .ok (.obj entries, after) := by
    have hwhole := @Json.scan_write layout repr limit _ [] h hdepth 0 Json.ends_nil
    rw [List.append_nil] at hwhole
    exact (Json.scan_extends limit).longer hwhole trivial after
  obtain ⟨tail, htail⟩ := @Json.write_obj_head layout repr 0 entries
  rw [Harmless, loads]
  split
  · exact .inl (.inl ⟨.decode, rfl, decode_caught⟩)
  · have hskip : Json.skip (write layout repr 0 (.obj entries) ++ after) =
        write layout repr 0 (.obj entries) ++ after := by
      rw [htail, List.cons_append]
      exact Json.skip_cons rfl _
    rw [hskip, hread]
    dsimp only
    split
    · exact .inr rfl
    · exact .inl (.inl ⟨.decode, rfl, decode_caught⟩)

/-- A text that begins as the object does, at least as far as it goes. -/
theorem passes_of_begins (hshort : Short repr) (h : Writable repr (.obj entries))
    (hdepth : Json.depth (.obj entries) ≤ limit) (htext : text <+: write layout repr 0 (.obj entries) ++ after) :
    Harmless limit text ∨ write layout repr 0 (.obj entries) <+: text ∧ loads limit text = .ok (.obj entries) := by
  obtain ⟨more, hmore⟩ := htext
  rcases List.append_eq_append_iff.mp hmore with ⟨missing, hobject, -⟩ | ⟨extra, htext, -⟩
  · by_cases hmissing : missing = []
    · rw [hmissing, List.append_nil] at hobject
      rcases @loads_longer layout repr limit entries h hdepth [] with hharmless | hfound
      · left
        rwa [List.append_nil, hobject] at hharmless
      · right
        rw [List.append_nil, hobject] at hfound
        exact ⟨by rw [hobject], hfound⟩
    · exact .inl (.inl ⟨.decode, Json.loads_cut hshort h hdepth 0 hmissing hobject.symm, decode_caught⟩)
  · rw [htext]
    rcases @loads_longer layout repr limit entries h hdepth extra with hharmless | hfound
    · exact .inl hharmless
    · exact .inr ⟨List.prefix_append _ extra, hfound⟩

end Object

/-! ### Fences -/

section Fences

variable {text body rest block front back : List Char} {skip : Nat}

/-- Up to the last line feed among blanks, and what is after it. -/
theorem split_last_feed {blanks : List Char} (h : '\n' ∈ blanks) :
    ∃ header, blanks = header ++ (blanks.reverse.takeWhile fun c => c != '\n').reverse ∧ '\n' ∈ header := by
  refine ⟨(blanks.reverse.dropWhile fun c => c != '\n').reverse, ?_, ?_⟩
  · rw [← List.reverse_append, List.takeWhile_append_dropWhile, List.reverse_reverse]
  · rw [List.mem_reverse]
    have hdropped : blanks.reverse.dropWhile (fun c => c != '\n') ≠ [] := by
      intro hnone
      have hfeed := List.dropWhile_eq_nil_iff.mp hnone '\n' (List.mem_reverse.mpr h)
      revert hfeed
      decide
    obtain ⟨c, last, hlast⟩ := List.exists_cons_of_ne_nil hdropped
    have hhead := List.head?_dropWhile_not (fun c => c != '\n') blanks.reverse
    rw [hlast] at hhead ⊢
    simp only [List.head?_cons, bne_eq_false_iff_eq] at hhead
    rw [hhead]
    exact List.mem_cons_self

/-- What stands before a block. -/
def HeaderChar (c : Char) : Prop := c = '`' ∨ isLanguage c = true ∨ isSpace c = true

theorem fenceBody_header (h : fenceBody text = some body) : ∃ header, text = header ++ body ∧
    '\n' ∈ header ∧ ∀ c ∈ header, HeaderChar c := by
  rw [fenceBody] at h
  split at h
  · rename_i hfence
    dsimp only at h
    split at h
    · rename_i hfeed
      rw [Option.some_inj] at h
      obtain ⟨header, hheader, hmem⟩ := split_last_feed hfeed
      have hlanguage : ∀ c ∈ ((text.drop fence.length).takeWhile isLanguage), isLanguage c = true :=
        fun c hc => List.mem_takeWhile_imp hc
      have hspace : ∀ c ∈ header, isSpace c = true := by
        intro c hc
        have hblanks := List.mem_append_left
          (((List.takeWhile isSpace (List.dropWhile isLanguage (text.drop fence.length))).reverse.takeWhile
            fun c => c != '\n').reverse) hc
        rw [← hheader] at hblanks
        exact List.mem_takeWhile_imp hblanks
      refine ⟨fence ++ (text.drop fence.length).takeWhile isLanguage ++ header, ?_, ?_, ?_⟩
      · have htext : text = fence ++ text.drop fence.length := List.prefix_append_drop hfence
        rw [← h, List.append_assoc, ← List.append_assoc header, ← hheader, List.takeWhile_append_dropWhile,
          List.append_assoc, List.takeWhile_append_dropWhile, ← htext]
      · exact List.mem_append_right _ hmem
      · intro c hc
        rw [List.mem_append, List.mem_append] at hc
        rcases hc with (hfence | hword) | hblank
        · have htick : c = '`' := by
            simpa [fence] using hfence
          exact .inl htick
        · exact .inr (.inl (hlanguage c hword))
        · exact .inr (.inr (hspace c hblank))
    · cases h
  · cases h

theorem not_headerChar_quote : ¬ HeaderChar '"' := by
  rintro (h | h | h) <;> revert h <;> decide

theorem not_headerChar_brace : ¬ HeaderChar '{' := by
  rintro (h | h | h) <;> revert h <;> decide

theorem fenceBlock_begins (body : List Char) : (fenceBlock body).1 <+: body := by
  rw [fenceBlock]
  cases hsplit : Occurrences.split fence body with
  | none => exact List.prefix_rfl
  | some parts =>
    obtain ⟨before, after⟩ := parts
    have hbody := Occurrences.split_eq_append hsplit
    exact ⟨fence ++ after, by rw [Option.getD_some, hbody, List.append_assoc]⟩

/-- A block stands somewhere after a line that opens a fence. -/
theorem mem_blocksFrom (h : block ∈ blocksFrom skip text) :
    ∃ last body, last <:+ text ∧ fenceBody last = some body ∧ block <+: body := by
  induction text generalizing skip with
  | nil =>
    rw [blocksFrom] at h
    cases h
  | cons c text ih =>
    have hlater : ∀ {skip}, block ∈ blocksFrom skip text →
        ∃ last body, last <:+ c :: text ∧ fenceBody last = some body ∧ block <+: body := by
      intro skip hblock
      obtain ⟨last, body, hlast, hbody, hbegins⟩ := ih hblock
      exact ⟨last, body, hlast.trans (List.suffix_cons c text), hbody, hbegins⟩
    rcases skip with - | skip
    · rw [blocksFrom] at h
      split at h
      · rename_i body hbody
        rcases List.mem_cons.mp h with rfl | hrest
        · exact ⟨c :: text, body, List.suffix_rfl, hbody, fenceBlock_begins body⟩
        · exact hlater hrest
      · exact hlater h
    · rw [blocksFrom] at h
      exact hlater h

/-- In the text no line opens a fence: what could is followed by a quote, and by no line feed
    before it. -/
def Fenceless (text : List Char) : Prop :=
  ∀ last, last <:+ text → last.head? = some '`' → ∃ word rest, last = word ++ '"' :: rest ∧ '\n' ∉ word

theorem suffix_append_cases {last : List Char} (h : last <:+ front ++ back) :
    last <:+ back ∨ ∃ middle, middle <:+ front ∧ middle ≠ [] ∧ last = middle ++ back := by
  obtain ⟨before, hbefore⟩ := h
  rcases List.append_eq_append_iff.mp hbefore with ⟨middle, hfront, hlast⟩ | ⟨extra, -, hback⟩
  · by_cases hmiddle : middle = []
    · rw [hmiddle, List.nil_append] at hlast
      exact .inl (by rw [hlast])
    · exact .inr ⟨middle, ⟨before, hfront.symm⟩, hmiddle, hlast⟩
  · exact .inl ⟨extra, hback.symm⟩

theorem Fenceless.append (hfront : Fenceless front) (hback : Fenceless back) : Fenceless (front ++ back) := by
  intro last hlast htick
  rcases suffix_append_cases hlast with hlater | ⟨middle, hmiddle, hne, rfl⟩
  · exact hback last hlater htick
  · have hhead : middle.head? = some '`' := by
      rcases middle with - | ⟨c, middle⟩
      · exact absurd rfl hne
      · exact htick
    obtain ⟨word, rest, hword, hfeed⟩ := hfront middle hmiddle hhead
    exact ⟨word, rest ++ back, by rw [hword, List.append_assoc, List.cons_append], hfeed⟩

theorem fenceless_of_not_mem (h : '`' ∉ text) : Fenceless text := by
  intro last hlast htick
  exact absurd (hlast.subset (List.mem_of_mem_head? (Option.mem_def.mpr htick))) h

theorem fenceBody_quote {word : List Char} (hfeed : '\n' ∉ word) (rest : List Char) :
    fenceBody (word ++ '"' :: rest) = none := by
  rw [Option.eq_none_iff_forall_ne_some]
  intro body hbody
  obtain ⟨header, htext, hmem, hheader⟩ := fenceBody_header hbody
  have hquote : '"' ∉ header := fun hquote => not_headerChar_quote (hheader _ hquote)
  exact hfeed ((begins_of_not_mem htext hquote).subset hmem)

theorem fenceBody_tick (h : fenceBody text = some body) : text.head? = some '`' := by
  rw [fenceBody] at h
  split at h
  · rename_i hfence
    obtain ⟨more, hmore⟩ := hfence
    rw [← hmore]
    rfl
  · cases h

/-- No line that opens a fence begins in the text. -/
theorem Fenceless.fenceBody_append (h : Fenceless text) {last : List Char} (hlast : last <:+ text)
    (hne : last ≠ []) (after : List Char) : fenceBody (last ++ after) = none := by
  rw [Option.eq_none_iff_forall_ne_some]
  intro body hbody
  have htick := fenceBody_tick hbody
  have hhead : last.head? = some '`' := by
    rcases last with - | ⟨c, last⟩
    · exact absurd rfl hne
    · exact htick
  obtain ⟨word, rest, hword, hfeed⟩ := h last hlast hhead
  rw [hword, List.append_assoc, List.cons_append, fenceBody_quote hfeed] at hbody
  cases hbody

/-- Nor does one where the text breaks off. -/
theorem Fenceless.fenceBody_cut (h : Fenceless (text ++ back)) {last : List Char} (hlast : last <:+ text) :
    fenceBody last = none := by
  rw [Option.eq_none_iff_forall_ne_some]
  intro body hbody
  have htick := fenceBody_tick hbody
  have hlonger : (last ++ back).head? = some '`' := by
    rcases last with - | ⟨c, last⟩
    · cases htick
    · exact htick
  obtain ⟨front, hfront⟩ := hlast
  obtain ⟨word, rest, hword, hfeed⟩ :=
    h (last ++ back) ⟨front, by rw [← List.append_assoc, hfront]⟩ hlonger
  obtain ⟨header, htext, hmem, -⟩ := fenceBody_header hbody
  rcases List.append_eq_append_iff.mp hword with ⟨missing, hwhole, -⟩ | ⟨extra, hwhole, hrest⟩
  · apply hfeed
    rw [hwhole, htext]
    exact List.mem_append_left _ (List.mem_append_left _ hmem)
  · rcases extra with - | ⟨c, extra⟩
    · rw [List.append_nil] at hwhole
      apply hfeed
      rw [← hwhole, htext]
      exact List.mem_append_left _ hmem
    · rw [List.cons_append, List.cons.injEq] at hrest
      rw [hwhole, ← hrest.1, fenceBody_quote hfeed] at hbody
      cases hbody

/-- A block begins in front of the object, with no brace between, or it stands behind it. -/
theorem block_cases {object after : List Char}
    (hobject : ∀ last, last <:+ '{' :: object → last ≠ [] → fenceBody (last ++ after) = none)
    (h : block ∈ blocksFrom 0 (front ++ ('{' :: object ++ after))) :
    (∃ middle, (∀ c ∈ middle, c ∈ front) ∧ block <+: middle ++ ('{' :: object ++ after)) ∨
      ∀ c ∈ block, c ∈ after := by
  obtain ⟨last, body, hlast, hbody, hblock⟩ := mem_blocksFrom h
  rcases suffix_append_cases hlast with hlater | ⟨middle, hmiddle, -, rfl⟩
  · rcases suffix_append_cases hlater with hafter | ⟨inside, hinside, hne, rfl⟩
    · obtain ⟨header, hheader, -, -⟩ := fenceBody_header hbody
      right
      intro c hc
      apply hafter.subset
      rw [hheader]
      exact List.mem_append_right header (hblock.subset hc)
    · rw [hobject inside hinside hne] at hbody
      cases hbody
  · obtain ⟨header, hheader, -, hchars⟩ := fenceBody_header hbody
    have hbrace : '{' ∉ header := fun hbrace => not_headerChar_brace (hchars _ hbrace)
    obtain ⟨rest, hrest⟩ := begins_of_not_mem hheader hbrace
    left
    refine ⟨rest, ?_, ?_⟩
    · intro c hc
      apply hmiddle.subset
      rw [← hrest]
      exact List.mem_append_right header hc
    · rw [← hrest, List.append_assoc, List.append_cancel_left_eq] at hheader
      rw [hheader]
      exact hblock

end Fences

/-! ### Braces that match -/

section Braces

variable {braces : Braces} {text front back : List Char} {c : Char}

/-- The scan after a text. -/
def Braces.run (braces : Braces) (text : List Char) : Braces := text.foldl (fun braces c => (braces.step c).1) braces

theorem balancedSpans_append (braces : Braces) (front back : List Char) :
    balancedSpans braces (front ++ back) = balancedSpans braces front ++ balancedSpans (braces.run front) back := by
  induction front generalizing braces with
  | nil => rfl
  | cons c front ih =>
    rw [List.cons_append, balancedSpans, balancedSpans, ih, List.append_assoc]
    rfl

theorem run_cons (braces : Braces) (c : Char) (text : List Char) :
    braces.run (c :: text) = (braces.step c).1.run text := rfl

theorem run_append (braces : Braces) (front back : List Char) :
    braces.run (front ++ back) = (braces.run front).run back :=
  List.foldl_append

/-- A text that closes no span, and after which the scan stands as before. -/
def Quiet (braces : Braces) (text : List Char) : Prop :=
  balancedSpans braces text = [] ∧ braces.run text = { braces with span := braces.span ++ text }

theorem quiet_nil (braces : Braces) : Quiet braces [] := by
  refine ⟨rfl, ?_⟩
  rw [List.append_nil]
  rfl

/-- The scan where it stands inside an object, and inside no string. -/
structure Inside (braces : Braces) : Prop where
  depth : braces.depth ≠ 0
  string : braces.inString = false
  escaped : braces.escaped = false

theorem Quiet.append (hfront : Quiet braces front)
    (hback : Quiet { braces with span := braces.span ++ front } back) : Quiet braces (front ++ back) := by
  constructor
  · rw [balancedSpans_append, hfront.1, hfront.2, hback.1]
    rfl
  · rw [run_append, hfront.2, hback.2, List.append_assoc]

/-- What no quote and no brace is in. -/
theorem quiet_plain (hinside : Inside braces) (h : ∀ c ∈ text, c ∉ ['"', '{', '}']) : Quiet braces text := by
  induction text generalizing braces with
  | nil => exact quiet_nil braces
  | cons c text ih =>
    rw [List.forall_mem_cons] at h
    simp only [List.mem_cons, List.not_mem_nil, or_false, not_or] at h
    have hstep : braces.step c = ({ braces with span := braces.span ++ [c] }, none) := by
      rw [Braces.step]
      simp only [hinside.string, Bool.false_eq_true, if_false, if_neg h.1.1, if_neg h.1.2.1]
      rw [if_neg (fun hclose => h.1.2.2 hclose.1)]
    have hone : Quiet braces [c] := by
      constructor
      · rw [balancedSpans, hstep]
        rfl
      · rw [Braces.run, List.foldl_cons, hstep]
        rfl
    apply @Quiet.append braces [c] text hone
    apply @ih { braces with span := braces.span ++ [c] } ⟨hinside.depth, hinside.string, hinside.escaped⟩
    intro d hd
    simp only [List.mem_cons, List.not_mem_nil, or_false, not_or]
    exact h.2 d hd

/-- The scan where it stands inside a string. -/
structure Quoted (braces : Braces) : Prop where
  string : braces.inString = true
  escaped : braces.escaped = false

theorem quiet_of_step (h : braces.step c = ({ braces with span := braces.span ++ [c] }, none)) :
    Quiet braces [c] := by
  constructor
  · rw [balancedSpans, h]
    rfl
  · rw [Braces.run, List.foldl_cons, h]
    rfl

/-- Characters of a string that neither end it nor escape. -/
theorem quiet_quoted (hquoted : Quoted braces) (h : ∀ c ∈ text, c ∉ ['"', '\\']) : Quiet braces text := by
  induction text generalizing braces with
  | nil => exact quiet_nil braces
  | cons c text ih =>
    rw [List.forall_mem_cons] at h
    have hc := h.1
    rw [List.mem_cons, List.mem_singleton, not_or] at hc
    have hstep : braces.step c = ({ braces with span := braces.span ++ [c] }, none) := by
      rw [Braces.step]
      simp only [hquoted.string, hquoted.escaped, if_true, Bool.false_eq_true, if_false, if_neg hc.1, if_neg hc.2]
    exact @Quiet.append braces [c] text (quiet_of_step hstep)
      (@ih { braces with span := braces.span ++ [c] } ⟨hquoted.string, hquoted.escaped⟩ h.2)

/-- A backslash and the character after it. -/
theorem quiet_escaped (hquoted : Quoted braces) (d : Char) : Quiet braces ['\\', d] := by
  have hfirst : braces.step '\\' = ({ braces with escaped := true, span := braces.span ++ ['\\'] }, none) := by
    rw [Braces.step]
    simp only [hquoted.string, hquoted.escaped, if_true, Bool.false_eq_true, if_false]
  have hsecond : Braces.step { braces with escaped := true, span := braces.span ++ ['\\'] } d =
      ({ braces with span := braces.span ++ ['\\', d] }, none) := by
    rw [Braces.step]
    simp only [hquoted.string, if_true, List.append_assoc, List.singleton_append]
    rw [← hquoted.escaped]
  constructor
  · rw [balancedSpans, hfirst, balancedSpans, hsecond]
    rfl
  · rw [Braces.run, List.foldl_cons, List.foldl_cons, hfirst, hsecond]
    rfl

theorem Quoted.span (hquoted : Quoted braces) (span : List Char) : Quoted { braces with span } :=
  ⟨hquoted.string, hquoted.escaped⟩

theorem Inside.span (hinside : Inside braces) (span : List Char) : Inside { braces with span } :=
  ⟨hinside.depth, hinside.string, hinside.escaped⟩

theorem quiet_unicodeEscape {n : Nat} (hn : n < 0x10000) (hquoted : Quoted braces) :
    Quiet braces (Json.unicodeEscape n) := by
  have hdigit : ∀ m < 16, Nat.digitChar m ∉ ['"', '\\'] :=
    fun m hm hmem => Json.digitChar_notMem hm (List.mem_append_left ['<', '>', '{', '}', '`'] hmem)
  have hdigits : ∀ c ∈ [Nat.digitChar (n / 4096), Nat.digitChar (n / 256 % 16), Nat.digitChar (n / 16 % 16),
      Nat.digitChar (n % 16)], c ∉ ['"', '\\'] := by
    simp only [List.forall_mem_cons]
    exact ⟨hdigit _ (by omega), hdigit _ (by omega), hdigit _ (by omega), hdigit _ (by omega),
      List.forall_mem_nil _⟩
  exact (quiet_escaped hquoted 'u').append (quiet_quoted (hquoted.span _) hdigits)

theorem quiet_escape (hquoted : Quoted braces) (d : CodePoint) : Quiet braces (Json.escape d) := by
  rw [Json.escape]
  split_ifs with hquote hbackslash hfeed hreturn htab hform hbell hplain hbasic
  · exact quiet_escaped hquoted '"'
  · exact quiet_escaped hquoted '\\'
  · exact quiet_escaped hquoted 'n'
  · exact quiet_escaped hquoted 'r'
  · exact quiet_escaped hquoted 't'
  · exact quiet_escaped hquoted 'f'
  · exact quiet_escaped hquoted 'b'
  · apply quiet_quoted hquoted
    rw [List.forall_mem_singleton, List.mem_cons, List.mem_singleton, not_or]
    have hvalue := Json.toNat_ofNat hplain.2
    constructor
    · intro heq
      rw [heq] at hvalue
      exact hquote hvalue.symm
    · intro heq
      rw [heq] at hvalue
      exact hbackslash hvalue.symm
  · exact quiet_unicodeEscape hbasic hquoted
  · have hhigh := Json.highOf_lt (Nat.le_of_not_lt hbasic)
    have hlow := @Json.lowOf_lt d
    exact (quiet_unicodeEscape (by omega) hquoted).append (quiet_unicodeEscape (by omega) (hquoted.span _))

theorem quiet_escapes (hquoted : Quoted braces) (string : List CodePoint) :
    Quiet braces (string.flatMap Json.escape) := by
  induction string generalizing braces with
  | nil => exact quiet_nil braces
  | cons d string ih =>
    rw [List.flatMap_cons]
    exact (quiet_escape hquoted d).append (ih (hquoted.span _))

/-- A whole string. -/
theorem quiet_writeText (hinside : Inside braces) (string : List CodePoint) :
    Quiet braces (Json.writeText string) := by
  have hopen : braces.step '"' = ({ braces with inString := true, span := braces.span ++ ['"'] }, none) := by
    rw [Braces.step]
    simp only [hinside.string, Bool.false_eq_true, if_false, if_true]
  have hquoted : Quoted { braces with inString := true, span := braces.span ++ ['"'] } := ⟨rfl, hinside.escaped⟩
  have hinner := quiet_escapes hquoted string
  have hclose : ∀ span, Braces.step { braces with inString := true, span } '"' =
      ({ braces with span := span ++ ['"'] }, none) := by
    intro span
    rw [Braces.step]
    simp only [hinside.escaped, if_true, Bool.false_eq_true, if_false, Char.reduceEq]
    rw [← hinside.string]
  constructor
  · rw [Json.writeText, List.cons_append, balancedSpans, hopen, balancedSpans_append, hinner.1, hinner.2,
      balancedSpans, hclose]
    rfl
  · rw [Json.writeText, List.cons_append, run_cons, hopen, run_append, hinner.2, run_cons, hclose]
    simp only [List.append_assoc, List.cons_append, List.nil_append]
    rfl

end Braces

section Written

variable {layout : Layout} {repr : Binary64 → List Char} {braces : Braces}

/-- None of the signs is in the text. -/
def avoids (signs text : List Char) : Bool := text.all fun c => !signs.elem c

theorem of_avoids {signs text : List Char} (h : avoids signs text = true) : ∀ c ∈ text, c ∉ signs := by
  intro c hc hmem
  have hnone := List.all_eq_true.mp h c hc
  rw [List.elem_eq_true_of_mem hmem] at hnone
  cases hnone

/-- What is none of the signs is none that a string, an object or a fence begins with. -/
theorem plain_of_marks {text : List Char} (h : ∀ c ∈ text, c ∉ Json.marks) :
    ∀ c ∈ text, c ∉ ['"', '{', '}', '`'] := by
  intro c hc hmem
  apply h c hc
  simp only [Json.marks, List.mem_cons, List.not_mem_nil, or_false] at hmem ⊢
  rcases hmem with rfl | rfl | rfl | rfl <;> simp

theorem word_plain {word : String × Json} (h : word ∈ Json.words) :
    ∀ c ∈ word.1.toList, c ∉ ['"', '{', '}', '`'] :=
  plain_of_marks (Json.word_notMem h)

/-- How doubles are written: with no sign that a string, an object or a fence begins with. -/
def Plain (repr : Binary64 → List Char) : Prop := ∀ x, ∀ c ∈ repr x, c ∉ ['"', '{', '}', '`']

theorem blank_plain {blanks : List Char} (h : Json.Blank blanks) : ∀ c ∈ blanks, c ∉ ['"', '{', '}', '`'] :=
  plain_of_marks (Json.blank_notMem h)

theorem writeInt_plain (n : Int) : ∀ c ∈ Json.writeInt n, c ∉ ['"', '{', '}', '`'] :=
  plain_of_marks (Json.writeInt_notMem n)

theorem quiet_of_plain (hinside : Inside braces) {text : List Char} (h : ∀ c ∈ text, c ∉ ['"', '{', '}', '`']) :
    Quiet braces text := by
  apply quiet_plain hinside
  intro c hc hmem
  apply h c hc
  simp only [List.mem_cons, List.not_mem_nil, or_false] at hmem ⊢
  rcases hmem with rfl | rfl | rfl
  · exact .inl rfl
  · exact .inr (.inl rfl)
  · exact .inr (.inr (.inl rfl))

/-- A brace, and what stands between it and the one that matches it. -/
theorem quiet_braces (hinside : Inside braces) {text : List Char}
    (h : ∀ braces, Inside braces → Quiet braces text) : Quiet braces ('{' :: text ++ ['}']) := by
  have hopen : braces.step '{' =
      ({ braces with depth := braces.depth + 1, span := braces.span ++ ['{'] }, none) := by
    rw [Braces.step]
    simp only [hinside.string, Bool.false_eq_true, if_false, Char.reduceEq, if_true, if_neg hinside.depth]
  have hinner := h { braces with depth := braces.depth + 1, span := braces.span ++ ['{'] }
    ⟨Nat.succ_ne_zero _, hinside.string, hinside.escaped⟩
  have hclose : ∀ span, Braces.step { braces with depth := braces.depth + 1, span } '}' =
      ({ braces with span := span ++ ['}'] }, none) := by
    intro span
    rw [Braces.step]
    simp only [hinside.string, Bool.false_eq_true, if_false, Char.reduceEq]
    rw [if_pos ⟨trivial, Nat.succ_ne_zero _⟩, if_neg (by have hdepth := hinside.depth; omega)]
    rfl
  constructor
  · rw [List.cons_append, balancedSpans, hopen, balancedSpans_append, hinner.1, hinner.2, balancedSpans, hclose]
    rfl
  · rw [List.cons_append, run_cons, hopen, run_append, hinner.2, run_cons, hclose]
    simp only [List.append_assoc, List.cons_append, List.nil_append]
    rfl

/-- Text in which the scan goes on as before, wherever it stands inside an object. -/
def Calm (text : List Char) : Prop := ∀ braces, Inside braces → Quiet braces text

theorem Calm.append {front back : List Char} (hfront : Calm front) (hback : Calm back) : Calm (front ++ back) :=
  fun braces hinside => (hfront braces hinside).append (hback _ (hinside.span _))

theorem calm_of_plain {text : List Char} (h : ∀ c ∈ text, c ∉ ['"', '{', '}', '`']) : Calm text :=
  fun _ hinside => quiet_of_plain hinside h

theorem calm_sign {c : Char} (h : c ∉ ['"', '{', '}', '`']) : Calm [c] :=
  calm_of_plain (List.forall_mem_singleton.mpr h)

theorem calm_braces {text : List Char} (h : Calm text) : Calm ('{' :: text ++ ['}']) :=
  fun _ hinside => quiet_braces hinside h

/-- A name, the colon and a value. -/
theorem calm_member (layout : Layout) (name : List CodePoint) {text : List Char} (h : Calm text) :
    Calm (Json.writeText name ++ ':' :: layout.colon ++ text) := by
  have hname : Calm (Json.writeText name) := fun _ hinside => quiet_writeText hinside name
  have hcolon : Calm ([':'] ++ layout.colon) :=
    (calm_sign (by decide)).append (calm_of_plain (blank_plain layout.colon_blank))
  exact (hname.append hcolon).append h

mutual

/-- **Braces match in the text of a value.** -/
theorem calm_write (hrepr : Plain repr) : ∀ (value : Json) (level : Nat), Calm (write layout repr level value)
  | .null, _ => calm_of_plain (@word_plain ("null", .null) (by simp [Json.words]))
  | .bool true, _ => calm_of_plain (@word_plain ("true", .bool true) (by simp [Json.words]))
  | .bool false, _ => calm_of_plain (@word_plain ("false", .bool false) (by simp [Json.words]))
  | .int n, _ => calm_of_plain (writeInt_plain n)
  | .float x, _ => calm_of_plain (hrepr x)
  | .str string, _ => fun _ hinside => quiet_writeText hinside string
  | .arr [], _ => (calm_sign (by decide)).append (calm_sign (by decide))
  | .arr (item :: items), level =>
    (((calm_sign (by decide)).append (calm_of_plain (blank_plain (layout.opening_blank level)))).append
      (calm_write hrepr item (level + 1))).append (calm_writeItems hrepr items level)
  | .obj [], _ => calm_braces fun braces _ => quiet_nil braces
  | .obj ((name, value) :: entries), level => by
    obtain ⟨inner, hinner, hcalm⟩ := calm_writeEntries hrepr entries level
    have hopening : Calm (layout.opening level) := calm_of_plain (blank_plain (layout.opening_blank level))
    have hmember := calm_member layout name (calm_write hrepr value (level + 1))
    have hwhole := calm_braces ((hopening.append hmember).append hcalm)
    rw [write, hinner]
    simp only [List.append_assoc, List.cons_append] at hwhole ⊢
    exact hwhole

theorem calm_writeItems (hrepr : Plain repr) : ∀ (items : List Json) (level : Nat),
    Calm (Json.writeItems layout repr level items)
  | [], level => (calm_of_plain (blank_plain (layout.closing_blank level))).append (calm_sign (by decide))
  | item :: items, level =>
    (((calm_sign (by decide)).append (calm_of_plain (blank_plain (layout.between_blank level)))).append
      (calm_write hrepr item (level + 1))).append (calm_writeItems hrepr items level)

theorem calm_writeEntries (hrepr : Plain repr) : ∀ (entries : List (List CodePoint × Json)) (level : Nat),
    ∃ inner, Json.writeEntries layout repr level entries = inner ++ ['}'] ∧ Calm inner
  | [], level => ⟨layout.closing level, rfl, calm_of_plain (blank_plain (layout.closing_blank level))⟩
  | (name, value) :: entries, level => by
    obtain ⟨inner, hinner, hcalm⟩ := calm_writeEntries hrepr entries level
    have hcomma : Calm ([','] ++ layout.between level) :=
      (calm_sign (by decide)).append (calm_of_plain (blank_plain (layout.between_blank level)))
    have hmember := calm_member layout name (calm_write hrepr value (level + 1))
    refine ⟨_, ?_, (hcomma.append hmember).append hcalm⟩
    rw [Json.writeEntries, hinner]
    simp only [List.append_assoc, List.cons_append, List.nil_append]

end

/-- The text of an object is a brace, text in which braces match, and a brace. -/
theorem write_obj_braces (hrepr : Plain repr) (layout : Layout) (entries : List (List CodePoint × Json))
    (level : Nat) : ∃ inner, write layout repr level (.obj entries) = '{' :: inner ++ ['}'] ∧ Calm inner := by
  rcases entries with - | ⟨⟨name, value⟩, entries⟩
  · exact ⟨[], rfl, fun braces _ => quiet_nil braces⟩
  · obtain ⟨inner, hinner, hcalm⟩ := @calm_writeEntries layout repr hrepr entries level
    have hopening : Calm (layout.opening level) := calm_of_plain (blank_plain (layout.opening_blank level))
    have hmember := calm_member layout name (@calm_write layout repr hrepr value (level + 1))
    refine ⟨_, ?_, (hopening.append hmember).append hcalm⟩
    rw [write, hinner]
    simp only [List.append_assoc, List.cons_append]

theorem fenceless_writeText (string : List CodePoint) : Fenceless (Json.writeText string) := by
  intro last hlast htick
  rcases suffix_append_cases hlast with hquote | ⟨middle, hmiddle, -, rfl⟩
  · rcases List.suffix_cons_iff.mp hquote with rfl | hnil
    · cases htick
    · rw [List.suffix_nil.mp hnil] at htick
      cases htick
  · refine ⟨middle, [], rfl, ?_⟩
    intro hfeed
    have hprintable := Json.printable_writeText string '\n' (List.mem_append_left _ (hmiddle.subset hfeed))
    exact absurd hprintable.1 (by decide)

/-- No line that opens a fence begins in the text of a value. -/
theorem fenceless_write (hrepr : Plain repr) (value : Json) (level : Nat) :
    Fenceless (write layout repr level value) := by
  have hplain : ∀ {text : List Char}, (∀ c ∈ text, c ∉ ['"', '{', '}', '`']) → Fenceless text :=
    fun htext => fenceless_of_not_mem fun hmem => htext _ hmem (by decide)
  have hpieces : Json.Pieces layout repr Fenceless :=
    { append := Fenceless.append
      sign := by
        intro c hc
        apply fenceless_of_not_mem
        rw [List.mem_singleton]
        rintro rfl
        revert hc
        decide
      opening := fun level => hplain (blank_plain (layout.opening_blank level))
      between := fun level => hplain (blank_plain (layout.between_blank level))
      closing := fun level => hplain (blank_plain (layout.closing_blank level))
      colon := hplain (blank_plain layout.colon_blank)
      word := fun word hword => hplain (word_plain hword)
      int := fun n => hplain (writeInt_plain n)
      float := fun x => hplain (hrepr x)
      text := fenceless_writeText }
  exact hpieces.write value level

end Written

/-! ### What is found -/

section Found

variable {layout : Layout} {repr : Binary64 → List Char} {limit : Nat} {braces : Braces}
  {before after front back text : List Char} {entries : List (List CodePoint × Json)}

/-- Before the first brace the scan closes nothing. -/
theorem quiet_outside (hdepth : braces.depth = 0) (hstring : braces.inString = false)
    (h : ∀ c ∈ text, c ∉ ['{', '[', '"']) : Quiet braces text := by
  induction text generalizing braces with
  | nil => exact quiet_nil braces
  | cons c text ih =>
    rw [List.forall_mem_cons] at h
    have hc := h.1
    simp only [List.mem_cons, List.not_mem_nil, or_false, not_or] at hc
    have hstep : braces.step c = ({ braces with span := braces.span ++ [c] }, none) := by
      rw [Braces.step]
      simp only [hstring, Bool.false_eq_true, if_false, if_neg hc.2.2, if_neg hc.1]
      rw [if_neg (fun hclose => hclose.2 hdepth)]
    exact @Quiet.append braces [c] text (quiet_of_step hstep)
      (@ih { braces with span := braces.span ++ [c] } hdepth hstring h.2)

/-- Where the outermost brace opens. -/
theorem balancedSpans_open (h : ∀ c ∈ before, c ∉ ['{', '[', '"']) (rest : List Char) :
    balancedSpans {} (before ++ '{' :: rest) = balancedSpans { depth := 1, span := ['{'] } rest := by
  obtain ⟨hspans, hrun⟩ := @quiet_outside {} before rfl rfl h
  rw [balancedSpans_append, hspans, hrun]
  rfl

theorem balancedSpans_object (hrepr : Plain repr) (h : ∀ c ∈ before, c ∉ ['{', '[', '"']) (after : List Char) :
    ∃ rest, balancedSpans {} (before ++ (write layout repr 0 (.obj entries) ++ after)) =
      write layout repr 0 (.obj entries) :: rest := by
  obtain ⟨inner, hinner, hcalm⟩ := write_obj_braces hrepr layout entries 0
  obtain ⟨hspans, hrun⟩ := hcalm { depth := 1, span := ['{'] } ⟨Nat.one_ne_zero, rfl, rfl⟩
  refine ⟨balancedSpans { span := '{' :: inner ++ ['}'] } after, ?_⟩
  rw [hinner, List.cons_append, List.cons_append, List.append_assoc, balancedSpans_open h, balancedSpans_append,
    hspans, hrun]
  rfl

theorem balancedSpans_cut (hrepr : Plain repr) (h : ∀ c ∈ before, c ∉ ['{', '[', '"']) (hback : back ≠ [])
    (hsplit : front ++ back = write layout repr 0 (.obj entries)) : balancedSpans {} (before ++ front) = [] := by
  obtain ⟨inner, hinner, hcalm⟩ := write_obj_braces hrepr layout entries 0
  rw [hinner] at hsplit
  rcases front with - | ⟨c, front⟩
  · rw [List.append_nil]
    exact (@quiet_outside {} before rfl rfl h).1
  · rw [List.cons_append, List.cons_append, List.cons.injEq] at hsplit
    obtain ⟨rfl, hsplit⟩ := hsplit
    have hfront : front <+: inner := by
      rcases List.append_eq_append_iff.mp hsplit with ⟨missing, hmissing, -⟩ | ⟨extra, hextra, hlast⟩
      · exact ⟨missing, hmissing.symm⟩
      · rcases List.append_eq_singleton_iff.mp hlast.symm with ⟨hnone, -⟩ | ⟨-, hnone⟩
        · rw [hnone, List.append_nil] at hextra
          rw [hextra]
        · exact absurd hnone hback
    obtain ⟨more, rfl⟩ := hfront
    have hspans := (hcalm { depth := 1, span := ['{'] } ⟨Nat.one_ne_zero, rfl, rfl⟩).1
    rw [balancedSpans_append] at hspans
    rw [balancedSpans_open h]
    exact (List.append_eq_nil_iff.mp hspans).1

theorem noClosing_of_append (h : NoClosing (front ++ back)) : NoClosing front := by
  intro last hlast
  rw [Option.eq_none_iff_forall_ne_some]
  intro rest hclose
  obtain ⟨found, hfound, hword⟩ := closeTag_iff.mp hclose
  obtain ⟨start, rfl⟩ := hlast
  have hlonger : closeTag (last ++ back) = some (rest ++ back) :=
    closeTag_iff.mpr ⟨found, by rw [hfound]; simp, hword⟩
  rw [h (last ++ back) ⟨start, by rw [List.append_assoc]⟩] at hlonger
  cases hlonger

/-- The whole answer and the blocks between fences, as far as they are candidates. -/
theorem mem_early {candidate : List Char} (h : candidate ∈ (strip text :: (blocksFrom 0 text).map strip).filter
    fun candidate => !candidate.isEmpty) :
    ∃ block, candidate = strip block ∧ (block = text ∨ block ∈ blocksFrom 0 text) := by
  have hmem := (List.mem_filter.mp h).1
  rcases List.mem_cons.mp hmem with hwhole | hblock
  · exact ⟨text, hwhole, .inl rfl⟩
  · obtain ⟨block, hfound, rfl⟩ := List.mem_map.mp hblock
    exact ⟨block, rfl, .inr hfound⟩

/-- Text in front of the object or of a beginning of it, and how far a block reaches: the block is
    passed over, or the object is all in the text and is read. -/
theorem early_begins (hshort : Short repr) (h : Writable repr (.obj entries))
    (hdepth : Json.depth (.obj entries) ≤ limit) (htext : text <+: write layout repr 0 (.obj entries) ++ after)
    {middle block : List Char} (hmiddle : ∀ c ∈ middle, c ∉ ['{', '[']) (hblock : block <+: middle ++ text) :
    Harmless limit (strip block) ∨
      write layout repr 0 (.obj entries) <+: text ∧ loads limit (strip block) = .ok (.obj entries) := by
  obtain ⟨more, hmore⟩ := hblock
  rcases List.append_eq_append_iff.mp hmore with ⟨missing, hpart, -⟩ | ⟨reached, hpart, hrest⟩
  · left
    apply harmless_of_plain
    intro c hc
    apply hmiddle c
    rw [hpart]
    exact List.mem_append_left missing hc
  · have hreached : reached <+: text := ⟨more, hrest.symm⟩
    rcases harmless_or_strip hmiddle reached limit with hharmless | hsame
    · rw [hpart]
      exact .inl hharmless
    · obtain ⟨tail, htail⟩ := @Json.write_obj_head layout repr 0 entries
      have hhead : ∀ c ∈ reached.head?, isSpace c = false := by
        intro c hc
        obtain ⟨last, hlast⟩ := hreached.trans htext
        rcases reached with - | ⟨d, reached⟩
        · cases hc
        · rw [htail, List.cons_append, List.cons_append, List.cons.injEq] at hlast
          rw [List.head?_cons, Option.mem_some_iff] at hc
          rw [← hc, hlast.1]
          decide
      have hbegins := (strip_begins hhead).trans hreached
      rw [hpart, hsame]
      rcases passes_of_begins hshort h hdepth (hbegins.trans htext) with hharmless | ⟨hall, hfound⟩
      · exact .inl hharmless
      · exact .inr ⟨hall.trans hbegins, hfound⟩

/-- Every early candidate of a text that ends in the object, or in a beginning of it. -/
theorem early_cases (hshort : Short repr) (h : Writable repr (.obj entries))
    (hdepth : Json.depth (.obj entries) ≤ limit) (hbefore : ∀ c ∈ before, c ∉ ['{', '[', '"'])
    (hafter : ∀ c ∈ after, c ∉ ['{', '[']) {object : List Char}
    (htext : '{' :: object ++ after <+: write layout repr 0 (.obj entries) ++ after)
    (hfence : ∀ last, last <:+ '{' :: object → last ≠ [] → fenceBody (last ++ after) = none)
    {candidate : List Char}
    (hcandidate : candidate ∈ (strip (before ++ ('{' :: object ++ after)) ::
      (blocksFrom 0 (before ++ ('{' :: object ++ after))).map strip).filter fun candidate => !candidate.isEmpty) :
    Harmless limit candidate ∨ write layout repr 0 (.obj entries) <+: '{' :: object ++ after ∧
      loads limit candidate = .ok (.obj entries) := by
  have hprose : ∀ c ∈ before, c ∉ ['{', '['] := by
    intro c hc hmem
    apply hbefore c hc
    simp only [List.mem_cons, List.not_mem_nil, or_false] at hmem ⊢
    rcases hmem with rfl | rfl
    · exact .inl rfl
    · exact .inr (.inl rfl)
  obtain ⟨block, rfl, rfl | hblock⟩ := mem_early hcandidate
  · exact early_begins hshort h hdepth htext hprose List.prefix_rfl
  · rcases block_cases hfence hblock with ⟨middle, hmiddle, hbegins⟩ | hbehind
    · exact early_begins hshort h hdepth htext (fun c hc => hprose c (hmiddle c hc)) hbegins
    · exact .inl (harmless_of_plain (fun c hc => hafter c (hbehind c hc)) limit)

/-- Prose alone has no object in it. -/
theorem early_prose (h : ∀ c ∈ text, c ∉ ['{', '[', '"']) {candidate : List Char}
    (hcandidate : candidate ∈ (strip text :: (blocksFrom 0 text).map strip).filter
      fun candidate => !candidate.isEmpty) : Harmless limit candidate := by
  obtain ⟨block, rfl, hblock⟩ := mem_early hcandidate
  have hsubset : block ⊆ text := by
    rcases hblock with rfl | hblock
    · exact List.Subset.refl _
    · obtain ⟨last, body, hlast, hbody, hbegins⟩ := mem_blocksFrom hblock
      obtain ⟨header, hheader, -, -⟩ := fenceBody_header hbody
      intro c hc
      apply hlast.subset
      rw [hheader]
      exact List.mem_append_right header (hbegins.subset hc)
  apply harmless_of_plain
  intro c hc hmem
  apply h c (hsubset hc)
  simp only [List.mem_cons, List.not_mem_nil, or_false] at hmem ⊢
  rcases hmem with rfl | rfl
  · exact .inl rfl
  · exact .inr (.inl rfl)

end Found

/-- **An object is found in what it is wrapped in, and never in half an object.** The answer may
    have prose and fences around the object, without a brace or a bracket in them, without a
    quotation mark in front, and without a tag that ends reasoning. -/
theorem extract_wrapped (layout : Layout) (repr : Binary64 → List Char) (limit : Nat) (hshort : Short repr)
    (hplain : Plain repr) (entries : List (List CodePoint × Json)) (h : Writable repr (.obj entries))
    (hdepth : Json.depth (.obj entries) ≤ limit) (before after : List Char)
    (hbefore : ∀ c ∈ before, c ∉ ['{', '[', '"']) (hafter : ∀ c ∈ after, c ∉ ['{', '['])
    (htags : NoClosing (before ++ (write layout repr 0 (.obj entries) ++ after))) :
    extractJsonObject limit (before ++ (write layout repr 0 (.obj entries) ++ after)) = .ok (some entries) ∧
    ∀ front back, back ≠ [] → front ++ back = write layout repr 0 (.obj entries) →
      extractJsonObject limit (before ++ front) = .ok none := by
  obtain ⟨object, hobject⟩ := @Json.write_obj_head layout repr 0 entries
  have hfenceless := @fenceless_write layout repr hplain (.obj entries) 0
  constructor
  · rw [extractJsonObject, stripReasoning_of_noClosing htags, candidates]
    obtain ⟨rest, hspans⟩ := @balancedSpans_object layout repr before entries hplain hbefore after
    rw [hspans]
    apply firstObject_append
    · intro candidate hcandidate
      rw [hobject] at hcandidate hfenceless
      rcases early_cases hshort h hdepth hbefore hafter (by rw [hobject])
        (fun last hlast hne => hfenceless.fenceBody_append hlast hne after) hcandidate with hharmless | ⟨-, hfound⟩
      · exact .inl hharmless
      · exact .inr hfound
    · have hwhole := @Json.loads_write layout repr limit _ h hdepth 0 [] [] (List.forall_mem_nil _)
        (List.forall_mem_nil _)
      rw [List.nil_append, List.append_nil] at hwhole
      exact hwhole
  · intro front back hback hsplit
    have hbeginning : NoClosing (before ++ front) := by
      rw [← hsplit, List.append_assoc, ← List.append_assoc before] at htags
      exact noClosing_of_append htags
    rw [extractJsonObject, stripReasoning_of_noClosing hbeginning, candidates,
      balancedSpans_cut hplain hbefore hback hsplit, List.append_nil]
    apply firstObject_none
    intro candidate hcandidate
    rcases front with - | ⟨c, front⟩
    · rw [List.append_nil] at hcandidate
      exact early_prose hbefore hcandidate
    · have hc : c = '{' := by
        rw [hobject, List.cons_append, List.cons.injEq] at hsplit
        exact hsplit.1
      subst hc
      have htext : '{' :: front ++ [] <+: write layout repr 0 (.obj entries) ++ [] := by
        rw [List.append_nil, List.append_nil, ← hsplit]
        exact List.prefix_append _ back
      rw [← List.append_nil ('{' :: front)] at hcandidate
      rw [← hsplit] at hfenceless
      rcases early_cases hshort h hdepth hbefore (List.forall_mem_nil _) htext
        (fun last hlast _ => by rw [List.append_nil]; exact hfenceless.fenceBody_cut hlast) hcandidate with
          hharmless | ⟨hall, -⟩
      · exact hharmless
      · -- The object would be no longer than what there is of it.
        have hlength := hall.length_le
        rw [← hsplit, List.append_nil, List.length_append] at hlength
        have hpositive := List.length_pos_of_ne_nil hback
        omega

/-! An object in a fence. -/

namespace Sample

def before : List Char := ['O', 'k', ':', '\n', '`', '`', '`', '\n']

def after : List Char := ['\n', '`', '`', '`']

def entries : List (List CodePoint × Json) := [(Json.key "a", .int 1)]

def repr (_ : Binary64) : List Char := ['0', '.', '5']

theorem repr_short : Short repr := fun _ => show 3 ≤ Json.maxDigits by decide

theorem before_plain : avoids ['{', '[', '"'] before = true := by decide

theorem after_plain : avoids ['{', '['] after = true := by decide

theorem half_plain : avoids ['"', '{', '}', '`'] ['0', '.', '5'] = true := by decide

theorem repr_plain : Plain repr := fun _ => of_avoids half_plain

theorem entries_writable : Writable repr (.obj entries) := by
  rw [Writable, Json.writableEntries_iff]
  refine ⟨List.nodup_singleton _, List.forall_mem_singleton.mpr ⟨.singleton _, ?_⟩⟩
  rw [Writable]
  decide

theorem noClosing_plain {text : List Char} (h : '<' ∉ text) : NoClosing text := by
  have hnil : NoClosing [] := by
    intro last hlast
    rw [List.suffix_nil.mp hlast]
    rfl
  have hall := noClosing_append h hnil
  rwa [List.append_nil] at hall

end Sample

theorem extract_wrapped_sample :
    extractJsonObject 1 (Sample.before ++ (write Json.compact Sample.repr 0 (.obj Sample.entries) ++ Sample.after)) =
      .ok (some Sample.entries) ∧
    extractJsonObject 1 (Sample.before ++ ['{', '"', 'a']) = .ok none := by
  have htext : write Json.compact Sample.repr 0 (.obj Sample.entries) = ['{', '"', 'a', '"', ':', '1', '}'] := rfl
  have hfound := extract_wrapped Json.compact Sample.repr 1 Sample.repr_short Sample.repr_plain Sample.entries
    Sample.entries_writable (by decide) Sample.before Sample.after (of_avoids Sample.before_plain)
    (of_avoids Sample.after_plain) (by rw [htext]; exact Sample.noClosing_plain (by decide))
  exact ⟨hfound.1, hfound.2 ['{', '"', 'a'] ['"', ':', '1', '}'] (List.cons_ne_nil _ _) htext.symm⟩

/-- **Reasoning does not decide.** What a model writes between a pair of tags makes no difference
    to the object that is found, nor does what it writes before a closing tag that nothing opened. -/
theorem extract_ignores_reasoning (limit : Nat) (before hidden word other after : List Char)
    (hword : TagWord word) :
    ('<' ∉ before → afterClose word hidden = none →
      List.Forall₂ (fun letter c => sameLower letter c = true) word other →
      extractJsonObject limit
          (before ++ ('<' :: word ++ '>' :: (hidden ++ ('<' :: '/' :: other ++ '>' :: after)))) =
        extractJsonObject limit (before ++ after)) ∧
    ((∀ last, last <:+ hidden ++ ('<' :: '/' :: word ++ '>' :: after) → openTag last = none) →
      NoClosing after →
      extractJsonObject limit (hidden ++ ('<' :: '/' :: word ++ '>' :: after)) =
        extractJsonObject limit after) := by
  constructor
  · intro hbefore hhidden hsame
    rw [extractJsonObject, extractJsonObject, stripReasoning_pair hbefore hword hsame hhidden]
  · intro hopen hafter
    rw [extractJsonObject, extractJsonObject, stripReasoning_unopened hopen hword hafter,
      stripReasoning_of_noClosing hafter]

theorem extract_ignores_reasoning_sample :
    extractJsonObject 1 ([] ++ ('<' :: "think".toList ++ '>' :: (['{', '}'] ++
        ('<' :: '/' :: "THINK".toList ++ '>' :: ['{', '"', 'a', '"', ':', '1', '}'])))) =
      extractJsonObject 1 ([] ++ ['{', '"', 'a', '"', ':', '1', '}']) := by
  have hword : TagWord "think".toList :=
    ⟨"think".toList, List.mem_cons_self, .cons rfl (.cons rfl (.cons rfl (.cons rfl (.cons rfl .nil))))⟩
  exact (extract_ignores_reasoning 1 [] ['{', '}'] "think".toList "THINK".toList _ hword).1 List.not_mem_nil rfl
    (.cons rfl (.cons rfl (.cons rfl (.cons rfl (.cons rfl .nil)))))

end AgenticPlatform.Extraction
