import AgenticPlatform.JsonExtraction
import AgenticPlatform.JsonStrings
import AgenticPlatform.JsonTexts

/-!
# Which answers give their object

An answer that is the text of an object gives the object if and only if nothing in the text closes
reasoning. An object in prose is found if and only if the quotation marks in front of it close.
What is found otherwise was read from less text, and weighs less.
-/

namespace AgenticPlatform.Extraction

open Json (Dumpable PairFree Layout Lexes LoadsError Numeral Place Short Writable loads weight write)
open Utf8 (CodePoint)

/-! ### What stripping takes away -/

section Stripping

variable {text tail rest : List Char} {place last : Place}

/-- The first pair of tags. -/
theorem removePairs_cases (text : List Char) : removePairs text = text ∨
    ∃ front tail rest, text = front ++ tail ∧ afterPair tail = some rest ∧
      removePairs text = front ++ removePairs rest := by
  induction text with
  | nil => exact .inl rfl
  | cons c text ih =>
    cases hpair : afterPair (c :: text) with
    | some rest => exact .inr ⟨[], c :: text, rest, rfl, hpair, removePairs_pair hpair⟩
    | none =>
      have hstep : removePairs (c :: text) = c :: removePairs text := by
        rw [removePairs, removeFrom, hpair]
        rfl
      rw [hstep]
      rcases ih with hsame | ⟨front, tail, rest, htext, hfound, hremoved⟩
      · exact .inl (congrArg (c :: ·) hsame)
      · exact .inr ⟨c :: front, tail, rest, congrArg (c :: ·) htext, hfound, congrArg (c :: ·) hremoved⟩

/-- A pair begins and ends with an angle bracket. -/
theorem afterPair_brackets (h : afterPair tail = some rest) : ∃ middle, tail = '<' :: (middle ++ '>' :: rest) := by
  obtain ⟨⟨found, opened⟩, hopen, hclose⟩ := Option.bind_eq_some_iff.mp h
  obtain ⟨htext, -⟩ := openTag_iff.mp hopen
  obtain ⟨closing, ⟨front, hfront⟩, hcloses⟩ := afterClose_closes hclose
  obtain ⟨other, hother, -⟩ := closesAs_iff.mp hcloses
  have hopened : front ++ closing = opened := hfront
  refine ⟨found ++ '>' :: (front ++ '<' :: '/' :: other), ?_⟩
  rw [htext, ← hopened, hother]
  simp only [List.append_assoc, List.cons_append]

/-- What is left of a text in which angle brackets stand in strings only is such a text too, and
    has fewer of them if it is not the same. -/
theorem removePairs_lexes (h : Lexes place text last) : Lexes place (removePairs text) last ∧
    (removePairs text = text ∨ (removePairs text).count '<' < text.count '<') := by
  induction hlength : text.length using Nat.strongRecOn generalizing place text with
  | ind length ih =>
    rcases removePairs_cases text with hsame | ⟨front, tail, rest, htext, hpair, hremoved⟩
    · rw [hsame]
      exact ⟨h, .inl rfl⟩
    · obtain ⟨middle, hmiddle⟩ := afterPair_brackets hpair
      rw [hmiddle] at htext
      obtain ⟨hfront, htail⟩ := h.split_bracket (by decide) htext
      obtain ⟨-, hrest⟩ := htail.split_bracket (by decide) rfl
      have hshorter : rest.length < length := by
        rw [← hlength, htext]
        simp only [List.length_append, List.length_cons]
        omega
      obtain ⟨hlexes, hcount⟩ := ih rest.length hshorter hrest rfl
      rw [hremoved]
      refine ⟨hfront.append hlexes, .inr ?_⟩
      have hle : (removePairs rest).count '<' ≤ rest.count '<' := by
        rcases hcount with hsame | hless
        · rw [hsame]
        · exact hless.le
      rw [htext]
      simp only [List.count_append, List.count_cons_self, List.count_cons]
      omega

/-- The last closing tag ends with an angle bracket. -/
theorem afterLast_brackets (h : afterLast text = some rest) :
    ∃ front middle, text = front ++ '<' :: (middle ++ '>' :: rest) := by
  induction text with
  | nil => cases h
  | cons c text ih =>
    rw [afterLast, Option.or_eq_some_iff] at h
    rcases h with hlater | ⟨-, hhere⟩
    · obtain ⟨front, middle, htext⟩ := ih hlater
      exact ⟨c :: front, middle, congrArg (c :: ·) htext⟩
    · obtain ⟨found, htext, -⟩ := closeTag_iff.mp hhere
      exact ⟨[], '/' :: found, by rw [htext]; rfl⟩

theorem noClosing_of_afterLast (h : afterLast text = none) : NoClosing text := by
  induction text with
  | nil =>
    intro last hlast
    rw [List.suffix_nil.mp hlast]
    rfl
  | cons c text ih =>
    rw [afterLast, Option.or_eq_none_iff] at h
    intro last hlast
    rcases List.suffix_cons_iff.mp hlast with rfl | hlater
    · exact h.2
    · exact ih h.1 last hlater

/-- **Where a tag closes reasoning, angle brackets are lost.** -/
theorem stripReasoning_fewer (h : Lexes place text last) (htags : ¬ NoClosing text) :
    ∃ middle, Lexes middle (stripReasoning text) last ∧ (stripReasoning text).count '<' < text.count '<' := by
  obtain ⟨hlexes, hcount⟩ := removePairs_lexes h
  have hle : (removePairs text).count '<' ≤ text.count '<' := by
    rcases hcount with hsame | hless
    · rw [hsame]
    · exact hless.le
  rw [stripReasoning]
  cases hlast : afterLast (removePairs text) with
  | none =>
    rcases hcount with hsame | hless
    · rw [hsame] at hlast
      exact absurd (noClosing_of_afterLast hlast) htags
    · exact ⟨place, hlexes, hless⟩
  | some rest =>
    obtain ⟨front, middle, hremoved⟩ := afterLast_brackets hlast
    obtain ⟨-, htail⟩ := hlexes.split_bracket (by decide) hremoved
    obtain ⟨-, hrest⟩ := htail.split_bracket (by decide) rfl
    refine ⟨_, hrest, ?_⟩
    rw [hremoved] at hle
    simp only [List.count_append, List.count_cons_self, List.count_cons] at hle
    rw [Option.getD_some]
    omega

end Stripping

/-! ### Candidates are parts of the answer -/

section Candidates

variable {text front back candidate span : List Char} {braces : Braces} {limit : Nat}
  {entries : List (List CodePoint × Json)}

theorem strip_part (text : List Char) : strip text <:+: text :=
  (rstrip_begins _).isInfix.trans (List.dropWhile_suffix isSpace).isInfix

theorem block_part {skip : Nat} (h : span ∈ blocksFrom skip text) : span <:+: text := by
  obtain ⟨last, body, hlast, hbody, hblock⟩ := mem_blocksFrom h
  obtain ⟨header, hheader, -, -⟩ := fenceBody_header hbody
  have hsuffix : body <:+ last := ⟨header, hheader.symm⟩
  exact hblock.isInfix.trans (hsuffix.trans hlast).isInfix

/-- What the scan keeps of the text from the outermost open brace on. -/
def Braces.kept (braces : Braces) : List Char := if braces.depth = 0 then [] else braces.span

/-- A character closes at most what is kept, with itself; and what is kept grows by it at most. -/
theorem step_kept (braces : Braces) (c : Char) :
    (∀ span ∈ (braces.step c).2, span = braces.kept ++ [c]) ∧
      ((braces.step c).1.depth ≠ 0 → (braces.step c).1.kept = braces.kept ++ [c]) := by
  -- Where a brace is open before and after the character, the character is kept.
  have hgrows : ∀ depth inString escaped, braces.depth ≠ 0 → depth ≠ 0 →
      Braces.kept { depth, inString, escaped, span := braces.span ++ [c] } = braces.kept ++ [c] := by
    intro depth inString escaped hbefore hafter
    rw [Braces.kept, Braces.kept, if_neg hbefore, if_neg hafter]
  have hnothing : ∀ span ∈ (none : Option (List Char)), span = braces.kept ++ [c] := by
    rintro span ⟨⟩
  rw [Braces.step]
  dsimp only
  split_ifs with hstring hescaped hbackslash hquote hopen hbrace houter hclose hlast
  · exact ⟨hnothing, fun hdepth => hgrows _ _ _ hdepth hdepth⟩
  · exact ⟨hnothing, fun hdepth => hgrows _ _ _ hdepth hdepth⟩
  · exact ⟨hnothing, fun hdepth => hgrows _ _ _ hdepth hdepth⟩
  · exact ⟨hnothing, fun hdepth => hgrows _ _ _ hdepth hdepth⟩
  · exact ⟨hnothing, fun hdepth => hgrows _ _ _ hdepth hdepth⟩
  · refine ⟨hnothing, fun hdepth => ?_⟩
    rw [Braces.kept, Braces.kept, if_pos houter, if_neg hdepth]
    rfl
  · exact ⟨hnothing, fun hdepth => hgrows _ _ _ houter hdepth⟩
  · refine ⟨?_, fun hdepth => hgrows _ _ _ hclose.2 hdepth⟩
    intro span hspan
    rw [Option.mem_some_iff] at hspan
    rw [← hspan, Braces.kept, if_neg hclose.2]
  · exact ⟨hnothing, fun hdepth => hgrows _ _ _ hclose.2 hdepth⟩
  · exact ⟨hnothing, fun hdepth => hgrows _ _ _ hdepth hdepth⟩

/-- A span is what is kept and the text after it, or a part of that. -/
theorem mem_balancedSpans (h : span ∈ balancedSpans braces text) : span <:+: braces.kept ++ text := by
  induction text generalizing braces with
  | nil =>
    rw [balancedSpans] at h
    cases h
  | cons c text ih =>
    obtain ⟨hclosed, hkept⟩ := step_kept braces c
    have hcons : braces.kept ++ c :: text = (braces.kept ++ [c]) ++ text := by
      rw [List.append_assoc, List.singleton_append]
    rw [hcons]
    rw [balancedSpans, List.mem_append, Option.mem_toList] at h
    rcases h with hhere | hlater
    · rw [hclosed span hhere]
      exact (List.prefix_append _ text).isInfix
    · have hrest := ih hlater
      by_cases hdepth : (braces.step c).1.depth = 0
      · rw [Braces.kept, if_pos hdepth, List.nil_append] at hrest
        exact hrest.trans (List.suffix_append _ text).isInfix
      · rwa [hkept hdepth] at hrest

theorem candidate_part (h : candidate ∈ candidates text) : candidate <:+: text := by
  rw [candidates, List.mem_append] at h
  rcases h with hearly | hspan
  · obtain ⟨block, rfl, rfl | hblock⟩ := mem_early hearly
    · exact strip_part _
    · exact (strip_part block).trans (block_part hblock)
  · exact mem_balancedSpans hspan

/-- What is found was read from a candidate. -/
theorem loads_of_firstObject {others : List (List Char)} (h : firstObject limit others = .ok (some entries)) :
    ∃ candidate ∈ others, loads limit candidate = .ok (.obj entries) := by
  fun_induction firstObject limit others with
  | case1 => cases h
  | case2 => cases h
  | case3 candidate rest error hloads hcaught ih => 
    obtain ⟨found, hmem, hfound⟩ := ih h
    exact ⟨found, List.mem_cons_of_mem _ hmem, hfound⟩
  | case4 candidate rest found hloads =>
    cases h
    exact ⟨candidate, List.mem_cons_self, hloads⟩
  | case5 candidate rest value hloads hother ih =>
    obtain ⟨found, hmem, hfound⟩ := ih h
    exact ⟨found, List.mem_cons_of_mem _ hmem, hfound⟩

end Candidates

/-! ### The text of an object -/

section Dumped

variable {layout : Layout} {repr : Binary64 → List Char} {limit : Nat} {candidate text : List Char} {sign : Char}
  {entries found : List (List CodePoint × Json)}

theorem plain_of_numeral (h : Numeral repr) : Plain repr := fun x => plain_of_marks (h.notMem x)

theorem strip_braces (inner : List Char) : strip ('{' :: inner ++ ['}']) = '{' :: inner ++ ['}'] := by
  have hopen : ¬ isSpace '{' = true := by decide
  have hclose : ¬ isSpace '}' = true := by decide
  rw [strip, List.cons_append, List.dropWhile_cons_of_neg hopen, ← List.cons_append, List.reverse_append,
    List.reverse_singleton, List.singleton_append, List.dropWhile_cons_of_neg hclose, List.reverse_cons,
    List.reverse_reverse]

/-- **What is read from less than the text of an object is another object.** -/
theorem found_ne (hrepr : Numeral repr) (hsign : sign ∈ ['"', '<', '>']) (hpays : Json.Pays sign text)
    (hfewer : text.count sign < (write layout repr 0 (.obj entries)).count sign) (hpart : candidate <:+: text)
    (h : loads limit candidate = .ok (.obj found)) : found ≠ entries := by
  rintro rfl
  have hbasic := Json.toNat_sign hsign
  have hweight := Json.weight_le_of_loads (by omega) (hpays.part hpart) h
  have hcount := hpart.sublist.count_le sign
  have hwritten := @Json.count_write layout repr sign hrepr hsign (.obj found) 0
  omega

/-- An answer that is the text of an object once it is stripped gives the object. -/
theorem extract_written (hrepr : Numeral repr) (h : Writable repr (.obj entries))
    (hdepth : Json.depth (.obj entries) ≤ limit) (hstripped : stripReasoning text = write layout repr 0 (.obj entries)) :
    extractJsonObject limit text = .ok (some entries) := by
  obtain ⟨inner, hinner, -⟩ := write_obj_braces (plain_of_numeral hrepr) layout entries 0
  have hwhole := @Json.loads_write layout repr limit _ h hdepth 0 [] [] (List.forall_mem_nil _)
    (List.forall_mem_nil _)
  rw [List.nil_append, List.append_nil] at hwhole
  rw [extractJsonObject, hstripped, candidates]
  rw [hinner] at hwhole ⊢
  rw [strip_braces, List.filter_cons_of_pos (by rfl), List.cons_append]
  exact firstObject_found hwhole _

end Dumped

/-- **Which objects survive as a plain answer.** They are those without a surrogate pair that are no
    deeper than the reader may go and whose text has no closing tag of reasoning in it. -/
theorem extract_dumps_iff (layout : Layout) (repr : Binary64 → List Char) (limit : Nat) (hrepr : Numeral repr)
    (entries : List (List CodePoint × Json)) (h : Dumpable repr (.obj entries)) :
    extractJsonObject limit (write layout repr 0 (.obj entries)) = .ok (some entries) ↔
      Json.Read limit (.obj entries) ∧ NoClosing (write layout repr 0 (.obj entries)) := by
  constructor
  · intro hfound
    obtain ⟨candidate, hmem, hloads⟩ := loads_of_firstObject hfound
    refine ⟨Json.read_of_loads hloads, ?_⟩
    by_contra htags
    obtain ⟨middle, hlexes, hfewer⟩ := stripReasoning_fewer (Json.lexes_write hrepr _ 0) htags
    exact found_ne hrepr (by decide) (hlexes.pays (by decide)) hfewer (candidate_part hmem) hloads rfl
  · rintro ⟨hread, htags⟩
    exact extract_written hrepr ((Json.writable_iff _).mpr ⟨h, hread.pairFree⟩) hread.depth_le
      (stripReasoning_of_noClosing htags)

/-! An object whose text has an opening tag, and one whose text has a closing tag. -/

namespace Sample

def opening : List (List CodePoint × Json) := [(Json.key "a", .str (Json.key "<think>"))]

def closing : List (List CodePoint × Json) := [(Json.key "a", .str (Json.key "<think>x</think>y"))]

def closed : List (List CodePoint × Json) := [(Json.key "a", .str (Json.key "y"))]

theorem repr_numeral : Numeral repr := by
  intro x c hc
  have hall : ∀ c ∈ ['0', '.', '5'], c.isAlphanum = true ∨ c ∈ ['+', '-', '.'] := by
    simp only [List.forall_mem_cons]
    exact ⟨.inl rfl, .inr (by decide), .inl rfl, List.forall_mem_nil _⟩
  exact hall c hc

theorem opening_dumpable : Dumpable repr (.obj opening) := by
  rw [Dumpable]
  refine ⟨List.nodup_singleton _, ?_, trivial⟩
  simp only [Dumpable]

theorem opening_read : Json.Read 1 (.obj opening) := by
  refine ⟨?_, by decide⟩
  rw [PairFree]
  refine ⟨.singleton _, ?_, trivial⟩
  rw [PairFree, Json.Unpaired]
  decide

theorem closed_writable : Writable repr (.obj closed) := by
  rw [Writable]
  refine ⟨List.nodup_singleton _, .singleton _, ?_, trivial⟩
  rw [Writable, Json.Unpaired]
  decide

end Sample

theorem extract_dumps_iff_sample :
    extractJsonObject 1 (write Json.spaced Sample.repr 0 (.obj Sample.opening)) = .ok (some Sample.opening) :=
  (extract_dumps_iff Json.spaced Sample.repr 1 Sample.repr_numeral Sample.opening Sample.opening_dumpable).mpr
    ⟨Sample.opening_read, noClosing_of_afterLast rfl⟩

/-- The text between the tags is lost. -/
theorem dumps_altered :
    extractJsonObject 1000 (write Json.spaced Sample.repr 0 (.obj Sample.closing)) = .ok (some Sample.closed) ∧
      Sample.closed ≠ Sample.closing := by
  constructor
  · have hstripped : stripReasoning (write Json.spaced Sample.repr 0 (.obj Sample.closing)) =
        write Json.spaced Sample.repr 0 (.obj Sample.closed) := by decide
    exact extract_written Sample.repr_numeral Sample.closed_writable (by decide) hstripped
  · intro heq
    have hweight := congrArg (Json.weightEntries '<') heq
    revert hweight
    decide

/-! ### An object in prose -/

/-- Every quotation mark that opens a string in the text is followed by one that closes it. -/
def QuotesClose (text : List Char) : Prop := (Braces.run {} text).inString = false

section Prose

variable {layout : Layout} {repr : Binary64 → List Char} {limit : Nat} {braces : Braces} {c : Char}
  {before after text more : List Char} {entries : List (List CodePoint × Json)}

/-- Without braces no span is closed, and no brace is opened. -/
theorem step_braceless (braces : Braces) (hc : c ∉ ['{', '}']) :
    (braces.step c).2 = none ∧ (braces.step c).1.depth = braces.depth := by
  rw [List.mem_cons, List.mem_singleton, not_or] at hc
  have hclose : ¬ (c = '}' ∧ braces.depth ≠ 0) := fun hbrace => hc.2 hbrace.1
  rw [Braces.step]
  simp only [if_neg hc.1, if_neg hclose]
  split_ifs <;> exact ⟨rfl, rfl⟩

theorem run_braceless (h : ∀ c ∈ text, c ∉ ['{', '}']) (braces : Braces) :
    balancedSpans braces text = [] ∧ (braces.run text).depth = braces.depth := by
  induction text generalizing braces with
  | nil => exact ⟨rfl, rfl⟩
  | cons c text ih =>
    rw [List.forall_mem_cons] at h
    obtain ⟨hclosed, hdepth⟩ := step_braceless braces h.1
    obtain ⟨hspans, hrun⟩ := ih h.2 (braces.step c).1
    rw [balancedSpans, hclosed, hspans, run_cons, hrun, hdepth]
    exact ⟨rfl, rfl⟩

/-- Only in a string does a backslash escape. -/
theorem run_escaped (h : braces.escaped = true → braces.inString = true) (text : List Char) :
    (braces.run text).escaped = true → (braces.run text).inString = true := by
  induction text generalizing braces with
  | nil => exact h
  | cons c text ih =>
    rw [run_cons]
    apply ih
    rw [Braces.step]
    dsimp only
    split_ifs <;> simp_all

/-- Only a quotation mark opens a string. -/
theorem quotesClose_of_notMem (h : '"' ∉ text) : QuotesClose text := by
  have hrun : ∀ braces : Braces, braces.inString = false → (braces.run text).inString = false := by
    induction text with
    | nil => exact fun braces hstring => hstring
    | cons c text ih =>
      rw [List.mem_cons, not_or] at h
      intro braces hstring
      rw [run_cons]
      apply ih h.2
      rw [Braces.step]
      dsimp only
      split_ifs <;> simp_all
  exact hrun {} rfl

theorem fenceBody_fence {body : List Char} (h : fenceBody text = some body) : fence <+: text := by
  rw [fenceBody] at h
  split at h
  · assumption
  · cases h

/-- No block is found where nothing opens one. -/
theorem blocksFrom_eq_nil (h : ∀ last, last <:+ text → fenceBody last = none) (skip : Nat) :
    blocksFrom skip text = [] := by
  rw [List.eq_nil_iff_forall_not_mem]
  intro block hblock
  obtain ⟨last, body, hlast, hbody, -⟩ := mem_blocksFrom hblock
  rw [h last hlast] at hbody
  cases hbody

theorem blocksFrom_wrapped (hrepr : Plain repr) (hbefore : ¬ fence <:+: before) (hafter : ¬ fence <:+: after) :
    blocksFrom 0 (before ++ (write layout repr 0 (.obj entries) ++ after)) = [] := by
  have hfenceless := @fenceless_write layout repr hrepr (.obj entries) 0
  obtain ⟨object, hobject⟩ := @Json.write_obj_head layout repr 0 entries
  refine blocksFrom_eq_nil ?_ 0
  intro last hlast
  rcases suffix_append_cases hlast with hlater | ⟨middle, hmiddle, -, rfl⟩
  · rcases suffix_append_cases hlater with hbehind | ⟨middle, hmiddle, hne, rfl⟩
    · rw [Option.eq_none_iff_forall_ne_some]
      intro body hbody
      exact hafter ((fenceBody_fence hbody).isInfix.trans hbehind.isInfix)
    · exact hfenceless.fenceBody_append hmiddle hne after
  · rw [Option.eq_none_iff_forall_ne_some]
    intro body hbody
    obtain ⟨rest, hrest⟩ := fenceBody_fence hbody
    rw [hobject, List.cons_append] at hrest
    exact hbefore ((begins_of_not_mem hrest.symm (by decide)).isInfix.trans hmiddle.isInfix)

theorem candidates_wrapped (hrepr : Plain repr) (hbefore : ¬ fence <:+: before) (hafter : ¬ fence <:+: after) :
    candidates (before ++ (write layout repr 0 (.obj entries) ++ after)) =
      [strip (before ++ (write layout repr 0 (.obj entries) ++ after))].filter (fun candidate => !candidate.isEmpty) ++
        balancedSpans {} (before ++ (write layout repr 0 (.obj entries) ++ after)) := by
  rw [candidates, blocksFrom_wrapped hrepr hbefore hafter, List.map_nil]

theorem noClosing_wrapped (hrepr : Plain repr) (hbefore : NoClosing before)
    (hobject : NoClosing (write layout repr 0 (.obj entries))) (hafter : NoClosing after) :
    NoClosing (before ++ (write layout repr 0 (.obj entries) ++ after)) := by
  obtain ⟨inner, hinner, -⟩ := write_obj_braces hrepr layout entries 0
  rw [hinner] at hobject ⊢
  have hbehind : NoClosing ('}' :: after) := @noClosing_append ['}'] after (by decide) hafter
  have hboth : NoClosing ('{' :: inner ++ '}' :: after) :=
    noClosing_brace (by decide) (noClosing_of_append hobject) hbehind
  rw [List.append_assoc, List.singleton_append]
  exact noClosing_brace (by decide) hbefore hboth

theorem scanArray_array {inner : Json.Scanner Json} {value : Json} {rest : List Char}
    (h : Json.scanArray inner text = .ok (value, rest)) : ∃ items, value = .arr items := by
  rw [Json.scanArray] at h
  split at h
  · cases h
    exact ⟨[], rfl⟩
  · obtain ⟨⟨items, last⟩, -, hresult⟩ := Json.map_eq_ok h
    rw [Prod.mk.injEq] at hresult
    exact ⟨items, hresult.1⟩

theorem scan_array {value : Json} {rest : List Char} (h : Json.scan limit ('[' :: text) = .ok (value, rest)) :
    ∃ items, value = .arr items := by
  cases limit with
  | zero => cases h
  | succ limit => exact scanArray_array h

/-- What begins with no brace is no object. -/
theorem not_object_of_head (hspace : isSpace c = false) (hc : c ≠ '{') :
    loads limit (c :: more) ≠ .ok (.obj entries) := by
  intro hloads
  by_cases hbracket : c = '['
  · rw [hbracket, loads, if_neg (by simp), Json.skip_cons (by decide)] at hloads
    cases hread : Json.scan limit ('[' :: more) with
    | error error =>
      rw [hread] at hloads
      cases hloads
    | ok read =>
      obtain ⟨value, rest⟩ := read
      obtain ⟨items, rfl⟩ := scan_array hread
      rw [hread] at hloads
      dsimp only at hloads
      split at hloads
      · cases hloads
      · cases hloads
  · have hplain : c ∉ ['{', '['] := by
      rw [List.mem_cons, List.mem_singleton, not_or]
      exact ⟨hc, hbracket⟩
    rcases harmless_of_head hspace hplain more limit with ⟨error, herror, -⟩ | ⟨value, hvalue, hother⟩
    · rw [hloads] at herror
      cases herror
    · rw [hloads, Except.ok.injEq] at hvalue
      exact hother entries hvalue.symm

/-- The whole answer is the object, or is passed over, unless reading it raises. -/
theorem whole_cases (hshort : Short repr) (h : Writable repr (.obj entries))
    (hdepth : Json.depth (.obj entries) ≤ limit) (hbefore : ∀ c ∈ before, c ∉ ['{', '}'])
    (hraises : loads limit (strip (before ++ (write layout repr 0 (.obj entries) ++ after))) ≠ .error .recursion) :
    Harmless limit (strip (before ++ (write layout repr 0 (.obj entries) ++ after))) ∨
      loads limit (strip (before ++ (write layout repr 0 (.obj entries) ++ after))) = .ok (.obj entries) := by
  rcases strip_cases before (write layout repr 0 (.obj entries) ++ after) with
    hblank | ⟨c, hc, more, hspace, hmore⟩
  · rw [strip_append_blank hblank]
    obtain ⟨object, hobject⟩ := @Json.write_obj_head layout repr 0 entries
    have hhead : ∀ c ∈ (write layout repr 0 (.obj entries) ++ after).head?, isSpace c = false := by
      intro c hc
      rw [hobject, List.cons_append, List.head?_cons, Option.mem_some_iff] at hc
      rw [← hc]
      decide
    exact (passes_of_begins hshort h hdepth (strip_begins hhead)).imp_right And.right
  · rw [hmore] at hraises ⊢
    left
    cases hloads : loads limit (c :: more) with
    | error error =>
      refine .inl ⟨error, hloads, ?_⟩
      rintro rfl
      exact hraises hloads
    | ok value =>
      refine .inr ⟨value, hloads, ?_⟩
      rintro found rfl
      refine not_object_of_head hspace ?_ hloads
      rintro rfl
      exact hbefore '{' hc (by decide)

/-- After prose whose quotation marks close, the object is the first span. -/
theorem balancedSpans_closed (hrepr : Plain repr) (hbefore : ∀ c ∈ before, c ∉ ['{', '}'])
    (hclose : QuotesClose before) (after : List Char) :
    ∃ rest, balancedSpans {} (before ++ (write layout repr 0 (.obj entries) ++ after)) =
      write layout repr 0 (.obj entries) :: rest := by
  obtain ⟨inner, hinner, hcalm⟩ := write_obj_braces hrepr layout entries 0
  obtain ⟨hspans, hrun⟩ := hcalm { depth := 1, span := ['{'] } ⟨Nat.one_ne_zero, rfl, rfl⟩
  obtain ⟨hnone, hdepth⟩ := run_braceless hbefore {}
  have hescaped : (Braces.run {} before).escaped = false := by
    rw [Bool.eq_false_iff]
    intro hescaped
    have hstring := @run_escaped {} Bool.noConfusion before hescaped
    rw [hclose] at hstring
    cases hstring
  have hstring : (Braces.run {} before).inString = false := hclose
  have hopen : (Braces.run {} before).step '{' = ({ depth := 1, span := ['{'] }, none) := by
    rw [Braces.step]
    simp only [hstring, hdepth, hescaped, Bool.false_eq_true, if_false, if_true, Char.reduceEq]
  refine ⟨balancedSpans { span := '{' :: inner ++ ['}'] } after, ?_⟩
  rw [hinner, balancedSpans_append, hnone, List.nil_append, List.cons_append, List.cons_append, List.append_assoc,
    balancedSpans, hopen, balancedSpans_append, hspans, hrun]
  rfl

/-- A string goes on through what neither ends it nor escapes. -/
theorem run_quoted (hstring : braces.inString = true) (hdepth : braces.depth = 0) (hne : text ≠ [])
    (h : ∀ c ∈ text, c ∉ ['"', '\\']) :
    balancedSpans braces text = [] ∧ (braces.run text).inString = true ∧ (braces.run text).escaped = false ∧
      (braces.run text).depth = 0 := by
  rcases text with - | ⟨c, text⟩
  · exact absurd rfl hne
  · rw [List.forall_mem_cons] at h
    have hc := h.1
    rw [List.mem_cons, List.mem_singleton, not_or] at hc
    -- The first character may be one that is escaped.
    have hstep : braces.step c =
        ({ braces with inString := true, escaped := false, span := braces.span ++ [c] }, none) := by
      rw [Braces.step]
      simp only [hstring, if_true, if_neg hc.1, if_neg hc.2]
      split
      · rfl
      · rename_i hescaped
        rw [Bool.not_eq_true] at hescaped
        rw [← hescaped]
    obtain ⟨hspans, hrun⟩ := @quiet_quoted
      { braces with inString := true, escaped := false, span := braces.span ++ [c] } text ⟨rfl, rfl⟩ h.2
    rw [balancedSpans, run_cons, hstep, hspans, hrun]
    exact ⟨rfl, rfl, rfl, hdepth⟩

/-- The text of an object up to its first quotation mark. -/
theorem write_obj_quote (layout : Layout) (repr : Binary64 → List Char) (entries : List (List CodePoint × Json)) :
    write layout repr 0 (.obj entries) = ['{', '}'] ∨
      ∃ front back, write layout repr 0 (.obj entries) = front ++ '"' :: back ∧ front ≠ [] ∧
        ∀ c ∈ front, c ∉ ['"', '\\'] := by
  rcases entries with - | ⟨⟨name, value⟩, entries⟩
  · exact .inl rfl
  · refine .inr ⟨'{' :: layout.opening 0, name.flatMap Json.escape ++ ('"' :: ':' :: (layout.colon ++
      (write layout repr 1 value ++ Json.writeEntries layout repr 0 entries))), ?_, List.cons_ne_nil _ _, ?_⟩
    · rw [write, Json.writeText]
      simp only [List.append_assoc, List.cons_append, List.nil_append]
    · refine List.forall_mem_cons.mpr ⟨by decide, ?_⟩
      intro c hc hmem
      have hblank := layout.opening_blank 0 c hc
      simp only [List.mem_cons, List.not_mem_nil, or_false] at hmem
      rcases hmem with rfl | rfl <;> revert hblank <;> decide

/-- Where a string goes on into the object, every span stands behind a quotation mark of it. -/
theorem mem_balancedSpans_open (hbefore : ∀ c ∈ before, c ∉ ['{', '}']) (hafter : ∀ c ∈ after, c ∉ ['{', '}'])
    (hopen : ¬ QuotesClose before) {span : List Char}
    (h : span ∈ balancedSpans {} (before ++ (write layout repr 0 (.obj entries) ++ after))) :
    ∃ front back, write layout repr 0 (.obj entries) = front ++ '"' :: back ∧ span <:+: back := by
  obtain ⟨hnone, hdepth⟩ := run_braceless hbefore {}
  have hstring : (Braces.run {} before).inString = true := by
    rw [QuotesClose, Bool.not_eq_false] at hopen
    exact hopen
  rw [balancedSpans_append, hnone, List.nil_append] at h
  rcases write_obj_quote layout repr entries with hempty | ⟨front, back, hwrite, hne, hfront⟩
  · rw [hempty, balancedSpans_append, (run_quoted hstring hdepth (List.cons_ne_nil _ _) (of_avoids (by decide))).1,
      (run_braceless hafter _).1] at h
    cases h
  · obtain ⟨hspans, hquoted, hescaped, houter⟩ := run_quoted hstring hdepth hne hfront
    rw [hwrite, List.append_assoc, balancedSpans_append, hspans, List.nil_append, List.cons_append, balancedSpans,
      balancedSpans_append, (run_braceless hafter _).1, List.append_nil] at h
    have hclose : ((Braces.run {} before).run front).step '"' =
        ({ (Braces.run {} before).run front with
            inString := false, span := ((Braces.run {} before).run front).span ++ ['"'] }, none) := by
      rw [Braces.step]
      simp only [hquoted, hescaped, Bool.false_eq_true, if_true, if_false, Char.reduceEq]
    rw [hclose] at h
    have hpart := mem_balancedSpans h
    rw [Braces.kept, if_pos houter, List.nil_append] at hpart
    exact ⟨front, back, hwrite, hpart⟩

end Prose

/-- **Which objects are found in prose.** The prose has no brace, no fence and no closing tag in it;
    the object is found if and only if it has no surrogate pair and is no deeper than the reader may
    go, the quotation marks in front of it close, and reading the whole answer as a document does
    not exceed the recursion limit. -/
theorem extract_prose_iff (layout : Layout) (repr : Binary64 → List Char) (limit : Nat) (hrepr : Numeral repr)
    (hshort : Short repr) (entries : List (List CodePoint × Json)) (h : Dumpable repr (.obj entries))
    (before after : List Char) (hbefore : ∀ c ∈ before, c ∉ ['{', '}']) (hafter : ∀ c ∈ after, c ∉ ['{', '}'])
    (hfences : ¬ fence <:+: before ∧ ¬ fence <:+: after)
    (htags : NoClosing before ∧ NoClosing (write layout repr 0 (.obj entries)) ∧ NoClosing after) :
    extractJsonObject limit (before ++ (write layout repr 0 (.obj entries) ++ after)) = .ok (some entries) ↔
      Json.Read limit (.obj entries) ∧ QuotesClose before ∧
        loads limit (strip (before ++ (write layout repr 0 (.obj entries) ++ after))) ≠ .error .recursion := by
  have hplain := plain_of_numeral hrepr
  rw [extractJsonObject, stripReasoning_of_noClosing (noClosing_wrapped hplain htags.1 htags.2.1 htags.2.2),
    candidates_wrapped hplain hfences.1 hfences.2]
  constructor
  · intro hfound
    obtain ⟨candidate, hmem, hloads⟩ := loads_of_firstObject hfound
    refine ⟨Json.read_of_loads hloads, ?_, ?_⟩
    · by_contra hopen
      rcases List.mem_append.mp hmem with hwhole | hspan
      · rw [List.mem_singleton.mp (List.mem_filter.mp hwhole).1] at hloads
        rcases strip_cases before (write layout repr 0 (.obj entries) ++ after) with
          hblank | ⟨c, hc, more, hspace, hmore⟩
        · refine hopen (quotesClose_of_notMem ?_)
          intro hquote
          have hspace := hblank '"' hquote
          revert hspace
          decide
        · rw [hmore] at hloads
          refine not_object_of_head hspace ?_ hloads
          rintro rfl
          exact hbefore '{' hc (by decide)
      · obtain ⟨front, back, hwrite, hpart⟩ := mem_balancedSpans_open hbefore hafter hopen hspan
        obtain ⟨middle, hback⟩ := (Json.lexes_write hrepr (.obj entries) 0).after_quote hwrite
        have hfewer : back.count '"' < (write layout repr 0 (.obj entries)).count '"' := by
          rw [hwrite, List.count_append, List.count_cons_self]
          omega
        exact found_ne hrepr (by decide) (hback.pays (by decide)) hfewer hpart hloads rfl
    · intro hraises
      rcases hwhole : strip (before ++ (write layout repr 0 (.obj entries) ++ after)) with - | ⟨c, more⟩
      · rw [hwhole] at hraises
        rcases harmless_nil limit with ⟨error, herror, hcaught⟩ | ⟨value, hvalue, -⟩
        · rw [hraises, Except.error.injEq] at herror
          exact hcaught herror.symm
        · rw [hraises] at hvalue
          cases hvalue
      · rw [hwhole] at hraises hfound
        rw [List.filter_cons_of_pos (by rfl), List.filter_nil, List.singleton_append, firstObject, hraises] at hfound
        cases hfound
  · rintro ⟨⟨hpairs, hdepth⟩, hclose, hraises⟩
    have hwritable : Writable repr (.obj entries) := (Json.writable_iff _).mpr ⟨h, hpairs⟩
    obtain ⟨rest, hspans⟩ := @balancedSpans_closed layout repr before entries hplain hbefore hclose after
    have hobject := @Json.loads_write layout repr limit _ hwritable hdepth 0 [] [] (List.forall_mem_nil _)
      (List.forall_mem_nil _)
    rw [List.nil_append, List.append_nil] at hobject
    rw [hspans]
    refine firstObject_append ?_ hobject rest
    intro candidate hcandidate
    rw [List.mem_singleton.mp (List.mem_filter.mp hcandidate).1]
    exact whole_cases hshort hwritable hdepth hbefore hraises

/-! Prose whose quotation marks close, and prose with one that does not. -/

namespace Sample

def quoting : List Char := "It's \"so\\\"\": ".toList

def inch : List Char := "5\" disk: ".toList

theorem inch_plain : avoids ['{', '}', '<', '`'] inch = true := by decide

theorem entries_dumpable : Dumpable repr (.obj entries) := ((Json.writable_iff _).mp entries_writable).1

theorem entries_read : Json.Read 1 (.obj entries) := ⟨((Json.writable_iff _).mp entries_writable).2, by decide⟩

end Sample

theorem extract_prose_iff_sample :
    extractJsonObject 1 (Sample.quoting ++ (write Json.spaced Sample.repr 0 (.obj Sample.entries) ++ ['"'])) =
      .ok (some Sample.entries) := by
  have hbraces : ∀ c ∈ Sample.quoting, c ∉ ['{', '}'] := of_avoids (by decide)
  have hquote : ∀ c ∈ ['"'], c ∉ ['{', '}'] := of_avoids (by decide)
  refine (extract_prose_iff Json.spaced Sample.repr 1 Sample.repr_numeral Sample.repr_short Sample.entries
    Sample.entries_dumpable Sample.quoting ['"'] hbraces hquote ⟨by decide, by decide⟩
    ⟨Sample.noClosing_plain (by decide), Sample.noClosing_plain (by decide), Sample.noClosing_plain (by decide)⟩).mpr
    ⟨Sample.entries_read, by rfl, ?_⟩
  intro hraises
  have hdecode : loads 1 (strip (Sample.quoting ++
      (write Json.spaced Sample.repr 0 (.obj Sample.entries) ++ ['"']))) = .error .decode := rfl
  rw [hdecode] at hraises
  cases hraises

/-- The object behind a single quotation mark is not found. -/
theorem prose_hides :
    (∀ c ∈ Sample.inch, c ∉ ['{', '}', '<', '`']) ∧
      extractJsonObject 1000 (Sample.inch ++ write Json.spaced Sample.repr 0 (.obj Sample.entries)) = .ok none := by
  refine ⟨of_avoids Sample.inch_plain, ?_⟩
  have hcandidates : candidates (stripReasoning
      (Sample.inch ++ write Json.spaced Sample.repr 0 (.obj Sample.entries))) =
        [Sample.inch ++ write Json.spaced Sample.repr 0 (.obj Sample.entries)] := by decide
  rw [extractJsonObject, hcandidates]
  apply firstObject_none
  exact List.forall_mem_singleton.mpr (harmless_of_head (by decide) (by decide) _ 1000)

end AgenticPlatform.Extraction
