import Mathlib.Data.List.Forall2
import Mathlib.Data.List.Infix
import Mathlib.Tactic.Common

/-!
# Reasoning in a model's answer

`_strip_reasoning`: what stands between an opening and a closing tag of one name is dropped, and
then everything up to the last closing tag. Names are compared without regard to case.
-/

namespace AgenticPlatform.Extraction

/-! ### Tags -/

/-- The lower case of a character, where it is a letter of a tag's name. -/
def lower (c : Char) : Char :=
  if c = '\u0130' then 'i' else if c = '\u212a' then 'k' else c.toLower

/-- `re.IGNORECASE`: a letter of a pattern stands for its cases; the dotless `i` and the long `s`
    are cases too. -/
def isLetter (letter c : Char) : Bool :=
  lower c == letter || (letter == 'i' && lower c == '\u0131') || (letter == 's' && lower c == '\u017f')

/-- A back reference stands for what has the same lower case. -/
def sameLower (c d : Char) : Bool := lower c == lower d

def tagNames : List (List Char) := ["think".toList, "thinking".toList, "reasoning".toList]

/-- A word at the beginning of a text: what stands for it, and the text after it. -/
def matchWord (fits : Char → Char → Bool) : (word text : List Char) → Option (List Char × List Char)
  | [], text => some ([], text)
  | letter :: word, c :: text =>
    if fits letter c then (matchWord fits word text).map fun read => (c :: read.1, read.2) else none
  | _ :: _, [] => none

/-- A word and the angle bracket after it. -/
def endTag (fits : Char → Char → Bool) (word text : List Char) : Option (List Char × List Char) :=
  match matchWord fits word text with
  | some (found, '>' :: rest) => some (found, rest)
  | _ => none

/-- One of the names and the angle bracket after it. -/
def findName (text : List Char) : Option (List Char × List Char) :=
  tagNames.findSome? fun name => endTag isLetter name text

def openTag : List Char → Option (List Char × List Char)
  | '<' :: text => findName text
  | _ => none

/-- The text after a closing tag of the name that was opened. -/
def closesAs (word : List Char) : List Char → Option (List Char)
  | '<' :: '/' :: text => (endTag sameLower word text).map Prod.snd
  | _ => none

/-- The text after a closing tag. -/
def closeTag : List Char → Option (List Char)
  | '<' :: '/' :: text => (findName text).map Prod.snd
  | _ => none

/-! ### Stripping -/

/-- The text after the first closing tag of a name. -/
def afterClose (word : List Char) : List Char → Option (List Char)
  | [] => none
  | c :: text => (closesAs word (c :: text)).or (afterClose word text)

/-- The text after a pair of tags at the beginning. -/
def afterPair (text : List Char) : Option (List Char) :=
  (openTag text).bind fun opened => afterClose opened.1 opened.2

/-- `_REASONING_PAIR_RE.sub("", text)`, from after what is skipped. -/
def removeFrom : (skip : Nat) → List Char → List Char
  | _, [] => []
  | skip + 1, _ :: text => removeFrom skip text
  | 0, c :: text =>
    match afterPair (c :: text) with
    | some rest => removeFrom (text.length - rest.length) text
    | none => c :: removeFrom 0 text

def removePairs (text : List Char) : List Char := removeFrom 0 text

/-- The text after the last closing tag. -/
def afterLast : List Char → Option (List Char)
  | [] => none
  | c :: text => (afterLast text).or (closeTag (c :: text))

/-- `_strip_reasoning`. -/
def stripReasoning (text : List Char) : List Char :=
  (afterLast (removePairs text)).getD (removePairs text)

/-! ### What a tag is -/

section Tags

variable {fits : Char → Char → Bool} {word found text rest : List Char} {c : Char}

theorem matchWord_iff : matchWord fits word text = some (found, rest) ↔
    text = found ++ rest ∧ List.Forall₂ (fun letter c => fits letter c = true) word found := by
  induction word generalizing text found with
  | nil =>
    rw [matchWord, Option.some_inj, Prod.mk.injEq]
    constructor
    · rintro ⟨rfl, rfl⟩
      exact ⟨rfl, .nil⟩
    · rintro ⟨rfl, hfound⟩
      cases hfound
      exact ⟨rfl, rfl⟩
  | cons letter word ih =>
    rcases text with - | ⟨c, text⟩
    · refine iff_of_false nofun ?_
      rintro ⟨htext, hfound⟩
      cases hfound
      cases htext
    · rw [matchWord]
      constructor
      · intro h
        split at h
        · rename_i hfits
          obtain ⟨⟨more, last⟩, hmore, hresult⟩ := Option.map_eq_some_iff.mp h
          rw [Prod.mk.injEq] at hresult
          obtain ⟨rfl, rfl⟩ := hresult
          obtain ⟨rfl, hrest⟩ := ih.mp hmore
          exact ⟨rfl, .cons hfits hrest⟩
        · cases h
      · rintro ⟨htext, hfound⟩
        cases hfound with
        | cons hfits hrest =>
          rw [List.cons_append, List.cons.injEq] at htext
          obtain ⟨rfl, htext⟩ := htext
          rw [if_pos hfits, ih.mpr ⟨htext, hrest⟩]
          rfl

theorem endTag_iff : endTag fits word text = some (found, rest) ↔
    text = found ++ '>' :: rest ∧ List.Forall₂ (fun letter c => fits letter c = true) word found := by
  rw [← matchWord_iff, endTag]
  constructor
  · intro h
    split at h
    · rename_i other last hmatch
      rw [Option.some_inj, Prod.mk.injEq] at h
      obtain ⟨rfl, rfl⟩ := h
      exact hmatch
    · cases h
  · intro h
    rw [h]
    rfl

/-- What stands for a name. -/
def TagWord (word : List Char) : Prop :=
  ∃ name ∈ tagNames, List.Forall₂ (fun letter c => isLetter letter c = true) name word

/-- No bracket, no brace and no slash is a letter of a name. -/
theorem isLetter_bracket : (tagNames.all fun name => name.all fun letter => ['<', '>', '/', '{', '}'].all fun c =>
    !isLetter letter c) = true := by
  decide

theorem TagWord.plain (h : TagWord word) : ∀ c ∈ word, c ∉ ['<', '>', '/', '{', '}'] := by
  obtain ⟨name, hname, hword⟩ := h
  have hall : ∀ letter ∈ name, ∀ c ∈ ['<', '>', '/', '{', '}'], isLetter letter c = false := by
    intro letter hletter c hc
    have hbrackets := List.all_eq_true.mp (List.all_eq_true.mp (List.all_eq_true.mp isLetter_bracket
      name hname) letter hletter) c hc
    rw [Bool.not_eq_true'] at hbrackets
    exact hbrackets
  clear hname
  intro c hc hbracket
  induction hword with
  | nil => cases hc
  | cons hletter _ ih =>
    rw [List.forall_mem_cons] at hall
    rcases List.mem_cons.mp hc with rfl | hrest
    · rw [hall.1 c hbracket] at hletter
      cases hletter
    · exact ih hall.2 hrest

/-- Up to the first angle bracket a text is split in one way only. -/
theorem split_unique {other last : List Char} (hword : '>' ∉ word) (hother : '>' ∉ other)
    (h : word ++ '>' :: rest = other ++ '>' :: last) : word = other ∧ rest = last := by
  induction word generalizing other with
  | nil =>
    rcases other with - | ⟨c, other⟩
    · exact ⟨rfl, (List.cons.inj h).2⟩
    · rw [List.nil_append, List.cons_append, List.cons.injEq] at h
      exact absurd (List.mem_cons.mpr (.inl h.1)) hother
  | cons c word ih =>
    rw [List.mem_cons, not_or] at hword
    rcases other with - | ⟨d, other⟩
    · rw [List.nil_append, List.cons_append, List.cons.injEq] at h
      exact absurd h.1.symm hword.1
    · rw [List.mem_cons, not_or] at hother
      rw [List.cons_append, List.cons_append, List.cons.injEq] at h
      obtain ⟨hrest, hlast⟩ := ih hword.2 hother.2 h.2
      exact ⟨by rw [h.1, hrest], hlast⟩

theorem not_mem_of_tagWord (h : TagWord word) (hc : c ∈ ['<', '>', '/', '{', '}']) : c ∉ word :=
  fun hmem => h.plain c hmem hc

theorem findName_iff : findName text = some (found, rest) ↔ text = found ++ '>' :: rest ∧ TagWord found := by
  rw [findName]
  constructor
  · intro h
    obtain ⟨name, hname, hend⟩ := List.exists_of_findSome?_eq_some h
    obtain ⟨htext, hfits⟩ := endTag_iff.mp hend
    exact ⟨htext, name, hname, hfits⟩
  · rintro ⟨rfl, name, hname, hfits⟩
    have hfound : (tagNames.findSome? fun name => endTag isLetter name (found ++ '>' :: rest)).isSome := by
      rw [List.findSome?_isSome_iff]
      exact ⟨name, hname, by rw [endTag_iff.mpr ⟨rfl, hfits⟩]; rfl⟩
    obtain ⟨⟨other, last⟩, hother⟩ := Option.isSome_iff_exists.mp hfound
    obtain ⟨second, hsecond, hend⟩ := List.exists_of_findSome?_eq_some hother
    obtain ⟨htext, hmatch⟩ := endTag_iff.mp hend
    obtain ⟨rfl, rfl⟩ := split_unique (not_mem_of_tagWord ⟨name, hname, hfits⟩ (by decide))
      (not_mem_of_tagWord ⟨second, hsecond, hmatch⟩ (by decide)) htext
    exact hother

theorem openTag_iff : openTag text = some (found, rest) ↔ text = '<' :: found ++ '>' :: rest ∧ TagWord found := by
  rw [openTag.eq_def]
  split
  · rename_i text
    rw [findName_iff, List.cons_append, List.cons.injEq, and_iff_right rfl]
  · rename_i hother
    refine iff_of_false nofun ?_
    rintro ⟨htext, -⟩
    exact hother _ htext

theorem closesAs_iff : closesAs word text = some rest ↔
    ∃ found, text = '<' :: '/' :: found ++ '>' :: rest ∧
      List.Forall₂ (fun letter c => sameLower letter c = true) word found := by
  rw [closesAs.eq_def]
  split
  · rename_i text
    rw [Option.map_eq_some_iff]
    constructor
    · rintro ⟨⟨found, last⟩, hend, rfl⟩
      obtain ⟨htext, hfits⟩ := endTag_iff.mp hend
      exact ⟨found, by rw [htext]; rfl, hfits⟩
    · rintro ⟨found, htext, hfits⟩
      rw [List.cons_append, List.cons_append, List.cons.injEq, List.cons.injEq] at htext
      exact ⟨(found, rest), endTag_iff.mpr ⟨htext.2.2, hfits⟩, rfl⟩
  · rename_i hother
    refine iff_of_false nofun ?_
    rintro ⟨found, htext, -⟩
    exact hother _ htext

theorem closeTag_iff : closeTag text = some rest ↔
    ∃ found, text = '<' :: '/' :: found ++ '>' :: rest ∧ TagWord found := by
  rw [closeTag.eq_def]
  split
  · rename_i text
    rw [Option.map_eq_some_iff]
    constructor
    · rintro ⟨⟨found, last⟩, hname, rfl⟩
      obtain ⟨htext, hfits⟩ := findName_iff.mp hname
      exact ⟨found, by rw [htext]; rfl, hfits⟩
    · rintro ⟨found, htext, hfits⟩
      rw [List.cons_append, List.cons_append, List.cons.injEq, List.cons.injEq] at htext
      exact ⟨(found, rest), findName_iff.mpr ⟨htext.2.2, hfits⟩, rfl⟩
  · rename_i hother
    refine iff_of_false nofun ?_
    rintro ⟨found, htext, -⟩
    exact hother _ htext

end Tags

/-! ### What is dropped -/

section Stripping

variable {before after hidden word other text rest : List Char}

theorem closesAs_suffix (h : closesAs word text = some rest) : rest <:+ text := by
  obtain ⟨found, rfl, -⟩ := closesAs_iff.mp h
  exact ⟨'<' :: '/' :: found ++ ['>'], by simp⟩

theorem afterClose_suffix (h : afterClose word text = some rest) : rest <:+ text := by
  induction text with
  | nil => cases h
  | cons c text ih =>
    rw [afterClose, Option.or_eq_some_iff] at h
    rcases h with hhere | ⟨-, hlater⟩
    · exact closesAs_suffix hhere
    · exact (ih hlater).trans (List.suffix_cons c text)

theorem removeFrom_eq_drop (skip : Nat) (text : List Char) : removeFrom skip text = removePairs (text.drop skip) := by
  induction text generalizing skip with
  | nil => rw [List.drop_nil, removePairs, removeFrom, removeFrom]
  | cons c text ih =>
    rcases skip with - | skip
    · rfl
    · rw [removeFrom, ih, List.drop_succ_cons]

theorem drop_of_suffix (h : rest <:+ text) : text.drop (text.length - rest.length) = rest := by
  obtain ⟨front, rfl⟩ := h
  rw [List.length_append, Nat.add_sub_cancel, List.drop_left]

/-- A pair at the beginning is dropped. -/
theorem removePairs_pair (h : afterPair text = some rest) : removePairs text = removePairs rest := by
  obtain ⟨⟨found, opened⟩, hopen, hclose⟩ := Option.bind_eq_some_iff.mp h
  obtain ⟨htext, -⟩ := openTag_iff.mp hopen
  rcases text with - | ⟨c, text⟩
  · cases htext
  · have hsuffix : rest <:+ text := by
      rw [List.cons_append, List.cons.injEq] at htext
      rw [htext.2]
      exact (afterClose_suffix hclose).trans ⟨found ++ ['>'], by simp⟩
    rw [removePairs, removeFrom, h]
    simp only [removeFrom_eq_drop, drop_of_suffix hsuffix]

/-- What has no angle bracket in it stays. -/
theorem removePairs_plain (h : '<' ∉ before) (text : List Char) :
    removePairs (before ++ text) = before ++ removePairs text := by
  induction before with
  | nil => rfl
  | cons c before ih =>
    rw [List.mem_cons, not_or] at h
    have hnone : afterPair (c :: (before ++ text)) = none := by
      rw [afterPair]
      have hopen : openTag (c :: (before ++ text)) = none := by
        rw [Option.eq_none_iff_forall_ne_some]
        rintro ⟨found, last⟩ hopen
        obtain ⟨htext, -⟩ := openTag_iff.mp hopen
        rw [List.cons_append, List.cons.injEq] at htext
        exact h.1 htext.1.symm
      rw [hopen]
      rfl
    rw [List.cons_append, removePairs, removeFrom, hnone]
    exact congrArg (c :: ·) (ih h.2)

/-- What has the lower case of a name's word stands for the name too. -/
theorem TagWord.same {found : List Char} (h : TagWord word)
    (hsame : List.Forall₂ (fun letter c => sameLower letter c = true) word found) : TagWord found := by
  obtain ⟨name, hname, hword⟩ := h
  refine ⟨name, hname, ?_⟩
  clear hname
  induction hword generalizing found with
  | nil =>
    cases hsame
    exact .nil
  | cons hletter _ ih =>
    cases hsame with
    | cons hlower hrest =>
      refine .cons ?_ (ih hrest)
      rw [sameLower, beq_iff_eq] at hlower
      rw [isLetter, ← hlower]
      exact hletter

/-- No closing tag begins in the text. -/
def NoClosing (text : List Char) : Prop := ∀ last, last <:+ text → closeTag last = none

theorem NoClosing.suffix (h : NoClosing text) (hrest : rest <:+ text) : NoClosing rest :=
  fun last hlast => h last (hlast.trans hrest)

theorem afterClose_closes (h : afterClose word text = some rest) :
    ∃ last, last <:+ text ∧ closesAs word last = some rest := by
  induction text with
  | nil => cases h
  | cons c text ih =>
    rw [afterClose, Option.or_eq_some_iff] at h
    rcases h with hhere | ⟨-, hlater⟩
    · exact ⟨c :: text, List.suffix_rfl, hhere⟩
    · obtain ⟨last, hlast, hcloses⟩ := ih hlater
      exact ⟨last, hlast.trans (List.suffix_cons c text), hcloses⟩

/-- Without a closing tag there is no pair. -/
theorem afterPair_of_noClosing (h : NoClosing text) : afterPair text = none := by
  rw [Option.eq_none_iff_forall_ne_some]
  intro rest hpair
  obtain ⟨⟨found, opened⟩, hopen, hclose⟩ := Option.bind_eq_some_iff.mp hpair
  obtain ⟨htext, hword⟩ := openTag_iff.mp hopen
  obtain ⟨last, hlast, hcloses⟩ := afterClose_closes hclose
  obtain ⟨other, hother, hsame⟩ := closesAs_iff.mp hcloses
  have htag : closeTag last = some rest := closeTag_iff.mpr ⟨other, hother, hword.same hsame⟩
  have hsuffix : last <:+ text := hlast.trans ⟨'<' :: found ++ ['>'], by rw [htext]; simp⟩
  rw [h last hsuffix] at htag
  cases htag

theorem removePairs_of_noClosing (h : NoClosing text) : removePairs text = text := by
  induction text with
  | nil => rfl
  | cons c text ih =>
    rw [removePairs, removeFrom, afterPair_of_noClosing h]
    exact congrArg (c :: ·) (ih (h.suffix (List.suffix_cons c text)))

theorem afterLast_of_noClosing (h : NoClosing text) : afterLast text = none := by
  induction text with
  | nil => rfl
  | cons c text ih =>
    rw [afterLast, ih (h.suffix (List.suffix_cons c text)), h _ List.suffix_rfl]
    rfl

/-- **An answer without a closing tag stays as it is.** -/
theorem stripReasoning_of_noClosing (h : NoClosing text) : stripReasoning text = text := by
  rw [stripReasoning, removePairs_of_noClosing h, afterLast_of_noClosing h]
  rfl

/-- A word that a character is not in ends before the character. -/
theorem begins_of_not_mem {front back tag last : List Char} {c : Char}
    (h : front ++ c :: back = tag ++ last) (hc : c ∉ tag) : tag <+: front := by
  rcases List.append_eq_append_iff.mp h with ⟨missing, htag, hmissing⟩ | ⟨more, hfront, -⟩
  · rcases missing with - | ⟨d, missing⟩
    · rw [List.append_nil] at htag
      rw [htag]
    · rw [List.cons_append, List.cons.injEq] at hmissing
      rw [htag, ← hmissing.1] at hc
      exact absurd (List.mem_append_right front List.mem_cons_self) hc
  · exact ⟨more, hfront.symm⟩

/-- Nothing that closes the word begins in the text, so nothing does in front of a closing tag. -/
theorem afterClose_append (hhidden : afterClose word hidden = none) (hword : TagWord word)
    (hsame : List.Forall₂ (fun letter c => sameLower letter c = true) word other) (rest : List Char) :
    afterClose word (hidden ++ ('<' :: '/' :: other ++ '>' :: rest)) = some rest := by
  have hcloses : closesAs word ('<' :: '/' :: other ++ '>' :: rest) = some rest :=
    closesAs_iff.mpr ⟨other, rfl, hsame⟩
  induction hidden with
  | nil =>
    rw [List.nil_append, List.cons_append, List.cons_append, afterClose, ← List.cons_append, ← List.cons_append,
      hcloses]
    rfl
  | cons c hidden ih =>
    rw [afterClose, Option.or_eq_none_iff] at hhidden
    have hnone : closesAs word (c :: (hidden ++ ('<' :: '/' :: other ++ '>' :: rest))) = none := by
      rw [Option.eq_none_iff_forall_ne_some]
      intro last hlast
      obtain ⟨found, htext, hfound⟩ := closesAs_iff.mp hlast
      -- The tag would end before the next angle bracket, hence in what is hidden.
      have hplain : '<' ∉ found := not_mem_of_tagWord (hword.same hfound) (by decide)
      have hbracket : '<' ∉ '/' :: found ++ ['>'] := by
        simp only [List.cons_append, List.mem_cons, List.mem_append, List.not_mem_nil, or_false, not_or]
        exact ⟨by decide, hplain, by decide⟩
      have htag : hidden ++ '<' :: ('/' :: other ++ '>' :: rest) = ('/' :: found ++ ['>']) ++ last := by
        simp only [List.cons_append, List.append_assoc, List.cons.injEq, List.nil_append] at htext ⊢
        exact htext.2
      obtain ⟨more, hmore⟩ := begins_of_not_mem htag hbracket
      have hhere : closesAs word (c :: hidden) = some more := by
        refine closesAs_iff.mpr ⟨found, ?_, hfound⟩
        simp only [List.cons_append, List.cons.injEq] at htext
        rw [htext.1, ← hmore]
        simp
      rw [hhidden.1] at hhere
      cases hhere
    rw [List.cons_append, afterClose, hnone, ih hhidden.2]
    rfl

/-- **What stands between the tags of a pair does not matter**: it is dropped with them. -/
theorem stripReasoning_pair (hbefore : '<' ∉ before) (hword : TagWord word)
    (hsame : List.Forall₂ (fun letter c => sameLower letter c = true) word other)
    (hhidden : afterClose word hidden = none) (after : List Char) :
    stripReasoning (before ++ ('<' :: word ++ '>' :: (hidden ++ ('<' :: '/' :: other ++ '>' :: after)))) =
      stripReasoning (before ++ after) := by
  have hpair : afterPair ('<' :: word ++ '>' :: (hidden ++ ('<' :: '/' :: other ++ '>' :: after))) = some after := by
    rw [afterPair, openTag_iff.mpr ⟨rfl, hword⟩, Option.bind_some]
    exact afterClose_append hhidden hword hsame after
  rw [stripReasoning, stripReasoning, removePairs_plain hbefore, removePairs_plain hbefore, removePairs_pair hpair]

theorem removePairs_of_noOpening (h : ∀ last, last <:+ text → openTag last = none) : removePairs text = text := by
  induction text with
  | nil => rfl
  | cons c text ih =>
    have hnone : afterPair (c :: text) = none := by
      rw [afterPair, h _ List.suffix_rfl]
      rfl
    rw [removePairs, removeFrom, hnone]
    exact congrArg (c :: ·) (ih fun last hlast => h last (hlast.trans (List.suffix_cons c text)))

theorem noClosing_append (hplain : '<' ∉ before) (h : NoClosing text) : NoClosing (before ++ text) := by
  induction before with
  | nil => exact h
  | cons c before ih =>
    rw [List.mem_cons, not_or] at hplain
    intro last hlast
    rw [List.cons_append, List.suffix_cons_iff] at hlast
    rcases hlast with rfl | hlater
    · rw [Option.eq_none_iff_forall_ne_some]
      intro rest hclose
      obtain ⟨found, htext, -⟩ := closeTag_iff.mp hclose
      rw [List.cons_append, List.cons_append, List.cons.injEq] at htext
      exact hplain.1 htext.1.symm
    · exact ih hplain.2 last hlater

/-- No tag goes over a brace. -/
theorem noClosing_brace {brace : Char} (hbrace : brace ∈ ['{', '}']) (hbefore : NoClosing before)
    (h : NoClosing (brace :: text)) : NoClosing (before ++ brace :: text) := by
  intro last hlast
  obtain ⟨start, hstart⟩ := hlast
  rcases List.append_eq_append_iff.mp hstart with ⟨middle, hfront, hmiddle⟩ | ⟨extra, -, hback⟩
  · rw [Option.eq_none_iff_forall_ne_some]
    intro rest hclose
    obtain ⟨found, hfound, hword⟩ := closeTag_iff.mp hclose
    have htag : middle ++ brace :: text = ('<' :: '/' :: found ++ ['>']) ++ rest := by
      rw [← hmiddle, hfound, List.append_assoc, List.singleton_append]
    have hnone : brace ∉ '<' :: '/' :: found ++ ['>'] := by
      have hplain : brace ∉ found := by
        refine not_mem_of_tagWord hword ?_
        exact List.mem_cons_of_mem _ (List.mem_cons_of_mem _ (List.mem_cons_of_mem _ hbrace))
      simp only [List.mem_cons, List.not_mem_nil, or_false] at hbrace
      simp only [List.cons_append, List.mem_cons, List.mem_append, List.not_mem_nil, or_false, not_or]
      rcases hbrace with rfl | rfl
      · exact ⟨by decide, by decide, hplain, by decide⟩
      · exact ⟨by decide, by decide, hplain, by decide⟩
    obtain ⟨more, hmore⟩ := begins_of_not_mem htag hnone
    have hhere : closeTag middle = some more := by
      refine closeTag_iff.mpr ⟨found, ?_, hword⟩
      rw [← hmore, List.append_assoc, List.singleton_append]
    rw [hbefore middle ⟨start, hfront.symm⟩] at hhere
    cases hhere
  · exact h last ⟨extra, hback.symm⟩

/-- **What stands before the last closing tag does not matter**, where no tag is opened. -/
theorem stripReasoning_unopened
    (hopen : ∀ last, last <:+ hidden ++ ('<' :: '/' :: word ++ '>' :: after) → openTag last = none)
    (hword : TagWord word) (hafter : NoClosing after) :
    stripReasoning (hidden ++ ('<' :: '/' :: word ++ '>' :: after)) = after := by
  have hlast : afterLast (hidden ++ ('<' :: '/' :: word ++ '>' :: after)) = some after := by
    clear hopen
    induction hidden with
    | nil =>
      have hplain : '<' ∉ '/' :: word ++ ['>'] := by
        simp only [List.cons_append, List.mem_cons, List.mem_append, List.not_mem_nil, or_false, not_or]
        exact ⟨by decide, not_mem_of_tagWord hword (by decide), by decide⟩
      have hnone := afterLast_of_noClosing (noClosing_append hplain hafter)
      rw [List.append_assoc, List.singleton_append, List.cons_append] at hnone
      rw [List.nil_append, List.cons_append, List.cons_append, afterLast, hnone]
      exact closeTag_iff.mpr ⟨word, rfl, hword⟩
    | cons c hidden ih =>
      rw [List.cons_append, afterLast, ih]
      rfl
  rw [stripReasoning, removePairs_of_noOpening hopen, hlast]
  rfl

end Stripping

end AgenticPlatform.Extraction
