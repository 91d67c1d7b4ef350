import AgenticPlatform.LocalMasking
import AgenticPlatform.Redaction
import Mathlib.Data.List.TakeWhile

/-!
# What is masked within a word

A RunPod key is masked if it is all that stands between two characters that are none of a word,
and the value of a `key=` parameter up to the next character that no value has. So a word is
rewritten by itself, and it is known when its end is masked and when it stays as it was.
-/

namespace AgenticPlatform.Redaction

open Masking Lines

variable {foreign : Char → Bool} {c : Char} {part rest word letters : List Char}
  {before : Option Char}

/-! ### What the patterns do not reach over -/

theorem takeWhile_append_cons {test : Char → Bool} (h : test c = false) (part rest : List Char) :
    (part ++ c :: rest).takeWhile test = part.takeWhile test := by
  induction part with
  | nil => rw [List.nil_append, List.takeWhile_cons_of_neg (by rw [h]; exact Bool.false_ne_true),
      List.takeWhile_nil]
  | cons a part ih =>
    rw [List.cons_append]
    rcases ha : test a with - | -
    · rw [List.takeWhile_cons_of_neg (by rw [ha]; exact Bool.false_ne_true),
        List.takeWhile_cons_of_neg (by rw [ha]; exact Bool.false_ne_true)]
    · rw [List.takeWhile_cons_of_pos ha, List.takeWhile_cons_of_pos ha, ih]

theorem begins_length {word text : List Char} (h : begins word text = true) :
    word.length ≤ text.length := by
  induction word generalizing text with
  | nil => exact Nat.zero_le _
  | cons letter word ih =>
    rcases text with - | ⟨c, text⟩
    · cases h
    · rw [begins, Bool.and_eq_true] at h
      exact Nat.succ_le_succ (ih h.2)

theorem begins_append_right {word text : List Char} (h : begins word text = true)
    (rest : List Char) : begins word (text ++ rest) = true := by
  induction word generalizing text with
  | nil => rw [begins]
  | cons letter word ih =>
    rcases text with - | ⟨c, text⟩
    · cases h
    · rw [begins, Bool.and_eq_true] at h
      rw [List.cons_append, begins, h.1, ih h.2]
      rfl

/-- No letter of the word stands for a character of the kind. -/
def Avoids (gap : Char → Bool) (word : List Char) : Prop :=
  ∀ letter ∈ word, ∀ c, sameLetter letter c = true → gap c = false

/-- A word does not begin before such a character and end after it. -/
theorem begins_append {gap : Char → Bool} (h : Avoids gap word) (hc : gap c = true)
    (part rest : List Char) : begins word (part ++ c :: rest) = begins word part := by
  induction word generalizing part with
  | nil => rw [begins, begins]
  | cons letter word ih =>
    rcases part with - | ⟨a, part⟩
    · rw [List.nil_append, begins, begins]
      rcases hsame : sameLetter letter c with - | -
      · rw [Bool.false_and]
      · rw [h letter List.mem_cons_self c hsame] at hc
        cases hc
    · rw [List.cons_append, begins, begins,
        ih fun other hother => h other (List.mem_cons_of_mem letter hother)]

theorem sameLetter_cases {letter : Char} (h : sameLetter letter c = true) :
    c = letter ∨ c = letter.toUpper ∨ c.toNat = 304 ∨ c.toNat = 305 ∨ c.toNat = 8490 := by
  simp only [sameLetter, Bool.or_eq_true, Bool.and_eq_true, beq_iff_eq] at h
  rcases h with ((h | h) | ⟨-, h | h⟩) | ⟨-, h⟩
  · exact .inl h
  · exact .inr (.inl h)
  · exact .inr (.inr (.inl h))
  · exact .inr (.inr (.inr (.inl h)))
  · exact .inr (.inr (.inr (.inr h)))

theorem isSpace_of_foreign_letter (h : c.toNat = 304 ∨ c.toNat = 305 ∨ c.toNat = 8490) :
    isSpace c = false := by
  rcases h with h | h | h <;> rw [isSpace, h] <;> rfl

theorem isQueryChar_of_foreign_letter (h : c.toNat = 304 ∨ c.toNat = 305 ∨ c.toNat = 8490) :
    isQueryChar c = true := by
  have hquote : "&\"'".toList.contains c = false := by
    rcases hmem : "&\"'".toList.contains c with - | -
    · rfl
    · have hcases : c = '&' ∨ c = '"' ∨ c = '\'' := by simpa using hmem
      rcases hcases with rfl | rfl | rfl <;> revert h <;> decide
  rw [isQueryChar, isSpace_of_foreign_letter h, hquote]
  rfl

/-- What stands in no value of a query parameter. -/
def endsValue (c : Char) : Bool := !isQueryChar c

theorem avoids_space {word : List Char}
    (h : (word.all fun letter => !isSpace letter && !isSpace letter.toUpper) = true) :
    Avoids isSpace word := by
  intro letter hletter c hsame
  have hplain := List.all_eq_true.mp h letter hletter
  rw [Bool.and_eq_true, Bool.not_eq_true', Bool.not_eq_true'] at hplain
  rcases sameLetter_cases hsame with rfl | rfl | hforeign
  · exact hplain.1
  · exact hplain.2
  · exact isSpace_of_foreign_letter hforeign

theorem avoids_endsValue {word : List Char}
    (h : (word.all fun letter => isQueryChar letter && isQueryChar letter.toUpper) = true) :
    Avoids endsValue word := by
  intro letter hletter c hsame
  have hplain := List.all_eq_true.mp h letter hletter
  rw [Bool.and_eq_true] at hplain
  rw [endsValue, Bool.not_eq_false']
  rcases sameLetter_cases hsame with rfl | rfl | hforeign
  · exact hplain.1
  · exact hplain.2
  · exact isQueryChar_of_foreign_letter hforeign

theorem avoids_char {e : Char} (he : e.toNat < 128)
    (h : (letters.all fun letter => !(letter == e) && !(letter.toUpper == e)) = true) :
    Avoids (· == e) letters := by
  intro letter hletter c hsame
  have hplain := List.all_eq_true.mp h letter hletter
  rw [Bool.and_eq_true, Bool.not_eq_true', Bool.not_eq_true'] at hplain
  rcases sameLetter_cases hsame with rfl | rfl | hforeign
  · exact hplain.1
  · exact hplain.2
  · refine beq_eq_false_iff_ne.mpr fun hce => ?_
    rw [hce] at hforeign
    omega

/-! ### RunPod keys -/

/-- What stands in no word for `\w`. -/
def isBoundary (foreign : Char → Bool) (c : Char) : Bool := !isWord foreign c

theorem isAlphanum_of_boundary (h : isBoundary foreign c = true) : c.isAlphanum = false := by
  rw [isBoundary, Bool.not_eq_true', isWord, Bool.or_eq_false_iff, Bool.or_eq_false_iff] at h
  exact h.1.1

theorem isPrefixOf_append_cons {head : List Char} (h : c ∉ head) (part rest : List Char) :
    head.isPrefixOf (part ++ c :: rest) = head.isPrefixOf part := by
  induction head generalizing part with
  | nil => simp
  | cons a head ih =>
    rw [List.mem_cons, not_or] at h
    rcases part with - | ⟨b, part⟩
    · have hne : (a == c) = false := beq_eq_false_iff_ne.mpr (Ne.symm h.1)
      rw [List.nil_append, List.isPrefixOf_cons_cons, hne, Bool.false_and]
      rfl
    · rw [List.cons_append, List.isPrefixOf_cons_cons, List.isPrefixOf_cons_cons, ih h.2]

theorem not_mem_rpa (h : isBoundary foreign c = true) : c ∉ "rpa_".toList := by
  intro hmem
  rw [isBoundary, Bool.not_eq_true'] at h
  have hcases : c = 'r' ∨ c = 'p' ∨ c = 'a' ∨ c = '_' := by simpa using hmem
  rcases hcases with rfl | rfl | rfl | rfl <;> cases h

theorem keyPattern_of_no_start {text : List Char} (h : "rpa_".toList.isPrefixOf text = false) :
    keyPattern foreign before text = none := by
  rw [keyPattern, h, Bool.and_false, Bool.false_and, Bool.false_and]
  rfl

/-- What the pattern makes of a text that begins like a key. -/
theorem keyPattern_rpa (before : Option Char) (more : List Char) :
    keyPattern foreign before ("rpa_".toList ++ more) =
      if !before.any (isWord foreign) && 8 ≤ (more.takeWhile Char.isAlphanum).length &&
          !(more.drop (more.takeWhile Char.isAlphanum).length).head?.any (isWord foreign) then
        some ⟨0, 4 + (more.takeWhile Char.isAlphanum).length, run_pos _⟩
      else none := by
  have hbegin : "rpa_".toList.isPrefixOf ("rpa_".toList ++ more) = true :=
    List.isPrefixOf_iff_prefix.mpr (List.prefix_append _ more)
  have hdrop : ("rpa_".toList ++ more).drop 4 = more := rfl
  rw [keyPattern, hbegin, Bool.and_true, ← List.drop_drop, hdrop]

theorem length_takeWhile_le (test : Char → Bool) (text : List Char) :
    (text.takeWhile test).length ≤ text.length :=
  (List.takeWhile_prefix test).length_le

theorem keyPattern_local : Local (isBoundary foreign) (keyPattern foreign) where
  at_gap := by
    intro a before rest ha
    apply keyPattern_of_no_start
    exact isPrefixOf_append_cons (not_mem_rpa ha) [] rest
  append := by
    intro a before part rest ha hpart hne
    have hsame := isPrefixOf_append_cons (not_mem_rpa ha) part rest
    rcases hbegin : "rpa_".toList.isPrefixOf part with - | -
    · rw [hbegin] at hsame
      rw [keyPattern_of_no_start hsame, keyPattern_of_no_start hbegin]
    · rcases List.isPrefixOf_iff_prefix.mp hbegin with ⟨more, rfl⟩
      have hrun : (more ++ a :: rest).takeWhile Char.isAlphanum =
          more.takeWhile Char.isAlphanum :=
        takeWhile_append_cons (isAlphanum_of_boundary ha) more rest
      have hfollower (run : Nat) (h : run ≤ more.length) :
          ((more ++ a :: rest).drop run).head?.any (isWord foreign) =
            (more.drop run).head?.any (isWord foreign) := by
        rw [List.drop_append_of_le_length h]
        rcases more.drop run with - | ⟨b, later⟩
        · exact (Bool.not_eq_true' _).mp ha
        · rfl
      rw [List.append_assoc, keyPattern_rpa, keyPattern_rpa, hrun,
        hfollower _ (length_takeWhile_le _ more)]
  length_le := by
    intro before part found hfound
    rcases hbegin : "rpa_".toList.isPrefixOf part with - | -
    · rw [keyPattern_of_no_start hbegin] at hfound
      cases hfound
    · rcases List.isPrefixOf_iff_prefix.mp hbegin with ⟨more, rfl⟩
      rw [keyPattern_rpa] at hfound
      split at hfound
      · cases hfound
        rw [List.length_append]
        exact Nat.add_le_add_left (length_takeWhile_le _ more) 4
      · cases hfound
  after_gap := by
    intro a text ha
    have hword : isWord foreign a = false := (Bool.not_eq_true' _).mp ha
    rw [keyPattern, keyPattern, Option.any_some, hword, Option.any_none]

/-- A RunPod key. -/
def IsKey (key : List Char) : Prop :=
  ∃ run, key = "rpa_".toList ++ run ∧ 8 ≤ run.length ∧ ∀ c ∈ run, c.isAlphanum = true

/-- What is found at the beginning of a word is all of it. -/
theorem isKey_of_found {found : Find} (hword : Plain (isBoundary foreign) word)
    (hfound : keyPattern foreign before word = some found) : IsKey word := by
  rcases hbegin : "rpa_".toList.isPrefixOf word with - | -
  · rw [keyPattern_of_no_start hbegin] at hfound
    cases hfound
  · rcases List.isPrefixOf_iff_prefix.mp hbegin with ⟨more, rfl⟩
    rw [keyPattern_rpa] at hfound
    split at hfound
    · rename_i htest
      rw [Bool.and_eq_true, Bool.and_eq_true, decide_eq_true_eq] at htest
      rcases htest with ⟨⟨-, hlength⟩, hfollower⟩
      have hall : more.takeWhile Char.isAlphanum = more := by
        rcases hdrop : more.drop (more.takeWhile Char.isAlphanum).length with - | ⟨b, later⟩
        · exact (List.takeWhile_prefix _).eq_of_length_le (List.drop_eq_nil_iff.mp hdrop)
        · have hb : b ∈ "rpa_".toList ++ more := by
            apply List.mem_append_right
            apply List.mem_of_mem_drop
            rw [hdrop]
            exact List.mem_cons_self
          have hboundary := hword b hb
          rw [hdrop] at hfollower
          rw [isBoundary, Bool.not_eq_false'] at hboundary
          have hfollower' : (!isWord foreign b) = true := hfollower
          rw [hboundary] at hfollower'
          cases hfollower'
      rw [hall] at hlength
      exact ⟨more, rfl, hlength, List.takeWhile_eq_self_iff.mp hall⟩
    · cases hfound

theorem passFrom_key_inside (hword : Plain (isBoundary foreign) word)
    (hbefore : before.any (isWord foreign) = true) :
    passFrom (keyPattern foreign) REDACTED before 0 word = word := by
  induction word generalizing before with
  | nil => rw [passFrom]
  | cons a word ih =>
    rcases hword.cons with ⟨ha, hrest⟩
    have hnone : keyPattern foreign before (a :: word) = none := by
      rw [keyPattern, hbefore]
      rfl
    rw [passFrom, hnone]
    exact congrArg (a :: ·) (ih hrest ((Bool.not_eq_false' _).mp ha))

/-- Characters of one word are masked together, if they are a key, or not at all. -/
theorem pass_key_word (hword : Plain (isBoundary foreign) word) :
    (IsKey word ∧ pass (keyPattern foreign) REDACTED word = REDACTED) ∨
      (¬IsKey word ∧ pass (keyPattern foreign) REDACTED word = word) := by
  by_cases hkey : IsKey word
  · rcases hkey with ⟨run, rfl, hlength, hrun⟩
    have htake : run.takeWhile Char.isAlphanum = run := List.takeWhile_eq_self_iff.mpr hrun
    have hfind : keyPattern foreign none ("rpa_".toList ++ run) =
        some ⟨0, 4 + run.length, run_pos run.length⟩ := by
      have hlong : decide (8 ≤ run.length) = true := decide_eq_true hlength
      rw [keyPattern_rpa, htake, List.drop_length, hlong]
      rfl
    refine .inl ⟨⟨run, rfl, hlength, hrun⟩, ?_⟩
    refine (passFrom_whole hfind (List.cons_ne_nil _ _) ?_).trans ?_
    · rw [List.length_append]
      rfl
    · rw [List.take_zero, List.nil_append]
  · refine .inr ⟨hkey, ?_⟩
    rcases word with - | ⟨a, word⟩
    · rw [Masking.pass, passFrom]
    rcases hword.cons with ⟨ha, hrest⟩
    have hnone : keyPattern foreign none (a :: word) = none := by
      rw [Option.eq_none_iff_forall_ne_some]
      intro found hfound
      exact hkey (isKey_of_found hword hfound)
    rw [Masking.pass, passFrom, hnone]
    exact congrArg (a :: ·) (passFrom_key_inside hrest ((Bool.not_eq_false' _).mp ha))

/-- Some word for `\w` is a key. -/
def HoldsKey (foreign : Char → Bool) (text : List Char) : Prop :=
  ∃ part ∈ text.splitOnP (isBoundary foreign), IsKey part

/-- The last word for `\w` is a key. -/
def EndsInKey (foreign : Char → Bool) (text : List Char) : Prop :=
  IsKey (lastPart (isBoundary foreign) text)

theorem holdsKey_plain (h : Plain (isBoundary foreign) word) :
    HoldsKey foreign word ↔ IsKey word := by
  rw [HoldsKey, List.splitOnP_eq_singleton h]
  simp only [List.mem_singleton, exists_eq_left]

theorem holdsKey_append (hc : isBoundary foreign c = true) :
    HoldsKey foreign (part ++ c :: rest) ↔ HoldsKey foreign part ∨ HoldsKey foreign rest := by
  simp only [HoldsKey, List.splitOnP_append_cons _ _ hc, List.mem_append, or_and_right, exists_or]

/-- How many characters are none of the mark. -/
def shown (text : List Char) : Nat := text.countP (· ≠ '*')

theorem shown_le {text out : List Char} (h : Masked REDACTED text out) :
    shown out ≤ shown text := by
  induction h with
  | nil => exact Nat.le_refl _
  | keep a _ ih =>
    rw [shown, shown, List.countP_cons, List.countP_cons]
    exact Nat.add_le_add_right ih _
  | mask masked _ ih =>
    rw [shown, shown, List.countP_append, List.countP_append]
    exact (Nat.add_le_add (Nat.zero_le _) ih).trans' (Nat.le_of_eq rfl)

theorem shown_append (part rest : List Char) :
    shown (part ++ rest) = shown part + shown rest := List.countP_append

theorem shown_key_pos (h : IsKey word) : 0 < shown word := by
  rcases h with ⟨run, rfl, -, -⟩
  rw [shown_append]
  exact Nat.add_pos_left (Nat.succ_pos 3) _

/-- A text with a key in it shows less without it. -/
theorem shown_pass_key_lt (h : HoldsKey foreign part) :
    shown (pass (keyPattern foreign) REDACTED part) < shown part := by
  induction part using line_induction (isBoundary foreign) with
  | plain word hword =>
    rcases pass_key_word hword with ⟨hkey, hpass⟩ | ⟨hno, -⟩
    · rw [hpass]
      exact shown_key_pos hkey
    · exact absurd ((holdsKey_plain hword).mp h) hno
  | split word e rest hword he ih =>
    rw [keyPattern_local.pass_append he, shown_append, shown_append]
    have hleft : shown (pass (keyPattern foreign) REDACTED word) ≤ shown word :=
      shown_le (pass_masked word)
    have hright : shown (e :: pass (keyPattern foreign) REDACTED rest) ≤ shown (e :: rest) :=
      shown_le ((pass_masked rest).keep e)
    rcases (holdsKey_append he).mp h with hkey | hrest
    · have hless : shown (pass (keyPattern foreign) REDACTED word) < shown word := by
        rcases pass_key_word hword with ⟨hkey, hpass⟩ | ⟨hno, -⟩
        · rw [hpass]
          exact shown_key_pos hkey
        · exact absurd ((holdsKey_plain hword).mp hkey) hno
      exact Nat.add_lt_add_of_lt_of_le hless hright
    · have hless : shown (e :: pass (keyPattern foreign) REDACTED rest) < shown (e :: rest) := by
        rw [shown, shown, List.countP_cons, List.countP_cons]
        exact Nat.add_lt_add_right (ih hrest) _
      exact Nat.add_lt_add_of_le_of_lt hleft hless

theorem pass_key_eq_self (h : ¬HoldsKey foreign part) :
    pass (keyPattern foreign) REDACTED part = part := by
  induction part using line_induction (isBoundary foreign) with
  | plain word hword =>
    rcases pass_key_word hword with ⟨hkey, -⟩ | ⟨-, hpass⟩
    · exact absurd ((holdsKey_plain hword).mpr hkey) h
    · exact hpass
  | split word e rest hword he ih =>
    rw [holdsKey_append he, not_or] at h
    rw [keyPattern_local.pass_append he, ih h.2]
    rcases pass_key_word hword with ⟨hkey, -⟩ | ⟨-, hpass⟩
    · exact absurd ((holdsKey_plain hword).mpr hkey) h.1
    · rw [hpass]

/-! ### How a word ends -/

/-- The text ends in the letters, in whatever case. -/
def EndsIn (letters text : List Char) : Prop :=
  ∃ pre tail, text = pre ++ tail ∧ tail.length = letters.length ∧ begins letters tail = true

theorem plain_of_begins {gap : Char → Bool} {tail : List Char} (h : Avoids gap letters)
    (hlength : tail.length = letters.length) (hbegins : begins letters tail = true) :
    Plain gap tail := by
  induction letters generalizing tail with
  | nil =>
    rw [List.length_eq_zero_iff.mp hlength]
    exact List.forall_mem_nil _
  | cons letter letters ih =>
    rcases tail with - | ⟨a, tail⟩
    · cases hlength
    · rw [begins, Bool.and_eq_true] at hbegins
      refine List.forall_mem_cons.mpr ⟨h letter List.mem_cons_self a hbegins.1, ?_⟩
      exact ih (fun other hother => h other (List.mem_cons_of_mem letter hother))
        (Nat.succ.inj hlength) hbegins.2

/-- A character that none of the letters stands for is not among the last ones. -/
theorem endsIn_append {gap : Char → Bool} (h : Avoids gap letters) (hc : gap c = true) :
    EndsIn letters (part ++ c :: rest) ↔ EndsIn letters rest := by
  constructor
  · rintro ⟨pre, tail, heq, hlength, hbegins⟩
    have hplain := plain_of_begins h hlength hbegins
    rcases List.append_eq_append_iff.mp heq with ⟨more, -, hrest⟩ | ⟨more, -, htail⟩
    · rcases more with - | ⟨a, more⟩
      · rw [List.nil_append] at hrest
        rw [hplain c (hrest ▸ List.mem_cons_self)] at hc
        cases hc
      · rw [List.cons_append, List.cons.injEq] at hrest
        exact ⟨more, tail, hrest.2, hlength, hbegins⟩
    · rw [hplain c (htail ▸ List.mem_append_right more List.mem_cons_self)] at hc
      cases hc
  · rintro ⟨pre, tail, rfl, hlength, hbegins⟩
    refine ⟨part ++ c :: pre, tail, ?_, hlength, hbegins⟩
    rw [List.append_assoc, List.cons_append]

theorem EndsIn.cons (a : Char) (h : EndsIn letters word) : EndsIn letters (a :: word) := by
  rcases h with ⟨pre, tail, rfl, hlength, hbegins⟩
  exact ⟨a :: pre, tail, rfl, hlength, hbegins⟩

theorem not_endsIn_nil (hletters : letters ≠ []) : ¬EndsIn letters [] := by
  rintro ⟨pre, tail, heq, hlength, -⟩
  have htail : tail = [] := (List.append_eq_nil_iff.mp heq.symm).2
  rw [htail] at hlength
  exact hletters (List.length_eq_zero_iff.mp hlength.symm)

/-- What the mark ends does not end in letters. -/
theorem not_endsIn_mark (part : List Char) (h : Avoids (· == '*') letters)
    (hletters : letters ≠ []) : ¬EndsIn letters (part ++ REDACTED) := by
  have hmark : part ++ REDACTED = (part ++ ['*', '*']) ++ '*' :: [] := by
    rw [List.append_assoc]
    rfl
  rw [hmark, endsIn_append h rfl]
  exact not_endsIn_nil hletters

/-- Letters at the end are there unless they belong to a key. -/
theorem endsIn_pass_key (h : Avoids (isBoundary foreign) letters)
    (hstar : Avoids (· == '*') letters) (hletters : letters ≠ []) (text : List Char) :
    EndsIn letters (pass (keyPattern foreign) REDACTED text) ↔
      EndsIn letters text ∧ ¬EndsInKey foreign text := by
  induction text using line_induction (isBoundary foreign) with
  | plain word hword =>
    rw [EndsInKey, lastPart_of_plain hword]
    rcases pass_key_word hword with ⟨hkey, hpass⟩ | ⟨hno, hpass⟩
    · rw [hpass]
      exact iff_of_false (not_endsIn_mark [] hstar hletters) fun hends => hends.2 hkey
    · rw [hpass, and_iff_left hno]
  | split word e rest hword he ih =>
    rw [keyPattern_local.pass_append he, endsIn_append h he, endsIn_append h he, ih, EndsInKey,
      EndsInKey, lastPart_append_cons he]

/-! ### Query parameters -/

theorem queryParameter_eq (text name : List Char) (hbegins : begins name text = true)
    (hrun : 0 < ((text.drop name.length).takeWhile isQueryChar).length) :
    queryParameter text name = some ⟨name.length,
      name.length + ((text.drop name.length).takeWhile isQueryChar).length,
      Nat.lt_add_of_pos_right hrun⟩ :=
  dif_pos ⟨hbegins, hrun⟩

theorem queryParameter_local {name : List Char} (h : Avoids endsValue name) (hne : name ≠ []) :
    Local endsValue fun _ text => queryParameter text name where
  at_gap := by
    intro a before rest ha
    refine dif_neg fun hfound => ?_
    rw [← List.nil_append (a :: rest), begins_append h ha] at hfound
    rcases name with - | ⟨letter, name⟩
    · exact hne rfl
    · cases hfound.1
  append := by
    intro a before part rest ha hpart hne
    have ha' : isQueryChar a = false := (Bool.not_eq_true' _).mp ha
    have hrun (hbegins : begins name part = true) :
        ((part ++ a :: rest).drop name.length).takeWhile isQueryChar =
          (part.drop name.length).takeWhile isQueryChar := by
      rw [List.drop_append_of_le_length (begins_length hbegins), takeWhile_append_cons ha']
    by_cases hbegins : begins name part = true
    · have hbegins' : begins name (part ++ a :: rest) = true := by rwa [begins_append h ha]
      unfold queryParameter
      simp only [hrun hbegins, hbegins, hbegins']
    · have hbegins' : ¬begins name (part ++ a :: rest) = true := by rwa [begins_append h ha]
      have hnone : queryParameter part name = none := dif_neg (not_and_of_not_left _ hbegins)
      exact (dif_neg (not_and_of_not_left _ hbegins')).trans hnone.symm
  length_le := by
    intro before part found hfound
    by_cases htest : begins name part = true ∧
        0 < ((part.drop name.length).takeWhile isQueryChar).length
    · rw [queryParameter_eq part name htest.1 htest.2] at hfound
      cases hfound
      have hle := length_takeWhile_le isQueryChar (part.drop name.length)
      have hname := begins_length htest.1
      rw [List.length_drop] at hle
      dsimp only
      omega
    · have hnone : queryParameter part name = none := dif_neg htest
      rw [hnone] at hfound
      cases hfound
  after_gap := fun _ => rfl

/-- The names that `_QUERY_PATTERN` knows, with what stands between them and the value. -/
def queryNames : List (List Char) :=
  ["api_key=".toList, "apikey=".toList, "token=".toList, "key=".toList]

theorem queryPattern_eq (before : Option Char) (text : List Char) :
    queryPattern before text = queryNames.findSome? (queryParameter text) := rfl

theorem queryNames_avoid : ∀ name ∈ queryNames, Avoids endsValue name ∧ name ≠ [] := by
  intro name hname
  rcases (by simpa [queryNames] using hname : name = "api_key=".toList ∨ name = "apikey=".toList ∨
    name = "token=".toList ∨ name = "key=".toList) with rfl | rfl | rfl | rfl
  · exact ⟨avoids_endsValue (by decide), List.cons_ne_nil _ _⟩
  · exact ⟨avoids_endsValue (by decide), List.cons_ne_nil _ _⟩
  · exact ⟨avoids_endsValue (by decide), List.cons_ne_nil _ _⟩
  · exact ⟨avoids_endsValue (by decide), List.cons_ne_nil _ _⟩

theorem queryPattern_local : Local endsValue queryPattern where
  at_gap := by
    intro a before rest ha
    rw [queryPattern_eq, List.findSome?_eq_none_iff]
    intro name hname
    rcases queryNames_avoid name hname with ⟨havoids, hne⟩
    exact @Local.at_gap _ _ _ (queryParameter_local havoids hne) _ before _ ha
  append := by
    intro a before part rest ha hpart hne
    rw [queryPattern_eq, queryPattern_eq]
    have hsame : ∀ name ∈ queryNames, queryParameter (part ++ a :: rest) name =
        queryParameter part name := by
      intro name hname
      rcases queryNames_avoid name hname with ⟨havoids, hname⟩
      exact @Local.append _ _ _ (queryParameter_local havoids hname) _ before _ _ ha hpart hne
    revert hsame
    generalize queryNames = names
    intro hsame
    induction names with
    | nil => rfl
    | cons name names ih =>
      rcases List.forall_mem_cons.mp hsame with ⟨hname, hnames⟩
      rw [List.findSome?_cons, List.findSome?_cons, hname, ih hnames]
  length_le := by
    intro before part found hfound
    rw [queryPattern_eq] at hfound
    rcases List.exists_of_findSome?_eq_some hfound with ⟨name, hname, hparameter⟩
    rcases queryNames_avoid name hname with ⟨havoids, hne⟩
    exact @Local.length_le _ _ _ (queryParameter_local havoids hne) before _ _ hparameter
  after_gap := fun _ => rfl

/-- The name of a parameter that holds a credential: the others end in one of these. -/
def Named (name : List Char) : Prop := EndsIn "key".toList name ∨ EndsIn "token".toList name

/-- In a part without ends of values: what stands before some `=` and the value after it. -/
structure Valued (part name value : List Char) : Prop where
  parts : part = name ++ '=' :: value
  value_ne_nil : value ≠ []
  named : Named name

theorem begins_append_iff {first second text : List Char} :
    begins (first ++ second) text = true ↔
      begins first text = true ∧ begins second (text.drop first.length) = true := by
  induction first generalizing text with
  | nil => simp [begins]
  | cons letter first ih =>
    rcases text with - | ⟨a, text⟩
    · simp [begins]
    · simp [begins, ih, and_assoc]

theorem sameLetter_equals (h : sameLetter '=' c = true) : c = '=' := by
  have hcases : (c = '=' ∨ c = '='.toUpper) := by simpa [sameLetter] using h
  rcases hcases with rfl | rfl <;> rfl

/-- A name that is found, with its `=`, and what comes after it. -/
theorem parts_of_begins {name text : List Char} (h : begins (name ++ ['=']) text = true) :
    ∃ before value, text = before ++ '=' :: value ∧ before.length = name.length ∧
      begins name before = true := by
  induction name generalizing text with
  | nil =>
    rcases text with - | ⟨a, value⟩
    · cases h
    · rw [List.nil_append, begins, Bool.and_eq_true] at h
      rw [sameLetter_equals h.1]
      exact ⟨[], value, rfl, rfl, rfl⟩
  | cons letter name ih =>
    rcases text with - | ⟨a, text⟩
    · cases h
    · rw [List.cons_append, begins, Bool.and_eq_true] at h
      rcases ih h.2 with ⟨before, value, rfl, hlength, hbegins⟩
      refine ⟨a :: before, value, rfl, congrArg Nat.succ hlength, ?_⟩
      rw [begins, h.1, hbegins]
      rfl

theorem endsIn_of_begins {first second text : List Char}
    (hlength : text.length = (first ++ second).length)
    (h : begins (first ++ second) text = true) : EndsIn second text := by
  refine ⟨text.take first.length, text.drop first.length, (List.take_append_drop _ _).symm, ?_,
    (begins_append_iff.mp h).2⟩
  rw [List.length_drop, hlength, List.length_append, Nat.add_sub_cancel_left]

theorem begins_parts {name before : List Char} (hlength : before.length = name.length)
    (h : begins name before = true) (value : List Char) :
    begins (name ++ ['=']) (before ++ '=' :: value) = true := by
  induction name generalizing before with
  | nil =>
    rw [List.length_eq_zero_iff.mp hlength]
    rfl
  | cons letter name ih =>
    rcases before with - | ⟨a, before⟩
    · cases hlength
    · rw [begins, Bool.and_eq_true] at h
      rw [List.cons_append, List.cons_append, begins, h.1, ih (Nat.succ.inj hlength) h.2]
      rfl

/-- Each of the names is one that holds a credential, and has no other `=` in it. -/
theorem queryName_cases {name : List Char} (h : name ∈ queryNames) :
    ∃ first second, name = (first ++ second) ++ ['='] ∧ Avoids (· == '=') (first ++ second) ∧
      (second = "key".toList ∨ second = "token".toList) := by
  rcases (by simpa [queryNames] using h : name = "api_key=".toList ∨ name = "apikey=".toList ∨
    name = "token=".toList ∨ name = "key=".toList) with rfl | rfl | rfl | rfl
  · exact ⟨"api_".toList, "key".toList, rfl, avoids_char (by decide) (by decide), .inl rfl⟩
  · exact ⟨"api".toList, "key".toList, rfl, avoids_char (by decide) (by decide), .inl rfl⟩
  · exact ⟨[], "token".toList, rfl, avoids_char (by decide) (by decide), .inr rfl⟩
  · exact ⟨[], "key".toList, rfl, avoids_char (by decide) (by decide), .inl rfl⟩

/-- Without ends of values, everything after the name is the value. -/
theorem value_eq {name value : List Char} (known : List Char)
    (hpart : Plain endsValue (name ++ '=' :: value))
    (hlength : name.length + 1 = known.length) :
    ((name ++ '=' :: value).drop known.length).takeWhile isQueryChar = value := by
  have hdrop : (name ++ '=' :: value).drop known.length = value := by
    rw [← hlength, List.drop_append, List.drop_of_length_le (Nat.le_succ _),
      Nat.add_sub_cancel_left]
    rfl
  rw [hdrop, List.takeWhile_eq_self_iff]
  intro a ha
  have hplain := hpart a (List.mem_append_right name (List.mem_cons_of_mem '=' ha))
  exact (Bool.not_eq_false' _).mp hplain

/-- What is found in a part without ends of values is a name and all that comes after it. -/
theorem valued_of_found {found : Find} (hpart : Plain endsValue part)
    (hfound : queryPattern before part = some found) :
    ∃ name value, Valued part name value ∧ '=' ∉ name ∧ found.kept = name.length + 1 ∧
      found.length = part.length := by
  rw [queryPattern_eq] at hfound
  rcases List.exists_of_findSome?_eq_some hfound with ⟨known, hknown, hparameter⟩
  by_cases htest : begins known part = true ∧
      0 < ((part.drop known.length).takeWhile isQueryChar).length
  · rw [queryParameter_eq part known htest.1 htest.2] at hparameter
    cases hparameter
    rcases queryName_cases hknown with ⟨first, second, rfl, havoids, hsecond⟩
    rcases parts_of_begins htest.1 with ⟨name, value, rfl, hlength, hbegins⟩
    have hknown : name.length + 1 = (first ++ second ++ ['=']).length := by
      rw [List.length_append, List.length_singleton, hlength]
    have hvalue := value_eq _ hpart hknown
    have hplain := plain_of_begins havoids hlength hbegins
    refine ⟨name, value, ⟨rfl, ?_, ?_⟩, ?_, hknown.symm, ?_⟩
    · rw [hvalue] at htest
      exact List.length_pos_iff.mp htest.2
    · rcases hsecond with rfl | rfl
      · exact .inl (endsIn_of_begins hlength hbegins)
      · exact .inr (endsIn_of_begins hlength hbegins)
    · intro hmem
      cases hplain '=' hmem
    · dsimp only
      rw [hvalue, ← hknown, List.length_append, List.length_cons]
      omega
  · have hnone : queryParameter part known = none := dif_neg htest
    rw [hnone] at hparameter
    cases hparameter

/-- Where nothing is found, no name comes first. -/
theorem not_valued_of_none {name value known : List Char} (hpart : Plain endsValue part)
    (hfound : queryPattern before part = none) (hparts : part = name ++ '=' :: value)
    (hvalue : value ≠ []) (hknown : known ++ ['='] ∈ queryNames) (hends : EndsIn known name) :
    ∃ a more, name = a :: more ∧ EndsIn known more := by
  rcases hends with ⟨pre, tail, rfl, hlength, hbegins⟩
  rcases pre with - | ⟨a, pre⟩
  · rw [queryPattern_eq, List.findSome?_eq_none_iff] at hfound
    have hnone := hfound _ hknown
    rw [List.nil_append] at hparts
    rw [hparts] at hpart hnone
    have hrun := value_eq (known ++ ['=']) hpart (by
      rw [List.length_append, hlength]
      rfl)
    rw [queryParameter_eq _ _ (begins_parts hlength hbegins value)
      (by rw [hrun]; exact List.length_pos_iff.mpr hvalue)] at hnone
    cases hnone
  · exact ⟨a, pre ++ tail, rfl, pre, tail, rfl, hlength, hbegins⟩

theorem Named.tail {name value : List Char} (hpart : Plain endsValue part)
    (hfound : queryPattern before part = none) (hvalued : Valued part name value) :
    ∃ a more, name = a :: more ∧ Named more := by
  rcases hvalued.named with hends | hends
  · rcases not_valued_of_none hpart hfound hvalued.parts hvalued.value_ne_nil
      (by simp [queryNames]) hends with ⟨a, more, hname, hmore⟩
    exact ⟨a, more, hname, .inl hmore⟩
  · rcases not_valued_of_none hpart hfound hvalued.parts hvalued.value_ne_nil
      (by simp [queryNames]) hends with ⟨a, more, hname, hmore⟩
    exact ⟨a, more, hname, .inr hmore⟩

/-- In a part without ends of values, the value of the first name is masked, if there is one. -/
theorem passFrom_query_part (before : Option Char) (hpart : Plain endsValue part) :
    ((∀ name value, ¬Valued part name value) ∧
        passFrom queryPattern REDACTED before 0 part = part) ∨
      ∃ name value, Valued part name value ∧
        (∀ other later, Valued part other later → later = value ∨ '=' ∈ value) ∧
        passFrom queryPattern REDACTED before 0 part = name ++ '=' :: REDACTED := by
  induction part generalizing before with
  | nil =>
    refine .inl ⟨fun name value hvalued => ?_, by rw [passFrom]⟩
    exact List.append_ne_nil_of_right_ne_nil name (List.cons_ne_nil _ _) hvalued.parts.symm
  | cons a rest ih =>
    rcases hpart.cons with ⟨-, hrest⟩
    rcases hfound : queryPattern before (a :: rest) with - | found
    · have hpass : passFrom queryPattern REDACTED before 0 (a :: rest) =
          a :: passFrom queryPattern REDACTED (some a) 0 rest := by rw [passFrom, hfound]
      -- every name goes on after the first character
      have hlater (name value : List Char) (hvalued : Valued (a :: rest) name value) :
          ∃ more, name = a :: more ∧ Valued rest more value := by
        rcases Named.tail hpart hfound hvalued with ⟨b, more, rfl, hmore⟩
        have hparts := hvalued.parts
        rw [List.cons_append, List.cons.injEq] at hparts
        rw [hparts.1]
        exact ⟨more, rfl, hparts.2, hvalued.value_ne_nil, hmore⟩
      rcases ih (some a) hrest with ⟨hno, hsame⟩ | ⟨name, value, hvalued, hfirst, hsame⟩
      · refine .inl ⟨fun name value hvalued => ?_, by rw [hpass, hsame]⟩
        rcases hlater name value hvalued with ⟨more, -, hmore⟩
        exact hno more value hmore
      · refine .inr ⟨a :: name, value, ⟨?_, hvalued.value_ne_nil, ?_⟩, ?_, ?_⟩
        · rw [hvalued.parts, List.cons_append]
        · exact hvalued.named.imp (EndsIn.cons a) (EndsIn.cons a)
        · intro other later hother
          rcases hlater other later hother with ⟨more, -, hmore⟩
          exact hfirst more later hmore
        · rw [hpass, hsame, List.cons_append]
    · rcases valued_of_found hpart hfound with ⟨name, value, hvalued, hname, hkept, hlength⟩
      refine .inr ⟨name, value, hvalued, ?_, ?_⟩
      · intro other later hother
        have hparts := hvalued.parts.symm.trans hother.parts
        rcases append_cons_cases hname hparts with ⟨-, -, rfl⟩ | ⟨more, -, hvalue⟩
        · exact .inl rfl
        · exact .inr (hvalue ▸ List.mem_append_right more List.mem_cons_self)
      · rw [passFrom_whole hfound (List.cons_ne_nil a rest) (Nat.le_of_eq hlength.symm), hkept]
        have htake : (name ++ '=' :: value).take (name.length + 1) = name ++ ['='] := by
          rw [List.take_length_add_append]
          rfl
        rw [hvalued.parts, htake, List.append_assoc]
        rfl

/-- Some value of a parameter is not the mark. -/
def HoldsValue (text : List Char) : Prop :=
  ∃ part ∈ text.splitOnP endsValue, ∃ name value, Valued part name value ∧ value ≠ REDACTED

/-- The last characters are the value of a parameter. -/
def EndsInValue (text : List Char) : Prop :=
  ∃ name value, Valued (lastPart endsValue text) name value

theorem holdsValue_plain (h : Plain endsValue part) :
    HoldsValue part ↔ ∃ name value, Valued part name value ∧ value ≠ REDACTED := by
  rw [HoldsValue, List.splitOnP_eq_singleton h]
  simp only [List.mem_singleton, exists_eq_left]

theorem holdsValue_append (hc : endsValue c = true) :
    HoldsValue (part ++ c :: rest) ↔ HoldsValue part ∨ HoldsValue rest := by
  simp only [HoldsValue, List.splitOnP_append_cons _ _ hc, List.mem_append, or_and_right,
    exists_or]

theorem mark_plain : Plain endsValue REDACTED := by
  intro a ha
  have hstar : a = '*' := by simpa [REDACTED] using ha
  rw [hstar]
  rfl

theorem pass_query_part_eq_self (hpart : Plain endsValue part) :
    pass queryPattern REDACTED part = part ↔ ¬HoldsValue part := by
  rw [holdsValue_plain hpart]
  rcases passFrom_query_part none hpart with
    ⟨hno, hpass⟩ | ⟨name, value, hvalued, hfirst, hpass⟩
  · refine iff_of_true hpass ?_
    rintro ⟨name, value, hvalued, -⟩
    exact hno name value hvalued
  · rw [Masking.pass, hpass]
    constructor
    · rintro hsame ⟨other, later, hother, hlater⟩
      have hvalue : REDACTED = value := by
        rw [hvalued.parts] at hsame
        exact (List.cons.inj (List.append_cancel_left hsame)).2
      rcases hfirst other later hother with rfl | hmem
      · exact hlater hvalue.symm
      · rw [← hvalue] at hmem
        revert hmem
        decide
    · intro hall
      have hvalue : value = REDACTED := by
        by_contra hne
        exact hall ⟨name, value, hvalued, hne⟩
      rw [← hvalue, ← hvalued.parts]

/-- A text stays as it is when every value in it is the mark already. -/
theorem pass_query_eq_self (text : List Char) :
    pass queryPattern REDACTED text = text ↔ ¬HoldsValue text := by
  induction text using line_induction endsValue with
  | plain part hpart => exact pass_query_part_eq_self hpart
  | split part e rest hpart he ih =>
    rw [queryPattern_local.pass_append he, holdsValue_append he, not_or, ← ih,
      ← pass_query_part_eq_self hpart]
    constructor
    · intro hsame
      have hmem : e ∉ pass queryPattern REDACTED part := by
        intro hmem
        rcases (pass_masked part).mem_or_mem hmem with hmem | hmem
        · rw [hpart e hmem] at he
          cases he
        · rw [mark_plain e hmem] at he
          cases he
      rcases append_cons_cases hmem hsame with ⟨hleft, -, hright⟩ | ⟨more, hleft, -⟩
      · exact ⟨hleft.symm, hright.symm⟩
      · have hin : e ∈ part := by
          rw [hleft]
          exact List.mem_append_right _ List.mem_cons_self
        rw [hpart e hin] at he
        cases he
    · rintro ⟨hleft, hright⟩
      rw [hleft, hright]

/-- Letters at the end are there unless they belong to a value. -/
theorem endsIn_pass_query (h : Avoids endsValue letters) (hstar : Avoids (· == '*') letters)
    (hletters : letters ≠ []) (text : List Char) :
    EndsIn letters (pass queryPattern REDACTED text) ↔ EndsIn letters text ∧ ¬EndsInValue text := by
  induction text using line_induction endsValue with
  | plain part hpart =>
    rw [EndsInValue, lastPart_of_plain hpart]
    rcases passFrom_query_part none hpart with
      ⟨hno, hpass⟩ | ⟨name, value, hvalued, -, hpass⟩
    · rw [Masking.pass, hpass, and_iff_left]
      rintro ⟨name, value, hvalued⟩
      exact hno name value hvalued
    · rw [Masking.pass, hpass]
      refine iff_of_false ?_ fun hends => hends.2 ⟨name, value, hvalued⟩
      have hmark := not_endsIn_mark (name ++ ['=']) hstar hletters
      rwa [List.append_assoc] at hmark
  | split part e rest hpart he ih =>
    rw [queryPattern_local.pass_append he, endsIn_append h he, endsIn_append h he, ih, EndsInValue,
      EndsInValue, lastPart_append_cons he]

/-! ### Both -/

/-- What `\w` takes for a letter outside ASCII: no white space, and the sign of the kelvin, which
    stands for `k`. -/
structure Letters (foreign : Char → Bool) : Prop where
  space : ∀ c, isSpace c = true → foreign c = false
  kelvin : ∀ c : Char, c.toNat = 8490 → foreign c = true

/-- What the patterns for keys and parameters make of a text. -/
def clean (foreign : Char → Bool) (text : List Char) : List Char :=
  pass queryPattern REDACTED (pass (keyPattern foreign) REDACTED text)

/-- The last characters are the value of a parameter whose name is not part of a key. -/
def EndsInClearValue (foreign : Char → Bool) (text : List Char) : Prop :=
  ∃ name value, Valued (lastPart endsValue text) name value ∧ ¬EndsInKey foreign name

variable (hforeign : Letters foreign)

include hforeign in
theorem isBoundary_of_isSpace (h : isSpace c = true) : isBoundary foreign c = true := by
  have halphanum : c.isAlphanum = false := by
    rw [Bool.eq_false_iff]
    intro halphanum
    rw [isSpace_of_between (between_of_isAlphanum halphanum)] at h
    cases h
  have hline : (c == '_') = false := by
    rw [beq_eq_false_iff_ne]
    rintro rfl
    cases h
  rw [isBoundary, isWord, halphanum, hline, hforeign.space c h, Bool.and_false]
  rfl

include hforeign in
theorem isBoundary_of_endsValue (h : endsValue c = true) : isBoundary foreign c = true := by
  rw [endsValue, Bool.not_eq_true', isQueryChar, Bool.not_eq_false', Bool.or_eq_true] at h
  rcases h with hspace | hquote
  · exact isBoundary_of_isSpace hforeign hspace
  · have hcases : c = '&' ∨ c = '"' ∨ c = '\'' := by simpa using hquote
    rcases hcases with rfl | rfl | rfl <;> rfl

theorem isBoundary_of_isAlphanum (h : c.isAlphanum = true) : isBoundary foreign c = false := by
  rw [isBoundary, isWord, h]
  rfl

include hforeign in
theorem avoids_isBoundary {word : List Char} (h : (word.all fun letter => letter.isAlphanum &&
    letter.toUpper.isAlphanum && !(letter == 'i')) = true) : Avoids (isBoundary foreign) word := by
  intro letter hletter c hsame
  have hplain := List.all_eq_true.mp h letter hletter
  rw [Bool.and_eq_true, Bool.and_eq_true, Bool.not_eq_true'] at hplain
  rcases hplain with ⟨⟨hsmall, hcapital⟩, hi⟩
  rw [sameLetter, hi, Bool.false_and, Bool.or_false, Bool.or_eq_true, Bool.or_eq_true,
    beq_iff_eq, beq_iff_eq, Bool.and_eq_true, beq_iff_eq, beq_iff_eq] at hsame
  rcases hsame with (rfl | rfl) | ⟨-, hkelvin⟩
  · exact isBoundary_of_isAlphanum hsmall
  · exact isBoundary_of_isAlphanum hcapital
  · rw [isBoundary, isWord, hforeign.kelvin c hkelvin, hkelvin, Bool.not_eq_false']
    exact Bool.or_true _

theorem isSpace_endsValue (h : isSpace c = true) : endsValue c = true := by
  rw [endsValue, isQueryChar, h]
  rfl

/-- A text that shows less is not restored. -/
theorem clean_eq_self (text : List Char) :
    clean foreign text = text ↔ ¬HoldsKey foreign text ∧ ¬HoldsValue text := by
  by_cases hkey : HoldsKey foreign text
  · refine iff_of_false (fun hsame => ?_) fun h => h.1 hkey
    have hless := shown_pass_key_lt hkey
    have hle : shown (pass queryPattern REDACTED (pass (keyPattern foreign) REDACTED text)) ≤
        shown (pass (keyPattern foreign) REDACTED text) := shown_le (pass_masked _)
    rw [← clean, hsame] at hle
    exact absurd hle (Nat.not_le.mpr hless)
  · rw [clean, pass_key_eq_self hkey, pass_query_eq_self, and_iff_right hkey]

theorem pass_eq_nil {find : Option Char → List Char → Option Find} {text : List Char}
    (h : pass find REDACTED text = []) : text = [] :=
  (pass_masked text).eq_nil REDACTED_ne_nil h

theorem clean_eq_nil {text : List Char} (h : clean foreign text = []) : text = [] :=
  pass_eq_nil (pass_eq_nil h)

include hforeign in
theorem lastPart_pass_key (text : List Char) :
    lastPart endsValue (pass (keyPattern foreign) REDACTED text) =
      pass (keyPattern foreign) REDACTED (lastPart endsValue text) := by
  rw [lastPart, lastPart, keyPattern_local.splitOnP_pass
    (fun _ => isBoundary_of_endsValue hforeign) mark_plain, List.getLast?_map]
  rcases (text.splitOnP endsValue).getLast? with - | part
  · rfl
  · rfl

include hforeign in
/-- A parameter is masked unless its name is part of a key. -/
theorem endsInValue_pass_key (text : List Char) :
    EndsInValue (pass (keyPattern foreign) REDACTED text) ↔ EndsInClearValue foreign text := by
  have hequals : isBoundary foreign '=' = true := rfl
  have hnamed (name : List Char) : Named (pass (keyPattern foreign) REDACTED name) ↔
      Named name ∧ ¬EndsInKey foreign name := by
    have hends (known : List Char) (hplain : (known.all fun letter => letter.isAlphanum &&
        letter.toUpper.isAlphanum && !(letter == 'i')) = true)
        (hstar : Avoids (· == '*') known) (hne : known ≠ []) :=
      endsIn_pass_key (avoids_isBoundary hforeign hplain) hstar hne name
    rw [Named, Named, hends "key".toList (by decide) (avoids_char (by decide) (by decide))
      (List.cons_ne_nil _ _), hends "token".toList (by decide)
      (avoids_char (by decide) (by decide)) (List.cons_ne_nil _ _), or_and_right]
  rw [EndsInValue, lastPart_pass_key hforeign]
  constructor
  · rintro ⟨name, value, hparts, hvalue, hname⟩
    rcases keyPattern_local.exists_of_pass_eq hequals (by decide) hparts with
      ⟨left, right, htext, rfl, rfl⟩
    refine ⟨left, right, ⟨htext, ?_, ((hnamed left).mp hname).1⟩, ((hnamed left).mp hname).2⟩
    rintro rfl
    exact hvalue rfl
  · rintro ⟨name, value, ⟨htext, hvalue, hname⟩, hkey⟩
    refine ⟨pass (keyPattern foreign) REDACTED name, pass (keyPattern foreign) REDACTED value, ?_,
      fun hnil => hvalue (pass_eq_nil hnil), (hnamed name).mpr ⟨hname, hkey⟩⟩
    rw [htext, keyPattern_local.pass_append hequals]

include hforeign in
/-- Letters at the end are there unless they belong to a key or to a value. -/
theorem endsIn_clean (hplain : (letters.all fun letter => letter.isAlphanum &&
      letter.toUpper.isAlphanum && !(letter == 'i')) = true) (hvalue : Avoids endsValue letters)
    (hstar : Avoids (· == '*') letters) (hletters : letters ≠ []) (text : List Char) :
    EndsIn letters (clean foreign text) ↔
      EndsIn letters text ∧ ¬EndsInKey foreign text ∧ ¬EndsInClearValue foreign text := by
  rw [clean, endsIn_pass_query hvalue hstar hletters,
    endsIn_pass_key (avoids_isBoundary hforeign hplain) hstar hletters,
    endsInValue_pass_key hforeign, and_assoc]

include hforeign in
/-- The words of a text are cleaned one by one. -/
theorem splitOnP_clean (text : List Char) :
    (clean foreign text).splitOnP isSpace = (text.splitOnP isSpace).map (clean foreign) := by
  have hmark : Plain isSpace REDACTED := by
    intro a ha
    have hstar : a = '*' := by simpa [REDACTED] using ha
    rw [hstar]
    rfl
  rw [clean, queryPattern_local.splitOnP_pass (fun _ => isSpace_endsValue) hmark,
    keyPattern_local.splitOnP_pass (fun _ => isBoundary_of_isSpace hforeign) hmark, List.map_map]
  rfl

end AgenticPlatform.Redaction
