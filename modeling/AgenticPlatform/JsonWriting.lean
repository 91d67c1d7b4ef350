import AgenticPlatform.Json
import Mathlib.Data.List.Chain

/-!
# Writing JSON documents

The text that `json.dumps` writes: every character is ASCII, a code point beyond the basic plane
is the escapes of two surrogates, and the blanks between the parts are a matter of layout. A text
and a whole number are read back as they were written.
-/

namespace AgenticPlatform.Json

open Utf8 (CodePoint)

/-! ### Texts -/

/-- The escape of a number below `0x10000`. -/
def unicodeEscape (n : Nat) : List Char :=
  ['\\', 'u', Nat.digitChar (n / 4096), Nat.digitChar (n / 256 % 16), Nat.digitChar (n / 16 % 16),
    Nat.digitChar (n % 16)]

/-- The two surrogates of a code point beyond the basic plane. -/
def highOf (c : CodePoint) : Nat := 0xD800 + (c.val - 0x10000) / 0x400

def lowOf (c : CodePoint) : Nat := 0xDC00 + (c.val - 0x10000) % 0x400

/-- A code point in a string. -/
def escape (c : CodePoint) : List Char :=
  if c.val = 34 then ['\\', '"']
  else if c.val = 92 then ['\\', '\\']
  else if c.val = 10 then ['\\', 'n']
  else if c.val = 13 then ['\\', 'r']
  else if c.val = 9 then ['\\', 't']
  else if c.val = 12 then ['\\', 'f']
  else if c.val = 8 then ['\\', 'b']
  else if 32 ≤ c.val ∧ c.val ≤ 126 then [Char.ofNat c.val]
  else if c.val < 0x10000 then unicodeEscape c.val
  else unicodeEscape (highOf c) ++ unicodeEscape (lowOf c)

/-- `encode_basestring_ascii`. -/
def writeText (text : List CodePoint) : List Char := '"' :: text.flatMap escape ++ ['"']

/-- What the escapes of a code point stand for, one by one. -/
def units (c : CodePoint) : List CodePoint :=
  if c.val < 0x10000 then [c] else [codePoint (highOf c), codePoint (lowOf c)]

/-- No high surrogate stands right before a low one. -/
def Unpaired (text : List CodePoint) : Prop :=
  text.IsChain fun c d => ¬ (isHigh c = true ∧ isLow d = true)

section Texts

variable {c : CodePoint} {text : List CodePoint} {rest : List Char} {n : Nat}

theorem codePoint_val (c : CodePoint) : codePoint c.val = c :=
  Fin.ext (Nat.mod_eq_of_lt c.isLt)

theorem digitBelow_digitChar : ∀ n < 16, digitBelow 16 (Nat.digitChar n) = some n := by
  decide

theorem scanText_unicodeEscape (h : n < 0x10000) (rest : List Char) :
    scanText (unicodeEscape n ++ rest) = (scanText rest).map (prepend (codePoint n)) := by
  have hvalue : hexValue (Nat.digitChar (n / 4096)) (Nat.digitChar (n / 256 % 16))
      (Nat.digitChar (n / 16 % 16)) (Nat.digitChar (n % 16)) = some n := by
    rw [hexValue, digitBelow_digitChar _ (by omega), digitBelow_digitChar _ (by omega),
      digitBelow_digitChar _ (by omega), digitBelow_digitChar _ (by omega)]
    simp only [Option.some.injEq]
    omega
  simp only [unicodeEscape, List.cons_append, List.nil_append]
  rw [scanText]
  simp only [hvalue, Char.reduceEq, if_false, if_true]

theorem scanText_escaped {d : Char} (hd : escaped d = some c) (hu : d ≠ 'u') (rest : List Char) :
    scanText ('\\' :: d :: rest) = (scanText rest).map (prepend c) := by
  rw [scanText.eq_def]
  simp [hd, hu]

theorem toNat_ofNat (h : n ≤ 126) : (Char.ofNat n).toNat = n := by
  rw [Char.ofNat, dif_pos (Or.inl (by omega))]
  rfl

theorem scanText_plain (hlow : 32 ≤ c.val) (hhigh : c.val ≤ 126) (hquote : c.val ≠ 34)
    (hbackslash : c.val ≠ 92) (rest : List Char) :
    scanText (Char.ofNat c.val :: rest) = (scanText rest).map (prepend c) := by
  have hvalue : (Char.ofNat c.val).toNat = c.val := toNat_ofNat hhigh
  have hne : ∀ d : Char, d.toNat ≠ c.val → Char.ofNat c.val ≠ d := by
    rintro d hd rfl
    exact hd hvalue
  rw [scanText.eq_def]
  dsimp only
  rw [if_neg (hne '"' (Ne.symm hquote)), if_neg (hne '\\' (Ne.symm hbackslash)), hvalue,
    if_neg (by omega), codePoint_val]

/-- Adds code points to what is read after them. -/
def prependAll (front : List CodePoint) (read : List CodePoint × List Char) :
    List CodePoint × List Char :=
  (front ++ read.1, read.2)

theorem map_prependAll (front back : List CodePoint) (read : Except LoadsError (List CodePoint × List Char)) :
    (read.map (prependAll back)).map (prependAll front) = read.map (prependAll (front ++ back)) := by
  cases read with
  | error error => rfl
  | ok read => simp [Except.map, prependAll]

theorem highOf_lt (h : 0x10000 ≤ c.val) : highOf c < 0xDC00 := by
  have hbound := c.isLt
  rw [highOf]
  omega

theorem lowOf_lt : lowOf c < 0xE000 := by
  rw [lowOf]
  omega

/-- A code point is read as what its escapes stand for. -/
theorem scanText_escape (c : CodePoint) (rest : List Char) :
    scanText (escape c ++ rest) = (scanText rest).map (prependAll (units c)) := by
  have hone : ∀ d : CodePoint, prepend d = prependAll [d] := fun d => rfl
  have hsingle : c.val < 0x10000 → prependAll (units c) = prepend c := by
    intro hlow
    rw [units, if_pos hlow, hone]
  have hnamed : ∀ d : Char, escaped d = some (codePoint c.val) → d ≠ 'u' → c.val < 0x10000 →
      scanText (['\\', d] ++ rest) = (scanText rest).map (prependAll (units c)) := by
    intro d hd hu hlow
    rw [codePoint_val] at hd
    rw [hsingle hlow]
    exact scanText_escaped hd hu rest
  rw [escape]
  split_ifs with hquote hbackslash hfeed hreturn htab hform hbell hplain hbasic
  · exact hnamed '"' (by rw [hquote]; rfl) (by decide) (by omega)
  · exact hnamed '\\' (by rw [hbackslash]; rfl) (by decide) (by omega)
  · exact hnamed 'n' (by rw [hfeed]; rfl) (by decide) (by omega)
  · exact hnamed 'r' (by rw [hreturn]; rfl) (by decide) (by omega)
  · exact hnamed 't' (by rw [htab]; rfl) (by decide) (by omega)
  · exact hnamed 'f' (by rw [hform]; rfl) (by decide) (by omega)
  · exact hnamed 'b' (by rw [hbell]; rfl) (by decide) (by omega)
  · rw [hsingle (by omega)]
    exact scanText_plain hplain.1 hplain.2 hquote hbackslash rest
  · rw [hsingle hbasic, scanText_unicodeEscape hbasic, codePoint_val]
  · have hhigh := highOf_lt (Nat.le_of_not_lt hbasic)
    have hlow := @lowOf_lt c
    rw [List.append_assoc, scanText_unicodeEscape (by omega), scanText_unicodeEscape (by omega), hone, hone,
      map_prependAll, units, if_neg hbasic]
    rfl

theorem scanText_flatMap (text : List CodePoint) (rest : List Char) :
    scanText (text.flatMap escape ++ '"' :: rest) = .ok (text.flatMap units, rest) := by
  induction text with
  | nil =>
    rw [scanText.eq_def]
    rfl
  | cons c text ih =>
    rw [List.flatMap_cons, List.append_assoc, scanText_escape, ih]
    rfl

/-! The surrogates are put together again. -/

theorem join_units (h : 0x10000 ≤ c.val) :
    codePoint (0x10000 + (highOf c - 0xD800) * 0x400 + (lowOf c - 0xDC00)) = c := by
  have hsum : 0x10000 + (highOf c - 0xD800) * 0x400 + (lowOf c - 0xDC00) = c.val := by
    rw [highOf, lowOf]
    omega
  rw [hsum, codePoint_val]

theorem val_codePoint (h : n < 0x110000) : (codePoint n).val = n := Nat.mod_eq_of_lt h

theorem isHigh_highOf (h : 0x10000 ≤ c.val) : isHigh (codePoint (highOf c)) = true := by
  have hbound := highOf_lt h
  have hleast : 0xD800 ≤ highOf c := Nat.le_add_right ..
  rw [isHigh, val_codePoint (by omega), Bool.and_eq_true, decide_eq_true_iff, decide_eq_true_iff]
  omega

theorem isLow_lowOf : isLow (codePoint (lowOf c)) = true := by
  have hbound := @lowOf_lt c
  have hleast : 0xDC00 ≤ lowOf c := Nat.le_add_right ..
  rw [isLow, val_codePoint (by omega), Bool.and_eq_true, decide_eq_true_iff, decide_eq_true_iff]
  omega

theorem not_isLow_highOf (h : 0x10000 ≤ c.val) : isLow (codePoint (highOf c)) = false := by
  have hbound := highOf_lt h
  rw [isLow, val_codePoint (by omega), Bool.and_eq_false_iff]
  exact .inl (decide_eq_false (by omega))

theorem joinSurrogates_pair (h : 0x10000 ≤ c.val) (rest : List CodePoint) :
    joinSurrogates (codePoint (highOf c) :: codePoint (lowOf c) :: rest) = c :: joinSurrogates rest := by
  have hhigh := highOf_lt h
  have hlow := @lowOf_lt c
  rw [joinSurrogates, if_pos ⟨isHigh_highOf h, isLow_lowOf⟩, val_codePoint (by omega),
    val_codePoint (by omega), join_units h]

theorem joinSurrogates_single {rest : List CodePoint} (h : ∀ d ∈ rest.head?, ¬ (isHigh c = true ∧ isLow d = true)) :
    joinSurrogates (c :: rest) = c :: joinSurrogates rest := by
  rcases rest with - | ⟨d, rest⟩
  · rfl
  · rw [joinSurrogates, if_neg (h d rfl)]

/-- The first unit of a code point is a low surrogate only if the code point is. -/
theorem isLow_head_units (c : CodePoint) (rest : List CodePoint) :
    ∀ d ∈ (units c ++ rest).head?, isLow d = true → isLow c = true := by
  intro d hd hlow
  rw [units] at hd
  split at hd
  · rw [List.singleton_append, List.head?_cons, Option.mem_some_iff] at hd
    rw [hd]
    exact hlow
  · rename_i hastral
    rw [List.cons_append, List.head?_cons, Option.mem_some_iff] at hd
    rw [← hd, not_isLow_highOf (Nat.le_of_not_lt hastral)] at hlow
    cases hlow

/-- **A text without a surrogate pair is put together as it was.** -/
theorem joinSurrogates_flatMap (h : Unpaired text) : joinSurrogates (text.flatMap units) = text := by
  induction text with
  | nil => rfl
  | cons c text ih =>
    have htail : Unpaired text := h.tail
    rw [List.flatMap_cons, units]
    split
    · rw [List.singleton_append, joinSurrogates_single, ih htail]
      intro d hd hpair
      rcases text with - | ⟨next, text⟩
      · cases hd
      · rw [List.flatMap_cons] at hd
        have hlow := isLow_head_units next _ d hd hpair.2
        exact (List.isChain_cons_cons.mp h).1 ⟨hpair.1, hlow⟩
    · rename_i hastral
      rw [List.cons_append, List.singleton_append, joinSurrogates_pair (Nat.le_of_not_lt hastral), ih htail]

end Texts

/-! ### Numbers -/

/-- `int.__repr__`. -/
def writeInt (n : Int) : List Char :=
  if n < 0 then '-' :: Nat.toDigits 10 n.natAbs else Nat.toDigits 10 n.natAbs

/-- Nothing that a number could go on with. -/
def Ends (rest : List Char) : Prop :=
  ∀ c ∈ rest.head?, c.isDigit = false ∧ c ≠ '.' ∧ c ≠ 'e' ∧ c ≠ 'E'

section Numbers

variable {rest : List Char} {m : Nat} {n : Int}

theorem ends_nil : Ends [] := by
  intro c hc
  cases hc

theorem ends_cons {c : Char} (h : c.isDigit = false ∧ c ≠ '.' ∧ c ≠ 'e' ∧ c ≠ 'E') (rest : List Char) :
    Ends (c :: rest) := by
  intro d hd
  rw [List.head?_cons, Option.mem_some_iff] at hd
  rw [← hd]
  exact h

theorem isDigit_toDigits (m : Nat) : ∀ c ∈ Nat.toDigits 10 m, c.isDigit = true :=
  fun _ hc => Nat.isDigit_of_mem_toDigits (by decide) (by decide) hc

theorem takeWhile_digits {digits : List Char} (h : ∀ c ∈ digits, c.isDigit = true) (hrest : Ends rest) :
    (digits ++ rest).takeWhile Char.isDigit = digits ∧ (digits ++ rest).dropWhile Char.isDigit = rest := by
  have hstop : rest.takeWhile Char.isDigit = [] ∧ rest.dropWhile Char.isDigit = rest := by
    rcases rest with - | ⟨c, rest⟩
    · exact ⟨rfl, rfl⟩
    · have hc : ¬ c.isDigit = true := by
        rw [(hrest c rfl).1]
        exact Bool.false_ne_true
      exact ⟨List.takeWhile_cons_of_neg hc, List.dropWhile_cons_of_neg hc⟩
  rw [List.takeWhile_append_of_pos h, List.dropWhile_append_of_pos h, hstop.1, hstop.2, List.append_nil]
  exact ⟨rfl, rfl⟩

/-- Only the digits of zero begin with a zero. -/
theorem toDigits_head (m : Nat) : (∃ c digits, Nat.toDigits 10 m = c :: digits ∧ c ≠ '0' ∧ c.isDigit = true) ∨
    m = 0 := by
  induction m using Nat.strongRecOn with
  | ind m ih =>
    rcases Nat.lt_or_ge m 10 with hsmall | hlarge
    · rcases Nat.eq_zero_or_pos m with hzero | hpositive
      · exact .inr hzero
      · refine .inl ⟨Nat.digitChar m, [], Nat.toDigits_of_lt_base hsmall, ?_, ?_⟩
        · have hall : ∀ m < 10, 0 < m → Nat.digitChar m ≠ '0' := by decide
          exact hall m hsmall hpositive
        · have hall : ∀ m < 10, (Nat.digitChar m).isDigit = true := by decide
          exact hall m hsmall
    · rcases ih (m / 10) (by omega) with ⟨c, digits, hdigits, hne, hdigit⟩ | hzero
      · refine .inl ⟨c, digits ++ [Nat.digitChar (m % 10)], ?_, hne, hdigit⟩
        rw [Nat.toDigits_of_base_le (by decide) hlarge, hdigits, List.cons_append]
      · omega

theorem scanWhole_toDigits (m : Nat) (hrest : Ends rest) :
    scanWhole (Nat.toDigits 10 m ++ rest) = (Nat.toDigits 10 m, rest) := by
  rcases toDigits_head m with ⟨c, digits, hdigits, hne, -⟩ | rfl
  · have htaken := takeWhile_digits (isDigit_toDigits m) hrest
    rw [hdigits, List.cons_append] at htaken ⊢
    rw [scanWhole.eq_def]
    split
    · rename_i heq
      rw [List.cons.injEq] at heq
      exact absurd heq.1 hne
    · rw [htaken.1, htaken.2]
  · rfl

theorem scanFraction_of_ends (hrest : Ends rest) : scanFraction rest = (none, rest) := by
  rw [scanFraction.eq_def]
  split
  · exact absurd rfl (hrest '.' rfl).2.1
  · rfl

theorem scanExponent_of_ends (hrest : Ends rest) : scanExponent rest = (none, rest) := by
  rcases rest with - | ⟨c, rest⟩
  · rfl
  · rw [scanExponent, if_neg]
    rintro ⟨hexponent | hexponent, -⟩
    · exact (hrest c rfl).2.2.1 hexponent
    · exact (hrest c rfl).2.2.2 hexponent

theorem scanNumber_writeInt (hdigits : (Nat.toDigits 10 n.natAbs).length ≤ maxDigits) (hrest : Ends rest) :
    scanNumber (writeInt n ++ rest) = .ok (.int n, rest) := by
  have hminus : scanMinus (writeInt n ++ rest) = (decide (n < 0), Nat.toDigits 10 n.natAbs ++ rest) := by
    rw [writeInt]
    split
    · rename_i hnegative
      rw [decide_eq_true hnegative]
      rfl
    · rename_i hpositive
      rw [decide_eq_false hpositive]
      rcases hhead : Nat.toDigits 10 n.natAbs with - | ⟨c, digits⟩
      · exact absurd hhead Nat.toDigits_ne_nil
      · have hc : c.isDigit = true := by
          apply isDigit_toDigits n.natAbs
          rw [hhead]
          exact List.mem_cons_self
        rw [List.cons_append, scanMinus.eq_def]
        split
        · rename_i heq
          rw [List.cons.injEq] at heq
          rw [heq.1] at hc
          exact absurd hc (by decide)
        · rfl
  rw [scanNumber, hminus]
  simp only [scanWhole_toDigits n.natAbs hrest, if_neg Nat.toDigits_ne_nil, scanFraction_of_ends hrest,
    scanExponent_of_ends hrest, numberOf, and_self, if_true, if_neg (Nat.not_lt.mpr hdigits),
    Nat.ofDigitChars_ten_toDigits]
  by_cases hnegative : n < 0
  · have hvalue : -(n.natAbs : Int) = n := by omega
    simp only [hnegative, decide_true, if_true, hvalue]
    rfl
  · have hvalue : (n.natAbs : Int) = n := by omega
    simp only [hnegative, decide_false, Bool.false_eq_true, if_false, hvalue]
    rfl

/-- A number begins with a digit, perhaps after a minus sign. -/
theorem writeInt_head (n : Int) (rest : List Char) : ∃ c more, c.isDigit = true ∧
    (writeInt n ++ rest = c :: more ∨ writeInt n ++ rest = '-' :: c :: more) := by
  rcases hhead : Nat.toDigits 10 n.natAbs with - | ⟨c, digits⟩
  · exact absurd hhead Nat.toDigits_ne_nil
  · have hc : c.isDigit = true := by
      apply isDigit_toDigits n.natAbs
      rw [hhead]
      exact List.mem_cons_self
    refine ⟨c, digits ++ rest, hc, ?_⟩
    rw [writeInt, hhead]
    split
    · exact .inr rfl
    · exact .inl rfl

/-- No word begins with a digit, nor with a minus sign before one. -/
theorem find_words_none {text : List Char} {c : Char} {more : List Char} (hc : c.isDigit = true)
    (h : text = c :: more ∨ text = '-' :: c :: more) :
    (words.find? fun word => word.1.toList.isPrefixOf text) = none := by
  have hne : ∀ d : Char, d.isDigit = false → (d == c) = false := by
    intro d hd
    rw [beq_eq_false_iff_ne]
    rintro rfl
    rw [hc] at hd
    cases hd
  have hwords : ∀ word : List Char, ∀ d ∈ word.head?, (d == c) = false → word.isPrefixOf (c :: more) = false := by
    intro word d hd hdc
    rcases word with - | ⟨first, word⟩
    · cases hd
    · rw [List.head?_cons, Option.mem_some_iff] at hd
      rw [List.isPrefixOf, hd, hdc, Bool.false_and]
  rcases h with rfl | rfl
  · simp only [words, List.find?]
    rw [hwords _ 'n' rfl (hne 'n' rfl), hwords _ 't' rfl (hne 't' rfl), hwords _ 'f' rfl (hne 'f' rfl),
      hwords _ 'N' rfl (hne 'N' rfl), hwords _ 'I' rfl (hne 'I' rfl), hwords _ '-' rfl (hne '-' rfl)]
  · have hinfinity : ("-Infinity".toList).isPrefixOf ('-' :: c :: more) = false := by
      have hrest : "Infinity".toList.isPrefixOf (c :: more) = false := hwords _ 'I' rfl (hne 'I' rfl)
      exact hrest
    simp only [words, List.find?, hinfinity]
    rfl

theorem scanAtom_writeInt (hdigits : (Nat.toDigits 10 n.natAbs).length ≤ maxDigits) (hrest : Ends rest) :
    scanAtom (writeInt n ++ rest) = .ok (.int n, rest) := by
  rcases writeInt_head n rest with ⟨c, more, hc, hhead⟩
  rw [scanAtom, find_words_none hc hhead]
  exact scanNumber_writeInt hdigits hrest

end Numbers

/-! ### Documents -/

def Blank (text : List Char) : Prop := ∀ c ∈ text, isBlank c = true

/-- The blanks between the parts of a container, by how deep it stands. -/
structure Layout where
  opening : Nat → List Char
  between : Nat → List Char
  closing : Nat → List Char
  colon : List Char
  opening_blank : ∀ level, Blank (opening level)
  between_blank : ∀ level, Blank (between level)
  closing_blank : ∀ level, Blank (closing level)
  colon_blank : Blank colon

/-- `separators=(",", ":")`. -/
def compact : Layout where
  opening _ := []
  between _ := []
  closing _ := []
  colon := []
  opening_blank _ := List.forall_mem_nil _
  between_blank _ := List.forall_mem_nil _
  closing_blank _ := List.forall_mem_nil _
  colon_blank := List.forall_mem_nil _

theorem blank_spaces (n : Nat) : Blank (List.replicate n ' ') := by
  intro c hc
  rw [List.eq_of_mem_replicate hc]
  rfl

/-- A line of its own, that begins with blanks. -/
def newLine (n : Nat) : List Char := '\n' :: List.replicate n ' '

theorem blank_newLine (n : Nat) : Blank (newLine n) :=
  List.forall_mem_cons.mpr ⟨rfl, blank_spaces n⟩

/-- `indent=n`. -/
def indented (n : Nat) : Layout where
  opening level := newLine (n * (level + 1))
  between level := newLine (n * (level + 1))
  closing level := newLine (n * level)
  colon := List.replicate 1 ' '
  opening_blank _ := blank_newLine _
  between_blank _ := blank_newLine _
  closing_blank _ := blank_newLine _
  colon_blank := blank_spaces 1

/-- The default separators: a blank after a comma and after a colon. -/
def spaced : Layout where
  opening _ := []
  between _ := List.replicate 1 ' '
  closing _ := []
  colon := List.replicate 1 ' '
  opening_blank _ := List.forall_mem_nil _
  between_blank _ := blank_spaces 1
  closing_blank _ := List.forall_mem_nil _
  colon_blank := blank_spaces 1

section Writing

variable (layout : Layout) (repr : Binary64 → List Char)

mutual

/-- The text of a value in a container of a depth; `repr` writes the doubles. -/
def write (level : Nat) : Json → List Char
  | .null => "null".toList
  | .bool true => "true".toList
  | .bool false => "false".toList
  | .int n => writeInt n
  | .float value => repr value
  | .str text => writeText text
  | .arr [] => "[]".toList
  | .arr (item :: items) =>
    '[' :: layout.opening level ++ write (level + 1) item ++ writeItems level items
  | .obj [] => ['{', '}']
  | .obj ((name, value) :: entries) =>
    '{' :: layout.opening level ++ writeText name ++ ':' :: layout.colon ++ write (level + 1) value ++
      writeEntries level entries

/-- The items after the first one. -/
def writeItems (level : Nat) : List Json → List Char
  | [] => layout.closing level ++ [']']
  | item :: items => ',' :: layout.between level ++ write (level + 1) item ++ writeItems level items

/-- The entries after the first one. -/
def writeEntries (level : Nat) : List (List CodePoint × Json) → List Char
  | [] => layout.closing level ++ ['}']
  | (name, value) :: entries =>
    ',' :: layout.between level ++ writeText name ++ ':' :: layout.colon ++ write (level + 1) value ++
      writeEntries level entries

end

end Writing

/-! ### Plain characters -/

/-- The signs of strings, objects, fences and tags. -/
def marks : List Char := ['"', '\\', '<', '>', '{', '}', '`']

/-- How doubles are written: with letters, digits, signs and points. -/
def Numeral (repr : Binary64 → List Char) : Prop :=
  ∀ x, ∀ c ∈ repr x, c.isAlphanum = true ∨ c ∈ ['+', '-', '.']

section Plain

variable {repr : Binary64 → List Char} {text : List Char}

theorem digitChar_plain : ((List.range 16).all fun n => marks.all fun c => Nat.digitChar n != c) = true := by
  decide

theorem digitChar_notMem {n : Nat} (hn : n < 16) : Nat.digitChar n ∉ marks := by
  intro hmem
  have hall := List.all_eq_true.mp (List.all_eq_true.mp digitChar_plain n (List.mem_range.mpr hn)) _ hmem
  rw [bne_self_eq_false] at hall
  cases hall

theorem Numeral.notMem (h : Numeral repr) (x : Binary64) : ∀ c ∈ repr x, c ∉ marks := by
  intro c hc hmark
  simp only [marks, List.mem_cons, List.not_mem_nil, or_false] at hmark
  have hletter := h x c hc
  rcases hmark with rfl | rfl | rfl | rfl | rfl | rfl | rfl <;> revert hletter <;> decide

theorem blank_notMem (h : Blank text) : ∀ c ∈ text, c ∉ marks := by
  intro c hc hmark
  have hblank := h c hc
  simp only [marks, List.mem_cons, List.not_mem_nil, or_false] at hmark
  rcases hmark with rfl | rfl | rfl | rfl | rfl | rfl | rfl <;> revert hblank <;> decide

theorem writeInt_notMem (n : Int) : ∀ c ∈ writeInt n, c ∉ marks := by
  have hdigits : ∀ c ∈ Nat.toDigits 10 n.natAbs, c ∉ marks := by
    intro c hc hmark
    have hdigit := isDigit_toDigits _ c hc
    simp only [marks, List.mem_cons, List.not_mem_nil, or_false] at hmark
    rcases hmark with rfl | rfl | rfl | rfl | rfl | rfl | rfl <;> revert hdigit <;> decide
  rw [writeInt]
  split
  · exact List.forall_mem_cons.mpr ⟨by decide, hdigits⟩
  · exact hdigits

theorem words_bare : (words.all fun word => word.1.toList.all fun c => !marks.elem c) = true := by decide

theorem word_notMem {word : String × Json} (h : word ∈ words) : ∀ c ∈ word.1.toList, c ∉ marks := by
  intro c hc hmark
  have hnone := List.all_eq_true.mp (List.all_eq_true.mp words_bare word h) c hc
  rw [List.elem_eq_true_of_mem hmark] at hnone
  cases hnone

end Plain

/-! ### Texts put together -/

/-- A property of every piece of a text, that putting pieces together keeps. -/
structure Pieces (layout : Layout) (repr : Binary64 → List Char) (P : List Char → Prop) : Prop where
  append : ∀ {front back : List Char}, P front → P back → P (front ++ back)
  sign : ∀ c ∈ ['[', ']', '{', '}', ',', ':'], P [c]
  opening : ∀ level, P (layout.opening level)
  between : ∀ level, P (layout.between level)
  closing : ∀ level, P (layout.closing level)
  colon : P layout.colon
  word : ∀ word ∈ words, P word.1.toList
  int : ∀ n, P (writeInt n)
  float : ∀ x, P (repr x)
  text : ∀ text, P (writeText text)

section Pieces

variable {layout : Layout} {repr : Binary64 → List Char} {P : List Char → Prop}

mutual

/-- **What holds of the pieces holds of the text of a value.** -/
theorem Pieces.write (h : Pieces layout repr P) : ∀ (value : Json) (level : Nat), P (write layout repr level value)
  | .null, _ => h.word ("null", .null) (by simp [words])
  | .bool true, _ => h.word ("true", .bool true) (by simp [words])
  | .bool false, _ => h.word ("false", .bool false) (by simp [words])
  | .int n, _ => h.int n
  | .float x, _ => h.float x
  | .str text, _ => h.text text
  | .arr [], _ => h.append (h.sign '[' (by decide)) (h.sign ']' (by decide))
  | .arr (item :: items), level =>
    h.append (h.append (h.append (h.sign '[' (by decide)) (h.opening level)) (h.write item (level + 1)))
      (h.writeItems items level)
  | .obj [], _ => h.append (h.sign '{' (by decide)) (h.sign '}' (by decide))
  | .obj ((name, value) :: entries), level =>
    h.append (h.append (h.append (h.append (h.append (h.sign '{' (by decide)) (h.opening level)) (h.text name))
      (h.append (h.sign ':' (by decide)) h.colon)) (h.write value (level + 1))) (h.writeEntries entries level)

theorem Pieces.writeItems (h : Pieces layout repr P) : ∀ (items : List Json) (level : Nat),
    P (writeItems layout repr level items)
  | [], level => h.append (h.closing level) (h.sign ']' (by decide))
  | item :: items, level =>
    h.append (h.append (h.append (h.sign ',' (by decide)) (h.between level)) (h.write item (level + 1)))
      (h.writeItems items level)

theorem Pieces.writeEntries (h : Pieces layout repr P) : ∀ (entries : List (List CodePoint × Json)) (level : Nat),
    P (writeEntries layout repr level entries)
  | [], level => h.append (h.closing level) (h.sign '}' (by decide))
  | (name, value) :: entries, level =>
    h.append (h.append (h.append (h.append (h.append (h.sign ',' (by decide)) (h.between level)) (h.text name))
      (h.append (h.sign ':' (by decide)) h.colon)) (h.write value (level + 1))) (h.writeEntries entries level)

end

end Pieces

/-! ### One line -/

def Printable (text : List Char) : Prop := ∀ c ∈ text, 32 ≤ c.toNat ∧ c.toNat ≤ 126

instance (text : List Char) : Decidable (Printable text) :=
  List.decidableBAll (fun c : Char => 32 ≤ c.toNat ∧ c.toNat ≤ 126) text

section OneLine

variable {repr : Binary64 → List Char} {front back : List Char}

theorem printable_append : Printable (front ++ back) ↔ Printable front ∧ Printable back :=
  List.forall_mem_append

theorem printable_cons {c : Char} : Printable (c :: back) ↔ (32 ≤ c.toNat ∧ c.toNat ≤ 126) ∧ Printable back :=
  List.forall_mem_cons

theorem printable_nil : Printable [] := List.forall_mem_nil _

theorem digitChar_printable : ∀ n < 16, 32 ≤ (Nat.digitChar n).toNat ∧ (Nat.digitChar n).toNat ≤ 126 := by
  decide

theorem printable_unicodeEscape {n : Nat} (h : n < 0x10000) : Printable (unicodeEscape n) := by
  simp only [unicodeEscape, printable_cons]
  exact ⟨by decide, by decide, digitChar_printable _ (by omega), digitChar_printable _ (by omega),
    digitChar_printable _ (by omega), digitChar_printable _ (by omega), printable_nil⟩

theorem printable_escape (c : CodePoint) : Printable (escape c) := by
  have hnamed : ∀ d : Char, 32 ≤ d.toNat ∧ d.toNat ≤ 126 → Printable ['\\', d] :=
    fun d hd => printable_cons.mpr ⟨by decide, printable_cons.mpr ⟨hd, printable_nil⟩⟩
  rw [escape]
  split_ifs with hquote hbackslash hfeed hreturn htab hform hbell hplain hbasic
  · exact hnamed '"' (by decide)
  · exact hnamed '\\' (by decide)
  · exact hnamed 'n' (by decide)
  · exact hnamed 'r' (by decide)
  · exact hnamed 't' (by decide)
  · exact hnamed 'f' (by decide)
  · exact hnamed 'b' (by decide)
  · rw [printable_cons, toNat_ofNat hplain.2]
    exact ⟨hplain, printable_nil⟩
  · exact printable_unicodeEscape hbasic
  · have hhigh := highOf_lt (Nat.le_of_not_lt hbasic)
    have hlow := @lowOf_lt c
    exact printable_append.mpr ⟨printable_unicodeEscape (by omega), printable_unicodeEscape (by omega)⟩

theorem printable_writeText (text : List CodePoint) : Printable (writeText text) := by
  rw [writeText, List.cons_append, printable_cons, printable_append]
  refine ⟨by decide, ?_, by decide⟩
  intro d hd
  obtain ⟨c, -, hc⟩ := List.mem_flatMap.mp hd
  exact printable_escape c d hc

theorem printable_writeInt (n : Int) : Printable (writeInt n) := by
  have hdigits : Printable (Nat.toDigits 10 n.natAbs) := by
    intro c hc
    have hdigit := isDigit_toDigits _ c hc
    rw [Char.isDigit, Bool.and_eq_true, decide_eq_true_iff, decide_eq_true_iff] at hdigit
    have hlow : 48 ≤ c.toNat := hdigit.1
    have hhigh : c.toNat ≤ 57 := hdigit.2
    omega
  rw [writeInt]
  split
  · exact printable_cons.mpr ⟨by decide, hdigits⟩
  · exact hdigits

theorem printable_pieces (hrepr : ∀ x, Printable (repr x)) : Pieces compact repr Printable where
  append := fun hfront hback => printable_append.mpr ⟨hfront, hback⟩
  sign := by
    intro c hc
    simp only [List.mem_cons, List.not_mem_nil, or_false] at hc
    rcases hc with rfl | rfl | rfl | rfl | rfl | rfl <;> decide
  opening _ := printable_nil
  between _ := printable_nil
  closing _ := printable_nil
  colon := printable_nil
  word := by
    intro word hword
    simp only [words, List.mem_cons, List.not_mem_nil, or_false] at hword
    rcases hword with rfl | rfl | rfl | rfl | rfl | rfl <;> decide
  int := printable_writeInt
  float := hrepr
  text := printable_writeText

/-- **Without blanks the text of a value is one line**, of printable characters. -/
theorem printable_write (hrepr : ∀ x, Printable (repr x)) (value : Json) (level : Nat) :
    Printable (write compact repr level value) :=
  (printable_pieces hrepr).write value level

end OneLine

end AgenticPlatform.Json
