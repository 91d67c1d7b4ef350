import AgenticPlatform.Basics
import Mathlib.Data.List.Forall2

/-!
# Numbers and UUIDs as text

`int(text, base)` and `UUID(text)` read more than what `str` writes: white space around a
number, a sign, a base prefix and underscores; a UUID also in braces, as a URN, or without
its hyphens. What `str` wrote is read back as it was.
-/

namespace AgenticPlatform

/-! ### Integers -/

/-- The value of a digit, letters counting on from ten. -/
def digitValue (c : Char) : Option Nat :=
  if '0' ≤ c ∧ c ≤ '9' then some (c.toNat - 48)
  else if 'a' ≤ c ∧ c ≤ 'z' then some (c.toNat - 87)
  else if 'A' ≤ c ∧ c ≤ 'Z' then some (c.toNat - 55)
  else none

def digitBelow (base : Nat) (c : Char) : Option Nat := (digitValue c).filter fun digit => digit < base

/-- More digits of a number that has begun, with single underscores between them. -/
def readDigits (base value : Nat) : List Char → Option Nat
  | [] => some value
  | c :: rest =>
      if c = '_' then
        match rest with
        | [] => none
        | c :: rest => (digitBelow base c).bind fun digit => readDigits base (value * base + digit) rest
      else (digitBelow base c).bind fun digit => readDigits base (value * base + digit) rest

/-- Digits without a sign; hexadecimal ones may have a prefix. -/
def readNumber (base : Nat) (chars : List Char) : Option Nat :=
  match chars with
  | [] => none
  | [c] => digitBelow base c
  | first :: second :: rest =>
      if base = 16 ∧ first = '0' ∧ (second = 'x' ∨ second = 'X') then
        if rest = [] then none else readDigits base 0 rest
      else (digitBelow base first).bind fun digit => readDigits base digit (second :: rest)

/-- `int(text, base)`. -/
def parseInt (base : Nat) (text : String) : Option Int :=
  match (strip text).toList with
  | [] => none
  | sign :: rest =>
      if sign = '-' then (readNumber base rest).map fun n => -(n : Int)
      else if sign = '+' then (readNumber base rest).map Int.ofNat
      else (readNumber base (sign :: rest)).map Int.ofNat

/-- How many decimal digits `int` reads and `str` writes. -/
def maxStrDigits : Nat := 4300

/-- `int(text)`; signs and underscores are not counted. -/
def readInt (text : String) : Option Int :=
  let digits := (strip text).toList.filter fun c => c ≠ '+' ∧ c ≠ '-' ∧ c ≠ '_'
  if digits.length ≤ maxStrDigits then parseInt 10 text else none

/-- `str(n)`. -/
def strInt (n : Int) : Except PyError String :=
  if n.natAbs < 10 ^ maxStrDigits then .ok (toString n)
  else .error (.valueError ("Exceeds the limit (" ++ toString maxStrDigits ++
    " digits) for integer string conversion; use sys.set_int_max_str_digits() to increase the limit"))

def foldDigits (base value : Nat) (digits : List Nat) : Nat :=
  digits.foldl (fun value digit => value * base + digit) value

theorem digitBelow_underscore (base : Nat) : digitBelow base '_' = none := rfl

theorem readDigits_cons {base value : Nat} {c : Char} {rest : List Char} (hc : c ≠ '_') :
    readDigits base value (c :: rest) =
      (digitBelow base c).bind fun digit => readDigits base (value * base + digit) rest := by
  cases rest <;> rw [readDigits, if_neg hc]

theorem readDigits_eq {base : Nat} {chars : List Char} {digits : List Nat}
    (h : List.Forall₂ (fun c digit => digitBelow base c = some digit) chars digits) (value : Nat) :
    readDigits base value chars = some (foldDigits base value digits) := by
  induction h generalizing value with
  | nil => rfl
  | @cons c digit chars digits hdigit hrest ih =>
    have hc : c ≠ '_' := by
      rintro rfl
      rw [digitBelow_underscore] at hdigit
      cases hdigit
    rw [readDigits_cons hc, hdigit, Option.bind_some, ih]
    rfl

/-- Digits alone, read from the first on. -/
theorem readNumber_eq {base : Nat} {chars : List Char} {digits : List Nat}
    (hne : chars ≠ []) (hplain : ∀ c ∈ chars, c ≠ 'x' ∧ c ≠ 'X')
    (h : List.Forall₂ (fun c digit => digitBelow base c = some digit) chars digits) :
    readNumber base chars = some (foldDigits base 0 digits) := by
  match chars, digits, h with
  | [], _, _ => exact absurd rfl hne
  | [c], [digit], .cons hdigit .nil =>
    simp [readNumber, foldDigits, hdigit]
  | first :: second :: rest, digit :: digits, .cons hdigit hrest =>
    have hsecond := hplain second (by simp)
    have hno : ¬(base = 16 ∧ first = '0' ∧ (second = 'x' ∨ second = 'X')) := by
      rintro ⟨-, -, h | h⟩
      · exact hsecond.1 h
      · exact hsecond.2 h
    rw [readNumber, if_neg hno, hdigit, Option.bind_some, readDigits_eq hrest]
    simp [foldDigits]

/-- Text without white space is stripped already. -/
theorem strip_eq {text : String} (h : ∀ c ∈ text.toList, isSpace c = false) : strip text = text := by
  have hdrop : ∀ chars : List Char, (∀ c ∈ chars, isSpace c = false) → chars.dropWhile isSpace = chars := by
    intro chars hchars
    cases chars with
    | nil => rfl
    | cons c rest => rw [List.dropWhile_cons_of_neg (by simp [hchars c (by simp)])]
  unfold strip
  rw [hdrop _ h, hdrop _ (by simpa using h)]
  simp

theorem digitBelow_ten {c : Char} (h : c.isDigit = true) :
    digitBelow 10 c = some (c.toNat - 48) ∧ isSpace c = false ∧ c ≠ '-' ∧ c ≠ '+' ∧ c ≠ 'x' ∧ c ≠ 'X' := by
  have hle : '0' ≤ c ∧ c ≤ '9' := by
    simpa [Char.isDigit, Char.le_def] using h
  have hlow : 48 ≤ c.toNat := hle.1
  have hhigh : c.toNat ≤ 57 := hle.2
  refine ⟨?_, ?_, ?_, ?_, ?_, ?_⟩
  · unfold digitBelow digitValue
    rw [if_pos hle]
    simp only [Option.filter_some]
    rw [if_pos (by simp; omega)]
  · simp only [isSpace, Bool.or_eq_false_iff, Bool.and_eq_false_iff, decide_eq_false_iff_not, beq_eq_false_iff_ne]
    omega
  all_goals
    rintro rfl
    revert hlow hhigh
    decide

theorem foldDigits_chars (chars : List Char) :
    foldDigits 10 0 (chars.map fun c => c.toNat - 48) = Nat.ofDigitChars 10 chars 0 := by
  rw [foldDigits, List.foldl_map, Nat.ofDigitChars_eq_foldl]
  simp only [Nat.mul_comm]
  rfl

/-- Decimal digits are read at their value. -/
theorem readNumber_digits {chars : List Char} (hne : chars ≠ [])
    (hdigit : ∀ c ∈ chars, c.isDigit = true) :
    readNumber 10 chars = some (Nat.ofDigitChars 10 chars 0) := by
  have hall : List.Forall₂ (fun c digit => digitBelow 10 c = some digit) chars
      (chars.map fun c => c.toNat - 48) := by
    rw [List.forall₂_map_right_iff, List.forall₂_same]
    exact fun c hc => (digitBelow_ten (hdigit c hc)).1
  rw [readNumber_eq hne (fun c hc => (digitBelow_ten (hdigit c hc)).2.2.2.2) hall,
    foldDigits_chars]

/-- **`int(str(n))` is `n`.** -/
@[simp] theorem parseInt_toString (n : Nat) : parseInt 10 (toString n) = some (n : Int) := by
  have hchars : (toString n).toList = Nat.toDigits 10 n := Nat.toList_repr
  have hdigit : ∀ c ∈ Nat.toDigits 10 n, c.isDigit = true := fun c hc =>
    Nat.isDigit_of_mem_toDigits (by decide) (by decide) hc
  have hstrip : strip (toString n) = toString n := by
    apply strip_eq
    rw [hchars]
    exact fun c hc => (digitBelow_ten (hdigit c hc)).2.1
  have hread : readNumber 10 (Nat.toDigits 10 n) = some n := by
    rw [readNumber_digits Nat.toDigits_ne_nil hdigit, Nat.ofDigitChars_ten_toDigits]
  unfold parseInt
  rw [hstrip, hchars]
  cases hfirst : Nat.toDigits 10 n with
  | nil => exact absurd hfirst Nat.toDigits_ne_nil
  | cons c rest =>
    have hc := digitBelow_ten (hdigit c (by simp [hfirst]))
    rw [hfirst] at hread
    simp [hc.2.2.1, hc.2.2.2.1, hread]

theorem toString_nonempty (n : Nat) : toString n ≠ "" := by
  intro h
  have hchars : (toString n).toList = Nat.toDigits 10 n := Nat.toList_repr
  rw [h] at hchars
  exact Nat.toDigits_ne_nil hchars.symm

theorem digits_length {n : Nat} (h : n < 10 ^ maxStrDigits) :
    (toString n).toList.length ≤ maxStrDigits := by
  have hchars : (toString n).toList = Nat.toDigits 10 n := Nat.toList_repr
  rw [hchars]
  exact (Nat.length_toDigits_le_iff (by decide) (by decide)).mpr h

/-- **What `str` writes, `int` reads.** -/
theorem readInt_toString {n : Nat} (h : n < 10 ^ maxStrDigits) :
    readInt (toString n) = some (n : Int) := by
  have hchars : (toString n).toList = Nat.toDigits 10 n := Nat.toList_repr
  have hplain : ∀ c ∈ (toString n).toList, isSpace c = false := by
    rw [hchars]
    exact fun c hc =>
      (digitBelow_ten (Nat.isDigit_of_mem_toDigits (by decide) (by decide) hc)).2.1
  have hlength : ((strip (toString n)).toList.filter fun c => c ≠ '+' ∧ c ≠ '-' ∧ c ≠ '_').length ≤
      maxStrDigits := by
    rw [strip_eq hplain]
    exact (List.length_filter_le _ _).trans (digits_length h)
  rw [readInt, if_pos hlength, parseInt_toString]

theorem strInt_eq_ok {n : Int} {text : String} :
    strInt n = .ok text ↔ n.natAbs < 10 ^ maxStrDigits ∧ text = toString n := by
  rw [strInt]
  split
  · rename_i hshort
    rw [Except.ok.injEq]
    exact ⟨fun h => ⟨hshort, h.symm⟩, fun h => h.2.symm⟩
  · rename_i hlong
    exact ⟨nofun, fun h => absurd h.1 hlong⟩

/-! ### UUIDs -/

/-- `text.replace(pattern, "")`; `skip` characters are left of an occurrence. -/
def removeAll (pattern : List Char) : Nat → List Char → List Char
  | _, [] => []
  | skip + 1, _ :: rest => removeAll pattern skip rest
  | 0, c :: rest =>
      if pattern.isPrefixOf (c :: rest) then removeAll pattern (pattern.length - 1) rest
      else c :: removeAll pattern 0 rest

/-- `text.strip("{}")`. -/
def stripBraces (chars : List Char) : List Char :=
  let isBrace := fun c : Char => c.toNat == 123 || c.toNat == 125
  ((chars.dropWhile isBrace).reverse.dropWhile isBrace).reverse

/-- `UUID(text)`, as its integer. -/
def parseUuid (text : String) : Except PyError Nat :=
  let chars := removeAll "uuid:".toList 0 (removeAll "urn:".toList 0 text.toList)
  let chars := (stripBraces chars).filter fun c => c ≠ '-'
  if chars.length ≠ 32 then .error (.valueError "badly formed hexadecimal UUID string")
  else
    match parseInt 16 (String.ofList chars) with
    | some value => .ok value.toNat
    | none => .error (.valueError ("invalid literal for int() with base 16: " ++ quoted (String.ofList chars)))

/-- `str(uuid)` for the UUID with this integer; what an identifier names is not in it. -/
def uuidText (value : Nat) : String := ({ value } : RunId).str

/-- A UUID has 128 bits. -/
def IsUuid (value : Nat) : Prop := value < 2 ^ 128

instance (value : Nat) : Decidable (IsUuid value) := inferInstanceAs (Decidable (_ < _))

/-- The name of the class of an identifier. -/
def IdKind.className : IdKind → String
  | .project => "ProjectId"
  | .run => "RunId"
  | .job => "JobId"
  | .worker => "WorkerId"
  | .candidate => "CandidateId"
  | .plan => "PlanId"
  | .task => "TaskId"
  | .review => "ReviewId"
  | .workspace => "WorkspaceId"

/-- `EntityId.parse` of a string. -/
def EntityId.parse (kind : IdKind) (text : String) : Except PyError (EntityId kind) :=
  match parseUuid text with
  | .ok value => .ok ⟨value⟩
  | .error _ => .error (.valueError ("invalid " ++ kind.className ++ ": " ++ quoted text))

theorem removeAll_eq {pattern chars : List Char} (hmem : ':' ∈ pattern) (hchars : ':' ∉ chars) :
    removeAll pattern 0 chars = chars := by
  induction chars with
  | nil => rfl
  | cons c rest ih =>
    have hno : pattern.isPrefixOf (c :: rest) = false := by
      rw [Bool.eq_false_iff]
      intro hstarts
      exact hchars ((List.isPrefixOf_iff_prefix.mp hstarts).subset hmem)
    rw [removeAll, hno, if_neg Bool.false_ne_true, ih fun h => hchars (List.mem_cons_of_mem c h)]

theorem stripBraces_eq {chars : List Char} (h : ∀ c ∈ chars, c.toNat ≠ 123 ∧ c.toNat ≠ 125) :
    stripBraces chars = chars := by
  have hdrop : ∀ chars : List Char, (∀ c ∈ chars, c.toNat ≠ 123 ∧ c.toNat ≠ 125) →
      chars.dropWhile (fun c : Char => c.toNat == 123 || c.toNat == 125) = chars := by
    intro chars hchars
    cases chars with
    | nil => rfl
    | cons c rest => rw [List.dropWhile_cons_of_neg (by simp [hchars c (by simp)])]
  unfold stripBraces
  dsimp only
  rw [hdrop _ h, hdrop _ (by simpa using h)]
  simp

/-- The digits of a number, read again. -/
theorem foldDigits_hex (value count : Nat) :
    foldDigits 16 0 ((List.range count).map fun i => value / 16 ^ (count - 1 - i) % 16) =
      value % 16 ^ count := by
  induction count generalizing value with
  | zero => simp [foldDigits, Nat.mod_one]
  | succ count ih =>
    have hhead : (List.range count).map (fun i => value / 16 ^ (count + 1 - 1 - i) % 16) =
        (List.range count).map fun i => value / 16 / 16 ^ (count - 1 - i) % 16 := by
      apply List.map_congr_left
      intro i hi
      rw [List.mem_range] at hi
      rw [Nat.div_div_eq_div_mul, ← Nat.pow_succ', show count + 1 - 1 - i = count - 1 - i + 1 by omega]
    rw [List.range_succ, List.map_append, hhead, foldDigits, List.foldl_append]
    change foldDigits 16 (foldDigits 16 0 _) _ = _
    rw [ih, Nat.pow_succ', Nat.mod_mul]
    simp [foldDigits]
    omega

theorem hexDigit_spec : ∀ n < 16, digitBelow 16 (hexDigit n) = some n ∧ isSpace (hexDigit n) = false ∧
    hexDigit n ≠ '-' ∧ hexDigit n ≠ '+' ∧ hexDigit n ≠ 'x' ∧ hexDigit n ≠ 'X' ∧ hexDigit n ≠ ':' ∧
    (hexDigit n).toNat ≠ 123 ∧ (hexDigit n).toNat ≠ 125 := by decide

theorem uuidDigit_spec (value i : Nat) : ∃ n < 16, uuidDigit value i = hexDigit n ∧
    n = value / 16 ^ (31 - i) % 16 :=
  ⟨_, Nat.mod_lt _ (by decide), rfl, rfl⟩

theorem EntityId.mem_chars {kind : IdKind} {id : EntityId kind} {c : Char} (h : c ∈ id.chars) :
    c = '-' ∨ ∃ n < 16, c = hexDigit n := by
  have hdigit : ∀ first count, c ∈ (List.range' first count).map (uuidDigit id.value) →
      c = '-' ∨ ∃ n < 16, c = hexDigit n := by
    intro first count hc
    obtain ⟨i, -, rfl⟩ := List.mem_map.mp hc
    obtain ⟨n, hn, hdigit, -⟩ := uuidDigit_spec id.value i
    exact .inr ⟨n, hn, hdigit⟩
  simp only [EntityId.chars, List.mem_append, List.mem_cons] at h
  grind

/-- The text without its hyphens. -/
theorem EntityId.filter_chars {kind : IdKind} (id : EntityId kind) :
    (id.chars.filter fun c => c ≠ '-') = (List.range 32).map (uuidDigit id.value) := by
  have hgroup : ∀ first count, ((List.range' first count).map (uuidDigit id.value)).filter
      (fun c => c ≠ '-') = (List.range' first count).map (uuidDigit id.value) := by
    intro first count
    rw [List.filter_eq_self]
    intro c hc
    obtain ⟨i, -, rfl⟩ := List.mem_map.mp hc
    obtain ⟨n, hn, hdigit, -⟩ := uuidDigit_spec id.value i
    rw [hdigit]
    simpa using (hexDigit_spec n hn).2.2.1
  have hhyphen : ∀ rest : List Char, ('-' :: rest).filter (fun c => c ≠ '-') = rest.filter fun c => c ≠ '-' :=
    fun rest => List.filter_cons_of_neg (by decide)
  simp only [EntityId.chars, List.filter_append, hhyphen, hgroup, ← List.map_append]
  rfl

/-- **`UUID(str(uuid))` is the UUID.** -/
theorem parseUuid_str {kind : IdKind} {id : EntityId kind} (h : IsUuid id.value) :
    parseUuid id.str = .ok id.value := by
  have hcolon : ':' ∉ id.chars := by
    intro hmem
    rcases EntityId.mem_chars hmem with hc | ⟨n, hn, hc⟩
    · revert hc
      decide
    · exact (hexDigit_spec n hn).2.2.2.2.2.2.1 hc.symm
  have hbraces : ∀ c ∈ id.chars, c.toNat ≠ 123 ∧ c.toNat ≠ 125 := by
    intro c hmem
    rcases EntityId.mem_chars hmem with rfl | ⟨n, hn, rfl⟩
    · decide
    · exact (hexDigit_spec n hn).2.2.2.2.2.2.2
  have hdigits : ∀ c ∈ (List.range 32).map (uuidDigit id.value), ∃ n < 16, c = hexDigit n := by
    intro c hc
    obtain ⟨i, -, rfl⟩ := List.mem_map.mp hc
    obtain ⟨n, hn, hdigit, -⟩ := uuidDigit_spec id.value i
    exact ⟨n, hn, hdigit⟩
  have hread : readNumber 16 ((List.range 32).map (uuidDigit id.value)) = some id.value := by
    have hall : List.Forall₂ (fun c digit => digitBelow 16 c = some digit)
        ((List.range 32).map (uuidDigit id.value))
        ((List.range 32).map fun i => id.value / 16 ^ (32 - 1 - i) % 16) := by
      rw [List.forall₂_map_left_iff, List.forall₂_map_right_iff, List.forall₂_same]
      exact fun i _ => (hexDigit_spec _ (Nat.mod_lt _ (by decide))).1
    rw [readNumber_eq (by simp) ?_ hall, foldDigits_hex, show (16 : Nat) ^ 32 = 2 ^ 128 by decide,
      Nat.mod_eq_of_lt h]
    intro c hc
    obtain ⟨n, hn, rfl⟩ := hdigits c hc
    exact ⟨(hexDigit_spec n hn).2.2.2.2.1, (hexDigit_spec n hn).2.2.2.2.2.1⟩
  have hstrip : strip (String.ofList ((List.range 32).map (uuidDigit id.value))) =
      String.ofList ((List.range 32).map (uuidDigit id.value)) := by
    apply strip_eq
    intro c hc
    rw [String.toList_ofList] at hc
    obtain ⟨n, hn, rfl⟩ := hdigits c hc
    exact (hexDigit_spec n hn).2.1
  have hfirst : ∃ rest, (List.range 32).map (uuidDigit id.value) = uuidDigit id.value 0 :: rest :=
    ⟨_, rfl⟩
  have hparse : parseInt 16 (String.ofList ((List.range 32).map (uuidDigit id.value))) =
      some (id.value : Int) := by
    unfold parseInt
    rw [hstrip, String.toList_ofList]
    obtain ⟨rest, hrest⟩ := hfirst
    obtain ⟨n, hn, hdigit, -⟩ := uuidDigit_spec id.value 0
    rw [hrest] at hread ⊢
    have hsigns := hexDigit_spec n hn
    rw [← hdigit] at hsigns
    simp [hsigns.2.2.1, hsigns.2.2.2.1, hread]
  have hurn : removeAll "urn:".toList 0 id.chars = id.chars := removeAll_eq (by decide) hcolon
  have huuid : removeAll "uuid:".toList 0 id.chars = id.chars := removeAll_eq (by decide) hcolon
  have hchars : id.str.toList = id.chars := String.toList_ofList
  unfold parseUuid
  dsimp only
  rw [hchars, hurn, huuid, stripBraces_eq hbraces, EntityId.filter_chars, if_neg (by simp), hparse]
  rfl

@[simp] theorem EntityId.parse_str {kind : IdKind} {id : EntityId kind} (h : IsUuid id.value) :
    EntityId.parse kind id.str = .ok id := by
  unfold EntityId.parse
  rw [parseUuid_str h]

theorem parseUuid_uuidText {value : Nat} (h : IsUuid value) : parseUuid (uuidText value) = .ok value :=
  @parseUuid_str .run ⟨value⟩ h

theorem EntityId.str_nonempty {kind : IdKind} (id : EntityId kind) : id.str ≠ "" := by
  intro h
  have hchars : id.chars = [] := by
    have := congrArg String.toList h
    simpa [EntityId.str] using this
  have hfilter := id.filter_chars
  rw [hchars] at hfilter
  simp at hfilter

end AgenticPlatform
