import AgenticPlatform.Doubles
import AgenticPlatform.Utf8

/-!
# JSON documents

The values that `json.loads` makes and how it reads them: a container counts against the
interpreter's recursion limit, a number with a fraction or an exponent is a double, and `NaN`,
`Infinity` and `-Infinity` are read as well. The text is one without surrogates; the strings in
it may name them.
-/

namespace AgenticPlatform

open Utf8 (CodePoint)

/-! ### Values -/

/-- What a document stands for. The entries of an object have the order of their first names. -/
inductive Json where
  | null
  | bool (value : Bool)
  | int (value : Int)
  | float (value : Binary64)
  | str (text : List CodePoint)
  | arr (items : List Json)
  | obj (entries : List (List CodePoint × Json))

namespace Json

/-- `bool(value)`. -/
def truthy : Json → Bool
  | .null => false
  | .bool b => b
  | .int n => n != 0
  | .float (.finite _ number) => number.1 != 0
  | .float _ => true
  | .str text => !text.isEmpty
  | .arr items => !items.isEmpty
  | .obj entries => !entries.isEmpty

/-- The code points of a key that is written in the code. -/
def key (name : String) : List CodePoint := Utf8.codePoints name

/-- `mapping.get(name)`. -/
def get (entries : List (List CodePoint × Json)) (name : String) : Option Json :=
  List.lookup (key name) entries

/-- `mapping[name] = value`. -/
def setItem (name : List CodePoint) (value : Json) :
    List (List CodePoint × Json) → List (List CodePoint × Json)
  | [] => [(name, value)]
  | entry :: rest => if entry.1 = name then (name, value) :: rest else entry :: setItem name value rest

/-- The dictionary of what an object lists; a name's last value counts. -/
def ofPairs (pairs : List (List CodePoint × Json)) : List (List CodePoint × Json) :=
  pairs.foldl (fun entries pair => setItem pair.1 pair.2 entries) []

/-! ### Reading -/

/-- What `json.loads` raises: `JSONDecodeError`, the `ValueError` of a whole number with too many
    digits, or `RecursionError`. -/
inductive LoadsError where
  | decode
  | digits
  | recursion
deriving DecidableEq

/-- From a place in the text: what is read there, and the text after it. -/
abbrev Scanner (α : Type) := List Char → Except LoadsError (α × List Char)

def isBlank (c : Char) : Bool := c == ' ' || c == '\t' || c == '\n' || c == '\r'

def skip (text : List Char) : List Char := text.dropWhile isBlank

/-- The number that four hexadecimal digits stand for. -/
def hexValue (a b c d : Char) : Option Nat :=
  match digitBelow 16 a, digitBelow 16 b, digitBelow 16 c, digitBelow 16 d with
  | some a, some b, some c, some d => some (((a * 16 + b) * 16 + c) * 16 + d)
  | _, _, _, _ => none

def codePoint (n : Nat) : CodePoint := ⟨n % 0x110000, Nat.mod_lt n (Nat.zero_lt_succ 0x10FFFF)⟩

/-- The character after a backslash, other than `u`. -/
def escaped (c : Char) : Option CodePoint :=
  if c = '"' ∨ c = '\\' ∨ c = '/' then some (codePoint c.toNat)
  else if c = 'b' then some (codePoint 8)
  else if c = 'f' then some (codePoint 12)
  else if c = 'n' then some (codePoint 10)
  else if c = 'r' then some (codePoint 13)
  else if c = 't' then some (codePoint 9)
  else none

/-- Adds a code point to what is read after it. -/
def prepend (c : CodePoint) (read : List CodePoint × List Char) : List CodePoint × List Char :=
  (c :: read.1, read.2)

/-- A string from after its opening quote on, each `\u` escape a code point of its own. -/
def scanText : Scanner (List CodePoint)
  | [] => .error .decode
  | c :: rest =>
    if c = '"' then .ok ([], rest)
    else if c = '\\' then
      match rest with
      | 'u' :: a :: b :: c :: d :: rest =>
        match hexValue a b c d with
        | some n => (scanText rest).map (prepend (codePoint n))
        | none => .error .decode
      | c :: rest =>
        match escaped c with
        | some c => (scanText rest).map (prepend c)
        | none => .error .decode
      | [] => .error .decode
    else if c.toNat < 0x20 then .error .decode
    else (scanText rest).map (prepend (codePoint c.toNat))

def isHigh (c : CodePoint) : Bool := 0xD800 ≤ c.val && c.val ≤ 0xDBFF

def isLow (c : CodePoint) : Bool := 0xDC00 ≤ c.val && c.val ≤ 0xDFFF

/-- A high surrogate and the low one after it are one code point. -/
def joinSurrogates : List CodePoint → List CodePoint
  | [] => []
  | [c] => [c]
  | high :: low :: rest =>
    if isHigh high ∧ isLow low then
      codePoint (0x10000 + (high.val - 0xD800) * 0x400 + (low.val - 0xDC00)) :: joinSurrogates rest
    else high :: joinSurrogates (low :: rest)

/-- A minus sign, and the text after it. -/
def scanMinus : List Char → Bool × List Char
  | '-' :: rest => (true, rest)
  | text => (false, text)

/-- The digits of a whole number: a zero alone, or digits that do not begin with one. -/
def scanWhole : List Char → List Char × List Char
  | '0' :: rest => (['0'], rest)
  | text => (text.takeWhile Char.isDigit, text.dropWhile Char.isDigit)

/-- The digits after a point, if there is one and digits follow. -/
def scanFraction : List Char → Option (List Char) × List Char
  | '.' :: rest =>
    if rest.takeWhile Char.isDigit = [] then (none, '.' :: rest)
    else (some (rest.takeWhile Char.isDigit), rest.dropWhile Char.isDigit)
  | text => (none, text)

/-- A sign in an exponent, and the text after it. -/
def scanSign : List Char → Bool × List Char
  | '-' :: rest => (true, rest)
  | '+' :: rest => (false, rest)
  | text => (false, text)

/-- An exponent, if there is an `e` and digits follow. -/
def scanExponent : List Char → Option Int × List Char
  | [] => (none, [])
  | c :: rest =>
    if (c = 'e' ∨ c = 'E') ∧ (scanSign rest).2.takeWhile Char.isDigit ≠ [] then
      let size : Nat := Nat.ofDigitChars 10 ((scanSign rest).2.takeWhile Char.isDigit) 0
      (some (if (scanSign rest).1 then -size else size), (scanSign rest).2.dropWhile Char.isDigit)
    else (none, c :: rest)

/-- `sys.int_info.default_max_str_digits`. -/
def maxDigits : Nat := 4300

/-- The value of a number from its parts. -/
def numberOf (negative : Bool) (whole : List Char) (fraction : Option (List Char))
    (exponent : Option Int) : Except LoadsError Json :=
  if fraction = none ∧ exponent = none then
    if maxDigits < whole.length then .error .digits
    else
      let size : Nat := Nat.ofDigitChars 10 whole 0
      .ok (.int (if negative then -size else size))
  else
    .ok (.float (.ofDecimal negative (Nat.ofDigitChars 10 (whole ++ fraction.getD []) 0)
      (exponent.getD 0 - (fraction.getD []).length)))

def scanNumber : Scanner Json := fun text =>
  let (negative, text) := scanMinus text
  let (whole, text) := scanWhole text
  if whole = [] then .error .decode
  else
    let (fraction, text) := scanFraction text
    let (exponent, text) := scanExponent text
    (numberOf negative whole fraction exponent).map fun value => (value, text)

/-- The values that are words. -/
def words : List (String × Json) :=
  [("null", .null), ("true", .bool true), ("false", .bool false), ("NaN", .float .nan),
    ("Infinity", .float (.infinite false)), ("-Infinity", .float (.infinite true))]

/-- A word or a number. -/
def scanAtom : Scanner Json := fun text =>
  match words.find? fun word => word.1.toList.isPrefixOf text with
  | some word => .ok (word.2, text.drop word.1.length)
  | none => scanNumber text

variable (inner : Scanner Json)

/-- The items of an array from the first on. An item takes a character at least, so that the
    length of the text is fuel enough. -/
def scanItems : Nat → Scanner (List Json)
  | 0, _ => .error .decode
  | fuel + 1, text =>
    match inner text with
    | .error error => .error error
    | .ok (item, rest) =>
      match skip rest with
      | ']' :: rest => .ok ([item], rest)
      | ',' :: rest => (scanItems fuel (skip rest)).map fun read => (item :: read.1, read.2)
      | _ => .error .decode

/-- A name, the colon and the value. -/
def scanMember : Scanner (List CodePoint × Json)
  | '"' :: rest =>
    match scanText rest with
    | .error error => .error error
    | .ok (name, rest) =>
      match skip rest with
      | ':' :: rest =>
        (inner (skip rest)).map fun read => ((joinSurrogates name, read.1), read.2)
      | _ => .error .decode
  | _ => .error .decode

/-- The members of an object from the first on. -/
def scanMembers : Nat → Scanner (List (List CodePoint × Json))
  | 0, _ => .error .decode
  | fuel + 1, text =>
    match scanMember inner text with
    | .error error => .error error
    | .ok (member, rest) =>
      match skip rest with
      | '}' :: rest => .ok ([member], rest)
      | ',' :: rest => (scanMembers fuel (skip rest)).map fun read => (member :: read.1, read.2)
      | _ => .error .decode

/-- An array from after its bracket on. -/
def scanArray : Scanner Json := fun text =>
  match skip text with
  | ']' :: rest => .ok (.arr [], rest)
  | text => (scanItems inner text.length text).map fun read => (.arr read.1, read.2)

/-- An object from after its brace on. -/
def scanObject : Scanner Json := fun text =>
  match skip text with
  | '}' :: rest => .ok (.obj [], rest)
  | text => (scanMembers inner text.length text).map fun read => (.obj (ofPairs read.1), read.2)

/-- A value; `inner` reads the values in a container, and is none where no container may be
    entered any more. -/
def scanValue (inner : Option (Scanner Json)) : Scanner Json
  | [] => .error .decode
  | c :: rest =>
    if c = '"' then (scanText rest).map fun read => (.str (joinSurrogates read.1), read.2)
    else if c = '{' then inner.elim (.error .recursion) fun inner => scanObject inner rest
    else if c = '[' then inner.elim (.error .recursion) fun inner => scanArray inner rest
    else scanAtom (c :: rest)

/-- A value with at most `depth` containers around each other. -/
def scan : Nat → Scanner Json
  | 0 => scanValue none
  | depth + 1 => scanValue (some (scan depth))

/-- `json.loads`, where `limit` containers more may be entered. -/
def loads (limit : Nat) (text : List Char) : Except LoadsError Json :=
  if text.head? = some '\uFEFF' then .error .decode
  else
    match scan limit (skip text) with
    | .error error => .error error
    | .ok (value, rest) => if skip rest = [] then .ok value else .error .decode

end Json

end AgenticPlatform
