import Mathlib.Algebra.Order.Ring.Int
import Mathlib.Data.String.Basic

/-!
# Python values shared by the whole model

Times, identifiers, free-form values, exceptions, and the shape of a method call.
A method of a Python object may mutate the object and *then* raise, so a call is
modelled by `Call`: the receiver as the call leaves it, next to what the call
returned or raised. Nothing is rolled back by an exception; only a database
transaction does that.
-/

namespace AgenticPlatform

/-- A timezone-aware `datetime`, in microseconds since the epoch. -/
abbrev Instant := Int

/-- A `timedelta`, in microseconds. -/
abbrev Duration := Int

/-! ### Seconds as floats

`timestamp()` and `total_seconds()` are binary64 numbers, and the code multiplies them
by 1000 and truncates. Both roundings are computed here. -/

/-- The positive rational `num / den` rounded to a 53-bit significand, ties to even;
    `(m, e)` stands for `m * 2 ^ e`. -/
def roundDouble (num den : Nat) : Nat × Int :=
  let guess : Int := (Nat.log2 num : Int) - Nat.log2 den - 52
  let scale := fun e : Int => (num * 2 ^ (-e).toNat, den * 2 ^ e.toNat)
  let e := if (scale guess).1 < (scale guess).2 * 2 ^ 52 then guess - 1 else guess
  let (n, d) := scale e
  let q := n / d
  let r := n % d
  if d < 2 * r ∨ (d = 2 * r ∧ q % 2 = 1) then (q + 1, e) else (q, e)

/-- `int(delta.total_seconds() * 1000)`. -/
def wholeMillis (delta : Duration) : Int :=
  if delta = 0 then 0
  else
    let (m, e) := roundDouble delta.natAbs 1000000
    let (m, e) := roundDouble (m * 1000 * 2 ^ e.toNat) (2 ^ (-e).toNat)
    delta.sign * ((m * 2 ^ e.toNat / 2 ^ (-e).toNat : Nat) : Int)

/-! ### Counts that defaults and samples use -/

theorem count_one : 1 ≤ 1 := Nat.le_refl 1

theorem count_two : 1 ≤ 2 := by decide

theorem count_three : 1 ≤ 3 := by decide

/-! ### Text -/

/-- `str.isspace` for one character. -/
def isSpace (c : Char) : Bool :=
  let n := c.toNat
  (9 ≤ n && n ≤ 13) || (28 ≤ n && n ≤ 32) || n == 133 || n == 160 || n == 5760 ||
    (8192 ≤ n && n ≤ 8202) || n == 8232 || n == 8233 || n == 8239 || n == 8287 || n == 12288

theorem between_of_and {c : Char} {low high : UInt32}
    (h : (decide (c.val ≥ low) && decide (c.val ≤ high)) = true) :
    low.toNat ≤ c.toNat ∧ c.toNat ≤ high.toNat := by
  rw [Bool.and_eq_true_iff, decide_eq_true_eq, decide_eq_true_eq] at h
  exact ⟨UInt32.le_iff_toNat_le.mp h.1, UInt32.le_iff_toNat_le.mp h.2⟩

theorem isSpace_of_between {c : Char} (h : 33 ≤ c.toNat ∧ c.toNat ≤ 126) : isSpace c = false := by
  simp only [isSpace, Bool.or_eq_false_iff, Bool.and_eq_false_iff, decide_eq_false_iff_not,
    beq_eq_false_iff_ne]
  omega

/-- Letters and digits are printed characters. -/
theorem between_of_isAlphanum {c : Char} (h : c.isAlphanum = true) :
    33 ≤ c.toNat ∧ c.toNat ≤ 126 := by
  have hparts : (c.isUpper || c.isLower || c.isDigit) = true := h
  rw [Bool.or_eq_true, Bool.or_eq_true] at hparts
  rcases hparts with (hupper | hlower) | hdigit
  · have hrange : 65 ≤ c.toNat ∧ c.toNat ≤ 90 := of_decide_eq_true hupper
    omega
  · have hrange : 97 ≤ c.toNat ∧ c.toNat ≤ 122 := between_of_and hlower
    omega
  · have hrange : 48 ≤ c.toNat ∧ c.toNat ≤ 57 := between_of_and hdigit
    omega

/-- `not text.strip()`: nothing but white space. -/
def isBlank (text : String) : Bool := text.toList.all isSpace

/-- `text.strip()`. -/
def strip (text : String) : String :=
  String.ofList ((text.toList.dropWhile isSpace).reverse.dropWhile isSpace).reverse

/-! Texts are sorted by code point. -/

instance textOrder_trans : IsTrans String (· ≤ ·) := inferInstance

instance textOrder_antisymm : Std.Antisymm (α := String) (· ≤ ·) := inferInstance

/-! ### Identifiers -/

inductive IdKind where
  | project | run | job | worker | candidate | plan | task | review | workspace
deriving DecidableEq, Repr

/-- `EntityId`: a UUID tagged with the aggregate it names, so that a run id is
    never a job id. The UUID is its integer value. -/
structure EntityId (kind : IdKind) where
  value : Nat
deriving DecidableEq, Repr

instance EntityId.instLawfulBEq {kind : IdKind} : LawfulBEq (EntityId kind) := inferInstance

abbrev ProjectId := EntityId .project
abbrev RunId := EntityId .run
abbrev JobId := EntityId .job
abbrev WorkerId := EntityId .worker
abbrev CandidateId := EntityId .candidate
abbrev PlanId := EntityId .plan
abbrev TaskId := EntityId .task
abbrev ReviewId := EntityId .review
abbrev WorkspaceId := EntityId .workspace

def hexDigit (n : Nat) : Char :=
  if n < 10 then Char.ofNat (48 + n) else Char.ofNat (87 + n)

/-- The `i`-th of the 32 hexadecimal digits, most significant first. -/
def uuidDigit (value i : Nat) : Char := hexDigit (value / 16 ^ (31 - i) % 16)

/-- `str(uuid)`: lower-case hexadecimal in groups of 8-4-4-4-12. -/
def EntityId.chars {kind : IdKind} (id : EntityId kind) : List Char :=
  let digits := fun first count => (List.range' first count).map (uuidDigit id.value)
  digits 0 8 ++ '-' :: digits 8 4 ++ '-' :: digits 12 4 ++ '-' :: digits 16 4 ++
    '-' :: digits 20 12

@[simp] theorem EntityId.map_mk_value {kind : IdKind} (id : Option (EntityId kind)) :
    ((id.map EntityId.value).map EntityId.mk : Option (EntityId kind)) = id := by
  cases id <;> rfl

def EntityId.str {kind : IdKind} (id : EntityId kind) : String := String.ofList id.chars

theorem hexDigit_inj : ∀ m < 16, ∀ n < 16, hexDigit m = hexDigit n → m = n := by decide

/-- A number is determined by its hexadecimal digits. -/
theorem mod_pow_of_digits {m n : Nat} (count : Nat)
    (h : ∀ i < count, m / 16 ^ i % 16 = n / 16 ^ i % 16) : m % 16 ^ count = n % 16 ^ count := by
  induction count with
  | zero => simp [Nat.mod_one]
  | succ count ih =>
    rw [Nat.mod_pow_succ, Nat.mod_pow_succ, ih fun i hi => h i (Nat.lt_succ_of_lt hi),
      h count (Nat.lt_succ_self count)]

/-- A group of digits at the start of two equal texts. -/
theorem digits_of_group {f g : Nat → Char} {first count : Nat} {rest rest' : List Char}
    (h : (List.range' first count).map f ++ rest = (List.range' first count).map g ++ rest') :
    (∀ i, first ≤ i → i < first + count → f i = g i) ∧ rest = rest' := by
  obtain ⟨hdigits, hrest⟩ := List.append_inj h (by simp)
  refine ⟨fun i hlow hhigh => ?_, hrest⟩
  apply List.map_inj_left.mp hdigits i
  rw [List.mem_range'_1]
  exact ⟨hlow, hhigh⟩

theorem EntityId.uuidDigit_of_chars {kind : IdKind} {left right : EntityId kind}
    (h : left.chars = right.chars) {i : Nat} (hi : i < 32) :
    uuidDigit left.value i = uuidDigit right.value i := by
  simp only [EntityId.chars, List.append_assoc, List.cons_append] at h
  obtain ⟨hfirst, h⟩ := digits_of_group h
  obtain ⟨hsecond, h⟩ := digits_of_group (List.cons.inj h).2
  obtain ⟨hthird, h⟩ := digits_of_group (List.cons.inj h).2
  obtain ⟨hfourth, h⟩ := digits_of_group (List.cons.inj h).2
  have hlast := List.map_inj_left.mp (List.cons.inj h).2
  by_cases h8 : i < 8
  · exact hfirst i (Nat.zero_le i) h8
  · by_cases h12 : i < 12
    · exact hsecond i (by omega) h12
    · by_cases h16 : i < 16
      · exact hthird i (by omega) h16
      · by_cases h20 : i < 20
        · exact hfourth i (by omega) h20
        · apply hlast i
          rw [List.mem_range'_1]
          omega

/-- Two UUIDs with the same text are the same. -/
theorem EntityId.chars_inj {kind : IdKind} {left right : EntityId kind}
    (hleft : left.value < 2 ^ 128) (hright : right.value < 2 ^ 128)
    (h : left.chars = right.chars) : left = right := by
  have hmod : left.value % 16 ^ 32 = right.value % 16 ^ 32 := by
    apply mod_pow_of_digits
    intro i hi
    have hdigit := EntityId.uuidDigit_of_chars h (show 31 - i < 32 by omega)
    unfold uuidDigit at hdigit
    rw [show 31 - (31 - i) = i by omega] at hdigit
    exact hexDigit_inj _ (Nat.mod_lt _ (by decide)) _ (Nat.mod_lt _ (by decide)) hdigit
  have hpow : (16 : Nat) ^ 32 = 2 ^ 128 := by decide
  rw [hpow, Nat.mod_eq_of_lt hleft, Nat.mod_eq_of_lt hright] at hmod
  cases left
  cases right
  exact congrArg EntityId.mk hmod

/-! ### Free-form values -/

/-- The values a `Mapping[str, Any]` carries. A float is `mantissa * 2 ^ exponent`. -/
inductive PyValue where
  | none
  | bool (value : Bool)
  | int (value : Int)
  | float (mantissa exponent : Int)
  | str (value : String)
  | list (items : List PyValue)
  | dict (items : List (String × PyValue))

/-- `bool(value)`. -/
def PyValue.truthy : PyValue → Bool
  | .none => false
  | .bool b => b
  | .int n => n != 0
  | .float m _ => m != 0
  | .str s => s != ""
  | .list items => !items.isEmpty
  | .dict items => !items.isEmpty

abbrev Mapping := List (String × PyValue)

/-- `mapping.get(key, default)`. -/
def Mapping.get (mapping : Mapping) (key : String) (default : PyValue) : PyValue :=
  (List.lookup key mapping).getD default

/-! ### Exceptions -/

/-- The exceptions that cross the modelled code. Those raised outside it (by an
    agent, a tool, a driver) carry the text `str(exc)` they render to. -/
inductive PyError where
  | domainError (text : String)
  | entityNotFound (entity id : String)
  | invalidStateTransition (entity current requested : String)
  | jobLeaseExpired (jobId : JobId) (holder : Option WorkerId)
  | structuredOutput (text : String)
  | llmTimeout (text : String)
  | inference (text : String)
  | noCompatibleWorker (text : String)
  | toolExecution (text : String)
  | workspace (text : String)
  | planValidation (text : String)
  | valueError (text : String)
  | keyError (text : String)
  | staleData (text : String)
  | other (text : String)
deriving DecidableEq, Repr

/-- `repr` of a string without quotes or escapes in it. -/
def quoted (text : String) : String := "'" ++ text ++ "'"

/-- `str(exc)`: the message, then the sorted details of a `DomainError`. -/
def PyError.str : PyError → String
  | .domainError text => text
  | .entityNotFound entity id =>
      entity ++ " not found (entity=" ++ quoted entity ++ ", id=" ++ quoted id ++ ")"
  | .invalidStateTransition entity current requested =>
      entity ++ " cannot move from " ++ current ++ " to " ++ requested ++
        " (current=" ++ quoted current ++ ", entity=" ++ quoted entity ++
        ", requested=" ++ quoted requested ++ ")"
  | .jobLeaseExpired jobId holder =>
      "job lease has expired or is held by another worker (holder=" ++
        (match holder with
          | some worker => quoted worker.str
          | none => "None") ++ ", job_id=" ++ quoted jobId.str ++ ")"
  | .structuredOutput text => text
  | .llmTimeout text => text
  | .inference text => text
  | .noCompatibleWorker text => text
  | .toolExecution text => text
  | .workspace text => text
  | .planValidation text => text
  | .valueError text => text
  | .keyError text => text
  | .staleData text => text
  | .other text => text

def PyError.isInvalidStateTransition : PyError → Bool
  | .invalidStateTransition _ _ _ => true
  | _ => false

/-! ### Statements that may raise -/

section Raising

variable {α β : Type}

@[simp] theorem ok_bind (a : α) (f : α → Except PyError β) :
    ((.ok a : Except PyError α) >>= f) = f a := rfl

@[simp] theorem error_bind (e : PyError) (f : α → Except PyError β) :
    ((.error e : Except PyError α) >>= f) = .error e := rfl

@[simp] theorem pure_eq_ok (a : α) : (pure a : Except PyError α) = .ok a := rfl

/-- A sequence of statements returns when each of them does. -/
theorem bind_eq_ok {ε : Type} {x : Except ε α} {f : α → Except ε β} {b : β} :
    (x >>= f) = .ok b ↔ ∃ a, x = .ok a ∧ f a = .ok b := by
  cases x with
  | error e => simp [bind, Except.bind]
  | ok a => simp [bind, Except.bind]

theorem bind_eq_error {x : Except PyError α} {f : α → Except PyError β} {e : PyError} :
    (x >>= f) = .error e ↔ x = .error e ∨ ∃ a, x = .ok a ∧ f a = .error e := by
  cases x with
  | error e => simp
  | ok a => simp

end Raising

/-! ### Method calls -/

/-- A finished method call: the receiver afterwards, and the value returned or the
    exception raised. -/
structure Call (σ α : Type) where
  self : σ
  result : Except PyError α

namespace Call

variable {σ α : Type}

def returned (self : σ) (value : α) : Call σ α := ⟨self, .ok value⟩

def raised (self : σ) (error : PyError) : Call σ α := ⟨self, .error error⟩

/-- The receiver after a call that returned; the exception otherwise. -/
def after (call : Call σ α) : Except PyError σ :=
  match call.result with
  | .ok _ => .ok call.self
  | .error e => .error e

/-- Receiver and value of a call that returned. -/
def outcome (call : Call σ α) : Except PyError (σ × α) :=
  match call.result with
  | .ok value => .ok (call.self, value)
  | .error e => .error e

/-- The call without the value it returned. -/
def void (call : Call σ α) : Call σ Unit := ⟨call.self, call.result.map fun _ => ()⟩

@[simp] theorem self_void (call : Call σ α) : call.void.self = call.self := rfl

theorem error_of_void {call : Call σ α} {e : PyError} (h : call.void.result = .error e) :
    call.result = .error e := by
  unfold void at h
  cases hresult : call.result with
  | ok value =>
    rw [hresult] at h
    cases h
  | error e' =>
    rw [hresult] at h
    cases h
    rfl

@[simp] theorem after_returned (self : σ) (value : α) :
    (returned self value).after = .ok self := rfl

@[simp] theorem after_raised (self : σ) (error : PyError) :
    (raised self error : Call σ α).after = .error error := rfl

@[simp] theorem outcome_returned (self : σ) (value : α) :
    (returned self value).outcome = .ok (self, value) := rfl

@[simp] theorem outcome_raised (self : σ) (error : PyError) :
    (raised self error : Call σ α).outcome = .error error := rfl

@[simp] theorem self_returned (self : σ) (value : α) : (returned self value).self = self := rfl

@[simp] theorem self_raised (self : σ) (error : PyError) :
    (raised self error : Call σ α).self = self := rfl

@[simp] theorem result_returned (self : σ) (value : α) :
    (returned self value).result = .ok value := rfl

@[simp] theorem result_raised (self : σ) (error : PyError) :
    (raised self error : Call σ α).result = .error error := rfl

end Call

end AgenticPlatform
