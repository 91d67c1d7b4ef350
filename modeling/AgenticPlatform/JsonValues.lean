import AgenticPlatform.StrEnum

/-!
# Reading JSON objects

A decoded JSON object is a `Mapping`; reading a field of it takes the value at a key, or
a default, and fixes its type. Where the code would carry a value of another type along,
the readers raise `TypeError`: the objects that the platform writes hold no such value.
-/

namespace AgenticPlatform

def PyError.typeError (expected : String) : PyError := .other ("TypeError: expected " ++ expected)

namespace PyValue

def readInt : PyValue → Except PyError Int
  | .int n => .ok n
  | _ => .error (.typeError "an integer")

/-- An integer of which a constructor asks that it is not negative. -/
def readNat (field : String) : PyValue → Except PyError Nat
  | .int n => if 0 ≤ n then .ok n.toNat else .error (.valueError (field ++ " must not be negative"))
  | _ => .error (.typeError "an integer")

def readText : PyValue → Except PyError String
  | .str text => .ok text
  | _ => .error (.typeError "a string")

def readBool : PyValue → Except PyError Bool
  | .bool b => .ok b
  | _ => .error (.typeError "a boolean")

def readFloat : PyValue → Except PyError (Int × Int)
  | .float mantissa exponent => .ok (mantissa, exponent)
  | _ => .error (.typeError "a float")

def readDict : PyValue → Except PyError Mapping
  | .dict items => .ok items
  | _ => .error (.typeError "an object")

def readOptional {α : Type} (read : PyValue → Except PyError α) : PyValue → Except PyError (Option α)
  | .none => .ok Option.none
  | value => (read value).map some

def readList {α : Type} (read : PyValue → Except PyError α) : PyValue → Except PyError (List α)
  | .list items => items.mapM read
  | _ => .error (.typeError "a list")

/-- `value or {}`. -/
def orEmpty (value : PyValue) : PyValue := if value.truthy then value else .dict []

/-- An optional string, as JSON has it. -/
def ofText (text : Option String) : PyValue :=
  match text with
  | some text => .str text
  | Option.none => .none

def ofFloat (value : Option (Int × Int)) : PyValue :=
  match value with
  | some (mantissa, exponent) => .float mantissa exponent
  | Option.none => .none

def ofTexts (texts : List String) : PyValue := .list (texts.map .str)

@[simp] theorem readInt_int (n : Int) : (PyValue.int n).readInt = .ok n := rfl

@[simp] theorem readNat_natCast (field : String) (n : Nat) :
    (PyValue.int n).readNat field = .ok n := by
  simp [readNat]

@[simp] theorem readText_str (text : String) : (PyValue.str text).readText = .ok text := rfl

@[simp] theorem readBool_bool (b : Bool) : (PyValue.bool b).readBool = .ok b := rfl

@[simp] theorem readDict_dict (items : Mapping) : (PyValue.dict items).readDict = .ok items := rfl

@[simp] theorem readText_ofText (text : Option String) :
    readOptional readText (ofText text) = .ok text := by
  cases text <;> rfl

@[simp] theorem readFloat_ofFloat (value : Option (Int × Int)) :
    readOptional readFloat (ofFloat value) = .ok value := by
  cases value <;> rfl

@[simp] theorem readDict_orEmpty (items : Mapping) :
    (PyValue.dict items).orEmpty.readDict = .ok items := by
  cases items <;> rfl

/-- Reading a list back that was written value by value. -/
theorem readList_map {α : Type} {read : PyValue → Except PyError α} {write : α → PyValue}
    {values : List α} (h : ∀ value ∈ values, read (write value) = .ok value) :
    readList read (.list (values.map write)) = .ok values := by
  have hmap : (values.map write).mapM read = .ok values := by
    induction values with
    | nil => rfl
    | cons value rest ih =>
      rw [List.forall_mem_cons] at h
      rw [List.map_cons, List.mapM_cons, h.1, ih h.2]
      rfl
  exact hmap

@[simp] theorem readList_ofTexts (texts : List String) :
    readList readText (ofTexts texts) = .ok texts :=
  readList_map fun _ _ => rfl

end PyValue

/-- `mapping[key]`. -/
def Mapping.require (mapping : Mapping) (key : String) : Except PyError PyValue :=
  match List.lookup key mapping with
  | some value => .ok value
  | none => .error (.keyError (quoted key))

/-! ### Sets of roles -/

theorem StrEnum.value_inj {α : Type} [StrEnum α] {m n : α}
    (h : StrEnum.value m = StrEnum.value n) : m = n := by
  have hm := StrEnum.parse_value m
  rw [h, StrEnum.parse_value] at hm
  cases hm
  rfl

theorem AgentRole.mem_all (role : AgentRole) : role ∈ AgentRole.all := by
  cases role <;> decide

/-- `sorted(role.value for role in roles)`. -/
def roleTexts (roles : Finset AgentRole) : List String :=
  sortedTexts ((AgentRole.all.filter fun role => decide (role ∈ roles)).map AgentRole.value)

/-- `frozenset(AgentRole(role) for role in texts)`. -/
def readRoles (value : PyValue) : Except PyError (Finset AgentRole) :=
  (PyValue.readList (fun text => text.readText >>= StrEnum.parse AgentRole) value).map List.toFinset

theorem mem_roleTexts {roles : Finset AgentRole} {text : String} :
    text ∈ roleTexts roles ↔ ∃ role ∈ roles, role.value = text := by
  unfold roleTexts sortedTexts
  rw [List.mem_mergeSort]
  simp [AgentRole.mem_all]

/-- The set survives its sorted list. -/
@[simp] theorem readRoles_roleTexts (roles : Finset AgentRole) :
    readRoles (.ofTexts (roleTexts roles)) = .ok roles := by
  have hparse : ∀ texts : List String, (∀ text ∈ texts, ∃ role : AgentRole, role.value = text) →
      ∃ parsed : List AgentRole, (texts.map PyValue.str).mapM (fun text =>
        text.readText >>= StrEnum.parse AgentRole) = .ok parsed ∧ parsed.map AgentRole.value = texts := by
    intro texts h
    induction texts with
    | nil => exact ⟨[], rfl, rfl⟩
    | cons text rest ih =>
      rw [List.forall_mem_cons] at h
      obtain ⟨⟨role, rfl⟩, hrest⟩ := h
      obtain ⟨parsed, hparsed, hvalues⟩ := ih hrest
      have hrole : StrEnum.parse AgentRole role.value = .ok role := StrEnum.parse_value role
      refine ⟨role :: parsed, ?_, by rw [List.map_cons, hvalues]⟩
      rw [List.map_cons, List.mapM_cons, PyValue.readText_str, ok_bind, hrole, ok_bind, hparsed]
      rfl
  obtain ⟨parsed, hparsed, hvalues⟩ := hparse (roleTexts roles) fun text htext => by
    obtain ⟨role, -, hrole⟩ := mem_roleTexts.mp htext
    exact ⟨role, hrole⟩
  have hsame : parsed.toFinset = roles := by
    ext role
    have hmem : role.value ∈ parsed.map AgentRole.value ↔ role ∈ parsed := by
      constructor
      · intro h
        obtain ⟨other, hother, hvalue⟩ := List.mem_map.mp h
        have hsame : other = role := StrEnum.value_inj hvalue
        rwa [← hsame]
      · exact List.mem_map_of_mem
    rw [List.mem_toFinset, ← hmem, hvalues, mem_roleTexts]
    constructor
    · rintro ⟨other, hother, hvalue⟩
      have hsame : other = role := StrEnum.value_inj hvalue
      rwa [← hsame]
    · exact fun h => ⟨role, h, rfl⟩
  have hlist : PyValue.readList (fun text => text.readText >>= StrEnum.parse AgentRole)
      (.ofTexts (roleTexts roles)) = .ok parsed := hparsed
  rw [readRoles, hlist, ← hsame]
  rfl

end AgenticPlatform
