import AgenticPlatform.JsonText

/-!
# What a client sees of an event

`public_payload` drops the keys that a client must not see, at every depth, and cuts texts that
are too long. `str.lower` is left open.
-/

namespace AgenticPlatform

/-! ### Parts of a value -/

/-- One step into a value. -/
inductive PathStep where
  | key (name : String)
  | index (position : Nat)
deriving DecidableEq, Repr

namespace PyValue

def child : PyValue → PathStep → Option PyValue
  | .dict items, .key name => List.lookup name items
  | .list items, .index position => items[position]?
  | _, _ => Option.none

/-- The part of a value that a path leads to. -/
def at? (value : PyValue) : List PathStep → Option PyValue
  | [] => some value
  | step :: path => (value.child step).bind fun part => part.at? path

end PyValue

namespace PublicPayload

/-- `_HIDDEN_KEYS`. -/
def hiddenKeys : List String :=
  ["chain_of_thought", "completion", "messages", "prompt", "prompts", "raw_output",
    "raw_response", "reasoning", "scratchpad", "thinking", "thought", "tokens_text"]

/-- `_MAX_STRING_LENGTH`. -/
def maxStringLength : Nat := 2000

/-- `_TRUNCATION_SUFFIX`. -/
def truncationSuffix : String := "…[truncated]"

def boundText (text : String) : String :=
  if text.length > maxStringLength then
    String.ofList (text.toList.take maxStringLength) ++ truncationSuffix
  else text

variable (lower : String → String)

def isHidden (name : String) : Bool := hiddenKeys.contains (lower name)

mutual

/-- `_bound`. -/
def bound : PyValue → PyValue
  | .str text => .str (boundText text)
  | .dict items => .dict (boundEntries items)
  | .list items => .list (boundItems items)
  | value => value

def boundItems : List PyValue → List PyValue
  | [] => []
  | item :: rest => bound item :: boundItems rest

def boundEntries : List (String × PyValue) → List (String × PyValue)
  | [] => []
  | (name, value) :: rest =>
    if isHidden lower name then boundEntries rest else (name, bound value) :: boundEntries rest

end

/-- `public_payload`. -/
def publicPayload (payload : Mapping) : Mapping :=
  (payload.filter fun entry => !isHidden lower entry.1).map fun entry =>
    (entry.1, bound lower entry.2)

variable {lower} {value part : PyValue} {items : List PyValue} {entries payload : Mapping}
  {name : String} {path : List PathStep}

theorem boundItems_eq (items : List PyValue) : boundItems lower items = items.map (bound lower) := by
  induction items with
  | nil => rw [boundItems, List.map_nil]
  | cons item rest ih => rw [boundItems, List.map_cons, ih]

/-- The two places where entries are filtered do the same. -/
theorem boundEntries_eq (entries : Mapping) :
    boundEntries lower entries = publicPayload lower entries := by
  induction entries with
  | nil => rfl
  | cons entry rest ih =>
    rcases entry with ⟨name, value⟩
    rw [boundEntries, ih, publicPayload, publicPayload, List.filter_cons]
    rcases isHidden lower name with - | -
    · rfl
    · rfl

theorem bound_dict (payload : Mapping) :
    bound lower (.dict payload) = .dict (publicPayload lower payload) := by
  rw [bound, boundEntries_eq]

theorem bound_list (items : List PyValue) :
    bound lower (.list items) = .list (items.map (bound lower)) := by
  rw [bound, boundItems_eq]

/-! ### Looking into a public payload -/

/-- No key on the way is hidden. -/
def Visible (lower : String → String) (path : List PathStep) : Prop :=
  ∀ name, PathStep.key name ∈ path → isHidden lower name = false

theorem publicPayload_cons (name : String) (value : PyValue) (rest : Mapping) :
    publicPayload lower ((name, value) :: rest) =
      if isHidden lower name then publicPayload lower rest
      else (name, bound lower value) :: publicPayload lower rest := by
  rw [← boundEntries_eq, boundEntries, boundEntries_eq]

theorem lookup_publicPayload (lower : String → String) (name : String) (payload : Mapping) :
    List.lookup name (publicPayload lower payload) =
      if isHidden lower name then none else (List.lookup name payload).map (bound lower) := by
  induction payload with
  | nil =>
    rw [publicPayload, List.filter_nil, List.map_nil, List.lookup_nil, Option.map_none, ite_self]
  | cons entry rest ih =>
    rcases entry with ⟨other, value⟩
    rw [publicPayload_cons, List.lookup_cons]
    rcases hsame : name == other with - | -
    · rw [← ih]
      split
      · rfl
      · rw [List.lookup_cons, hsame]
    · rw [← beq_iff_eq.mp hsame]
      split
      · rename_i hhidden
        rw [ih, if_pos hhidden]
      · rw [List.lookup_cons, beq_self_eq_true]
        rfl

theorem visible_cons {step : PathStep} : Visible lower (step :: path) ↔
    (∀ name, step = .key name → isHidden lower name = false) ∧ Visible lower path := by
  constructor
  · intro h
    exact ⟨fun name hstep => h name (hstep ▸ List.mem_cons_self),
      fun name hname => h name (List.mem_cons_of_mem step hname)⟩
  · rintro ⟨hstep, hpath⟩ name hname
    rcases List.mem_cons.mp hname with heq | hmem
    · exact hstep name heq.symm
    · exact hpath name hmem

theorem child_bound {step : PathStep} (hstep : ∀ name, step = .key name → isHidden lower name = false)
    (value : PyValue) : (bound lower value).child step = (value.child step).map (bound lower) := by
  rcases value with - | b | n | ⟨m, e⟩ | text | items | entries
  case list =>
    rw [bound_list]
    rcases step with name | position
    · rfl
    · exact List.getElem?_map
  case dict =>
    rw [bound_dict]
    rcases step with name | position
    · have hlookup := lookup_publicPayload lower name entries
      rw [hstep name rfl, if_neg nofun] at hlookup
      exact hlookup
    · rfl
  all_goals rfl

theorem not_hidden_of_child {step : PathStep} (h : (bound lower value).child step = some part) :
    ∀ name, step = .key name → isHidden lower name = false := by
  rintro name rfl
  rcases value with - | b | n | ⟨m, e⟩ | text | items | entries
  case dict =>
    rw [bound_dict, PyValue.child, lookup_publicPayload] at h
    rcases hhidden : isHidden lower name with - | -
    · rfl
    · rw [hhidden, if_pos rfl] at h
      cases h
  case list =>
    rw [bound_list] at h
    cases h
  all_goals cases h

/-- Whatever a client can see was there, nothing hidden led to it, and it is the bounded part. -/
theorem at?_bound_iff : (bound lower value).at? path = some part ↔
    Visible lower path ∧ ∃ before, value.at? path = some before ∧ part = bound lower before := by
  induction path generalizing value with
  | nil =>
    rw [PyValue.at?, PyValue.at?]
    constructor
    · intro h
      exact ⟨nofun, value, rfl, (Option.some.inj h).symm⟩
    · rintro ⟨-, before, hbefore, hpart⟩
      rw [hpart, ← Option.some.inj hbefore]
  | cons step path ih =>
    rw [PyValue.at?, PyValue.at?, visible_cons, Option.bind_eq_some_iff]
    constructor
    · rintro ⟨next, hchild, hpath⟩
      have hstep := not_hidden_of_child hchild
      rw [child_bound hstep, Option.map_eq_some_iff] at hchild
      rcases hchild with ⟨before, hbefore, rfl⟩
      rcases ih.mp hpath with ⟨hvisible, whole, hwhole, hpart⟩
      refine ⟨⟨hstep, hvisible⟩, whole, ?_, hpart⟩
      rw [hbefore, Option.bind_some, hwhole]
    · rintro ⟨⟨hstep, hvisible⟩, whole, hwhole, hpart⟩
      rcases Option.bind_eq_some_iff.mp hwhole with ⟨before, hbefore, hrest⟩
      refine ⟨bound lower before, ?_, ih.mpr ⟨hvisible, whole, hrest, hpart⟩⟩
      rw [child_bound hstep, hbefore, Option.map_some]

/-! ### What is kept -/

/-- The part is kept, apart from what is hidden in it and from the end of a text that is too
    long. -/
def Kept (lower : String → String) : PyValue → PyValue → Prop
  | .str text, after => text.length ≤ maxStringLength → after = .str text
  | .list items, after => ∃ items', after = .list items' ∧ items'.length = items.length
  | .dict entries, after => ∃ entries', after = .dict entries' ∧
      entries'.map Prod.fst = (entries.map Prod.fst).filter fun name => !isHidden lower name
  | before, after => after = before

theorem kept_bound (value : PyValue) : Kept lower value (bound lower value) := by
  rcases value with - | b | n | ⟨m, e⟩ | text | items | entries
  case str =>
    intro hshort
    rw [bound, boundText, if_neg (Nat.not_lt_of_le hshort)]
  case list =>
    rw [bound_list]
    exact ⟨_, rfl, List.length_map _⟩
  case dict =>
    rw [bound_dict]
    refine ⟨_, rfl, ?_⟩
    rw [publicPayload, List.map_map, List.filter_map]
    rfl
  all_goals rfl

/-- At no depth is there a hidden key, or a text of more than `limit` characters. -/
inductive Within (lower : String → String) (limit : Nat) : PyValue → Prop
  | none : Within lower limit .none
  | bool (b : Bool) : Within lower limit (.bool b)
  | int (n : Int) : Within lower limit (.int n)
  | float (mantissa exponent : Int) : Within lower limit (.float mantissa exponent)
  | str {text : String} (h : text.length ≤ limit) : Within lower limit (.str text)
  | list {items : List PyValue} (h : ∀ item ∈ items, Within lower limit item) :
      Within lower limit (.list items)
  | dict {entries : Mapping} (hkeys : ∀ entry ∈ entries, isHidden lower entry.1 = false)
      (h : ∀ entry ∈ entries, Within lower limit entry.2) : Within lower limit (.dict entries)

/-- What nothing is to be taken from stays as it is. -/
theorem bound_of_within (h : Within lower maxStringLength value) : bound lower value = value := by
  induction h with
  | none | bool | int | float => rfl
  | str hshort => rw [bound, boundText, if_neg (Nat.not_lt_of_le hshort)]
  | list hitems ih =>
    rw [bound_list, List.map_congr_left ih, List.map_id']
  | dict hkeys hvalues ih =>
    rw [bound_dict, publicPayload, List.filter_eq_self.mpr ?_, List.map_congr_left ?_, List.map_id']
    · intro entry hentry
      rw [ih entry hentry]
    · intro entry hentry
      rw [hkeys entry hentry]
      rfl

theorem boundText_length (text : String) :
    (boundText text).length ≤ maxStringLength + truncationSuffix.length := by
  rw [boundText]
  split
  · rw [String.length_append, String.length_ofList]
    exact Nat.add_le_add_right (List.length_take_le _ _) _
  · rename_i hshort
    exact Nat.le_add_right_of_le (Nat.le_of_not_lt hshort)

mutual

/-- **Nothing hidden and nothing longer than the bound is left, at any depth.** -/
theorem within_bound : ∀ value : PyValue,
    Within lower (maxStringLength + truncationSuffix.length) (bound lower value)
  | .none => .none
  | .bool b => .bool b
  | .int n => .int n
  | .float mantissa exponent => .float mantissa exponent
  | .str text => .str (boundText_length text)
  | .list items => .list (within_boundItems items)
  | .dict entries => .dict (fun entry hentry => (within_boundEntries entries entry hentry).1)
      fun entry hentry => (within_boundEntries entries entry hentry).2

theorem within_boundItems : ∀ items : List PyValue, ∀ item ∈ boundItems lower items,
    Within lower (maxStringLength + truncationSuffix.length) item
  | [], _, h => by cases h
  | first :: rest, item, h => by
    rcases List.mem_cons.mp h with rfl | hrest
    · exact within_bound first
    · exact within_boundItems rest item hrest

theorem within_boundEntries : ∀ entries : Mapping, ∀ entry ∈ boundEntries lower entries,
    isHidden lower entry.1 = false ∧
      Within lower (maxStringLength + truncationSuffix.length) entry.2
  | [], _, h => by cases h
  | (name, value) :: rest, entry, h => by
    rw [boundEntries] at h
    rcases hhidden : isHidden lower name with - | -
    · rw [hhidden, if_neg nofun] at h
      rcases List.mem_cons.mp h with rfl | hrest
      · exact ⟨hhidden, within_bound value⟩
      · exact within_boundEntries rest entry hrest
    · rw [hhidden, if_pos rfl] at h
      exact within_boundEntries rest entry h

end

/-- What a client sees of an event's payload. -/
structure Shows (lower : String → String) (payload shown : Mapping) : Prop where
  within : Within lower (maxStringLength + truncationSuffix.length) (.dict shown)
  keeps : ∀ path part, Visible lower path → (PyValue.dict payload).at? path = some part →
    ∃ after, (PyValue.dict shown).at? path = some after ∧ Kept lower part after ∧
      (Within lower maxStringLength part → after = part)
  brings : ∀ path after, (PyValue.dict shown).at? path = some after →
    Visible lower path ∧ ∃ part, (PyValue.dict payload).at? path = some part

/-- **A public payload hides what it has to, and keeps the rest.** -/
theorem publicPayload_shows (lower : String → String) (payload : Mapping) :
    Shows lower payload (publicPayload lower payload) := by
  constructor
  · rw [← bound_dict]
    exact within_bound _
  · intro path part hvisible hpart
    rw [← bound_dict]
    exact ⟨bound lower part, at?_bound_iff.mpr ⟨hvisible, part, hpart, rfl⟩, kept_bound part,
      bound_of_within⟩
  · intro path after hafter
    rw [← bound_dict] at hafter
    rcases at?_bound_iff.mp hafter with ⟨hvisible, part, hpart, -⟩
    exact ⟨hvisible, part, hpart⟩

end PublicPayload

end AgenticPlatform
