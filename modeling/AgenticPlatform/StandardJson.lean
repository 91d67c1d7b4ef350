import AgenticPlatform.JsonTruncation
import AgenticPlatform.JsonText

/-!
# The standard library's JSON

What a mapping is as a document, and the codec that `json.dumps(.., sort_keys=True)` and
`json.loads` are: a mapping that can be written survives its text.
-/

namespace AgenticPlatform

open Utf8 (CodePoint codePoints val_ofNat_toNat isSurrogate_ofNat_toNat)

/-! ### Texts and their code points -/

/-- A code point that is a character. -/
def charOf (c : CodePoint) : Option Char :=
  if Utf8.isSurrogate c then none else some (Char.ofNat c.val)

/-- The text of code points without a surrogate. -/
def textOf (text : List CodePoint) : Option String := (text.mapM charOf).map String.ofList

section Texts

theorem charOf_ofNat_toNat (c : Char) : charOf (Fin.ofNat 0x110000 c.toNat) = some c := by
  rw [charOf, isSurrogate_ofNat_toNat, val_ofNat_toNat, Char.ofNat_toNat]
  rfl

/-- **A text is what its code points stand for.** -/
theorem textOf_codePoints (text : String) : textOf (codePoints text) = some text := by
  have hchars : ∀ chars : List Char,
      (chars.map fun c => Fin.ofNat 0x110000 c.toNat).mapM charOf = some chars := by
    intro chars
    induction chars with
    | nil => rfl
    | cons c chars ih =>
      rw [List.map_cons, List.mapM_cons, charOf_ofNat_toNat, ih]
      rfl
  rw [textOf, codePoints, hchars, Option.map_some, String.ofList_toList]

theorem codePoints_injective : Function.Injective codePoints := by
  intro left right heq
  have hread := congrArg textOf heq
  rw [textOf_codePoints, textOf_codePoints] at hread
  exact Option.some.inj hread

/-- No surrogate stands in the code points of a text, so no pair of them does. -/
theorem unpaired_codePoints (text : String) : Json.Unpaired (codePoints text) := by
  have hpairwise : (codePoints text).Pairwise fun c d => ¬ (Json.isHigh c = true ∧ Json.isLow d = true) := by
    apply List.pairwise_of_forall_mem_list
    rintro c hc d - ⟨hhigh, -⟩
    have hnone := Utf8.hasEncoding_codePoints text c hc
    rw [Json.isHigh, Bool.and_eq_true, decide_eq_true_iff, decide_eq_true_iff] at hhigh
    rw [Utf8.isSurrogate, Bool.and_eq_false_iff, decide_eq_false_iff_not, decide_eq_false_iff_not] at hnone
    omega
  exact hpairwise.isChain

end Texts

/-! ### Values and documents -/

mutual

/-- What a value is in a document. -/
def PyValue.toJson : PyValue → Json
  | .none => .null
  | .bool b => .bool b
  | .int n => .int n
  | .float mantissa exponent => .float (.finite (decide (mantissa < 0)) (mantissa.natAbs, exponent))
  | .str text => .str (codePoints text)
  | .list items => .arr (itemsToJson items)
  | .dict items => .obj (entriesToJson items)

def itemsToJson : List PyValue → List Json
  | [] => []
  | item :: rest => item.toJson :: itemsToJson rest

def entriesToJson : List (String × PyValue) → List (List CodePoint × Json)
  | [] => []
  | (key, value) :: rest => (codePoints key, value.toJson) :: entriesToJson rest

end

mutual

/-- The value of a document, if no text in it has a lone surrogate and every double is finite. -/
def PyValue.ofJson : Json → Option PyValue
  | .null => some .none
  | .bool b => some (.bool b)
  | .int n => some (.int n)
  | .float (.finite negative number) => some (.float (if negative then -number.1 else number.1) number.2)
  | .float _ => Option.none
  | .str text => (textOf text).map .str
  | .arr items => (itemsOfJson items).map .list
  | .obj entries => (entriesOfJson entries).map .dict

def itemsOfJson : List Json → Option (List PyValue)
  | [] => some []
  | item :: rest => do return (← PyValue.ofJson item) :: (← itemsOfJson rest)

def entriesOfJson : List (List CodePoint × Json) → Option (List (String × PyValue))
  | [] => some []
  | (key, value) :: rest => do return (← textOf key, ← PyValue.ofJson value) :: (← entriesOfJson rest)

end

section Values

theorem itemsToJson_eq (items : List PyValue) : itemsToJson items = items.map PyValue.toJson := by
  induction items with
  | nil => rw [itemsToJson, List.map_nil]
  | cons item rest ih => rw [itemsToJson, ih, List.map_cons]

theorem entriesToJson_eq (items : Mapping) :
    entriesToJson items = items.map fun entry => (codePoints entry.1, entry.2.toJson) := by
  induction items with
  | nil => rw [entriesToJson, List.map_nil]
  | cons entry rest ih => rw [entriesToJson, ih, List.map_cons]

mutual

/-- **A value is what its document stands for.** -/
theorem PyValue.ofJson_toJson : ∀ value : PyValue, PyValue.ofJson value.toJson = some value
  | .none | .bool _ | .int _ => by rw [PyValue.toJson, PyValue.ofJson]
  | .float mantissa exponent => by
    have hsigned : (if decide (mantissa < 0) = true then -(mantissa.natAbs : Int) else mantissa.natAbs) =
        mantissa := by
      by_cases hnegative : mantissa < 0
      · rw [if_pos (decide_eq_true hnegative)]
        omega
      · rw [if_neg (by rw [decide_eq_true_iff]; exact hnegative)]
        omega
    rw [PyValue.toJson, PyValue.ofJson, hsigned]
  | .str text => by rw [PyValue.toJson, PyValue.ofJson, textOf_codePoints, Option.map_some]
  | .list items => by rw [PyValue.toJson, PyValue.ofJson, itemsOfJson_itemsToJson items, Option.map_some]
  | .dict items => by rw [PyValue.toJson, PyValue.ofJson, entriesOfJson_entriesToJson items, Option.map_some]

theorem itemsOfJson_itemsToJson : ∀ items : List PyValue, itemsOfJson (itemsToJson items) = some items
  | [] => by rw [itemsToJson, itemsOfJson]
  | item :: rest => by
    rw [itemsToJson, itemsOfJson, PyValue.ofJson_toJson item, itemsOfJson_itemsToJson rest]
    rfl

theorem entriesOfJson_entriesToJson : ∀ items : Mapping, entriesOfJson (entriesToJson items) = some items
  | [] => by rw [entriesToJson, entriesOfJson]
  | (key, value) :: rest => by
    rw [entriesToJson, entriesOfJson, textOf_codePoints, PyValue.ofJson_toJson value,
      entriesOfJson_entriesToJson rest]
    rfl

end

end Values

/-- A whole number with no more digits than `int` reads. -/
def FewDigits (n : Int) : Prop := (Nat.toDigits 10 n.natAbs).length ≤ Json.maxDigits

instance (n : Int) : Decidable (FewDigits n) := inferInstanceAs (Decidable (_ ≤ _))

/-! ### Sorted keys -/

section Sorted

open Json (Writable depth depthItems depthEntries)

variable {repr : Binary64 → List Char} {d : Nat}

theorem writable_dict {items : Mapping} : Writable repr (PyValue.dict items).toJson ↔
    (items.map Prod.fst).Nodup ∧ ∀ entry ∈ items, Writable repr entry.2.toJson := by
  have hkeys : ((entriesToJson items).map Prod.fst) = (items.map Prod.fst).map codePoints := by
    rw [entriesToJson_eq, List.map_map, List.map_map]
    rfl
  rw [PyValue.toJson, Writable, Json.writableEntries_iff, hkeys, List.nodup_map_iff codePoints_injective,
    entriesToJson_eq, List.forall_mem_map]
  apply and_congr_right
  intro _
  apply forall₂_congr
  intro entry _
  exact and_iff_right (unpaired_codePoints entry.1)

theorem writable_list {items : List PyValue} : Writable repr (PyValue.list items).toJson ↔
    ∀ item ∈ items, Writable repr item.toJson := by
  rw [PyValue.toJson, Writable, Json.writableItems_iff, itemsToJson_eq, List.forall_mem_map]

theorem depth_dict {items : Mapping} : depth (PyValue.dict items).toJson ≤ d + 1 ↔
    ∀ entry ∈ items, depth entry.2.toJson ≤ d := by
  rw [PyValue.toJson, depth, Nat.add_le_add_iff_right, Json.depthEntries_le, entriesToJson_eq,
    List.forall_mem_map]

theorem depth_list {items : List PyValue} : depth (PyValue.list items).toJson ≤ d + 1 ↔
    ∀ item ∈ items, depth item.toJson ≤ d := by
  rw [PyValue.toJson, depth, Nat.add_le_add_iff_right, Json.depthItems_le, itemsToJson_eq, List.forall_mem_map]

/-- What the standard library can write and read back: `d` containers around each other at most. -/
def PyValue.Storable (repr : Binary64 → List Char) (d : Nat) (value : PyValue) : Prop :=
  Writable repr value.toJson ∧ depth value.toJson ≤ d

theorem storable_list {items : List PyValue} : (PyValue.list items).Storable repr (d + 1) ↔
    ∀ item ∈ items, item.Storable repr d := by
  rw [PyValue.Storable, writable_list, depth_list, ← forall₂_and]
  exact Iff.rfl

theorem storable_dict {items : Mapping} : (PyValue.dict items).Storable repr (d + 1) ↔
    (items.map Prod.fst).Nodup ∧ ∀ entry ∈ items, entry.2.Storable repr d := by
  rw [PyValue.Storable, writable_dict, depth_dict, and_assoc, ← forall₂_and]
  exact Iff.rfl

theorem storable_none : PyValue.none.Storable repr d := by
  simp [PyValue.Storable, PyValue.toJson, Writable, depth]

theorem storable_bool (b : Bool) : (PyValue.bool b).Storable repr d := by
  simp [PyValue.Storable, PyValue.toJson, Writable, depth]

theorem storable_str (text : String) : (PyValue.str text).Storable repr d := by
  simp [PyValue.Storable, PyValue.toJson, Writable, depth, unpaired_codePoints]

theorem storable_int {n : Int} (h : (Nat.toDigits 10 n.natAbs).length ≤ Json.maxDigits) :
    (PyValue.int n).Storable repr d := by
  simp [PyValue.Storable, PyValue.toJson, Writable, depth, h]

theorem storable_ofText (text : Option String) : (PyValue.ofText text).Storable repr d := by
  cases text with
  | none => exact storable_none
  | some text => exact storable_str text

theorem storable_ofTexts (texts : List String) : (PyValue.ofTexts texts).Storable repr (d + 1) := by
  rw [PyValue.ofTexts, storable_list, List.forall_mem_map]
  exact fun text _ => storable_str text

theorem Mapping.keys_canonical (items : Mapping) :
    (items.canonical.map Prod.fst).Perm (items.map Prod.fst) := by
  have hkeys : (canonicalEntries items).map Prod.fst = items.map Prod.fst := by
    rw [canonicalEntries_eq, List.map_map]
    rfl
  rw [← hkeys]
  exact (List.mergeSort_perm _ _).map Prod.fst

mutual

/-- Sorting the keys changes nothing about what can be written. -/
theorem PyValue.storable_canonical : ∀ (value : PyValue) (d : Nat), value.Storable repr d →
    value.canonical.Storable repr d
  | .none, _, h | .bool _, _, h | .int _, _, h | .float _ _, _, h | .str _, _, h => by
    rw [PyValue.canonical]
    exact h
  | .list items, 0, h => by
    have hdepth := h.2
    rw [PyValue.toJson, depth] at hdepth
    omega
  | .list items, d + 1, h => by
    rw [PyValue.canonical, storable_list]
    exact storable_canonicalItems items d (storable_list.mp h)
  | .dict items, 0, h => by
    have hdepth := h.2
    rw [PyValue.toJson, depth] at hdepth
    omega
  | .dict items, d + 1, h => by
    rw [storable_dict] at h
    rw [PyValue.canonical_dict, storable_dict]
    refine ⟨(Mapping.keys_canonical items).nodup_iff.mpr h.1, ?_⟩
    intro entry hentry
    exact storable_canonicalEntries items d h.2 entry (List.mem_mergeSort.mp hentry)

theorem storable_canonicalItems : ∀ (items : List PyValue) (d : Nat), (∀ item ∈ items, item.Storable repr d) →
    ∀ item ∈ canonicalItems items, item.Storable repr d
  | [], _, _, _, h => by
    rw [canonicalItems] at h
    cases h
  | first :: rest, d, hitems, item, h => by
    rw [List.forall_mem_cons] at hitems
    rw [canonicalItems, List.mem_cons] at h
    rcases h with rfl | hrest
    · exact PyValue.storable_canonical first d hitems.1
    · exact storable_canonicalItems rest d hitems.2 item hrest

theorem storable_canonicalEntries : ∀ (items : Mapping) (d : Nat), (∀ entry ∈ items, entry.2.Storable repr d) →
    ∀ entry ∈ canonicalEntries items, entry.2.Storable repr d
  | [], _, _, _, h => by
    rw [canonicalEntries] at h
    cases h
  | (key, value) :: rest, d, hitems, entry, h => by
    rw [List.forall_mem_cons] at hitems
    rw [canonicalEntries, List.mem_cons] at h
    rcases h with rfl | hrest
    · exact PyValue.storable_canonical value d hitems.1
    · exact storable_canonicalEntries rest d hitems.2 entry hrest

end

end Sorted

/-! ### The codec -/

/-- What `json.loads` raises, as an exception of the platform; a value with a lone surrogate or
    with a double that is not finite is none that the platform's mappings are made of. -/
def loadedValue : Except Json.LoadsError Json → Except PyError PyValue
  | .error .decode => .error (.valueError "JSONDecodeError")
  | .error .digits => .error (.valueError "Exceeds the limit for integer string conversion")
  | .error .recursion => .error (.other "RecursionError")
  | .ok value =>
    match PyValue.ofJson value with
    | some value => .ok value
    | none => .error (.other "not a value of the model")

/-- `json.dumps(.., sort_keys=True)` in a layout, and `json.loads` where `limit` containers may be
    entered. -/
def standardJson (layout : Json.Layout) (repr : Binary64 → List Char) (limit : Nat) : JsonCodec where
  dumps mapping := String.ofList (Json.write layout repr 0 (PyValue.dict mapping.canonical).toJson)
  loads text := loadedValue (Json.loads limit text.toList)

section Codec

variable {layout : Json.Layout} {repr : Binary64 → List Char} {limit : Nat} {mapping : Mapping}

/-- The text of a mapping, with blanks around it, is read as the mapping with sorted keys. -/
theorem loads_dumps (h : (PyValue.dict mapping).Storable repr limit) {before after : List Char}
    (hbefore : Json.Blank before) (hafter : Json.Blank after) :
    (standardJson layout repr limit).loads (String.ofList before ++
      (standardJson layout repr limit).dumps mapping ++ String.ofList after) =
        .ok (.dict mapping.canonical) := by
  have hsorted := PyValue.storable_canonical _ _ h
  rw [PyValue.canonical_dict] at hsorted
  have hread : Json.loads limit (before ++ Json.write layout repr 0 (PyValue.dict mapping.canonical).toJson ++
      after) = .ok (PyValue.dict mapping.canonical).toJson :=
    Json.loads_write hsorted.1 hsorted.2 0 hbefore hafter
  simp only [standardJson, String.toList_append, String.toList_ofList, hread, loadedValue,
    PyValue.ofJson_toJson]

theorem dumps_nonempty (h : (PyValue.dict mapping).Storable repr limit) :
    (standardJson layout repr limit).dumps mapping ≠ "" := by
  have hsorted := PyValue.storable_canonical _ _ h
  rw [PyValue.canonical_dict] at hsorted
  obtain ⟨c, more, hhead, -⟩ := @Json.write_head layout repr _ hsorted.1 0 []
  rw [List.append_nil] at hhead
  intro hempty
  have hchars := congrArg String.toList hempty
  rw [standardJson, String.toList_ofList, hhead] at hchars
  cases hchars

/-- **A mapping that can be written survives its text.** -/
theorem representable_of_storable (h : (PyValue.dict mapping).Storable repr limit) :
    (standardJson layout repr limit).Representable mapping := by
  have hread := @loads_dumps layout repr limit mapping h [] [] (List.forall_mem_nil _) (List.forall_mem_nil _)
  rw [String.ofList_nil, String.empty_append, String.append_empty] at hread
  exact ⟨hread, dumps_nonempty h⟩

/-- **A text that breaks off is no value.** -/
theorem loads_of_cut (hshort : Json.Short repr) (h : (PyValue.dict mapping).Storable repr limit)
    {front back : String} (hback : back ≠ "")
    (hsplit : front ++ back = (standardJson layout repr limit).dumps mapping) :
    Json.loads limit front.toList = .error .decode := by
  have hsorted := PyValue.storable_canonical _ _ h
  rw [PyValue.canonical_dict, PyValue.Storable, PyValue.toJson] at hsorted
  have hchars := congrArg String.toList hsplit
  rw [standardJson, String.toList_ofList, String.toList_append, PyValue.toJson] at hchars
  have hne : back.toList ≠ [] := by
    intro hnil
    exact hback (String.toList_eq_nil_iff.mp hnil)
  exact Json.loads_cut hshort hsorted.1 hsorted.2 0 hne hchars

end Codec

end AgenticPlatform
