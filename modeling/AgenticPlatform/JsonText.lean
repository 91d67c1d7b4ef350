import AgenticPlatform.JsonValues
import AgenticPlatform.NumberText
import Mathlib.Data.String.Basic
import Mathlib.Logic.Denumerable
import Mathlib.Tactic.Common

/-!
# JSON text and ISO-8601 text

The encoders of the standard library are parameters. `json.dumps(.., sort_keys=True)`
writes the entries of every object in the order of their keys, so what `json.loads` gives
back is the `canonical` value: the same one, as dictionaries compare.
-/

namespace AgenticPlatform

def keyLe (left right : String × PyValue) : Bool := decide (left.1 ≤ right.1)

mutual

/-- The value with the entries of every dictionary in the order of their keys. -/
def PyValue.canonical : PyValue → PyValue
  | .none => .none
  | .bool b => .bool b
  | .int n => .int n
  | .float mantissa exponent => .float mantissa exponent
  | .str text => .str text
  | .list items => .list (canonicalItems items)
  | .dict items => .dict ((canonicalEntries items).mergeSort keyLe)

def canonicalItems : List PyValue → List PyValue
  | [] => []
  | item :: rest => item.canonical :: canonicalItems rest

def canonicalEntries : List (String × PyValue) → List (String × PyValue)
  | [] => []
  | (key, value) :: rest => (key, value.canonical) :: canonicalEntries rest

end

def Mapping.canonical (mapping : Mapping) : Mapping := (canonicalEntries mapping).mergeSort keyLe

/-- `json.dumps` with `sort_keys`, and `json.loads`. -/
structure JsonCodec where
  dumps : Mapping → String
  loads : String → Except PyError PyValue

/-- What `json.loads` raises for a text that is no JSON. -/
def jsonDecodeError : PyError := .valueError "JSONDecodeError"

/-- The object survives its JSON text. -/
def JsonCodec.Representable (json : JsonCodec) (mapping : Mapping) : Prop :=
  json.loads (json.dumps mapping) = .ok (.dict mapping.canonical) ∧ json.dumps mapping ≠ ""

/-- `datetime.isoformat` and `datetime.fromisoformat`, inverse to each other. -/
structure IsoCodec where
  isoformat : Instant → String
  fromisoformat : String → Except PyError Instant
  inverse : ∀ moment, fromisoformat (isoformat moment) = .ok moment
  nonempty : ∀ moment, isoformat moment ≠ ""

/-! ### The canonical value -/

section Canonical

@[simp] theorem PyValue.canonical_dict (items : Mapping) :
    (PyValue.dict items).canonical = .dict (Mapping.canonical items) := by
  rw [PyValue.canonical, Mapping.canonical]

theorem canonicalItems_eq (items : List PyValue) : canonicalItems items = items.map PyValue.canonical := by
  induction items with
  | nil => simp [canonicalItems]
  | cons item rest ih => rw [canonicalItems, ih, List.map_cons]

theorem canonicalEntries_eq (items : Mapping) :
    canonicalEntries items = items.map fun entry => (entry.1, entry.2.canonical) := by
  induction items with
  | nil => simp [canonicalEntries]
  | cons entry rest ih => rw [canonicalEntries, ih, List.map_cons]

theorem keyLe_trans (a b c : String × PyValue) (hab : keyLe a b = true) (hbc : keyLe b c = true) :
    keyLe a c = true := by
  rw [keyLe, decide_eq_true_eq] at *
  exact le_trans hab hbc

theorem keyLe_total (a b : String × PyValue) : (keyLe a b || keyLe b a) = true := by
  rw [Bool.or_eq_true, keyLe, keyLe, decide_eq_true_eq, decide_eq_true_eq]
  exact le_total a.1 b.1

@[simp] theorem Mapping.canonical_eq_nil {mapping : Mapping} : mapping.canonical = [] ↔ mapping = [] := by
  unfold Mapping.canonical
  rw [canonicalEntries_eq]
  constructor
  · intro h
    have hlength := congrArg List.length h
    simpa using hlength
  · rintro rfl
    simp

/-- A lookup does not depend on the order of entries with distinct keys. -/
theorem lookup_perm {κ β : Type} [BEq κ] [LawfulBEq κ] {left right : List (κ × β)} (hperm : left.Perm right)
    (hnodup : (left.map Prod.fst).Nodup) (key : κ) :
    List.lookup key left = List.lookup key right := by
  induction hperm with
  | nil => rfl
  | cons entry _ ih =>
    rw [List.map_cons, List.nodup_cons] at hnodup
    obtain ⟨k, value⟩ := entry
    rw [List.lookup_cons, List.lookup_cons, ih hnodup.2]
  | swap first second rest =>
    obtain ⟨k, value⟩ := first
    obtain ⟨k', value'⟩ := second
    have hne : k' ≠ k := by
      simp only [List.map_cons, List.nodup_cons, List.mem_cons, not_or] at hnodup
      exact hnodup.1.1
    simp only [List.lookup_cons]
    by_cases h : key = k
    · subst h
      have hother : (key == k') = false := by simpa using hne.symm
      simp [hother]
    · have hother : (key == k) = false := by simpa using h
      simp [hother]
  | trans hleft _ ihleft ihright =>
    rw [ihleft hnodup, ihright ((hleft.map Prod.fst).nodup_iff.mp hnodup)]

theorem lookup_map_values {β γ : Type} (f : β → γ) (entries : List (String × β)) (key : String) :
    List.lookup key (entries.map fun entry => (entry.1, f entry.2)) = (List.lookup key entries).map f := by
  induction entries with
  | nil => rfl
  | cons entry rest ih =>
    obtain ⟨k, value⟩ := entry
    rw [List.map_cons, List.lookup_cons, List.lookup_cons, ih]
    cases key == k <;> rfl

theorem lookup_of_mem {β : Type} {entries : List (String × β)} (hnodup : (entries.map Prod.fst).Nodup)
    {entry : String × β} (hmem : entry ∈ entries) : List.lookup entry.1 entries = some entry.2 := by
  induction entries with
  | nil => cases hmem
  | cons first rest ih =>
    obtain ⟨key, value⟩ := first
    rw [List.map_cons, List.nodup_cons] at hnodup
    rcases List.mem_cons.mp hmem with rfl | hrest
    · simp
    · have hne : (entry.1 == key) = false := by
        rw [beq_eq_false_iff_ne]
        rintro rfl
        exact hnodup.1 (List.mem_map.mpr ⟨entry, hrest, rfl⟩)
      rw [List.lookup_cons, hne]
      exact ih hnodup.2 hrest

/-- The entries of the canonical dictionary are those of the dictionary. -/
theorem Mapping.lookup_canonical {mapping : Mapping} (h : (mapping.map Prod.fst).Nodup) (key : String) :
    List.lookup key mapping.canonical = (List.lookup key mapping).map PyValue.canonical := by
  have hkeys : ((canonicalEntries mapping).map Prod.fst).Nodup := by
    rw [canonicalEntries_eq, List.map_map]
    exact h
  unfold Mapping.canonical
  rw [← lookup_map_values, ← canonicalEntries_eq, lookup_perm (List.mergeSort_perm _ _).symm hkeys]

@[simp] theorem PyValue.canonical_str (text : String) : (PyValue.str text).canonical = .str text := by
  rw [PyValue.canonical]

@[simp] theorem PyValue.canonical_int (n : Int) : (PyValue.int n).canonical = .int n := by
  rw [PyValue.canonical]

@[simp] theorem PyValue.canonical_bool (b : Bool) : (PyValue.bool b).canonical = .bool b := by
  rw [PyValue.canonical]

@[simp] theorem PyValue.canonical_none : PyValue.none.canonical = .none := by
  rw [PyValue.canonical]

@[simp] theorem PyValue.canonical_ofText (text : Option String) :
    (PyValue.ofText text).canonical = .ofText text := by
  cases text <;> simp [PyValue.ofText]

@[simp] theorem PyValue.canonical_ofFloat (value : Option (Int × Int)) :
    (PyValue.ofFloat value).canonical = .ofFloat value := by
  cases value <;> simp [PyValue.ofFloat, PyValue.canonical]

@[simp] theorem PyValue.canonical_ofTexts (texts : List String) :
    (PyValue.ofTexts texts).canonical = .ofTexts texts := by
  simp [PyValue.ofTexts, PyValue.canonical, canonicalItems_eq]

/-- Sorting a second time changes nothing. -/
theorem sortEntries_canonical {items : Mapping}
    (h : ∀ entry ∈ items, entry.2.canonical.canonical = entry.2.canonical) :
    (canonicalEntries ((canonicalEntries items).mergeSort keyLe)).mergeSort keyLe =
      (canonicalEntries items).mergeSort keyLe := by
  have hentries : (canonicalEntries items).map (fun entry => (entry.1, entry.2.canonical)) =
      canonicalEntries items := by
    rw [canonicalEntries_eq, List.map_map]
    apply List.map_congr_left
    intro entry hentry
    rw [Function.comp_apply, h entry hentry]
  have hsorted := List.pairwise_mergeSort keyLe_trans keyLe_total (canonicalEntries items)
  have hmap : canonicalEntries ((canonicalEntries items).mergeSort keyLe) =
      (canonicalEntries items).mergeSort keyLe := by
    rw [canonicalEntries_eq, List.map_mergeSort (r := keyLe) (s := keyLe)
      (f := fun entry : String × PyValue => (entry.1, entry.2.canonical)) (fun _ _ _ _ => rfl), hentries]
  rw [hmap]
  exact List.mergeSort_of_pairwise hsorted

mutual

/-- The canonical value is a normal form. -/
theorem PyValue.canonical_canonical : ∀ value : PyValue, value.canonical.canonical = value.canonical
  | .none | .bool _ | .int _ | .float _ _ | .str _ => by simp only [PyValue.canonical]
  | .list items => by
    rw [PyValue.canonical, PyValue.canonical, canonicalItems_canonical items]
  | .dict items => by
    rw [PyValue.canonical, PyValue.canonical, sortEntries_canonical (canonicalEntries_canonical items)]

theorem canonicalItems_canonical : ∀ items : List PyValue,
    canonicalItems (canonicalItems items) = canonicalItems items
  | [] => by simp only [canonicalItems]
  | item :: rest => by
    rw [canonicalItems, canonicalItems, PyValue.canonical_canonical item, canonicalItems_canonical rest]

theorem canonicalEntries_canonical : ∀ items : Mapping,
    ∀ entry ∈ items, entry.2.canonical.canonical = entry.2.canonical
  | [], _, h => by cases h
  | (key, value) :: rest, entry, h => by
    rcases List.mem_cons.mp h with rfl | hrest
    · exact PyValue.canonical_canonical value
    · exact canonicalEntries_canonical rest entry hrest

end

@[simp] theorem Mapping.canonical_canonical (mapping : Mapping) :
    mapping.canonical.canonical = mapping.canonical :=
  sortEntries_canonical (canonicalEntries_canonical mapping)

end Canonical

/-! ### Two moments in text -/

/-- The first of January 2026, and half a minute later. -/
def IsoCodec.sampleStart : Instant := 1767225600000000

def IsoCodec.sampleEnd : Instant := 1767225630000000

theorem toString_ne {text : String} (h : '-' ∈ text.toList) (n : Nat) : toString n ≠ text := by
  rintro rfl
  have hchars : (toString n).toList = Nat.toDigits 10 n := Nat.toList_repr
  rw [hchars] at h
  have hdigit := Nat.isDigit_of_mem_toDigits (by decide) (by decide) h
  revert hdigit
  decide

/-- The two moments in their ISO text, any other moment by a number. -/
def IsoCodec.sample : IsoCodec where
  isoformat moment :=
    if moment = sampleStart then "2026-01-01T00:00:00+00:00"
    else if moment = sampleEnd then "2026-01-01T00:00:30+00:00"
    else toString (Encodable.encode moment)
  fromisoformat text :=
    if text = "2026-01-01T00:00:00+00:00" then .ok sampleStart
    else if text = "2026-01-01T00:00:30+00:00" then .ok sampleEnd
    else
      match parseInt 10 text with
      | some n => .ok (Denumerable.ofNat Instant n.toNat)
      | none => .error (.valueError ("Invalid isoformat string: " ++ quoted text))
  inverse := by
    intro moment
    have hne : "2026-01-01T00:00:30+00:00" ≠ "2026-01-01T00:00:00+00:00" := by decide
    have hnumber : ∀ n : Nat, toString n ≠ "2026-01-01T00:00:00+00:00" ∧
        toString n ≠ "2026-01-01T00:00:30+00:00" :=
      fun n => ⟨toString_ne (by simp) n, toString_ne (by simp) n⟩
    by_cases hstart : moment = sampleStart
    · rw [if_pos hstart, if_pos rfl, hstart]
    · by_cases hend : moment = sampleEnd
      · rw [if_neg hstart, if_pos hend, if_neg hne, if_pos rfl, hend]
      · rw [if_neg hstart, if_neg hend, if_neg (hnumber _).1, if_neg (hnumber _).2, parseInt_toString]
        exact congrArg Except.ok (Denumerable.ofNat_encode moment)
  nonempty := by
    intro moment
    split
    · decide
    · split
      · decide
      · exact toString_nonempty _

end AgenticPlatform
