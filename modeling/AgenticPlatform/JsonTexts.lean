import AgenticPlatform.JsonTruncation

/-!
# The texts in a document

What is read has no surrogate pair in it, for a pair is put together, and is no deeper than the
reader may go. So a value that has a pair, or is deeper, does not survive its JSON text; every
other value that can be written does.
-/

namespace AgenticPlatform.Json

open Utf8 (CodePoint)

/-! ### Texts and everything else -/

mutual

/-- No text in the value has a surrogate pair. -/
def PairFree : Json → Prop
  | .str text => Unpaired text
  | .arr items => PairFreeItems items
  | .obj entries => PairFreeEntries entries
  | _ => True

def PairFreeItems : List Json → Prop
  | [] => True
  | item :: items => PairFree item ∧ PairFreeItems items

def PairFreeEntries : List (List CodePoint × Json) → Prop
  | [] => True
  | (name, value) :: entries => Unpaired name ∧ PairFree value ∧ PairFreeEntries entries

end

section Dumpable

variable (repr : Binary64 → List Char)

mutual

/-- What `json.dumps` writes, whatever the texts: no whole number has more digits than Python
    writes, every double reads back, and the names in a dictionary are distinct. -/
def Dumpable : Json → Prop
  | .int n => (Nat.toDigits 10 n.natAbs).length ≤ maxDigits
  | .float value => ReadsBack repr value
  | .arr items => DumpableItems items
  | .obj entries => (entries.map Prod.fst).Nodup ∧ DumpableEntries entries
  | _ => True

def DumpableItems : List Json → Prop
  | [] => True
  | item :: items => Dumpable item ∧ DumpableItems items

def DumpableEntries : List (List CodePoint × Json) → Prop
  | [] => True
  | (_, value) :: entries => Dumpable value ∧ DumpableEntries entries

end

end Dumpable

section Parts

variable {repr : Binary64 → List Char}

mutual

/-- **What reads back is what can be written and has no surrogate pair.** -/
theorem writable_iff : ∀ value : Json, Writable repr value ↔ Dumpable repr value ∧ PairFree value
  | .null | .bool _ => by simp only [Writable, Dumpable, PairFree, and_self]
  | .int _ | .float _ => by simp only [Writable, Dumpable, PairFree, and_true]
  | .str _ => by simp only [Writable, Dumpable, PairFree, true_and]
  | .arr items => by
    simp only [Writable, Dumpable, PairFree]
    exact writableItems_iff_dumpable items
  | .obj entries => by
    simp only [Writable, Dumpable, PairFree]
    rw [writableEntries_iff_dumpable entries, and_assoc]

theorem writableItems_iff_dumpable : ∀ items : List Json,
    WritableItems repr items ↔ DumpableItems repr items ∧ PairFreeItems items
  | [] => by simp only [WritableItems, DumpableItems, PairFreeItems, and_self]
  | item :: items => by
    rw [WritableItems, DumpableItems, PairFreeItems, writable_iff item, writableItems_iff_dumpable items]
    exact and_and_and_comm

theorem writableEntries_iff_dumpable : ∀ entries : List (List CodePoint × Json),
    WritableEntries repr entries ↔ DumpableEntries repr entries ∧ PairFreeEntries entries
  | [] => by simp only [WritableEntries, DumpableEntries, PairFreeEntries, and_self]
  | (name, value) :: entries => by
    rw [WritableEntries, DumpableEntries, PairFreeEntries, writable_iff value, writableEntries_iff_dumpable entries]
    rw [and_and_and_comm, and_left_comm]

end

end Parts

/-! ### What is read -/

section Reading

variable {text rest : List Char} {value : Json} {fuel limit : Nat} {inner : Scanner Json}
  {entries : List (List CodePoint × Json)}

/-- A code point beyond the basic plane is no surrogate. -/
theorem not_surrogate {n : Nat} (hlow : 0x10000 ≤ n) (hhigh : n < 0x110000) :
    isHigh (codePoint n) = false ∧ isLow (codePoint n) = false := by
  rw [isHigh, isLow, val_codePoint hhigh, Bool.and_eq_false_iff, Bool.and_eq_false_iff]
  exact ⟨.inr (decide_eq_false (by omega)), .inr (decide_eq_false (by omega))⟩

/-- The code point of a pair is beyond the basic plane. -/
theorem pair_bounds {high low : CodePoint} (h : isHigh high = true ∧ isLow low = true) :
    0x10000 ≤ 0x10000 + (high.val - 0xD800) * 0x400 + (low.val - 0xDC00) ∧
      0x10000 + (high.val - 0xD800) * 0x400 + (low.val - 0xDC00) < 0x110000 := by
  obtain ⟨hhigh, hlow⟩ := h
  rw [isHigh, Bool.and_eq_true, decide_eq_true_iff, decide_eq_true_iff] at hhigh
  rw [isLow, Bool.and_eq_true, decide_eq_true_iff, decide_eq_true_iff] at hlow
  omega

/-- The first code point stays, or is put together with the next. -/
theorem isLow_head_joinSurrogates (chars : List CodePoint) :
    ∀ d ∈ (joinSurrogates chars).head?, isLow d = true → ∃ c ∈ chars.head?, isLow c = true := by
  fun_cases joinSurrogates chars with
  | case1 => simp
  | case2 c => exact fun d hd hlow => ⟨d, hd, hlow⟩
  | case3 high low rest hpair =>
    intro d hd hlow
    rw [List.head?_cons, Option.mem_some_iff] at hd
    rw [← hd, (not_surrogate (pair_bounds hpair).1 (pair_bounds hpair).2).2] at hlow
    cases hlow
  | case4 high low rest hpair =>
    intro d hd hlow
    rw [List.head?_cons, Option.mem_some_iff] at hd
    exact ⟨high, rfl, by rw [hd]; exact hlow⟩

theorem unpaired_joinSurrogates (chars : List CodePoint) : Unpaired (joinSurrogates chars) := by
  fun_induction joinSurrogates chars with
  | case1 => exact List.isChain_nil
  | case2 => exact List.isChain_singleton _
  | case3 high low rest hpair ih =>
    refine List.isChain_cons.mpr ⟨?_, ih⟩
    rintro d - ⟨hhigh, -⟩
    rw [(not_surrogate (pair_bounds hpair).1 (pair_bounds hpair).2).1] at hhigh
    cases hhigh
  | case4 high low rest hpair ih =>
    refine List.isChain_cons.mpr ⟨?_, ih⟩
    rintro d hd ⟨hhigh, hlow⟩
    obtain ⟨c, hc, hlow⟩ := isLow_head_joinSurrogates (low :: rest) d hd hlow
    rw [List.head?_cons, Option.mem_some_iff] at hc
    exact hpair ⟨hhigh, by rw [hc]; exact hlow⟩

theorem pairFreeItems_iff {items : List Json} : PairFreeItems items ↔ ∀ item ∈ items, PairFree item := by
  induction items with
  | nil => exact iff_of_true trivial (List.forall_mem_nil _)
  | cons item items ih => rw [PairFreeItems, ih, List.forall_mem_cons]

theorem pairFreeEntries_iff : PairFreeEntries entries ↔ ∀ entry ∈ entries, Unpaired entry.1 ∧ PairFree entry.2 := by
  induction entries with
  | nil => exact iff_of_true trivial (List.forall_mem_nil _)
  | cons entry entries ih =>
    obtain ⟨name, value⟩ := entry
    rw [PairFreeEntries, ih, List.forall_mem_cons, and_assoc]

/-- What is read with so many containers to enter: no text in it has a surrogate pair, and no more
    containers stand around each other. -/
structure Read (limit : Nat) (value : Json) : Prop where
  pairFree : PairFree value
  depth_le : depth value ≤ limit

/-- What is read of an entry. -/
def ReadEntry (limit : Nat) (entry : List CodePoint × Json) : Prop := Unpaired entry.1 ∧ Read limit entry.2

def Reads (limit : Nat) (inner : Scanner Json) : Prop :=
  ∀ text value rest, inner text = .ok (value, rest) → Read limit value

theorem read_atom (hpairs : PairFree value) (hdepth : depth value = 0) : Read limit value :=
  ⟨hpairs, hdepth ▸ Nat.zero_le limit⟩

theorem read_arr {items : List Json} (h : ∀ item ∈ items, Read limit item) : Read (limit + 1) (.arr items) := by
  constructor
  · rw [PairFree, pairFreeItems_iff]
    exact fun item hitem => (h item hitem).pairFree
  · rw [depth, Nat.add_le_add_iff_right, depthItems_le]
    exact fun item hitem => (h item hitem).depth_le

theorem read_obj (h : ∀ entry ∈ entries, ReadEntry limit entry) : Read (limit + 1) (.obj entries) := by
  constructor
  · rw [PairFree, pairFreeEntries_iff]
    exact fun entry hentry => ⟨(h entry hentry).1, (h entry hentry).2.pairFree⟩
  · rw [depth, Nat.add_le_add_iff_right, depthEntries_le]
    exact fun entry hentry => (h entry hentry).2.depth_le

theorem scanAtom_read (h : scanAtom text = .ok (value, rest)) : Read limit value := by
  rw [scanAtom] at h
  split at h
  · rename_i word hfound
    rw [Except.ok.injEq, Prod.mk.injEq] at h
    obtain ⟨rfl, rfl⟩ := h
    have hword := List.mem_of_find?_eq_some hfound
    simp only [words, List.mem_cons, List.not_mem_nil, or_false] at hword
    rcases hword with rfl | rfl | rfl | rfl | rfl | rfl <;> exact read_atom (by simp [PairFree]) (by simp [depth])
  · rw [scanNumber] at h
    dsimp only at h
    split at h
    · cases h
    · obtain ⟨number, hnumber, hresult⟩ := map_eq_ok h
      rw [Prod.mk.injEq] at hresult
      obtain ⟨rfl, rfl⟩ := hresult
      rw [numberOf] at hnumber
      split at hnumber
      · split at hnumber
        · cases hnumber
        · cases hnumber
          exact read_atom (by simp [PairFree]) (by simp [depth])
      · cases hnumber
        exact read_atom (by simp [PairFree]) (by simp [depth])

/-! What holds of every entry that is put into a dictionary holds of the dictionary's entries. -/

theorem forall_mem_setItem {P : List CodePoint × Json → Prop} {name : List CodePoint} (hnew : P (name, value))
    (h : ∀ entry ∈ entries, P entry) : ∀ entry ∈ setItem name value entries, P entry := by
  induction entries with
  | nil => exact List.forall_mem_singleton.mpr hnew
  | cons entry entries ih =>
    rw [List.forall_mem_cons] at h
    rw [setItem]
    split
    · exact List.forall_mem_cons.mpr ⟨hnew, h.2⟩
    · exact List.forall_mem_cons.mpr ⟨h.1, ih h.2⟩

theorem forall_mem_ofPairs {P : List CodePoint × Json → Prop} (h : ∀ entry ∈ entries, P entry) :
    ∀ entry ∈ ofPairs entries, P entry := by
  have hfold : ∀ done, (∀ entry ∈ done, P entry) →
      ∀ entry ∈ entries.foldl (fun entries pair => setItem pair.1 pair.2 entries) done, P entry := by
    induction entries with
    | nil => exact fun done hdone => hdone
    | cons entry entries ih =>
      rw [List.forall_mem_cons] at h
      exact fun done hdone => ih h.2 _ (forall_mem_setItem h.1 hdone)
  exact hfold [] (List.forall_mem_nil _)

theorem scanItems_read (hinner : Reads limit inner) {items : List Json}
    (h : scanItems inner fuel text = .ok (items, rest)) : ∀ item ∈ items, Read limit item := by
  induction fuel generalizing text items with
  | zero => cases h
  | succ fuel ih =>
    rw [scanItems] at h
    split at h
    · cases h
    · rename_i item behind hitem
      have hread := hinner _ _ _ hitem
      split at h
      · cases h
        exact List.forall_mem_singleton.mpr hread
      · obtain ⟨⟨others, last⟩, hothers, hresult⟩ := map_eq_ok h
        rw [Prod.mk.injEq] at hresult
        obtain ⟨rfl, rfl⟩ := hresult
        exact List.forall_mem_cons.mpr ⟨hread, ih hothers⟩
      · cases h

theorem scanMember_read (hinner : Reads limit inner) {member : List CodePoint × Json}
    (h : scanMember inner text = .ok (member, rest)) : ReadEntry limit member := by
  rw [scanMember.eq_def] at h
  split at h
  · split at h
    · cases h
    · split at h
      · obtain ⟨⟨value, last⟩, hvalue, hresult⟩ := map_eq_ok h
        rw [Prod.mk.injEq] at hresult
        rw [hresult.1]
        exact ⟨unpaired_joinSurrogates _, hinner _ _ _ hvalue⟩
      · cases h
  · cases h

theorem scanMembers_read (hinner : Reads limit inner) {members : List (List CodePoint × Json)}
    (h : scanMembers inner fuel text = .ok (members, rest)) : ∀ member ∈ members, ReadEntry limit member := by
  induction fuel generalizing text members with
  | zero => cases h
  | succ fuel ih =>
    rw [scanMembers] at h
    split at h
    · cases h
    · rename_i member behind hmember
      have hread := scanMember_read hinner hmember
      split at h
      · cases h
        exact List.forall_mem_singleton.mpr hread
      · obtain ⟨⟨others, last⟩, hothers, hresult⟩ := map_eq_ok h
        rw [Prod.mk.injEq] at hresult
        obtain ⟨rfl, rfl⟩ := hresult
        exact List.forall_mem_cons.mpr ⟨hread, ih hothers⟩
      · cases h

theorem scanArray_read (hinner : Reads limit inner) (h : scanArray inner text = .ok (value, rest)) :
    Read (limit + 1) value := by
  rw [scanArray] at h
  split at h
  · cases h
    exact read_arr (List.forall_mem_nil _)
  · obtain ⟨⟨items, last⟩, hitems, hresult⟩ := map_eq_ok h
    rw [Prod.mk.injEq] at hresult
    rw [hresult.1]
    exact read_arr (scanItems_read hinner hitems)

theorem scanObject_read (hinner : Reads limit inner) (h : scanObject inner text = .ok (value, rest)) :
    Read (limit + 1) value := by
  rw [scanObject] at h
  split at h
  · cases h
    exact read_obj (List.forall_mem_nil _)
  · obtain ⟨⟨members, last⟩, hmembers, hresult⟩ := map_eq_ok h
    rw [Prod.mk.injEq] at hresult
    rw [hresult.1]
    exact read_obj (forall_mem_ofPairs (scanMembers_read hinner hmembers))

theorem scanValue_reads {inner : Option (Scanner Json)}
    (hinner : ∀ scanner ∈ inner, ∃ below, limit = below + 1 ∧ Reads below scanner) :
    Reads limit (scanValue inner) := by
  intro text value rest h
  rcases text with - | ⟨c, text⟩
  · cases h
  · rw [scanValue] at h
    split at h
    · obtain ⟨⟨chars, last⟩, hread, hresult⟩ := map_eq_ok h
      rw [Prod.mk.injEq] at hresult
      rw [hresult.1]
      refine read_atom ?_ (by simp [depth])
      rw [PairFree]
      exact unpaired_joinSurrogates chars
    · split at h
      · rcases inner with - | scanner
        · cases h
        · obtain ⟨below, rfl, hreads⟩ := hinner scanner rfl
          exact scanObject_read hreads h
      · split at h
        · rcases inner with - | scanner
          · cases h
          · obtain ⟨below, rfl, hreads⟩ := hinner scanner rfl
            exact scanArray_read hreads h
        · exact scanAtom_read h

theorem scan_reads (limit : Nat) : Reads limit (scan limit) := by
  induction limit with
  | zero => exact scanValue_reads (by rintro scanner ⟨⟩)
  | succ limit ih =>
    refine scanValue_reads ?_
    intro scanner hscanner
    rw [Option.mem_some_iff] at hscanner
    exact ⟨limit, rfl, by rwa [← hscanner]⟩

/-- **No document that is loaded has a surrogate pair in it, or is deeper than the limit.** -/
theorem read_of_loads (h : loads limit text = .ok value) : Read limit value := by
  rw [loads] at h
  split at h
  · cases h
  · cases hread : scan limit (skip text) with
    | error error =>
      rw [hread] at h
      cases h
    | ok read =>
      rw [hread] at h
      dsimp only at h
      split at h
      · cases h
        exact scan_reads limit _ _ _ hread
      · cases h

end Reading

end AgenticPlatform.Json
