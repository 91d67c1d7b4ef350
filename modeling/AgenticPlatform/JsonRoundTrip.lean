import AgenticPlatform.JsonWriting

/-!
# Reading back what was written

`json.loads` gives the value that `json.dumps` wrote, in any layout, if no text in it has a
surrogate pair, its whole numbers have no more digits than `int` reads, its doubles are written
so that they are read again, and its containers are no deeper than the interpreter may recurse.
-/

namespace AgenticPlatform.Json

open Utf8 (CodePoint)

/-! ### What can be written -/

mutual

/-- How many containers stand around each other. -/
def depth : Json → Nat
  | .arr items => depthItems items + 1
  | .obj entries => depthEntries entries + 1
  | _ => 0

def depthItems : List Json → Nat
  | [] => 0
  | item :: items => max (depth item) (depthItems items)

def depthEntries : List (List CodePoint × Json) → Nat
  | [] => 0
  | (_, value) :: entries => max (depth value) (depthEntries entries)

end

/-- The text of a double is a number that is read as the double. -/
structure ReadsBack (repr : Binary64 → List Char) (value : Binary64) : Prop where
  begins : ∃ c more, repr value = c :: more ∧ isBlank c = false ∧ c ∉ [']', '\uFEFF']
  reads : ∀ rest, Ends rest → scanValue none (repr value ++ rest) = .ok (.float value, rest)

section Writable

variable (repr : Binary64 → List Char)

mutual

/-- Every whole number has few enough digits, every double reads back, no text has a surrogate
    pair, and the names in an object are distinct. -/
def Writable : Json → Prop
  | .int n => (Nat.toDigits 10 n.natAbs).length ≤ maxDigits
  | .float value => ReadsBack repr value
  | .str text => Unpaired text
  | .arr items => WritableItems items
  | .obj entries => (entries.map Prod.fst).Nodup ∧ WritableEntries entries
  | _ => True

def WritableItems : List Json → Prop
  | [] => True
  | item :: items => Writable item ∧ WritableItems items

def WritableEntries : List (List CodePoint × Json) → Prop
  | [] => True
  | (name, value) :: entries => Unpaired name ∧ Writable value ∧ WritableEntries entries

end

end Writable

/-! ### What is written is read back -/

section Reading

variable {layout : Layout} {repr : Binary64 → List Char} {d level fuel : Nat} {value : Json}
  {items : List Json} {entries : List (List CodePoint × Json)} {rest : List Char} {inner : Scanner Json}

theorem writableItems_iff : WritableItems repr items ↔ ∀ item ∈ items, Writable repr item := by
  induction items with
  | nil => exact iff_of_true trivial (List.forall_mem_nil _)
  | cons item items ih => rw [WritableItems, ih, List.forall_mem_cons]

theorem writableEntries_iff : WritableEntries repr entries ↔
    ∀ entry ∈ entries, Unpaired entry.1 ∧ Writable repr entry.2 := by
  induction entries with
  | nil => exact iff_of_true trivial (List.forall_mem_nil _)
  | cons entry entries ih =>
    obtain ⟨name, value⟩ := entry
    rw [WritableEntries, ih, List.forall_mem_cons, and_assoc]

theorem depthItems_le : depthItems items ≤ d ↔ ∀ item ∈ items, depth item ≤ d := by
  induction items with
  | nil => exact iff_of_true (Nat.zero_le d) (List.forall_mem_nil _)
  | cons item items ih => rw [depthItems, Nat.max_le, ih, List.forall_mem_cons]

theorem depthEntries_le : depthEntries entries ≤ d ↔ ∀ entry ∈ entries, depth entry.2 ≤ d := by
  induction entries with
  | nil => exact iff_of_true (Nat.zero_le d) (List.forall_mem_nil _)
  | cons entry entries ih =>
    obtain ⟨name, value⟩ := entry
    rw [depthEntries, Nat.max_le, ih, List.forall_mem_cons]

/-! Blanks and what stands behind a part. -/

theorem skip_append {blanks : List Char} (h : Blank blanks) (rest : List Char) :
    skip (blanks ++ rest) = skip rest := by
  rw [skip, List.dropWhile_append_of_pos h]
  rfl

theorem skip_cons {c : Char} (h : isBlank c = false) (rest : List Char) : skip (c :: rest) = c :: rest := by
  rw [skip, List.dropWhile_cons_of_neg]
  rw [h]
  exact Bool.false_ne_true

theorem isBlank_of_isDigit {c : Char} (h : c.isDigit = true) : isBlank c = false := by
  have hne : ∀ d : Char, d.isDigit = false → (c == d) = false := by
    intro d hd
    rw [beq_eq_false_iff_ne]
    rintro rfl
    rw [h] at hd
    cases hd
  rw [isBlank, hne ' ' rfl, hne '\t' rfl, hne '\n' rfl, hne '\r' rfl]
  rfl

/-- A value begins with no blank, with no bracket that closes an array, and with no byte order
    mark. -/
theorem write_head (h : Writable repr value) (level : Nat) (rest : List Char) : ∃ c more,
    write layout repr level value ++ rest = c :: more ∧ isBlank c = false ∧ c ∉ [']', '\uFEFF'] := by
  cases value with
  | null => exact ⟨'n', _, rfl, rfl, by decide⟩
  | bool b =>
    cases b with
    | true => exact ⟨'t', _, rfl, rfl, by decide⟩
    | false => exact ⟨'f', _, rfl, rfl, by decide⟩
  | int n =>
    rw [write]
    rcases writeInt_head n rest with ⟨c, more, hc, hhead | hhead⟩
    · refine ⟨c, more, hhead, isBlank_of_isDigit hc, ?_⟩
      rw [List.mem_cons, List.mem_singleton, not_or]
      constructor
      · rintro rfl
        cases hc
      · rintro rfl
        cases hc
    · exact ⟨'-', c :: more, hhead, rfl, by decide⟩
  | float x =>
    rw [Writable] at h
    rcases h.begins with ⟨c, more, hhead, hc⟩
    rw [write, hhead]
    exact ⟨c, more ++ rest, rfl, hc⟩
  | str text => exact ⟨'"', _, rfl, rfl, by decide⟩
  | arr items =>
    cases items with
    | nil => exact ⟨'[', _, rfl, rfl, by decide⟩
    | cons item items => exact ⟨'[', _, rfl, rfl, by decide⟩
  | obj entries =>
    rcases entries with - | ⟨⟨name, value⟩, entries⟩
    · exact ⟨'{', _, rfl, rfl, by decide⟩
    · exact ⟨'{', _, rfl, rfl, by decide⟩

theorem skip_write (h : Writable repr value) (level : Nat) (rest : List Char) :
    skip (write layout repr level value ++ rest) = write layout repr level value ++ rest := by
  rcases @write_head layout repr value h level rest with ⟨c, more, hhead, hc, -⟩
  rw [hhead]
  exact skip_cons hc more

theorem ends_append {blanks : List Char} (h : Blank blanks) (hrest : Ends rest) : Ends (blanks ++ rest) := by
  rcases blanks with - | ⟨c, blanks⟩
  · exact hrest
  · refine ends_cons ?_ _
    have hc : isBlank c = true := h c List.mem_cons_self
    rw [isBlank, Bool.or_eq_true, Bool.or_eq_true, Bool.or_eq_true, beq_iff_eq, beq_iff_eq, beq_iff_eq,
      beq_iff_eq] at hc
    rcases hc with ((rfl | rfl) | rfl) | rfl <;> decide

theorem ends_writeItems (level : Nat) (items : List Json) (rest : List Char) :
    Ends (writeItems layout repr level items ++ rest) := by
  rcases items with - | ⟨item, items⟩
  · rw [writeItems, List.append_assoc]
    exact ends_append (layout.closing_blank level) (ends_cons (by decide) _)
  · exact ends_cons (by decide) _

theorem ends_writeEntries (level : Nat) (entries : List (List CodePoint × Json)) (rest : List Char) :
    Ends (writeEntries layout repr level entries ++ rest) := by
  rcases entries with - | ⟨⟨name, value⟩, entries⟩
  · rw [writeEntries, List.append_assoc]
    exact ends_append (layout.closing_blank level) (ends_cons (by decide) _)
  · exact ends_cons (by decide) _

/-- The items of an array, where each of them is read back. -/
theorem scanItems_write {item : Json} (hitems : ∀ other ∈ item :: items, Writable repr other ∧
      ∀ rest, Ends rest → inner (write layout repr (level + 1) other ++ rest) = .ok (other, rest))
    (hfuel : items.length < fuel) (rest : List Char) :
    scanItems inner fuel (write layout repr (level + 1) item ++ writeItems layout repr level items ++ rest) =
      .ok (item :: items, rest) := by
  induction items generalizing item fuel with
  | nil =>
    obtain ⟨fuel, rfl⟩ := Nat.exists_eq_add_one_of_ne_zero (Nat.ne_of_gt hfuel)
    have hskip : skip (writeItems layout repr level [] ++ rest) = ']' :: rest := by
      rw [writeItems, List.append_assoc, skip_append (layout.closing_blank level)]
      exact skip_cons rfl rest
    rw [scanItems, List.append_assoc, (hitems item List.mem_cons_self).2 _ (ends_writeItems level [] rest)]
    simp only [hskip]
  | cons next items ih =>
    rw [List.length_cons] at hfuel
    obtain ⟨fuel, rfl⟩ := Nat.exists_eq_add_one_of_ne_zero (Nat.ne_of_gt (Nat.zero_lt_of_lt hfuel))
    rw [List.forall_mem_cons] at hitems
    have hnext := (List.forall_mem_cons.mp hitems.2).1.1
    have hskip : skip (writeItems layout repr level (next :: items) ++ rest) =
        ',' :: (layout.between level ++ (write layout repr (level + 1) next ++
          writeItems layout repr level items ++ rest)) := by
      rw [writeItems]
      simp only [List.append_assoc, List.cons_append]
      exact skip_cons rfl _
    rw [scanItems, List.append_assoc, hitems.1.2 _ (ends_writeItems level _ rest)]
    simp only [hskip, skip_append (layout.between_blank level), List.append_assoc, skip_write hnext]
    rw [← List.append_assoc, ih hitems.2 (Nat.lt_of_succ_lt_succ hfuel)]
    rfl

theorem scanMember_write {name : List CodePoint} (hname : Unpaired name) (hvalue : Writable repr value)
    (hread : ∀ rest, Ends rest → inner (write layout repr level value ++ rest) = .ok (value, rest))
    (hrest : Ends rest) :
    scanMember inner (writeText name ++ ':' :: layout.colon ++ write layout repr level value ++ rest) =
      .ok ((name, value), rest) := by
  simp only [writeText, List.cons_append, List.append_assoc, List.nil_append]
  rw [scanMember, scanText_flatMap]
  have hcolon : ∀ more, skip (':' :: more) = ':' :: more := fun more => skip_cons rfl more
  simp only [hcolon, skip_append layout.colon_blank, skip_write hvalue, hread rest hrest, Except.map,
    joinSurrogates_flatMap hname]

/-- The entries of an object, where the value of each of them is read back. -/
theorem scanMembers_write {name : List CodePoint}
    (hentries : ∀ entry ∈ (name, value) :: entries, (Unpaired entry.1 ∧ Writable repr entry.2) ∧
      ∀ rest, Ends rest → inner (write layout repr (level + 1) entry.2 ++ rest) = .ok (entry.2, rest))
    (hfuel : entries.length < fuel) (rest : List Char) :
    scanMembers inner fuel (writeText name ++ ':' :: layout.colon ++ write layout repr (level + 1) value ++
      (writeEntries layout repr level entries ++ rest)) = .ok ((name, value) :: entries, rest) := by
  induction entries generalizing name value fuel with
  | nil =>
    obtain ⟨fuel, rfl⟩ := Nat.exists_eq_add_one_of_ne_zero (Nat.ne_of_gt hfuel)
    have hskip : skip (writeEntries layout repr level [] ++ rest) = '}' :: rest := by
      rw [writeEntries, List.append_assoc, skip_append (layout.closing_blank level)]
      exact skip_cons rfl rest
    obtain ⟨⟨hname, hvalue⟩, hread⟩ := hentries (name, value) List.mem_cons_self
    rw [scanMembers, scanMember_write hname hvalue hread (ends_writeEntries level [] rest)]
    simp only [hskip]
  | cons next entries ih =>
    obtain ⟨nextName, nextValue⟩ := next
    rw [List.length_cons] at hfuel
    obtain ⟨fuel, rfl⟩ := Nat.exists_eq_add_one_of_ne_zero (Nat.ne_of_gt (Nat.zero_lt_of_lt hfuel))
    rw [List.forall_mem_cons] at hentries
    obtain ⟨⟨⟨hname, hvalue⟩, hread⟩, hothers⟩ := hentries
    have hskip : skip (writeEntries layout repr level ((nextName, nextValue) :: entries) ++ rest) =
        ',' :: (layout.between level ++ (writeText nextName ++ ':' :: layout.colon ++
          write layout repr (level + 1) nextValue ++ (writeEntries layout repr level entries ++ rest))) := by
      rw [writeEntries]
      simp only [List.append_assoc, List.cons_append]
      exact skip_cons rfl _
    have hquote : ∀ more, skip (writeText nextName ++ more) = writeText nextName ++ more :=
      fun more => skip_cons rfl _
    rw [scanMembers, scanMember_write hname hvalue hread (ends_writeEntries level _ rest)]
    simp only [hskip, skip_append (layout.between_blank level), List.append_assoc, List.cons_append, hquote]
    have hrest := ih hothers (Nat.lt_of_succ_lt_succ hfuel)
    simp only [List.append_assoc, List.cons_append] at hrest
    rw [hrest]
    rfl

/-! Distinct names stay as they are. -/

theorem setItem_of_notMem {name : List CodePoint} (h : name ∉ entries.map Prod.fst) (value : Json) :
    setItem name value entries = entries ++ [(name, value)] := by
  induction entries with
  | nil => rfl
  | cons entry entries ih =>
    rw [List.map_cons, List.mem_cons, not_or] at h
    rw [setItem, if_neg (Ne.symm h.1), ih h.2, List.cons_append]

theorem ofPairs_of_nodup (h : (entries.map Prod.fst).Nodup) : ofPairs entries = entries := by
  have hfold : ∀ done : List (List CodePoint × Json), ((done ++ entries).map Prod.fst).Nodup →
      entries.foldl (fun entries pair => setItem pair.1 pair.2 entries) done = done ++ entries := by
    clear h
    induction entries with
    | nil => exact fun done _ => (List.append_nil done).symm
    | cons entry entries ih =>
      intro done hdone
      have hfresh : entry.1 ∉ done.map Prod.fst := by
        rw [List.map_append, List.nodup_append] at hdone
        intro hmem
        exact hdone.2.2 _ hmem _ (List.mem_map_of_mem List.mem_cons_self) rfl
      rw [List.foldl_cons, setItem_of_notMem hfresh, ih, List.append_assoc, List.singleton_append]
      rw [List.append_assoc, List.singleton_append]
      exact hdone
  exact hfold [] h

theorem scanValue_float {x : Binary64} {text : List Char} (h : scanValue none text = .ok (.float x, rest))
    (inner : Option (Scanner Json)) : scanValue inner text = .ok (.float x, rest) := by
  rcases text with - | ⟨c, text⟩
  · cases h
  · rw [scanValue] at h ⊢
    split at h
    · cases htext : scanText text with
      | error error =>
        rw [htext] at h
        cases h
      | ok read =>
        rw [htext] at h
        cases h
    · rename_i hquote
      rw [if_neg hquote]
      split at h
      · cases h
      · rename_i hbrace
        rw [if_neg hbrace]
        split at h
        · cases h
        · rename_i hbracket
          rw [if_neg hbracket]
          exact h

theorem length_items (level : Nat) (items : List Json) :
    items.length < (writeItems layout repr level items).length := by
  induction items with
  | nil => simp [writeItems]
  | cons item items ih =>
    simp only [writeItems, List.length_append, List.length_cons]
    omega

theorem length_entries (level : Nat) (entries : List (List CodePoint × Json)) :
    entries.length < (writeEntries layout repr level entries).length := by
  induction entries with
  | nil => simp [writeEntries]
  | cons entry entries ih =>
    obtain ⟨name, value⟩ := entry
    simp only [writeEntries, List.length_append, List.length_cons]
    omega

/-- A value that is no container. -/
theorem scanValue_write (h : Writable repr value) (hdepth : depth value = 0) (level : Nat) (hrest : Ends rest)
    (inner : Option (Scanner Json)) :
    scanValue inner (write layout repr level value ++ rest) = .ok (value, rest) := by
  cases value with
  | null => rfl
  | bool b => cases b <;> rfl
  | int n =>
    rw [Writable] at h
    rw [write]
    have hatom := scanAtom_writeInt h hrest
    rcases writeInt_head n rest with ⟨c, more, hc, hhead⟩
    have hne : ∀ d : Char, d.isDigit = false → c ≠ d := by
      rintro d hd rfl
      rw [hc] at hd
      cases hd
    rcases hhead with hhead | hhead
    · rw [hhead] at hatom ⊢
      rw [scanValue, if_neg (hne '"' rfl), if_neg (hne '{' rfl), if_neg (hne '[' rfl)]
      exact hatom
    · rw [hhead] at hatom ⊢
      exact hatom
  | float x =>
    rw [Writable] at h
    exact scanValue_float (h.reads rest hrest) inner
  | str text =>
    rw [Writable] at h
    rw [write, writeText, List.cons_append, List.cons_append, List.append_assoc, List.singleton_append,
      scanValue, if_pos rfl, scanText_flatMap]
    simp only [Except.map, joinSurrogates_flatMap h]
  | arr items =>
    rw [depth] at hdepth
    omega
  | obj entries =>
    rw [depth] at hdepth
    omega

theorem scanArray_write {item : Json} (hitems : ∀ other ∈ item :: items, Writable repr other ∧
      ∀ rest, Ends rest → inner (write layout repr (level + 1) other ++ rest) = .ok (other, rest))
    (rest : List Char) :
    scanArray inner (layout.opening level ++ write layout repr (level + 1) item ++
      writeItems layout repr level items ++ rest) = .ok (.arr (item :: items), rest) := by
  have hitem := (hitems item List.mem_cons_self).1
  rcases @write_head layout repr item hitem (level + 1) (writeItems layout repr level items ++ rest) with
    ⟨c, more, hhead, -, hc⟩
  have hread := @scanItems_write layout repr level _ items inner item hitems
    (show items.length < (c :: more).length by
      have hlength := @length_items layout repr level items
      rw [← hhead, List.length_append, List.length_append]
      omega) rest
  rw [List.append_assoc, hhead] at hread
  rw [scanArray, List.append_assoc, List.append_assoc, skip_append (layout.opening_blank level),
    skip_write hitem, hhead]
  split
  · rename_i heq
    rw [List.cons.injEq] at heq
    exact absurd (List.mem_cons.mpr (.inl heq.1)) hc
  · rw [hread]
    rfl

theorem scanObject_write {name : List CodePoint} (hnodup : (((name, value) :: entries).map Prod.fst).Nodup)
    (hentries : ∀ entry ∈ (name, value) :: entries, (Unpaired entry.1 ∧ Writable repr entry.2) ∧
      ∀ rest, Ends rest → inner (write layout repr (level + 1) entry.2 ++ rest) = .ok (entry.2, rest))
    (rest : List Char) :
    scanObject inner (layout.opening level ++ writeText name ++ ':' :: layout.colon ++
      write layout repr (level + 1) value ++ writeEntries layout repr level entries ++ rest) =
      .ok (.obj ((name, value) :: entries), rest) := by
  have hread := fun fuel hfuel => @scanMembers_write layout repr level fuel value entries inner name hentries hfuel rest
  have hskip : ∀ more, skip (writeText name ++ more) = writeText name ++ more := fun more => skip_cons rfl _
  simp only [List.append_assoc, List.cons_append] at hread ⊢
  rw [scanObject, skip_append (layout.opening_blank level), hskip]
  have hfuel : entries.length < (writeText name ++ ':' :: (layout.colon ++
      (write layout repr (level + 1) value ++ (writeEntries layout repr level entries ++ rest)))).length := by
    have hlength := @length_entries layout repr level entries
    simp only [List.length_append, List.length_cons]
    omega
  have hwritten := hread _ hfuel
  split
  · rename_i heq
    rw [writeText, List.cons_append, List.cons_append, List.cons.injEq] at heq
    exact absurd heq.1 (by decide)
  · rw [hwritten]
    simp only [Except.map, ofPairs_of_nodup hnodup]

/-- **A value is read from its text, whatever stands behind it that does not go on with a
    number.** -/
theorem scan_write (h : Writable repr value) (hdepth : depth value ≤ d) (level : Nat) (hrest : Ends rest) :
    scan d (write layout repr level value ++ rest) = .ok (value, rest) := by
  induction d generalizing value level rest with
  | zero => exact scanValue_write h (Nat.le_zero.mp hdepth) level hrest none
  | succ d ih =>
    cases value with
    | arr items =>
      rw [Writable, writableItems_iff] at h
      rw [depth, Nat.add_le_add_iff_right, depthItems_le] at hdepth
      rcases items with - | ⟨item, items⟩
      · rfl
      · have hitems : ∀ other ∈ item :: items, Writable repr other ∧ ∀ rest, Ends rest →
            scan d (write layout repr (level + 1) other ++ rest) = .ok (other, rest) :=
          fun other hother => ⟨h other hother, fun rest hrest => ih (h other hother) (hdepth other hother) _ hrest⟩
        have hread := scanArray_write hitems rest
        rw [write, List.cons_append, List.cons_append, List.cons_append, scan, scanValue, if_neg (by decide),
          if_neg (by decide), if_pos rfl]
        exact hread
    | obj entries =>
      rw [Writable, writableEntries_iff] at h
      rw [depth, Nat.add_le_add_iff_right, depthEntries_le] at hdepth
      rcases entries with - | ⟨⟨name, value⟩, entries⟩
      · rfl
      · have hentries : ∀ entry ∈ (name, value) :: entries, (Unpaired entry.1 ∧ Writable repr entry.2) ∧
            ∀ rest, Ends rest → scan d (write layout repr (level + 1) entry.2 ++ rest) = .ok (entry.2, rest) :=
          fun entry hentry => ⟨h.2 entry hentry,
            fun rest hrest => ih (h.2 entry hentry).2 (hdepth entry hentry) _ hrest⟩
        have hread := scanObject_write h.1 hentries rest
        rw [write, List.cons_append, List.cons_append, List.cons_append, List.cons_append, List.cons_append,
          scan, scanValue, if_neg (by decide), if_pos rfl]
        exact hread
    | null => exact scanValue_write h rfl level hrest _
    | bool b => exact scanValue_write h rfl level hrest _
    | int n => exact scanValue_write h rfl level hrest _
    | float x => exact scanValue_write h rfl level hrest _
    | str text => exact scanValue_write h rfl level hrest _

/-- **What was written, with blanks around it, is loaded as it was.** -/
theorem loads_write (h : Writable repr value) (hdepth : depth value ≤ d) (level : Nat) {before after : List Char}
    (hbefore : Blank before) (hafter : Blank after) :
    loads d (before ++ write layout repr level value ++ after) = .ok value := by
  rcases @write_head layout repr value h level after with ⟨c, more, hhead, hc⟩
  have hends : Ends after := by
    have hnothing := ends_append hafter ends_nil
    rwa [List.append_nil] at hnothing
  have hblank : skip after = [] := by
    have hskipped := skip_append hafter []
    rwa [List.append_nil] at hskipped
  have hmark : (before ++ write layout repr level value ++ after).head? ≠ some '\uFEFF' := by
    rw [List.append_assoc, hhead]
    rcases before with - | ⟨first, before⟩
    · rw [List.nil_append, List.head?_cons, ne_eq, Option.some_inj]
      exact fun hmark => hc.2 (List.mem_cons.mpr (.inr (List.mem_singleton.mpr hmark)))
    · rw [List.cons_append, List.head?_cons, ne_eq, Option.some_inj]
      rintro rfl
      exact absurd (hbefore _ List.mem_cons_self) (by decide)
  rw [loads, if_neg hmark, List.append_assoc, skip_append hbefore, skip_write h, scan_write h hdepth level hends]
  simp only [hblank, if_true]

end Reading

end AgenticPlatform.Json
