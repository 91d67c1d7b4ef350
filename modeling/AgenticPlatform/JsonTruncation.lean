import AgenticPlatform.JsonRoundTrip

/-!
# Documents that break off

What a reader has read of a text does not change when the text goes on, unless it was a number or
a word that the text may go on with. So no text that breaks off inside an object is one.
-/

namespace AgenticPlatform.Json

open Utf8 (CodePoint)

/-- The value is read whatever comes after `rest`: it is closed by a character of its own, or
    something stands behind it that no number goes on with. -/
def Settled : Json → List Char → Prop
  | .str _, _ | .arr _, _ | .obj _, _ => True
  | _, rest => rest ≠ [] ∧ Ends rest

/-- The reader gives the same value for a longer text. -/
structure Extends (inner : Scanner Json) : Prop where
  nothing : ∀ read, inner [] ≠ .ok read
  longer : ∀ {text value rest}, inner text = .ok (value, rest) → Settled value rest →
    ∀ more, inner (text ++ more) = .ok (value, rest ++ more)

section Parts

variable {text rest more : List Char} {value : Json}

theorem settled_of_ends (hne : rest ≠ []) (h : Ends rest) : Settled value rest := by
  cases value <;> first | exact trivial | exact ⟨hne, h⟩

/-- A span that stops inside the text stops there in a longer one. -/
theorem span_append {p : Char → Bool} (h : text.dropWhile p ≠ []) (more : List Char) :
    (text ++ more).takeWhile p = text.takeWhile p ∧ (text ++ more).dropWhile p = text.dropWhile p ++ more := by
  induction text with
  | nil => exact absurd rfl h
  | cons c text ih =>
    by_cases hc : p c = true
    · rw [List.dropWhile_cons_of_pos hc] at h
      obtain ⟨htake, hdrop⟩ := ih h
      rw [List.cons_append, List.takeWhile_cons_of_pos hc, List.takeWhile_cons_of_pos hc,
        List.dropWhile_cons_of_pos hc, List.dropWhile_cons_of_pos hc, htake, hdrop]
      exact ⟨rfl, rfl⟩
    · rw [List.cons_append, List.takeWhile_cons_of_neg hc, List.takeWhile_cons_of_neg hc,
        List.dropWhile_cons_of_neg hc, List.dropWhile_cons_of_neg hc]
      exact ⟨rfl, rfl⟩

theorem skip_extends (h : skip text ≠ []) (more : List Char) : skip (text ++ more) = skip text ++ more :=
  (span_append h more).2

theorem map_eq_ok {α β : Type} {f : α → β} {read : Except LoadsError α} {result : β}
    (h : read.map f = .ok result) : ∃ before, read = .ok before ∧ result = f before := by
  cases read with
  | error error => cases h
  | ok before =>
    rw [Except.map, Except.ok.injEq] at h
    exact ⟨before, rfl, h.symm⟩

theorem scanText_extends {read : List CodePoint} (h : scanText text = .ok (read, rest)) (more : List Char) :
    scanText (text ++ more) = .ok (read, rest ++ more) := by
  -- One code point is read from each text, and the same one from the longer text.
  have hstep : ∀ {c : CodePoint} {tail : List Char} {read rest},
      (scanText tail).map (prepend c) = .ok (read, rest) →
      (∀ {read rest}, scanText tail = .ok (read, rest) → scanText (tail ++ more) = .ok (read, rest ++ more)) →
      (scanText (tail ++ more)).map (prepend c) = .ok (read, rest ++ more) := by
    intro c tail read rest hread ih
    obtain ⟨⟨before, after⟩, hbefore, hresult⟩ := map_eq_ok hread
    rw [prepend, Prod.mk.injEq] at hresult
    obtain ⟨rfl, rfl⟩ := hresult
    rw [ih hbefore]
    rfl
  fun_induction scanText text generalizing read rest with
  | case1 => cases h
  | case2 text =>
    rw [Except.ok.injEq, Prod.mk.injEq] at h
    obtain ⟨rfl, rfl⟩ := h
    rw [List.cons_append, scanText.eq_def]
    rfl
  | case3 a b c d text n hvalue _ ih =>
    simp only [List.cons_append]
    rw [scanText]
    simp only [hvalue, Char.reduceEq, if_false, if_true]
    exact hstep h ih
  | case4 => cases h
  | case5 c text hnot d hd _ ih =>
    have hu : c ≠ 'u' := by
      rintro rfl
      cases hd
    rw [List.cons_append, List.cons_append, scanText_escaped hd hu]
    exact hstep h ih
  | case6 => cases h
  | case7 => cases h
  | case8 => cases h
  | case9 c text hquote hbackslash hcontrol ih =>
    rw [List.cons_append, scanText.eq_def]
    simp only [if_neg hquote, if_neg hbackslash, if_neg hcontrol]
    exact hstep h ih

/-! ### Numbers and words -/

theorem scanMinus_cons (c : Char) (text : List Char) :
    scanMinus (c :: text) = if c = '-' then (true, text) else (false, c :: text) := by
  rw [scanMinus.eq_def]
  split
  · rename_i heq
    rw [List.cons.injEq] at heq
    rw [if_pos heq.1, heq.2]
  · rename_i hne
    rw [if_neg]
    rintro rfl
    exact hne text rfl

theorem scanWhole_cons (c : Char) (text : List Char) : scanWhole (c :: text) =
    if c = '0' then (['0'], text)
    else ((c :: text).takeWhile Char.isDigit, (c :: text).dropWhile Char.isDigit) := by
  rw [scanWhole.eq_def]
  split
  · rename_i heq
    rw [List.cons.injEq] at heq
    rw [if_pos heq.1, heq.2]
  · rename_i hne
    rw [if_neg]
    rintro rfl
    exact hne text rfl

theorem scanFraction_cons (c : Char) (text : List Char) : scanFraction (c :: text) =
    if c = '.' then
      if text.takeWhile Char.isDigit = [] then (none, '.' :: text)
      else (some (text.takeWhile Char.isDigit), text.dropWhile Char.isDigit)
    else (none, c :: text) := by
  rw [scanFraction.eq_def]
  split
  · rename_i heq
    rw [List.cons.injEq] at heq
    rw [if_pos heq.1, heq.2]
  · rename_i hne
    rw [if_neg]
    rintro rfl
    exact hne text rfl

theorem scanSign_cons (c : Char) (text : List Char) : scanSign (c :: text) =
    if c = '-' then (true, text) else if c = '+' then (false, text) else (false, c :: text) := by
  by_cases hminus : c = '-'
  · rw [hminus]
    rfl
  · by_cases hplus : c = '+'
    · rw [hplus]
      rfl
    · rw [if_neg hminus, if_neg hplus, scanSign]
      · exact fun rest heq => hminus (List.cons.inj heq).1
      · exact fun rest heq => hplus (List.cons.inj heq).1

theorem scanMinus_extends (h : text ≠ []) (more : List Char) :
    scanMinus (text ++ more) = ((scanMinus text).1, (scanMinus text).2 ++ more) := by
  rcases text with - | ⟨c, text⟩
  · exact absurd rfl h
  · rw [List.cons_append, scanMinus_cons, scanMinus_cons]
    split <;> rfl

theorem scanWhole_extends (h : (scanWhole text).2 ≠ []) (more : List Char) :
    scanWhole (text ++ more) = ((scanWhole text).1, (scanWhole text).2 ++ more) := by
  rcases text with - | ⟨c, text⟩
  · exact absurd rfl h
  · rw [scanWhole_cons] at h
    rw [List.cons_append, scanWhole_cons, scanWhole_cons]
    split
    · rfl
    · rename_i hzero
      rw [if_neg hzero] at h
      obtain ⟨htake, hdrop⟩ := span_append h more
      rw [← List.cons_append, htake, hdrop]

theorem scanFraction_extends (h : (scanFraction text).2 ≠ []) (hpoint : (scanFraction text).2.head? ≠ some '.')
    (more : List Char) :
    scanFraction (text ++ more) = ((scanFraction text).1, (scanFraction text).2 ++ more) := by
  rcases text with - | ⟨c, text⟩
  · exact absurd rfl h
  · rw [scanFraction_cons] at h hpoint
    rw [List.cons_append, scanFraction_cons, scanFraction_cons]
    by_cases hc : c = '.'
    · rw [if_pos hc] at h hpoint
      rw [if_pos hc, if_pos hc]
      by_cases hnone : text.takeWhile Char.isDigit = []
      · rw [if_pos hnone] at hpoint
        exact absurd rfl hpoint
      · rw [if_neg hnone] at h
        obtain ⟨htake, hdrop⟩ := span_append h more
        rw [htake, hdrop, if_neg hnone, if_neg hnone]
    · rw [if_neg hc, if_neg hc]
      rfl

theorem scanSign_extends (h : text ≠ []) (more : List Char) :
    scanSign (text ++ more) = ((scanSign text).1, (scanSign text).2 ++ more) := by
  rcases text with - | ⟨c, text⟩
  · exact absurd rfl h
  · rw [List.cons_append, scanSign_cons, scanSign_cons]
    split
    · rfl
    · split <;> rfl

theorem scanExponent_extends (hrest : (scanExponent text).2 ≠ []) (hends : Ends (scanExponent text).2)
    (more : List Char) :
    scanExponent (text ++ more) = ((scanExponent text).1, (scanExponent text).2 ++ more) := by
  rcases text with - | ⟨c, text⟩
  · exact absurd rfl hrest
  · rw [scanExponent] at hrest hends
    by_cases hread : (c = 'e' ∨ c = 'E') ∧ (scanSign text).2.takeWhile Char.isDigit ≠ []
    · rw [if_pos hread] at hrest hends
      have htext : text ≠ [] := by
        rintro rfl
        exact hread.2 rfl
      obtain ⟨htake, hdrop⟩ := span_append hrest more
      rw [List.cons_append, scanExponent, scanExponent, scanSign_extends htext more]
      simp only [htake, hdrop, if_pos hread]
    · rw [if_neg hread] at hends
      have hc := hends c rfl
      rw [List.cons_append, scanExponent, scanExponent, if_neg hread, if_neg]
      · rfl
      · rintro ⟨rfl | rfl, -⟩
        · exact hc.2.2.1 rfl
        · exact hc.2.2.2 rfl

/-- A point that a number could not use is left for what comes after it. -/
theorem head_ne_point (hends : Ends (scanExponent text).2) : text.head? ≠ some '.' := by
  rcases text with - | ⟨c, text⟩
  · exact nofun
  · rw [List.head?_cons, ne_eq, Option.some_inj]
    rintro rfl
    rw [scanExponent, if_neg (by rintro ⟨hexponent | hexponent, -⟩ <;> cases hexponent)] at hends
    exact (hends '.' rfl).2.1 rfl

theorem scanNumber_extends (h : scanNumber text = .ok (value, rest)) (hne : rest ≠ []) (hends : Ends rest)
    (more : List Char) : scanNumber (text ++ more) = .ok (value, rest ++ more) := by
  have htext : text ≠ [] := by
    rintro rfl
    cases h
  rw [scanNumber] at h
  dsimp only at h
  split at h
  · cases h
  · rename_i hwhole
    obtain ⟨number, hnumber, hresult⟩ := map_eq_ok h
    rw [Prod.mk.injEq] at hresult
    obtain ⟨rfl, hrest⟩ := hresult
    rw [hrest] at hne hends
    have hexponent := scanExponent_extends hne hends more
    have hfractionRest : (scanFraction (scanWhole (scanMinus text).2).2).2 ≠ [] := by
      intro hempty
      rw [hempty] at hne
      exact hne rfl
    have hfraction := scanFraction_extends hfractionRest (head_ne_point hends) more
    have hwholeRest : (scanWhole (scanMinus text).2).2 ≠ [] := by
      intro hempty
      rw [hempty] at hfractionRest
      exact hfractionRest rfl
    rw [scanNumber, scanMinus_extends htext more]
    simp only [scanWhole_extends hwholeRest more, if_neg hwhole, hfraction, hexponent, hnumber, hrest]
    rfl

/-! A word begins with a character that no other word and no number begins with. -/

theorem find_word (word : String × Json) (hword : word ∈ words) (rest : List Char) :
    (words.find? fun other => other.1.toList.isPrefixOf (word.1.toList ++ rest)) = some word := by
  simp only [words, List.mem_cons, List.not_mem_nil, or_false] at hword
  rcases hword with rfl | rfl | rfl | rfl | rfl | rfl <;> rfl

/-- What a number is read from begins with a digit, perhaps after a minus sign. -/
theorem scanNumber_head (h : scanNumber text = .ok (value, rest)) : ∃ c more, c.isDigit = true ∧
    (text = c :: more ∨ text = '-' :: c :: more) := by
  have hwhole : (scanWhole (scanMinus text).2).1 ≠ [] := by
    intro hempty
    rw [scanNumber] at h
    dsimp only at h
    rw [if_pos hempty] at h
    cases h
  have hdigit : ∀ text, (scanWhole text).1 ≠ [] → ∃ c more, c.isDigit = true ∧ text = c :: more := by
    intro text hread
    rcases text with - | ⟨c, text⟩
    · exact absurd rfl hread
    · refine ⟨c, text, ?_, rfl⟩
      rw [scanWhole_cons] at hread
      split at hread
      · rename_i hzero
        rw [hzero]
        rfl
      · by_contra hc
        rw [List.takeWhile_cons_of_neg hc] at hread
        exact hread rfl
  obtain ⟨c, more, hc, htext⟩ := hdigit _ hwhole
  rcases text with - | ⟨first, text⟩
  · cases htext
  · rw [scanMinus_cons] at htext
    split at htext
    · rename_i hminus
      have htail : text = c :: more := htext
      exact ⟨c, more, hc, .inr (by rw [hminus, htail])⟩
    · exact ⟨c, more, hc, .inl htext⟩

theorem scanAtom_extends (h : scanAtom text = .ok (value, rest)) (hne : rest ≠ []) (hends : Ends rest)
    (more : List Char) : scanAtom (text ++ more) = .ok (value, rest ++ more) := by
  rw [scanAtom] at h
  split at h
  · rename_i word hfound
    rw [Except.ok.injEq, Prod.mk.injEq] at h
    obtain ⟨rfl, rfl⟩ := h
    have hmem := List.mem_of_find?_eq_some hfound
    have hstarts := List.find?_some hfound
    obtain ⟨tail, rfl⟩ := List.isPrefixOf_iff_prefix.mp hstarts
    have hdrop : ∀ tail, List.drop word.1.length (word.1.toList ++ tail) = tail := by
      intro tail
      rw [← String.length_toList, List.drop_left]
    rw [List.append_assoc, scanAtom, find_word word hmem (tail ++ more)]
    simp only [hdrop]
  · rename_i hnone
    obtain ⟨c, tail, hc, htext⟩ := scanNumber_head h
    have hlonger : text ++ more = c :: (tail ++ more) ∨ text ++ more = '-' :: c :: (tail ++ more) := by
      rcases htext with rfl | rfl
      · exact .inl rfl
      · exact .inr rfl
    rw [scanAtom, find_words_none hc hlonger]
    exact scanNumber_extends h hne hends more

end Parts

/-! ### Containers -/

section Containers

variable {inner : Scanner Json} {fuel larger : Nat} {text rest more : List Char} {value : Json}

/-- What stands before a bracket, a brace or a comma is settled. -/
theorem settled_of_skip {c : Char} (hc : c ∈ [']', '}', ',']) (h : skip rest = c :: more) : Settled value rest := by
  apply settled_of_ends
  · rintro rfl
    cases h
  · intro d hd
    rcases rest with - | ⟨first, rest⟩
    · cases hd
    · rw [List.head?_cons, Option.mem_some_iff] at hd
      subst hd
      by_cases hblank : isBlank first = true
      · rw [isBlank, Bool.or_eq_true, Bool.or_eq_true, Bool.or_eq_true, beq_iff_eq, beq_iff_eq, beq_iff_eq,
          beq_iff_eq] at hblank
        rcases hblank with ((rfl | rfl) | rfl) | rfl <;> decide
      · rw [skip_cons (Bool.eq_false_iff.mpr hblank), List.cons.injEq] at h
        rw [h.1]
        simp only [List.mem_cons, List.not_mem_nil, or_false] at hc
        rcases hc with rfl | rfl | rfl <;> decide

theorem skip_extends_cons {c : Char} (h : skip text = c :: rest) (more : List Char) :
    skip (text ++ more) = c :: (rest ++ more) := by
  rw [skip_extends (by rw [h]; exact List.cons_ne_nil _ _), h]
  rfl

theorem skip_ne_nil {α : Type} {scanner : Scanner α} (hnothing : ∀ read, scanner [] ≠ .ok read)
    {read : α × List Char} (h : scanner (skip text) = .ok read) : skip text ≠ [] := by
  intro hempty
  rw [hempty] at h
  exact hnothing read h

theorem scanItems_nil (hinner : Extends inner) (fuel : Nat) (read : List Json × List Char) :
    scanItems inner fuel [] ≠ .ok read := by
  intro h
  rcases fuel with - | fuel
  · cases h
  · rw [scanItems] at h
    split at h
    · cases h
    · rename_i heq
      exact hinner.nothing _ heq

theorem scanItems_extends (hinner : Extends inner) {items : List Json} (hfuel : fuel ≤ larger)
    (h : scanItems inner fuel text = .ok (items, rest)) (more : List Char) :
    scanItems inner larger (text ++ more) = .ok (items, rest ++ more) := by
  induction fuel generalizing text items larger with
  | zero => cases h
  | succ fuel ih =>
    obtain ⟨larger, rfl⟩ := Nat.exists_eq_add_one_of_ne_zero (Nat.ne_of_gt (Nat.zero_lt_of_lt hfuel))
    rw [scanItems] at h
    split at h
    · cases h
    · rename_i item after hitem
      have hlonger : ∀ {c : Char} {tail : List Char}, c ∈ [']', '}', ','] → skip after = c :: tail →
          inner (text ++ more) = .ok (item, after ++ more) :=
        fun hc hskip => hinner.longer hitem (settled_of_skip hc hskip) more
      split at h
      · rename_i tail hskip
        rw [Except.ok.injEq, Prod.mk.injEq] at h
        obtain ⟨rfl, rfl⟩ := h
        rw [scanItems, hlonger (by decide) hskip]
        simp only [skip_extends_cons hskip]
      · rename_i tail hskip
        obtain ⟨⟨others, last⟩, hothers, hresult⟩ := map_eq_ok h
        rw [Prod.mk.injEq] at hresult
        obtain ⟨rfl, rfl⟩ := hresult
        have htail := skip_ne_nil (scanItems_nil hinner fuel) hothers
        rw [scanItems, hlonger (by decide) hskip]
        simp only [skip_extends_cons hskip, skip_extends htail, ih (Nat.le_of_succ_le_succ hfuel) hothers]
        rfl
      · cases h

/-- A member is read again if its value is settled. -/
theorem scanMember_extends (hinner : Extends inner) {member : List CodePoint × Json}
    (h : scanMember inner text = .ok (member, rest)) (hsettled : Settled member.2 rest) (more : List Char) :
    scanMember inner (text ++ more) = .ok (member, rest ++ more) := by
  rw [scanMember.eq_def] at h
  split at h
  · rename_i text
    split at h
    · cases h
    · rename_i name after htext
      split at h
      · rename_i tail hskip
        obtain ⟨⟨value, last⟩, hvalue, hresult⟩ := map_eq_ok h
        rw [Prod.mk.injEq] at hresult
        obtain ⟨rfl, rfl⟩ := hresult
        have htail := skip_ne_nil hinner.nothing hvalue
        rw [List.cons_append, scanMember, scanText_extends htext more]
        simp only [skip_extends_cons hskip, skip_extends htail, hinner.longer hvalue hsettled more]
        rfl
      · cases h
  · cases h

theorem scanMembers_nil (inner : Scanner Json) (fuel : Nat) (read : List (List CodePoint × Json) × List Char) :
    scanMembers inner fuel [] ≠ .ok read := by
  intro h
  rcases fuel with - | fuel <;> cases h

theorem scanMembers_extends (hinner : Extends inner) {members : List (List CodePoint × Json)}
    (hfuel : fuel ≤ larger) (h : scanMembers inner fuel text = .ok (members, rest)) (more : List Char) :
    scanMembers inner larger (text ++ more) = .ok (members, rest ++ more) := by
  induction fuel generalizing text members larger with
  | zero => cases h
  | succ fuel ih =>
    obtain ⟨larger, rfl⟩ := Nat.exists_eq_add_one_of_ne_zero (Nat.ne_of_gt (Nat.zero_lt_of_lt hfuel))
    rw [scanMembers] at h
    split at h
    · cases h
    · rename_i member after hmember
      have hlonger : ∀ {c : Char} {tail : List Char}, c ∈ [']', '}', ','] → skip after = c :: tail →
          scanMember inner (text ++ more) = .ok (member, after ++ more) :=
        fun hc hskip => scanMember_extends hinner hmember (settled_of_skip hc hskip) more
      split at h
      · rename_i tail hskip
        rw [Except.ok.injEq, Prod.mk.injEq] at h
        obtain ⟨rfl, rfl⟩ := h
        rw [scanMembers, hlonger (by decide) hskip]
        simp only [skip_extends_cons hskip]
      · rename_i tail hskip
        obtain ⟨⟨others, last⟩, hothers, hresult⟩ := map_eq_ok h
        rw [Prod.mk.injEq] at hresult
        obtain ⟨rfl, rfl⟩ := hresult
        have htail := skip_ne_nil (scanMembers_nil inner fuel) hothers
        rw [scanMembers, hlonger (by decide) hskip]
        simp only [skip_extends_cons hskip, skip_extends htail, ih (Nat.le_of_succ_le_succ hfuel) hothers]
        rfl
      · cases h

/-- A longer text begins as the text does. -/
theorem head_of_append {c : Char} (hne : text ≠ []) (h : text ++ more = c :: rest) : ∃ tail, text = c :: tail := by
  rcases text with - | ⟨first, text⟩
  · exact absurd rfl hne
  · rw [List.cons_append, List.cons.injEq] at h
    exact ⟨text, by rw [h.1]⟩

theorem scanArray_extends (hinner : Extends inner) (h : scanArray inner text = .ok (value, rest))
    (more : List Char) : scanArray inner (text ++ more) = .ok (value, rest ++ more) := by
  rw [scanArray] at h
  split at h
  · rename_i tail hskip
    rw [Except.ok.injEq, Prod.mk.injEq] at h
    obtain ⟨rfl, rfl⟩ := h
    rw [scanArray, skip_extends_cons hskip]
    rfl
  · rename_i hclosed
    obtain ⟨⟨items, last⟩, hitems, hresult⟩ := map_eq_ok h
    rw [Prod.mk.injEq] at hresult
    obtain ⟨rfl, rfl⟩ := hresult
    have hskip := skip_ne_nil (scanItems_nil hinner _) hitems
    rw [scanArray, skip_extends hskip]
    split
    · rename_i heq
      obtain ⟨tail, htail⟩ := head_of_append hskip heq
      exact absurd htail (hclosed tail)
    · rw [scanItems_extends hinner (by rw [List.length_append]; omega) hitems more]
      rfl

theorem scanObject_extends (hinner : Extends inner) (h : scanObject inner text = .ok (value, rest))
    (more : List Char) : scanObject inner (text ++ more) = .ok (value, rest ++ more) := by
  rw [scanObject] at h
  split at h
  · rename_i tail hskip
    rw [Except.ok.injEq, Prod.mk.injEq] at h
    obtain ⟨rfl, rfl⟩ := h
    rw [scanObject, skip_extends_cons hskip]
    rfl
  · rename_i hclosed
    obtain ⟨⟨members, last⟩, hmembers, hresult⟩ := map_eq_ok h
    rw [Prod.mk.injEq] at hresult
    obtain ⟨rfl, rfl⟩ := hresult
    have hskip := skip_ne_nil (scanMembers_nil inner _) hmembers
    rw [scanObject, skip_extends hskip]
    split
    · rename_i heq
      obtain ⟨tail, htail⟩ := head_of_append hskip heq
      exact absurd htail (hclosed tail)
    · rw [scanMembers_extends hinner (by rw [List.length_append]; omega) hmembers more]
      rfl

theorem scanNumber_settled {number : Json} (h : scanNumber text = .ok (number, rest))
    (hsettled : Settled number rest) : rest ≠ [] ∧ Ends rest := by
  rw [scanNumber] at h
  dsimp only at h
  split at h
  · cases h
  · obtain ⟨read, hread, hresult⟩ := map_eq_ok h
    rw [Prod.mk.injEq] at hresult
    obtain ⟨rfl, rfl⟩ := hresult
    rw [numberOf] at hread
    split at hread
    · split at hread
      · cases hread
      · rw [Except.ok.injEq] at hread
        subst hread
        exact hsettled
    · rw [Except.ok.injEq] at hread
      subst hread
      exact hsettled

theorem scanAtom_settled {atom : Json} (h : scanAtom text = .ok (atom, rest)) (hsettled : Settled atom rest) :
    rest ≠ [] ∧ Ends rest := by
  rw [scanAtom] at h
  split at h
  · rename_i word hfound
    rw [Except.ok.injEq, Prod.mk.injEq] at h
    obtain ⟨rfl, rfl⟩ := h
    have hword := List.mem_of_find?_eq_some hfound
    simp only [words, List.mem_cons, List.not_mem_nil, or_false] at hword
    rcases hword with rfl | rfl | rfl | rfl | rfl | rfl <;> exact hsettled
  · exact scanNumber_settled h hsettled

theorem scanValue_extends {inner : Option (Scanner Json)} (hinner : ∀ scanner ∈ inner, Extends scanner) :
    Extends (scanValue inner) where
  nothing := nofun
  longer := by
    intro text value rest h hsettled more
    rcases text with - | ⟨c, text⟩
    · cases h
    · rw [scanValue] at h
      rw [List.cons_append, scanValue]
      split_ifs at h with hquote hbrace hbracket
      · obtain ⟨⟨read, last⟩, hread, hresult⟩ := map_eq_ok h
        rw [Prod.mk.injEq] at hresult
        obtain ⟨rfl, rfl⟩ := hresult
        rw [if_pos hquote, scanText_extends hread more]
        rfl
      · rw [if_neg hquote, if_pos hbrace]
        cases inner with
        | none => cases h
        | some inner => exact scanObject_extends (hinner inner rfl) h more
      · rw [if_neg hquote, if_neg hbrace, if_pos hbracket]
        cases inner with
        | none => cases h
        | some inner => exact scanArray_extends (hinner inner rfl) h more
      · rw [if_neg hquote, if_neg hbrace, if_neg hbracket, ← List.cons_append]
        obtain ⟨hne, hends⟩ := scanAtom_settled h hsettled
        exact scanAtom_extends h hne hends more

/-- **What was read is read from a longer text too.** -/
theorem scan_extends (d : Nat) : Extends (scan d) := by
  induction d with
  | zero => exact scanValue_extends nofun
  | succ d ih =>
    apply scanValue_extends
    rintro scanner ⟨rfl⟩
    exact ih

end Containers

/-! ### Truncation -/

/-- On a text that breaks off, the reader finds that it does: no other error is raised. -/
def Cuts {α : Type} (inner : Scanner α) (text : List Char) : Prop :=
  ∀ front back error, front ++ back = text → inner front = .error error → error = .decode

section Cuts

variable {layout : Layout} {repr : Binary64 → List Char} {d level fuel : Nat} {inner : Scanner Json}
  {text front back rest : List Char} {value : Json} {error : LoadsError}

theorem scanText_error (h : scanText text = .error error) : error = .decode := by
  have hmap : ∀ {c : CodePoint} {tail : List Char}, (scanText tail).map (prepend c) = .error error →
      scanText tail = .error error := by
    intro c tail hread
    cases hscan : scanText tail with
    | error other =>
      rw [hscan] at hread
      exact hread
    | ok read =>
      rw [hscan] at hread
      cases hread
  fun_induction scanText text with
  | case1 => cases h; rfl
  | case2 => cases h
  | case3 _ _ _ _ _ _ _ _ ih => exact ih (hmap h)
  | case4 => cases h; rfl
  | case5 _ _ _ _ _ _ ih => exact ih (hmap h)
  | case6 => cases h; rfl
  | case7 => cases h; rfl
  | case8 => cases h; rfl
  | case9 _ _ _ _ _ ih => exact ih (hmap h)

/-- Only a whole number with too many digits is refused for them. -/
theorem scanNumber_error (h : scanNumber text = .error error) :
    error = .decode ∨ maxDigits < (scanWhole (scanMinus text).2).1.length := by
  rw [scanNumber] at h
  dsimp only at h
  split at h
  · cases h
    exact .inl rfl
  · rw [numberOf] at h
    split at h
    · split at h
      · rename_i hlong
        exact .inr hlong
      · cases h
    · cases h

theorem scanAtom_error (h : scanAtom text = .error error) :
    error = .decode ∨ maxDigits < (scanWhole (scanMinus text).2).1.length := by
  rw [scanAtom] at h
  split at h
  · cases h
  · exact scanNumber_error h

theorem length_scanWhole (text : List Char) : (scanWhole text).1.length ≤ text.length := by
  rcases text with - | ⟨c, text⟩
  · exact Nat.le_refl 0
  · rw [scanWhole_cons]
    split
    · exact Nat.succ_le_succ (Nat.zero_le _)
    · exact (List.takeWhile_prefix _).length_le

theorem length_scanMinus (text : List Char) : (scanMinus text).2.length ≤ text.length := by
  rcases text with - | ⟨c, text⟩
  · exact Nat.le_refl 0
  · rw [scanMinus_cons]
    split
    · exact Nat.le_succ _
    · exact Nat.le_refl _

theorem ends_front (h : Ends (front ++ back)) : Ends front := by
  rcases front with - | ⟨c, front⟩
  · exact ends_nil
  · exact ends_cons (h c rfl) front

/-- The doubles are written with few characters. -/
def Short (repr : Binary64 → List Char) : Prop := ∀ value, (repr value).length ≤ maxDigits

/-- Where the text of a number breaks off, not many digits are left. -/
theorem digits_of_cut (hshort : Short repr) (h : Writable repr value) (hstr : ∀ text, value ≠ .str text)
    (hdepth : depth value = 0) (hsplit : front ++ back = write layout repr level value) :
    (scanWhole (scanMinus front).2).1.length ≤ maxDigits := by
  have hfront : (scanWhole (scanMinus front).2).1.length ≤ (write layout repr level value).length := by
    rw [← hsplit, List.length_append]
    exact Nat.le_trans (length_scanWhole _) (Nat.le_trans (length_scanMinus front) (Nat.le_add_right _ _))
  cases value with
  | null =>
    rw [write] at hfront
    exact Nat.le_trans hfront (by decide)
  | bool b =>
    cases b with
    | true =>
      rw [write] at hfront
      exact Nat.le_trans hfront (by decide)
    | false =>
      rw [write] at hfront
      exact Nat.le_trans hfront (by decide)
  | int n =>
    rw [Writable] at h
    rw [write, writeInt] at hsplit hfront
    split at hsplit
    · rcases front with - | ⟨c, front⟩
      · exact Nat.zero_le _
      · rw [List.cons_append, List.cons.injEq] at hsplit
        have hlength := congrArg List.length hsplit.2
        rw [List.length_append] at hlength
        have hscanned := length_scanWhole front
        rw [hsplit.1, scanMinus_cons, if_pos rfl]
        show (scanWhole front).1.length ≤ maxDigits
        omega
    · rename_i hpositive
      rw [if_neg hpositive] at hfront
      exact Nat.le_trans hfront h
  | float x => exact Nat.le_trans hfront (hshort x)
  | str text => exact absurd rfl (hstr text)
  | arr items =>
    rw [depth] at hdepth
    omega
  | obj entries =>
    rw [depth] at hdepth
    omega

/-- An atom begins with none of the characters that a string or a container begins with. -/
theorem atom_head (h : Writable repr value) (hstr : ∀ text, value ≠ .str text) (hdepth : depth value = 0)
    {c : Char} {more : List Char} (hhead : write layout repr level value = c :: more) :
    c ≠ '"' ∧ c ≠ '{' ∧ c ≠ '[' := by
  have hread := @scanValue_write layout repr value [] h hdepth level ends_nil none
  rw [List.append_nil, hhead] at hread
  refine ⟨?_, ?_, ?_⟩
  · rintro rfl
    rw [scanValue, if_pos rfl] at hread
    obtain ⟨⟨read, last⟩, -, hresult⟩ := map_eq_ok hread
    rw [Prod.mk.injEq] at hresult
    exact hstr _ hresult.1
  · rintro rfl
    cases hread
  · rintro rfl
    cases hread

/-- A value that is no container. -/
theorem cuts_atom (hshort : Short repr) (h : Writable repr value) (hdepth : depth value = 0) (hends : Ends rest)
    (inner : Option (Scanner Json)) : Cuts (scanValue inner) (write layout repr level value ++ rest) := by
  intro front back error hsplit herror
  rcases List.append_eq_append_iff.mp hsplit with ⟨missing, hwritten, -⟩ | ⟨read, hfront, hrest⟩
  · rcases front with - | ⟨c, front⟩
    · cases herror
      rfl
    · by_cases hstr : ∃ text, value = .str text
      · obtain ⟨text, rfl⟩ := hstr
        have hquote : c = '"' := by
          rw [write, writeText, List.cons_append, List.cons_append, List.cons.injEq] at hwritten
          exact hwritten.1.symm
        rw [scanValue, if_pos hquote] at herror
        cases hscan : scanText front with
        | error other =>
          rw [hscan, Except.map, Except.error.injEq] at herror
          rw [← herror]
          exact scanText_error hscan
        | ok read =>
          rw [hscan] at herror
          cases herror
      · have hother : ∀ text, value ≠ .str text := fun text heq => hstr ⟨text, heq⟩
        obtain ⟨hquote, hbrace, hbracket⟩ := atom_head h hother hdepth hwritten
        rw [scanValue, if_neg hquote, if_neg hbrace, if_neg hbracket] at herror
        rcases scanAtom_error herror with hdecode | hlong
        · exact hdecode
        · exact absurd (digits_of_cut hshort h hother hdepth hwritten.symm) (Nat.not_le.mpr hlong)
  · rw [hfront, scanValue_write h hdepth level (ends_front (hrest ▸ hends)) inner] at herror
    cases herror

/-! What stands after a blank is found in a longer text too. -/

theorem skip_split {c : Char} {more tail : List Char} (hskip : skip front = c :: tail)
    (hsplit : front ++ back = text) (htext : skip text = c :: more) : tail ++ back = more := by
  have hlonger := skip_extends_cons hskip back
  rw [hsplit, htext, List.cons.injEq] at hlonger
  exact hlonger.2.symm

theorem skip_cut {blanks : List Char} (hblanks : Blank blanks) (hwritten : skip text = text)
    (hsplit : front ++ back = blanks ++ text) (hne : skip front ≠ []) : skip front ++ back = text := by
  rw [← skip_extends hne, hsplit, skip_append hblanks, hwritten]

theorem map_eq_error {α β : Type} {f : α → β} {read : Except LoadsError α} (h : read.map f = .error error) :
    read = .error error := by
  cases read with
  | error other =>
    rw [Except.map, Except.error.injEq] at h
    rw [h]
  | ok read => cases h

/-- What a value in a container is: it can be written, it is read back, and where it breaks off no
    other error is raised. -/
structure Sound (layout : Layout) (repr : Binary64 → List Char) (level : Nat) (inner : Scanner Json)
    (value : Json) : Prop where
  writable : Writable repr value
  reads : ∀ rest, Ends rest → inner (write layout repr level value ++ rest) = .ok (value, rest)
  cuts : ∀ rest, Ends rest → Cuts inner (write layout repr level value ++ rest)

/-- The items of an array, where the text breaks off in each of them as it may. -/
theorem scanItems_cut (hinner : Extends inner) (hnothing : ∀ error, inner [] = .error error → error = .decode)
    {item : Json} {items : List Json} (hitems : ∀ other ∈ item :: items, Sound layout repr (level + 1) inner other)
    (rest : List Char) : Cuts (scanItems inner fuel)
      (write layout repr (level + 1) item ++ (writeItems layout repr level items ++ rest)) := by
  intro front back error hsplit herror
  induction items generalizing item front fuel with
  | nil =>
    rcases fuel with - | fuel
    · cases herror
      rfl
    · have hitem := hitems item List.mem_cons_self
      have hends := @ends_writeItems layout repr level [] rest
      rw [scanItems] at herror
      split at herror
      · rename_i other hother
        cases herror
        exact hitem.cuts _ hends front back error hsplit hother
      · rename_i other after hother
        split at herror
        · cases herror
        · rename_i tail hskip
          -- The item is read as it was written, so that the bracket comes after it.
          have hlonger := hinner.longer hother (settled_of_skip (by decide) hskip) back
          rw [hsplit, hitem.reads _ hends, Except.ok.injEq, Prod.mk.injEq] at hlonger
          have hcomma := skip_extends_cons hskip back
          rw [← hlonger.2, writeItems, List.append_assoc, skip_append (layout.closing_blank level)] at hcomma
          cases hcomma
        · cases herror
          rfl
  | cons next items ih =>
    rcases fuel with - | fuel
    · cases herror
      rfl
    · have hitem := hitems item List.mem_cons_self
      have hothers := (List.forall_mem_cons.mp hitems).2
      have hends := @ends_writeItems layout repr level (next :: items) rest
      rw [scanItems] at herror
      split at herror
      · rename_i other hother
        cases herror
        exact hitem.cuts _ hends front back error hsplit hother
      · rename_i other after hother
        split at herror
        · cases herror
        · rename_i tail hskip
          have hlonger := hinner.longer hother (settled_of_skip (by decide) hskip) back
          rw [hsplit, hitem.reads _ hends, Except.ok.injEq, Prod.mk.injEq] at hlonger
          have htail := skip_split hskip hlonger.2.symm (by
            rw [writeItems, List.cons_append, List.cons_append, List.cons_append]
            exact skip_cons rfl _)
          simp only [List.append_assoc] at htail
          have hmore := map_eq_error herror
          by_cases hempty : skip tail = []
          · rw [hempty] at hmore
            rcases fuel with - | fuel
            · cases hmore
              rfl
            · rw [scanItems] at hmore
              split at hmore
              · rename_i other hother
                cases hmore
                exact hnothing error hother
              · rename_i heq
                exact absurd heq (hinner.nothing _)
          · have hnext := (hothers next List.mem_cons_self).writable
            exact ih hothers _ (skip_cut (layout.between_blank level) (skip_write hnext _ _) htail hempty) hmore
        · cases herror
          rfl

theorem scanMember_cut (hnothing : ∀ error, inner [] = .error error → error = .decode)
    (hvalue : Sound layout repr level inner value) (name : List CodePoint) (hrest : Ends rest) :
    Cuts (scanMember inner) (writeText name ++ ':' :: (layout.colon ++ (write layout repr level value ++ rest))) := by
  intro front back error hsplit herror
  rcases front with - | ⟨c, front⟩
  · cases herror
    rfl
  · rw [writeText, List.cons_append, List.cons_append, List.cons_append, List.append_assoc, List.cons.injEq] at hsplit
    obtain ⟨rfl, hsplit⟩ := hsplit
    rw [scanMember] at herror
    split at herror
    · rename_i other hother
      cases herror
      exact scanText_error hother
    · rename_i text after htext
      split at herror
      · rename_i tail hskip
        have hlonger := scanText_extends htext back
        rw [hsplit, List.singleton_append, scanText_flatMap, Except.ok.injEq, Prod.mk.injEq] at hlonger
        have htail := skip_split hskip hlonger.2.symm (skip_cons rfl _)
        have hmore := map_eq_error herror
        by_cases hempty : skip tail = []
        · rw [hempty] at hmore
          exact hnothing error hmore
        · exact hvalue.cuts rest hrest _ back error
            (skip_cut layout.colon_blank (skip_write hvalue.writable _ _) htail hempty) hmore
      · cases herror
        rfl

/-- A member that something stands behind is the one that was written. -/
theorem scanMember_rest (hinner : Extends inner) (hvalue : Sound layout repr level inner value)
    {name : List CodePoint} (hname : Unpaired name) (hrest : Ends rest) {member : List CodePoint × Json}
    {after tail : List Char} {c : Char}
    (hsplit : front ++ back = writeText name ++ ':' :: (layout.colon ++ (write layout repr level value ++ rest)))
    (hmember : scanMember inner front = .ok (member, after)) (hc : c ∈ [']', '}', ','])
    (hskip : skip after = c :: tail) : after ++ back = rest := by
  have hread : scanMember inner
      (writeText name ++ ':' :: layout.colon ++ write layout repr level value ++ rest) =
        .ok ((name, value), rest) := scanMember_write hname hvalue.writable hvalue.reads hrest
  simp only [List.append_assoc, List.cons_append] at hread
  have hlonger := scanMember_extends hinner hmember (settled_of_skip hc hskip) back
  rw [hsplit, hread, Except.ok.injEq, Prod.mk.injEq] at hlonger
  exact hlonger.2.symm

/-- The entries of an object, where the text breaks off in each of their values as it may. -/
theorem scanMembers_cut (hinner : Extends inner) (hnothing : ∀ error, inner [] = .error error → error = .decode)
    {name : List CodePoint} {entries : List (List CodePoint × Json)}
    (hentries : ∀ entry ∈ (name, value) :: entries,
      Unpaired entry.1 ∧ Sound layout repr (level + 1) inner entry.2) (rest : List Char) :
    Cuts (scanMembers inner fuel) (writeText name ++ ':' :: (layout.colon ++
      (write layout repr (level + 1) value ++ (writeEntries layout repr level entries ++ rest)))) := by
  intro front back error hsplit herror
  induction entries generalizing name value front fuel with
  | nil =>
    rcases fuel with - | fuel
    · cases herror
      rfl
    · obtain ⟨hname, hvalue⟩ := hentries (name, value) List.mem_cons_self
      have hends := @ends_writeEntries layout repr level [] rest
      rw [scanMembers] at herror
      split at herror
      · rename_i other hother
        cases herror
        exact scanMember_cut hnothing hvalue name hends front back error hsplit hother
      · rename_i other after hother
        split at herror
        · cases herror
        · rename_i tail hskip
          have hrest := scanMember_rest hinner hvalue hname hends hsplit hother (by decide) hskip
          have hcomma := skip_extends_cons hskip back
          rw [hrest, writeEntries, List.append_assoc, skip_append (layout.closing_blank level)] at hcomma
          cases hcomma
        · cases herror
          rfl
  | cons next entries ih =>
    obtain ⟨nextName, nextValue⟩ := next
    rcases fuel with - | fuel
    · cases herror
      rfl
    · obtain ⟨hname, hvalue⟩ := hentries (name, value) List.mem_cons_self
      have hothers := (List.forall_mem_cons.mp hentries).2
      have hends := @ends_writeEntries layout repr level ((nextName, nextValue) :: entries) rest
      rw [scanMembers] at herror
      split at herror
      · rename_i other hother
        cases herror
        exact scanMember_cut hnothing hvalue name hends front back error hsplit hother
      · rename_i other after hother
        split at herror
        · cases herror
        · rename_i tail hskip
          have hrest := scanMember_rest hinner hvalue hname hends hsplit hother (by decide) hskip
          have htail := skip_split hskip hrest (by
            simp only [writeEntries, List.cons_append]
            exact skip_cons rfl _)
          simp only [List.append_assoc, List.cons_append] at htail
          have hmore := map_eq_error herror
          by_cases hempty : skip tail = []
          · rw [hempty] at hmore
            rcases fuel with - | fuel <;> cases hmore <;> rfl
          · exact ih hothers _ (skip_cut (layout.between_blank level) (skip_cons rfl _) htail hempty) hmore
        · cases herror
          rfl

/-- An array and an object after their bracket. -/
theorem scanArray_cut (hinner : Extends inner) (hnothing : ∀ error, inner [] = .error error → error = .decode)
    {item : Json} {items : List Json} (hitems : ∀ other ∈ item :: items, Sound layout repr (level + 1) inner other)
    (rest : List Char) : Cuts (scanArray inner) (layout.opening level ++
      (write layout repr (level + 1) item ++ (writeItems layout repr level items ++ rest))) := by
  intro front back error hsplit herror
  rw [scanArray] at herror
  split at herror
  · cases herror
  · have hmore := map_eq_error herror
    by_cases hempty : skip front = []
    · rw [hempty] at hmore
      cases hmore
      rfl
    · have hitem := (hitems item List.mem_cons_self).writable
      exact scanItems_cut hinner hnothing hitems rest _ back error
        (skip_cut (layout.opening_blank level) (skip_write hitem _ _) hsplit hempty) hmore

theorem scanObject_cut (hinner : Extends inner) (hnothing : ∀ error, inner [] = .error error → error = .decode)
    {name : List CodePoint} {entries : List (List CodePoint × Json)}
    (hentries : ∀ entry ∈ (name, value) :: entries,
      Unpaired entry.1 ∧ Sound layout repr (level + 1) inner entry.2) (rest : List Char) :
    Cuts (scanObject inner) (layout.opening level ++ (writeText name ++ ':' :: (layout.colon ++
      (write layout repr (level + 1) value ++ (writeEntries layout repr level entries ++ rest))))) := by
  intro front back error hsplit herror
  rw [scanObject] at herror
  split at herror
  · cases herror
  · have hmore := map_eq_error herror
    by_cases hempty : skip front = []
    · rw [hempty] at hmore
      cases hmore
      rfl
    · exact scanMembers_cut hinner hnothing hentries rest _ back error
        (skip_cut (layout.opening_blank level) (skip_cons rfl _) hsplit hempty) hmore

/-- An empty container has a bracket or a brace only. -/
theorem scanArray_cut_nil (rest : List Char) : Cuts (scanArray inner) (']' :: rest) := by
  intro front back error hsplit herror
  rcases front with - | ⟨c, front⟩
  · cases herror
    rfl
  · rw [List.cons_append, List.cons.injEq] at hsplit
    rw [hsplit.1] at herror
    cases herror

theorem scanObject_cut_nil (rest : List Char) : Cuts (scanObject inner) ('}' :: rest) := by
  intro front back error hsplit herror
  rcases front with - | ⟨c, front⟩
  · cases herror
    rfl
  · rw [List.cons_append, List.cons.injEq] at hsplit
    rw [hsplit.1] at herror
    cases herror

theorem scan_cut_array (h : Cuts (scanArray (scan d)) text) : Cuts (scan (d + 1)) ('[' :: text) := by
  intro front back error hsplit herror
  rcases front with - | ⟨c, front⟩
  · cases herror
    rfl
  · rw [List.cons_append, List.cons.injEq] at hsplit
    rw [hsplit.1, scan, scanValue, if_neg (by decide), if_neg (by decide), if_pos rfl] at herror
    exact h front back error hsplit.2 herror

theorem scan_cut_object (h : Cuts (scanObject (scan d)) text) : Cuts (scan (d + 1)) ('{' :: text) := by
  intro front back error hsplit herror
  rcases front with - | ⟨c, front⟩
  · cases herror
    rfl
  · rw [List.cons_append, List.cons.injEq] at hsplit
    rw [hsplit.1, scan, scanValue, if_neg (by decide), if_pos rfl] at herror
    exact h front back error hsplit.2 herror

/-- **Where a text breaks off, only that is found.** -/
theorem scan_cuts (hshort : Short repr) (h : Writable repr value) (hdepth : depth value ≤ d) (level : Nat)
    (hrest : Ends rest) : Cuts (scan d) (write layout repr level value ++ rest) := by
  induction d generalizing value level rest with
  | zero => exact cuts_atom hshort h (Nat.le_zero.mp hdepth) hrest none
  | succ d ih =>
    have hinner := scan_extends d
    have hnothing : ∀ error, scan d [] = .error error → error = .decode := by
      intro error herror
      rcases d with - | d <;> cases herror <;> rfl
    have hsound : ∀ value, Writable repr value → depth value ≤ d → Sound layout repr (level + 1) (scan d) value :=
      fun value hvalue hdepth => ⟨hvalue, fun rest hrest => scan_write hvalue hdepth _ hrest,
        fun rest hrest => ih hvalue hdepth _ hrest⟩
    cases value with
    | arr items =>
      rw [Writable, writableItems_iff] at h
      rw [depth, Nat.add_le_add_iff_right, depthItems_le] at hdepth
      rcases items with - | ⟨item, items⟩
      · exact scan_cut_array (scanArray_cut_nil rest)
      · have hcut := scanArray_cut hinner hnothing
          (fun other hother => hsound other (h other hother) (hdepth other hother)) rest
        simp only [write, List.cons_append, List.append_assoc]
        exact scan_cut_array hcut
    | obj entries =>
      rw [Writable, writableEntries_iff] at h
      rw [depth, Nat.add_le_add_iff_right, depthEntries_le] at hdepth
      rcases entries with - | ⟨⟨name, value⟩, entries⟩
      · exact scan_cut_object (scanObject_cut_nil rest)
      · have hcut := scanObject_cut hinner hnothing (fun entry hentry => ⟨(h.2 entry hentry).1,
          hsound entry.2 (h.2 entry hentry).2 (hdepth entry hentry)⟩) rest
        simp only [write, List.cons_append, List.append_assoc]
        exact scan_cut_object hcut
    | null => exact cuts_atom hshort h rfl hrest _
    | bool b => exact cuts_atom hshort h rfl hrest _
    | int n => exact cuts_atom hshort h rfl hrest _
    | float x => exact cuts_atom hshort h rfl hrest _
    | str text => exact cuts_atom hshort h rfl hrest _

/-! An object that breaks off. -/

/-- A value that begins with a brace is an object. -/
theorem scan_brace (h : scan d ('{' :: text) = .ok (value, rest)) : ∃ entries, value = .obj entries := by
  rcases d with - | d
  · cases h
  · rw [scan, scanValue, if_neg (by decide), if_pos rfl, Option.elim_some, scanObject] at h
    split at h
    · rw [Except.ok.injEq, Prod.mk.injEq] at h
      exact ⟨[], h.1.symm⟩
    · obtain ⟨members, -, hresult⟩ := map_eq_ok h
      rw [Prod.mk.injEq] at hresult
      exact ⟨_, hresult.1⟩

theorem write_obj_head (level : Nat) (entries : List (List CodePoint × Json)) :
    ∃ tail, write layout repr level (.obj entries) = '{' :: tail := by
  rcases entries with - | ⟨⟨name, value⟩, entries⟩
  · exact ⟨_, rfl⟩
  · exact ⟨_, rfl⟩

/-- **No text that breaks off inside an object is read.** -/
theorem loads_cut (hshort : Short repr) {entries : List (List CodePoint × Json)} (h : Writable repr (.obj entries))
    (hdepth : depth (.obj entries) ≤ d) (level : Nat) (hback : back ≠ [])
    (hsplit : front ++ back = write layout repr level (.obj entries)) :
    loads d front = .error .decode := by
  have hwritten : front ++ back = write layout repr level (.obj entries) ++ [] := by
    rw [hsplit, List.append_nil]
  have hwhole := @scan_write layout repr d _ [] h hdepth level ends_nil
  have hcuts := @scan_cuts layout repr d [] _ hshort h hdepth level ends_nil
  obtain ⟨tail, htail⟩ := @write_obj_head layout repr level entries
  rcases front with - | ⟨c, front⟩
  · rcases d with - | d <;> rfl
  · have hc : c = '{' := by
      rw [htail, List.cons_append, List.cons.injEq] at hsplit
      exact hsplit.1
    subst hc
    rw [loads, if_neg (by rw [List.head?_cons, Option.some_inj]; decide), skip_cons rfl]
    cases hread : scan d ('{' :: front) with
    | error error => exact congrArg Except.error (hcuts _ _ _ hwritten hread)
    | ok read =>
      obtain ⟨value, rest⟩ := read
      obtain ⟨others, rfl⟩ := scan_brace hread
      -- The longer text is read to its end, so that nothing of it was missing.
      have hlonger := (scan_extends d).longer hread trivial back
      rw [hwritten, hwhole, Except.ok.injEq, Prod.mk.injEq] at hlonger
      exact absurd (List.append_eq_nil_iff.mp hlonger.2.symm).2 hback

end Cuts

end AgenticPlatform.Json
