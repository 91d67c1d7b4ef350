import AgenticPlatform.JsonTruncation
import Mathlib.Data.List.Count

/-!
# How often a character stands in a document

A document weighs as much as a character stands in its strings, where each string adds the two
quotation marks around it if that is the character. Written, it has the character so often; and
what is read from a text in which no escape stands for the character weighs no more than the
text has of it.
-/

namespace AgenticPlatform.Json

open Utf8 (CodePoint)

/-! ### Weights -/

section Weights

variable (sign : Char)

/-- What the quotation marks of a string add. -/
def quotes : Nat := if sign = '"' then 2 else 0

/-- How often the character stands in a text. -/
def countOf (text : List CodePoint) : Nat := text.countP fun c => c.val == sign.toNat

mutual

def weight : Json → Nat
  | .str text => countOf sign text + quotes sign
  | .arr items => weightItems items
  | .obj entries => weightEntries entries
  | _ => 0

def weightItems : List Json → Nat
  | [] => 0
  | item :: items => weight item + weightItems items

def weightEntries : List (List CodePoint × Json) → Nat
  | [] => 0
  | (name, value) :: entries => countOf sign name + quotes sign + weight value + weightEntries entries

end

/-- Every string that could be read in the text costs what it weighs: the character stands there in
    the quotation marks and between them so often at least. -/
def Pays (text : List Char) : Prop :=
  ∀ front back chars rest, text = front ++ '"' :: back → scanText back = .ok (chars, rest) →
    countOf sign chars + quotes sign + rest.count sign ≤ ('"' :: back).count sign

end Weights

section Reading

variable {sign : Char} {text front back rest : List Char} {value : Json} {fuel m : Nat} {inner : Scanner Json}
  {entries : List (List CodePoint × Json)}

theorem Pays.part (h : Pays sign text) (hpart : back <:+: text) : Pays sign back := by
  obtain ⟨before, after, rfl⟩ := hpart
  intro front tail chars rest htail hread
  have hlonger := scanText_extends hread after
  have hcost := h (before ++ front) (tail ++ after) chars (rest ++ after)
    (by rw [htail]; simp) hlonger
  simp only [List.count_cons, List.count_append] at hcost ⊢
  omega

theorem Pays.suffix (h : Pays sign text) (hsuffix : back <:+ text) : Pays sign back :=
  h.part hsuffix.isInfix

theorem count_le_of_suffix (h : rest <:+ text) : rest.count sign ≤ text.count sign :=
  h.sublist.count_le sign

theorem skip_suffix (text : List Char) : skip text <:+ text := List.dropWhile_suffix isBlank

theorem scanText_suffix {chars : List CodePoint} (h : scanText text = .ok (chars, rest)) : rest <:+ text := by
  have hstep : ∀ {c : CodePoint} {tail : List Char} {chars rest},
      (scanText tail).map (prepend c) = .ok (chars, rest) →
      (∀ {chars rest}, scanText tail = .ok (chars, rest) → rest <:+ tail) → rest <:+ tail := by
    intro c tail chars rest hread ih
    obtain ⟨⟨before, after⟩, hbefore, hresult⟩ := map_eq_ok hread
    rw [prepend, Prod.mk.injEq] at hresult
    rw [hresult.2]
    exact ih hbefore
  fun_induction scanText text generalizing chars rest with
  | case1 => cases h
  | case2 text =>
    rw [Except.ok.injEq, Prod.mk.injEq] at h
    rw [← h.2]
    exact List.suffix_cons _ _
  | case3 a b c d text n hvalue _ ih =>
    exact (hstep h ih).trans ⟨['\\', 'u', a, b, c, d], rfl⟩
  | case4 => cases h
  | case5 c text hnot d hd _ ih => exact (hstep h ih).trans ⟨['\\', c], rfl⟩
  | case6 => cases h
  | case7 => cases h
  | case8 => cases h
  | case9 c text hquote hbackslash hcontrol ih => exact (hstep h ih).trans (List.suffix_cons c text)

theorem scanMinus_suffix (text : List Char) : (scanMinus text).2 <:+ text := by
  rw [scanMinus.eq_def]
  split
  · exact List.suffix_cons _ _
  · exact List.suffix_rfl

theorem scanWhole_suffix (text : List Char) : (scanWhole text).2 <:+ text := by
  rw [scanWhole.eq_def]
  split
  · exact List.suffix_cons _ _
  · exact List.dropWhile_suffix _

theorem scanFraction_suffix (text : List Char) : (scanFraction text).2 <:+ text := by
  rw [scanFraction.eq_def]
  split
  · split
    · exact List.suffix_rfl
    · exact (List.dropWhile_suffix _).trans (List.suffix_cons _ _)
  · exact List.suffix_rfl

theorem scanSign_suffix (text : List Char) : (scanSign text).2 <:+ text := by
  rw [scanSign.eq_def]
  split
  · exact List.suffix_cons _ _
  · exact List.suffix_cons _ _
  · exact List.suffix_rfl

theorem scanExponent_suffix (text : List Char) : (scanExponent text).2 <:+ text := by
  rw [scanExponent.eq_def]
  split
  · exact List.suffix_rfl
  · split
    · exact ((List.dropWhile_suffix _).trans (scanSign_suffix _)).trans (List.suffix_cons _ _)
    · exact List.suffix_rfl

/-- What is read as a number is no container and no string. -/
theorem scanNumber_weight (h : scanNumber text = .ok (value, rest)) :
    rest <:+ text ∧ weight sign value = 0 := by
  rw [scanNumber] at h
  dsimp only at h
  split at h
  · cases h
  · obtain ⟨number, hnumber, hresult⟩ := map_eq_ok h
    rw [Prod.mk.injEq] at hresult
    obtain ⟨rfl, rfl⟩ := hresult
    refine ⟨?_, ?_⟩
    · exact (((scanExponent_suffix _).trans (scanFraction_suffix _)).trans (scanWhole_suffix _)).trans
        (scanMinus_suffix text)
    · rw [numberOf] at hnumber
      split at hnumber
      · split at hnumber
        · cases hnumber
        · cases hnumber
          simp [weight]
      · cases hnumber
        simp [weight]

theorem scanAtom_weight (h : scanAtom text = .ok (value, rest)) : rest <:+ text ∧ weight sign value = 0 := by
  rw [scanAtom] at h
  split at h
  · rename_i word hfound
    rw [Except.ok.injEq, Prod.mk.injEq] at h
    obtain ⟨rfl, rfl⟩ := h
    have hword := List.mem_of_find?_eq_some hfound
    simp only [words, List.mem_cons, List.not_mem_nil, or_false] at hword
    refine ⟨List.drop_suffix _ _, ?_⟩
    rcases hword with rfl | rfl | rfl | rfl | rfl | rfl <;> simp [weight]
  · exact scanNumber_weight h

/-! Names that stand twice count once. -/

theorem weight_setItem_le (name : List CodePoint) (value : Json) :
    weightEntries sign (setItem name value entries) ≤
      weightEntries sign entries + (countOf sign name + quotes sign + weight sign value) := by
  induction entries with
  | nil => simp [setItem, weightEntries]
  | cons entry entries ih =>
    obtain ⟨other, old⟩ := entry
    rw [setItem]
    split
    · simp only [weightEntries]
      omega
    · simp only [weightEntries]
      omega

theorem weight_ofPairs_le (pairs : List (List CodePoint × Json)) :
    weightEntries sign (ofPairs pairs) ≤ weightEntries sign pairs := by
  have hfold : ∀ done : List (List CodePoint × Json),
      weightEntries sign (pairs.foldl (fun entries pair => setItem pair.1 pair.2 entries) done) ≤
        weightEntries sign done + weightEntries sign pairs := by
    induction pairs with
    | nil => exact fun done => Nat.le_refl _
    | cons pair pairs ih =>
      intro done
      obtain ⟨name, value⟩ := pair
      have hitem := @weight_setItem_le sign done name value
      have hrest := ih (setItem name value done)
      simp only [List.foldl_cons, weightEntries] at hrest ⊢
      omega
  have hall := hfold []
  rwa [weightEntries, Nat.zero_add] at hall

/-- Putting surrogates together makes no character of the basic plane. -/
theorem countOf_joinSurrogates_le (hsign : sign.toNat < 0x10000) (chars : List CodePoint) :
    countOf sign (joinSurrogates chars) ≤ countOf sign chars := by
  fun_induction joinSurrogates chars with
  | case1 => exact Nat.le_refl _
  | case2 => exact Nat.le_refl _
  | case3 high low rest hpair ih =>
    have hastral : ((codePoint (0x10000 + (high.val - 0xD800) * 0x400 + (low.val - 0xDC00))).val ==
        sign.toNat) = false := by
      obtain ⟨hhigh, hlow⟩ := hpair
      rw [isHigh, Bool.and_eq_true, decide_eq_true_iff, decide_eq_true_iff] at hhigh
      rw [isLow, Bool.and_eq_true, decide_eq_true_iff, decide_eq_true_iff] at hlow
      rw [val_codePoint (by omega), beq_eq_false_iff_ne]
      omega
    simp only [countOf, List.countP_cons, hastral] at ih ⊢
    simp only [Bool.false_eq_true, if_false]
    omega
  | case4 high low rest hpair ih =>
    simp only [countOf, List.countP_cons] at ih ⊢
    omega

/-! ### What is read weighs no more than its text -/

/-- What is read up to `rest` costs no more than the text has. -/
def Spent (sign : Char) (text : List Char) (cost : Nat) (rest : List Char) : Prop :=
  rest <:+ text ∧ (Pays sign text → cost + rest.count sign ≤ text.count sign)

theorem spent_nothing (h : rest <:+ text) : Spent sign text 0 rest :=
  ⟨h, fun _ => (Nat.zero_add _).trans_le (count_le_of_suffix h)⟩

theorem Spent.trans {middle : List Char} {m n : Nat} (hfirst : Spent sign text m middle)
    (hsecond : Spent sign middle n rest) : Spent sign text (m + n) rest := by
  refine ⟨hsecond.1.trans hfirst.1, ?_⟩
  intro hpays
  have hmiddle := hfirst.2 hpays
  have hrest := hsecond.2 (hpays.suffix hfirst.1)
  omega

theorem Spent.le {m n : Nat} (h : Spent sign text n rest) (hle : m ≤ n) : Spent sign text m rest :=
  ⟨h.1, fun hpays => (Nat.add_le_add_right hle _).trans (h.2 hpays)⟩

theorem Spent.skip (h : Spent sign text m rest) : Spent sign text m (skip rest) :=
  h.trans (spent_nothing (skip_suffix rest))

theorem Spent.tail {c : Char} (h : Spent sign text m (c :: rest)) : Spent sign text m rest :=
  h.trans (spent_nothing (List.suffix_cons c rest))

/-- The reader costs what the value weighs. -/
def Paid (sign : Char) (inner : Scanner Json) : Prop :=
  ∀ text value rest, inner text = .ok (value, rest) → Spent sign text (weight sign value) rest

theorem spent_text (hsign : sign.toNat < 0x10000) {chars : List CodePoint}
    (h : scanText text = .ok (chars, rest)) :
    Spent sign ('"' :: text) (countOf sign (joinSurrogates chars) + quotes sign) rest := by
  refine ⟨(scanText_suffix h).trans (List.suffix_cons '"' text), ?_⟩
  intro hpays
  have hcost := hpays [] text chars rest rfl h
  have hjoined := countOf_joinSurrogates_le hsign chars
  omega

theorem scanItems_spent (hinner : Paid sign inner) {items : List Json}
    (h : scanItems inner fuel text = .ok (items, rest)) : Spent sign text (weightItems sign items) rest := by
  induction fuel generalizing text items with
  | zero => cases h
  | succ fuel ih =>
    rw [scanItems] at h
    split at h
    · cases h
    · rename_i item behind hitem
      have hspent := (hinner _ _ _ hitem).skip
      split at h
      · rename_i tail hclose
        cases h
        rw [hclose] at hspent
        simp only [weightItems, Nat.add_zero]
        exact hspent.tail
      · rename_i tail hcomma
        rw [hcomma] at hspent
        obtain ⟨⟨others, last⟩, hothers, hresult⟩ := map_eq_ok h
        rw [Prod.mk.injEq] at hresult
        obtain ⟨rfl, rfl⟩ := hresult
        simp only [weightItems]
        exact hspent.tail.skip.trans (ih hothers)
      · cases h

theorem scanMember_spent (hsign : sign.toNat < 0x10000) (hinner : Paid sign inner)
    {member : List CodePoint × Json} (h : scanMember inner text = .ok (member, rest)) :
    Spent sign text (countOf sign member.1 + quotes sign + weight sign member.2) rest := by
  rw [scanMember.eq_def] at h
  split at h
  · split at h
    · cases h
    · rename_i name behind hname
      have hspent := (spent_text hsign hname).skip
      split at h
      · rename_i more hcolon
        rw [hcolon] at hspent
        obtain ⟨⟨value, last⟩, hvalue, hresult⟩ := map_eq_ok h
        rw [Prod.mk.injEq] at hresult
        obtain ⟨rfl, rfl⟩ := hresult
        exact hspent.tail.skip.trans (hinner _ _ _ hvalue)
      · cases h
  · cases h

theorem scanMembers_spent (hsign : sign.toNat < 0x10000) (hinner : Paid sign inner)
    {members : List (List CodePoint × Json)} (h : scanMembers inner fuel text = .ok (members, rest)) :
    Spent sign text (weightEntries sign members) rest := by
  induction fuel generalizing text members with
  | zero => cases h
  | succ fuel ih =>
    rw [scanMembers] at h
    split at h
    · cases h
    · rename_i member behind hmember
      have hspent := (scanMember_spent hsign hinner hmember).skip
      split at h
      · rename_i tail hclose
        cases h
        rw [hclose] at hspent
        simp only [weightEntries, Nat.add_zero]
        exact hspent.tail
      · rename_i tail hcomma
        rw [hcomma] at hspent
        obtain ⟨⟨others, last⟩, hothers, hresult⟩ := map_eq_ok h
        rw [Prod.mk.injEq] at hresult
        obtain ⟨rfl, rfl⟩ := hresult
        simp only [weightEntries]
        exact hspent.tail.skip.trans (ih hothers)
      · cases h

theorem scanArray_spent (hinner : Paid sign inner) (h : scanArray inner text = .ok (value, rest)) :
    Spent sign text (weight sign value) rest := by
  have hskip := @spent_nothing sign text _ (skip_suffix text)
  rw [scanArray] at h
  split at h
  · rename_i tail hclose
    cases h
    rw [hclose] at hskip
    simp only [weight, weightItems]
    exact hskip.tail
  · obtain ⟨⟨items, last⟩, hitems, hresult⟩ := map_eq_ok h
    rw [Prod.mk.injEq] at hresult
    obtain ⟨rfl, rfl⟩ := hresult
    have hspent := hskip.trans (scanItems_spent hinner hitems)
    simp only [weight]
    rwa [Nat.zero_add] at hspent

theorem scanObject_spent (hsign : sign.toNat < 0x10000) (hinner : Paid sign inner)
    (h : scanObject inner text = .ok (value, rest)) : Spent sign text (weight sign value) rest := by
  have hskip := @spent_nothing sign text _ (skip_suffix text)
  rw [scanObject] at h
  split at h
  · rename_i tail hclose
    cases h
    rw [hclose] at hskip
    simp only [weight, weightEntries]
    exact hskip.tail
  · obtain ⟨⟨members, last⟩, hmembers, hresult⟩ := map_eq_ok h
    rw [Prod.mk.injEq] at hresult
    obtain ⟨rfl, rfl⟩ := hresult
    have hspent := hskip.trans (scanMembers_spent hsign hinner hmembers)
    simp only [weight]
    rw [Nat.zero_add] at hspent
    exact hspent.le (weight_ofPairs_le members)

theorem scanValue_paid (hsign : sign.toNat < 0x10000) {inner : Option (Scanner Json)}
    (hinner : ∀ scanner ∈ inner, Paid sign scanner) : Paid sign (scanValue inner) := by
  intro text value rest h
  rcases text with - | ⟨c, text⟩
  · cases h
  · have hcons := @spent_nothing sign (c :: text) _ (List.suffix_cons c text)
    rw [scanValue] at h
    split at h
    · rename_i hquote
      obtain ⟨⟨chars, last⟩, hread, hresult⟩ := map_eq_ok h
      rw [Prod.mk.injEq] at hresult
      obtain ⟨rfl, rfl⟩ := hresult
      rw [hquote]
      simp only [weight]
      exact spent_text hsign hread
    · split at h
      · rcases inner with - | scanner
        · cases h
        · have hspent := hcons.trans (scanObject_spent hsign (hinner scanner rfl) h)
          rwa [Nat.zero_add] at hspent
      · split at h
        · rcases inner with - | scanner
          · cases h
          · have hspent := hcons.trans (scanArray_spent (hinner scanner rfl) h)
            rwa [Nat.zero_add] at hspent
        · obtain ⟨hsuffix, hweight⟩ := @scanAtom_weight sign _ _ _ h
          rw [hweight]
          exact spent_nothing hsuffix

theorem scan_paid (hsign : sign.toNat < 0x10000) (limit : Nat) : Paid sign (scan limit) := by
  induction limit with
  | zero => exact scanValue_paid hsign (by rintro scanner ⟨⟩)
  | succ limit ih =>
    refine scanValue_paid hsign ?_
    intro scanner hscanner
    rw [Option.mem_some_iff] at hscanner
    rwa [← hscanner]

/-- **A document weighs no more than the text that it was read from.** -/
theorem weight_le_of_loads (hsign : sign.toNat < 0x10000) {limit : Nat} (hpays : Pays sign text)
    (h : loads limit text = .ok value) : weight sign value ≤ text.count sign := by
  rw [loads] at h
  split at h
  · cases h
  · have hskip := @spent_nothing sign text _ (skip_suffix text)
    cases hread : scan limit (skip text) with
    | error error =>
      rw [hread] at h
      cases h
    | ok read =>
      obtain ⟨found, behind⟩ := read
      rw [hread] at h
      dsimp only at h
      split at h
      · cases h
        have hcost := (hskip.trans (scan_paid hsign limit _ _ _ hread)).2 hpays
        omega
      · cases h

end Reading

end AgenticPlatform.Json
